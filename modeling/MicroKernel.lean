import MicroKernel.Lib.Store
import MicroKernel.Bus.RetroboardRev2
import MicroKernel.Bus.RetroAvrX4
import MicroKernel.X4.Step
import MicroKernel.X4.Segmentation
import MicroKernel.X4.Bounds
import MicroKernel.Fs.Header
import MicroKernel.Fs.Allocate
import MicroKernel.Fs.File
import MicroKernel.Fs.Device
import MicroKernel.Fs.Ownership
import MicroKernel.Fs.Session
import MicroKernel.Fs.Containment
import MicroKernel.Fs.Isolation
import MicroKernel.Fs.Transfer
import MicroKernel.Fs.Links
import MicroKernel.Fs.Atomicity
import MicroKernel.Lib.Linked
import MicroKernel.Fs.ReadWrite
import MicroKernel.Network.Packet
import MicroKernel.Scheduler
import MicroKernel.X4.Run
import MicroKernel.Lib.Related
import MicroKernel.X4.History
import MicroKernel.Network.Registration
import MicroKernel.Network.Binding
import MicroKernel.Network.Server
import MicroKernel.Lib.Flood
import MicroKernel.Network.Routers
import MicroKernel.Network.Delivery
import MicroKernel.Fs.Listing
import MicroKernel.Fs.Blocks
import MicroKernel.Fs.Chain
import MicroKernel.Fs.Update
import MicroKernel.Fs.Removal
import MicroKernel.Fs.Contents
import MicroKernel.Fs.Names
import MicroKernel.Fs.Fill
import MicroKernel.Fs.Lookup
import MicroKernel.Fs.Format
import MicroKernel.Fs.FirstFit
import MicroKernel.Fs.OpenTable
import MicroKernel.Fs.Capacity
import MicroKernel.Fs.Medium
import MicroKernel.Fs.Geometry
import MicroKernel.Nested
import MicroKernel.Command.Lookup
import MicroKernel.Fs.Faithful
import MicroKernel.Lib.Brackets
import MicroKernel.X4.Branch
import MicroKernel.X4.Exposure
import MicroKernel.Lib.RoundRobin
import MicroKernel.ProcessMemory
import MicroKernel.Schedule
import MicroKernel.Watchdog
import MicroKernel.Interrupt
import MicroKernel.Network.Ping
import MicroKernel.Network.Scan
import MicroKernel.Kalloc
import MicroKernel.Fs.Lifetime
import MicroKernel.Command.Registry
import MicroKernel.Command.Console
import MicroKernel.Command.Editor
import MicroKernel.CString
import MicroKernel.Throw
import MicroKernel.Devices.Driver
import MicroKernel.Devices.Table
import MicroKernel.Containers.String
import MicroKernel.Containers.Insert
import MicroKernel.Containers.Array
import MicroKernel.Containers.Search
import MicroKernel.Containers.Replace
import MicroKernel.KRef
import MicroKernel.Fs.Addressing
import MicroKernel.Fs.Fields
import MicroKernel.Lib.Leads
import MicroKernel.NodeList
import MicroKernel.Lib.Lasting
import MicroKernel.Network.Discovery
import MicroKernel.Lib.Explore
import MicroKernel.X4.Known
import MicroKernel.X4.Analysis
import MicroKernel.X4.Binaries
import MicroKernel.Lib.Service
import MicroKernel.Fs.FileStore
import MicroKernel.Fs.Refinement
import MicroKernel.Command.Print
import MicroKernel.Command.Shell
import MicroKernel.Command.Boot
import MicroKernel.Command.Terminal
import MicroKernel.Bus.Contents
import MicroKernel.Fs.Bytewise
import MicroKernel.Fs.BytewiseDirectory
import MicroKernel.Fs.SharedBus
import MicroKernel.Command.Retroboard
import MicroKernel.Command.SharedBoard
