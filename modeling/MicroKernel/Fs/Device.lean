import MicroKernel.Fs.Directory

/-!
# Devices

The operations of `kernel/fs/basefs/fsDevice.c`: opening a device and formatting it.

## Main definitions

* `fsDeviceOpen`: the partition a device header describes
* `fsDeviceFormat`: writing the markers and the device header
-/

namespace MicroKernel.Fs

open Store

/-- `DeviceHeaderString` -/
def deviceHeaderString : List UInt8 :=
  [0x13, 'f'.toUInt8, 's'.toUInt8] ++ List.replicate 8 ' '.toUInt8

def fsDeviceGetSize (part : Partition) : Memory → UInt32 := getWord part 0 deviceOffsetCapacity

def fsDeviceGetSectorSize (part : Partition) : Memory → UInt32 :=
  getWord part 0 deviceOffsetSectSz

/-- The offset is that of the sector size. -/
def fsDeviceGetRootDirectory (part : Partition) : Memory → DirectoryHandle :=
  getWord part 0 deviceOffsetSectSz

/-- A device without the header, or whose size or sector size is zero, has no sectors. -/
def fsDeviceOpen (deviceAddress : UInt32) (mem : Memory) : Partition :=
  let part : Partition :=
    { blockAddress := deviceAddress, blockSize := 0, sectorCount := 0, sectorSize := 0 }
  let blockSize := fsDeviceGetSize part mem
  let sectorSize := fsDeviceGetSectorSize part mem
  if mem deviceAddress ≠ 0x13 ∨ mem (deviceAddress + 1) ≠ 'f'.toUInt8 ∨
      mem (deviceAddress + 2) ≠ 's'.toUInt8 ∨ blockSize = 0 ∨ sectorSize = 0 then part
  else { part with blockSize, sectorCount := blockSize / sectorSize, sectorSize }

/-- The partition `fsDeviceFormat` leaves: its address stays. -/
def formatted (part : Partition) (beginning ending sectorSize : UInt32) : Partition :=
  { part with
    blockSize := ending - beginning
    sectorCount := (ending - beginning) / sectorSize
    sectorSize }

/-- The markers and the header up to the device type. -/
def formatHeader (part : Partition) (mem : Memory) : Memory :=
  -- Mark sectors as empty
  let mem := writeEach (fun i => part.blockAddress + UInt32.ofNat i * part.sectorSize)
    (fun _ => sectorFree) (List.range part.sectorCount.toNat) mem
  let mem := writeEach (fun i => part.blockAddress + 0 + UInt32.ofNat i)
    (fun i => deviceHeaderString.getD i 0) (List.range deviceHeaderString.length) mem
  let mem := setWord part 0 deviceOffsetCapacity part.blockSize mem
  Function.update mem (part.blockAddress + deviceOffsetType) 'T'.toUInt8

def fsDeviceFormat (part : Partition) (beginning ending sectorSize : UInt32) (mem : Memory) :
    Except Fault (Partition × Memory) := do
  if sectorSize = 0 then .error .divisionByZero
  else
    let part := formatted part beginning ending sectorSize
    let mem := formatHeader part mem
    -- Set the root directory pointer
    let (handle, mem) ← fsDirectoryCreate part (chars ['r', 'o', 'o', 't']) mem
    let mem := setWord part 0 deviceOffsetRoot handle mem
    -- Set the sector size
    let mem := setWord part 0 deviceOffsetSectSz part.sectorSize mem
    return (part, mem)

end MicroKernel.Fs
