import Mathlib.Data.UInt

/-!
# Virtual access ranges

The globals of `kernel/virtual/virtual.c`: the address range of the current access mode and the
heap range of the running program.

## Main definitions

* `Virtual`: the two ranges
* `virtualAccessGetMode`, `virtualAccessSetMode`: reading and setting the access mode
-/

namespace MicroKernel

/-- `__KERNEL_VIRTUAL_ACCESS_BEGIN__` and its siblings. -/
def kernelVirtualAccessBegin : UInt32 := 0x00000000
def kernelVirtualAccessEnd : UInt32 := 0xffffffff
def userVirtualAccessBegin : UInt32 := 0x00004000
def userVirtualAccessEnd : UInt32 := 0xffffffff

/-- `VIRTUAL_ACCESS_MODE_KERNEL` -/
def virtualAccessModeKernel : UInt8 := 0

/-- `VIRTUAL_ACCESS_MODE_USER` -/
def virtualAccessModeUser : UInt8 := 1

/-- The address range of the access mode and the heap range. -/
@[ext] structure Virtual where
  virtualAddressBegin : UInt32
  virtualAddressEnd : UInt32
  heapBegin : UInt32
  heapEnd : UInt32

/-- The initial values: kernel mode and the whole heap. -/
def Virtual.initial : Virtual where
  virtualAddressBegin := kernelVirtualAccessBegin
  virtualAddressEnd := kernelVirtualAccessEnd
  heapBegin := 0x00000000
  heapEnd := 0xffffffff

/-- The access mode of a range, or -1. -/
def virtualAccessGetMode (v : Virtual) : Int8 :=
  if v.virtualAddressBegin = kernelVirtualAccessBegin then virtualAccessModeKernel.toInt8
  else if v.virtualAddressBegin = userVirtualAccessBegin then virtualAccessModeUser.toInt8
  else -1

/-- Every mode but the user mode sets the kernel range. -/
def virtualAccessSetMode (mode : UInt8) (v : Virtual) : Virtual :=
  if mode = virtualAccessModeUser then
    { v with
      virtualAddressBegin := userVirtualAccessBegin
      virtualAddressEnd := userVirtualAccessEnd }
  else
    { v with
      virtualAddressBegin := kernelVirtualAccessBegin
      virtualAddressEnd := kernelVirtualAccessEnd }

end MicroKernel
