import Mathlib.Data.Nat.Notation

/-!
# The boards

The boards the kernel is built for, with the addresses that `kernel/kconfig.h` gives them. On the
Retroboard the devices follow the memory; on the other board they share its addresses.

## Main definitions

* `Board`: the boards of `kconfig.h`
* `Board.maxMemorySize`: the end of the memory
* `Board.peripheralAddressBegin`, `slotAddress`: where the devices are
-/

namespace MicroKernel

/-- The boards of `kconfig.h`. -/
inductive Board where
  | retroboardRev2
  | retroAvrX4Rev1
  deriving DecidableEq

/-- `MAX_MEMORY_SIZE` -/
def Board.maxMemorySize : Board → UInt32
  | retroboardRev2 => 0x40000
  | retroAvrX4Rev1 => 0x80000

/-- `PERIPHERAL_ADDRESS_BEGIN` -/
def Board.peripheralAddressBegin : Board → UInt32
  | retroboardRev2 => 0x40000
  | retroAvrX4Rev1 => 0x10000

/-- The address of a slot, with `PERIPHERAL_STRIDE`. -/
def slotAddress (board : Board) (slot : ℕ) : UInt32 :=
  board.peripheralAddressBegin + 0x10000 * UInt32.ofNat slot

end MicroKernel
