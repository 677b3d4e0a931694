import CoopKernel.Fault
import CoopKernel.Storage.Basic

/-!
# The window on the program

A process reads its program through a small window: a run of bytes that were read at once, starting
at the address that was asked for. The window lives as long as the turn, and a program can close it,
so that it sees changes to its program file.
-/

namespace CoopKernel

/-- The first address of the data region; what lies below belongs to the program. -/
def dataStart : UInt16 := 0x8000

/-- A run of bytes of the program. -/
structure Window where
  /-- The address of the first byte. -/
  base : UInt16 := 0
  bytes : Bytes := #[]
  deriving DecidableEq, Repr

namespace Window

/-- The most bytes in a window. -/
def maxSize : Nat := 32

/-- A window that shows nothing. -/
def closed : Window := {}

/-- The window after a program closed it. -/
def close (w : Window) : Window := { w with bytes := #[] }

/-- The byte at an address, if the window shows it. -/
def byte? (w : Window) (address : UInt16) : Option UInt8 :=
  if w.base ≤ address then w.bytes[address.toNat - w.base.toNat]? else none

/-- How much is read into a window at an address: no more than the program region holds. -/
def extent (address : UInt16) : Nat :=
  min maxSize (dataStart.toNat - address.toNat)

end Window

end CoopKernel
