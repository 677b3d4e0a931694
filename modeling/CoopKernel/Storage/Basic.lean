import CoopKernel.Bytes
import CoopKernel.Path.Basic
import CoopKernel.Text.Number

/-!
# Storage

What the kernel asks of the place where programs, backing files and devices live. Paths are in
canonical form. Open things are referred to by handles, which are plain 16-bit numbers so that
programs can hold them in registers; zero is never the handle of anything.

The interface promises nothing: every call may refuse, and the kernel has to cope.
-/

namespace CoopKernel

/-- A reference to something open. -/
structure Handle where
  number : UInt16
  deriving DecidableEq, Repr

namespace Handle

/-- The number that refers to nothing. -/
def invalid : Handle := ⟨0⟩

instance : Inhabited Handle := ⟨invalid⟩

/-- The handle can refer to something. -/
def isValid (h : Handle) : Bool := h ≠ invalid

/-- The name of a handle in messages. -/
def text (h : Handle) : String := "fd" ++ Number.decimal h.number.toNat

end Handle

/-- A place that holds directories, files and devices. -/
class Storage (σ : Type) where
  /-- Opens what is at a path. -/
  openPath : σ → Path → Option Handle × σ
  /-- Closes a handle. -/
  close : σ → Handle → σ
  /-- Reads at most `count` bytes from a position; a device has no positions. -/
  read : σ → Handle → (offset count : Nat) → Bytes × σ
  /-- Writes bytes at a position and tells how many were written. A file does not grow. -/
  write : σ → Handle → (offset : Nat) → Bytes → Nat × σ
  /-- Makes a file of zeros, in the place of an existing file if there is one. -/
  create : σ → Path → (size : Nat) → Bool × σ
  /-- Cuts or extends an existing file. -/
  resize : σ → Path → (size : Nat) → Bool × σ
  /-- Removes a file, a device or an empty directory that nobody has open. -/
  delete : σ → Path → Bool × σ
  /-- Something is at the path. -/
  contains : σ → Path → Bool
  /-- A directory is at the path. -/
  isDir : σ → Path → Bool
  /-- The length of the file at the path. -/
  length? : σ → Path → Option Nat
  /-- The path that a handle was opened for. -/
  pathOf? : σ → Handle → Option Path
  /-- The `n`-th place in an open directory. -/
  child? : σ → Handle → (n : Nat) → Option Path
  /-- A read would not have to wait. -/
  canRead : σ → Handle → Bool

end CoopKernel
