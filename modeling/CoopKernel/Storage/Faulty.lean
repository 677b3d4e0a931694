import CoopKernel.Storage.Basic

/-!
# Storage that fails

A storage whose calls can be made to fail. A `Policy` decides, from the number of calls made so far
and from the call, whether it is refused; a refused call has no effect on the storage and reports
failure, or no bytes. Calls that only look are never refused.
-/

namespace CoopKernel

/-- A call that can be refused. Reads and writes are known by the path that their handle was opened
for. -/
inductive Call where
  | openPath (path : Path)
  | read (path : Path)
  | write (path : Path)
  | create (path : Path)
  | resize (path : Path)
  | delete (path : Path)
  deriving DecidableEq, Repr

namespace Call

/-- The path that a call is about. -/
def path : Call → Path
  | openPath p | read p | write p | create p | resize p | delete p => p

end Call

/-- Decides whether a call is refused, from the number of earlier calls. -/
abbrev Policy := Nat → Call → Bool

/-- A storage together with the failures that it is made to show. -/
structure Faulty (σ : Type) where
  store : σ
  refuses : Policy := fun _ _ => false
  calls : Nat := 0

namespace Faulty

variable {σ : Type}

/-- Makes a call, or has it fail. -/
def attempt (f : Faulty σ) (call : Call) (failure : α) (act : σ → α × σ) : α × Faulty σ :=
  match f with
  | ⟨store, refuses, calls⟩ =>
    if refuses calls call then (failure, ⟨store, refuses, calls + 1⟩)
    else
      let (value, store) := act store
      (value, ⟨store, refuses, calls + 1⟩)

/-- Makes a call through a handle, or has it fail. Nothing is refused where nothing is open. -/
def attemptOn [Storage σ] (f : Faulty σ) (handle : Handle) (call : Path → Call) (failure : α)
    (act : σ → α × σ) : α × Faulty σ :=
  match Storage.pathOf? f.store handle with
  | some path => f.attempt (call path) failure act
  | none =>
    match f with
    | ⟨store, refuses, calls⟩ =>
      let (value, store) := act store
      (value, ⟨store, refuses, calls⟩)

instance [Storage σ] : Storage (Faulty σ) where
  openPath f p := f.attempt (.openPath p) none (Storage.openPath · p)
  close f h := { f with store := Storage.close f.store h }
  read f h offset count := f.attemptOn h .read #[] (Storage.read · h offset count)
  write f h offset bytes := f.attemptOn h .write 0 (Storage.write · h offset bytes)
  create f p size := f.attempt (.create p) false (Storage.create · p size)
  resize f p size := f.attempt (.resize p) false (Storage.resize · p size)
  delete f p := f.attempt (.delete p) false (Storage.delete · p)
  contains f p := Storage.contains f.store p
  isDir f p := Storage.isDir f.store p
  length? f p := Storage.length? f.store p
  pathOf? f h := Storage.pathOf? f.store h
  child? f h n := Storage.child? f.store h n
  canRead f h := Storage.canRead f.store h

end Faulty

end CoopKernel
