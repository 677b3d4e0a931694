import CoopKernel.Storage.Basic
import Mathlib.Logic.Relation

/-!
# Edits of a storage

The calls of the storage interface fall into two groups. Opening and closing change what is open;
the others only read, write and rearrange files. `Edits` relates two storages of which the second
comes from the first by calls of the second group, in any number, whether or not they succeed.
-/

namespace CoopKernel

namespace Storage

variable {σ : Type} [Storage σ]

/-- A call that neither opens nor closes anything. -/
inductive Edit : σ → σ → Prop
  | read (s : σ) (h : Handle) (offset count : Nat) : Edit s (Storage.read s h offset count).2
  | write (s : σ) (h : Handle) (offset : Nat) (bytes : Bytes) :
      Edit s (Storage.write s h offset bytes).2
  | create (s : σ) (p : Path) (size : Nat) : Edit s (Storage.create s p size).2
  | resize (s : σ) (p : Path) (size : Nat) : Edit s (Storage.resize s p size).2
  | delete (s : σ) (p : Path) : Edit s (Storage.delete s p).2

/-- Any number of calls that neither open nor close anything. -/
abbrev Edits : σ → σ → Prop := Relation.ReflTransGen Edit

theorem Edits.single {s s' : σ} (h : Edit s s') : Edits s s' :=
  Relation.ReflTransGen.single h

end Storage

end CoopKernel
