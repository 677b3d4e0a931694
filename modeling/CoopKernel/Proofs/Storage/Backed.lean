import CoopKernel.Proofs.Storage.Edits
import CoopKernel.Storage.Faulty
import CoopKernel.Volume.Edit

/-!
# Storages that a volume stands behind

The storage interface promises nothing. What the kernel can be held to is stated for storages that
keep their things in a volume: every call has the outcome that it has on the volume, or it is refused,
which shows in its answer, and leaves the volume alone. Closing and looking are never refused. A volume
is such a storage, and so is one that is made to fail.
-/

namespace CoopKernel

/-- A call has the wanted outcome, or it gave the answer of a failure and left the volume alone. -/
def Honoured {σ α : Type} (volume : σ → Volume) (s : σ) (failure : α) (got : α × σ)
    (want : α × Volume) : Prop :=
  (got.1 = want.1 ∧ volume got.2 = want.2) ∨ (got.1 = failure ∧ volume got.2 = volume s)

/-- A storage that keeps its things in a volume and can refuse calls. -/
class VolumeBacked (σ : Type) [Storage σ] where
  volume : σ → Volume
  openPath (s : σ) (p : Path) :
    Honoured volume s none (Storage.openPath s p) ((volume s).openPath p)
  close (s : σ) (h : Handle) : volume (Storage.close s h) = (volume s).close h
  read (s : σ) (h : Handle) (offset count : Nat) :
    Honoured volume s #[] (Storage.read s h offset count) ((volume s).read h offset count)
  write (s : σ) (h : Handle) (offset : Nat) (bytes : Bytes) :
    Honoured volume s 0 (Storage.write s h offset bytes) ((volume s).write h offset bytes)
  create (s : σ) (p : Path) (size : Nat) :
    Honoured volume s false (Storage.create s p size) ((volume s).create p size)
  resize (s : σ) (p : Path) (size : Nat) :
    Honoured volume s false (Storage.resize s p size) ((volume s).resize p size)
  delete (s : σ) (p : Path) :
    Honoured volume s false (Storage.delete s p) ((volume s).delete p)
  contains (s : σ) (p : Path) : Storage.contains s p = (volume s).contains p
  isDir (s : σ) (p : Path) : Storage.isDir s p = (volume s).isDir p
  length? (s : σ) (p : Path) : Storage.length? s p = (volume s).length? p
  pathOf? (s : σ) (h : Handle) : Storage.pathOf? s h = (volume s).pathOf? h
  child? (s : σ) (h : Handle) (n : Nat) : Storage.child? s h n = (volume s).child? h n
  canRead (s : σ) (h : Handle) : Storage.canRead s h = (volume s).canRead h

namespace VolumeBacked

instance : VolumeBacked Volume where
  volume := id
  openPath _ _ := .inl ⟨rfl, rfl⟩
  close _ _ := rfl
  read _ _ _ _ := .inl ⟨rfl, rfl⟩
  write _ _ _ _ := .inl ⟨rfl, rfl⟩
  create _ _ _ := .inl ⟨rfl, rfl⟩
  resize _ _ _ := .inl ⟨rfl, rfl⟩
  delete _ _ := .inl ⟨rfl, rfl⟩
  contains _ _ := rfl
  isDir _ _ := rfl
  length? _ _ := rfl
  pathOf? _ _ := rfl
  child? _ _ _ := rfl
  canRead _ _ := rfl

section Faulty

variable {σ α : Type}

theorem honoured_attempt {volume : σ → Volume} (f : Faulty σ) (call : Call) (failure : α)
    {act : σ → α × σ} {want : α × Volume}
    (h : Honoured volume f.store failure (act f.store) want) :
    Honoured (fun f : Faulty σ => volume f.store) f failure (f.attempt call failure act) want := by
  obtain ⟨store, refuses, calls⟩ := f
  simp only [Faulty.attempt]
  split
  · exact .inr ⟨rfl, rfl⟩
  · exact h

theorem honoured_attemptOn [Storage σ] {volume : σ → Volume} (f : Faulty σ) (handle : Handle)
    (call : Path → Call) (failure : α) {act : σ → α × σ} {want : α × Volume}
    (h : Honoured volume f.store failure (act f.store) want) :
    Honoured (fun f : Faulty σ => volume f.store) f failure (f.attemptOn handle call failure act)
      want := by
  unfold Faulty.attemptOn
  split
  · exact honoured_attempt f _ failure h
  · exact h

instance [Storage σ] [VolumeBacked σ] : VolumeBacked (Faulty σ) where
  volume f := volume f.store
  openPath f p := honoured_attempt f _ none (openPath f.store p)
  close f h := close f.store h
  read f h offset count := honoured_attemptOn f h _ #[] (read f.store h offset count)
  write f h offset bytes := honoured_attemptOn f h _ 0 (write f.store h offset bytes)
  create f p size := honoured_attempt f _ false (create f.store p size)
  resize f p size := honoured_attempt f _ false (resize f.store p size)
  delete f p := honoured_attempt f _ false (delete f.store p)
  contains f p := contains f.store p
  isDir f p := isDir f.store p
  length? f p := length? f.store p
  pathOf? f h := pathOf? f.store h
  child? f h n := child? f.store h n
  canRead f h := canRead f.store h

end Faulty

end VolumeBacked

end CoopKernel
