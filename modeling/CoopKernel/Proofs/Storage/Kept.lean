import CoopKernel.Proofs.Bytes
import CoopKernel.Proofs.Snapshot.Block
import CoopKernel.Proofs.Storage.Steady

/-!
# What is kept behind a handle

The content of the file behind an open handle changes when the file is written, through whatever
handle, and not by reading, closing other handles or deleting. `Volume.kept?` is the snapshot that such
a file keeps in its state block; saving a snapshot successfully makes it the one that is kept.
-/

namespace CoopKernel

open Storage (Edit Edits)

namespace Volume

/-- The snapshot that is kept in the file behind a handle. -/
def kept? (v : Volume) (h : Handle) : Option Snapshot :=
  (v.behind? h).bind fun content =>
    (Snapshot.ofBlock (Bytes.slice content 0 Snapshot.blockSize)).toOption

theorem kept?_congr {v w : Volume} {h : Handle} (hb : w.behind? h = v.behind? h) :
    w.kept? h = v.kept? h := by
  rw [kept?, kept?, hb]

theorem behind?_read (v : Volume) (h : Handle) (offset count : Nat) (g : Handle) :
    (v.read h offset count).2.behind? g = v.behind? g := by
  unfold read
  split <;> rfl

theorem behind?_delete (v : Volume) (p : Path) (g : Handle) :
    (v.delete p).2.behind? g = v.behind? g := by
  rcases v.delete_cases p with hd | ⟨_, _, _, hopen, hd⟩
  · rw [hd]
  · rw [hd]
    have hpaths : ({ v with nodes := Index.erase p v.nodes } : Volume).pathOf? g = v.pathOf? g := rfl
    unfold behind?
    rw [hpaths]
    cases hg : v.pathOf? g with
    | none => rfl
    | some q =>
      have hne : p ≠ q := fun he => hopen (he ▸ isOpen_of_pathOf? hg)
      rw [Option.bind_some, Option.bind_some, content?_erase, if_neg hne]

/-- Writing through a handle leaves the files at other paths alone. -/
theorem behind?_write_of_ne (v : Volume) {h g : Handle} (offset : Nat) (bytes : Bytes)
    (hne : v.pathOf? h ≠ v.pathOf? g) : (v.write h offset bytes).2.behind? g = v.behind? g := by
  unfold write
  cases hp : v.pathOf? h with
  | none => rfl
  | some p =>
    dsimp only
    split
    · have hpaths : (v.overwrite p offset bytes).pathOf? g = v.pathOf? g := rfl
      unfold behind?
      rw [hpaths]
      cases hg : v.pathOf? g with
      | none => rfl
      | some q =>
        have hpq : p ≠ q := fun he => hne (by rw [hp, hg, he])
        rw [Option.bind_some, Option.bind_some, content?_overwrite, if_neg hpq]
    · rfl
    · rfl
    · rfl

/-- Resizing counts the call, and does nothing else or puts the resized file in its place. -/
theorem resize_cases (v : Volume) (p : Path) (size : Nat) :
    v.resize p size = (false, { v with resizeCalls := v.resizeCalls + 1 }) ∨
      ∃ content, v.content? p = some content ∧ v.resize p size =
        (true, ({ v with resizeCalls := v.resizeCalls + 1 } : Volume).put p
          (.file (content.resize size))) := by
  unfold resize
  dsimp only
  split
  · exact .inl rfl
  · next content hc =>
    split
    · exact .inr ⟨content, hc, rfl⟩
    · exact .inl rfl

/-- Resizing leaves what is behind a handle, or resizes it. -/
theorem behind?_resize (v : Volume) (p : Path) (size : Nat) (h : Handle) :
    (v.resize p size).2.behind? h = v.behind? h ∨
      (v.resize p size).1 = true ∧ v.pathOf? h = some p ∧
        (v.resize p size).2.behind? h = (v.behind? h).map (·.resize size) := by
  rcases v.resize_cases p size with hr | ⟨content, hc, hr⟩
  · rw [hr]
    exact .inl rfl
  · rw [hr]
    have hpaths : (({ v with resizeCalls := v.resizeCalls + 1 } : Volume).put p
        (.file (content.resize size))).pathOf? h = v.pathOf? h := rfl
    unfold behind?
    rw [hpaths]
    cases hq : v.pathOf? h with
    | none => exact .inl rfl
    | some q =>
      rw [Option.bind_some, Option.bind_some, content?_put]
      by_cases hpq : p = q
      · subst hpq
        rw [if_pos rfl, hc]
        exact .inr ⟨rfl, rfl, rfl⟩
      · rw [if_neg hpq]
        exact .inl rfl

/-- Writing to a file puts there what fits. -/
theorem write_behind {v : Volume} {h : Handle} {content : Bytes} (hb : v.behind? h = some content)
    (offset : Nat) (bytes : Bytes) :
    (v.write h offset bytes).1 = content.room offset bytes.size ∧
      (v.write h offset bytes).2.behind? h = some (content.overwrite offset bytes.toList) := by
  obtain ⟨p, hp, hc⟩ := Option.bind_eq_some_iff.mp hb
  obtain ⟨node, hnode, hfile⟩ := Option.bind_eq_some_iff.mp hc
  cases node with
  | dir | device d => cases hfile
  | file content' =>
    cases hfile
    have hpaths : (v.overwrite p offset bytes).pathOf? h = v.pathOf? h := rfl
    simp only [write, hp, hnode, true_and]
    rw [behind?, hpaths, hp, Option.bind_some, content?_overwrite_self, hc, Option.map_some]

/-- Writing does not make a file of what is none. -/
theorem behind?_write (v : Volume) (h : Handle) (offset : Nat) (bytes : Bytes) :
    (v.write h offset bytes).2.behind? h = (v.behind? h).map (·.overwrite offset bytes.toList) := by
  cases hb : v.behind? h with
  | some content => exact (write_behind hb offset bytes).2
  | none =>
    unfold write
    cases hp : v.pathOf? h with
    | none => exact hb
    | some p =>
      dsimp only
      split
      · next content hnode =>
        have hfile : v.behind? h = some content := by
          rw [behind?, hp, Option.bind_some, content?, hnode]
          rfl
        rw [hb] at hfile
        cases hfile
      · exact hb
      · exact hb
      · exact hb

/-- Reading from a file gives its bytes. -/
theorem read_behind {v : Volume} {h : Handle} {content : Bytes} (hb : v.behind? h = some content)
    (offset count : Nat) : v.read h offset count = (content.slice offset count, v) := by
  obtain ⟨p, hp, hc⟩ := Option.bind_eq_some_iff.mp hb
  obtain ⟨node, hnode, hfile⟩ := Option.bind_eq_some_iff.mp hc
  cases node with
  | dir | device d => cases hfile
  | file content' =>
    cases hfile
    simp only [read, opened?, hp, Option.bind_some, hnode]

/-- What is read depends on what is where, not on how it is kept. -/
theorem read_congr {v w : Volume} (hrest : w = { v with nodes := w.nodes })
    (hnodes : ∀ p, w.node? p = v.node? p) (h : Handle) (offset count : Nat) :
    (w.read h offset count).1 = (v.read h offset count).1 := by
  have hopened : w.opened? h = v.opened? h := by
    have hpath : w.pathOf? h = v.pathOf? h := by
      rw [hrest]
      rfl
    rw [opened?, opened?, hpath]
    exact congrArg _ (funext hnodes)
  have hwires : w.wires = v.wires := by rw [hrest]
  unfold read
  rw [hopened, hwires]
  split <;> rfl

end Volume

namespace Snapshot

/-- A snapshot that was read has no more arguments than there can be. -/
theorem argCount_of_ofBlock {block : Bytes} {s : Snapshot} (h : ofBlock block = .ok s) :
    s.env.argCount.toNat ≤ maxArguments := by
  unfold ofBlock at h
  split at h
  · cases h
  · dsimp only at h
    split at h
    · cases h
    · next hfew =>
      cases h
      exact Nat.not_lt.mp hfew

end Snapshot

namespace VolumeBacked

variable {σ : Type} [Storage σ] [VolumeBacked σ]

theorem behind?_read (s : σ) (h : Handle) (offset count : Nat) (g : Handle) :
    (volume (Storage.read s h offset count).2).behind? g = (volume s).behind? g :=
  (VolumeBacked.read s h offset count).volume (P := fun v => v.behind? g = (volume s).behind? g) rfl
    (Volume.behind?_read _ h offset count g)

theorem behind?_delete (s : σ) (p : Path) (g : Handle) :
    (volume (Storage.delete s p).2).behind? g = (volume s).behind? g :=
  (VolumeBacked.delete s p).volume (P := fun v => v.behind? g = (volume s).behind? g) rfl
    (Volume.behind?_delete _ p g)

theorem behind?_write_of_ne (s : σ) {h g : Handle} (offset : Nat) (bytes : Bytes)
    (hne : Storage.pathOf? s h ≠ Storage.pathOf? s g) :
    (volume (Storage.write s h offset bytes).2).behind? g = (volume s).behind? g := by
  rw [VolumeBacked.pathOf?, VolumeBacked.pathOf?] at hne
  exact (VolumeBacked.write s h offset bytes).volume
    (P := fun v => v.behind? g = (volume s).behind? g) rfl (Volume.behind?_write_of_ne _ _ _ hne)

/-- What was loaded from a file was kept there. -/
theorem kept?_of_load {s s' : σ} {h : Handle} {content : Bytes} {snapshot : Snapshot}
    (hb : (volume s).behind? h = some content) (hl : Snapshot.load s h = (.ok snapshot, s')) :
    (volume s).kept? h = some snapshot ∧ snapshot.env.argCount.toNat ≤ maxArguments := by
  unfold Snapshot.load at hl
  have hread := VolumeBacked.read s h 0 Snapshot.blockSize
  rcases hr : Storage.read s h 0 Snapshot.blockSize with ⟨block, s₁⟩
  rw [hr] at hread
  simp only [hr] at hl
  split at hl
  · next hsize =>
    obtain ⟨hblock, _⟩ := Prod.mk.inj hl
    refine ⟨?_, Snapshot.argCount_of_ofBlock hblock⟩
    rcases hread with ⟨hvalue, _⟩ | ⟨hvalue, _⟩
    · rw [Volume.read_behind hb] at hvalue
      simp only at hvalue
      rw [Volume.kept?, hb, Option.bind_some, ← hvalue, hblock]
      rfl
    · simp only at hvalue
      rw [hvalue] at hsize
      cases hsize
  · cases hl

/-- What was loaded from a file is in the block at its start. -/
theorem ofBlock_of_load {s s' : σ} {h : Handle} {content : Bytes} {snapshot : Snapshot}
    (hb : (volume s).behind? h = some content) (hl : Snapshot.load s h = (.ok snapshot, s')) :
    Snapshot.ofBlock (content.slice 0 Snapshot.blockSize) = .ok snapshot := by
  have hkept := (kept?_of_load hb hl).1
  rw [Volume.kept?, hb, Option.bind_some] at hkept
  cases hblock : Snapshot.ofBlock (content.slice 0 Snapshot.blockSize) with
  | error f =>
    rw [hblock] at hkept
    cases hkept
  | ok snapshot' =>
    rw [hblock] at hkept
    cases hkept
    rfl

/-- What was saved to a file has room at its start and is there, and nothing else in the file changed. -/
theorem behind?_of_save {s s' : σ} {h : Handle} {content : Bytes} {snapshot : Snapshot}
    (hb : (volume s).behind? h = some content) (hs : snapshot.save s h = (true, s')) :
    content.room 0 snapshot.toBlock.size = snapshot.toBlock.size ∧
      (volume s').behind? h = some (content.overwrite 0 snapshot.toBlock.toList) := by
  unfold Snapshot.save at hs
  have hwrite := VolumeBacked.write s h 0 snapshot.toBlock
  rcases hw : Storage.write s h 0 snapshot.toBlock with ⟨count, s₁⟩
  rw [hw] at hwrite
  simp only [hw] at hs
  obtain ⟨hcount, rfl⟩ := Prod.mk.inj hs
  have hcount := of_decide_eq_true hcount
  obtain ⟨hroom, hbehind⟩ := Volume.write_behind hb 0 snapshot.toBlock
  rcases hwrite with ⟨hvalue, hvolume⟩ | ⟨hvalue, -⟩
  · simp only at hvalue hvolume
    rw [hroom] at hvalue
    rw [hvolume]
    exact ⟨hvalue.symm.trans hcount, hbehind⟩
  · simp only at hvalue
    rw [hvalue, Snapshot.size_toBlock] at hcount
    cases hcount

/-- What was saved to a file is kept there, as it is stored. -/
theorem kept?_of_save {s s' : σ} {h : Handle} {content : Bytes} {snapshot : Snapshot}
    (hb : (volume s).behind? h = some content)
    (hargs : snapshot.env.argCount.toNat ≤ maxArguments) (hs : snapshot.save s h = (true, s')) :
    (volume s').kept? h = some snapshot.stored := by
  obtain ⟨hroom, hbehind⟩ := behind?_of_save hb hs
  have hslice := Bytes.slice_overwrite content 0 snapshot.toBlock hroom
  rw [Snapshot.size_toBlock] at hslice
  rw [Volume.kept?, hbehind, Option.bind_some, hslice, Snapshot.ofBlock_toBlock hargs]
  rfl

end VolumeBacked

end CoopKernel
