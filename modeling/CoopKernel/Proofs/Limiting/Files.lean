import CoopKernel.Proofs.Snapshot.Codec
import CoopKernel.Proofs.Storage.Kept
import CoopKernel.Proofs.Storage.Shape

/-!
# How long the regions are that files tell of

A backing file tells in its state block how long the data region is. Bytes that the file does not have count
as zeros, so that there is an answer for every file. It becomes no greater when the file is cut or extended or
written to behind the block, and by writing a block it becomes that of the block at most. What is done to a
volume short of that is compared file by file.
-/

namespace CoopKernel

namespace Word

/-- Words are in the order of their bytes, if these are. -/
theorem fromBytes_le {bytes others : Bytes} {start : Nat}
    (hhigh : bytes.getD start 0 ≤ others.getD start 0)
    (hlow : bytes.getD (start + 1) 0 ≤ others.getD (start + 1) 0) :
    fromBytes bytes start ≤ fromBytes others start := by
  rw [UInt8.le_iff_toNat_le] at hhigh hlow
  have h₁ := (others.getD start 0).toNat_lt
  have h₂ := (others.getD (start + 1) 0).toNat_lt
  simp only [fromBytes, ofBytes, UInt16.le_iff_toNat_le, UInt16.toNat_ofNat']
  omega

end Word

namespace Bytes

theorem getD_overwrite_of_lt (bytes : Bytes) {start i : Nat} (source : List UInt8) (h : i < start) :
    (bytes.overwrite start source).getD i 0 = bytes.getD i 0 := by
  simp only [Array.getD_eq_getD_getElem?, getElem?_overwrite]
  rw [if_neg (by omega)]

/-- Where the string is overwritten from its start, there is a byte of what was written or none. -/
theorem getD_overwrite_le (bytes source : Bytes) {i : Nat} (h : i < source.size) :
    (bytes.overwrite 0 source.toList).getD i 0 ≤ source.getD i 0 := by
  simp only [Array.getD_eq_getD_getElem?, getElem?_overwrite, Array.length_toList]
  by_cases hi : i < bytes.size
  · rw [if_pos (by omega), Nat.sub_zero, Array.getElem?_toList]
    exact UInt8.le_refl _
  · rw [if_neg (by omega), Array.getElem?_eq_none (by omega)]
    exact UInt8.zero_le

theorem getD_resize_le (bytes : Bytes) (size i : Nat) :
    (bytes.resize size).getD i 0 ≤ bytes.getD i 0 := by
  simp only [Array.getD_eq_getD_getElem?, getElem?_resize]
  split
  · exact UInt8.le_refl _
  · exact UInt8.zero_le

end Bytes

namespace Snapshot

/-- The length of the data region that a backing file tells. -/
def lengthIn (content : Bytes) : UInt16 :=
  Word.fromBytes content 28

variable {bound : UInt16}

theorem dataLength_of_ofBlock {block : Bytes} {s : Snapshot} (h : ofBlock block = .ok s) :
    s.dataLength = lengthIn block := by
  unfold ofBlock at h
  split at h
  · cases h
  · dsimp only at h
    split at h
    · cases h
    · cases h
      rfl

theorem lengthIn_slice (content : Bytes) : lengthIn (content.slice 0 blockSize) = lengthIn content := by
  refine Word.fromBytes_of_slice_eq (n := blockSize) ?_ 28 (by decide)
  exact Array.ext_getElem? fun i => by
    simp only [Bytes.getElem?_slice, Nat.zero_add]
    split <;> rfl

theorem lengthIn_overwrite (content : Bytes) {offset : Nat} (bytes : List UInt8) (h : blockSize ≤ offset) :
    lengthIn (content.overwrite offset bytes) = lengthIn content := by
  have hblock : 29 < offset := Nat.lt_of_lt_of_le (by decide) h
  rw [lengthIn, lengthIn, Word.fromBytes, Word.fromBytes, Bytes.getD_overwrite_of_lt _ _ (by omega),
    Bytes.getD_overwrite_of_lt _ _ hblock]

/-- A block that is written to a file, as far as there is room, tells the length at most. -/
theorem lengthIn_toBlock (content : Bytes) (s : Snapshot) :
    lengthIn (content.overwrite 0 s.toBlock.toList) ≤ s.dataLength := by
  have hsize : 29 < s.toBlock.size := by
    rw [size_toBlock]
    decide
  rw [← fromBytes_dataLength s]
  exact Word.fromBytes_le (Bytes.getD_overwrite_le _ _ (by omega)) (Bytes.getD_overwrite_le _ _ hsize)

theorem lengthIn_resize (content : Bytes) (size : Nat) : lengthIn (content.resize size) ≤ lengthIn content :=
  Word.fromBytes_le (Bytes.getD_resize_le _ _ _) (Bytes.getD_resize_le _ _ _)

theorem lengthIn_zeros (size : Nat) : lengthIn (Array.replicate size 0) = 0 := by
  have hzero (i : Nat) : (Array.replicate size (0 : UInt8)).getD i 0 = 0 := by
    simp only [Array.getD_eq_getD_getElem?, Array.getElem?_replicate]
    split <;> rfl
  rw [lengthIn, Word.fromBytes, hzero, hzero]
  rfl

end Snapshot

namespace Volume

open Snapshot (lengthIn)

/-- Every file tells no greater length than before, or none beyond a bound. -/
def Modest (bound : UInt16) (v w : Volume) : Prop :=
  ∀ ⦃p content'⦄, w.content? p = some content' →
    lengthIn content' ≤ bound ∨ ∃ content, v.content? p = some content ∧ lengthIn content' ≤ lengthIn content

variable {bound : UInt16} {v w : Volume}

instance (bound : UInt16) : IsPreorder Volume (Modest bound) where
  refl _ _ content h := .inr ⟨content, h, UInt16.le_refl _⟩
  trans _ _ _ h₁ h₂ p content'' h := by
    rcases h₂ h with hbound | ⟨content', h', hle⟩
    · exact .inl hbound
    · rcases h₁ h' with hbound | ⟨content, hc, hle'⟩
      · exact .inl (UInt16.le_trans hle hbound)
      · exact .inr ⟨content, hc, UInt16.le_trans hle hle'⟩

theorem Modest.le (h : Modest bound v w) {p : Path} {content' : Bytes} (hw : w.content? p = some content')
    (hv : ∀ content, v.content? p = some content → lengthIn content ≤ bound) : lengthIn content' ≤ bound := by
  rcases h hw with hbound | ⟨content, hc, hle⟩
  · exact hbound
  · exact UInt16.le_trans hle (hv content hc)

/-- Where there is nothing but what was there, nothing is longer. -/
theorem Modest.of_content (h : ∀ p content, w.content? p = some content → v.content? p = some content) :
    Modest bound v w :=
  fun p content hc => .inr ⟨content, h p content hc, UInt16.le_refl _⟩

theorem Modest.of_nodes (h : w.nodes = v.nodes) : Modest bound v w := by
  refine .of_content fun p content hc => ?_
  rw [content?, node?, ← h]
  exact hc

theorem modest_read (v : Volume) (h : Handle) (offset count : Nat) :
    Modest bound v (v.read h offset count).2 :=
  .of_nodes (v.nodes_read h offset count)

theorem modest_openPath (v : Volume) (p : Path) : Modest bound v (v.openPath p).2 := by
  rcases v.openPath_cases p with ho | ⟨h, _, _, ho⟩
  · rw [ho]
    exact refl_of (Modest bound) v
  · rw [ho]
    exact .of_nodes rfl

theorem modest_close (v : Volume) (h : Handle) : Modest bound v (v.close h) :=
  .of_nodes rfl

theorem modest_delete (v : Volume) (p : Path) : Modest bound v (v.delete p).2 := by
  rcases v.delete_cases p with hd | ⟨_, _, _, _, hd⟩
  · rw [hd]
    exact refl_of (Modest bound) v
  · rw [hd]
    refine .of_content fun q content hc => ?_
    rw [content?_erase] at hc
    split at hc
    · cases hc
    · exact hc

/-- The file at a path is put in the place of what was there. -/
theorem modest_put (v : Volume) (p : Path) (content : Bytes)
    (h : lengthIn content ≤ bound ∨ ∃ old, v.content? p = some old ∧ lengthIn content ≤ lengthIn old) :
    Modest bound v (v.put p (.file content)) := by
  intro q content' hc
  rw [content?_put] at hc
  split at hc
  · next he =>
    subst he
    cases hc
    exact h
  · exact .inr ⟨content', hc, UInt16.le_refl _⟩

theorem modest_create (v : Volume) (p : Path) (size : Nat) : Modest bound v (v.create p size).2 := by
  rcases v.create_cases p size with hc | ⟨_, _, hc⟩
  · rw [hc]
    exact refl_of (Modest bound) v
  · rw [hc]
    refine modest_put v p _ (.inl ?_)
    rw [Snapshot.lengthIn_zeros]
    exact UInt16.zero_le

theorem modest_resize (v : Volume) (p : Path) (size : Nat) : Modest bound v (v.resize p size).2 := by
  rcases v.resize_cases p size with hr | ⟨content, hc, hr⟩
  · rw [hr]
    exact .of_nodes rfl
  · rw [hr]
    have hcounted : Modest bound v { v with resizeCalls := v.resizeCalls + 1 } := .of_nodes rfl
    exact trans_of (Modest bound) hcounted
      (modest_put _ p _ (.inr ⟨content, hc, Snapshot.lengthIn_resize content size⟩))

/-- Writing is modest if what it makes of a file is. -/
theorem modest_write (v : Volume) (h : Handle) {offset : Nat} {bytes : Bytes}
    (hbytes : ∀ content : Bytes, lengthIn (content.overwrite offset bytes.toList) ≤ bound ∨
      lengthIn (content.overwrite offset bytes.toList) ≤ lengthIn content) :
    Modest bound v (v.write h offset bytes).2 := by
  unfold write
  split
  · exact refl_of (Modest bound) v
  · next p _ =>
    split
    · intro q content' hc
      rw [content?_overwrite] at hc
      split at hc
      · obtain ⟨content, hold, rfl⟩ := Option.map_eq_some_iff.mp hc
        exact (hbytes content).imp_right fun hle => ⟨content, hold, hle⟩
      · exact .inr ⟨content', hc, UInt16.le_refl _⟩
    · exact .of_nodes rfl
    · exact refl_of (Modest bound) v
    · exact refl_of (Modest bound) v

/-- Nothing that is written behind the block is looked at. -/
theorem modest_write_data (v : Volume) (h : Handle) {offset : Nat} (hoffset : Snapshot.blockSize ≤ offset)
    (bytes : Bytes) : Modest bound v (v.write h offset bytes).2 :=
  v.modest_write h fun content =>
    .inr (by rw [Snapshot.lengthIn_overwrite content _ hoffset]; exact UInt16.le_refl _)

/-- A snapshot with a data region within the bound is saved. -/
theorem modest_save (v : Volume) (h : Handle) {s : Snapshot} (hs : s.dataLength ≤ bound) :
    Modest bound v (s.save v h).2 :=
  v.modest_write h fun content => .inl (UInt16.le_trans (Snapshot.lengthIn_toBlock content s) hs)

end Volume

end CoopKernel
