import CoopKernel.Proofs.Storage.Kept

/-!
# Volumes that are alike but for a state block

While a process runs, its backing file holds the state block that was saved last, which is only
written again at the end of a turn. When that was cannot be seen from anything else: all that is done
to two volumes that are alike but for the block in one file has the same results and leaves them alike,
as long as it does not touch the block.
-/

namespace CoopKernel

namespace Index

variable {κ ν μ : Type} [DecidableEq κ]

/-- Where a value is put does not depend on the values. -/
theorem map_insert (before : κ → κ → Bool) (f : ν → μ) (k : κ) (v : ν) (entries : List (κ × ν)) :
    (insert before k v entries).map (Prod.map id f) =
      insert before k (f v) (entries.map (Prod.map id f)) := by
  induction entries with
  | nil => rfl
  | cons entry rest ih =>
    obtain ⟨key, value⟩ := entry
    rw [List.map_cons, Prod.map_apply, insert, insert]
    by_cases hk : key = k
    · simp only [id, if_pos hk, List.map_cons, Prod.map_apply]
    · by_cases hb : before k key
      · simp only [id, if_neg hk, if_pos hb, List.map_cons, Prod.map_apply]
      · simp only [id, if_neg hk, if_neg hb, List.map_cons, Prod.map_apply, ih]

/-- What is not changed of a value is not changed of the entries. -/
theorem map_adjust (f : ν → μ) (k : κ) {g : ν → ν} (hg : ∀ v, f (g v) = f v)
    (entries : List (κ × ν)) :
    (adjust k g entries).map (Prod.map id f) = entries.map (Prod.map id f) := by
  induction entries with
  | nil => rfl
  | cons entry rest ih =>
    obtain ⟨key, value⟩ := entry
    rw [adjust]
    split
    · simp only [List.map_cons, Prod.map_apply, hg]
    · rw [List.map_cons, List.map_cons, ih]

end Index

namespace Bytes

/-- Two byte strings differ at most in a state block that they have room for. -/
structure AlikeBehind (a b : Bytes) : Prop where
  room : Snapshot.blockSize ≤ a.size
  size : b.size = a.size
  rest : ∀ i, Snapshot.blockSize ≤ i → b[i]? = a[i]?

namespace AlikeBehind

variable {c d : Bytes}

theorem refl (h : Snapshot.blockSize ≤ c.size) : AlikeBehind c c :=
  ⟨h, rfl, fun _ _ => rfl⟩

theorem overwrite (h : AlikeBehind c d) (start : Nat) (source : List UInt8) :
    AlikeBehind (Bytes.overwrite c start source) (Bytes.overwrite d start source) where
  room := by rw [size_overwrite]; exact h.room
  size := by rw [size_overwrite, size_overwrite, h.size]
  rest i hi := by rw [getElem?_overwrite, getElem?_overwrite, h.size, h.rest i hi]

theorem resize (h : AlikeBehind c d) {size : Nat} (hsize : Snapshot.blockSize ≤ size) :
    AlikeBehind (Bytes.resize c size) (Bytes.resize d size) where
  room := by rw [size_resize]; exact hsize
  size := by rw [size_resize, size_resize]
  rest i hi := by rw [getElem?_resize, getElem?_resize, h.rest i hi]

/-- Another block changes nothing. -/
theorem overwrite_block (h : AlikeBehind c d) {block : List UInt8}
    (hblock : block.length = Snapshot.blockSize) : AlikeBehind c (Bytes.overwrite d 0 block) where
  room := h.room
  size := by rw [size_overwrite, h.size]
  rest i hi := by rw [getElem?_overwrite, if_neg (by omega), h.rest i hi]

/-- With the same block they are the same. -/
theorem eq_of_same_block (h : AlikeBehind c d) {block : List UInt8}
    (hblock : block.length = Snapshot.blockSize) :
    Bytes.overwrite d 0 block = Bytes.overwrite c 0 block := by
  have hroom := h.room
  apply Array.ext_getElem?
  intro i
  rw [getElem?_overwrite, getElem?_overwrite, h.size]
  split
  · rfl
  · by_cases hi : Snapshot.blockSize ≤ i
    · exact h.rest i hi
    · omega

end AlikeBehind

end Bytes

namespace Volume

/-- What two volumes have that cannot be told apart by what is in a file. -/
def outline (v : Volume) : List (Path × Nat) :=
  v.nodes.map (Prod.map id Node.size)

theorem used_eq (v : Volume) : v.used = v.outline.foldr (fun entry total => entry.2 + total) 0 := by
  rw [used, outline, List.foldr_map]
  rfl

theorem outline_put (v : Volume) (p : Path) (node : Node) :
    (v.put p node).outline = Index.insert Path.before p node.size v.outline :=
  Index.map_insert _ _ _ _ _

theorem outline_overwrite (v : Volume) (p : Path) (offset : Nat) (bytes : Bytes) :
    (v.overwrite p offset bytes).outline = v.outline := by
  refine Index.map_adjust _ _ ?_ _
  intro node
  cases node with
  | file content => exact Bytes.size_overwrite _ _ _
  | dir | device d => rfl

theorem node?_of_content? {v : Volume} {p : Path} {content : Bytes} (h : v.content? p = some content) :
    v.node? p = some (.file content) := by
  obtain ⟨node, hnode, hc⟩ := Option.bind_eq_some_iff.mp h
  cases node with
  | file content' =>
    cases hc
    exact hnode
  | dir | device d => cases hc

theorem write_eq {v : Volume} {h : Handle} {p : Path} {content : Bytes} (hp : v.pathOf? h = some p)
    (hc : v.content? p = some content) (offset : Nat) (bytes : Bytes) :
    v.write h offset bytes = (content.room offset bytes.size, v.overwrite p offset bytes) := by
  simp only [write, hp, node?_of_content? hc]

theorem resize_eq (v : Volume) (p : Path) (size : Nat) :
    v.resize p size =
      match v.content? p with
      | none => (false, { v with resizeCalls := v.resizeCalls + 1 })
      | some content =>
        if v.fits content.size size then (true, ({ v with resizeCalls := v.resizeCalls + 1 } : Volume).put p
          (.file (content.resize size)))
        else (false, { v with resizeCalls := v.resizeCalls + 1 }) :=
  rfl

/-- Two volumes differ at most in the state block of the file at a path. -/
structure Alike (p : Path) (v w : Volume) : Prop where
  rest : w = { v with nodes := w.nodes }
  outline : w.outline = v.outline
  others : ∀ q, q ≠ p → w.node? q = v.node? q
  file : ∃ c d, v.content? p = some c ∧ w.content? p = some d ∧ Bytes.AlikeBehind c d

namespace Alike

variable {p : Path} {v w : Volume}

theorem refl {c : Bytes} (hc : v.content? p = some c) (hroom : Snapshot.blockSize ≤ c.size) :
    Alike p v v :=
  ⟨rfl, rfl, fun _ _ => rfl, c, c, hc, hc, .refl hroom⟩

theorem pathOf? (h : Alike p v w) (g : Handle) : w.pathOf? g = v.pathOf? g := by
  rw [h.rest]
  rfl

/-- The files elsewhere are the same. -/
theorem behind?_of_ne (h : Alike p v w) {g : Handle} (hne : v.pathOf? g ≠ some p) :
    w.behind? g = v.behind? g := by
  unfold behind?
  rw [h.pathOf?]
  cases hg : v.pathOf? g with
  | none => rfl
  | some q =>
    have hqp : q ≠ p := fun he => hne (by rw [hg, he])
    rw [Option.bind_some, Option.bind_some, content?, content?, h.others q hqp]

/-- A handle of the file with the block. -/
theorem behind? (h : Alike p v w) {g : Handle} (hg : v.pathOf? g = some p) :
    ∃ c d, v.behind? g = some c ∧ w.behind? g = some d ∧ Bytes.AlikeBehind c d := by
  obtain ⟨c, d, hc, hd, hcd⟩ := h.file
  refine ⟨c, d, ?_, ?_, hcd⟩
  · rw [Volume.behind?, hg, Option.bind_some, hc]
  · rw [Volume.behind?, h.pathOf?, hg, Option.bind_some, hd]

theorem overwrite (h : Alike p v w) (offset : Nat) (bytes : Bytes) :
    Alike p (v.overwrite p offset bytes) (w.overwrite p offset bytes) where
  rest := by rw [h.rest]; rfl
  outline := by rw [outline_overwrite, outline_overwrite, h.outline]
  others q hq := by
    rw [node?_overwrite_of_ne _ _ _ hq.symm, node?_overwrite_of_ne _ _ _ hq.symm, h.others q hq]
  file := by
    obtain ⟨c, d, hc, hd, hcd⟩ := h.file
    refine ⟨_, _, ?_, ?_, hcd.overwrite offset bytes.toList⟩
    · rw [content?_overwrite_self, hc, Option.map_some]
    · rw [content?_overwrite_self, hd, Option.map_some]

/-- Writing to the file has the same result. -/
theorem write (h : Alike p v w) {g : Handle} (hg : v.pathOf? g = some p) (offset : Nat)
    (bytes : Bytes) : (w.write g offset bytes).1 = (v.write g offset bytes).1 ∧
      Alike p (v.write g offset bytes).2 (w.write g offset bytes).2 := by
  obtain ⟨c, d, hc, hd, hcd⟩ := h.file
  rw [write_eq hg hc, write_eq ((h.pathOf? g).trans hg) hd]
  exact ⟨by rw [Bytes.room, Bytes.room, hcd.size], h.overwrite offset bytes⟩

/-- Another block may be written to one of the files. -/
theorem write_block (h : Alike p v w) {g : Handle} (hg : v.pathOf? g = some p) {block : Bytes}
    (hblock : block.size = Snapshot.blockSize) : Alike p v (w.write g 0 block).2 := by
  obtain ⟨c, d, hc, hd, hcd⟩ := h.file
  have hlength : block.toList.length = Snapshot.blockSize := hblock
  rw [write_eq ((h.pathOf? g).trans hg) hd]
  refine ⟨?_, ?_, ?_, c, _, hc, ?_, hcd.overwrite_block hlength⟩
  · conv => lhs; rw [h.rest]
    rfl
  · rw [outline_overwrite, h.outline]
  · intro q hq
    rw [node?_overwrite_of_ne _ _ _ hq.symm, h.others q hq]
  · rw [content?_overwrite_self, hd, Option.map_some]

/-- When the same block is written to both, nothing differs any more. -/
theorem node?_of_same_block (h : Alike p v w) {g : Handle} (hg : v.pathOf? g = some p) {block : Bytes}
    (hblock : block.size = Snapshot.blockSize) (q : Path) :
    (w.write g 0 block).2.node? q = (v.write g 0 block).2.node? q := by
  obtain ⟨c, d, hc, hd, hcd⟩ := h.file
  have hlength : block.toList.length = Snapshot.blockSize := hblock
  rw [write_eq hg hc, write_eq ((h.pathOf? g).trans hg) hd]
  by_cases hq : q = p
  · subst hq
    have hc' : (v.overwrite q 0 block).content? q = some (Bytes.overwrite c 0 block.toList) := by
      rw [content?_overwrite_self, hc, Option.map_some]
    have hd' : (w.overwrite q 0 block).content? q = some (Bytes.overwrite c 0 block.toList) := by
      rw [content?_overwrite_self, hd, Option.map_some,
        hcd.eq_of_same_block hlength]
    exact (node?_of_content? hd').trans (node?_of_content? hc').symm
  · rw [node?_overwrite_of_ne _ _ _ (Ne.symm hq), node?_overwrite_of_ne _ _ _ (Ne.symm hq),
      h.others q hq]

theorem put_self (h : Alike p v w) {c d : Bytes} (hcd : Bytes.AlikeBehind c d) :
    Alike p (v.put p (.file c)) (w.put p (.file d)) where
  rest := by rw [h.rest]; rfl
  outline := by rw [outline_put, outline_put, h.outline, Node.size, Node.size, hcd.size]
  others q hq := by rw [node?_put, node?_put, if_neg hq.symm, if_neg hq.symm, h.others q hq]
  file := ⟨c, d, by rw [content?_put, if_pos rfl]; rfl, by rw [content?_put, if_pos rfl]; rfl, hcd⟩

theorem put_of_ne (h : Alike p v w) {q : Path} (hq : q ≠ p) (node : Node) :
    Alike p (v.put q node) (w.put q node) where
  rest := by rw [h.rest]; rfl
  outline := by rw [outline_put, outline_put, h.outline]
  others r hr := by rw [node?_put, node?_put, h.others r hr]
  file := by
    obtain ⟨c, d, hc, hd, hcd⟩ := h.file
    refine ⟨c, d, ?_, ?_, hcd⟩
    · rw [content?_put, if_neg hq, hc]
    · rw [content?_put, if_neg hq, hd]

theorem fits (h : Alike p v w) (old new : Nat) : w.fits old new = v.fits old new := by
  have hcapacity : w.capacity = v.capacity := by rw [h.rest]
  rw [Volume.fits, Volume.fits, used_eq, used_eq, h.outline, hcapacity]

/-- Resizing the file, or another. -/
theorem resize (h : Alike p v w) (q : Path) {size : Nat} (hsize : Snapshot.blockSize ≤ size) :
    (w.resize q size).1 = (v.resize q size).1 ∧
      Alike p (v.resize q size).2 (w.resize q size).2 := by
  have hcounted : Alike p { v with resizeCalls := v.resizeCalls + 1 }
      { w with resizeCalls := w.resizeCalls + 1 } :=
    ⟨by rw [h.rest], h.outline, h.others, h.file⟩
  rw [resize_eq, resize_eq]
  by_cases hq : q = p
  · subst hq
    obtain ⟨c, d, hc, hd, hcd⟩ := h.file
    rw [hc, hd]
    dsimp only
    rw [hcd.size, h.fits]
    split
    · exact ⟨rfl, hcounted.put_self (hcd.resize hsize)⟩
    · exact ⟨rfl, hcounted⟩
  · rw [content?, content?, h.others q hq]
    cases (v.node? q).bind Node.content? with
    | none => exact ⟨rfl, hcounted⟩
    | some content =>
      dsimp only
      rw [h.fits]
      split
      · exact ⟨rfl, hcounted.put_of_ne hq _⟩
      · exact ⟨rfl, hcounted⟩

end Alike

end Volume

end CoopKernel
