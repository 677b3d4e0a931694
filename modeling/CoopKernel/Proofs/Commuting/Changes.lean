import CoopKernel.Proofs.Splitting.Alike
import CoopKernel.Proofs.Storage.Ordered

/-!
# Changes to different backing files

What a process does to its backing file is a list of changes: bytes are put in the place of others, or the
file is resized for a longer data region. Changes to two files come to the same volume in either order, as
long as there is no limit for all files together.
-/

namespace CoopKernel

namespace Index

variable {κ ν : Type} [DecidableEq κ] {before : κ → κ → Bool} {k k' : κ}

theorem insert_comm_of_before (hb : Strict before) (hfirst : before k k') (v v' : ν)
    (entries : List (κ × ν)) :
    insert before k v (insert before k' v' entries) =
      insert before k' v' (insert before k v entries) := by
  have hsecond : before k' k = false := hb.asymm hfirst
  have hne : k ≠ k' := by
    rintro rfl
    rw [hfirst] at hsecond
    cases hsecond
  induction entries with
  | nil => simp [insert, hne, hne.symm, hfirst, hsecond]
  | cons entry rest ih =>
    obtain ⟨key, value⟩ := entry
    by_cases hk : key = k
    · subst hk
      simp [insert, hne, hsecond]
    · by_cases hk' : key = k'
      · subst hk'
        simp [insert, hne, hk, hfirst, hsecond]
      · by_cases hbefore : before k key
        · by_cases hbefore' : before k' key
          · simp [insert, hne, hne.symm, hk, hk', hbefore, hbefore', hfirst, hsecond]
          · simp [insert, hne, hk, hk', hbefore, hbefore', hsecond]
        · -- What does not come before `key` is not followed by anything that does.
          have hbefore' : before k' key = false :=
            Bool.eq_false_iff.mpr fun h => hbefore (hb.trans hfirst h)
          simp [insert, hk, hk', hbefore, hbefore', ih]

/-- Values of different keys are put in their places in either order. -/
theorem insert_comm (hb : Strict before) (hne : k ≠ k') (v v' : ν) (entries : List (κ × ν)) :
    insert before k v (insert before k' v' entries) =
      insert before k' v' (insert before k v entries) := by
  rcases hb.total hne with hfirst | hsecond
  · exact insert_comm_of_before hb hfirst v v' entries
  · exact (insert_comm_of_before hb hsecond v' v entries).symm

theorem adjust_comm (hne : k ≠ k') (g g' : ν → ν) (entries : List (κ × ν)) :
    adjust k g (adjust k' g' entries) = adjust k' g' (adjust k g entries) := by
  induction entries with
  | nil => rfl
  | cons entry rest ih =>
    obtain ⟨key, value⟩ := entry
    by_cases hk : key = k
    · subst hk
      simp [adjust, hne]
    · by_cases hk' : key = k'
      · subst hk'
        simp [adjust, hk]
      · simp [adjust, hk, hk', ih]

/-- Changing a value does not move it, so that another is put in its place before or after that. -/
theorem insert_adjust_comm (hne : k ≠ k') (v : ν) (g : ν → ν) (entries : List (κ × ν)) :
    insert before k v (adjust k' g entries) = adjust k' g (insert before k v entries) := by
  induction entries with
  | nil => simp [insert, adjust, hne]
  | cons entry rest ih =>
    obtain ⟨key, value⟩ := entry
    by_cases hk : key = k
    · subst hk
      simp [insert, adjust, hne]
    · by_cases hk' : key = k'
      · subst hk'
        by_cases hb : before k key
        · simp [insert, adjust, hne, hk, hb]
        · simp [insert, adjust, hk, hb]
      · by_cases hb : before k key
        · simp [insert, adjust, hne, hk, hk', hb]
        · simp [insert, adjust, hk, hk', hb, ih]

end Index

/-- A change to a backing file. -/
inductive BackingChange where
  | overwrite (offset : Nat) (bytes : Bytes)
  /-- The file is resized for a data region of the given length. -/
  | resize (length : Nat)

namespace Volume

variable {v : Volume} {p q : Path}

theorem put_comm (v : Volume) (hne : p ≠ q) (a b : Node) : (v.put p a).put q b = (v.put q b).put p a := by
  have hnodes := Index.insert_comm Path.before_strict hne a b v.nodes
  exact congrArg (fun nodes => { v with nodes }) hnodes.symm

theorem put_overwrite_comm (v : Volume) (hne : p ≠ q) (a : Node) (offset : Nat) (bytes : Bytes) :
    (v.overwrite q offset bytes).put p a = (v.put p a).overwrite q offset bytes :=
  congrArg (fun nodes => { v with nodes }) (Index.insert_adjust_comm hne a _ v.nodes)

theorem overwrite_comm (v : Volume) (hne : p ≠ q) (offset offset' : Nat) (bytes bytes' : Bytes) :
    (v.overwrite p offset bytes).overwrite q offset' bytes' =
      (v.overwrite q offset' bytes').overwrite p offset bytes :=
  congrArg (fun nodes => { v with nodes }) (Index.adjust_comm hne.symm _ _ v.nodes)

/-- The volume with the file at a path changed. -/
def change (p : Path) (v : Volume) : BackingChange → Volume
  | .overwrite offset bytes => v.overwrite p offset bytes
  | .resize length => (v.resize p (Snapshot.blockSize + length)).2

/-- The volume with the file at a path changed in several ways, one after the other. -/
def changeAll (p : Path) (v : Volume) (cs : List BackingChange) : Volume :=
  cs.foldl (change p) v

/-- Without a limit a file can have any size. -/
theorem resize_unlimited (hcapacity : v.capacity = none) (p : Path) (size : Nat) :
    v.resize p size =
      match v.content? p with
      | none => (false, { v with resizeCalls := v.resizeCalls + 1 })
      | some content => (true, ({ v with resizeCalls := v.resizeCalls + 1 } : Volume).put p
          (.file (content.resize size))) := by
  have hfits (old : Nat) : v.fits old size = true := by rw [fits, hcapacity]
  rw [resize_eq]
  cases v.content? p with
  | none => rfl
  | some content => exact if_pos (hfits content.size)

/-! ## What a change leaves alone -/

theorem overwrite_onlyAt (v : Volume) (p : Path) (offset : Nat) (bytes : Bytes) :
    OnlyAt p v (v.overwrite p offset bytes) :=
  ⟨rfl, fun _ hq => node?_overwrite_of_ne v offset bytes (Ne.symm hq)⟩

theorem change_onlyAt (p : Path) (v : Volume) (c : BackingChange) : OnlyAt p v (v.change p c) := by
  cases c with
  | overwrite offset bytes => exact v.overwrite_onlyAt p offset bytes
  | resize length => exact v.resize_onlyAt p _

theorem changeAll_onlyAt (p : Path) (v : Volume) (cs : List BackingChange) :
    OnlyAt p v (v.changeAll p cs) :=
  foldl_keeps (fun w c _ => w.change_onlyAt p c) v

theorem capacity_change (p : Path) (v : Volume) (c : BackingChange) :
    (v.change p c).capacity = v.capacity := by
  cases c with
  | overwrite offset bytes => rfl
  | resize length =>
    show (v.resize p (Snapshot.blockSize + length)).2.capacity = v.capacity
    rw [resize_eq]
    split
    · rfl
    · split <;> rfl

theorem capacity_changeAll (p : Path) (v : Volume) (cs : List BackingChange) :
    (v.changeAll p cs).capacity = v.capacity := by
  induction cs generalizing v with
  | nil => rfl
  | cons c cs ih => exact (ih _).trans (v.capacity_change p c)

theorem pathOf?_changeAll (p : Path) (v : Volume) (cs : List BackingChange) (h : Handle) :
    (v.changeAll p cs).pathOf? h = v.pathOf? h :=
  (v.changeAll_onlyAt p cs).pathOf? h

theorem OnlyAt.content? {v w : Volume} (h : OnlyAt p v w) (hne : q ≠ p) :
    w.content? q = v.content? q := by
  rw [Volume.content?, Volume.content?, h.nodes q hne]

theorem behind?_changeAll_of_ne {h : Handle} (hne : v.pathOf? h ≠ some p) (cs : List BackingChange) :
    (v.changeAll p cs).behind? h = v.behind? h := by
  unfold behind?
  rw [pathOf?_changeAll]
  cases hq : v.pathOf? h with
  | none => rfl
  | some q => exact (v.changeAll_onlyAt p cs).content? fun he => hne (by rw [hq, he])

/-- There is still room for a state block. -/
theorem content?_changeAll_self {content : Bytes} (hc : v.content? p = some content)
    (hroom : Snapshot.blockSize ≤ content.size) (cs : List BackingChange) :
    ∃ content', (v.changeAll p cs).content? p = some content' ∧
      Snapshot.blockSize ≤ content'.size := by
  induction cs generalizing v content with
  | nil => exact ⟨content, hc, hroom⟩
  | cons c cs ih =>
    cases c with
    | overwrite offset bytes =>
      have hc' : (v.change p (.overwrite offset bytes)).content? p =
          some (content.overwrite offset bytes.toList) := by
        show (v.overwrite p offset bytes).content? p = _
        rw [content?_overwrite_self, hc, Option.map_some]
      exact ih hc' (by rw [Bytes.size_overwrite]; exact hroom)
    | resize length =>
      by_cases hfits : v.fits content.size (Snapshot.blockSize + length)
      · have hc' : (v.change p (.resize length)).content? p =
            some (content.resize (Snapshot.blockSize + length)) := by
          show (v.resize p (Snapshot.blockSize + length)).2.content? p = _
          simp only [resize_eq, hc, if_pos hfits, content?_put, if_true]
          rfl
        exact ih hc' (by rw [Bytes.size_resize]; exact Nat.le_add_right _ _)
      · have hc' : (v.change p (.resize length)).content? p = some content := by
          show (v.resize p (Snapshot.blockSize + length)).2.content? p = _
          simp only [resize_eq, hc, if_neg hfits]
          exact hc
        exact ih hc' hroom

/-! ## Either order -/

theorem change_comm (hne : p ≠ q) (hcapacity : v.capacity = none) (c d : BackingChange) :
    (v.change p c).change q d = (v.change q d).change p c := by
  have hoverwrite {p q : Path} (hne : p ≠ q) (offset : Nat) (bytes : Bytes) (size : Nat) :
      ((v.overwrite p offset bytes).resize q size).2 = (v.resize q size).2.overwrite p offset bytes := by
    have hsame := (v.overwrite_onlyAt p offset bytes).content? hne.symm
    rw [resize_unlimited hcapacity, resize_unlimited (v := v.overwrite p offset bytes) hcapacity, hsame]
    cases v.content? q with
    | none => rfl
    | some content =>
      exact put_overwrite_comm { v with resizeCalls := v.resizeCalls + 1 } hne.symm _ _ _
  cases c with
  | overwrite offset bytes =>
    cases d with
    | overwrite offset' bytes' => exact v.overwrite_comm hne _ _ _ _
    | resize length => exact hoverwrite hne _ _ _
  | resize length =>
    cases d with
    | overwrite offset bytes => exact (hoverwrite hne.symm _ _ _).symm
    | resize length' =>
      have hsame := (v.change_onlyAt p (.resize length)).content? hne.symm
      have hsame' := (v.change_onlyAt q (.resize length')).content? hne
      have hcapacity₁ := (v.capacity_change p (.resize length)).trans hcapacity
      have hcapacity₂ := (v.capacity_change q (.resize length')).trans hcapacity
      unfold change at hsame hsame' hcapacity₁ hcapacity₂ ⊢
      dsimp only at hsame hsame' hcapacity₁ hcapacity₂ ⊢
      rw [resize_unlimited hcapacity₁, resize_unlimited hcapacity₂, hsame, hsame',
        resize_unlimited hcapacity, resize_unlimited hcapacity]
      cases v.content? p with
      | none => cases v.content? q <;> rfl
      | some content =>
        cases v.content? q with
        | none => rfl
        | some content' =>
          exact put_comm { v with resizeCalls := v.resizeCalls + 1 + 1 } hne _ _

/-- Changes to one file and to another come to the same in either order. -/
theorem changeAll_comm (hne : p ≠ q) (hcapacity : v.capacity = none) (cs ds : List BackingChange) :
    (v.changeAll p cs).changeAll q ds = (v.changeAll q ds).changeAll p cs := by
  have hone {v : Volume} (hcapacity : v.capacity = none) (c : BackingChange) :
      (v.change p c).changeAll q ds = (v.changeAll q ds).change p c := by
    induction ds generalizing v with
    | nil => rfl
    | cons d ds ih =>
      show ((v.change p c).change q d).changeAll q ds = ((v.change q d).changeAll q ds).change p c
      rw [change_comm hne hcapacity, ih ((v.capacity_change q d).trans hcapacity)]
  induction cs generalizing v with
  | nil => rfl
  | cons c cs ih =>
    show ((v.change p c).changeAll p cs).changeAll q ds = ((v.changeAll q ds).change p c).changeAll p cs
    rw [ih ((v.capacity_change p c).trans hcapacity), hone hcapacity]

end Volume

end CoopKernel
