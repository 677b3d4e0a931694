import CoopKernel.Proofs.Storage.Backed

/-!
# What stays open

Work that opens and closes nothing leaves every handle with its path, and a file that is open stays a
file: it cannot be deleted while it is open, and nothing but a file is ever put in the place of one.
Opening gives out a handle that nobody has.
-/

namespace CoopKernel

open Storage (Edit Edits)

/-- A key has a value exactly if it is among the keys. -/
theorem Index.find?_isSome_iff {κ ν : Type} [DecidableEq κ] (k : κ) (entries : List (κ × ν)) :
    (Index.find? k entries).isSome ↔ k ∈ entries.map Prod.fst := by
  induction entries with
  | nil => simp [Index.find?]
  | cons entry rest ih =>
    obtain ⟨key, value⟩ := entry
    by_cases h : key = k
    · simp [Index.find?, h]
    · simp [Index.find?, h, ih, Ne.symm h]

namespace Volume

/-- The content of the file that a handle is open for. -/
def behind? (v : Volume) (h : Handle) : Option Bytes :=
  (v.pathOf? h).bind v.content?

/-- The same handles are open for the same paths, and the files among what is open are still
files. -/
structure Steady (v w : Volume) : Prop where
  paths : ∀ h, w.pathOf? h = v.pathOf? h
  files : ∀ h, (v.behind? h).isSome → (w.behind? h).isSome

instance : IsPreorder Volume Steady where
  refl _ := ⟨fun _ => rfl, fun _ h => h⟩
  trans _ _ _ h₁ h₂ :=
    ⟨fun h => (h₂.paths h).trans (h₁.paths h), fun h hf => h₂.files h (h₁.files h hf)⟩

theorem isOpen_of_pathOf? {v : Volume} {h : Handle} {p : Path} (hp : v.pathOf? h = some p) :
    v.isOpen p := by
  have key : ∀ entries : List (Handle × Path), Index.find? h entries = some p →
      entries.any fun entry => entry.2 = p := by
    intro entries
    induction entries with
    | nil => intro he; cases he
    | cons entry rest ih =>
      obtain ⟨g, q⟩ := entry
      simp only [Index.find?, List.any_cons, Bool.or_eq_true, decide_eq_true_eq]
      split
      · intro he
        exact .inl (Option.some.inj he)
      · intro he
        exact .inr (ih he)
  exact key _ hp

/-- It is enough that the handles are left alone and that open files stay where they are. -/
theorem Steady.of_content {v w : Volume} (hh : w.handles = v.handles)
    (hc : ∀ p, v.isOpen p → (v.content? p).isSome → (w.content? p).isSome) : Steady v w := by
  have hpaths : ∀ h, w.pathOf? h = v.pathOf? h := by
    intro h
    simp only [pathOf?, hh]
  refine ⟨hpaths, ?_⟩
  intro h hf
  unfold behind? at hf ⊢
  rw [hpaths]
  cases hp : v.pathOf? h with
  | none =>
    rw [hp] at hf
    cases hf
  | some p =>
    rw [hp] at hf
    exact hc p (isOpen_of_pathOf? hp) hf

/-! ## Files after a change -/

theorem content?_put (v : Volume) (p q : Path) (node : Node) :
    (v.put p node).content? q = if p = q then node.content? else v.content? q := by
  unfold content?
  rw [node?_put]
  split <;> rfl

theorem content?_overwrite (v : Volume) (p q : Path) (offset : Nat) (bytes : Bytes) :
    (v.overwrite p offset bytes).content? q =
      if p = q then (v.content? q).map (·.overwrite offset bytes.toList) else v.content? q := by
  split
  · next h =>
    subst h
    exact content?_overwrite_self v p offset bytes
  · next h => simp only [content?, node?_overwrite_of_ne v offset bytes h]

theorem content?_erase (v : Volume) (p q : Path) :
    ({ v with nodes := Index.erase p v.nodes } : Volume).content? q =
      if p = q then none else v.content? q := by
  simp only [content?, node?, Index.find?_erase]
  split <;> rfl

/-! ## The calls that open and close nothing -/

theorem steady_read (v : Volume) (h : Handle) (offset count : Nat) :
    Steady v (v.read h offset count).2 := by
  unfold read
  split <;> exact .of_content rfl fun _ _ hc => hc

theorem steady_write (v : Volume) (h : Handle) (offset : Nat) (bytes : Bytes) :
    Steady v (v.write h offset bytes).2 := by
  unfold write
  split
  · exact refl_of Steady v
  · split
    · refine .of_content rfl ?_
      intro q _ hc
      rw [content?_overwrite]
      split
      · rw [Option.isSome_map]
        exact hc
      · exact hc
    · exact .of_content rfl fun _ _ hc => hc
    · exact refl_of Steady v
    · exact refl_of Steady v

theorem steady_put_file (v : Volume) (p : Path) (content : Bytes) :
    Steady v (v.put p (.file content)) := by
  refine .of_content rfl ?_
  intro q _ hc
  rw [content?_put]
  split
  · rfl
  · exact hc

/-- Making a file does nothing, or puts a file of zeros into a directory where nothing or a file was. -/
theorem create_cases (v : Volume) (p : Path) (size : Nat) :
    v.create p size = (false, v) ∨
      v.isDir p.parent ∧ (v.node? p = none ∨ ∃ content, v.node? p = some (.file content)) ∧
        v.create p size = (true, v.put p (.file (Array.replicate size 0))) := by
  unfold create
  split
  · exact .inl rfl
  · next hdir =>
    rw [Bool.not_eq_true', Bool.not_eq_false] at hdir
    dsimp only
    split
    · next content hfile =>
      split
      · exact .inr ⟨hdir, .inr ⟨content, hfile⟩, rfl⟩
      · exact .inl rfl
    · next hnone =>
      split
      · exact .inr ⟨hdir, .inl hnone, rfl⟩
      · exact .inl rfl
    · exact .inl rfl
    · exact .inl rfl

theorem steady_create (v : Volume) (p : Path) (size : Nat) : Steady v (v.create p size).2 := by
  rcases v.create_cases p size with hc | ⟨_, _, hc⟩
  · rw [hc]
    exact refl_of Steady v
  · rw [hc]
    exact steady_put_file v p _

theorem steady_resize (v : Volume) (p : Path) (size : Nat) : Steady v (v.resize p size).2 := by
  have hcount : Steady v { v with resizeCalls := v.resizeCalls + 1 } :=
    .of_content rfl fun _ _ hc => hc
  unfold resize
  dsimp only
  split
  · exact hcount
  · split
    · exact trans_of Steady hcount (steady_put_file _ p _)
    · exact hcount

/-- Removing does nothing, or removes what nobody has open and, if it is a directory, holds nothing. -/
theorem delete_cases (v : Volume) (p : Path) :
    v.delete p = (false, v) ∨
      ∃ node, v.node? p = some node ∧ (node.isDir → p ≠ Path.root ∧ v.children p = []) ∧
        ¬v.isOpen p ∧ v.delete p = (true, { v with nodes := Index.erase p v.nodes }) := by
  unfold delete
  split
  · exact .inl rfl
  · next node hnode =>
    split
    · exact .inl rfl
    · next hbare =>
      split
      · exact .inl rfl
      · next hclosed =>
        refine .inr ⟨node, hnode, ?_, hclosed, rfl⟩
        intro hdir
        simpa [hdir] using hbare

theorem steady_delete (v : Volume) (p : Path) : Steady v (v.delete p).2 := by
  rcases v.delete_cases p with hd | ⟨_, _, _, hopen, hd⟩
  · rw [hd]
    exact refl_of Steady v
  · rw [hd]
    refine .of_content rfl ?_
    intro q hq hc
    rw [content?_erase, if_neg]
    · exact hc
    · rintro rfl
      exact hopen hq

/-- A file that is made is there and full of zeros, whether or not there was one before. -/
theorem content?_create {v : Volume} {p : Path} {size : Nat} (h : (v.create p size).1 = true) :
    (v.create p size).2.content? p = some (Array.replicate size 0) := by
  rcases v.create_cases p size with hc | ⟨_, _, hc⟩
  · rw [hc] at h
    cases h
  · rw [hc, content?_put, if_pos rfl]
    rfl

/-! ## The host's own changes -/

/-- Making directories touches neither handles nor files. -/
theorem mkdirUp_content (names : List Name) (v : Volume) :
    (mkdirUp names v).2.handles = v.handles ∧
      ∀ q, (mkdirUp names v).2.content? q = v.content? q := by
  induction names generalizing v with
  | nil => exact ⟨rfl, fun _ => rfl⟩
  | cons name up ih =>
    unfold mkdirUp
    dsimp only
    split
    · exact ⟨rfl, fun _ => rfl⟩
    · next hnone =>
      obtain ⟨hhandles, hcontent⟩ := ih v
      split
      · refine ⟨hhandles, ?_⟩
        intro q
        rw [content?_put, hcontent]
        split
        · next he =>
          subst he
          simp only [content?, hnone]
          rfl
        · rfl
      · exact ⟨hhandles, hcontent⟩

theorem steady_mkdir (v : Volume) (p : Path) : Steady v (v.mkdir p).2 := by
  obtain ⟨hhandles, hcontent⟩ := mkdirUp_content p.names.reverse v
  exact .of_content hhandles fun q _ hc => (hcontent q).symm ▸ hc

theorem steady_addFile (v : Volume) (p : Path) (content : Bytes) :
    Steady v (v.addFile p content).2 := by
  have hmkdir := steady_mkdir v p.parent
  unfold addFile
  split
  · exact refl_of Steady v
  · dsimp only
    split
    · exact hmkdir
    · split
      · exact hmkdir
      · exact hmkdir
      · exact trans_of Steady hmkdir (steady_put_file _ p content)
      · exact trans_of Steady hmkdir (steady_put_file _ p content)

theorem steady_addDevice (v : Volume) (p : Path) (device : Device) :
    Steady v (v.addDevice p device).2 := by
  have hmkdir := steady_mkdir v p.parent
  unfold addDevice
  split
  · exact refl_of Steady v
  · next hfree =>
    have hput : Steady (v.mkdir p.parent).2 ((v.mkdir p.parent).2.put p (.device device)) := by
      refine .of_content rfl ?_
      intro q _ hc
      rw [content?_put]
      split
      · next he =>
        subst he
        have hcontent : (v.mkdir p.parent).2.content? p = v.content? p :=
          (mkdirUp_content p.parent.names.reverse v).2 p
        simp only [Bool.or_eq_true, not_or, contains, Option.not_isSome_iff_eq_none] at hfree
        rw [hcontent, content?, hfree.2] at hc
        cases hc
      · exact hc
    dsimp only
    split
    · exact trans_of Steady hmkdir hput
    · exact hmkdir

/-! ## Opening and closing -/

/-- The handle that is given out next is valid and has no path. -/
theorem freeHandle?_spec {v : Volume} {h : Handle} (hf : v.freeHandle? = some h) :
    h ≠ Handle.invalid ∧ v.pathOf? h = none := by
  unfold freeHandle? at hf
  dsimp only at hf
  obtain ⟨n, hn, rfl⟩ := Option.map_eq_some_iff.mp hf
  have hfree := List.find?_some hn
  simp only [Bool.and_eq_true, decide_eq_true_eq, Option.isNone_iff_eq_none] at hfree
  refine ⟨?_, hfree.2⟩
  intro he
  have hpos : 1 ≤ n := (List.mem_range'_1.mp (List.mem_of_find?_eq_some hn)).1
  have hzero : (UInt16.ofNat n).toNat = 0 := by
    rw [show UInt16.ofNat n = 0 from Handle.mk.inj he]
    rfl
  rw [UInt16.toNat_ofNat'] at hzero
  omega

/-- Opening gives out a handle that nobody has, or changes nothing. -/
theorem openPath_cases (v : Volume) (p : Path) :
    v.openPath p = (none, v) ∨
      ∃ h, h ≠ Handle.invalid ∧ v.pathOf? h = none ∧
        v.openPath p = (some h, { v with handles := Index.insert handleBefore h p v.handles }) := by
  unfold openPath
  split
  · split
    · next h hf =>
      obtain ⟨hvalid, hfree⟩ := freeHandle?_spec hf
      exact .inr ⟨h, hvalid, hfree, rfl⟩
    · exact .inl rfl
  · exact .inl rfl

/-- Closing a handle leaves what is behind the others. -/
theorem behind?_close (v : Volume) {h g : Handle} (hne : h ≠ g) :
    (v.close h).behind? g = v.behind? g := by
  unfold behind?
  rw [pathOf?_close, if_neg hne]
  rfl

end Volume

section Backed

variable {σ α : Type}

/-- What holds of the volume left alone and of the wanted outcome holds of the volume after the
call. -/
theorem Honoured.volume {volume : σ → Volume} {s : σ} {failure : α} {got : α × σ}
    {want : α × Volume} (h : Honoured volume s failure got want) {P : Volume → Prop}
    (hs : P (volume s)) (hw : P want.2) : P (volume got.2) := by
  rcases h with ⟨_, he⟩ | ⟨_, he⟩
  · rw [he]
    exact hw
  · rw [he]
    exact hs

end Backed

namespace VolumeBacked

variable {σ : Type} [Storage σ] [VolumeBacked σ]

theorem steady_edit {s s' : σ} (h : Edit s s') : Volume.Steady (volume s) (volume s') := by
  have hrefl := refl_of Volume.Steady (volume s)
  cases h with
  | read h offset count =>
    exact (VolumeBacked.read s h offset count).volume hrefl (Volume.steady_read _ h offset count)
  | write h offset bytes =>
    exact (VolumeBacked.write s h offset bytes).volume hrefl (Volume.steady_write _ h offset bytes)
  | create p size =>
    exact (VolumeBacked.create s p size).volume hrefl (Volume.steady_create _ p size)
  | resize p size =>
    exact (VolumeBacked.resize s p size).volume hrefl (Volume.steady_resize _ p size)
  | delete p => exact (VolumeBacked.delete s p).volume hrefl (Volume.steady_delete _ p)

theorem steady_edits {s s' : σ} (h : Edits s s') : Volume.Steady (volume s) (volume s') := by
  induction h with
  | refl => exact refl_of Volume.Steady _
  | tail _ hstep ih => exact trans_of Volume.Steady ih (steady_edit hstep)

theorem pathOf?_edits {s s' : σ} (h : Edits s s') (g : Handle) :
    Storage.pathOf? s' g = Storage.pathOf? s g := by
  rw [VolumeBacked.pathOf?, VolumeBacked.pathOf?]
  exact (steady_edits h).paths g

/-- A file that is made is there. -/
theorem create_content {s s' : σ} {p : Path} {size : Nat}
    (hc : Storage.create s p size = (true, s')) : ((volume s').content? p).isSome := by
  have hcreate := VolumeBacked.create s p size
  rw [hc] at hcreate
  rcases hcreate with ⟨hvalue, hvolume⟩ | ⟨hvalue, _⟩
  · have hfile := Volume.content?_create hvalue.symm
    rw [← hvolume] at hfile
    rw [hfile]
    rfl
  · cases hvalue

/-- Opening that gives out a handle adds an entry for it. -/
theorem openPath_volume {s s' : σ} {p : Path} {h : Handle}
    (ho : Storage.openPath s p = (some h, s')) :
    h ≠ Handle.invalid ∧ (volume s).pathOf? h = none ∧ volume s' =
      { volume s with handles := Index.insert Volume.handleBefore h p (volume s).handles } := by
  have hopen := VolumeBacked.openPath s p
  rw [ho] at hopen
  rcases hopen with ⟨hvalue, hvolume⟩ | ⟨hvalue, _⟩
  · rcases Volume.openPath_cases (volume s) p with hnone | ⟨h', hvalid, hfree, hsome⟩
    · rw [hnone] at hvalue
      cases hvalue
    · rw [hsome] at hvalue hvolume
      cases hvalue
      exact ⟨hvalid, hfree, hvolume⟩
  · cases hvalue

/-- A handle that is given out is valid, nobody had it, and it is the only one that changed. -/
theorem openPath_some {s s' : σ} {p : Path} {h : Handle}
    (ho : Storage.openPath s p = (some h, s')) :
    h ≠ Handle.invalid ∧ Storage.pathOf? s h = none ∧
      ∀ g, Storage.pathOf? s' g = if h = g then some p else Storage.pathOf? s g := by
  obtain ⟨hvalid, hfree, hvolume⟩ := openPath_volume ho
  simp only [VolumeBacked.pathOf?]
  refine ⟨hvalid, hfree, ?_⟩
  intro g
  rw [hvolume]
  exact Index.find?_insert _ _ _ _ _

/-- What is behind a handle that is given out is what is at the path. -/
theorem openPath_behind {s s' : σ} {p : Path} {h : Handle}
    (ho : Storage.openPath s p = (some h, s')) (g : Handle) :
    (volume s').behind? g = if h = g then (volume s).content? p else (volume s).behind? g := by
  have hpath := (openPath_some ho).2.2 g
  simp only [VolumeBacked.pathOf?] at hpath
  have hcontent : (volume s').content? = (volume s).content? := by
    rw [(openPath_volume ho).2.2]
    rfl
  unfold Volume.behind?
  rw [hpath, hcontent]
  split <;> rfl

/-- Opening that gives out no handle changes nothing. -/
theorem openPath_none {s s' : σ} {p : Path} (ho : Storage.openPath s p = (none, s')) :
    Volume.Steady (volume s) (volume s') := by
  have hopen := VolumeBacked.openPath s p
  rw [ho] at hopen
  rcases hopen with ⟨hvalue, hvolume⟩ | ⟨_, hvolume⟩
  · rcases Volume.openPath_cases (volume s) p with hnone | ⟨h', _, _, hsome⟩
    · rw [hnone] at hvolume
      rw [hvolume]
      exact refl_of Volume.Steady _
    · rw [hsome] at hvalue
      cases hvalue
  · rw [hvolume]
    exact refl_of Volume.Steady _

theorem behind?_close (s : σ) {h g : Handle} (hne : h ≠ g) :
    (volume (Storage.close s h)).behind? g = (volume s).behind? g := by
  rw [VolumeBacked.close]
  exact Volume.behind?_close _ hne

theorem pathOf?_close (s : σ) (h g : Handle) :
    Storage.pathOf? (Storage.close s h) g = if h = g then none else Storage.pathOf? s g := by
  simp only [VolumeBacked.pathOf?, VolumeBacked.close]
  exact Volume.pathOf?_close _ h g

end VolumeBacked

end CoopKernel
