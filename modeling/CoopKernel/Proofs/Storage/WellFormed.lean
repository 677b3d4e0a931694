import CoopKernel.Proofs.Path
import CoopKernel.Proofs.Storage.Kept

/-!
# Volumes are well formed

Whatever is asked of a volume, its nodes stay a tree of directories with files and devices as leaves,
and its handles stay valid and open for something that is there. Only the kinds of the nodes and the
paths of the handles matter for that, and the requests change these in few ways: something new is put
into a directory, something closed that holds nothing is removed, a handle is given out. None of these
changes what is behind an open handle into something of another kind.
-/

namespace CoopKernel

/-- What a node is, whatever it holds. -/
inductive Node.Kind where
  | dir | file | device
  deriving DecidableEq, Repr

/-- What a node is, whatever it holds. -/
def Node.kind : Node → Node.Kind
  | dir => .dir
  | file _ => .file
  | device _ => .device

namespace Index

variable {κ ν : Type} [DecidableEq κ]

/-- A new key is put somewhere. -/
theorem insert_perm (before : κ → κ → Bool) {k : κ} (v : ν) {entries : List (κ × ν)}
    (h : find? k entries = none) : (insert before k v entries).Perm ((k, v) :: entries) := by
  induction entries with
  | nil => exact .refl _
  | cons entry rest ih =>
    obtain ⟨key, value⟩ := entry
    unfold find? at h
    unfold insert
    split at h
    · cases h
    · next hk =>
      rw [if_neg hk]
      split
      · exact .refl _
      · exact ((ih h).cons _).trans (.swap _ _ _)

theorem erase_of_absent {k : κ} {entries : List (κ × ν)} (h : find? k entries = none) :
    erase k entries = entries := by
  induction entries with
  | nil => rfl
  | cons entry rest ih =>
    unfold find? at h
    unfold erase
    split at h
    · cases h
    · next hk => rw [if_neg hk, ih h]

/-- A new key that is removed again leaves nothing. -/
theorem erase_insert (before : κ → κ → Bool) {k : κ} (v : ν) {entries : List (κ × ν)}
    (h : find? k entries = none) : erase k (insert before k v entries) = entries := by
  induction entries with
  | nil => simp [insert, erase]
  | cons entry rest ih =>
    obtain ⟨key, value⟩ := entry
    have hrest := erase_of_absent h
    unfold find? at h
    unfold insert
    split at h
    · cases h
    · next hk =>
      rw [if_neg hk]
      split
      · rw [erase, if_pos rfl, hrest]
      · rw [erase, if_neg hk, ih h]

theorem erase_sublist (k : κ) (entries : List (κ × ν)) : (erase k entries).Sublist entries := by
  induction entries with
  | nil => exact .refl _
  | cons entry rest ih =>
    unfold erase
    split
    · exact ih.cons entry
    · exact ih.cons_cons entry

theorem mem_of_find? {k : κ} {v : ν} {entries : List (κ × ν)} (h : find? k entries = some v) :
    (k, v) ∈ entries := by
  induction entries with
  | nil => cases h
  | cons entry rest ih =>
    rw [find?] at h
    split at h
    · next hk =>
      subst hk
      cases h
      exact List.mem_cons_self
    · exact List.mem_cons_of_mem _ (ih h)

/-- Where no key occurs twice, every entry is found. -/
theorem find?_of_mem {k : κ} {v : ν} {entries : List (κ × ν)} (hd : (entries.map Prod.fst).Nodup)
    (hm : (k, v) ∈ entries) : find? k entries = some v := by
  induction entries with
  | nil => cases hm
  | cons entry rest ih =>
    rw [List.map_cons, List.nodup_cons] at hd
    unfold find?
    rcases List.mem_cons.mp hm with rfl | hm
    · rw [if_pos rfl]
    · rw [if_neg, ih hd.2 hm]
      rintro rfl
      exact hd.1 (List.mem_map.mpr ⟨_, hm, rfl⟩)

end Index

namespace Volume

/-- The kind of what is at a path. -/
def kind? (v : Volume) (p : Path) : Option Node.Kind :=
  (v.node? p).map Node.kind

theorem kind?_eq_dir {v : Volume} {p : Path} : v.kind? p = some .dir ↔ v.isDir p = true := by
  unfold kind? isDir
  cases v.node? p with
  | none => simp
  | some node => cases node <;> simp [Node.kind, Node.isDir]

theorem isSome_kind? (v : Volume) (p : Path) : (v.kind? p).isSome = v.contains p :=
  Option.isSome_map

theorem kind?_eq_none {v : Volume} {p : Path} : v.kind? p = none ↔ v.node? p = none :=
  Option.map_eq_none_iff

theorem kind?_of_content? {v : Volume} {p : Path} {content : Bytes} (h : v.content? p = some content) :
    v.kind? p = some .file := by
  obtain ⟨node, hnode, hfile⟩ := Option.bind_eq_some_iff.mp h
  rw [kind?, hnode]
  cases node with
  | file content => rfl
  | dir | device d => cases hfile

theorem kind?_put (v : Volume) (p q : Path) (node : Node) :
    (v.put p node).kind? q = if p = q then some node.kind else v.kind? q := by
  unfold kind?
  rw [node?_put]
  split <;> rfl

theorem kind?_overwrite (v : Volume) (p q : Path) (offset : Nat) (bytes : Bytes) :
    (v.overwrite p offset bytes).kind? q = v.kind? q := by
  simp only [kind?, node?, overwrite, Index.find?_adjust]
  split
  · cases Index.find? q v.nodes with
    | none => rfl
    | some node => cases node <;> rfl
  · rfl

/-- The nodes form a tree, and the handles are distinct, valid and open for something in it. -/
structure WellFormed (v : Volume) : Prop where
  root : v.kind? Path.root = some .dir
  parents : ∀ p ≠ Path.root, v.contains p → v.kind? p.parent = some .dir
  distinct : (v.handles.map Prod.fst).Nodup
  invalid : v.pathOf? Handle.invalid = none
  present : ∀ h p, v.pathOf? h = some p → v.contains p

theorem wellFormed_empty : WellFormed empty where
  root := rfl
  parents := by
    intro p hp hc
    simp [contains, node?, empty, Index.find?, Ne.symm hp] at hc
  distinct := List.nodup_nil
  invalid := rfl
  present h p hp := by cases hp

/-- What can become of a volume at once, as far as the kinds of its nodes and its handles go, when no
handle is closed. -/
inductive Change (v w : Volume) : Prop where
  /-- Nothing. -/
  | same (kinds : ∀ q, w.kind? q = v.kind? q) (handles : w.handles = v.handles)
  /-- Something new is put into a directory. -/
  | made (p : Path) (kind : Node.Kind) (parent : v.kind? p.parent = some .dir)
      (fresh : v.kind? p = none) (kinds : ∀ q, w.kind? q = if p = q then some kind else v.kind? q)
      (handles : w.handles = v.handles)
  /-- Something is removed that is not open and, if it is a directory, holds nothing. -/
  | removed (p : Path) (closed : ∀ h, v.pathOf? h ≠ some p)
      (bare : v.kind? p = some .dir →
        p ≠ Path.root ∧ ∀ q ≠ Path.root, q.parent = p → v.kind? q = none)
      (kinds : ∀ q, w.kind? q = if p = q then none else v.kind? q) (handles : w.handles = v.handles)
  /-- Something that is there is opened under a handle that nobody has. -/
  | opened (h : Handle) (p : Path) (valid : h ≠ Handle.invalid) (free : v.pathOf? h = none)
      (there : v.contains p) (kinds : ∀ q, w.kind? q = v.kind? q)
      (handles : w.handles = Index.insert handleBefore h p v.handles)

theorem pathOf?_congr {v w : Volume} (hh : w.handles = v.handles) (h : Handle) :
    w.pathOf? h = v.pathOf? h := by
  rw [pathOf?, hh]
  rfl

theorem pathOf?_insert {v w : Volume} {g : Handle} {p : Path}
    (hh : w.handles = Index.insert handleBefore g p v.handles) (h : Handle) :
    w.pathOf? h = if g = h then some p else v.pathOf? h := by
  rw [pathOf?, hh]
  exact Index.find?_insert handleBefore g p v.handles h

/-- Nothing but directories, files and devices come and go, and what is open does not go. -/
theorem WellFormed.of_handles {v w : Volume} (hv : v.WellFormed) (handles : w.handles = v.handles)
    (root : w.kind? Path.root = some .dir)
    (parents : ∀ p ≠ Path.root, w.contains p → w.kind? p.parent = some .dir)
    (present : ∀ h p, v.pathOf? h = some p → w.contains p) : w.WellFormed where
  root := root
  parents := parents
  distinct := by
    rw [handles]
    exact hv.distinct
  invalid := by
    rw [pathOf?_congr handles]
    exact hv.invalid
  present h p hp := by
    rw [pathOf?_congr handles] at hp
    exact present h p hp

theorem WellFormed.opened {v w : Volume} (hv : v.WellFormed) {h : Handle} {p : Path}
    (valid : h ≠ Handle.invalid) (free : v.pathOf? h = none) (there : v.contains p)
    (kinds : ∀ q, w.kind? q = v.kind? q)
    (handles : w.handles = Index.insert handleBefore h p v.handles) : w.WellFormed where
  root := (kinds _).trans hv.root
  parents q hq hc := by
    rw [← isSome_kind?, kinds, isSome_kind?] at hc
    exact (kinds _).trans (hv.parents q hq hc)
  distinct := by
    have hperm := (Index.insert_perm handleBefore p free).map Prod.fst
    rw [handles, hperm.nodup_iff, List.map_cons, List.nodup_cons, ← Index.find?_isSome_iff]
    refine ⟨?_, hv.distinct⟩
    intro hthere
    rw [pathOf?] at free
    rw [free] at hthere
    cases hthere
  invalid := by
    rw [pathOf?_insert handles, if_neg valid]
    exact hv.invalid
  present g q hq := by
    rw [← isSome_kind?, kinds, isSome_kind?]
    rw [pathOf?_insert handles] at hq
    split at hq
    · cases hq
      exact there
    · exact hv.present g q hq

theorem WellFormed.change {v w : Volume} (hv : v.WellFormed) (hc : Change v w) : w.WellFormed := by
  cases hc with
  | same kinds handles =>
    refine hv.of_handles handles ((kinds _).trans hv.root) ?_ ?_
    · intro p hp hc
      rw [← isSome_kind?, kinds, isSome_kind?] at hc
      exact (kinds _).trans (hv.parents p hp hc)
    · intro h p hp
      rw [← isSome_kind?, kinds, isSome_kind?]
      exact hv.present h p hp
  | made p kind parent fresh kinds handles =>
    have hkept : ∀ q, (v.kind? q).isSome → w.kind? q = v.kind? q := by
      intro q hq
      rw [kinds, if_neg]
      rintro rfl
      rw [fresh] at hq
      cases hq
    have hdir : ∀ q, v.kind? q = some .dir → w.kind? q = some .dir := by
      intro q hq
      rw [hkept q (by rw [hq]; rfl), hq]
    refine hv.of_handles handles (hdir _ hv.root) ?_ ?_
    · intro q hq hc
      by_cases hqp : p = q
      · subst hqp
        exact hdir _ parent
      · rw [← isSome_kind?, kinds, if_neg hqp, isSome_kind?] at hc
        exact hdir _ (hv.parents q hq hc)
    · intro h q hq
      have hq := hv.present h q hq
      rw [← isSome_kind?] at hq ⊢
      rw [hkept q hq]
      exact hq
  | removed p closed bare kinds handles =>
    -- A directory that is needed holds something or is the root.
    have hdir : ∀ q, v.kind? q = some .dir →
        (q = Path.root ∨ ∃ r ≠ Path.root, r.parent = q ∧ (v.kind? r).isSome) →
          w.kind? q = some .dir := by
      intro q hq hneeded
      rw [kinds, if_neg, hq]
      rintro rfl
      obtain ⟨hroot, hbare⟩ := bare hq
      rcases hneeded with hq | ⟨r, hr, hparent, hthere⟩
      · exact hroot hq
      · rw [hbare r hr hparent] at hthere
        cases hthere
    refine hv.of_handles handles (hdir _ hv.root (.inl rfl)) ?_ ?_
    · intro q hq hc
      rw [← isSome_kind?, kinds] at hc
      split at hc
      · cases hc
      · have hparent := hv.parents q hq (by rwa [isSome_kind?] at hc)
        exact hdir _ hparent (.inr ⟨q, hq, rfl, hc⟩)
    · intro h q hq
      rw [← isSome_kind?, kinds, if_neg, isSome_kind?]
      · exact hv.present h q hq
      · rintro rfl
        exact closed h hq
  | opened h p valid free there kinds handles => exact hv.opened valid free there kinds handles

theorem WellFormed.close {v : Volume} (hv : v.WellFormed) (h : Handle) : (v.close h).WellFormed where
  root := hv.root
  parents := hv.parents
  distinct := hv.distinct.sublist ((Index.erase_sublist h v.handles).map Prod.fst)
  invalid := by
    rw [pathOf?_close, hv.invalid, ite_self]
  present g p hp := by
    rw [pathOf?_close] at hp
    split at hp
    · cases hp
    · exact hv.present g p hp

/-- What is not there is not open. -/
theorem WellFormed.not_isOpen {v : Volume} (hv : v.WellFormed) {p : Path} (hp : v.node? p = none) :
    ¬v.isOpen p := by
  intro hopen
  obtain ⟨⟨h, q⟩, hm, hq⟩ := List.any_eq_true.mp hopen
  obtain rfl : q = p := of_decide_eq_true hq
  have hthere := hv.present h q (Index.find?_of_mem hv.distinct hm)
  rw [contains, hp] at hthere
  cases hthere

/-- A handle is open for something of the given kind at the given path. -/
def Holds (v : Volume) (h : Handle) (p : Path) (kind : Node.Kind) : Prop :=
  v.pathOf? h = some p ∧ v.kind? p = some kind

theorem Holds.change {v w : Volume} {h : Handle} {p : Path} {kind : Node.Kind} (hv : v.Holds h p kind)
    (hc : Change v w) : w.Holds h p kind := by
  obtain ⟨hpath, hkind⟩ := hv
  cases hc with
  | same kinds handles => exact ⟨(pathOf?_congr handles h).trans hpath, (kinds p).trans hkind⟩
  | made q kind' parent fresh kinds handles =>
    refine ⟨(pathOf?_congr handles h).trans hpath, ?_⟩
    rw [kinds, if_neg, hkind]
    rintro rfl
    rw [fresh] at hkind
    cases hkind
  | removed q closed bare kinds handles =>
    refine ⟨(pathOf?_congr handles h).trans hpath, ?_⟩
    rw [kinds, if_neg, hkind]
    rintro rfl
    exact closed h hpath
  | opened g q valid free there kinds handles =>
    refine ⟨?_, (kinds p).trans hkind⟩
    rw [pathOf?_insert handles, if_neg, hpath]
    rintro rfl
    rw [free] at hpath
    cases hpath

theorem Holds.close {v : Volume} {h g : Handle} {p : Path} {kind : Node.Kind} (hv : v.Holds h p kind)
    (hne : g ≠ h) : (v.close g).Holds h p kind := by
  refine ⟨?_, hv.2⟩
  rw [pathOf?_close, if_neg hne, hv.1]

/-! ## What the requests do -/

/-- Any number of changes. -/
abbrev Changes : Volume → Volume → Prop := Relation.ReflTransGen Change

theorem Changes.of_nodes {v w : Volume} (hn : w.nodes = v.nodes) (hh : w.handles = v.handles) :
    Changes v w := by
  refine .single (.same ?_ hh)
  intro q
  rw [kind?, node?, hn]
  rfl

/-- What is put into a directory is new or takes the place of something of its kind. -/
theorem change_put {v : Volume} {p : Path} {node : Node} (hparent : v.kind? p.parent = some .dir)
    (hkind : v.kind? p = none ∨ v.kind? p = some node.kind) : Change v (v.put p node) := by
  rcases hkind with hfree | hsame
  · exact .made p node.kind hparent hfree (v.kind?_put p · node) rfl
  · refine .same ?_ rfl
    intro q
    rw [kind?_put]
    split
    · next he =>
      subst he
      exact hsame.symm
    · rfl

theorem kind?_mkdirUp_of_longer {names : List Name} (v : Volume) {q : Path}
    (hq : names.length < q.names.length) : (mkdirUp names v).2.kind? q = v.kind? q := by
  induction names with
  | nil => rfl
  | cons name up ih =>
    have hup := ih (by rw [List.length_cons] at hq; omega)
    unfold mkdirUp
    dsimp only
    split
    · rfl
    · split
      · rw [kind?_put, if_neg, hup]
        rintro rfl
        rw [List.length_reverse] at hq
        omega
      · exact hup

/-- Making the directory for something makes nothing in its place. -/
theorem kind?_mkdir_parent (v : Volume) {p : Path} (hp : p ≠ Path.root) :
    (v.mkdir p.parent).2.kind? p = v.kind? p := by
  refine kind?_mkdirUp_of_longer v ?_
  rw [List.length_reverse]
  exact Path.length_parent hp

/-- Making directories puts each into the one before. -/
theorem changes_mkdirUp (names : List Name) (v : Volume) :
    Changes v (mkdirUp names v).2 ∧
      ((mkdirUp names v).1 = true → (mkdirUp names v).2.kind? ⟨names.reverse⟩ = some .dir) := by
  induction names with
  | nil => exact ⟨.refl, kind?_eq_dir.mpr⟩
  | cons name up ih =>
    obtain ⟨hup, hmade⟩ := ih
    unfold mkdirUp
    dsimp only
    split
    · next node hnode =>
      refine ⟨.refl, ?_⟩
      intro hdir
      rw [kind?_eq_dir, isDir, hnode]
      exact hdir
    · next hnone =>
      split
      · next hup' =>
        have hfree : (mkdirUp up v).2.kind? ⟨(name :: up).reverse⟩ = none := by
          rw [kind?_mkdirUp_of_longer v (by simp)]
          exact kind?_eq_none.mpr hnone
        have hparent : (mkdirUp up v).2.kind? (⟨(name :: up).reverse⟩ : Path).parent = some .dir := by
          simp only [Path.parent, List.reverse_cons, List.dropLast_concat]
          exact hmade hup'
        refine ⟨hup.tail (change_put hparent (.inl hfree)), ?_⟩
        intro _
        rw [kind?_put, if_pos rfl]
        rfl
      · exact ⟨hup, fun hdone => absurd hdone Bool.false_ne_true⟩

theorem changes_mkdir (v : Volume) (p : Path) :
    Changes v (v.mkdir p).2 ∧ ((v.mkdir p).1 = true → (v.mkdir p).2.kind? p = some .dir) := by
  have h := changes_mkdirUp p.names.reverse v
  rw [List.reverse_reverse] at h
  exact h

theorem changes_addFile (v : Volume) (p : Path) (content : Bytes) :
    Changes v (v.addFile p content).2 := by
  obtain ⟨hmkdir, hmade⟩ := changes_mkdir v p.parent
  unfold addFile
  split
  · exact .refl
  · dsimp only
    split
    · exact hmkdir
    · next hdone =>
      have hparent := hmade (by simpa using hdone)
      split
      · exact hmkdir
      · exact hmkdir
      · next old hold =>
        exact hmkdir.tail (change_put hparent (.inr (by rw [kind?, hold]; rfl)))
      · next hnone =>
        exact hmkdir.tail (change_put hparent (.inl (kind?_eq_none.mpr hnone)))

theorem changes_addDevice (v : Volume) (p : Path) (device : Device) :
    Changes v (v.addDevice p device).2 := by
  obtain ⟨hmkdir, hmade⟩ := changes_mkdir v p.parent
  unfold addDevice
  split
  · exact .refl
  · next hfree =>
    dsimp only
    split
    · next hdone =>
      simp only [Bool.or_eq_true, decide_eq_true_eq, not_or] at hfree
      obtain ⟨hroot, hfree⟩ := hfree
      have hnone : (v.mkdir p.parent).2.kind? p = none := by
        rw [v.kind?_mkdir_parent hroot, kind?_eq_none, ← Option.not_isSome_iff_eq_none]
        exact hfree
      exact hmkdir.tail (change_put (hmade hdone) (.inl hnone))
    · exact hmkdir

theorem changes_openPath (v : Volume) (p : Path) : Changes v (v.openPath p).2 := by
  by_cases hthere : v.contains p
  · rcases v.openPath_cases p with hnone | ⟨h, hvalid, hfree, hsome⟩
    · rw [hnone]
    · rw [hsome]
      exact .single (.opened h p hvalid hfree hthere (fun _ => rfl) rfl)
  · rw [openPath, if_neg hthere]

theorem changes_read (v : Volume) (h : Handle) (offset count : Nat) :
    Changes v (v.read h offset count).2 := by
  unfold read
  split
  · exact .refl
  · exact .of_nodes rfl rfl
  · exact .refl
  · exact .refl

theorem changes_write (v : Volume) (h : Handle) (offset : Nat) (bytes : Bytes) :
    Changes v (v.write h offset bytes).2 := by
  unfold write
  split
  · exact .refl
  · next p _ =>
    split
    · exact .single (.same (fun q => v.kind?_overwrite p q offset bytes) rfl)
    · exact .of_nodes rfl rfl
    · exact .refl
    · exact .refl

theorem changes_create (v : Volume) (p : Path) (size : Nat) : Changes v (v.create p size).2 := by
  rcases v.create_cases p size with hc | ⟨hdir, hfree, hc⟩
  · rw [hc]
  · rw [hc]
    refine .single (change_put (kind?_eq_dir.mpr hdir) ?_)
    rcases hfree with hnone | ⟨content, hfile⟩
    · exact .inl (kind?_eq_none.mpr hnone)
    · exact .inr (by rw [kind?, hfile]; rfl)

theorem changes_resize (v : Volume) (p : Path) (size : Nat) : Changes v (v.resize p size).2 := by
  rcases v.resize_cases p size with hr | ⟨content, hc, hr⟩
  · rw [hr]
    exact .of_nodes rfl rfl
  · rw [hr]
    refine .single (.same ?_ rfl)
    intro q
    rw [kind?_put]
    split
    · next he =>
      subst he
      rw [kind?_of_content? hc]
      rfl
    · rfl

theorem mem_children {v : Volume} {p q : Path} :
    q ∈ v.children p ↔ v.contains q ∧ q ≠ Path.root ∧ q.parent = p := by
  rw [children, List.mem_filter, ← Index.find?_isSome_iff, isChild, Bool.and_eq_true, decide_eq_true_iff,
    decide_eq_true_iff]
  rfl

/-- What is not among the children of a directory is not there. -/
theorem node?_of_children {v : Volume} {p q : Path} (hempty : v.children p = []) (hq : q ≠ Path.root)
    (hparent : q.parent = p) : v.node? q = none := by
  rw [← Option.not_isSome_iff_eq_none]
  intro hthere
  have hchild : q ∈ v.children p := mem_children.mpr ⟨hthere, hq, hparent⟩
  rw [hempty] at hchild
  cases hchild

theorem changes_delete (v : Volume) (p : Path) : Changes v (v.delete p).2 := by
  rcases v.delete_cases p with hd | ⟨node, hnode, hbare, hclosed, hd⟩
  · rw [hd]
  · rw [hd]
    refine .single (.removed p ?_ ?_ ?_ rfl)
    · intro h hp
      exact hclosed (isOpen_of_pathOf? hp)
    · intro hdir
      rw [kind?_eq_dir, isDir, hnode] at hdir
      obtain ⟨hroot, hempty⟩ := hbare hdir
      refine ⟨hroot, ?_⟩
      intro q hq hparent
      exact kind?_eq_none.mpr (node?_of_children hempty hq hparent)
    · intro q
      simp only [kind?, node?, Index.find?_erase]
      split <;> rfl

/-! ## Runs of requests -/

/-- What a volume can be asked for, by its host and through the storage interface. Paths are given as
texts. -/
inductive Request where
  | mkdir (path : String)
  | addFile (path : String) (content : Bytes)
  | addDevice (path : String) (device : Device)
  | setCapacity (capacity : Option Nat)
  /-- The devices and those who use them from outside go on by themselves. -/
  | rewire (change : Array Wire → Array Wire)
  | openPath (path : String)
  | close (handle : Handle)
  | read (handle : Handle) (offset count : Nat)
  | write (handle : Handle) (offset : Nat) (bytes : Bytes)
  | create (path : String) (size : Nat)
  | resize (path : String) (size : Nat)
  | delete (path : String)

/-- The volume after a request. -/
def Request.run (v : Volume) : Request → Volume
  | mkdir path => (v.mkdir (Path.ofText path)).2
  | addFile path content => (v.addFile (Path.ofText path) content).2
  | addDevice path device => (v.addDevice (Path.ofText path) device).2
  | setCapacity capacity => v.setCapacity capacity
  | rewire change => { v with wires := change v.wires }
  | openPath path => (v.openPath (Path.ofText path)).2
  | close handle => v.close handle
  | read handle offset count => (v.read handle offset count).2
  | write handle offset bytes => (v.write handle offset bytes).2
  | create path size => (v.create (Path.ofText path) size).2
  | resize path size => (v.resize (Path.ofText path) size).2
  | delete path => (v.delete (Path.ofText path)).2

/-- What a new volume becomes by the requests. -/
def asked (requests : List Request) : Volume :=
  requests.foldl Request.run empty

/-- A request closes a handle or comes to changes that close none. -/
theorem Request.changes (v : Volume) (request : Request) :
    (∃ h, request = .close h) ∨ Changes v (request.run v) := by
  cases request with
  | close handle => exact .inl ⟨handle, rfl⟩
  | mkdir path => exact .inr (v.changes_mkdir _).1
  | addFile path content => exact .inr (v.changes_addFile _ content)
  | addDevice path device => exact .inr (v.changes_addDevice _ device)
  | setCapacity capacity => exact .inr (.of_nodes rfl rfl)
  | rewire change => exact .inr (.of_nodes rfl rfl)
  | openPath path => exact .inr (v.changes_openPath _)
  | read handle offset count => exact .inr (v.changes_read handle offset count)
  | write handle offset bytes => exact .inr (v.changes_write handle offset bytes)
  | create path size => exact .inr (v.changes_create _ size)
  | resize path size => exact .inr (v.changes_resize _ size)
  | delete path => exact .inr (v.changes_delete _)

theorem WellFormed.changes {v w : Volume} (hv : v.WellFormed) (hc : Changes v w) : w.WellFormed := by
  induction hc with
  | refl => exact hv
  | tail _ hstep ih => exact ih.change hstep

theorem Holds.changes {v w : Volume} {h : Handle} {p : Path} {kind : Node.Kind} (hv : v.Holds h p kind)
    (hc : Changes v w) : w.Holds h p kind := by
  induction hc with
  | refl => exact hv
  | tail _ hstep ih => exact ih.change hstep

theorem WellFormed.request {v : Volume} (hv : v.WellFormed) (request : Request) :
    (request.run v).WellFormed := by
  rcases Request.changes v request with ⟨h, rfl⟩ | hc
  · exact hv.close h
  · exact hv.changes hc

theorem Holds.request {v : Volume} {h : Handle} {p : Path} {kind : Node.Kind} (hv : v.Holds h p kind)
    {request : Request} (hopen : request ≠ .close h) : (request.run v).Holds h p kind := by
  rcases Request.changes v request with ⟨g, rfl⟩ | hc
  · refine hv.close ?_
    rintro rfl
    exact hopen rfl
  · exact hv.changes hc

/-- Every volume that was only ever asked for things is well formed. -/
theorem wellFormed_asked (requests : List Request) : (asked requests).WellFormed :=
  requests.foldlRecOn Request.run wellFormed_empty fun _ hv request _ => hv.request request

/-- A handle that is not closed goes on as it is. -/
theorem Holds.foldl {v : Volume} {h : Handle} {p : Path} {kind : Node.Kind} (hv : v.Holds h p kind)
    {requests : List Request} (hopen : Request.close h ∉ requests) :
    (requests.foldl Request.run v).Holds h p kind := by
  induction requests generalizing v with
  | nil => exact hv
  | cons request requests ih =>
    simp only [List.mem_cons, not_or] at hopen
    exact ih (hv.request (Ne.symm hopen.1)) hopen.2

/-- Whatever a new volume was asked for: its root is a directory, every path is written in canonical
form and the place before it is a directory, and every open handle is valid and for something that is
there, which keeps its path and its kind for as long as the handle is not closed. -/
theorem asked_volume_is_tree (requests : List Request) :
    (asked requests).node? Path.root = some .dir ∧
      (∀ p ∈ (asked requests).nodes.map Prod.fst, normalise p.text = p.text ∧
        (p.text ≠ "/" → ∃ q, q.text = (split p.text).1 ∧ (asked requests).node? q = some .dir)) ∧
      ∀ h p, (asked requests).pathOf? h = some p →
        h ≠ Handle.invalid ∧ p ∈ (asked requests).nodes.map Prod.fst ∧
          ∀ more, Request.close h ∉ more → (asked (requests ++ more)).pathOf? h = some p ∧
            (asked (requests ++ more)).kind? p = (asked requests).kind? p := by
  have hwell := wellFormed_asked requests
  have hdir : ∀ p, (asked requests).kind? p = some .dir → (asked requests).node? p = some .dir := by
    intro p hp
    obtain ⟨node, hnode, hkind⟩ := Option.map_eq_some_iff.mp hp
    cases node with
    | dir => exact hnode
    | file content | device d => cases hkind
  refine ⟨hdir _ hwell.root, ?_, ?_⟩
  · intro p hp
    have hthere := (Index.find?_isSome_iff p _).mpr hp
    refine ⟨congrArg Path.text p.ofText_text, ?_⟩
    intro hroot
    have hne : p ≠ Path.root := by
      rintro rfl
      exact hroot rfl
    refine ⟨p.parent, ?_, hdir _ (hwell.parents p hne hthere)⟩
    rw [split, Path.ofText_text]
  · intro h p hp
    have hthere := hwell.present h p hp
    refine ⟨?_, (Index.find?_isSome_iff p _).mp hthere, ?_⟩
    · rintro rfl
      rw [hwell.invalid] at hp
      cases hp
    · intro more hopen
      rw [← isSome_kind?, Option.isSome_iff_exists] at hthere
      obtain ⟨kind, hkind⟩ := hthere
      have hheld := Holds.foldl ⟨hp, hkind⟩ hopen
      rw [asked, List.foldl_append, hkind]
      exact hheld

/-- A file that is open cannot be removed, and nothing else is put in its place. -/
theorem asked_volume_is_tree_while_file_is_open :
    Request.close ⟨1⟩ ∉ [Request.delete "/a/f", .addDevice "a/f" .null, .mkdir "/a/./f", .create "/a/f" 3] ∧
      (asked ([.addFile "/a//f" #[7], .openPath "a/b/../f"] ++
        [.delete "/a/f", .addDevice "a/f" .null, .mkdir "/a/./f", .create "/a/f" 3])).kind?
          (Path.ofText "/a/f") = some .file := by
  have hopen : Request.close ⟨1⟩ ∉
      [Request.delete "/a/f", .addDevice "a/f" .null, .mkdir "/a/./f", .create "/a/f" 3] := by
    simp
  have hpath : (asked [.addFile "/a//f" #[7], .openPath "a/b/../f"]).pathOf? ⟨1⟩ =
      some (Path.ofText "/a/f") := by
    decide +kernel
  have hkind : (asked [.addFile "/a//f" #[7], .openPath "a/b/../f"]).kind? (Path.ofText "/a/f") =
      some .file := by
    decide +kernel
  refine ⟨hopen, ?_⟩
  rw [← hkind]
  exact (((asked_volume_is_tree _).2.2 ⟨1⟩ _ hpath).2.2 _ hopen).2

end Volume
end CoopKernel
