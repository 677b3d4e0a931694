import CoopKernel.Proofs.Storage.Shape

/-!
# When a volume refuses to change

Making a directory goes up from its path until something is there, and comes down again putting a directory
into the one before. In a tree nothing is put anywhere unless what was found is a directory, so that the request
is refused before anything changed, and exactly if a file or a device is in the way. The other requests look at
the path before they change anything, or find what is there in a directory that does not have to be made.
-/

namespace CoopKernel

namespace Path

/-- The place at `q` is the one at `p`, or is on the way to it from the root. -/
def LeadsTo (q p : Path) : Prop :=
  q.names <+: p.names

theorem LeadsTo.refl (p : Path) : p.LeadsTo p :=
  List.prefix_rfl

theorem LeadsTo.trans {p q r : Path} (h : p.LeadsTo q) (h' : q.LeadsTo r) : p.LeadsTo r :=
  List.IsPrefix.trans h h'

theorem root_leadsTo (p : Path) : root.LeadsTo p :=
  List.nil_prefix

theorem leadsTo_root {q : Path} : q.LeadsTo root ↔ q = root :=
  ⟨fun h => congrArg Path.mk (List.prefix_nil.mp h), fun h => h ▸ .refl root⟩

/-- Only the place itself and what leads to its directory leads to a place. -/
theorem leadsTo_child {q p : Path} {name : Name} : q.LeadsTo (p.child name) ↔ q = p.child name ∨ q.LeadsTo p := by
  unfold LeadsTo child
  rw [List.prefix_concat_iff]
  exact or_congr_left ⟨fun h => congrArg Path.mk h, congrArg names⟩

theorem LeadsTo.length_le {q p : Path} (h : q.LeadsTo p) : q.names.length ≤ p.names.length :=
  List.IsPrefix.length_le h

theorem not_child_leadsTo (p : Path) (name : Name) : ¬(p.child name).LeadsTo p := by
  intro h
  have hlength := h.length_le
  rw [child, List.length_append, List.length_singleton] at hlength
  omega

end Path

namespace Volume

variable {v : Volume} {p q : Path}

/-- A file or a device is at the path. -/
def Blocked (v : Volume) (p : Path) : Prop :=
  v.kind? p = some .file ∨ v.kind? p = some .device

theorem blocked_of_node? {node : Node} (hnode : v.node? p = some node) (hdir : node.isDir = false) :
    v.Blocked p := by
  rw [Blocked, kind?, hnode]
  cases node with
  | dir => cases hdir
  | file content => exact .inl rfl
  | device d => exact .inr rfl

theorem not_blocked_of_dir (h : v.kind? p = some .dir) : ¬v.Blocked p := by
  rw [Blocked, h]
  rintro (h | h) <;> cases h

theorem not_blocked_of_none (h : v.node? p = none) : ¬v.Blocked p := by
  rw [Blocked, kind?_eq_none.mpr h]
  rintro (h | h) <;> cases h

/-- A request is refused and changes nothing if there is a reason for that, and is done otherwise. -/
def RefusesIf (v : Volume) (reason : Prop) (r : Bool × Volume) : Prop :=
  (r = (false, v) ∧ reason) ∨ (r.1 = true ∧ ¬reason)

namespace RefusesIf

variable {reason : Prop} {r : Bool × Volume}

theorem unchanged (h : v.RefusesIf reason r) (hrefused : r.1 = false) : r.2 = v := by
  rcases h with ⟨rfl, -⟩ | ⟨hdone, -⟩
  · rfl
  · cases hdone.symm.trans hrefused

theorem refused_iff (h : v.RefusesIf reason r) : r.1 = false ↔ reason := by
  rcases h with ⟨rfl, hreason⟩ | ⟨hdone, hclear⟩
  · exact ⟨fun _ => hreason, fun _ => rfl⟩
  · exact ⟨fun hrefused => (Bool.false_ne_true (hrefused.symm.trans hdone)).elim, fun hreason => absurd hreason hclear⟩

end RefusesIf

theorem node?_of_kind?_dir (h : v.kind? p = some .dir) : v.node? p = some .dir := by
  obtain ⟨node, hnode, hkind⟩ := Option.map_eq_some_iff.mp h
  cases node with
  | dir => exact hnode
  | file content | device d => cases hkind

/-- Whatever leads to something that is there is a directory. -/
theorem WellFormed.dir_of_leadsTo (hv : v.WellFormed) (hp : v.contains p) (hq : q.LeadsTo p) (hne : q ≠ p) :
    v.kind? q = some .dir := by
  induction p using Path.child_induction with
  | root => exact absurd (Path.leadsTo_root.mp hq) hne
  | child p name ih =>
    have hparent := hv.parents _ (Path.child_ne_root p name) hp
    rw [Path.parent_child] at hparent
    rcases Path.leadsTo_child.mp hq with rfl | hq
    · exact absurd rfl hne
    · by_cases hqp : q = p
      · subst hqp
        exact hparent
      · refine ih ?_ hq hqp
        rw [← isSome_kind?, hparent]
        rfl

/-! ## Directories -/

theorem mkdir_root (v : Volume) : v.mkdir Path.root = (v.isDir Path.root, v) :=
  rfl

/-- Where nothing is, the directory that is to hold the new one is made before. -/
theorem mkdir_child (v : Volume) (p : Path) (name : Name) :
    v.mkdir (p.child name) =
      match v.node? (p.child name) with
      | some node => (node.isDir, v)
      | none => if (v.mkdir p).1 then (true, (v.mkdir p).2.put (p.child name) .dir) else (false, (v.mkdir p).2) := by
  have hnames : (p.child name).names.reverse = name :: p.names.reverse := by
    rw [Path.child, List.reverse_concat]
  have hpath : (⟨(name :: p.names.reverse).reverse⟩ : Path) = p.child name := by
    rw [List.reverse_cons, List.reverse_reverse, Path.child]
  rw [mkdir, hnames, mkdirUp]
  dsimp only
  rw [hpath]
  rfl

/-- Where something is, nothing is made. -/
theorem mkdir_of_contains (h : v.contains p) : v.mkdir p = (v.isDir p, v) := by
  cases p using Path.child_induction with
  | root => exact mkdir_root v
  | child p name _ =>
    obtain ⟨node, hnode⟩ := Option.isSome_iff_exists.mp h
    rw [mkdir_child, isDir, hnode]
    rfl

/-- A directory is not made if something else is in the way. Otherwise directories are put wherever nothing was on
the way to it, and nothing else changes. -/
theorem WellFormed.mkdir_cases (hv : v.WellFormed) (p : Path) :
    (v.mkdir p = (false, v) ∧ ∃ q, q.LeadsTo p ∧ v.Blocked q) ∨
      (∀ q, q.LeadsTo p → ¬v.Blocked q) ∧ ∃ nodes, v.mkdir p = (true, { v with nodes }) ∧
        ∀ q, (q.LeadsTo p → ({ v with nodes } : Volume).node? q = some .dir) ∧
          (¬q.LeadsTo p → ({ v with nodes } : Volume).node? q = v.node? q) := by
  induction p using Path.child_induction with
  | root =>
    refine .inr ⟨fun q hq => ?_, v.nodes, ?_, fun q => ⟨fun hq => ?_, fun _ => rfl⟩⟩
    · rw [Path.leadsTo_root.mp hq]
      exact not_blocked_of_dir hv.root
    · rw [mkdir_root, kind?_eq_dir.mp hv.root]
    · rw [Path.leadsTo_root.mp hq]
      exact node?_of_kind?_dir hv.root
  | child p name ih =>
    cases hnode : v.node? (p.child name) with
    | some node =>
      have hmkdir : v.mkdir (p.child name) = (node.isDir, v) := by rw [mkdir_child, hnode]
      cases hdir : node.isDir with
      | false =>
        rw [hmkdir, hdir]
        exact .inl ⟨rfl, p.child name, .refl _, blocked_of_node? hnode hdir⟩
      | true =>
        have hthere : v.contains (p.child name) := by rw [contains, hnode]; rfl
        have hdirs : ∀ q, q.LeadsTo (p.child name) → v.kind? q = some .dir := by
          intro q hq
          by_cases hne : q = p.child name
          · rw [hne, kind?_eq_dir, isDir, hnode]
            exact hdir
          · exact hv.dir_of_leadsTo hthere hq hne
        rw [hmkdir, hdir]
        exact .inr ⟨fun q hq => not_blocked_of_dir (hdirs q hq), v.nodes, rfl,
          fun q => ⟨fun hq => node?_of_kind?_dir (hdirs q hq), fun _ => rfl⟩⟩
    | none =>
      rw [mkdir_child, hnode]
      dsimp only
      rcases ih with ⟨hmkdir, q, hq, hblocked⟩ | ⟨hfree, nodes, hmkdir, hnodes⟩
      · rw [hmkdir]
        exact .inl ⟨rfl, q, Path.leadsTo_child.mpr (.inr hq), hblocked⟩
      · rw [hmkdir]
        refine .inr ⟨fun q hq => ?_, _, rfl, fun q => ?_⟩
        · rcases Path.leadsTo_child.mp hq with rfl | hq
          · exact not_blocked_of_none hnode
          · exact hfree q hq
        · have hput := node?_put { v with nodes } (p.child name) q .dir
          refine ⟨fun hq => hput.trans ?_, fun hq => hput.trans ?_⟩
          · split
            · rfl
            · next hne => exact (hnodes q).1 ((Path.leadsTo_child.mp hq).resolve_left (Ne.symm hne))
          · have hne : p.child name ≠ q := by
              rintro rfl
              exact hq (.refl _)
            rw [if_neg hne]
            exact (hnodes q).2 fun h => hq (Path.leadsTo_child.mpr (.inr h))

theorem WellFormed.mkdir_refusesIf (hv : v.WellFormed) (p : Path) :
    v.RefusesIf (∃ q, q.LeadsTo p ∧ v.Blocked q) (v.mkdir p) := by
  rcases hv.mkdir_cases p with hrefused | ⟨hfree, nodes, hmkdir, -⟩
  · exact .inl hrefused
  · exact .inr ⟨by rw [hmkdir], fun ⟨q, hq, hblocked⟩ => hfree q hq hblocked⟩

/-! ## Files and devices -/

/-- A file or a device is on the way to the place at the path. -/
def BlockedBefore (v : Volume) (p : Path) : Prop :=
  ∃ q, q.LeadsTo p ∧ q ≠ p ∧ v.Blocked q

theorem blockedBefore_child {d : Path} {name : Name} :
    v.BlockedBefore (d.child name) ↔ ∃ q, q.LeadsTo d ∧ v.Blocked q := by
  constructor
  · rintro ⟨q, hq, hne, hblocked⟩
    exact ⟨q, (Path.leadsTo_child.mp hq).resolve_left hne, hblocked⟩
  · rintro ⟨q, hq, hblocked⟩
    refine ⟨q, Path.leadsTo_child.mpr (.inr hq), ?_, hblocked⟩
    rintro rfl
    exact Path.not_child_leadsTo d name hq

/-- What is in a directory is not touched when the directory is made. -/
theorem node?_child_mkdir {nodes : List (Path × Node)} {d : Path} (name : Name)
    (hnodes : ∀ q, ¬q.LeadsTo d → ({ v with nodes } : Volume).node? q = v.node? q) :
    ({ v with nodes } : Volume).node? (d.child name) = v.node? (d.child name) :=
  hnodes _ (Path.not_child_leadsTo d name)

/-- Where something is, the directory that holds it is there and does not have to be made. -/
theorem WellFormed.mkdir_of_contains_child (hv : v.WellFormed) {d : Path} {name : Name}
    (h : v.contains (d.child name)) : v.mkdir d = (true, v) := by
  have hparent := hv.parents _ (Path.child_ne_root d name) h
  rw [Path.parent_child] at hparent
  rw [mkdir_of_contains (by rw [← isSome_kind?, hparent]; rfl), kind?_eq_dir.mp hparent]

/-- A file is not put at the root, nor below a file or a device, nor in the place of a directory or a device. -/
theorem WellFormed.addFile_refusesIf (hv : v.WellFormed) (p : Path) (content : Bytes) :
    v.RefusesIf (p = Path.root ∨ v.BlockedBefore p ∨ v.kind? p = some .dir ∨ v.kind? p = some .device)
      (v.addFile p content) := by
  by_cases hroot : p = Path.root
  · exact .inl ⟨by rw [addFile, if_pos hroot], .inl hroot⟩
  obtain ⟨d, name, rfl⟩ := Path.exists_child hroot
  rw [addFile, if_neg hroot, Path.parent_child, blockedBefore_child]
  rcases hv.mkdir_cases d with ⟨hmkdir, hblocked⟩ | ⟨hfree, nodes, hmkdir, hnodes⟩
  · rw [hmkdir]
    exact .inl ⟨rfl, .inr (.inl hblocked)⟩
  · have hsame := node?_child_mkdir name fun q => (hnodes q).2
    have hclear : ¬∃ q, q.LeadsTo d ∧ v.Blocked q := fun ⟨q, hq, hblocked⟩ => hfree q hq hblocked
    cases hnode : v.node? (d.child name) with
    | none =>
      rw [hmkdir]
      refine .inr ⟨by simp only [hsame, hnode]; rfl, ?_⟩
      rw [kind?, hnode]
      simp [hroot, hclear]
    | some node =>
      cases node with
      | file old =>
        rw [hmkdir]
        refine .inr ⟨by simp only [hsame, hnode]; rfl, ?_⟩
        rw [kind?, hnode]
        simp [hroot, hclear, Node.kind]
      | dir =>
        rw [hv.mkdir_of_contains_child (by rw [contains, hnode]; rfl)]
        refine .inl ⟨by simp only [hnode]; rfl, .inr (.inr (.inl ?_))⟩
        rw [kind?, hnode]
        rfl
      | device old =>
        rw [hv.mkdir_of_contains_child (by rw [contains, hnode]; rfl)]
        refine .inl ⟨by simp only [hnode]; rfl, .inr (.inr (.inr ?_))⟩
        rw [kind?, hnode]
        rfl

/-- A device is not put at the root, nor below a file or a device, nor where anything is. -/
theorem WellFormed.addDevice_refusesIf (hv : v.WellFormed) (p : Path) (device : Device) :
    v.RefusesIf (p = Path.root ∨ v.BlockedBefore p ∨ v.contains p) (v.addDevice p device) := by
  by_cases hroot : p = Path.root
  · exact .inl ⟨by rw [addDevice, if_pos (by simp [hroot])], .inl hroot⟩
  by_cases hthere : v.contains p
  · exact .inl ⟨by rw [addDevice, if_pos (by simp [hthere])], .inr (.inr hthere)⟩
  obtain ⟨d, name, rfl⟩ := Path.exists_child hroot
  rw [addDevice, if_neg (by simp [hroot, hthere]), Path.parent_child, blockedBefore_child]
  rcases hv.mkdir_cases d with ⟨hmkdir, hblocked⟩ | ⟨hfree, nodes, hmkdir, -⟩
  · rw [hmkdir]
    exact .inl ⟨rfl, .inr (.inl hblocked)⟩
  · have hclear : ¬∃ q, q.LeadsTo d ∧ v.Blocked q := fun ⟨q, hq, hblocked⟩ => hfree q hq hblocked
    rw [hmkdir]
    exact .inr ⟨rfl, by simp [hroot, hclear, hthere]⟩

/-! ## Removing -/

theorem WellFormed.isOpen_iff (hv : v.WellFormed) : v.isOpen p ↔ ∃ h, v.pathOf? h = some p := by
  constructor
  · intro hopen
    obtain ⟨⟨h, q⟩, hm, hq⟩ := List.any_eq_true.mp hopen
    obtain rfl : q = p := of_decide_eq_true hq
    exact ⟨h, Index.find?_of_mem hv.distinct hm⟩
  · rintro ⟨h, hp⟩
    exact isOpen_of_pathOf? hp

theorem children_eq_nil : v.children p = [] ↔ ¬∃ q, q ≠ Path.root ∧ q.parent = p ∧ v.contains q := by
  constructor
  · rintro hempty ⟨q, hq, hparent, hthere⟩
    rw [contains, node?_of_children hempty hq hparent] at hthere
    cases hthere
  · intro hnone
    refine List.eq_nil_iff_forall_not_mem.mpr fun q hq => hnone ⟨q, ?_⟩
    obtain ⟨hthere, hroot, hparent⟩ := mem_children.mp hq
    exact ⟨hroot, hparent, hthere⟩

/-- What is there is removed unless it is a directory that is the root or holds something, or is open. -/
theorem delete_of_node? {node : Node} (hnode : v.node? p = some node) :
    (v.delete p).1 = false ↔ (node.isDir ∧ (p = Path.root ∨ v.children p ≠ [])) ∨ v.isOpen p := by
  have hholds : (node.isDir && (decide (p = Path.root) || !(v.children p).isEmpty)) = true ↔
      node.isDir ∧ (p = Path.root ∨ v.children p ≠ []) := by
    simp
  simp only [delete, hnode]
  split
  · next hrefused => exact ⟨fun _ => .inl (hholds.mp hrefused), fun _ => rfl⟩
  · next hbare =>
    rw [hholds] at hbare
    split
    · next hopen => exact ⟨fun _ => .inr hopen, fun _ => rfl⟩
    · next hclosed => exact ⟨fun h => (Bool.false_ne_true h.symm).elim, fun h => (not_or.mpr ⟨hbare, hclosed⟩ h).elim⟩

theorem WellFormed.delete_refused_iff (hv : v.WellFormed) (p : Path) :
    (v.delete p).1 = false ↔ ¬v.contains p ∨ p = Path.root ∨
      (v.kind? p = some .dir ∧ ∃ q, q ≠ Path.root ∧ q.parent = p ∧ v.contains q) ∨
        ∃ h, v.pathOf? h = some p := by
  cases hnode : v.node? p with
  | none =>
    have habsent : ¬v.contains p := by rw [contains, hnode]; exact Bool.false_ne_true
    exact ⟨fun _ => .inl habsent, fun _ => by rw [delete, hnode]⟩
  | some node =>
    have hthere : v.contains p := by rw [contains, hnode]; rfl
    have hdir : v.kind? p = some .dir ↔ node.isDir = true := by
      rw [kind?_eq_dir, isDir, hnode]
      rfl
    have hroot : p = Path.root → node.isDir = true := by
      rintro rfl
      exact hdir.mp hv.root
    rw [delete_of_node? hnode, hv.isOpen_iff, ne_eq, children_eq_nil, not_not, hdir]
    constructor
    · rintro (⟨hnode, hp | hbusy⟩ | hopen)
      · exact .inr (.inl hp)
      · exact .inr (.inr (.inl ⟨hnode, hbusy⟩))
      · exact .inr (.inr (.inr hopen))
    · rintro (habsent | hp | ⟨hnode, hbusy⟩ | hopen)
      · exact absurd hthere habsent
      · exact .inl ⟨hroot hp, .inl hp⟩
      · exact .inl ⟨hnode, .inr hbusy⟩
      · exact .inr hopen

/-! ## Requests that are refused -/

theorem create_refused {size : Nat} (h : (v.create p size).1 = false) : (v.create p size).2 = v := by
  rcases v.create_cases p size with hc | ⟨-, -, hc⟩
  · rw [hc]
  · rw [hc] at h
    cases h

/-- Only the count goes on. -/
theorem resize_refused {size : Nat} (h : (v.resize p size).1 = false) :
    (v.resize p size).2 = { v with resizeCalls := v.resizeCalls + 1 } := by
  rcases v.resize_cases p size with hr | ⟨content, -, hr⟩
  · rw [hr]
  · rw [hr] at h
    cases h

theorem delete_refused (h : (v.delete p).1 = false) : (v.delete p).2 = v := by
  rcases v.delete_cases p with hd | ⟨node, -, -, -, hd⟩
  · rw [hd]
  · rw [hd] at h
    cases h

/-- Directories are made from the root downwards, each by asking for the one above it first. -/
theorem WellFormed.mkdir_of_absent (hv : v.WellFormed) (h : v.contains p = false) :
    p.parent.names.length < p.names.length ∧
      v.mkdir p = if (v.mkdir p.parent).1 then (true, (v.mkdir p.parent).2.put p .dir) else (false, v) := by
  have hnode : v.node? p = none := Option.isSome_eq_false_iff.mp h |> Option.isNone_iff_eq_none.mp
  have hroot : p ≠ Path.root := by
    rintro rfl
    have hdir := hv.root
    rw [kind?_eq_none.mpr hnode] at hdir
    cases hdir
  refine ⟨Path.length_parent hroot, ?_⟩
  obtain ⟨d, name, rfl⟩ := Path.exists_child hroot
  rw [mkdir_child, hnode, Path.parent_child]
  dsimp only
  rcases hv.mkdir_cases d with ⟨hmkdir, -⟩ | ⟨-, nodes, hmkdir, -⟩
  · rw [hmkdir]
  · rw [hmkdir, if_pos rfl, if_pos rfl]

/-- In a tree, a request that is refused changes nothing but the count of those to resize. A directory is refused
exactly if a file or a device is at its path or on the way there; the requests for directories above it that this
takes are for shorter and shorter paths, and in the end there are directories all the way and nothing else has
changed. A file is refused exactly at the root, below a file or a device and in the place of a directory or a
device; a device exactly at the root, below a file or a device and where anything is; and removing exactly of what
is not there, the root, a directory with something in it, and what is open. -/
theorem requests_all_or_nothing {v : Volume} (hv : v.WellFormed) (p : Path) :
    (((v.mkdir p).1 = false → (v.mkdir p).2 = v) ∧
      (∀ content, (v.addFile p content).1 = false → (v.addFile p content).2 = v) ∧
      (∀ device, (v.addDevice p device).1 = false → (v.addDevice p device).2 = v) ∧
      (∀ size, (v.create p size).1 = false → (v.create p size).2 = v) ∧
      (∀ size, (v.resize p size).1 = false →
        (v.resize p size).2 = { v with resizeCalls := v.resizeCalls + 1 }) ∧
      ((v.delete p).1 = false → (v.delete p).2 = v)) ∧
    (((v.mkdir p).1 = false ↔ ∃ q, q.LeadsTo p ∧ v.Blocked q) ∧
      (v.contains p → v.mkdir p = (v.isDir p, v)) ∧
      (v.contains p = false → p.parent.names.length < p.names.length ∧
        v.mkdir p = if (v.mkdir p.parent).1 then (true, (v.mkdir p.parent).2.put p .dir) else (false, v)) ∧
      ((v.mkdir p).1 = true → ∃ nodes, (v.mkdir p).2 = { v with nodes } ∧
        ∀ q, (q.LeadsTo p → (v.mkdir p).2.node? q = some .dir) ∧
          (¬q.LeadsTo p → (v.mkdir p).2.node? q = v.node? q))) ∧
    (∀ content, (v.addFile p content).1 = false ↔
      p = Path.root ∨ v.BlockedBefore p ∨ v.kind? p = some .dir ∨ v.kind? p = some .device) ∧
    (∀ device, (v.addDevice p device).1 = false ↔ p = Path.root ∨ v.BlockedBefore p ∨ v.contains p) ∧
    ((v.delete p).1 = false ↔ ¬v.contains p ∨ p = Path.root ∨
      (v.kind? p = some .dir ∧ ∃ q, q ≠ Path.root ∧ q.parent = p ∧ v.contains q) ∨
        ∃ h, v.pathOf? h = some p) := by
  have hmkdir := hv.mkdir_refusesIf p
  have haddFile := hv.addFile_refusesIf p
  have haddDevice := hv.addDevice_refusesIf p
  refine ⟨⟨hmkdir.unchanged, fun content => (haddFile content).unchanged, fun device => (haddDevice device).unchanged,
      fun _ => create_refused, fun _ => resize_refused, delete_refused⟩,
    ⟨hmkdir.refused_iff, mkdir_of_contains, hv.mkdir_of_absent, fun hdone => ?_⟩,
    fun content => (haddFile content).refused_iff, fun device => (haddDevice device).refused_iff,
    hv.delete_refused_iff p⟩
  rcases hv.mkdir_cases p with ⟨hrefused, -⟩ | ⟨-, nodes, hmade, hnodes⟩
  · rw [hrefused] at hdone
    cases hdone
  · rw [hmade]
    exact ⟨nodes, rfl, hnodes⟩

/-- Below a file no directory is made, and the directories that would lead to it are not made either. -/
theorem requests_all_or_nothing_below_file :
    let v := asked [.addFile "/a/f" #[1]]
    v.WellFormed ∧ (v.mkdir (Path.ofText "/a/f/b/c")).1 = false ∧ (v.mkdir (Path.ofText "/a/f/b/c")).2 = v := by
  have hv := wellFormed_asked [.addFile "/a/f" #[1]]
  have hall := requests_all_or_nothing hv (Path.ofText "/a/f/b/c")
  have hrefused : ((asked [.addFile "/a/f" #[1]]).mkdir (Path.ofText "/a/f/b/c")).1 = false := by
    refine hall.2.1.1.mpr ⟨Path.ofText "/a/f", ?_, .inl ?_⟩
    · unfold Path.LeadsTo
      decide +kernel
    · decide +kernel
  exact ⟨hv, hrefused, hall.1.1 hrefused⟩

end Volume

end CoopKernel
