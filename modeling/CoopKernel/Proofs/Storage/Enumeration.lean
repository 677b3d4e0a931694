import CoopKernel.Proofs.Storage.Mutators
import CoopKernel.Proofs.Storage.Ordered
import CoopKernel.Volume.Tree
import Mathlib.Data.List.Nodup
import Mathlib.Data.List.Perm.Subperm

/-!
# Directories show all that is in them

An open directory shows the places in it by number, in the order of their paths. As every place in a tree is
reached from the root through directories, whoever opens each directory, asks it for its places one after the other
and goes on at each of them comes to every place once, and is back with the volume as it was.
-/

namespace CoopKernel

namespace Volume

variable {v : Volume} {p q : Path}

/-! ## What an open directory shows -/

theorem Ordered.children (hv : v.Ordered) (p : Path) :
    (v.children p).Pairwise fun q r => q.text < r.text := by
  refine (List.Pairwise.filter _ hv).imp fun hbefore => ?_
  exact of_decide_eq_true hbefore

theorem Ordered.nodup_children (hv : v.Ordered) (p : Path) : (v.children p).Nodup :=
  hv.nodup.filter _

/-- A place is in a directory if its path splits into that of the directory and a name. -/
theorem mem_children_iff_split : q ∈ v.children p ↔ v.contains q ∧ q.text ≠ "/" ∧ (split q.text).1 = p.text := by
  have hroot : q.text = "/" ↔ q = Path.root := Path.text_injective.eq_iff (b := Path.root)
  rw [mem_children, split, Path.ofText_text, ne_eq, ne_eq, hroot, Path.text_injective.eq_iff]

theorem child?_of_open {h : Handle} (hp : v.pathOf? h = some p) (hdir : v.isDir p) (n : Nat) :
    v.child? h n = (v.children p)[n]? := by
  rw [child?, hp]
  exact if_pos hdir

/-- The places that an open directory shows, asked for one after the other by all numbers there are. -/
def shown (v : Volume) (h : Handle) : List Path :=
  (List.range 65536).filterMap (v.child? h)

theorem filterMap_getElem? {α : Type} (l : List α) (n : Nat) : (List.range n).filterMap (l[·]?) = l.take n := by
  induction n with
  | zero => simp
  | succ n ih =>
    rw [List.range_succ, List.filterMap_append, ih, List.take_add_one, List.filterMap_cons]
    cases l[n]? <;> rfl

/-- With no more places than numbers, all are shown. -/
theorem shown_of_open {h : Handle} (hp : v.pathOf? h = some p) (hdir : v.isDir p)
    (hfew : (v.children p).length ≤ 65536) : v.shown h = v.children p := by
  have hchild : v.child? h = fun n => (v.children p)[n]? := funext (child?_of_open hp hdir)
  rw [shown, hchild, filterMap_getElem?, List.take_of_length_le hfew]

/-! ## Walking -/

/-- The paths that come up when someone who only has the calls of the storage interface looks at a place and, if it
is a directory, opens it, has its places shown, closes it and goes on at each of them. The depth bounds how far down
that goes. -/
def explore : (depth : Nat) → Path → Volume → List Path × Volume
  | 0, _, v => ([], v)
  | depth + 1, p, v =>
    if v.isDir p then
      match v.openPath p with
      | (none, v) => ([p], v)
      | (some h, v) =>
        (v.shown h).foldl
          (fun (seen, v) place =>
            let (more, v) := explore depth place v
            (seen ++ more, v))
          ([p], v.close h)
    else ([p], v)

/-- A fold whose steps give lists and leave the state alone gives the lists one after the other. -/
theorem foldl_gather {α β σ : Type} {act : α → σ → List β × σ} {f : α → List β} {s : σ} {xs : List α}
    (h : ∀ x ∈ xs, act x s = (f x, s)) (seen : List β) :
    xs.foldl (fun (seen, s) x => ((seen ++ (act x s).1, (act x s).2) : List β × σ)) (seen, s) =
      (seen ++ xs.flatMap f, s) := by
  induction xs generalizing seen with
  | nil => simp
  | cons x xs ih =>
    rw [List.forall_mem_cons] at h
    simp only [List.foldl_cons, h.1]
    rw [ih h.2, List.flatMap_cons, List.append_assoc]

theorem close_opened {h : Handle} (hfree : v.pathOf? h = none) (p : Path) :
    ({ v with handles := Index.insert handleBefore h p v.handles } : Volume).close h = v := by
  rw [close]
  dsimp only
  rw [Index.erase_insert handleBefore p hfree]

/-- Someone with a free handle comes by the places that there are, as long as no directory has more than it can
show. -/
theorem explore_eq (hfew : ∀ p, (v.children p).length ≤ 65536) (hfree : v.freeHandle?.isSome) (depth : Nat)
    (hp : v.contains p) : explore depth p v = ((v.walkFrom depth p).map Prod.fst, v) := by
  induction depth generalizing p with
  | zero => rfl
  | succ depth ih =>
    obtain ⟨node, hnode⟩ := Option.isSome_iff_exists.mp hp
    cases node with
    | file content | device d =>
      have hleaf : v.isDir p = false := by rw [isDir, hnode]; rfl
      rw [explore, hleaf, walkFrom, hnode]
      rfl
    | dir =>
      have hdir : v.isDir p = true := by rw [isDir, hnode]; rfl
      obtain ⟨h, hh⟩ := Option.isSome_iff_exists.mp hfree
      have hclosed := (freeHandle?_spec hh).2
      have hopen : v.openPath p =
          (some h, { v with handles := Index.insert handleBefore h p v.handles }) := by
        rw [openPath, if_pos hp, hh]
      have hpath : ({ v with handles := Index.insert handleBefore h p v.handles } : Volume).pathOf? h = some p := by
        rw [pathOf?_insert rfl, if_pos rfl]
      have hshown : ({ v with handles := Index.insert handleBefore h p v.handles } : Volume).shown h =
          v.children p := shown_of_open hpath hdir (hfew p)
      rw [explore, if_pos hdir, hopen]
      dsimp only
      rw [close_opened hclosed, hshown, foldl_gather fun q hq => ih (mem_children.mp hq).1, walkFrom, hnode]
      simp only [List.map_cons, List.map_flatMap, List.singleton_append]

theorem leadsTo_of_mem_children (h : q ∈ v.children p) : p.LeadsTo q ∧ q.names.length = p.names.length + 1 := by
  obtain ⟨-, hroot, rfl⟩ := mem_children.mp h
  obtain ⟨d, name, rfl⟩ := Path.exists_child hroot
  rw [Path.parent_child]
  exact ⟨Path.leadsTo_child.mpr (.inr (.refl d)), List.length_append⟩

/-- Whatever is below a place is reached through something in the directory there. -/
theorem WellFormed.exists_child_leadsTo (hv : v.WellFormed) (hq : v.contains q) (hleads : p.LeadsTo q) (hne : p ≠ q) :
    ∃ c ∈ v.children p, c.LeadsTo q := by
  induction q using Path.child_induction with
  | root => exact absurd (Path.leadsTo_root.mp hleads) hne
  | child d name ih =>
    have hd := (Path.leadsTo_child.mp hleads).resolve_left hne
    by_cases hpd : p = d
    · subst hpd
      exact ⟨p.child name, mem_children.mpr ⟨hq, Path.child_ne_root p name, Path.parent_child p name⟩, .refl _⟩
    · have hthere : v.contains d := by
        have hparent := hv.parents _ (Path.child_ne_root d name) hq
        rw [Path.parent_child] at hparent
        rw [← isSome_kind?, hparent]
        rfl
      obtain ⟨c, hc, hcd⟩ := ih hthere hd hpd
      exact ⟨c, hc, Path.leadsTo_child.mpr (.inr hcd)⟩

/-- A walk comes to nothing but what is there, at the place that it starts from and below. -/
theorem of_mem_walkFrom {depth : Nat} {node : Node} (h : (q, node) ∈ v.walkFrom depth p) :
    v.node? q = some node ∧ p.LeadsTo q := by
  induction depth generalizing p with
  | zero => cases h
  | succ depth ih =>
    unfold walkFrom at h
    split at h
    · cases h
    · next hdir =>
      rcases List.mem_cons.mp h with hself | hbelow
      · cases hself
        exact ⟨hdir, .refl _⟩
      · obtain ⟨c, hc, hm⟩ := List.mem_flatMap.mp hbelow
        obtain ⟨hnode, hleads⟩ := ih hm
        exact ⟨hnode, (leadsTo_of_mem_children hc).1.trans hleads⟩
    · next hnode =>
      cases List.mem_singleton.mp h
      exact ⟨hnode, .refl _⟩

/-- A walk comes to all that is there at the place that it starts from and below, as far down as its depth allows. -/
theorem WellFormed.mem_walkFrom (hv : v.WellFormed) {depth : Nat} {node : Node} (hnode : v.node? q = some node)
    (hleads : p.LeadsTo q) (hdepth : q.names.length < p.names.length + depth) :
    (q, node) ∈ v.walkFrom depth p := by
  induction depth generalizing p with
  | zero => exact absurd hleads.length_le (Nat.not_le.mpr hdepth)
  | succ depth ih =>
    by_cases hne : p = q
    · subst hne
      rw [walkFrom, hnode]
      cases node with
      | dir => exact List.mem_cons_self
      | file content | device d => exact List.mem_singleton_self _
    · have hthere : v.contains q := by rw [contains, hnode]; rfl
      obtain ⟨c, hc, hcq⟩ := hv.exists_child_leadsTo hthere hleads hne
      have hlength := (leadsTo_of_mem_children hc).2
      rw [walkFrom, node?_of_kind?_dir (hv.dir_of_leadsTo hthere hleads hne)]
      exact List.mem_cons_of_mem _ (List.mem_flatMap.mpr ⟨c, hc, ih hcq (by omega)⟩)

/-- A walk comes to nothing twice, as what is below one place in a directory is not below another. -/
theorem Ordered.nodup_walkFrom (hv : v.Ordered) (depth : Nat) (p : Path) :
    ((v.walkFrom depth p).map Prod.fst).Nodup := by
  induction depth generalizing p with
  | zero => exact List.nodup_nil
  | succ depth ih =>
    have hbelow : ∀ {c q}, q ∈ (v.walkFrom depth c).map Prod.fst → c.LeadsTo q := by
      intro c q hq
      obtain ⟨⟨q, node⟩, hm, rfl⟩ := List.mem_map.mp hq
      exact (of_mem_walkFrom hm).2
    unfold walkFrom
    split
    · exact List.nodup_nil
    · rw [List.map_cons, List.map_flatMap, List.nodup_cons, List.nodup_flatMap]
      refine ⟨fun hself => ?_, fun c _ => ih c, ?_⟩
      · obtain ⟨c, hc, hm⟩ := List.mem_flatMap.mp hself
        have hlength := (leadsTo_of_mem_children hc).2 ▸ (hbelow hm).length_le
        exact absurd hlength (Nat.not_succ_le_self _)
      · refine (hv.nodup_children p).imp_of_mem fun {c d} hc hd hne => ?_
        refine List.disjoint_left.mpr fun q hq hq' => hne ?_
        have hlength := (leadsTo_of_mem_children hc).2.trans (leadsTo_of_mem_children hd).2.symm
        exact congrArg Path.mk (List.IsPrefix.eq_of_length
          (List.prefix_of_prefix_length_le (hbelow hq) (hbelow hq') hlength.le) hlength)
    · exact List.nodup_singleton _

/-- No path is longer than there are places, since there is a place for every part of it. -/
theorem WellFormed.length_lt (hv : v.WellFormed) (hp : v.contains p) : p.names.length < v.nodes.length := by
  have hparts : ((List.range (p.names.length + 1)).map fun n => (⟨p.names.take n⟩ : Path)).Nodup := by
    refine List.Nodup.map_on (fun m hm n hn he => ?_) List.nodup_range
    have hlength := congrArg (fun q : Path => q.names.length) he
    simp only [List.length_take, List.mem_range] at hlength hm hn
    omega
  have hthere : ((List.range (p.names.length + 1)).map fun n => (⟨p.names.take n⟩ : Path)) ⊆
      v.nodes.map Prod.fst := by
    intro q hq
    obtain ⟨n, -, rfl⟩ := List.mem_map.mp hq
    rw [← Index.find?_isSome_iff]
    by_cases hne : (⟨p.names.take n⟩ : Path) = p
    · rw [hne]
      exact hp
    · have hdir := hv.dir_of_leadsTo hp (q := ⟨p.names.take n⟩) (List.take_prefix n p.names) hne
      exact (isSome_kind? v _).symm.trans (by rw [hdir]; rfl)
  have hlength := (hparts.subperm hthere).length_le
  rw [List.length_map, List.length_range, List.length_map] at hlength
  exact hlength

/-- Once a walk is deep enough for all that is there, it makes no difference how much deeper it may go. -/
theorem walkFrom_add {depth : Nat} (hdeep : ∀ q, v.contains q → p.LeadsTo q → q.names.length < p.names.length + depth)
    (more : Nat) : v.walkFrom (depth + more) p = v.walkFrom depth p := by
  induction depth generalizing p with
  | zero =>
    have habsent : v.node? p = none := by
      rw [← Option.not_isSome_iff_eq_none]
      intro hthere
      exact absurd (hdeep p hthere (.refl p)) (Nat.lt_irrefl _)
    have hnothing : ∀ depth, v.walkFrom depth p = []
      | 0 => rfl
      | depth + 1 => by rw [walkFrom, habsent]
    rw [hnothing, hnothing]
  | succ depth ih =>
    rw [Nat.succ_add, walkFrom, walkFrom]
    split
    · rfl
    · refine congrArg _ (List.flatMap_congr fun c hc => ih fun q hq hleads => ?_)
      obtain ⟨hchild, hlength⟩ := leadsTo_of_mem_children hc
      have hq := hdeep q hq (hchild.trans hleads)
      omega
    · rfl

/-- A walk through a whole volume comes to every place there is, and to what is there. -/
theorem WellFormed.walk_perm (hv : v.WellFormed) (ho : v.Ordered) : v.walk.Perm v.nodes := by
  have hwalk : v.walk.Nodup := .of_map Prod.fst (ho.nodup_walkFrom _ _)
  have hnodes : v.nodes.Nodup := .of_map Prod.fst ho.nodup
  refine (List.perm_ext_iff_of_nodup hwalk hnodes).mpr ?_
  rintro ⟨q, node⟩
  constructor
  · intro hm
    exact Index.mem_of_find? (of_mem_walkFrom hm).1
  · intro hm
    have hnode : v.node? q = some node := Index.find?_of_mem ho.nodup hm
    have hthere : v.contains q := by rw [contains, hnode]; rfl
    exact hv.mem_walkFrom hnode (Path.root_leadsTo q) (Nat.lt_add_left _ (hv.length_lt hthere))

/-- Once a walk through a whole volume may go as deep as there are places, it does not matter how much deeper. -/
theorem WellFormed.walkFrom_root (hv : v.WellFormed) {depth : Nat} (hdepth : v.nodes.length ≤ depth) :
    v.walkFrom depth Path.root = v.walk := by
  obtain ⟨more, rfl⟩ := Nat.exists_eq_add_of_le hdepth
  exact walkFrom_add (fun q hq _ => Nat.lt_add_left _ (hv.length_lt hq)) more

/-- An open directory with no more places than there are numbers shows exactly those whose paths split into its own
and a name, in ascending order of their paths, and nothing from where it shows nothing. If all directories are like
that, whoever has a free handle and goes from the root through every directory is done no deeper than there are
places, has come by each place once, and leaves the volume as it was. -/
theorem directories_show_all {v : Volume} (hv : v.WellFormed) (ho : v.Ordered) :
    (∀ h p, v.pathOf? h = some p → v.isDir p → (v.children p).length ≤ 65536 →
      (∀ q, (∃ n : UInt16, v.child? h n.toNat = some q) ↔
        v.contains q ∧ q.text ≠ "/" ∧ (split q.text).1 = p.text) ∧
      (∀ m n : UInt16, ∀ q r, m < n → v.child? h m.toNat = some q → v.child? h n.toNat = some r → q.text < r.text) ∧
      ∀ m n : UInt16, m ≤ n → v.child? h m.toNat = none → v.child? h n.toNat = none) ∧
    ((∀ p, (v.children p).length ≤ 65536) → v.freeHandle?.isSome →
      ∃ paths : List Path, (∀ depth, v.nodes.length ≤ depth → explore depth Path.root v = (paths, v)) ∧
        paths.Perm (v.nodes.map Prod.fst) ∧ paths.Nodup) := by
  refine ⟨fun h p hp hdir hfew => ⟨fun q => ?_, fun m n q r hmn hq hr => ?_, fun m n hmn hm => ?_⟩,
    fun hfew hfree => ⟨v.walk.map Prod.fst, fun depth hdepth => ?_, (hv.walk_perm ho).map _, ho.nodup_walkFrom _ _⟩⟩
  · rw [← mem_children_iff_split, List.mem_iff_getElem?]
    constructor
    · rintro ⟨n, hn⟩
      exact ⟨n.toNat, (child?_of_open hp hdir _).symm.trans hn⟩
    · rintro ⟨n, hn⟩
      have hlt : n < 65536 := Nat.lt_of_lt_of_le (List.getElem?_eq_some_iff.mp hn).1 hfew
      refine ⟨UInt16.ofNat n, ?_⟩
      rw [UInt16.toNat_ofNat_of_lt' hlt, child?_of_open hp hdir, hn]
  · rw [child?_of_open hp hdir] at hq hr
    obtain ⟨hm, rfl⟩ := List.getElem?_eq_some_iff.mp hq
    obtain ⟨hn, rfl⟩ := List.getElem?_eq_some_iff.mp hr
    exact List.pairwise_iff_getElem.mp (ho.children p) _ _ hm hn hmn
  · rw [child?_of_open hp hdir] at hm ⊢
    exact List.getElem?_eq_none (Nat.le_trans (List.getElem?_eq_none_iff.mp hm) hmn)
  · have hroot : v.contains Path.root := by rw [← isSome_kind?, hv.root]; rfl
    rw [explore_eq hfew hfree depth hroot, hv.walkFrom_root hdepth]

/-- A directory is open that shows the two files in it. From the root all four places are come by. -/
theorem directories_show_all_of_two_files :
    let v := asked [.addFile "/bin/ls" #[], .addFile "/bin/cat" #[], .openPath "/bin"]
    v.WellFormed ∧ v.Ordered ∧ (∃ n : UInt16, v.child? ⟨1⟩ n.toNat = some (Path.ofText "/bin/ls")) ∧
      ∃ paths, explore 4 Path.root v = (paths, v) ∧ paths.length = 4 := by
  intro v
  have hv : v.WellFormed := wellFormed_asked _
  have ho : v.Ordered := ordered_asked _
  have hplaces : v.nodes.length = 4 := by decide +kernel
  have hfew (p : Path) : (v.children p).length ≤ 65536 := by
    refine Nat.le_trans (List.length_filter_le _ _) ?_
    rw [List.length_map, hplaces]
    decide
  obtain ⟨hshown, hwalked⟩ := directories_show_all hv ho
  obtain ⟨hall, -⟩ := hshown ⟨1⟩ (Path.ofText "/bin") (by decide +kernel) (by decide +kernel) (hfew _)
  obtain ⟨paths, hdone, hperm, -⟩ := hwalked hfew (by decide +kernel)
  refine ⟨hv, ho, (hall _).mpr (by decide +kernel), paths, hdone 4 hplaces.le, ?_⟩
  rw [hperm.length_eq, List.length_map, hplaces]

end Volume

end CoopKernel
