import CoopKernel.Proofs.Memory.Growth
import CoopKernel.Proofs.Splitting.Alike
import CoopKernel.Proofs.Storage.Ordered

/-!
# The capacity of a volume

The bytes in use are those of the file at a path and those of all other files. A file that is made or resized
changes the former only, so that what will be in use is known before, and is what the capacity is compared with.
-/

namespace CoopKernel

namespace Index

variable {κ ν : Type} [DecidableEq κ]

theorem erase_eq_filter (k : κ) (entries : List (κ × ν)) : erase k entries = entries.filter (·.1 ≠ k) := by
  induction entries with
  | nil => rfl
  | cons entry rest ih =>
    obtain ⟨key, value⟩ := entry
    rw [erase, List.filter_cons, ih]
    by_cases hk : key = k
    · simp [hk]
    · simp [hk]

/-- Where another value is put in the place of a key, the other keys stay as they are. -/
theorem filter_insert (before : κ → κ → Bool) (k : κ) (v : ν) (entries : List (κ × ν)) :
    (insert before k v entries).filter (·.1 ≠ k) = entries.filter (·.1 ≠ k) := by
  induction entries with
  | nil => simp [insert]
  | cons entry rest ih =>
    obtain ⟨key, value⟩ := entry
    unfold insert
    split
    · next hk =>
      subst hk
      simp
    · split
      · simp
      · rw [List.filter_cons, List.filter_cons, ih]

end Index

namespace Volume

variable {v w : Volume} {p : Path}

/-- The bytes in all files but the one at a path. -/
def usedElsewhere (v : Volume) (p : Path) : Nat :=
  ((v.nodes.filter (·.1 ≠ p)).map fun entry => entry.2.size).sum

theorem used_eq_sum (v : Volume) : v.used = (v.nodes.map fun entry => entry.2.size).sum := by
  rw [used, List.sum, List.foldr_map]

theorem usedElsewhere_put (v : Volume) (p : Path) (node : Node) :
    (v.put p node).usedElsewhere p = v.usedElsewhere p := by
  rw [usedElsewhere, put, Index.filter_insert]
  rfl

theorem length?_eq_size (v : Volume) (p : Path) :
    (v.length? p).getD 0 = ((v.node? p).map Node.size).getD 0 := by
  unfold length? content?
  cases v.node? p with
  | none => rfl
  | some node => cases node <;> rfl

/-- The bytes in use are those of a file and those of all others. -/
theorem Ordered.used_eq (hv : v.Ordered) (p : Path) :
    v.used = v.usedElsewhere p + (v.length? p).getD 0 := by
  have hd := hv.nodup
  rw [length?_eq_size, used_eq_sum, usedElsewhere, node?]
  generalize v.nodes = entries at hd
  induction entries with
  | nil => rfl
  | cons entry rest ih =>
    obtain ⟨key, node⟩ := entry
    rw [List.map_cons, List.nodup_cons] at hd
    have ih := ih hd.2
    rw [List.map_cons, List.sum_cons, Index.find?]
    by_cases hk : key = p
    · subst hk
      -- The path does not occur again, so that nothing else is left out.
      have hrest : rest.filter (·.1 ≠ key) = rest := by
        refine List.filter_eq_self.mpr fun entry hm => decide_eq_true ?_
        rintro rfl
        exact hd.1 (List.mem_map.mpr ⟨entry, hm, rfl⟩)
      rw [if_pos rfl, List.filter_cons_of_neg (by simp), hrest]
      exact Nat.add_comm _ _
    · rw [if_neg hk, List.filter_cons_of_pos (by simpa using hk), List.map_cons, List.sum_cons, ih]
      omega

theorem Ordered.used_put (hv : v.Ordered) (p : Path) (node : Node) :
    (v.put p node).used = v.usedElsewhere p + node.size := by
  have hnode : (v.put p node).node? p = some node := by rw [node?_put, if_pos rfl]
  rw [(hv.put p node).used_eq p, usedElsewhere_put, length?_eq_size, hnode]
  rfl

/-- Something that takes no room takes none wherever nothing is. -/
theorem Ordered.used_put_of_absent (hv : v.Ordered) {node : Node} (hnode : v.node? p = none)
    (hsize : node.size = 0) : (v.put p node).used = v.used := by
  rw [hv.used_put, hv.used_eq p, length?_eq_size, hnode, hsize]
  rfl

theorem used_overwrite (v : Volume) (p : Path) (offset : Nat) (bytes : Bytes) :
    (v.overwrite p offset bytes).used = v.used := by
  rw [Volume.used_eq, Volume.used_eq, outline_overwrite]

/-- Whether a file of some size can be put in the place of what is there is decided by what would be in use. -/
theorem Ordered.fits_iff (hv : v.Ordered) {capacity : Nat} (hc : v.capacity = some capacity) (p : Path)
    (size : Nat) : v.fits ((v.length? p).getD 0) size = true ↔ v.usedElsewhere p + size ≤ capacity := by
  have hused := hv.used_eq p
  rw [fits, hc, decide_eq_true_iff]
  omega

/-! ## Making and resizing files -/

/-- A file can be made in a directory, where nothing is or a file. -/
theorem create_eq (v : Volume) {size : Nat} (hparent : v.kind? p.parent = some .dir)
    (hplace : v.kind? p = none ∨ v.kind? p = some .file) :
    v.create p size =
      if v.fits ((v.length? p).getD 0) size then (true, v.put p (.file (Array.replicate size 0)))
      else (false, v) := by
  have hdir := kind?_eq_dir.mp hparent
  unfold kind? at hplace
  unfold create length? content?
  rw [hdir]
  cases hnode : v.node? p with
  | none => rfl
  | some node =>
    rw [hnode] at hplace
    cases node with
    | file content => rfl
    | dir | device d => rcases hplace with h | h <;> cases h

/-- A file can be resized where there is one. -/
theorem resize_of_kind (v : Volume) (hplace : v.kind? p = some .file) (size : Nat) :
    ∃ content : Bytes, v.resize p size =
      if v.fits ((v.length? p).getD 0) size then
        (true, ({ v with resizeCalls := v.resizeCalls + 1 } : Volume).put p (.file (content.resize size)))
      else (false, { v with resizeCalls := v.resizeCalls + 1 }) := by
  obtain ⟨node, hnode, hkind⟩ := Option.map_eq_some_iff.mp hplace
  cases node with
  | file content =>
    have hcontent : v.content? p = some content := by rw [content?, hnode]; rfl
    refine ⟨content, ?_⟩
    rw [resize_of_content hcontent, length?, hcontent]
    rfl
  | dir | device d => cases hkind

/-- A file is made exactly if there is room for what is then in use. -/
theorem Ordered.create_within (hv : v.Ordered) {capacity size : Nat} (hc : v.capacity = some capacity)
    (hparent : v.kind? p.parent = some .dir) (hplace : v.kind? p = none ∨ v.kind? p = some .file) :
    ((v.create p size).1 = false ↔ capacity < v.usedElsewhere p + size) ∧
      ((v.create p size).1 = true → (v.create p size).2.used = v.usedElsewhere p + size) := by
  have hfits := hv.fits_iff hc p size
  rw [create_eq v hparent hplace]
  split
  · next hroom =>
    have hused := hv.used_put p (.file (Array.replicate size 0))
    rw [Node.size, Array.size_replicate] at hused
    refine ⟨⟨fun hrefused => ?_, fun hover => absurd (hfits.mp hroom) (Nat.not_le.mpr hover)⟩, fun _ => hused⟩
    cases hrefused
  · next hfull =>
    refine ⟨⟨fun _ => Nat.not_le.mp (mt hfits.mpr hfull), fun _ => rfl⟩, fun hdone => ?_⟩
    cases hdone

/-- A file is resized exactly if there is room for what is then in use. -/
theorem Ordered.resize_within (hv : v.Ordered) {capacity : Nat} (hc : v.capacity = some capacity)
    (hplace : v.kind? p = some .file) (size : Nat) :
    ((v.resize p size).1 = false ↔ capacity < v.usedElsewhere p + size) ∧
      ((v.resize p size).1 = true → (v.resize p size).2.used = v.usedElsewhere p + size) := by
  have hfits := hv.fits_iff hc p size
  obtain ⟨content, hresize⟩ := v.resize_of_kind hplace size
  rw [hresize]
  split
  · next hroom =>
    have hcounted : ({ v with resizeCalls := v.resizeCalls + 1 } : Volume).Ordered := hv
    have hused := hcounted.used_put p (.file (content.resize size))
    rw [Node.size, Bytes.size_resize] at hused
    refine ⟨⟨fun hrefused => ?_, fun hover => absurd (hfits.mp hroom) (Nat.not_le.mpr hover)⟩, fun _ => hused⟩
    cases hrefused
  · next hfull =>
    refine ⟨⟨fun _ => Nat.not_le.mp (mt hfits.mpr hfull), fun _ => rfl⟩, fun hdone => ?_⟩
    cases hdone

/-! ## What the requests do -/

/-- The limit binds the request: the host does not put a file there with it, and does not move the limit. -/
def Request.isBound : Request → Bool
  | addFile .. | setCapacity _ => false
  | _ => true

/-- There is a limit, and the files keep within it. -/
structure Within (capacity : Nat) (v : Volume) : Prop where
  ordered : v.Ordered
  limit : v.capacity = some capacity
  used : v.used ≤ capacity

variable {capacity : Nat}

theorem Within.of_used (hv : Within capacity v) (hordered : w.Ordered) (hlimit : w.capacity = v.capacity)
    (hused : w.used ≤ v.used) : Within capacity w :=
  ⟨hordered, hlimit.trans hv.limit, Nat.le_trans hused hv.used⟩

theorem Within.of_nodes (hv : Within capacity v) (hnodes : w.nodes = v.nodes)
    (hlimit : w.capacity = v.capacity) : Within capacity w :=
  hv.of_used (hv.ordered.of_nodes hnodes) hlimit (Nat.le_of_eq (by rw [Volume.used, Volume.used, hnodes]))

theorem Within.put_of_absent (hv : Within capacity v) {node : Node} (hnode : v.node? p = none)
    (hsize : node.size = 0) : Within capacity (v.put p node) :=
  hv.of_used (hv.ordered.put p node) rfl (Nat.le_of_eq (hv.ordered.used_put_of_absent hnode hsize))

theorem Within.mkdirUp (hv : Within capacity v) (names : List Name) : Within capacity (mkdirUp names v).2 := by
  induction names with
  | nil => exact hv
  | cons name up ih =>
    unfold Volume.mkdirUp
    dsimp only
    split
    · exact hv
    · next hnone =>
      split
      · refine ih.put_of_absent ?_ rfl
        rw [← kind?_eq_none, kind?_mkdirUp_of_longer v (by simp)]
        exact kind?_eq_none.mpr hnone
      · exact ih

theorem Within.addDevice (hv : Within capacity v) (p : Path) (device : Device) :
    Within capacity (v.addDevice p device).2 := by
  have hmkdir : Within capacity (v.mkdir p.parent).2 := hv.mkdirUp _
  unfold Volume.addDevice
  split
  · exact hv
  · next hfree =>
    simp only [Bool.or_eq_true, decide_eq_true_eq, not_or] at hfree
    obtain ⟨hroot, hfree⟩ := hfree
    dsimp only
    split
    · refine hmkdir.put_of_absent ?_ rfl
      rw [← kind?_eq_none, v.kind?_mkdir_parent hroot, kind?_eq_none, ← Option.not_isSome_iff_eq_none]
      exact hfree
    · exact hmkdir

theorem Within.write (hv : Within capacity v) (h : Handle) (offset : Nat) (bytes : Bytes) :
    Within capacity (v.write h offset bytes).2 := by
  have hordered := hv.ordered.write h offset bytes
  revert hordered
  unfold Volume.write
  split
  · exact fun _ => hv
  · split
    · exact fun hordered => hv.of_used hordered rfl (Nat.le_of_eq (v.used_overwrite _ offset bytes))
    · exact fun _ => hv.of_nodes rfl rfl
    · exact fun _ => hv
    · exact fun _ => hv

theorem Within.create (hv : Within capacity v) (p : Path) (size : Nat) :
    Within capacity (v.create p size).2 := by
  rcases v.create_cases p size with hc | ⟨hdir, hplace, hc⟩
  · rw [hc]
    exact hv
  · have hkind : v.kind? p = none ∨ v.kind? p = some .file := by
      rcases hplace with hnone | ⟨content, hfile⟩
      · exact .inl (kind?_eq_none.mpr hnone)
      · exact .inr (by rw [kind?, hfile]; rfl)
    have hdone : (v.create p size).1 = true := by rw [hc]
    obtain ⟨hrefused, hused⟩ := hv.ordered.create_within hv.limit (kind?_eq_dir.mpr hdir) hkind
    have hroom := mt hrefused.mpr (by rw [hdone]; decide)
    refine ⟨hv.ordered.create p size, ?_, (hused hdone).trans_le (Nat.not_lt.mp hroom)⟩
    rw [hc]
    exact hv.limit

theorem Within.resize (hv : Within capacity v) (p : Path) (size : Nat) :
    Within capacity (v.resize p size).2 := by
  rcases v.resize_cases p size with hr | ⟨content, hcontent, hr⟩
  · rw [hr]
    exact hv.of_nodes rfl rfl
  · have hdone : (v.resize p size).1 = true := by rw [hr]
    obtain ⟨hrefused, hused⟩ := hv.ordered.resize_within hv.limit (kind?_of_content? hcontent) size
    have hroom := mt hrefused.mpr (by rw [hdone]; decide)
    refine ⟨hv.ordered.resize p size, ?_, (hused hdone).trans_le (Nat.not_lt.mp hroom)⟩
    rw [hr]
    exact hv.limit

/-- What is removed is no longer in use. -/
theorem Within.delete (hv : Within capacity v) (p : Path) : Within capacity (v.delete p).2 := by
  rcases v.delete_cases p with hd | ⟨node, -, -, -, hd⟩
  · rw [hd]
    exact hv
  · have hordered := hv.ordered.delete p
    rw [hd] at hordered ⊢
    refine hv.of_used hordered rfl ?_
    rw [used_eq_sum, Index.erase_eq_filter, hv.ordered.used_eq p]
    exact Nat.le_add_right _ _

theorem Within.request (hv : Within capacity v) {request : Request} (hbound : request.isBound) :
    Within capacity (request.run v) := by
  cases request with
  | addFile path content => cases hbound
  | setCapacity capacity => cases hbound
  | mkdir path => exact hv.mkdirUp _
  | addDevice path device => exact hv.addDevice _ device
  | rewire change => exact hv.of_nodes rfl rfl
  | openPath path =>
    refine hv.of_nodes (v.nodes_openPath _) ?_
    rcases v.openPath_cases (Path.ofText path) with ho | ⟨h, -, -, ho⟩ <;> rw [Request.run, ho]
  | close handle => exact hv.of_nodes rfl rfl
  | read handle offset count =>
    refine hv.of_nodes (v.nodes_read handle offset count) ?_
    unfold Request.run read
    dsimp only
    split <;> rfl
  | write handle offset bytes => exact hv.write handle offset bytes
  | create path size => exact hv.create _ size
  | resize path size => exact hv.resize _ size
  | delete path => exact hv.delete _

theorem Within.requests (hv : Within capacity v) {requests : List Request}
    (hbound : ∀ request ∈ requests, request.isBound) : Within capacity (requests.foldl Request.run v) :=
  requests.foldlRecOn Request.run hv fun _ hv request hm => hv.request (hbound request hm)

/-- Whatever a volume is asked for by those whom its limit binds, the files go on keeping within the limit. What is
subtracted for a file that is replaced or resized is never more than is in use, and a request to make or resize a
file where that can be done is refused exactly if more would be in use than the limit allows; otherwise that much
is in use then. -/
theorem files_keep_within_capacity {v : Volume} {capacity : Nat} (hordered : v.Ordered)
    (hlimit : v.capacity = some capacity) (hused : v.used ≤ capacity) {requests : List Request}
    (hbound : ∀ request ∈ requests, request.isBound) :
    let w := requests.foldl Request.run v
    w.used ≤ capacity ∧ (∀ p, (w.length? p).getD 0 ≤ w.used) ∧
    (∀ p size, w.kind? p.parent = some .dir → (w.kind? p = none ∨ w.kind? p = some .file) →
      ((w.create p size).1 = false ↔ capacity < w.usedElsewhere p + size) ∧
      ((w.create p size).1 = true → (w.create p size).2.used = w.usedElsewhere p + size)) ∧
    ∀ p size, w.kind? p = some .file →
      ((w.resize p size).1 = false ↔ capacity < w.usedElsewhere p + size) ∧
      ((w.resize p size).1 = true → (w.resize p size).2.used = w.usedElsewhere p + size) := by
  intro w
  have hw : Within capacity w := Within.requests ⟨hordered, hlimit, hused⟩ hbound
  refine ⟨hw.used, fun p => ?_, fun p size => hw.ordered.create_within hw.limit,
    fun p size hplace => hw.ordered.resize_within hw.limit hplace size⟩
  rw [hw.ordered.used_eq p]
  exact Nat.le_add_left _ _

/-- Of ten bytes six are in use, so that there is no room for five more, but for four. -/
theorem files_keep_within_capacity_of_ten :
    let v := asked [.setCapacity (some 10)]
    let requests : List Request := [.create "/a" 6]
    v.Ordered ∧ v.capacity = some 10 ∧ v.used ≤ 10 ∧ (∀ request ∈ requests, request.isBound) ∧
      ((requests.foldl Request.run v).create (Path.ofText "/b") 5).1 = false ∧
      ((requests.foldl Request.run v).create (Path.ofText "/b") 4).1 = true := by
  have hordered := ordered_asked [.setCapacity (some 10)]
  have hbound : ∀ request ∈ [Request.create "/a" 6], request.isBound := by simp [Request.isBound]
  have hused : (asked [.setCapacity (some 10)]).used ≤ 10 := by decide +kernel
  have hmade := fun size => (files_keep_within_capacity hordered rfl hused hbound).2.2.1
    (Path.ofText "/b") size (by decide +kernel) (.inl (by decide +kernel))
  refine ⟨hordered, rfl, hused, hbound, (hmade 5).1.mpr (by decide +kernel), ?_⟩
  exact Bool.not_eq_false _ ▸ mt (hmade 4).1.mp (by decide +kernel)

end Volume

end CoopKernel
