import CoopKernel.Proofs.Storage.Shape

/-!
# Volumes are in order

The nodes of a volume are kept in the order of the written forms of their paths, so that no path occurs
twice. The requests put, change and remove single nodes, each in its place, and keep the order.
-/

namespace CoopKernel

namespace Index

variable {κ ν : Type} [DecidableEq κ] {before : κ → κ → Bool} {entries : List (κ × ν)}

/-- The order of the keys is strict. -/
structure Strict (before : κ → κ → Bool) : Prop where
  asymm : ∀ {a b}, before a b → before b a = false
  trans : ∀ {a b c}, before a b → before b c → before a c
  total : ∀ {a b}, a ≠ b → before a b ∨ before b a

/-- The keys are in order. -/
def Ordered (before : κ → κ → Bool) (entries : List (κ × ν)) : Prop :=
  (entries.map Prod.fst).Pairwise fun a b => before a b

omit [DecidableEq κ] in
/-- No key of an ordered index occurs twice. -/
theorem Ordered.nodup (hb : Strict before) (h : Ordered before entries) :
    (entries.map Prod.fst).Nodup := by
  refine h.imp fun {a b} hab hne => ?_
  subst hne
  have hba := hb.asymm hab
  rw [hab] at hba
  cases hba

theorem mem_keys_insert {k key : κ} {v : ν} (h : key ∈ (insert before k v entries).map Prod.fst) :
    key = k ∨ key ∈ entries.map Prod.fst := by
  rw [← find?_isSome_iff, find?_insert] at h
  split at h
  · next hk => exact .inl hk.symm
  · exact .inr ((find?_isSome_iff key entries).mp h)

theorem Ordered.insert (hb : Strict before) (h : Ordered before entries) (k : κ) (v : ν) :
    Ordered before (insert before k v entries) := by
  unfold Ordered at h ⊢
  induction entries with
  | nil => exact List.pairwise_singleton _ _
  | cons entry rest ih =>
    obtain ⟨key, value⟩ := entry
    obtain ⟨hkey, hrest⟩ := List.pairwise_cons.mp h
    unfold Index.insert
    split
    · next hk =>
      subst hk
      exact h
    · next hk =>
      split
      · next hfirst =>
        refine List.pairwise_cons.mpr ⟨fun other hother => ?_, h⟩
        rcases List.mem_cons.mp hother with rfl | hother
        · exact hfirst
        · exact hb.trans hfirst (hkey other hother)
      · next hlater =>
        refine List.pairwise_cons.mpr ⟨fun other hother => ?_, ih hrest⟩
        rcases mem_keys_insert hother with rfl | hother
        · exact (hb.total hk).resolve_right hlater
        · exact hkey other hother

theorem map_fst_adjust (k : κ) (f : ν → ν) (entries : List (κ × ν)) :
    (adjust k f entries).map Prod.fst = entries.map Prod.fst := by
  induction entries with
  | nil => rfl
  | cons entry rest ih =>
    unfold adjust
    split
    · rfl
    · exact congrArg (entry.1 :: ·) ih

theorem Ordered.adjust (h : Ordered before entries) (k : κ) (f : ν → ν) :
    Ordered before (adjust k f entries) := by
  rw [Ordered, map_fst_adjust]
  exact h

theorem Ordered.erase (h : Ordered before entries) (k : κ) : Ordered before (erase k entries) :=
  h.sublist ((erase_sublist k entries).map Prod.fst)

end Index

/-- The written forms of paths are in a strict order, and no two paths have the same. -/
theorem Path.before_strict : Index.Strict Path.before where
  asymm h := decide_eq_false (String.lt_asymm (of_decide_eq_true h))
  trans h h' := decide_eq_true (String.lt_trans (of_decide_eq_true h) (of_decide_eq_true h'))
  total {p q} hne := by
    by_cases h : p.text < q.text
    · exact .inl (decide_eq_true h)
    · by_cases h' : q.text < p.text
      · exact .inr (decide_eq_true h')
      · have htext : p.text = q.text := String.le_antisymm (String.not_lt.mp h') (String.not_lt.mp h)
        exact absurd (text_injective htext) hne

namespace Volume

variable {v w : Volume}

/-- The nodes are in the order of their paths. -/
def Ordered (v : Volume) : Prop :=
  Index.Ordered Path.before v.nodes

theorem Ordered.of_nodes (hv : v.Ordered) (h : w.nodes = v.nodes) : w.Ordered := by
  rw [Ordered, h]
  exact hv

theorem Ordered.nodup (hv : v.Ordered) : (v.nodes.map Prod.fst).Nodup :=
  Index.Ordered.nodup Path.before_strict hv

theorem Ordered.put (hv : v.Ordered) (p : Path) (node : Node) : (v.put p node).Ordered :=
  Index.Ordered.insert Path.before_strict hv p node

theorem ordered_empty : empty.Ordered :=
  List.pairwise_singleton _ _

/-! ## What the requests do -/

theorem Ordered.mkdirUp (hv : v.Ordered) (names : List Name) : (mkdirUp names v).2.Ordered := by
  induction names with
  | nil => exact hv
  | cons name up ih =>
    unfold Volume.mkdirUp
    dsimp only
    split
    · exact hv
    · split
      · exact ih.put _ _
      · exact ih

theorem Ordered.addFile (hv : v.Ordered) (p : Path) (content : Bytes) : (v.addFile p content).2.Ordered := by
  have hmkdir : (v.mkdir p.parent).2.Ordered := hv.mkdirUp _
  unfold Volume.addFile
  split
  · exact hv
  · dsimp only
    split
    · exact hmkdir
    · split
      · exact hmkdir
      · exact hmkdir
      · exact hmkdir.put _ _
      · exact hmkdir.put _ _

theorem Ordered.addDevice (hv : v.Ordered) (p : Path) (device : Device) :
    (v.addDevice p device).2.Ordered := by
  have hmkdir : (v.mkdir p.parent).2.Ordered := hv.mkdirUp _
  unfold Volume.addDevice
  split
  · exact hv
  · dsimp only
    split
    · exact hmkdir.put _ _
    · exact hmkdir

theorem nodes_openPath (v : Volume) (p : Path) : (v.openPath p).2.nodes = v.nodes := by
  rcases v.openPath_cases p with ho | ⟨h, -, -, ho⟩
  · rw [ho]
  · rw [ho]

theorem Ordered.write (hv : v.Ordered) (h : Handle) (offset : Nat) (bytes : Bytes) :
    (v.write h offset bytes).2.Ordered := by
  unfold Volume.write
  split
  · exact hv
  · split
    · exact Index.Ordered.adjust hv _ _
    · exact hv
    · exact hv
    · exact hv

theorem Ordered.create (hv : v.Ordered) (p : Path) (size : Nat) : (v.create p size).2.Ordered := by
  rcases v.create_cases p size with hc | ⟨-, -, hc⟩
  · rw [hc]
    exact hv
  · rw [hc]
    exact hv.put _ _

theorem Ordered.resize (hv : v.Ordered) (p : Path) (size : Nat) : (v.resize p size).2.Ordered := by
  rcases v.resize_cases p size with hr | ⟨content, -, hr⟩
  · rw [hr]
    exact hv
  · rw [hr]
    exact hv.put _ _

theorem Ordered.delete (hv : v.Ordered) (p : Path) : (v.delete p).2.Ordered := by
  rcases v.delete_cases p with hd | ⟨node, -, -, -, hd⟩
  · rw [hd]
    exact hv
  · rw [hd]
    exact Index.Ordered.erase hv p

theorem Ordered.request (hv : v.Ordered) (request : Request) : (request.run v).Ordered := by
  cases request with
  | mkdir path => exact hv.mkdirUp _
  | addFile path content => exact hv.addFile _ content
  | addDevice path device => exact hv.addDevice _ device
  | setCapacity capacity => exact hv
  | rewire change => exact hv
  | openPath path => exact hv.of_nodes (v.nodes_openPath _)
  | close handle => exact hv
  | read handle offset count => exact hv.of_nodes (v.nodes_read handle offset count)
  | write handle offset bytes => exact hv.write handle offset bytes
  | create path size => exact hv.create _ size
  | resize path size => exact hv.resize _ size
  | delete path => exact hv.delete _

/-- Every volume that was only ever asked for things is in order. -/
theorem ordered_asked (requests : List Request) : (asked requests).Ordered :=
  requests.foldlRecOn Request.run ordered_empty fun _ hv request _ => hv.request request

end Volume

end CoopKernel
