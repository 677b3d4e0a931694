import CoopKernel.Proofs.Dealings
import CoopKernel.Proofs.Delivery
import CoopKernel.Proofs.Memory.Region
import CoopKernel.Proofs.Storage.WellFormed

/-!
# Making a process or leaving no trace

To make a process, its program and its backing file are opened, and the file is made and written. Any
of these calls can be refused. What was done up to then is undone: the handles are closed again and the
file that was made is removed, for which nothing is asked of the storage but that it removes what
nobody has open.
-/

namespace CoopKernel

open Volume (OnlyAt)

namespace Volume

theorem node?_read (v : Volume) (h : Handle) (offset count : Nat) (p : Path) :
    (v.read h offset count).2.node? p = v.node? p := by
  unfold read
  split <;> rfl

/-- A file that nobody has open is removed. -/
theorem node?_delete_file {v : Volume} {p : Path} (hfile : (v.content? p).isSome)
    (hclosed : ¬v.isOpen p) : (v.delete p).2.node? p = none := by
  obtain ⟨content, hcontent⟩ := Option.isSome_iff_exists.mp hfile
  obtain ⟨node, hnode, hnode'⟩ := Option.bind_eq_some_iff.mp hcontent
  cases node with
  | dir | device d => cases hnode'
  | file content' =>
    unfold delete
    simp only [hnode, Node.isDir, Bool.false_and, if_neg hclosed, Bool.false_eq_true, if_false]
    rw [node?, Index.find?_erase, if_pos rfl]

/-- Opening and closing again leaves the handles as they were. -/
theorem handles_close_opened {v w : Volume} {h : Handle} {p : Path} (hfree : v.pathOf? h = none)
    (hw : w.handles = Index.insert handleBefore h p v.handles) : (w.close h).handles = v.handles := by
  rw [close, hw]
  exact Index.erase_insert handleBefore p hfree

end Volume

namespace Faulty

variable {σ α : Type}

theorem refuses_attempt (f : Faulty σ) (call : Call) (failure : α) (act : σ → α × σ) :
    (f.attempt call failure act).2.refuses = f.refuses := by
  unfold attempt
  split
  dsimp only
  split <;> rfl

theorem refuses_attemptOn [Storage σ] (f : Faulty σ) (handle : Handle) (call : Path → Call) (failure : α)
    (act : σ → α × σ) : (f.attemptOn handle call failure act).2.refuses = f.refuses := by
  unfold attemptOn
  split
  · exact refuses_attempt f _ failure act
  · rfl

/-- Removing is never refused. -/
def Removes (f : Faulty σ) : Prop :=
  ∀ n p, f.refuses n (.delete p) = false

theorem Removes.store_delete [Storage σ] {f : Faulty σ} (hf : f.Removes) (p : Path) :
    (Storage.delete f p).2.store = (Storage.delete f.store p).2 := by
  obtain ⟨store, refuses, calls⟩ := f
  have hgranted : refuses calls (.delete p) = false := hf calls p
  show (attempt ⟨store, refuses, calls⟩ (.delete p) false (Storage.delete · p)).2.store = _
  simp only [attempt, hgranted, Bool.false_eq_true, if_false]

/-- The same is refused, the same handles are open, and nothing changed but at one path. -/
structure Within (path : Path) (f f' : Faulty Volume) : Prop where
  refuses : f'.refuses = f.refuses
  only : OnlyAt path f.store f'.store

instance (path : Path) : IsPreorder (Faulty Volume) (Within path) where
  refl f := ⟨rfl, refl_of (OnlyAt path) f.store⟩
  trans _ _ _ h₁ h₂ := ⟨h₂.refuses.trans h₁.refuses, trans_of (OnlyAt path) h₁.only h₂.only⟩

/-- Besides, nothing is at the path unless something was there before. -/
structure Undone (path : Path) (f f' : Faulty Volume) : Prop extends Within path f f' where
  clear : f.store.node? path = none → f'.store.node? path = none

instance (path : Path) : IsPreorder (Faulty Volume) (Undone path) where
  refl f := ⟨refl_of (Within path) f, id⟩
  trans _ _ _ h₁ h₂ := ⟨trans_of (Within path) h₁.toWithin h₂.toWithin, h₂.clear ∘ h₁.clear⟩

theorem undone_read (f : Faulty Volume) (h : Handle) (offset count : Nat) (path : Path) :
    Undone path f (Storage.read f h offset count).2 where
  refuses := refuses_attemptOn f h .read #[] _
  only := (VolumeBacked.read f h offset count).volume (refl_of (OnlyAt path) _)
    (Volume.read_onlyAt _ h offset count path)
  clear := (VolumeBacked.read f h offset count).volume
    (P := fun v => f.store.node? path = none → v.node? path = none) id
    (by
      show f.store.node? path = none → (f.store.read h offset count).2.node? path = none
      rw [Volume.node?_read]
      exact id)

theorem within_write {f : Faulty Volume} {h : Handle} {path : Path} (hp : f.store.pathOf? h = some path)
    (offset : Nat) (bytes : Bytes) : Within path f (Storage.write f h offset bytes).2 where
  refuses := refuses_attemptOn f h .write 0 _
  only := (VolumeBacked.write f h offset bytes).volume (refl_of (OnlyAt path) _)
    (Volume.write_onlyAt hp offset bytes)

theorem within_create (f : Faulty Volume) (path : Path) (size : Nat) :
    Within path f (Storage.create f path size).2 where
  refuses := refuses_attempt f (.create path) false _
  only := (VolumeBacked.create f path size).volume (refl_of (OnlyAt path) _)
    (Volume.create_onlyAt _ path size)

theorem within_delete (f : Faulty Volume) (path : Path) : Within path f (Storage.delete f path).2 where
  refuses := refuses_attempt f (.delete path) false _
  only := (VolumeBacked.delete f path).volume (refl_of (OnlyAt path) _) (Volume.delete_onlyAt _ path)

/-- Nothing changed but the number of calls. -/
theorem Undone.of_same {f f₁ : Faulty Volume} (hrefuses : f₁.refuses = f.refuses)
    (hstore : f₁.store = f.store) (path : Path) : Undone path f f₁ := by
  refine ⟨⟨hrefuses, ?_⟩, ?_⟩
  · rw [hstore]
    exact refl_of (OnlyAt path) _
  · rw [hstore]
    exact id

/-- Where nothing is opened, nothing changes. -/
theorem same_of_openPath_none {f f₁ : Faulty Volume} {p : Path}
    (ho : Storage.openPath f p = (none, f₁)) : f₁.refuses = f.refuses ∧ f₁.store = f.store := by
  have hrefuses := refuses_attempt f (.openPath p) none (Storage.openPath · p)
  have hopen := VolumeBacked.openPath f p
  rw [ho] at hopen
  refine ⟨(congrArg (fun r => r.2.refuses) ho).symm.trans hrefuses, ?_⟩
  rcases hopen with ⟨hvalue, hvolume⟩ | ⟨_, hvolume⟩
  · rcases f.store.openPath_cases p with hnone | ⟨h, _, _, hsome⟩
    · exact hvolume.trans (congrArg Prod.snd hnone)
    · cases hvalue.trans (congrArg Prod.fst hsome)
  · exact hvolume

/-- Where a file cannot be made, nothing changes. -/
theorem same_of_create_false {f f₁ : Faulty Volume} {path : Path} {size : Nat}
    (hc : Storage.create f path size = (false, f₁)) : f₁.refuses = f.refuses ∧ f₁.store = f.store := by
  have hrefuses := refuses_attempt f (.create path) false (Storage.create · path size)
  have hcreate := VolumeBacked.create f path size
  rw [hc] at hcreate
  refine ⟨(congrArg (fun r => r.2.refuses) hc).symm.trans hrefuses, ?_⟩
  rcases hcreate with ⟨hvalue, hvolume⟩ | ⟨_, hvolume⟩
  · rcases f.store.create_cases path size with hno | ⟨_, _, hyes⟩
    · exact hvolume.trans (congrArg Prod.snd hno)
    · cases hvalue.trans (congrArg Prod.fst hyes)
  · exact hvolume

/-- Opening adds an entry for a handle that nobody had. -/
theorem opened_of_openPath {f f₁ : Faulty Volume} {p : Path} {h : Handle}
    (ho : Storage.openPath f p = (some h, f₁)) :
    f₁.refuses = f.refuses ∧ f.store.pathOf? h = none ∧ f₁.store =
      { f.store with handles := Index.insert Volume.handleBefore h p f.store.handles } := by
  have hrefuses := refuses_attempt f (.openPath p) none (Storage.openPath · p)
  obtain ⟨_, hfree, hvolume⟩ := VolumeBacked.openPath_volume ho
  exact ⟨(congrArg (fun r => r.2.refuses) ho).symm.trans hrefuses, hfree, hvolume⟩

/-- What was opened is closed again, and in between only what is at one path changed. -/
theorem Within.closed {f f₁ f₂ : Faulty Volume} {p path : Path} {h : Handle}
    (ho : Storage.openPath f p = (some h, f₁)) (hw : Within path f₁ f₂) :
    Within path f (Storage.close f₂ h) := by
  obtain ⟨hrefuses, hfree, hopened⟩ := opened_of_openPath ho
  refine ⟨hw.refuses.trans hrefuses, ?_, ?_⟩
  · have hhandles : f₂.store.handles = Index.insert Volume.handleBefore h p f.store.handles := by
      rw [hw.only.handles, hopened]
    exact Volume.handles_close_opened hfree hhandles
  · intro q hq
    have hnodes : f₁.store.node? q = f.store.node? q := by
      rw [hopened]
      rfl
    exact (hw.only.nodes q hq).trans hnodes

theorem Undone.closed {f f₁ f₂ : Faulty Volume} {p path : Path} {h : Handle}
    (ho : Storage.openPath f p = (some h, f₁)) (hu : Undone path f₁ f₂) :
    Undone path f (Storage.close f₂ h) where
  toWithin := hu.toWithin.closed ho
  clear hnone := by
    obtain ⟨_, _, hopened⟩ := opened_of_openPath ho
    have hnone₁ : f₁.store.node? path = none := by
      rw [hopened]
      exact hnone
    exact hu.clear hnone₁

/-- A file that was made is removed again. -/
theorem Within.removed {f f₁ : Faulty Volume} {path : Path} (hf : f.Removes)
    (hwell : f.store.WellFormed) (hw : Within path f f₁) (hfile : (f₁.store.content? path).isSome) :
    Undone path f (Storage.delete f₁ path).2 where
  toWithin := trans_of (Within path) hw (within_delete f₁ path)
  clear hnone := by
    have hf₁ : f₁.Removes := fun n p => (congrFun (congrFun hw.refuses n) _).trans (hf n p)
    have hclosed : ¬f₁.store.isOpen path := by
      rw [Volume.isOpen, hw.only.handles]
      exact hwell.not_isOpen hnone
    rw [hf₁.store_delete path]
    exact Volume.node?_delete_file hfile hclosed

end Faulty

namespace Kernel

open Faulty (Within Undone)

/-- Where a backing file cannot be made, opened and filled, nothing is left of it. -/
theorem makeBacking_undone {k k' : Kernel (Faulty Volume)} (hremoves : k.store.Removes)
    (hwell : k.store.store.WellFormed) {pid : Pid} {state : Snapshot} {data : Bytes} {e : SpawnError}
    (hm : k.makeBacking pid state data = (.error e, k')) :
    k' = { k with store := k'.store } ∧ Undone (k.backingPath pid) k.store k'.store := by
  unfold makeBacking at hm
  have hcreated := Faulty.within_create k.store (k.backingPath pid) (Snapshot.blockSize + data.size)
  rcases hc : Storage.create k.store (k.backingPath pid) (Snapshot.blockSize + data.size) with
    ⟨created, s₁⟩
  rw [hc] at hcreated
  simp only [hc] at hm
  cases created with
  | false =>
    cases hm
    obtain ⟨hrefuses, hstore⟩ := Faulty.same_of_create_false hc
    exact ⟨rfl, .of_same hrefuses hstore _⟩
  | true =>
    have hfile : (s₁.store.content? (k.backingPath pid)).isSome := VolumeBacked.create_content hc
    simp only [Bool.not_true, Bool.false_eq_true, if_false] at hm
    rcases ho : Storage.openPath s₁ (k.backingPath pid) with ⟨_ | h, s₂⟩
    · simp only [ho] at hm
      cases hm
      obtain ⟨hrefuses, hstore⟩ := Faulty.same_of_openPath_none ho
      have hopened : Within (k.backingPath pid) s₁ s₂ := (Undone.of_same hrefuses hstore _).toWithin
      exact ⟨rfl, (trans_of (Within _) hcreated hopened).removed hremoves hwell (hstore ▸ hfile)⟩
    · have hpath : s₂.store.pathOf? h = some (k.backingPath pid) := by
        have hopened := (VolumeBacked.openPath_some ho).2.2 h
        rw [if_pos rfl] at hopened
        exact hopened
      have hfile₂ : (s₂.store.behind? h).isSome := by
        have hopened : s₂.store.behind? h = _ := VolumeBacked.openPath_behind ho h
        rw [if_pos rfl] at hopened
        rw [hopened]
        exact hfile
      -- Whatever was written until then, the handle is closed and the file is removed.
      have hkey : ∀ (written : Bool) s₃, Storage.Edits s₂ s₃ → Within (k.backingPath pid) s₂ s₃ →
          (if written then
              ((.ok h, { k with store := s₃ }) : Except SpawnError Handle × Kernel (Faulty Volume))
            else
              (.error .storage,
                { k with store := (Storage.delete (Storage.close s₃ h) (k.backingPath pid)).2 })) =
              (.error e, k') →
          k' = { k with store := k'.store } ∧ Undone (k.backingPath pid) k.store k'.store := by
        intro written s₃ hedits hw he
        cases written with
        | true => cases he
        | false =>
          cases he
          have hsteady : Volume.Steady s₂.store s₃.store := VolumeBacked.steady_edits hedits
          have hfile₃ : (s₃.store.behind? h).isSome := hsteady.files h hfile₂
          rw [Volume.behind?, hsteady.paths, hpath] at hfile₃
          exact ⟨rfl, (trans_of (Within _) hcreated (hw.closed ho)).removed hremoves hwell hfile₃⟩
      have hedits : Storage.Edits s₂ (state.save s₂ h).2 := .single (.write s₂ h 0 state.toBlock)
      have hsaved : Within (k.backingPath pid) s₂ (state.save s₂ h).2 :=
        Faulty.within_write hpath 0 state.toBlock
      rcases hs : state.save s₂ h with ⟨saved, s₃⟩
      rw [hs] at hedits hsaved
      simp only [ho, hs] at hm
      cases saved with
      | false => exact hkey _ s₃ hedits hsaved hm
      | true =>
        have hpath₃ : s₃.store.pathOf? h = some (k.backingPath pid) :=
          (hsaved.only.pathOf? h).trans hpath
        have hwritten := Faulty.within_write hpath₃ Snapshot.blockSize data
        exact hkey _ _ (hedits.trans (.single (.write s₃ h Snapshot.blockSize data)))
          (trans_of (Within _) hsaved hwritten) hm

/-- A process was to be made at a path and could not: only the storage can differ, in which the same
handles are open, nothing changed elsewhere, and nothing is at the path unless something was there
before. -/
structure RolledBack (k k' : Kernel (Faulty Volume)) : Prop where
  rest : k' = { k with store := k'.store }
  handles : k'.store.store.handles = k.store.store.handles
  elsewhere : ∀ q, (∀ pid, k.table.firstFree? = some pid → q ≠ k.backingPath pid) →
    k'.store.store.node? q = k.store.store.node? q
  clear : ∀ pid, k.table.firstFree? = some pid → k.store.store.node? (k.backingPath pid) = none →
    k'.store.store.node? (k.backingPath pid) = none

theorem RolledBack.of_undone {k k' : Kernel (Faulty Volume)} {pid : Pid}
    (hslot : k.table.firstFree? = some pid) (hrest : k' = { k with store := k'.store })
    (hu : Undone (k.backingPath pid) k.store k'.store) : RolledBack k k' where
  rest := hrest
  handles := hu.only.handles
  elsewhere q hq := hu.only.nodes q (hq pid hslot)
  clear q hq hnone := by
    rw [hslot] at hq
    cases hq
    exact hu.clear hnone

theorem RolledBack.refl (k : Kernel (Faulty Volume)) : RolledBack k k :=
  ⟨rfl, rfl, fun _ _ => rfl, fun _ _ => id⟩

theorem spawn_rolledBack {k k' : Kernel (Faulty Volume)} (hremoves : k.store.Removes)
    (hwell : k.store.store.WellFormed) {program : String} {e : SpawnError}
    (hs : k.spawn program = (.error e, k')) : RolledBack k k' := by
  unfold spawn at hs
  split at hs
  · cases hs
    exact .refl k
  · cases hslot : k.table.firstFree? with
    | none =>
      simp only [hslot] at hs
      cases hs
      exact .refl k
    | some pid =>
      simp only [hslot] at hs
      split at hs
      · cases hs
        exact .refl k
      · rcases ho : Storage.openPath k.store (Path.ofText program) with ⟨_ | h, s⟩
        · simp only [ho] at hs
          cases hs
          obtain ⟨hrefuses, hstore⟩ := Faulty.same_of_openPath_none ho
          exact .of_undone hslot rfl (.of_same hrefuses hstore _)
        · simp only [ho] at hs
          have hremoves₁ : s.Removes := by
            rw [Faulty.Removes, (Faulty.opened_of_openPath ho).1]
            exact hremoves
          have hwell₁ : s.store.WellFormed := by
            have hopen := (VolumeBacked.openPath k.store (Path.ofText program)).volume hwell
              (hwell.changes (Volume.changes_openPath _ _))
            rw [ho] at hopen
            exact hopen
          rcases hm : ({ k with store := s } : Kernel (Faulty Volume)).makeBacking pid
            (k.initialState (Path.ofText program)) #[] with ⟨e' | backing, k₂⟩
          · simp only [hm] at hs
            cases hs
            obtain ⟨hrest, hundone⟩ := makeBacking_undone hremoves₁ hwell₁ hm
            refine .of_undone hslot ?_ (hundone.closed ho)
            rw [hrest]
          · simp only [hm] at hs
            cases hs

theorem fork_rolledBack {k k' : Kernel (Faulty Volume)} (hremoves : k.store.Removes)
    (hwell : k.store.store.WellFormed) {parent : Loaded} {e : SpawnError}
    (hs : k.fork parent = (.error e, k')) : RolledBack k k' := by
  unfold fork at hs
  cases hslot : k.table.firstFree? with
  | none =>
    simp only [hslot] at hs
    cases hs
    exact .refl k
  | some pid =>
    simp only [hslot] at hs
    have hread := Faulty.undone_read k.store parent.backing Snapshot.blockSize
      parent.state.dataLength.toNat (k.backingPath pid)
    have hwell₁ : (Storage.read k.store parent.backing Snapshot.blockSize
        parent.state.dataLength.toNat).2.store.WellFormed :=
      (VolumeBacked.read k.store parent.backing Snapshot.blockSize _).volume hwell
        (hwell.changes (Volume.changes_read _ _ _ _))
    split at hs
    · cases hs
      exact .of_undone hslot rfl hread
    · have hremoves₁ : (Storage.read k.store parent.backing Snapshot.blockSize
          parent.state.dataLength.toNat).2.Removes := by
        rw [Faulty.Removes, hread.refuses]
        exact hremoves
      rcases hm : ({ k with store := (Storage.read k.store parent.backing Snapshot.blockSize
          parent.state.dataLength.toNat).2 } : Kernel (Faulty Volume)).makeBacking pid
          (parent.state.setReg Reg.result 0) (Storage.read k.store parent.backing Snapshot.blockSize
          parent.state.dataLength.toNat).1 with ⟨e' | backing, k₂⟩
      · simp only [hm] at hs
        cases hs
        obtain ⟨hrest, hundone⟩ := makeBacking_undone hremoves₁ hwell₁ hm
        refine .of_undone hslot ?_ (trans_of (Undone _) hread hundone)
        rw [hrest]
      · simp only [hm] at hs
        cases hs

end Kernel

end CoopKernel
