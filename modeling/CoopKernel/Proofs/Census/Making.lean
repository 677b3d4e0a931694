import CoopKernel.Proofs.Census.Basic
import CoopKernel.Proofs.Storage.Kept

/-!
# How the making of a process comes out

A process is made by spawning or by doubling another one. Either way, where there is a slot for it, it gets
that slot and a backing file that begins with the block of the state it is to start in, and the log tells of it;
or it is not made, and neither the table nor the log tells that somebody tried.
-/

namespace CoopKernel

variable {σ : Type} [Storage σ] [VolumeBacked σ]

/-- The file behind a handle begins with a block. -/
def BeginsWith (s : σ) (h : Handle) (block : Bytes) : Prop :=
  ∃ content, (VolumeBacked.volume s).behind? h = some content ∧ content.slice 0 block.size = block

namespace BeginsWith

variable {s s' : σ} {h : Handle} {state : Snapshot}

/-- A file begins with the block that was saved to it. -/
theorem of_save (hfile : ((VolumeBacked.volume s).behind? h).isSome) (hs : state.save s h = (true, s')) :
    BeginsWith s' h state.toBlock := by
  obtain ⟨content, hcontent⟩ := Option.isSome_iff_exists.mp hfile
  obtain ⟨hroom, hbehind⟩ := VolumeBacked.behind?_of_save hcontent hs
  exact ⟨_, hbehind, Bytes.slice_overwrite content 0 state.toBlock hroom⟩

/-- Writing behind the block leaves it there. -/
theorem write (hb : BeginsWith s h state.toBlock) (bytes : Bytes) :
    BeginsWith (Storage.write s h Snapshot.blockSize bytes).2 h state.toBlock := by
  obtain ⟨content, hcontent, hslice⟩ := hb
  rcases VolumeBacked.write s h Snapshot.blockSize bytes with ⟨-, hvolume⟩ | ⟨-, hvolume⟩
  · have hbehind : 0 + state.toBlock.size ≤ Snapshot.blockSize := by
      rw [Snapshot.size_toBlock]
      exact Nat.le_of_eq (Nat.zero_add _)
    refine ⟨content.overwrite Snapshot.blockSize bytes.toList, ?_, ?_⟩
    · rw [hvolume]
      exact (Volume.write_behind hcontent Snapshot.blockSize bytes).2
    · rw [Bytes.slice_overwrite_of_le content bytes.toList hbehind, hslice]
  · refine ⟨content, ?_, hslice⟩
    rw [hvolume]
    exact hcontent

end BeginsWith

namespace Kernel

/-- Making a backing file concerns the storage alone, and where it is made it begins with the block of the
state. -/
theorem makeBacking_outcome (k : Kernel σ) (pid : Pid) (state : Snapshot) (data : Bytes) :
    ∃ s, (k.makeBacking pid state data).2 = { k with store := s } ∧
      match (k.makeBacking pid state data).1 with
      | .error e => e = .storage
      | .ok h => BeginsWith s h state.toBlock := by
  unfold makeBacking
  rcases hc : Storage.create k.store (k.backingPath pid) (Snapshot.blockSize + data.size) with ⟨_ | _, s₁⟩
  · simp only [hc]
    exact ⟨s₁, rfl, rfl⟩
  · rcases ho : Storage.openPath s₁ (k.backingPath pid) with ⟨_ | h, s₂⟩
    · simp only [hc, ho]
      exact ⟨_, rfl, rfl⟩
    · have hfile : ((VolumeBacked.volume s₂).behind? h).isSome := by
        rw [VolumeBacked.openPath_behind ho, if_pos rfl]
        exact VolumeBacked.create_content hc
      rcases hs : state.save s₂ h with ⟨_ | _, s₃⟩
      · simp only [hc, ho, hs]
        exact ⟨_, rfl, rfl⟩
      · have hblock := (BeginsWith.of_save hfile hs).write data
        rcases hw : Storage.write s₃ h Snapshot.blockSize data with ⟨count, s₄⟩
        rw [hw] at hblock
        simp only [hc, ho, hs, hw]
        cases decide (count = data.size)
        · exact ⟨_, rfl, rfl⟩
        · exact ⟨_, rfl, hblock⟩

/-- How the making of a process comes out that is to start in a state: there is no slot for it; there is one,
but it is not made; or it gets the slot. -/
inductive Making (k : Kernel σ) (birth : Pid → Event) (state : Snapshot) :
    Except SpawnError Pid × Kernel σ → Prop
  | full (hslot : k.table.firstFree? = none) : Making k birth state (.error .tableFull, k)
  | failed (s : σ) {pid : Pid} {e : SpawnError} (hslot : k.table.firstFree? = some pid) (he : e ≠ .tableFull) :
      Making k birth state (.error e, { k with store := s })
  | made (s : σ) {pid : Pid} (program backing : Handle) (hslot : k.table.firstFree? = some pid)
      (hblock : BeginsWith s backing state.toBlock) : Making k birth state
      (.ok pid, (({ k with store := s } : Kernel σ).onTable (·.occupy pid program backing)).note (birth pid))

theorem spawn_making (k : Kernel σ) {program : String} (h : Path.accepts program) :
    k.Making (.spawned · (Path.ofText program)) (k.initialState (Path.ofText program)) (k.spawn program) := by
  unfold spawn
  rw [h]
  simp only [Bool.not_true, Bool.false_eq_true, if_false]
  cases hslot : k.table.firstFree? with
  | none => exact .full hslot
  | some pid =>
    dsimp only
    split
    · exact .failed k.store hslot nofun
    · rcases Storage.openPath k.store (Path.ofText program) with ⟨_ | handle, s⟩
      · exact .failed s hslot nofun
      · obtain ⟨s', hstore, hout⟩ := makeBacking_outcome { k with store := s } pid
          (k.initialState (Path.ofText program)) #[]
        dsimp only
        rcases hm : ({ k with store := s } : Kernel σ).makeBacking pid
          (k.initialState (Path.ofText program)) #[] with ⟨e | backing, k₂⟩
        · rw [hm] at hstore hout
          cases hstore
          cases hout
          exact .failed _ hslot nofun
        · rw [hm] at hstore hout
          cases hstore
          exact .made s' handle backing hslot hout

theorem fork_making (k : Kernel σ) (parent : Loaded) :
    k.Making (.forked parent.pid) (parent.state.setReg Reg.result 0) (k.fork parent) := by
  unfold fork
  cases hslot : k.table.firstFree? with
  | none => exact .full hslot
  | some pid =>
    rcases hr : Storage.read k.store parent.backing Snapshot.blockSize parent.state.dataLength.toNat with
      ⟨data, s⟩
    simp only [hr]
    split
    · exact .failed s hslot nofun
    · obtain ⟨s', hstore, hout⟩ := makeBacking_outcome { k with store := s } pid
        (parent.state.setReg Reg.result 0) data
      rcases hm : ({ k with store := s } : Kernel σ).makeBacking pid (parent.state.setReg Reg.result 0) data
        with ⟨e | backing, k₂⟩
      · rw [hm] at hstore hout
        cases hstore
        cases hout
        exact .failed _ hslot nofun
      · rw [hm] at hstore hout
        cases hstore
        exact .made s' parent.program backing hslot hout

/-- A process is made with the number that is next, and the log tells of it, unless it is not made; it is not
made for want of a number exactly if there was a first process and all numbers but zero are in use. Nothing is
changed that is known of those who are alive. -/
structure MakesInOrder (k : Kernel σ) (birth : Pid → Event) (state : Snapshot)
    (made : Except SpawnError Pid × Kernel σ) : Prop where
  full : made.1 = .error .tableFull ↔ ¬NobodyBorn k.log.toList ∧ ∀ pid, pid ≠ 0 → k.table.isLive pid
  next : ∀ pid, made.1 = .ok pid → (pid.IsNext (NobodyBorn k.log.toList) fun q => k.table.isLive q) ∧
    Logs k [birth pid] made.2 ∧ ∃ p, made.2.table.process? pid = some p ∧
      BeginsWith made.2.store p.backing state.toBlock
  others : ∀ {pid p}, k.table.process? pid = some p → made.2.table.process? pid = some p

namespace Making

variable {k k' : Kernel σ} {birth : Pid → Event} {state : Snapshot} {result : Except SpawnError Pid}

theorem accounts (hbirth : ∀ pid, (birth pid).birth? = some pid) (h : k.Making birth state (result, k')) :
    Accounts k k' := by
  cases h with
  | full => exact refl_of Accounts k
  | failed s => exact .of_eq rfl rfl
  | made s program backing hslot =>
    have hsame : Accounts k { k with store := s } := .of_eq rfl rfl
    exact trans_of Accounts hsame (accounts_occupy (k := { k with store := s }) hslot program backing (hbirth _))

/-- The record of nobody who is alive changes. -/
theorem process? (h : k.Making birth state (result, k')) {q : Pid} {p : Process}
    (hp : k.table.process? q = some p) : k'.table.process? q = some p := by
  cases h with
  | full | failed => exact hp
  | made s program backing hslot =>
    refine (Table.process?_occupy_of_ne ?_).trans hp
    rintro rfl
    rw [Table.process?_of_firstFree? hslot] at hp
    cases hp

/-- What is made is made in order where all processes are accounted for. -/
theorem inOrder (h : k.Making birth state (result, k')) (hk : k.Accounted) :
    k.MakesInOrder birth state (result, k') where
  full := by
    rw [← hk.firstFree?_none_iff]
    cases h with
    | full hslot => exact iff_of_true rfl hslot
    | failed _ hslot he =>
      refine iff_of_false (fun h => he (Except.error.inj h)) ?_
      rw [hslot]
      exact nofun
    | made _ _ _ hslot =>
      refine iff_of_false nofun ?_
      rw [hslot]
      exact nofun
  next := by
    rintro pid ⟨⟩
    cases h with
    | made _ program backing hslot hblock =>
      exact ⟨hk.firstFree?_iff.mp hslot, logs_note _ _, { program, backing }, Table.process?_occupy_self, hblock⟩
  others hp := h.process? hp

end Making

end Kernel

end CoopKernel
