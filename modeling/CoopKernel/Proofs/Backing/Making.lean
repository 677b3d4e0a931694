import CoopKernel.Proofs.Backing.Ending

/-!
# Backing files when processes are made

A process that is made gets a file at a path that nobody else is kept at, and the file is proper as soon as
the process has its slot. Where that fails, no other file has changed.
-/

namespace CoopKernel

open Volume (OnlyAt Spares)

theorem Environment.compact_of_zero {env : Environment} (h : env.argOffsets = Vector.replicate 4 0) :
    env.Compact := by
  intro n offset hoffset
  rw [h, Vector.getElem?_replicate] at hoffset
  split at hoffset
  · cases hoffset
    decide
  · cases hoffset

namespace Sound

variable {D : Demands} {k : Kernel Volume} {pid : Pid}

/-- Everybody's file is open. -/
theorem backing_open (h : Sound D k) (hD : D.Total) {p : Process}
    (hp : k.table.process? pid = some p) : (k.store.pathOf? p.backing).isSome := by
  obtain ⟨P, hP⟩ := hD pid
  rw [(h.kept hp hP).path]
  rfl

/-- Something happens at the path for the file of a process that is not there. -/
theorem onlyAt_absent (h : Sound D k) (hfree : k.table.process? pid = none) {s : Volume}
    (hs : OnlyAt (k.backingPath pid) k.store s) : Sound D { k with store := s } := by
  refine h.onlyAt hs fun {q p P} hp _ he => ?_
  rw [Kernel.backingPath_inj he, hfree] at hp
  cases hp

/-- What has just been opened can be closed. -/
theorem closed_fresh (h : Sound D k) {g : Handle} {s : Volume}
    (hfree : s.pathOf? g = none)
    (hopen : ∀ {q p}, k.table.process? q = some p → (s.pathOf? p.backing).isSome) :
    Sound D { k with store := k.store.close g } := by
  refine h.closed fun {q p P} hp _ he => ?_
  have hsome := hopen hp
  rw [← he, hfree] at hsome
  cases hsome

end Sound

/-- What is put into a new backing file: zeros, into which a block and the data region are written. -/
def newContent (state : Snapshot) (data : Bytes) : Bytes :=
  (Bytes.overwrite (Array.replicate (Snapshot.blockSize + data.size) 0) 0 state.toBlock.toList).overwrite
    Snapshot.blockSize data.toList

section NewContent

variable {state : Snapshot} {data : Bytes}

@[simp]
theorem size_newContent : (newContent state data).size = Snapshot.blockSize + data.size := by
  rw [newContent, Bytes.size_overwrite, Bytes.size_overwrite, Array.size_replicate]

theorem slice_newContent : (newContent state data).slice 0 Snapshot.blockSize = state.toBlock := by
  rw [newContent, Bytes.slice_overwrite_of_le _ _ (Nat.le_of_eq (Nat.zero_add _))]
  refine Kernel.slice_overwrite_toBlock ?_ state
  rw [Array.size_replicate]
  exact Nat.le_add_right _ _

theorem data_newContent {i : Nat} (hi : i < data.size) :
    (newContent state data)[Snapshot.blockSize + i]? = data[i]? := by
  rw [newContent, Bytes.getElem?_overwrite, if_pos, Nat.add_sub_cancel_left, Array.getElem?_toList]
  rw [Bytes.size_overwrite, Array.size_replicate, Array.length_toList]
  omega

/-- A new file is proper. -/
theorem proper_newContent (hlength : data.size = state.dataLength.toNat)
    (hargs : state.env.argCount.toNat ≤ maxArguments) (hcompact : state.env.Compact) :
    Proper (newContent state data) := by
  have hsize : (Array.replicate (Snapshot.blockSize + data.size) (0 : UInt8)).size =
      Snapshot.blockSize + state.dataLength.toNat := by
    rw [Array.size_replicate, hlength]
  obtain ⟨s, hs, hfits, henv⟩ := proper_overwrite hsize hargs hcompact
  refine ⟨s, ?_, ?_, henv⟩
  · rw [newContent, Bytes.slice_overwrite_of_le _ _ (Nat.le_of_eq (Nat.zero_add _))]
    exact hs
  · rw [newContent, Bytes.size_overwrite]
    exact hfits

/-- Both the block and the data have room in a new file, and no other file changes when they are put there. -/
theorem Volume.filled {v : Volume} {g : Handle} {p : Path} (hpath : v.pathOf? g = some p)
    (hbehind : v.behind? g = some (Array.replicate (Snapshot.blockSize + data.size) 0)) :
    state.save v g = (true, (v.write g 0 state.toBlock).2) ∧
      (Storage.write (v.write g 0 state.toBlock).2 g Snapshot.blockSize data).1 = data.size ∧
      OnlyAt p v ((v.write g 0 state.toBlock).2.write g Snapshot.blockSize data).2 ∧
      ((v.write g 0 state.toBlock).2.write g Snapshot.blockSize data).2.behind? g =
        some (newContent state data) := by
  obtain ⟨hroom, hblock⟩ := Volume.write_behind hbehind 0 state.toBlock
  obtain ⟨hroom', hdata⟩ := Volume.write_behind hblock Snapshot.blockSize data
  have honly := Volume.write_onlyAt hpath 0 state.toBlock
  have honly' := Volume.write_onlyAt ((honly.pathOf? g).trans hpath) Snapshot.blockSize data
  refine ⟨Prod.ext ?_ rfl, hroom'.trans ?_, trans_of (OnlyAt p) honly honly', hdata⟩
  · have hcount : (Storage.write v g 0 state.toBlock).1 = _ := hroom
    simp only [Snapshot.save, hcount, Bytes.room, Snapshot.size_toBlock, Array.size_replicate]
    exact decide_eq_true (by omega)
  · rw [Bytes.room, Bytes.size_overwrite, Array.size_replicate]
    omega

end NewContent

/-- A new backing file is open under the path that it was made at, and holds the block and the data. -/
theorem Kernel.makeBacking_ok {k k' : Kernel Volume} {pid : Pid} {state : Snapshot} {data : Bytes} {g : Handle}
    (hm : k.makeBacking pid state data = (.ok g, k')) :
    k' = { k with store := k'.store } ∧ k'.store.pathOf? g = some (k.backingPath pid) ∧
      k'.store.behind? g = some (newContent state data) := by
  unfold Kernel.makeBacking at hm
  rcases hc : Storage.create k.store (k.backingPath pid) (Snapshot.blockSize + data.size) with ⟨_ | _, s₁⟩
  · simp only [hc] at hm
    cases hm
  · rcases ho : Storage.openPath s₁ (k.backingPath pid) with ⟨_ | h, s₂⟩
    · simp only [hc, ho] at hm
      cases hm
    · have hs₁ : (k.store.create (k.backingPath pid) (Snapshot.blockSize + data.size)).2 = s₁ :=
        congrArg Prod.snd hc
      have hfile : s₁.content? (k.backingPath pid) = some (Array.replicate (Snapshot.blockSize + data.size) 0) :=
        hs₁ ▸ Volume.content?_create (congrArg Prod.fst hc)
      have hpath : s₂.pathOf? h = some (k.backingPath pid) :=
        ((VolumeBacked.openPath_some ho).2.2 h).trans (if_pos rfl)
      have hbehind : s₂.behind? h = some (Array.replicate (Snapshot.blockSize + data.size) 0) :=
        ((VolumeBacked.openPath_behind ho h).trans (if_pos rfl)).trans hfile
      obtain ⟨hsaved, hwritten, honly, hfilled⟩ := @Volume.filled state data _ _ _ hpath hbehind
      simp only [hc, ho, hsaved, hwritten, decide_true] at hm
      cases hm
      exact ⟨rfl, (honly.pathOf? g).trans hpath, hfilled⟩

namespace Sound

variable {D : Demands} {k : Kernel Volume} {pid : Pid}

/-- The backing file of a process that is to be is made and proper, or nothing has changed for anybody. -/
theorem makeBacking {k' : Kernel Volume} (h : Sound D k) (hD : D.Total)
    (hfree : k.table.process? pid = none) {state : Snapshot} {data : Bytes}
    (hlength : data.size = state.dataLength.toNat) (hargs : state.env.argCount.toNat ≤ maxArguments)
    (hcompact : state.env.Compact) {made : Except SpawnError Handle}
    (hm : k.makeBacking pid state data = (made, k')) :
    Sound D k' ∧ k'.table = k.table ∧
      ∀ backing, made = .ok backing → ∀ program, k'.Kept Proper pid { program, backing } := by
  have honly := k.store.create_onlyAt (k.backingPath pid) (Snapshot.blockSize + data.size)
  have h₁ := h.onlyAt_absent hfree honly
  unfold Kernel.makeBacking at hm
  rcases hc : Storage.create k.store (k.backingPath pid) (Snapshot.blockSize + data.size) with
    ⟨created, s₁⟩
  have hs₁ : (k.store.create (k.backingPath pid) (Snapshot.blockSize + data.size)).2 = s₁ :=
    congrArg Prod.snd hc
  rw [hs₁] at h₁ honly
  simp only [hc] at hm
  cases created with
  | false =>
    cases hm
    exact ⟨h₁, rfl, nofun⟩
  | true =>
    have hfile : s₁.content? (k.backingPath pid) =
        some (Array.replicate (Snapshot.blockSize + data.size) 0) :=
      hs₁ ▸ Volume.content?_create (congrArg Prod.fst hc)
    have h₂ := h₁.opened (k.backingPath pid) fun hp => h₁.backing_open hD hp
    rcases ho : Storage.openPath s₁ (k.backingPath pid) with ⟨_ | g, s₂⟩
    · have hs₂ : (s₁.openPath (k.backingPath pid)).2 = s₂ := congrArg Prod.snd ho
      rw [hs₂] at h₂
      simp only [ho] at hm
      cases hm
      exact ⟨h₂.deleted (k.backingPath pid), rfl, nofun⟩
    · have hs₂ : (s₁.openPath (k.backingPath pid)).2 = s₂ := congrArg Prod.snd ho
      rw [hs₂] at h₂
      have hpath : s₂.pathOf? g = some (k.backingPath pid) := by
        have hopened := (VolumeBacked.openPath_some ho).2.2 g
        rw [if_pos rfl] at hopened
        exact hopened
      have hbehind : s₂.behind? g = some (Array.replicate (Snapshot.blockSize + data.size) 0) := by
        have hopened := VolumeBacked.openPath_behind ho g
        rw [if_pos rfl] at hopened
        exact hopened.trans hfile
      obtain ⟨hsaved, hwritten, honly₂, hfilled⟩ := @Volume.filled state data _ _ _ hpath hbehind
      have h₄ : Sound D { k with store :=
          ((s₂.write g 0 state.toBlock).2.write g Snapshot.blockSize data).2 } :=
        h₂.onlyAt_absent hfree honly₂
      simp only [ho, hsaved, hwritten, decide_true] at hm
      cases hm
      refine ⟨h₄, rfl, fun backing he program => ?_⟩
      cases he
      have hpath' := (honly₂.pathOf? g).trans hpath
      refine ⟨hpath', _, ?_, proper_newContent hlength hargs hcompact⟩
      rw [Volume.behind?, hpath', Option.bind_some] at hfilled
      exact hfilled

/-- A process is spawned. -/
theorem spawn (h : Sound D k) (hD : D.Total)
    (hnew : ∀ {q}, k.table.process? q = none → D q = some Proper) (program : String) :
    Sound D (k.spawn program).2 := by
  unfold Kernel.spawn
  split
  · exact h
  · cases hslot : k.table.firstFree? with
    | none => exact h
    | some pid =>
      have hfree := Table.process?_of_firstFree? hslot
      dsimp only
      split
      · exact h
      · have h₁ := h.opened (Path.ofText program) fun hp => h.backing_open hD hp
        rcases ho : Storage.openPath k.store (Path.ofText program) with ⟨_ | g, s⟩
        · have hs : (k.store.openPath (Path.ofText program)).2 = s := congrArg Prod.snd ho
          rw [hs] at h₁
          exact h₁
        · have hs : (k.store.openPath (Path.ofText program)).2 = s := congrArg Prod.snd ho
          rw [hs] at h₁
          have hcompact : (k.initialState (Path.ofText program)).env.Compact :=
            Environment.compact_of_zero rfl
          have hone : (1 : UInt8).toNat ≤ maxArguments := by decide
          have hargs : (k.initialState (Path.ofText program)).env.argCount.toNat ≤ maxArguments := hone
          dsimp only
          rcases hm : ({ k with store := s } : Kernel Volume).makeBacking pid
            (k.initialState (Path.ofText program)) #[] with ⟨_ | backing, k₂⟩
          · obtain ⟨h₂, htable, -⟩ := h₁.makeBacking hD hfree rfl hargs hcompact hm
            exact h₂.closed_fresh (VolumeBacked.openPath_some ho).2.1 fun hp =>
              h.backing_open hD (htable ▸ hp)
          · obtain ⟨h₂, -, hkept⟩ := h₁.makeBacking hD hfree rfl hargs hcompact hm
            have hnoted : Sound D ((k₂.onTable (·.occupy pid g backing)).note
                (.spawned pid (Path.ofText program))) :=
              (h₂.occupied (hkept backing rfl g) (hnew hfree)).note fun _ => nofun
            exact hnoted

/-- A process is doubled. -/
theorem fork (h : Sound D k) (hD : D.Total)
    (hnew : ∀ {q}, k.table.process? q = none → D q = some Proper) {parent : Loaded}
    (hparent : parent.state.env.Neat) : Sound D (k.fork parent).2 := by
  unfold Kernel.fork
  cases hslot : k.table.firstFree? with
  | none => exact h
  | some pid =>
    have hfree := Table.process?_of_firstFree? hslot
    have h₁ := h.read parent.backing Snapshot.blockSize parent.state.dataLength.toNat
    rcases hr : Storage.read k.store parent.backing Snapshot.blockSize
      parent.state.dataLength.toNat with ⟨data, s⟩
    have hs : (k.store.read parent.backing Snapshot.blockSize parent.state.dataLength.toNat).2 = s :=
      congrArg Prod.snd hr
    rw [hs] at h₁
    dsimp only
    simp only [hr]
    split
    · exact h₁
    · next hlength =>
      have hsize : data.size = (parent.state.setReg Reg.result 0).dataLength.toNat := not_not.mp hlength
      rcases hm : ({ k with store := s } : Kernel Volume).makeBacking pid
        (parent.state.setReg Reg.result 0) data with ⟨_ | backing, k₂⟩
      · exact (h₁.makeBacking hD hfree hsize hparent.args hparent.compact hm).1
      · obtain ⟨h₂, -, hkept⟩ := h₁.makeBacking hD hfree hsize hparent.args hparent.compact hm
        have hnoted : Sound D ((k₂.onTable (·.occupy pid parent.program backing)).note
            (.forked parent.pid pid)) :=
          (h₂.occupied (hkept backing rfl parent.program) (hnew hfree)).note fun _ => nofun
        exact hnoted

end Sound

end CoopKernel
