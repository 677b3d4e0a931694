import CoopKernel.Proofs.Custody.Run
import CoopKernel.Proofs.Waiting.Passage

/-!
# Waits while a process takes a step

Whatever a process does in a step, its system calls included, the kernel is orderly again afterwards and
waits ended only as they may. Up to the system call the step is plain and changes no files, so that a
handler that a signal finds was registered when the step began.
-/

namespace CoopKernel

variable {σ : Type} [Storage σ] [VolumeBacked σ] {l : Ledger}

/-! ## Signals -/

namespace Turn

/-- Work that tries to send a process into its handler for a signal, and does nothing else. -/
structure Signals (signal : Signal) (act : Attempt σ Bool) : Prop where
  inward : Inward act
  ok : ∀ {t t' : Turn σ} {p : Process} {handled : Bool},
    t.kernel.table.process? t.self.pid = some p → act t = .ok handled t' →
      handled = false ∧ t' = t ∨ handled = true ∧ Handles signal t p t'

omit [VolumeBacked σ] in
theorem deliver_signals (signal : Signal) : Signals signal (deliver signal : Attempt σ Bool) :=
  ⟨deliver_inward signal, deliver_ok⟩

omit [VolumeBacked σ] in
theorem lastWords_signals : Signals .suicide (lastWords : Attempt σ Bool) :=
  ⟨lastWords_inward, lastWords_ok⟩

end Turn

namespace Kernel

variable {k : Kernel σ}

/-- A process that is loaded, sent into its handler and saved is active, and kept as it was sent there. -/
theorem handles_saved {signal : Signal} {target : Pid} {p : Process} {self : Loaded}
    {k₁ k₂ : Kernel σ} {t : Turn σ} (c : Custody l k) (hp : k.table.process? target = some p)
    (hl : k.load target = (.ok self, k₁)) (hh : Turn.Handles signal ⟨k₁, self⟩ p t)
    (ct : Custody l t.kernel) (hs : t.kernel.save t.self = (true, k₂)) :
    k.kept? p.backing = some self.state ∧ k₂.table.process? target = some { p with status := .active } ∧
      k₂.kept? p.backing = some t.self.state.stored ∧
      Logs k [.signalled target signal (self.state.handler signal)] k₂ := by
  obtain ⟨content, hcontent⟩ := Option.isSome_iff_exists.mp (c.backing_file hp)
  obtain ⟨hkept, hargs⟩ := VolumeBacked.kept?_of_load hcontent (load_state hl hp)
  obtain ⟨p₀, hp₀, hself⟩ := load_ok hl
  rw [hp] at hp₀
  cases hp₀
  have hpid : self.pid = target := by rw [hself]
  have hbacking : t.self.backing = p.backing := by
    rw [hh.backing]
    dsimp only
    rw [hself]
  have hrest := (load_quiet k target).rest
  rw [hl] at hrest
  dsimp only at hrest
  have hp' : t.kernel.table.process? target = some { p with status := .active } := by
    rw [hh.table, hrest]
    dsimp only
    rw [hpid]
    exact Table.process?_modify_self hp
  obtain ⟨content', hcontent'⟩ := Option.isSome_iff_exists.mp (ct.backing_file hp')
  rcases hsave : t.self.state.save t.kernel.store t.self.backing with ⟨done, s⟩
  simp only [save, hsave] at hs
  obtain ⟨rfl, rfl⟩ := Prod.mk.inj hs
  rw [hbacking] at hsave
  refine ⟨hkept, hp', VolumeBacked.kept?_of_save hcontent' (by rw [hh.env]; exact hargs) hsave, ?_⟩
  rw [Logs, hh.log, Array.toList_push]
  dsimp only
  rw [hrest, hpid]

/-- It was interrupted if it waited. -/
theorem interrupted_by {signal : Signal} {target : Pid} {p : Process} {self : Loaded}
    {k₁ k₂ : Kernel σ} {t : Turn σ} (c : Custody l k) (hp : k.table.process? target = some p)
    (hl : k.load target = (.ok self, k₁)) (hh : Turn.Handles signal ⟨k₁, self⟩ p t)
    (ct : Custody l t.kernel) (hs : t.kernel.save t.self = (true, k₂)) {waited : Pid}
    {deadline : Option UInt32} (ha : p.status = .waitingForExit waited deadline) :
    WaitFate k k₂ target waited deadline := by
  obtain ⟨hkept, hp', hkept', hlogs⟩ := handles_saved c hp hl hh ct hs
  refine .interrupted signal p _ self.state t.self.state.stored _ hp hkept hh.handler hlogs
    (List.mem_singleton_self _) hp' rfl hkept' ?_ ?_
  · have hresult := hh.result
    rw [ha] at hresult
    rw [Snapshot.stored_reg, hresult]
    exact Snapshot.reg_setReg_self _ _ _
  · rw [Snapshot.stored_reg]
    exact hh.ip

/-- Signalling a process interrupts its wait, kills it or does nothing. -/
theorem withLoaded_passage {signal : Signal} {target : Pid} {act : Attempt σ Bool}
    (c : Custody l k) (ho : k.Orderly) (hact : Turn.Signals signal act) :
    Passage k (k.withLoaded Kernel.fault target act).2 ∧
      ((k.withLoaded Kernel.fault target act).1 = some false →
        Calm k (k.withLoaded Kernel.fault target act).2) := by
  have hcalm := (load_quiet k target).calm
  have c₁ := c.quiet (load_quiet k target)
  unfold withLoaded
  rcases hl : k.load target with ⟨f | self, k₁⟩
  · rw [hl] at hcalm c₁
    exact ⟨.of_calm_fallout ho hcalm (fault_fallout c₁ target f).1, nofun⟩
  · rw [hl] at hcalm c₁
    obtain ⟨p, hp, hself⟩ := load_ok hl
    have hpid : self.pid = target := by rw [hself]
    have hp₁ : k₁.table.process? self.pid = some p := by
      have hrest := (load_quiet k target).rest
      rw [hl] at hrest
      dsimp only at hrest
      rw [hrest, hpid]
      exact hp
    have hrouses := rouses_inward hact.inward (t := ⟨k₁, self⟩) (hcalm.rouses self.pid)
    have ct : Custody l (after act ⟨k₁, self⟩).kernel :=
      hact.inward.kernel (P := Custody l) (fun _ _ hq c => c.quiet hq) (fun _ e _ c => c.note e)
        (fun _ c => c.setStatus target .active) hpid c₁
    dsimp only at hrouses
    rw [hpid] at hrouses
    -- A process that is killed on the way has forgotten its wait, but nobody else has.
    have hkilled : ∀ {k₂ : Kernel σ} (f : Fault), Custody l k₂ → Rouses target k k₂ →
        Passage k (k₂.fault target f) := by
      intro k₂ f c₂ h₂
      obtain ⟨hfallout, hdead⟩ := fault_fallout c₂ target f
      refine .of_fallout (h₂.orderly ho) h₂.log hfallout fun pid hlive => h₂.others pid ?_
      rintro rfl
      exact hdead hlive
    dsimp only
    cases ha : act ⟨k₁, self⟩ with
    | error f t =>
      rw [after_error ha] at hrouses ct
      exact ⟨hkilled f ct hrouses, nofun⟩
    | ok handled t =>
      rw [after_ok ha] at hrouses ct
      have hsave := save_quiet t.kernel t.self
      dsimp only
      rcases hs : t.kernel.save t.self with ⟨_ | _, k₂⟩
      · rw [hs] at hsave
        exact ⟨hkilled .storage (ct.quiet hsave) (hrouses.calm hsave.calm), nofun⟩
      · rw [hs] at hsave
        rcases hact.ok hp₁ ha with ⟨rfl, rfl⟩ | ⟨rfl, hh⟩
        · have hdone := trans_of Calm hcalm hsave.calm
          exact ⟨hdone.passage ho, fun _ => hdone⟩
        · have hall := hrouses.calm hsave.calm
          refine ⟨hall.concerns.passage ho (fun {waited deadline} hw => ?_) fun hw => ?_, nofun⟩
          · obtain ⟨p', hp', hstatus⟩ := hw
            rw [hp] at hp'
            cases hp'
            exact interrupted_by c hp hl hh ct hs hstatus
          · have hactive : k₂.status? target = some .active := by
              have hself := Table.process?_modify_self hp₁ (f := fun p => { p with status := .active })
              rw [hsave.calm.status, status?, hh.table, ← hpid, Table.setStatus, hself]
              rfl
            exact absurd hw (not_awaits_of_active hactive)

theorem sendSignal_passage (c : Custody l k) (ho : k.Orderly) (pid : Pid) (signal : Signal) :
    Passage k (k.sendSignal pid signal).2 := by
  unfold sendSignal
  split
  · exact (withLoaded_passage c ho (Turn.deliver_signals signal)).1
  · exact (refl_of Calm k).passage ho

theorem kill_passage (c : Custody l k) (ho : k.Orderly) (pid : Pid) (status : UInt16) :
    Passage k (k.kill pid status).2 :=
  .of_calm_fallout ho (refl_of Calm k) (kill_fallout c pid status).1

theorem fault_passage (c : Custody l k) (ho : k.Orderly) (pid : Pid) (f : Fault) :
    Passage k (k.fault pid f) :=
  .of_calm_fallout ho (refl_of Calm k) (fault_fallout c pid f).1

/-! ## Beginnings of waits -/

/-- A process that was active begins to wait. -/
theorem setStatus_passage (ho : k.Orderly) {pid : Pid} {status : Status} {e : Event}
    (hactive : k.status? pid = some .active) (hwait : ∀ q, q ≠ pid → e.isWaitOf q = false)
    (hlife : ∀ q, e.isLifeOf q = false)
    (hattends : ∀ {target deadline}, status = .waitingForExit target deadline →
      ((k.onTable (·.setStatus pid status)).note e).Attends pid target) :
    Passage k ((k.onTable (·.setStatus pid status)).note e) := by
  have hstatus : ∀ q, ((k.onTable (·.setStatus pid status)).note e).status? q =
      if pid = q then (k.status? q).map fun _ => status else k.status? q :=
    fun q => status?_setStatus k pid q status
  have hconcerns : Concerns pid k ((k.onTable (·.setStatus pid status)).note e) := by
    refine ⟨?_, ?_, [e], ?_, ?_⟩
    · intro q hq
      rw [hstatus, if_neg (Ne.symm hq)]
    · intro _
      rw [isLive_iff_status?, hstatus, if_pos rfl, hactive]
      rfl
    · exact logs_note (k.onTable (·.setStatus pid status)) e
    · intro e' he
      rw [List.mem_singleton.mp he]
      exact ⟨hwait, fun q _ => hlife q⟩
  refine hconcerns.passage ho (fun ha => absurd ha (not_awaits_of_active hactive)) fun ha => ?_
  rw [awaits_iff, hstatus, if_pos rfl, hactive] at ha
  exact hattends (Option.some.inj ha)

/-- A process begins to wait for the end of another one. -/
theorem waitForExit_passage (ho : k.Orderly) {pid target : Pid} (deadline : Option UInt32)
    (hactive : k.status? pid = some .active) (hne : target ≠ pid) (hl : k.table.isLive target) :
    Passage k ((k.onTable (·.setStatus pid (.waitingForExit target deadline))).note
      (.waitsForExit pid target)) := by
  refine setStatus_passage ho hactive (fun q hq => decide_eq_false hq.symm) (fun _ => rfl)
    fun hs => ?_
  cases hs
  refine ⟨hne, ?_, hasWaitedFor_note _ pid target⟩
  rw [isLive_iff_status?] at hl ⊢
  have hstatus := status?_setStatus k pid target (.waitingForExit target deadline)
  rw [if_neg (Ne.symm hne)] at hstatus
  rw [← hstatus] at hl
  exact hl

/-- A process begins to wait until it can read. -/
theorem waitToRead_passage (ho : k.Orderly) {pid : Pid} (handle : Handle)
    (hactive : k.status? pid = some .active) :
    Passage k ((k.onTable (·.setStatus pid (.waitingToRead handle))).note
      (.waitsToRead pid handle)) :=
  setStatus_passage ho hactive (fun _ _ => rfl) (fun _ => rfl) nofun

/-! ## Beginnings of processes -/

omit [VolumeBacked σ] in
theorem makeBacking_calm (k : Kernel σ) (pid : Pid) (state : Snapshot) (data : Bytes) :
    Calm k (k.makeBacking pid state data).2 := by
  unfold makeBacking
  dsimp only
  split
  · exact .of_same rfl rfl
  · split
    · exact .of_same rfl rfl
    · split <;> split <;> exact .of_same rfl rfl

omit [Storage σ] [VolumeBacked σ] in
/-- Nobody waits for a slot that is free, so that nobody mistakes a new process for another. -/
theorem occupy_passage [Storage σ] [VolumeBacked σ] {k₁ : Kernel σ} (ho : k.Orderly)
    (hc : Calm k k₁) {pid : Pid} (hfree : k.table.process? pid = none) (program backing : Handle)
    {e : Event} (hwait : ∀ q, e.isWaitOf q = false) (hlife : ∀ q, q ≠ pid → e.isLifeOf q = false) :
    Passage k ((k₁.onTable (·.occupy pid program backing)).note e) := by
  have hnotlive : ∀ q, k.table.isLive q → q ≠ pid := by
    rintro q hl rfl
    rw [Table.isLive, hfree] at hl
    cases hl
  have hstatus : ((k₁.onTable (·.occupy pid program backing)).note e).status? pid =
      some .active := by
    have hoccupied := status?_occupy k₁ pid pid program backing
    rw [if_pos rfl] at hoccupied
    exact hoccupied
  obtain ⟨es, hes, hidle⟩ := hc.log
  have hconcerns : Concerns pid k ((k₁.onTable (·.occupy pid program backing)).note e) := by
    refine ⟨?_, fun hl => absurd rfl (hnotlive pid hl), es ++ [e], ?_, ?_⟩
    · intro q hq
      have hoccupied := status?_occupy k₁ pid q program backing
      rw [if_neg (Ne.symm hq), hc.status] at hoccupied
      exact hoccupied
    · exact hes.append (logs_note (k₁.onTable (·.occupy pid program backing)) e)
    · intro e' he
      rcases List.mem_append.mp he with he | he
      · exact ⟨fun q _ => e'.isWaitOf_of_isIdle (hidle e' he) q,
          fun q _ => e'.isLifeOf_of_isIdle (hidle e' he) q⟩
      · rw [List.mem_singleton.mp he]
        exact ⟨fun q _ => hwait q, fun q hl => hlife q (hnotlive q hl)⟩
  refine hconcerns.passage ho (fun ha => ?_) fun ha => absurd ha (not_awaits_of_active hstatus)
  obtain ⟨p, hp, _⟩ := ha
  rw [hfree] at hp
  cases hp

theorem spawn_passage (ho : k.Orderly) (program : String) : Passage k (k.spawn program).2 := by
  have hstay := (refl_of Calm k).passage ho
  unfold spawn
  split
  · exact hstay
  · cases hfree : k.table.firstFree? with
    | none => exact hstay
    | some pid =>
      dsimp only
      split
      · exact hstay
      · rcases ho' : Storage.openPath k.store (Path.ofText program) with ⟨_ | h, s⟩
        · have hopened : Calm k { k with store := s } := .of_same rfl rfl
          exact hopened.passage ho
        · have hopened : Calm k { k with store := s } := .of_same rfl rfl
          have hmade := trans_of Calm hopened (makeBacking_calm { k with store := s } pid
            (k.initialState (Path.ofText program)) #[])
          dsimp only
          rcases hm : ({ k with store := s } : Kernel σ).makeBacking pid
            (k.initialState (Path.ofText program)) #[] with ⟨_ | backing, k₂⟩
          · rw [hm] at hmade
            have hclosed : Calm k₂ { k₂ with store := Storage.close k₂.store h } := .of_same rfl rfl
            exact (trans_of Calm hmade hclosed).passage ho
          · rw [hm] at hmade
            exact occupy_passage ho hmade (Table.process?_of_firstFree? hfree) h backing
              (fun _ => rfl) fun q hq => decide_eq_false hq.symm

omit [VolumeBacked σ] in
/-- Doubling a process changes nobody, or it gives a free slot to the copy. -/
theorem fork_cases (k : Kernel σ) (parent : Loaded) : ∃ k₁, Calm k k₁ ∧
    ((∃ e, k.fork parent = (.error e, k₁)) ∨ ∃ pid backing, k.table.process? pid = none ∧
      k.fork parent = (.ok pid, (k₁.onTable (·.occupy pid parent.program backing)).note
        (.forked parent.pid pid))) := by
  unfold fork
  cases hfree : k.table.firstFree? with
  | none => exact ⟨k, refl_of Calm k, .inl ⟨_, rfl⟩⟩
  | some pid =>
    dsimp only
    rcases hr : Storage.read k.store parent.backing Snapshot.blockSize
      parent.state.dataLength.toNat with ⟨data, s⟩
    have hread : Calm k { k with store := s } := .of_same rfl rfl
    have hmade := trans_of Calm hread (makeBacking_calm { k with store := s } pid
      (parent.state.setReg Reg.result 0) data)
    dsimp only
    split
    · exact ⟨_, hread, .inl ⟨_, rfl⟩⟩
    · rcases hm : ({ k with store := s } : Kernel σ).makeBacking pid
        (parent.state.setReg Reg.result 0) data with ⟨_ | backing, k₂⟩
      · rw [hm] at hmade
        exact ⟨k₂, hmade, .inl ⟨_, rfl⟩⟩
      · rw [hm] at hmade
        exact ⟨k₂, hmade, .inr ⟨pid, backing, Table.process?_of_firstFree? hfree, rfl⟩⟩

end Kernel

/-! ## System calls -/

namespace Turn

omit [VolumeBacked σ]

/-- Everybody does what they did, and only idle events were logged. -/
def Calm (t t' : Turn σ) : Prop := Kernel.Calm t.kernel t'.kernel

instance : IsPreorder (Turn σ) Calm where
  refl t := refl_of Kernel.Calm t.kernel
  trans _ _ _ h₁ h₂ := trans_of Kernel.Calm h₁ h₂

variable {α ε : Type}

theorem Quiet.keeps_calm {act : EStateM ε (Turn σ) α} (h : Keeps Quiet act) : Keeps Calm act :=
  h.mono fun _ _ hq => hq.kernel.calm

theorem openProgram_calm (name : List UInt8) :
    Keeps Calm (openProgram name : Attempt σ (Option (Path × Handle))) := by
  unfold openProgram
  split
  · exact .pure _
  · dsimp only
    split
    · exact .pure _
    · refine .bind .get fun t => ?_
      split
      · exact .pure _
      · exact .bind (.modify fun _ => .of_same rfl rfl) fun _ => .pure _

theorem replaceProgram_calm (path : Path) (program : Handle) (args : List (List UInt8)) :
    Keeps Calm (replaceProgram path program args : Attempt σ Unit) := by
  have hprogram (t : Turn σ) (self : Loaded) : Kernel.Calm t.kernel
      ((t.kernel.onTable (·.setProgram self.pid program)).releaseProgram self.pid self.program) := by
    have htable : ((t.kernel.onTable (·.setProgram self.pid program)).releaseProgram self.pid
        self.program).table = t.kernel.table.setProgram self.pid program := by
      unfold Kernel.releaseProgram
      split <;> rfl
    refine ⟨?_, .same ?_⟩
    · intro pid
      rw [Kernel.status?, Kernel.status?, htable, Table.setProgram, Table.process?_modify]
      split
      · cases t.kernel.table.process? pid <;> rfl
      · rfl
    · unfold Kernel.releaseProgram
      split <;> rfl
  have hwrite (self : Loaded) (layout : Arguments) : Keeps Calm (do
      let count ← access (AddressSpace.writeFile self.backing Snapshot.blockSize
        layout.data.toArray)
      if count ≠ layout.data.length then throw .storage
      note (.executes self.pid path) : Attempt σ Unit) := by
    refine .bind (Quiet.keeps_calm (access_quiet (AddressSpace.writeFile_quiet _ _ _)))
      fun count => ?_
    have hnote : Keeps Calm (note (.executes self.pid path) : Attempt σ Unit) :=
      .modify fun t => Kernel.calm_note t.kernel rfl
    split
    · exact .throw_bind _ _
    · exact hnote
  unfold replaceProgram
  refine .bind .get fun t => .bind (.modify fun t' => hprogram t' t.self) fun _ => ?_
  refine .bind (.modify fun t' => refl_of Kernel.Calm t'.kernel) fun _ => ?_
  refine .bind (Quiet.keeps_calm (access_quiet (AddressSpace.resizeData_quiet _))) fun fits => ?_
  split
  · exact .throw_bind _ _
  · exact hwrite t.self _

theorem execCall_calm (args : CallArgs) : Keeps Calm (execCall args : InTurn σ Reply) := by
  unfold execCall
  refine .bind (Quiet.keeps_calm (lift_quiet (readText_quiet _))) fun name => ?_
  refine .bind (Quiet.keeps_calm (lift_quiet (readArguments_quiet _))) fun arguments => ?_
  refine .bind (.adaptExcept ?_ _) fun done => ?_
  · unfold exec
    refine .bind (openProgram_calm name) fun found => ?_
    cases found with
    | none => exact .pure _
    | some found =>
      exact .bind (replaceProgram_calm found.1 found.2 arguments) fun _ => .pure _
  · split
    · exact .throw_bind _ _
    · exact .pure _

theorem openCall_calm (address : UInt16) : Keeps Calm (openCall address : Attempt σ Reply) := by
  unfold openCall
  refine .bind (Quiet.keeps_calm (readPath_quiet address)) fun path => ?_
  split
  · exact .pure _
  · exact .bind (.modifyGet fun _ => .of_same rfl rfl) fun _ => .pure _

theorem closeCall_calm (h : Handle) : Keeps Calm (closeCall h : Attempt σ Reply) := by
  unfold closeCall
  refine .bind .get fun t => ?_
  dsimp only
  split
  · exact .bind (.modifyGet fun _ => .of_same rfl rfl) fun _ => .pure _
  · exact .pure _

end Turn

namespace InCustody

open Turn (Calm)

variable {t : Turn σ}

omit [VolumeBacked σ] in
theorem status?_self [VolumeBacked σ] (h : InCustody l t) :
    t.kernel.status? t.self.pid = some .active := by
  obtain ⟨p, hp, hactive, _⟩ := h.seated
  rw [Kernel.status?, hp, Option.map_some, hactive]

/-- What the process does to itself by a signal makes no difference to anybody, as it is active. -/
theorem calm_of_inward (h : InCustody l t) {α : Type} {act : Attempt σ α} (hact : Turn.Inward act) :
    Calm t (after act t) :=
  (Kernel.rouses_inward hact ((refl_of Kernel.Calm t.kernel).rouses t.self.pid)).calm_of_active
    h.status?_self

/-- Whatever the action does from the turn on, waits end as they may. -/
def Leads {ε α : Type} (t : Turn σ) (act : EStateM ε (Turn σ) α) : Prop :=
  Ensures (· = t) act (fun _ t' => Kernel.Passage t.kernel t'.kernel)
    fun _ t' => Kernel.Passage t.kernel t'.kernel

theorem leads_of_calm (ho : t.kernel.Orderly) {ε α : Type} {act : EStateM ε (Turn σ) α}
    (h : Keeps Calm act) : Leads t act := by
  have hkeeps : Ensures (Calm t) act (fun _ => Calm t) fun _ => Calm t :=
    .of_keeps h fun _ _ hc ht => trans_of Calm ht hc
  exact hkeeps.mono (fun _ he => he ▸ refl_of Calm t) (fun _ _ hc => hc.passage ho)
    fun _ _ hc => hc.passage ho

theorem exit_leads (h : InCustody l t) (ho : t.kernel.Orderly) (status : UInt16) :
    Leads t (Turn.exit status) := by
  rintro _ rfl
  exact Kernel.kill_passage h.custody ho _ status

/-- The process begins to wait for another one that is alive. -/
theorem waitPid_leads (h : InCustody l t) (ho : t.kernel.Orderly) (number timeout : UInt16) :
    Leads t (Turn.waitPid number timeout) := by
  have hstay : Leads t (pure (some waitNoProcess) : InTurn σ Reply) := leads_of_calm ho (.pure _)
  unfold Turn.waitPid
  refine .get_bind_eq fun _ he => ?_
  subst he
  dsimp only
  split
  · exact hstay
  · split
    · exact hstay
    · next target _ hfit =>
      rw [Bool.or_eq_true, not_or, decide_eq_true_eq, Bool.not_eq_true', Bool.not_eq_false] at hfit
      rintro _ rfl
      exact Kernel.waitForExit_passage ho _ h.status?_self hfit.1 hfit.2

/-- The process begins to wait until it can read, or reads. -/
theorem readCall_leads (h : InCustody l t) (ho : t.kernel.Orderly) (handle : Handle)
    (offset buffer length : UInt16) : Leads t (Turn.readCall handle offset buffer length) := by
  have hreceive : Keeps Calm (do
      let count ← (Turn.access (AddressSpace.receive handle offset.toNat buffer length.toNat) :
        Attempt σ Nat)
      return some (UInt16.ofNat count) : InTurn σ Reply) :=
    .bind (Turn.Quiet.keeps_calm (Turn.lift_quiet (Turn.access_quiet
      (AddressSpace.receive_quiet _ _ _ _)))) fun _ => .pure _
  have hask (question : σ → Bool) : Ensures (· = t)
      (monadLift (Turn.ask question : Attempt σ Bool) : InTurn σ Bool) (fun _ => (· = t))
      fun _ t' => Kernel.Passage t.kernel t'.kernel :=
    fun _ he => he
  unfold Turn.readCall
  refine .bind (hask _) fun gone => ?_
  split
  · exact leads_of_calm ho (.pure _)
  · refine .bind (hask _) fun ready => ?_
    split
    · rintro _ rfl
      exact Kernel.waitToRead_passage ho handle h.status?_self
    · exact leads_of_calm ho hreceive

/-- A signal that the process sends itself makes no difference to anybody. -/
theorem inward_ensures (h : InCustody l t) (ho : t.kernel.Orderly) {act : Attempt σ Bool}
    (hact : Turn.Inward act) :
    Ensures (· = t) (monadLift act : InTurn σ Bool)
      (fun handled t' => act t = .ok handled t' ∧ Calm t t')
      fun _ t' => Kernel.Passage t.kernel t'.kernel := by
  have hcalm := h.calm_of_inward hact
  have hensures : Ensures (· = t) act (fun handled t' => act t = .ok handled t' ∧ Calm t t')
      fun _ t' => Kernel.Passage t.kernel t'.kernel := by
    rintro _ rfl
    cases ha : act _ with
    | error f t₁ =>
      rw [after_error ha] at hcalm
      exact hcalm.passage ho
    | ok handled t₁ =>
      rw [after_ok ha] at hcalm
      exact ⟨rfl, hcalm⟩
  exact hensures.adaptExcept

/-- A process that kills itself has its last words. -/
theorem killSelf_leads (h : InCustody l t) (ho : t.kernel.Orderly) :
    Leads t (do
      if ← (Turn.lastWords : Attempt σ Bool) then return none
      let _ ← Turn.onKernel (·.kill t.self.pid exitKilled)
      throw .exited : InTurn σ Reply) := by
  obtain ⟨p, hp, _⟩ := h.seated
  refine .bind (h.inward_ensures ho Turn.lastWords_inward) fun handled => ?_
  rintro t' ⟨ha, hcalm⟩
  rcases Turn.lastWords_ok hp ha with ⟨rfl, rfl⟩ | ⟨rfl, _⟩
  · exact Kernel.kill_passage h.custody ho _ exitKilled
  · exact hcalm.passage ho

/-- Another process that is killed has its last words as well. -/
theorem killOther_leads (h : InCustody l t) (ho : t.kernel.Orderly) (target : Pid) :
    Leads t (do
      let handled ← Turn.onKernel fun k =>
        if k.table.isLive target then
          let (handled, k) := k.withLoaded Kernel.fault target Turn.lastWords
          (handled.getD true, k)
        else (false, k)
      if !handled then
        let _ ← Turn.onKernel (·.kill target exitKilled)
      return none : InTurn σ Reply) := by
  rintro t₀ rfl
  have hc : Custody l (t₀.kernel.withLoaded Kernel.fault target Turn.lastWords).2 :=
    h.custody.withLoaded Turn.lastWords_inward
  have hsignalled : t₀.kernel.Passage (t₀.kernel.withLoaded Kernel.fault target Turn.lastWords).2 ∧
      ((t₀.kernel.withLoaded Kernel.fault target Turn.lastWords).1 = some false →
        t₀.kernel.Calm (t₀.kernel.withLoaded Kernel.fault target Turn.lastWords).2) :=
    Kernel.withLoaded_passage h.custody ho Turn.lastWords_signals
  obtain ⟨hpassage, hcalm⟩ := hsignalled
  simp only [bind, EStateM.bind, Turn.onKernel]
  cases hl : t₀.kernel.table.isLive target with
  | false => exact Kernel.kill_passage h.custody ho target exitKilled
  | true =>
    rcases hw : t₀.kernel.withLoaded Kernel.fault target Turn.lastWords with ⟨handled, k⟩
    rw [hw] at hpassage hcalm hc
    rcases handled with _ | _ | _
    · exact hpassage
    · exact Kernel.Passage.of_calm_fallout ho (hcalm rfl)
        (Kernel.kill_fallout hc target exitKilled).1
    · exact hpassage

theorem killCall_leads (h : InCustody l t) (ho : t.kernel.Orderly) (number : UInt16) :
    Leads t (Turn.killCall number) := by
  unfold Turn.killCall
  refine .get_bind_eq fun _ he => ?_
  subst he
  dsimp only
  split
  · exact leads_of_calm ho (.pure _)
  · next target _ =>
    split
    · exact leads_of_calm ho (.pure _)
    · split
      · exact h.killSelf_leads ho
      · exact h.killOther_leads ho target

theorem sendSignal_leads (h : InCustody l t) (ho : t.kernel.Orderly) (number signal : UInt16) :
    Leads t (Turn.sendSignal number signal) := by
  unfold Turn.sendSignal
  split
  · exact leads_of_calm ho (.pure _)
  · split
    · exact leads_of_calm ho (.pure _)
    · next s _ _ target _ =>
      refine .get_bind_eq fun _ he => ?_
      subst he
      split
      · exact .bind (h.inward_ensures ho (Turn.deliver_inward s)) fun _ =>
          .pure fun _ ht => ht.2.passage ho
      · rintro t₀ rfl
        exact Kernel.sendSignal_passage h.custody ho target s

theorem fork_leads (ho : t.kernel.Orderly) : Leads t (Turn.fork : InTurn σ Reply) := by
  rintro t₀ rfl
  simp only [Turn.fork, Turn.onKernel, bind, EStateM.bind, get_run]
  obtain ⟨k₁, hcalm, ⟨e, hf⟩ | ⟨pid, backing, hfree, hf⟩⟩ := t₀.kernel.fork_cases t₀.self
  · simp only [hf]
    have hnoted := trans_of Kernel.Calm hcalm
      (Kernel.calm_note k₁ (e := .forkFailed t₀.self.pid e) rfl)
    exact hnoted.passage ho
  · simp only [hf]
    exact Kernel.occupy_passage ho hcalm hfree t₀.self.program backing (fun _ => rfl)
      fun q hq => decide_eq_false hq.symm

/-- Whatever a system call does, waits end as they may. -/
theorem answer_leads (h : InCustody l t) (ho : t.kernel.Orderly) (call : Syscall) (args : CallArgs) :
    Leads t (Turn.answer call args) := by
  cases hq : call.isQuiet with
  | true => exact leads_of_calm ho (Turn.Quiet.keeps_calm (Turn.answer_quiet hq args))
  | false =>
    cases call
    case exit => exact h.exit_leads ho args.a
    case fork => exact fork_leads ho
    case exec => exact leads_of_calm ho (Turn.execCall_calm args)
    case waitPid => exact h.waitPid_leads ho args.a args.b
    case kill => exact h.killCall_leads ho args.a
    case read => exact h.readCall_leads ho ⟨args.a⟩ args.b args.c args.d
    case openFile => exact leads_of_calm ho (.adaptExcept (Turn.openCall_calm args.a) _)
    case close => exact leads_of_calm ho (.adaptExcept (Turn.closeCall_calm ⟨args.a⟩) _)
    case sendSignal => exact h.sendSignal_leads ho args.a args.b
    all_goals cases hq

end InCustody

/-! ## Steps -/

namespace Turn

/-- Fetching an instruction changes no files. -/
theorem behind?_fetch (t : Turn σ) (h : Handle) :
    (VolumeBacked.volume (after fetch t).kernel.store).behind? h =
      (VolumeBacked.volume t.kernel.store).behind? h := by
  have hfile : ∀ g offset count, Keeps (Stays fun s : AddressSpace σ =>
      (VolumeBacked.volume s.store).behind? h = (VolumeBacked.volume t.kernel.store).behind? h)
      (AddressSpace.readFile g offset count : Access σ Bytes) :=
    fun g offset count s hs => (VolumeBacked.behind?_read s.store g offset count h).trans hs
  have hfetch : Keeps (Stays fun t' : Turn σ => (VolumeBacked.volume t'.kernel.store).behind? h =
      (VolumeBacked.volume t.kernel.store).behind? h) (fetch : Attempt σ Instr) := by
    unfold fetch
    refine .bind .get fun t => .bind ?_ fun instr => .bind (.modify fun _ => id) fun _ =>
      .bind (.modify fun _ => id) fun _ => .pure _
    exact access_keeps (AddressSpace.fetch_keeps hfile (fun _ _ => id) _) fun _ _ => id
  exact hfetch t rfl

omit [Storage σ] [VolumeBacked σ] in
/-- Concluding a system call is no business of the kernel. -/
theorem after_conclude (act : InTurn σ Reply) (t : Turn σ) :
    (after (act >>= conclude) t).kernel = (after act t).kernel := by
  cases ha : act t with
  | error e t' => rw [after_bind_error ha, after_error ha]
  | ok reply t' =>
    rw [after_bind_ok ha, after_ok ha]
    cases reply <;> rfl

end Turn

/-- Whatever a process does in a step, waits end as they may. -/
theorem InCustody.step_passage {t : Turn σ} (h : InCustody l t) (ho : t.kernel.Orderly) :
    Kernel.Passage t.kernel (after Turn.step t).kernel := by
  cases hcall : t.call? with
  | none =>
    have hstep := Turn.step_plain hcall
    cases hs : Turn.step t with
    | ok _ t' =>
      rw [hs] at hstep
      rw [after_ok hs]
      exact hstep.kernel.calm.passage ho
    | error e t' =>
      rw [hs] at hstep
      rw [after_error hs]
      exact hstep.1.kernel.calm.passage ho
  | some call =>
    obtain ⟨call, args⟩ := call
    obtain ⟨t₁, hplain, hstore, hstep⟩ := Turn.step_call hcall
    have hanswer := ((h.plain hplain).answer_leads (hplain.kernel.calm.orderly ho) call args).after rfl
    rw [← Turn.after_conclude] at hanswer
    rw [after, hstep]
    refine .of_plain hplain.kernel (fun g => Volume.kept?_congr ?_) hanswer
    rw [hstore]
    exact Turn.behind?_fetch t g

end CoopKernel
