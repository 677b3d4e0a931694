import CoopKernel.Proofs.Footprint
import CoopKernel.Proofs.Log
import CoopKernel.Proofs.Table

/-!
# Cascades of deaths

When a process ends, those who wait for it are woken, and a waiter that cannot be woken ends as well.
Who is neither the first to end nor waits for the end of a process is not concerned by that.
-/

namespace CoopKernel

variable {σ : Type} [Storage σ] {α : Type}

namespace Kernel

variable {R : Kernel σ → Kernel σ → Prop} [IsPreorder (Kernel σ) R]

/-! ## What is kept by working on a process -/

/-- Work on a process keeps what is kept by failing to load it, by working on what was loaded and saving
it, and by handling a fault. -/
theorem withLoaded_keeps_of {onFault : Kernel σ → Pid → Fault → Kernel σ} {k : Kernel σ} {pid : Pid}
    {act : Attempt σ α} (hload : ∀ f k₁, k.load pid = (.error f, k₁) → R k k₁)
    (hwork : ∀ self k₁, k.load pid = (.ok self, k₁) → Yields (act ⟨k₁, self⟩)
      (fun _ t => R k (t.kernel.save t.self).2) fun _ t => R k t.kernel)
    (hfault : ∀ k f, R k (onFault k pid f)) : R k (k.withLoaded onFault pid act).2 := by
  unfold withLoaded
  rcases hl : k.load pid with ⟨f | self, k₁⟩
  · exact trans_of R (hload f k₁ hl) (hfault k₁ f)
  · have hdone := hwork self k₁ hl
    dsimp only
    cases ha : act ⟨k₁, self⟩ with
    | error f t =>
      rw [ha] at hdone
      exact trans_of R hdone (hfault t.kernel f)
    | ok a t =>
      rw [ha] at hdone
      have hdone : R k (t.kernel.save t.self).2 := hdone
      dsimp only
      split
      · next k₂ hs =>
        rw [hs] at hdone
        exact hdone
      · next k₂ hs =>
        rw [hs] at hdone
        exact trans_of R hdone (hfault k₂ .storage)

/-- Where the work is seen to by itself, loading and saving are quiet. -/
theorem withLoaded_keeps {onFault : Kernel σ → Pid → Fault → Kernel σ} {pid : Pid}
    {act : Attempt σ α} (hquiet : ∀ k k', Quiet k k' → R k k')
    (hact : ∀ t : Turn σ, t.self.pid = pid → R t.kernel (after act t).kernel)
    (hfault : ∀ k f, R k (onFault k pid f)) (k : Kernel σ) :
    R k (k.withLoaded onFault pid act).2 := by
  refine withLoaded_keeps_of (fun f k₁ hl => hquiet _ _ (quiet_of_load hl)) (fun self k₁ hl => ?_) hfault
  have hload := hquiet _ _ (quiet_of_load hl)
  obtain ⟨p, _, hself⟩ := load_ok hl
  have hwork := hact ⟨k₁, self⟩ (by rw [hself])
  cases ha : act ⟨k₁, self⟩ with
  | error f t =>
    rw [after_error ha] at hwork
    exact trans_of R hload hwork
  | ok a t =>
    rw [after_ok ha] at hwork
    exact trans_of R hload (trans_of R hwork (hquiet _ _ (save_quiet t.kernel t.self)))

theorem wake_keeps_of {onFault : Kernel σ → Pid → Fault → Kernel σ} {k : Kernel σ} {pid : Pid}
    {result : UInt16} (hload : ∀ f k₁, k.load pid = (.error f, k₁) → R k k₁)
    (hsave : ∀ self k₁, k.load pid = (.ok self, k₁) →
      R k (k₁.save { self with state := self.state.setReg Reg.result result }).2)
    (hnote : ∀ k e, e.isLife = false → R k (k.note e)) (hactive : ∀ k, R k (k.onTable (·.setStatus pid .active)))
    (hfault : ∀ k f, R k (onFault k pid f)) : R k (k.wake onFault pid result) := by
  have hwork : R k (k.withLoaded onFault pid (Turn.modifyState (·.setReg Reg.result result))).2 :=
    withLoaded_keeps_of hload hsave hfault
  unfold wake
  split
  · next k₁ hw =>
    rw [hw] at hwork
    exact trans_of R hwork (trans_of R (hnote k₁ _ rfl) (hactive _))
  · next k₁ hw =>
    rw [hw] at hwork
    exact hwork

theorem wake_keeps {onFault : Kernel σ → Pid → Fault → Kernel σ} {pid : Pid}
    (hquiet : ∀ k k', Quiet k k' → R k k') (hnote : ∀ k e, e.isLife = false → R k (k.note e))
    (hactive : ∀ k, R k (k.onTable (·.setStatus pid .active)))
    (hfault : ∀ k f, R k (onFault k pid f)) (k : Kernel σ) (result : UInt16) :
    R k (k.wake onFault pid result) :=
  wake_keeps_of (fun _ _ hl => hquiet _ _ (quiet_of_load hl))
    (fun _ k₁ hl => trans_of R (hquiet _ _ (quiet_of_load hl)) (hquiet _ _ (save_quiet k₁ _))) hnote hactive
    hfault

/-- A cascade keeps what waking a process and taking one out of the table keep. -/
theorem killWithin_keeps_of (hload : ∀ k (pid : Pid) f k₁, k.load pid = (.error f, k₁) → R k k₁)
    (hsave : ∀ k (pid : Pid) self k₁ (result : UInt16), k.load pid = (.ok self, k₁) →
      R k (k₁.save { self with state := self.state.setReg Reg.result result }).2)
    (hnote : ∀ k e, e.isLife = false → R k (k.note e)) (hactive : ∀ k pid, R k (k.onTable (·.setStatus pid .active)))
    (hbury : ∀ k pid p status, k.table.process? pid = some p → R k (k.bury pid p status))
    (depth : Nat) (k : Kernel σ) (pid : Pid) (status : UInt16) :
    R k (killWithin depth k pid status) := by
  induction depth generalizing k pid status with
  | zero => exact refl_of R k
  | succ depth ih =>
    unfold killWithin
    cases hp : k.table.process? pid with
    | none => exact refl_of R k
    | some p =>
      refine trans_of R (hbury k pid p status hp) (foldl_keeps ?_ _)
      intro k w _
      exact wake_keeps_of (hload k w) (fun self k₁ => hsave k w self k₁ status) hnote (hactive · w)
        fun k f => trans_of R (hnote k _ rfl) (ih _ w exitFault)

theorem killWithin_keeps (hquiet : ∀ k k', Quiet k k' → R k k') (hnote : ∀ k e, e.isLife = false → R k (k.note e))
    (hactive : ∀ k pid, R k (k.onTable (·.setStatus pid .active)))
    (hbury : ∀ k pid p status, k.table.process? pid = some p → R k (k.bury pid p status))
    (depth : Nat) (k : Kernel σ) (pid : Pid) (status : UInt16) :
    R k (killWithin depth k pid status) :=
  killWithin_keeps_of (fun _ _ _ _ hl => hquiet _ _ (quiet_of_load hl))
    (fun _ _ _ k₁ _ hl => trans_of R (hquiet _ _ (quiet_of_load hl)) (hquiet _ _ (save_quiet k₁ _))) hnote
    hactive hbury depth k pid status

omit R [IsPreorder (Kernel σ) R]

/-! ## The first to end -/

theorem bury_table (k : Kernel σ) (pid : Pid) (p : Process) (status : UInt16) :
    (k.bury pid p status).table = k.table.vacate pid status := by
  unfold bury releaseProgram
  dsimp only
  split <;> rfl

theorem logs_bury (k : Kernel σ) (pid : Pid) (p : Process) (status : UInt16) :
    Logs k [.exited pid status] (k.bury pid p status) := by
  have hrelease : ((k.onTable (·.vacate pid status)).releaseProgram pid p.program).log = k.log := by
    unfold releaseProgram
    split <;> rfl
  have hnote : Logs ((k.onTable (·.vacate pid status)).releaseProgram pid p.program)
      [.exited pid status] (k.bury pid p status) := by
    unfold bury
    exact logs_note _ _
  exact Logs.append (.same hrelease) hnote

/-- The slot is free, and whoever was there last ended with the status. -/
def Ended (pid : Pid) (status : UInt16) (k : Kernel σ) : Prop :=
  k.table.slot pid = .free (some status)

theorem ended_quiet {pid : Pid} {status : UInt16} {k k' : Kernel σ} (h : Quiet k k') :
    Stays (Ended pid status) k k' := by
  rw [h.rest]
  exact id

omit [Storage σ] in
theorem ended_setStatus {pid : Pid} {status : UInt16} (k : Kernel σ) (w : Pid) (doing : Status) :
    Stays (Ended pid status) k (k.onTable (·.setStatus w doing)) := by
  intro h
  unfold Ended at h ⊢
  simp only [onTable, Table.setStatus, Table.slot_modify, h, Slot.map, ite_self]

/-- Nobody comes back while others end. -/
theorem ended_killWithin {pid : Pid} {status : UInt16} (depth : Nat) (k : Kernel σ) (w : Pid)
    (status' : UInt16) : Stays (Ended pid status) k (killWithin depth k w status') := by
  refine killWithin_keeps (R := Stays (Ended pid status)) (fun _ _ => ended_quiet) (fun _ _ _ => id)
    (fun k w => ended_setStatus k w _) ?_ depth k w status'
  intro k w p s hp h
  unfold Ended at h ⊢
  rw [bury_table, Table.slot_vacate]
  split
  · next he =>
    subst he
    rw [Table.process?, h] at hp
    cases hp
  · exact h

theorem killWithin_ends {k : Kernel σ} {pid : Pid} {p : Process} (hp : k.table.process? pid = some p)
    (depth : Nat) (status : UInt16) : Ended pid status (killWithin (depth + 1) k pid status) := by
  have hburied : Ended pid status (k.bury pid p status) := by
    rw [Ended, bury_table, Table.slot_vacate, if_pos rfl]
  unfold killWithin
  rw [hp]
  refine foldl_keeps (R := Stays (Ended pid status)) ?_ _ hburied
  intro k' w _
  exact wake_keeps (R := Stays (Ended pid status)) (fun _ _ => ended_quiet) (fun _ _ _ => id)
    (fun k => ended_setStatus k w _) (fun k f => ended_killWithin depth (k.note (.faulted w f)) w _)
    k' status

theorem logsMore_killWithin (depth : Nat) (k : Kernel σ) (pid : Pid) (status : UInt16) :
    LogsMore k (killWithin depth k pid status) :=
  killWithin_keeps (fun _ _ h => .same (by rw [h.rest])) (fun k e _ => logsMore_note k e) (fun _ _ => .same rfl)
    (fun k pid p status _ => ⟨[_], logs_bury k pid p status⟩) depth k pid status

/-- The first thing that the log tells of the end of a process is the status. -/
theorem killWithin_logs {k : Kernel σ} {pid : Pid} {p : Process} (hp : k.table.process? pid = some p)
    (depth : Nat) (status : UInt16) :
    ∃ es, Logs k (.exited pid status :: es) (killWithin (depth + 1) k pid status) := by
  have hrest : LogsMore (k.bury pid p status) (killWithin (depth + 1) k pid status) := by
    unfold killWithin
    rw [hp]
    refine foldl_keeps (fun k' w _ => ?_) _
    exact wake_keeps (fun _ _ h => .same (by rw [h.rest])) (fun k e _ => logsMore_note k e) (fun _ => .same rfl)
      (fun k f => trans_of LogsMore (logsMore_note k _) (logsMore_killWithin depth _ w exitFault)) k' status
  obtain ⟨es, hes⟩ := hrest
  exact ⟨es, (logs_bury k pid p status).append hes⟩

/-- A process that dies of a fault is gone, and the log tells what it died of. -/
theorem fault_ends {k : Kernel σ} {pid : Pid} {p : Process} (hp : k.table.process? pid = some p)
    (f : Fault) : Ended pid exitFault (k.fault pid f) ∧
      ∃ es, Logs k (.faulted pid f :: es) (k.fault pid f) := by
  refine ⟨killWithin_ends (k := k.note (.faulted pid f)) hp 15 exitFault, ?_⟩
  obtain ⟨es, hes⟩ := logsMore_killWithin maxProcesses (k.note (.faulted pid f)) pid exitFault
  exact ⟨es, (logs_note k _).append hes⟩

/-! ## Survivors -/

theorem not_isLive_kill (k : Kernel σ) (pid : Pid) (status : UInt16) :
    ¬(k.kill pid status).2.table.isLive pid := by
  cases hp : k.table.process? pid with
  | none =>
    have hsame : (k.kill pid status).2 = k := by
      unfold kill killWithin
      simp only [hp]
    rw [hsame, Table.isLive, hp]
    exact Bool.false_ne_true
  | some p =>
    have hend : Ended pid status (k.kill pid status).2 := killWithin_ends hp 15 status
    rw [Ended] at hend
    rw [Table.isLive, Table.process?, hend]
    exact Bool.false_ne_true

theorem not_isLive_fault (k : Kernel σ) (pid : Pid) (f : Fault) : ¬(k.fault pid f).table.isLive pid :=
  not_isLive_kill (k.note _) pid exitFault

/-- Who survives being worked on was loaded and saved. -/
theorem withLoaded_survives {k : Kernel σ} {pid : Pid} {act : Attempt σ α}
    (hlive : (k.withLoaded fault pid act).2.table.isLive pid) :
    ∃ self k₁ a t, k.load pid = (.ok self, k₁) ∧ act ⟨k₁, self⟩ = .ok a t ∧
      t.kernel.save t.self = (true, (k.withLoaded fault pid act).2) := by
  unfold withLoaded at hlive ⊢
  rcases hl : k.load pid with ⟨f | self, k₁⟩ <;> simp only [hl] at hlive ⊢
  · exact absurd hlive (not_isLive_fault k₁ pid f)
  · cases ha : act ⟨k₁, self⟩ with
    | error f t =>
      simp only [ha] at hlive
      exact absurd hlive (not_isLive_fault t.kernel pid f)
    | ok a t =>
      simp only [ha] at hlive ⊢
      rcases hsave : t.kernel.save t.self with ⟨_ | _, k₂⟩ <;> simp only [hsave] at hlive ⊢
      · exact absurd hlive (not_isLive_fault k₂ pid .storage)
      · exact ⟨self, k₁, a, t, rfl, ha, hsave⟩

/-! ## Bystanders -/

/-- A process is the one in its slot, and is not waiting for the end of another. -/
def Undisturbed (pid : Pid) (p : Process) (k : Kernel σ) : Prop :=
  k.table.process? pid = some p ∧ ∀ target deadline, p.status ≠ .waitingForExit target deadline

variable {q : Pid} {p : Process}

theorem undisturbed_quiet {k k' : Kernel σ} (h : Quiet k k') : Stays (Undisturbed q p) k k' := by
  rw [h.rest]
  exact id

omit [Storage σ] in
theorem undisturbed_setStatus {k : Kernel σ} {pid : Pid} (hne : pid ≠ q) (status : Status) :
    Stays (Undisturbed q p) k (k.onTable (·.setStatus pid status)) := by
  rintro ⟨hp, hw⟩
  exact ⟨(Table.process?_modify_of_ne hne.symm).trans hp, hw⟩

theorem undisturbed_bury {k : Kernel σ} {pid : Pid} (hne : pid ≠ q) (r : Process)
    (status : UInt16) : Stays (Undisturbed q p) k (k.bury pid r status) := by
  rintro ⟨hp, hw⟩
  refine ⟨?_, hw⟩
  rw [bury_table, Table.process?_vacate_of_ne hne.symm]
  exact hp

theorem undisturbed_killWithin (depth : Nat) {k : Kernel σ} {pid : Pid} (hne : pid ≠ q)
    (status : UInt16) : Stays (Undisturbed q p) k (killWithin depth k pid status) := by
  induction depth generalizing k pid status with
  | zero => exact id
  | succ depth ih =>
    intro h
    unfold killWithin
    cases hr : k.table.process? pid with
    | none => exact h
    | some r =>
      have hburied := undisturbed_bury hne r status h
      refine foldl_keeps (R := Stays (Undisturbed q p)) ?_ _ hburied
      intro k' w hmem
      have hwq : w ≠ q := by
        rintro rfl
        obtain ⟨r', d, hr', hs⟩ := Table.mem_waitersFor.mp hmem
        rw [hburied.1] at hr'
        cases hr'
        exact hburied.2 _ _ hs
      exact wake_keeps (R := Stays (Undisturbed q p)) (fun _ _ => undisturbed_quiet) (fun _ _ _ => id)
        (fun _ => undisturbed_setStatus hwq _)
        (fun k f h' => ih (k := k.note (.faulted w f)) hwq exitFault h') k' status

theorem undisturbed_kill {k : Kernel σ} {pid : Pid} (hne : pid ≠ q) (status : UInt16) :
    Stays (Undisturbed q p) k (k.kill pid status).2 :=
  undisturbed_killWithin _ hne status

theorem undisturbed_fault {k : Kernel σ} {pid : Pid} (hne : pid ≠ q) (f : Fault) :
    Stays (Undisturbed q p) k (k.fault pid f) :=
  undisturbed_kill (k := k.note (.faulted pid f)) hne exitFault

end Kernel

end CoopKernel
