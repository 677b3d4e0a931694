import CoopKernel.Proofs.Waiting.Rousing

/-!
# No cascade is cut off

The kernel follows a cascade of deaths down to a depth. That depth is always enough, since whoever dies is one
less to be alive: going deeper makes no difference, so that a death satisfies the equation of the recursion
without a depth.
-/

namespace CoopKernel

namespace Kernel

variable {σ : Type} [Storage σ] {k : Kernel σ} {pid w : Pid} {result status : UInt16}

/-- What becomes of the kernel when a process is loaded to be woken, or saved after that, and with which fault
this fails. -/
def wakeFailure? (k : Kernel σ) (pid : Pid) (result : UInt16) : Option (Kernel σ × Fault) :=
  match k.load pid with
  | (.error f, k) => some (k, f)
  | (.ok self, k) =>
    match k.save { self with state := self.state.setReg Reg.result result } with
    | (true, _) => none
    | (false, k) => some (k, .storage)

/-- Nothing but the store is different when waking a process has failed. -/
theorem quiet_of_wakeFailure {k₁ : Kernel σ} {f : Fault} (h : k.wakeFailure? w result = some (k₁, f)) :
    Quiet k k₁ := by
  unfold wakeFailure? at h
  rcases hl : k.load w with ⟨f' | self, ka⟩
  · rw [hl] at h
    cases h
    exact quiet_of_load hl
  · rw [hl] at h
    have hsaved := trans_of Quiet (quiet_of_load hl)
      (save_quiet ka { self with state := self.state.setReg Reg.result result })
    rcases hs : ka.save { self with state := self.state.setReg Reg.result result } with ⟨_ | _, kb⟩
    · rw [hs] at hsaved
      simp only [hs] at h
      cases h
      exact hsaved
    · simp only [hs] at h
      cases h

/-- A process that cannot be woken is left to the handler of its fault. -/
theorem wake_of_failure {k₁ : Kernel σ} {f : Fault} (h : k.wakeFailure? w result = some (k₁, f))
    (onFault : Kernel σ → Pid → Fault → Kernel σ) : k.wake onFault w result = onFault k₁ w f := by
  unfold wakeFailure? at h
  unfold wake withLoaded
  rcases hl : k.load w with ⟨f' | self, ka⟩
  · rw [hl] at h
    cases h
    rfl
  · rw [hl] at h
    simp only [Turn.modifyState, modify, modifyGet_run]
    rcases hs : ka.save { self with state := self.state.setReg Reg.result result } with ⟨_ | _, kb⟩
    · simp only [hs] at h
      cases h
      rfl
    · simp only [hs] at h
      cases h

/-- A process that can be woken is loaded, saved with the result and active, however faults are handled. -/
theorem wake_of_no_failure (h : k.wakeFailure? w result = none) :
    ∃ self k₁ k₂, k.load w = (.ok self, k₁) ∧
      k₁.save { self with state := self.state.setReg Reg.result result } = (true, k₂) ∧
      ∀ onFault, k.wake onFault w result =
        (k₂.note (.woken w result)).onTable (·.setStatus w .active) := by
  unfold wakeFailure? at h
  rcases hl : k.load w with ⟨f' | self, ka⟩
  · rw [hl] at h
    cases h
  · rw [hl] at h
    rcases hs : ka.save { self with state := self.state.setReg Reg.result result } with ⟨_ | _, kb⟩
    · simp only [hs] at h
      cases h
    · refine ⟨self, ka, kb, rfl, hs, fun onFault => ?_⟩
      simp only [wake, withLoaded, hl, Turn.modifyState, modify, modifyGet_run, hs]

/-- Nobody comes to life. -/
def Shrinks (k k' : Kernel σ) : Prop := ∀ pid, k'.table.isLive pid → k.table.isLive pid

instance : IsPreorder (Kernel σ) Shrinks where
  refl _ _ := id
  trans _ _ _ h₁ h₂ pid hl := h₁ pid (h₂ pid hl)

theorem shrinks_quiet {k' : Kernel σ} (h : Quiet k k') : Shrinks k k' := by
  intro pid
  rw [h.rest]
  exact id

omit [Storage σ] in
theorem shrinks_setStatus (k : Kernel σ) (w : Pid) :
    Shrinks k (k.onTable (·.setStatus w .active)) := by
  intro q hl
  obtain ⟨r, hr⟩ := Table.isLive_iff.mp hl
  rcases Table.process?_modify_cases hr with ⟨rfl, r', hr', _⟩ | ⟨_, hr'⟩
  · exact Table.isLive_iff.mpr ⟨r', hr'⟩
  · exact Table.isLive_iff.mpr ⟨r, hr'⟩

theorem shrinks_killWithin (depth : Nat) (k : Kernel σ) (pid : Pid) (status : UInt16) :
    Shrinks k (killWithin depth k pid status) := by
  refine killWithin_keeps (R := Shrinks) (fun _ _ => shrinks_quiet) (fun _ _ _ _ => id)
    (fun k w => shrinks_setStatus k w) (fun k w p s _ q hl => ?_) depth k pid status
  rw [bury_table] at hl
  obtain ⟨r, hr⟩ := Table.isLive_iff.mp hl
  exact Table.isLive_iff.mpr ⟨r, (Table.process?_vacate_cases hr).2⟩

omit [Storage σ] in
/-- Where nobody is counted, nobody is alive. -/
theorem not_live_of_liveCount (h : k.liveCount ≤ 0) : ¬k.table.isLive pid := by
  intro hl
  have hpos := List.length_pos_of_mem (Table.mem_live.mpr (Table.isLive_iff.mp hl))
  exact absurd hpos (Nat.not_lt.mpr h)

/-- There is nothing to a cascade that begins with the dead. -/
theorem killWithin_of_not_live (h : ¬k.table.isLive pid) (depth : Nat) (status : UInt16) :
    killWithin depth k pid status = k := by
  have hnone : k.table.process? pid = none := Option.not_isSome_iff_eq_none.mp h
  cases depth with
  | zero => rfl
  | succ depth => rw [killWithin, hnone]

theorem fault_of_not_live (h : ¬k.table.isLive pid) (f : Fault) : k.fault pid f = k.note (.faulted pid f) :=
  killWithin_of_not_live (k := k.note (.faulted pid f)) h maxProcesses exitFault

theorem wakeFailure?_of_not_live (h : ¬k.table.isLive w) (result : UInt16) :
    k.wakeFailure? w result = some (k, .corruptState) := by
  have hnone : k.table.process? w = none := Option.not_isSome_iff_eq_none.mp h
  rw [wakeFailure?, load, hnone]

/-- Two ways to handle faults come to the same as long as few are alive. -/
def AgreeUpTo (n : Nat) (onFault onFault' : Kernel σ → Pid → Fault → Kernel σ) : Prop :=
  ∀ (k : Kernel σ) (pid : Pid) (f : Fault), k.liveCount ≤ n → onFault k pid f = onFault' k pid f

variable {n : Nat} {onFault onFault' : Kernel σ → Pid → Fault → Kernel σ}

theorem wake_congr (h : AgreeUpTo n onFault onFault') (hfew : k.liveCount ≤ n) (w : Pid) (result : UInt16) :
    k.wake onFault w result = k.wake onFault' w result := by
  cases hw : k.wakeFailure? w result with
  | none =>
    obtain ⟨_, _, _, _, _, hwake⟩ := wake_of_no_failure hw
    rw [hwake, hwake]
  | some failure =>
    obtain ⟨k₁, f⟩ := failure
    have htable : k₁.table = k.table := by rw [(quiet_of_wakeFailure hw).rest]
    rw [wake_of_failure hw, wake_of_failure hw]
    exact h k₁ w f (by rwa [liveCount, htable])

theorem wakeAll_congr (h : AgreeUpTo n onFault onFault')
    (hshrinks : ∀ k pid f, Shrinks k (onFault k pid f)) (hfew : k.liveCount ≤ n) (ws : List Pid)
    (result : UInt16) :
    ws.foldl (fun k w => k.wake onFault w result) k = ws.foldl (fun k w => k.wake onFault' w result) k := by
  induction ws generalizing k with
  | nil => rfl
  | cons w ws ih =>
    have hless : Shrinks k (k.wake onFault w result) :=
      wake_keeps (fun _ _ => shrinks_quiet) (fun _ _ _ _ => id) (fun k => shrinks_setStatus k w)
        (fun k f => hshrinks k w f) k result
    rw [List.foldl_cons, List.foldl_cons, ← wake_congr h hfew]
    exact ih (Nat.le_trans (liveCount_le hless) hfew)

/-- Depths that are enough come to the same. -/
theorem killWithin_eq_killWithin {depth depth' : Nat} (h : k.liveCount ≤ depth) (h' : k.liveCount ≤ depth')
    (pid : Pid) (status : UInt16) : killWithin depth k pid status = killWithin depth' k pid status := by
  induction depth generalizing depth' k pid status with
  | zero =>
    have hdead : ¬k.table.isLive pid := not_live_of_liveCount h
    rw [killWithin_of_not_live hdead, killWithin_of_not_live hdead]
  | succ depth ih =>
    cases hp : k.table.process? pid with
    | none =>
      have hdead : ¬k.table.isLive pid := Option.not_isSome_iff_eq_none.mpr hp
      rw [killWithin_of_not_live hdead, killWithin_of_not_live hdead]
    | some p =>
      cases depth' with
      | zero => exact absurd (Table.isLive_iff.mpr ⟨p, hp⟩) (not_live_of_liveCount h')
      | succ depth' =>
        have hless := liveCount_bury status hp
        have hagree : AgreeUpTo (k.bury pid p status).liveCount
            (fun (k : Kernel σ) pid f => killWithin depth (k.note (.faulted pid f)) pid exitFault)
            (fun (k : Kernel σ) pid f => killWithin depth' (k.note (.faulted pid f)) pid exitFault) := by
          intro k₁ w f hfew
          refine ih (k := k₁.note (.faulted w f)) ?_ ?_ w exitFault
          · exact Nat.le_trans hfew (Nat.le_of_lt_succ (Nat.lt_of_lt_of_le hless h))
          · exact Nat.le_trans hfew (Nat.le_of_lt_succ (Nat.lt_of_lt_of_le hless h'))
        simp only [killWithin, hp]
        exact wakeAll_congr hagree (fun (k : Kernel σ) w f => shrinks_killWithin depth (k.note (.faulted w f)) w exitFault)
          (Nat.le_refl _) _ status

/-- As many levels as there are living processes are enough. -/
theorem killWithin_eq_kill {depth : Nat} (h : k.liveCount ≤ depth) (pid : Pid) (status : UInt16) :
    killWithin depth k pid status = (k.kill pid status).2 :=
  killWithin_eq_killWithin h (liveCount_le_maxProcesses k) pid status

/-- Those that wait for a process that has been buried are woken with its status, one after the other. -/
theorem kill_eq {p : Process} (hp : k.table.process? pid = some p) (status : UInt16) :
    (k.kill pid status).2 = ((k.bury pid p status).table.waitersFor pid).foldl
      (fun k w => k.wake fault w status) (k.bury pid p status) := by
  have hagree : AgreeUpTo (k.bury pid p status).liveCount
      (fun (k : Kernel σ) pid f => killWithin 15 (k.note (.faulted pid f)) pid exitFault) fault := by
    intro k₁ w f hfew
    have hless := liveCount_bury status hp
    have hmost := liveCount_le_maxProcesses k
    refine killWithin_eq_kill (k := k₁.note (.faulted w f)) ?_ w exitFault
    exact Nat.le_trans hfew (Nat.le_of_lt_succ (Nat.lt_of_lt_of_le hless hmost))
  have hdeep : (k.kill pid status).2 = killWithin (15 + 1) k pid status := rfl
  rw [hdeep, killWithin, hp]
  exact wakeAll_congr hagree (fun (k : Kernel σ) w f => shrinks_killWithin 15 (k.note (.faulted w f)) w exitFault)
    (Nat.le_refl _) _ status

end Kernel

end CoopKernel
