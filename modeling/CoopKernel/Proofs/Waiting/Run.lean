import CoopKernel.Proofs.Waiting.Step

/-!
# Waits all through a run

In every run, whatever the host and the programs do and whichever calls of the storage are refused,
nobody waits for a process that is not alive, and every wait ends for one of a few reasons, which the
result register tells.
-/

namespace CoopKernel

variable {σ : Type} [Storage σ] [VolumeBacked σ] {l : Ledger}

namespace Kernel

variable {k : Kernel σ}

/-! ## Between turns -/

omit [Storage σ] [VolumeBacked σ] in
theorem countTick_calm (k : Kernel σ) : Calm k k.countTick := by
  have hcount : Calm k { k with ticks := k.ticks + 1 } := .of_same rfl rfl
  unfold countTick
  dsimp only
  split
  · have hreset : Calm { k with ticks := k.ticks + 1 }
        (({ k with ticks := k.ticks + 1 } : Kernel σ).onTable Table.resetCounts) := by
      refine ⟨?_, .same rfl⟩
      intro pid
      simp only [status?, onTable, Table.process?_resetCounts]
      cases k.table.process? pid <;> rfl
    exact trans_of Calm hcount hreset
  · exact hcount

theorem obeyed_passage (c : Custody l k) (ho : k.Orderly) {call : HostCall σ} (hd : call.isDirect) :
    Passage k (call.run k) := by
  have hsame : ∀ {k' : Kernel σ}, k'.table = k.table → k'.log = k.log → Passage k k' :=
    fun ht hl => (Calm.of_same ht hl).passage ho
  cases call with
  | tick | runUntilIdle => cases hd
  | spawn program => exact spawn_passage ho program
  | kill pid status => exact kill_passage c ho pid status
  | sendSignal pid signal => exact sendSignal_passage c ho pid signal
  | inspect pid => exact (load_quiet k pid).calm.passage ho
  | setClock | configure | openPath | close | edit => exact hsame rfl rfl

/-! ## Turns -/

omit [VolumeBacked σ] in
/-- Why a process that waits for the end of another gets a turn: its time is over. -/
theorem resumption?_of_awaits (ho : k.Orderly) {pid target : Pid} {deadline : Option UInt32}
    {p : Process} {why : Resumption} (hp : k.table.process? pid = some p)
    (hs : p.status = .waitingForExit target deadline) (hwhy : k.resumption? p.status = some why) :
    why = .result waitTimeout ∧ ∃ due, deadline = some due ∧ k.clock.reached due := by
  have hlive := (ho _ _ _ ⟨p, hp, hs⟩).live
  rw [hs, resumption?, hlive] at hwhy
  simp only [Bool.not_true, Bool.false_eq_true, if_false] at hwhy
  split at hwhy
  · next hany =>
    obtain ⟨due, hdue, hreached⟩ := (Option.any_eq_true _ _).mp hany
    exact ⟨(Option.some.inj hwhy).symm, due, hdue, hreached⟩
  · cases hwhy

omit [VolumeBacked σ] in
/-- A process that gets its turn becomes active, with the result that ended its wait. -/
theorem openTurn_ok {pid : Pid} {why : Resumption} {t : Turn σ} (h : k.openTurn pid why = .ok t) :
    Rouses pid k t.kernel ∧ t.kernel.status? pid = some .active ∧
      ∀ value, why = .result value → t.self.state.reg Reg.result = value := by
  have hcalm := (load_quiet k pid).calm
  unfold openTurn at h
  rcases hl : k.load pid with ⟨f | self, k₁⟩
  · rw [hl] at h
    cases h
  · rw [hl] at h hcalm
    obtain ⟨p, hp, hself⟩ := load_ok hl
    have hpid : self.pid = pid := by rw [hself]
    have hstatus : k₁.status? pid = some p.status := by
      rw [hcalm.status, status?, hp]
      rfl
    have hresumed : Calm k (k₁.resume self why).kernel := by
      cases why with
      | ready => exact hcalm
      | result value => exact trans_of Calm hcalm (calm_note k₁ rfl)
    cases h
    refine ⟨(hresumed.rouses pid).setActive, ?_, ?_⟩
    · have hset := status?_setStatus (k₁.resume self why).kernel pid pid .active
      rw [if_pos rfl, hresumed.status, ← hcalm.status, hstatus] at hset
      exact hset
    · intro value hwhy
      subst hwhy
      exact Snapshot.reg_setReg_self _ _ _

theorem openTurn_error (c : Custody l k) (ho : k.Orderly) {pid : Pid} {why : Resumption}
    {k' : Kernel σ} (h : k.openTurn pid why = .error k') : Passage k k' := by
  have hcalm := (load_quiet k pid).calm
  have c₁ := c.quiet (load_quiet k pid)
  unfold openTurn at h
  rcases hl : k.load pid with ⟨f | self, k₁⟩
  · rw [hl] at h hcalm c₁
    cases h
    exact .of_calm_fallout ho hcalm (fault_fallout c₁ pid f).1
  · rw [hl] at h
    cases h

theorem endTurn_passage {t : Turn σ} (c : Custody l t.kernel) (ho : t.kernel.Orderly)
    (how : Option TurnEnd) : Passage t.kernel (endTurn t how) := by
  have hsaved : Passage t.kernel (endTurn t none) := by
    have hquiet := save_quiet t.kernel t.self
    rcases endTurn_none_cases t with ⟨-, hend⟩ | ⟨-, hend⟩
    · rw [hend]
      exact hquiet.calm.passage ho
    · rw [hend]
      exact .of_calm_fallout ho hquiet.calm (fault_fallout (c.quiet hquiet) t.self.pid .storage).1
  cases how with
  | none => exact hsaved
  | some e =>
    cases e with
    | yielded | blocked => exact hsaved
    | exited => exact (refl_of Calm t.kernel).passage ho
    | faulted f => exact fault_passage c ho t.self.pid f
    | overflowed =>
      have hhalted : Calm t.kernel { t.kernel with halted := true } := .of_same rfl rfl
      exact hhalted.passage ho

end Kernel

/-! ## Runs -/

namespace Moment

/-- What becomes of a wait at a moment. -/
inductive WaitFate (m : Moment σ) (pid target : Pid) (deadline : Option UInt32) : Prop
  | told (h : Kernel.WaitFate m.before m.after pid target deadline)
  /-- The process gets a turn because the clock reached the deadline while the target was alive. -/
  | timedOut (due : UInt32) (t : Turn σ)
      (hm : m = .resumed m.before pid (.result waitTimeout)) (hdue : deadline = some due)
      (hreached : m.before.clock.reached due) (hlive : m.before.table.isLive target)
      (hopen : m.before.openTurn pid (.result waitTimeout) = .ok t)
      (hresult : t.self.state.reg Reg.result = waitTimeout)

/-- What is to be known about waits at a moment: the kernel is orderly before and after, waits end as
they may, and nobody is told that the process that it waited for does not exist. -/
structure Waits (m : Moment σ) : Prop where
  orderly : m.before.Orderly
  fate : ∀ {pid target deadline}, m.before.Awaits pid target deadline →
    m.WaitFate pid target deadline
  orderly_after : m.after.Orderly
  never : ∀ {k pid}, m ≠ .resumed k pid (.result waitNoProcess)

end Moment

namespace Waiting

/-- What is known between turns. -/
def Between (l : Ledger) (k : Kernel σ) : Prop :=
  Custody l k ∧ k.Orderly

/-- What is known during a turn. -/
def During (how : Option TurnEnd) (l : Ledger) (t : Turn σ) : Prop :=
  (Custody l t.kernel ∧ (how = none → t.Seated)) ∧ t.kernel.Orderly

theorem waits_of_passage {m : Moment σ} (ho : m.before.Orderly)
    (hp : Kernel.Passage m.before m.after)
    (hnever : ∀ {k pid}, m ≠ .resumed k pid (.result waitNoProcess)) : m.Waits :=
  ⟨ho, fun ha => .told (hp.fate ha), hp.orderly, hnever⟩

theorem resumed_waits {k : Kernel σ} {pid : Pid} {why : Resumption}
    (h : Known Between During l (.resumed k pid why)) : (Moment.resumed k pid why).Waits := by
  obtain ⟨⟨c, ho⟩, p, hp, hwhy, -⟩ := h
  have hnever : ∀ {k' pid'}, Moment.resumed k pid why ≠ .resumed k' pid' (.result waitNoProcess) := by
    intro k' pid' he
    cases he
    cases hs : p.status with
    | active =>
      rw [hs] at hwhy
      cases hwhy
    | waitingForExit target deadline =>
      have hwhy' := (Kernel.resumption?_of_awaits ho hp hs hwhy).1
      cases hwhy'
    | waitingToRead handle =>
      rw [hs, Kernel.resumption?] at hwhy
      split at hwhy <;> cases hwhy
  cases hopen : k.openTurn pid why with
  | error k' =>
    refine waits_of_passage ho ?_ hnever
    have hpassage := Kernel.openTurn_error c ho hopen
    simp only [Moment.before, Moment.after, hopen]
    exact hpassage
  | ok t =>
    obtain ⟨hrouses, hactive, hresult⟩ := Kernel.openTurn_ok hopen
    have hafter : (Moment.resumed k pid why).after = t.kernel := by
      simp only [Moment.after, hopen]
    refine ⟨ho, fun {q target deadline} ha => ?_, ?_, hnever⟩
    · by_cases hq : q = pid
      · subst hq
        obtain ⟨p', hp', hs⟩ := ha
        dsimp only [Moment.before] at hp'
        rw [hp] at hp'
        cases hp'
        obtain ⟨rfl, due, rfl, hreached⟩ := Kernel.resumption?_of_awaits ho hp hs hwhy
        exact .timedOut due t rfl rfl hreached (ho _ _ _ ⟨p, hp, hs⟩).live hopen (hresult _ rfl)
      · refine .told (.goesOn ?_)
        rw [hafter]
        exact (hrouses.concerns.awaits hq).mpr ha
    · rw [hafter]
      exact hrouses.orderly ho

/-- At every moment that begins as known, waits end as they may. -/
theorem waits {m : Moment σ} (h : Known Between During l m) : m.Waits := by
  cases m with
  | obeyed k call => exact waits_of_passage h.1.2 (Kernel.obeyed_passage h.1.1 h.1.2 h.2.1) nofun
  | counted k => exact waits_of_passage h.2 ((Kernel.countTick_calm k).passage h.2) nofun
  | resumed k pid why => exact resumed_waits h
  | stepped t =>
    exact waits_of_passage h.2 (InCustody.step_passage ⟨h.1.1, h.1.2 rfl⟩ h.2) nofun
  | ended t how => exact waits_of_passage h.2 (Kernel.endTurn_passage h.1.1 h.2 how) nofun

/-- What is known about waits stays known all through a run. -/
theorem upkeep : Upkeep (σ := σ) Ledger.record Between During where
  obeyed h := ⟨Custody.upkeep.obeyed ⟨h.1.1, h.2⟩, (waits h).orderly_after⟩
  counted h := ⟨Custody.upkeep.counted h.1, (waits (m := .counted _) h).orderly_after⟩
  resumed := by
    intro l k pid why h
    have hknown : Known Custody (fun _ => InCustody) l (.resumed k pid why) := ⟨h.1.1, h.2⟩
    have hcustody := Custody.upkeep.resumed hknown
    have horderly := (waits h).orderly_after
    simp only [Moment.after] at horderly
    cases hopen : k.openTurn pid why with
    | error k' =>
      rw [hopen] at hcustody horderly
      exact ⟨hcustody, horderly⟩
    | ok t =>
      rw [hopen] at hcustody horderly
      exact ⟨hcustody, horderly⟩
  stepped := by
    intro l t h
    have hcustody := Custody.upkeep.stepped h.1
    have horderly := (waits (m := .stepped t) h).orderly_after
    simp only [Moment.after] at horderly
    cases hs : Turn.step t with
    | ok _ t' =>
      rw [hs] at hcustody
      rw [after_ok hs] at horderly
      exact ⟨hcustody, horderly⟩
    | error e t' =>
      rw [hs] at hcustody
      rw [after_error hs] at horderly
      exact ⟨hcustody, horderly⟩
  ended h := ⟨Custody.upkeep.ended h.1, (waits (m := .ended _ _) h).orderly_after⟩

/-- Before anything happens, nobody waits. -/
theorem start (s : σ) (settings : Settings) (entropy : UInt64) :
    Between (Ledger.start (VolumeBacked.volume s)) (Kernel.new s settings entropy) := by
  refine ⟨Custody.start s settings entropy, ?_⟩
  intro pid target deadline ha
  obtain ⟨p, hp, _⟩ := ha
  rw [Kernel.process?_new] at hp
  cases hp

end Waiting

end CoopKernel
