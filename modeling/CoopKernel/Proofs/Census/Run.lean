import CoopKernel.Proofs.Census.Making
import CoopKernel.Proofs.Delivery
import CoopKernel.Proofs.Run

/-!
# Process numbers all through a run

In every run, whatever the host and the programs do and whatever the storage refuses, the table stands as the
log tells and every process got the number that was next.
-/

namespace CoopKernel

variable {σ : Type} [Storage σ] [VolumeBacked σ]

namespace Kernel

theorem accounts_fork (k : Kernel σ) (parent : Loaded) : Accounts k (k.fork parent).2 :=
  (fork_making k parent).accounts fun _ => rfl

theorem accounts_spawn (k : Kernel σ) (program : String) : Accounts k (k.spawn program).2 := by
  cases h : Path.accepts program with
  | true => exact (spawn_making k h).accounts fun _ => rfl
  | false =>
    rw [spawn, h]
    exact refl_of Accounts k

omit [Storage σ] [VolumeBacked σ] in
theorem accounts_countTick (k : Kernel σ) : Accounts k k.countTick := by
  have hcount : Accounts k { k with ticks := k.ticks + 1 } := .of_eq rfl rfl
  unfold countTick
  dsimp only
  split
  · exact trans_of Accounts hcount (accounts_resetCounts _)
  · exact hcount

end Kernel

namespace Turn

/-- The kernel of the turn still accounts for what it did before. -/
def Accounts (t t' : Turn σ) : Prop :=
  Kernel.Accounts t.kernel t'.kernel

omit [Storage σ] [VolumeBacked σ] in
instance : IsPreorder (Turn σ) Accounts where
  refl t := refl_of Kernel.Accounts t.kernel
  trans _ _ _ h₁ h₂ := trans_of Kernel.Accounts h₁ h₂

omit [VolumeBacked σ] in
theorem detached_accounts : Detached (σ := σ) Accounts where
  memory := indifferent_composed.memory
  space _ _ _ := .of_eq rfl rfl
  glance _ _ _ _ := .of_eq rfl rfl
  window _ _ := .of_eq rfl rfl
  state _ _ _ _ _ := .of_eq rfl rfl
  handler _ _ _ _ := .of_eq rfl rfl
  stdio _ _ := .of_eq rfl rfl
  status t pid _ := Kernel.accounts_modify t.kernel pid _
  count t pid := Kernel.accounts_modify t.kernel pid _
  note t _ he := Kernel.accounts_note t.kernel he
  store _ _ := .of_eq rfl rfl
  loaded _ _ _ _ := .of_eq rfl rfl
  setProgram t pid _ := Kernel.accounts_modify t.kernel pid _

theorem dealing_accounts : Dealing (σ := σ) Accounts where
  kill t pid status := Kernel.governed_accounts.kill t.kernel pid status
  signalled h t pid := Kernel.governed_accounts.withLoaded h t.kernel pid
  fork t parent := Kernel.accounts_fork t.kernel parent

theorem answer_accounts (call : Syscall) (args : CallArgs) :
    Works Accounts (fun _ => True) (answer call args : InTurn σ Reply) := by
  have hany {E : TurnEnd → Prop} {act : InTurn σ Reply} (h : Works Accounts E act) :
      Works Accounts (fun _ => True) act := h.mono (fun _ _ => id) fun _ _ => trivial
  have d := detached_accounts (σ := σ)
  cases hd : call.isDealing with
  | false => exact hany (d.answer hd args)
  | true =>
    cases call
    case exit => exact hany (Indifferent.exit dealing_accounts.toMeddling _)
    case fork => exact hany (d.fork dealing_accounts)
    case kill => exact hany (d.killCall dealing_accounts.toMeddling trivial _)
    case sendSignal => exact hany (d.sendSignal dealing_accounts.toMeddling _ _)
    all_goals cases hd

theorem step_accounts : Keeps Accounts (step : InTurn σ Unit) := by
  intro t
  cases h : t.call? with
  | none => exact ((detached_accounts.step h).mono (fun _ _ => id) fun _ _ hr => hr.2).after
  | some call =>
    have hanswer := detached_accounts.stepCall h (answer_accounts call.1 call.2)
    exact (hanswer.mono (fun _ _ => id) fun _ _ hr => hr.2).after

end Turn

/-! ## Runs -/

namespace Census

/-- What is known between turns. -/
def Between (_ : Unit) (k : Kernel σ) : Prop :=
  k.Accounted

/-- What is known during a turn: besides, somebody was born. -/
def During (_ : Option TurnEnd) (_ : Unit) (t : Turn σ) : Prop :=
  t.kernel.Accounted ∧ t.kernel.table.initUsed = true

omit [VolumeBacked σ] in
theorem accounts_endTurn (t : Turn σ) (how : Option TurnEnd) :
    Kernel.Accounts t.kernel (Kernel.endTurn t how) := by
  have hgoverned := Kernel.governed_accounts (σ := σ)
  have hsave := hgoverned.quiet _ _ (Kernel.save_quiet t.kernel t.self)
  have hsaved : Kernel.Accounts t.kernel (Kernel.endTurn t none) := by
    rcases Kernel.endTurn_none_cases t with ⟨-, hend⟩ | ⟨-, hend⟩
    · rw [hend]
      exact hsave
    · rw [hend]
      exact trans_of Kernel.Accounts hsave (hgoverned.fault _ _ _)
  cases how with
  | none => exact hsaved
  | some e =>
    cases e with
    | yielded | blocked => exact hsaved
    | exited => exact refl_of Kernel.Accounts t.kernel
    | faulted f => exact hgoverned.fault t.kernel t.self.pid f
    | overflowed => exact .of_eq rfl rfl

omit [VolumeBacked σ] in
theorem accounts_openTurn (k : Kernel σ) (pid : Pid) (why : Resumption) :
    Kernel.Accounts k (match k.openTurn pid why with | .error k' => k' | .ok t => t.kernel) := by
  have hgoverned := Kernel.governed_accounts (σ := σ)
  have hload := hgoverned.quiet _ _ (Kernel.load_quiet k pid)
  unfold Kernel.openTurn
  rcases hl : k.load pid with ⟨f | self, k₁⟩
  · rw [hl] at hload
    exact trans_of Kernel.Accounts hload (hgoverned.fault k₁ pid f)
  · rw [hl] at hload
    have hresumed : Kernel.Accounts k₁ (k₁.resume self why).kernel := by
      cases why with
      | ready => exact refl_of Kernel.Accounts k₁
      | result value => exact hgoverned.note k₁ _ rfl
    exact trans_of Kernel.Accounts (trans_of Kernel.Accounts hload hresumed) (hgoverned.status _ pid .active)

theorem upkeep : TickUpkeep (σ := σ) (fun _ _ => ()) Between During where
  counted h := (Kernel.accounts_countTick _).accounted h
  resumed := by
    rintro _ k pid why ⟨hk, p, hp, -⟩
    have hk : k.Accounted := hk
    have haccounts := accounts_openTurn k pid why
    have hused := hk.initUsed.mpr (hk.born_of_isLive (Table.isLive_iff.mpr ⟨p, hp⟩))
    cases ho : k.openTurn pid why with
    | error k' =>
      rw [ho] at haccounts
      exact haccounts.accounted hk
    | ok t =>
      rw [ho] at haccounts
      exact ⟨haccounts.accounted hk, haccounts.initUsed hused⟩
  stepped := by
    rintro _ t ⟨hk, hused⟩
    have hstep := Turn.step_accounts t
    cases hs : Turn.step t with
    | ok _ t' =>
      rw [after_ok hs] at hstep
      exact ⟨hstep.accounted hk, hstep.initUsed hused⟩
    | error e t' =>
      rw [after_error hs] at hstep
      exact ⟨hstep.accounted hk, hstep.initUsed hused⟩
  ended h := (accounts_endTurn _ _).accounted h.1

theorem accounted_obeyed {k : Kernel σ} (h : k.Accounted) {call : HostCall σ} (hd : call.isDirect) :
    (call.run k).Accounted := by
  have hgoverned := Kernel.governed_accounts (σ := σ)
  cases call with
  | tick | runUntilIdle => cases hd
  | spawn program => exact (Kernel.accounts_spawn k program).accounted h
  | kill pid status => exact (hgoverned.kill k pid status).accounted h
  | sendSignal pid signal => exact (hgoverned.sendSignal k pid signal).accounted h
  | inspect pid => exact (hgoverned.quiet _ _ (Kernel.load_quiet k pid)).accounted h
  | setClock | configure | openPath | close | edit => exact h.of_same (fun _ => rfl) rfl rfl

omit [Storage σ] [VolumeBacked σ] in
/-- Before anything happens, nobody was born. -/
theorem start (s : σ) (settings : Settings) (entropy : UInt64) : (Kernel.new s settings entropy).Accounted := by
  refine ⟨fun pid => ?_, ?_, ?_⟩
  · simp only [Kernel.new, Table.slot, Fin.getElem_fin, Vector.getElem_replicate]
    rfl
  · exact iff_of_false Bool.false_ne_true fun h => h fun e he => absurd he List.not_mem_nil
  · intro before e later pid hsplit
    cases before <;> cases hsplit

variable {s : σ} {settings : Settings} {entropy : UInt64} {calls : List (HostCall σ)}

theorem known : Along (fun _ _ => ()) (KnownOf Between During) ()
    (HostCall.courseAll (Kernel.new s settings entropy) calls) ∧
      (HostCall.runAll (Kernel.new s settings entropy) calls).Accounted :=
  upkeep.along_of (fun hk hd => accounted_obeyed hk hd) (start s settings entropy) calls

theorem known_of_mem {m : Moment σ} (hm : m ∈ HostCall.courseAll (Kernel.new s settings entropy) calls) :
    KnownOf Between During () m := by
  obtain ⟨before, later, hsplit⟩ := List.append_of_mem hm
  have halong : Along (fun _ _ => ()) (KnownOf Between During) ()
      (HostCall.courseAll (Kernel.new s settings entropy) calls) := known.1
  rw [hsplit] at halong
  exact halong.at_split

/-- Whatever a run passes through has all processes accounted for. -/
theorem accounted {k : Kernel σ} (h : HostCall.PassesThrough (Kernel.new s settings entropy) calls k) :
    k.Accounted := by
  rcases h with ⟨m, hm, rfl⟩ | rfl
  · have hknown := known_of_mem hm
    cases m with
    | obeyed | resumed | stepped | ended => exact hknown.1
    | counted => exact hknown
  · exact known.2

end Census

omit [Storage σ] [VolumeBacked σ] in
/-- The number of a process that is not the first is neither what its copy gets nor what a fork gives that
made none. -/
theorem Pid.word_ne {pid : Pid} (h : pid ≠ 0) : pid.word ≠ 0 ∧ pid.word ≠ noProcess := by
  revert pid
  decide

namespace Kernel

/-- The log tells how it stands with every process number: who is alive, and with which status a process ended
that is not. -/
structure StandsAsTold (k : Kernel σ) : Prop where
  isLive : ∀ {pid}, k.table.isLive pid ↔ Standing.told k.log.toList pid = .alive
  exitStatus? : ∀ {pid status},
    k.exitStatus? pid = some status ↔ Standing.told k.log.toList pid = .ended status

omit [Storage σ] [VolumeBacked σ] in
theorem Accounted.standsAsTold {k : Kernel σ} (h : k.Accounted) : k.StandsAsTold :=
  ⟨h.isLive_iff, h.exitStatus?_iff⟩

omit [VolumeBacked σ] in
/-- A process that is killed leaves its status, which is the next that the log tells. -/
theorem kill_leaves_status {k : Kernel σ} {pid : Pid} (hl : k.table.isLive pid) (status : UInt16) :
    (k.kill pid status).2.exitStatus? pid = some status ∧
      ∃ es, Logs k (.exited pid status :: es) (k.kill pid status).2 := by
  obtain ⟨p, hp⟩ := Table.isLive_iff.mp hl
  have hended : Ended pid status (k.kill pid status).2 := killWithin_ends hp 15 status
  refine ⟨?_, killWithin_logs hp 15 status⟩
  rw [Ended] at hended
  rw [exitStatus?, hended]
  rfl

end Kernel

/-- A process doubles itself in order: the copy gets the number that is next, which is not zero, and zero in its
result register; the other one gets that number, or, if no copy could be made, what no process has as its
number. -/
structure Turn.ForksInOrder (t t' : Turn σ) : Prop where
  made : t.kernel.MakesInOrder (.forked t.self.pid) (t.self.state.setReg Reg.result 0) (t.kernel.fork t.self)
  born : ∀ pid, (t.kernel.fork t.self).1 = .ok pid → pid ≠ 0 ∧ pid.word ≠ 0 ∧ pid.word ≠ noProcess ∧
    t'.kernel = (t.kernel.fork t.self).2 ∧ t'.self.state.reg Reg.result = pid.word
  failed : ∀ e, (t.kernel.fork t.self).1 = .error e →
    t'.kernel = (t.kernel.fork t.self).2.note (.forkFailed t.self.pid e) ∧
      t'.self.state.reg Reg.result = noProcess

theorem Turn.fork_inOrder {t : Turn σ} (hk : t.kernel.Accounted) (hused : t.kernel.table.initUsed = true) :
    ∃ t', (fork : InTurn σ Reply) t = .error .yielded t' ∧ t.ForksInOrder t' := by
  have hmade := (Kernel.fork_making t.kernel t.self).inOrder hk
  rw [fork_eq]
  refine ⟨_, rfl, hmade, fun pid hpid => ?_, fun e he => ?_⟩
  · obtain ⟨hnext, -⟩ := hmade.next pid hpid
    have hne : pid ≠ 0 := by
      rcases hnext with ⟨hfirst, -⟩ | ⟨-, hne, -⟩
      · exact absurd hfirst (hk.initUsed.mp hused)
      · exact hne
    refine ⟨hne, (Pid.word_ne hne).1, (Pid.word_ne hne).2, ?_⟩
    rcases hf : t.kernel.fork t.self with ⟨_ | child, k⟩
    · rw [hf] at hpid
      cases hpid
    · rw [hf] at hpid
      cases hpid
      exact ⟨rfl, Snapshot.reg_setReg_self _ _ _⟩
  · rcases hf : t.kernel.fork t.self with ⟨e' | child, k⟩
    · rw [hf] at he
      cases he
      exact ⟨rfl, Snapshot.reg_setReg_self _ _ _⟩
    · rw [hf] at he
      cases he

/-- Whatever a run of any calls on any storage passes through: the processes that were made until then got the
numbers that were next, zero for the first and after that the lowest other one that nobody had; who is alive and
how the others ended is as the log tells; whoever is killed leaves the status; and a process that is spawned at
that point for a path that is accepted is made in order. Whenever a process calls for a copy of itself, that is
made in order, too. -/
theorem HostCall.pids_given_in_order (s : σ) (settings : Settings) (entropy : UInt64)
    (calls : List (HostCall σ)) :
    (∀ k, PassesThrough (Kernel.new s settings entropy) calls k →
      BirthsInOrder k.log.toList ∧ k.StandsAsTold ∧
        (∀ pid status, k.table.isLive pid → (k.kill pid status).2.exitStatus? pid = some status ∧
          ∃ es, k.Logs (.exited pid status :: es) (k.kill pid status).2) ∧
        ∀ program, Path.accepts program → k.MakesInOrder (.spawned · (Path.ofText program))
          (k.initialState (Path.ofText program)) (k.spawn program)) ∧
    ∀ t args, .stepped t ∈ courseAll (Kernel.new s settings entropy) calls → t.call? = some (.fork, args) →
      ∃ t', Turn.step t = .error .yielded t' ∧ t.atCall.ForksInOrder t' := by
  refine ⟨fun k hk => ?_, fun t args hm hcall => ?_⟩
  · have hk := Census.accounted hk
    refine ⟨hk.births, hk.standsAsTold, fun pid status hl => Kernel.kill_leaves_status hl status,
      fun program haccepts => (Kernel.spawn_making k haccepts).inOrder hk⟩
  · obtain ⟨hk, hused⟩ := Census.known_of_mem hm
    have hcalled := Turn.detached_accounts.atCall hcall
    obtain ⟨t', hfork, horder⟩ := Turn.fork_inOrder (hcalled.accounted hk) (hcalled.initUsed hused)
    have hanswer : (Turn.answer .fork args : InTurn σ Reply) t.atCall = .error .yielded t' := hfork
    exact ⟨t', (Turn.step_call_cases hcall).2.2.trans (bind_of_error hanswer), horder⟩

/-- A program that doubles itself, and of which the copy sets a register twice. -/
def doublingProgram : Bytes :=
  #[0xD8, 0x00, 0x04, 0xC1, 0xDA, 0x80, 0x03, 0xDA, 0x80, 0x03]

/-- A volume with the program. -/
def doublingVolume : Volume :=
  ((Volume.empty.mkdir (Path.ofText "/tmp")).2.addFile (Path.ofText "/a") doublingProgram).2

/-- A process is spawned and doubles itself, and the copy is killed. -/
def doublingCalls : List (HostCall Volume) :=
  [.spawn "/a", .tick, .kill 1 5]

/-- The kernel after that. -/
def doubledKernel : Kernel Volume :=
  HostCall.runAll (Kernel.new doublingVolume { budget := 2 }) doublingCalls

/-- A process doubles itself in order, and when the copy was killed, its number is next. -/
theorem HostCall.pids_given_in_order_of_copies :
    (∃ t args t', .stepped t ∈ courseAll (Kernel.new doublingVolume { budget := 2 }) doublingCalls ∧
      t.call? = some (.fork, args) ∧ Turn.step t = .error .yielded t' ∧ t.atCall.ForksInOrder t') ∧
    Standing.told doubledKernel.log.toList 1 = .ended 5 ∧ (doubledKernel.spawn "/a").1 = .ok 1 ∧
      Pid.IsNext (NobodyBorn doubledKernel.log.toList) (fun q => doubledKernel.table.isLive q) 1 := by
  have hchecked : ((courseAll (Kernel.new doublingVolume { budget := 2 }) doublingCalls).any fun m =>
        m.turn?.any fun t => t.call?.any fun c => decide (c.1 = Syscall.fork)) = true ∧
      doubledKernel.exitStatus? 1 = some 5 ∧ (doubledKernel.spawn "/a").1 = .ok 1 := by
    decide +kernel
  obtain ⟨hforks, hexit, hspawned⟩ := hchecked
  obtain ⟨t, ht, hcall⟩ := exists_stepped _ doublingCalls _ hforks
  obtain ⟨hpass, hfork⟩ := HostCall.pids_given_in_order doublingVolume { budget := 2 } 0 doublingCalls
  obtain ⟨-, htold, -, hspawn⟩ := hpass doubledKernel (.inr rfl)
  refine ⟨?_, htold.exitStatus?.mp hexit, hspawned, ((hspawn "/a" (by decide)).next 1 hspawned).1⟩
  obtain ⟨⟨call, args⟩, hc, he⟩ := (Option.any_eq_true _ _).mp hcall
  obtain rfl : call = .fork := of_decide_eq_true he
  obtain ⟨t', hstep, horder⟩ := hfork t args ht hc
  exact ⟨t, args, t', ht, hc, hstep, horder⟩

end CoopKernel
