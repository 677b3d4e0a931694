import CoopKernel.Proofs.LastWords.Mute
import CoopKernel.Proofs.LoadedBack

/-!
# One turn and a mute process

A mute process stays mute in the turn of another one, unless it ends. In its own turn it stays so unless it registers
a handler: it is loaded without one, works without one, and is saved without one where the turn ends with that. It
has its place in the table then, and has lost it if the turn ended because it is gone.
-/

namespace CoopKernel

variable {l : Ledger} {k : Kernel Volume} {pid q : Pid} {t t' : Turn Volume}

/-! ## Where a process is when its turn ends -/

namespace Turn

/-- The process is in its place, with the backing file that it was loaded from. -/
def Sits (t : Turn Volume) : Prop :=
  ∃ p, t.kernel.table.process? t.self.pid = some p ∧ p.backing = t.self.backing

/-- The process changes in the table, but not its backing file. -/
theorem Sits.modify (pid : Pid) {f : Process → Process} (hf : ∀ p, (f p).backing = p.backing) :
    Stays Sits t { t with kernel := t.kernel.onTable (·.modify pid f) } := by
  rintro ⟨p, hp, hbacking⟩
  by_cases he : pid = t.self.pid
  · subst he
    exact ⟨f p, Table.process?_modify_self hp, (hf p).trans hbacking⟩
  · exact ⟨p, (Table.process?_modify_of_ne (Ne.symm he)).trans hp, hbacking⟩

theorem detached_sits : Detached (σ := Volume) (Stays Sits) where
  memory := indifferent_composed.memory
  space _ _ _ := id
  glance _ _ _ _ := id
  window _ _ := id
  state _ _ _ _ _ := id
  handler _ _ _ _ := id
  stdio _ _ := id
  status _ pid _ := Sits.modify pid fun _ => rfl
  count _ pid := Sits.modify pid fun _ => rfl
  note _ _ _ := id
  store _ _ := id
  loaded _ _ _ _ := id
  setProgram _ pid _ := Sits.modify pid fun _ => rfl

/-- Where a turn ends the process is in its place if it is to be saved, and is gone if the turn ended because of
that. -/
def Parts (pid : Pid) (e : TurnEnd) (t : Turn Volume) : Prop :=
  (e.isSaved → t.Sits) ∧ (e = .exited → ¬t.kernel.table.isLive pid)

/-- Killing is the end of a turn only if it is the end of the process. -/
theorem killCall_exited (number : UInt16) : Ensures (· = t) (killCall number : InTurn Volume Reply)
    (fun _ _ => True) fun e t' => e = .exited → ¬t'.kernel.table.isLive t.self.pid := by
  have hdone : Ensures (· = t) (pure none : InTurn Volume Reply) (fun _ _ => True)
      fun e t' => e = .exited → ¬t'.kernel.table.isLive t.self.pid := .pure fun _ _ => trivial
  unfold killCall
  refine .get_bind_eq fun s hs => ?_
  obtain rfl : t = s := hs.symm
  dsimp only
  split
  · exact hdone
  · split
    · exact hdone
    · split
      · refine .bind (Q := fun _ _ => True) ?_ fun handled => ?_
        · rintro u -
          exact (lift_works lastWords_composed u).mono (fun _ _ _ => trivial) fun e _ hr he => by
            subst he
            exact hr.1.elim
        · split
          · exact .pure fun _ _ => trivial
          · exact .bind (Q := fun _ (u : Turn Volume) => ¬u.kernel.table.isLive t.self.pid)
              (fun u _ => Kernel.not_isLive_kill u.kernel t.self.pid exitKilled) fun _ => .throw fun _ hdead _ => hdead
      · refine .bind (Q := fun _ _ => True) (fun _ _ => trivial) fun handled => ?_
        split
        · exact .bind (Q := fun _ _ => True) (fun _ _ => trivial) fun _ => .pure fun _ _ => trivial
        · exact .pure fun _ _ => trivial

/-- So it is with the other calls by which a process deals with others. -/
theorem Sits.answerDealing (h : t.Sits) {call : Syscall} (hd : call.isDealing) (args : CallArgs) :
    Yields (answer call args t) (fun _ _ => True) (Parts t.self.pid) := by
  have hgone {act : InTurn Volume Reply} (hsaved : Yields (act t) (fun _ _ => True) fun e _ => e.isSaved = false)
      (hexited : Yields (act t) (fun _ _ => True) fun e t' => e = .exited → ¬t'.kernel.table.isLive t.self.pid) :
      Yields (act t) (fun _ _ => True) (Parts t.self.pid) := by
    cases ha : act t with
    | ok reply t' => trivial
    | error e t' =>
      rw [ha] at hsaved hexited
      exact ⟨fun he => absurd (hsaved.symm.trans he) nofun, hexited⟩
  have hsaved (hfork : call ≠ .fork) := (not_saved_of_dealing hd hfork args t).mono (fun _ _ _ => trivial)
    fun _ _ hr => hr.1
  cases call
  -- Only a process that doubles itself is saved with the end of its turn, and it keeps its place.
  case fork =>
    obtain ⟨p, hp, hbacking⟩ := h
    have hmade : (t.kernel.fork t.self).2.table.process? t.self.pid = some p :=
      (t.kernel.fork_making t.self).process? hp
    have hanswer : (answer .fork args : InTurn Volume Reply) t = .error .yielded _ := t.fork_eq
    rw [hanswer]
    refine ⟨fun _ => ?_, nofun⟩
    rcases hf : t.kernel.fork t.self with ⟨e | child, k⟩ <;> rw [hf] at hmade <;> exact ⟨p, hmade, hbacking⟩
  case exit => exact hgone (hsaved nofun) fun _ => Kernel.not_isLive_kill t.kernel t.self.pid args.a
  case kill => exact hgone (hsaved nofun) (killCall_exited args.a t rfl)
  case sendSignal =>
    have d : Indifferent (σ := Volume) (Stays fun _ => True) Composed fun _ => True := indifferent_composed
    refine hgone (hsaved nofun) ((d.sendSignal dealing_composed.toMeddling _ _ t).mono (fun _ _ _ => trivial) ?_)
    rintro e _ hr rfl
    exact hr.1.elim
  all_goals cases hd

/-- However a turn ends in a step, the process is where it should be. -/
theorem Sits.step (h : t.Sits) : Yields (Turn.step t) (fun _ _ => True) (Parts t.self.pid) := by
  have hundealt {e : TurnEnd} {t' : Turn Volume} (hr : e ≠ .exited ∧ Stays Sits t t') : t'.Parts t.self.pid e :=
    ⟨fun _ => hr.2 h, fun he => absurd he hr.1⟩
  cases hcall : t.call? with
  | none => exact (detached_sits.step hcall).mono (fun _ _ _ => trivial) fun e t' hr =>
      hundealt ⟨ne_exited_of_fault e hr.1, hr.2⟩
  | some callArgs =>
    obtain ⟨call, args⟩ := callArgs
    cases hd : call.isDealing with
    | false =>
      exact (detached_sits.stepCall hcall (detached_sits.answer hd args)).mono (fun _ _ _ => trivial)
        fun _ _ => hundealt
    | true =>
      have hself : t.atCall.self.pid = t.self.pid := by rw [(atCall_composed hcall).self]
      have hat : t.atCall.Sits := detached_sits.atCall hcall h
      have hanswer : Yields (answer call args t.atCall) (fun _ _ => True) (Parts t.self.pid) := by
        rw [← hself]
        exact hat.answerDealing hd args
      rw [(step_call_cases hcall).2.2]
      cases ha : answer call args t.atCall with
      | ok reply t' =>
        rw [bind_of_ok ha]
        cases reply <;> trivial
      | error e t' =>
        rw [ha] at hanswer
        rw [bind_of_error ha]
        exact hanswer

end Turn

/-! ## Mute processes in a turn -/

namespace Turn

/-- A process is mute in a turn: its own, in which it is loaded without a handler for being killed, or that of
another process, where it is mute in its backing file. -/
inductive Mute (q : Pid) (t : Turn Volume) : Prop
  | own (hself : t.self.pid = q) (hh : t.self.state.handler .suicide = 0)
      (hfew : t.self.state.env.argCount.toNat ≤ maxArguments)
  | other (hne : q ≠ t.self.pid) (hmute : t.kernel.Mute q)

/-- A process is mute when a turn ends, and will be found so behind the end of it. -/
inductive LeavesMute (q : Pid) (e : TurnEnd) (t : Turn Volume) : Prop
  | own (hself : t.self.pid = q) (hh : t.self.state.handler .suicide = 0)
      (hfew : t.self.state.env.argCount.toNat ≤ maxArguments) (hparts : t.Parts q e)
  | other (hne : q ≠ t.self.pid) (hspares : t.Spares (Kernel.Mute q) q e)

theorem Mute.handler (h : t.Mute q) {s : Snapshot} (hs : t.stateOf? q = some s) : s.handler .suicide = 0 := by
  cases h with
  | own hself hh _ =>
    rw [← hself, stateOf?_self] at hs
    rw [← Option.some.inj hs]
    exact hh
  | other hne hmute =>
    obtain ⟨p, s', hp, hkept, hh⟩ := hmute
    rw [stateOf?_other hne hp, hkept] at hs
    rw [← Option.some.inj hs]
    exact hh

theorem kills_iff : t.kills q ↔
    ∃ args, t.call? = some (.kill, args) ∧ Pid.ofNat? args.a.toNat = some q ∧ q.val ≠ 0 := by
  simp only [kills, Option.any_eq_true, Bool.and_eq_true, decide_eq_true_eq, Prod.exists]
  constructor
  · rintro ⟨_, args, hcall, ⟨rfl, hfirst⟩, htarget⟩
    exact ⟨args, hcall, htarget, hfirst⟩
  · rintro ⟨args, hcall, htarget, hfirst⟩
    exact ⟨_, args, hcall, ⟨rfl, hfirst⟩, htarget⟩

/-- Being killed is the end of a mute process. -/
theorem Mute.killed (hmute : t.Mute q) (h : InCustody l t) (hkills : t.kills q) : ¬t.outcome.table.isLive q := by
  obtain ⟨args, hcall, htarget, hfirst⟩ := kills_iff.mp hkills
  have hlive : t.kernel.table.isLive q := by
    cases hmute with
    | own hself _ _ =>
      obtain ⟨p, hp, -⟩ := h.seated
      exact Table.isLive_iff.mpr ⟨p, hself ▸ hp⟩
    | other _ hmute => exact hmute.isLive
  cases kill_fate h hcall htarget hfirst hlive with
  | killed s hs hh hended => exact Fallout.not_live_of_free hended
  | failed hdied => exact Fallout.not_live_of_free hdied.1
  | spared _ _ s _ _ _ hs hh => exact absurd (hmute.handler hs) hh

/-- A process that survives being killed is mute from then on. -/
theorem mute_of_kills (h : InCustody l t) (hfew : t.self.state.env.argCount.toNat ≤ maxArguments)
    (hkills : t.kills q) (hlive : t.kernel.table.isLive q) (hsurvives : t.outcome.table.isLive q) :
    ∃ t', Turn.step t = .ok () t' ∧ t'.Mute q := by
  obtain ⟨args, hcall, htarget, hfirst⟩ := kills_iff.mp hkills
  cases kill_fate h hcall htarget hfirst hlive with
  | killed s hs hh hended => exact absurd hsurvives (Fallout.not_live_of_free hended)
  | failed hdied => exact absurd hsurvives (Fallout.not_live_of_free hdied.1)
  | spared t' p s s' es hstep hs hh hp hactive hs' hip hclear =>
    have hfew' := step_few t hfew
    rw [after_ok hstep] at hfew'
    refine ⟨t', hstep, ?_⟩
    by_cases hself : q = t'.self.pid
    · subst hself
      rw [stateOf?_self] at hs'
      obtain rfl : t'.self.state = s' := Option.some.inj hs'
      exact .own rfl hclear hfew'
    · rw [stateOf?_other hself hp] at hs'
      exact .other hself ⟨p, s', hp, hs', hclear⟩

/-! ## Turns of others -/

variable {args : CallArgs}

/-- A process that is signalled by another one gets the signal from the kernel. -/
theorem step_sendOther (hcall : t.call? = some (.sendSignal, args)) (htarget : Pid.ofNat? args.a.toNat = some q)
    {signal : Signal} (hs : Signal.ofNat? args.b.toNat = some signal) (hother : q ≠ t.atCall.self.pid) :
    (after step t).kernel = (t.atCall.kernel.sendSignal q signal).2 := by
  rw [after, (step_call_cases hcall).2.2, ← after, after_conclude]
  have hanswer : (answer .sendSignal args : InTurn Volume Reply) = Turn.sendSignal args.a args.b := rfl
  rw [hanswer, Turn.sendSignal, hs, htarget]
  dsimp only
  rw [after, get_bind, if_neg hother]
  rfl

/-- Another process is as mute behind a step as before, if it is alive. -/
theorem Minds.step_mute (h : t.Minds (Kernel.Mute q) l q) (hreaches : t.reaches q = false)
    (hlive : (after Turn.step t).kernel.table.isLive q) :
    Yields (Turn.step t) (fun _ t' => t'.kernel.Mute q) (Turn.Spares (Kernel.Mute q) q) := by
  have hself {call : Syscall} {args : CallArgs} (hcall : t.call? = some (call, args)) : q ≠ t.atCall.self.pid := by
    rw [(atCall_composed hcall).self]
    exact h.other
  refine h.step (Kernel.mute_lasts q) (Bool.eq_false_iff.mpr fun hkills => ?_) hreaches
    fun args s hcall htarget hs => ?_
  · -- It would not be alive if it were killed.
    obtain ⟨args, hcall, htarget, hfirst⟩ := kills_iff.mp hkills
    have hat := h.atCall (Kernel.mute_lasts q) hcall
    have hstep := step_killOther hcall htarget hfirst (hself hcall) hat.knows.isLive
    refine (Mute.other h.other h.knows).killed h.held hkills ?_
    rw [after_ok hstep] at hlive
    rw [Turn.outcome, hstep]
    exact hlive
  · have hat := h.atCall (Kernel.mute_lasts q) hcall
    rw [step_sendOther hcall htarget hs (hself hcall)] at hlive
    exact hat.knows.sendSignal hat.held.custody hlive

/-! ## Its own turn -/

/-- The next step registers a handler for a signal. -/
def registers (signal : Signal) (t : Turn Volume) : Bool :=
  t.call?.any fun (call, args) => call = .setHandler && Signal.ofNat? args.a.toNat = some signal && args.b ≠ 0

/-- A handler that is missing is missing behind a step that does not register one. -/
theorem step_unhandled {signal : Signal} (h : t.self.state.handler signal = 0)
    (hregisters : t.registers signal = false) : (after step t).self.state.handler signal = 0 := by
  have hstep : Handlers (fun s address => s = signal → address = 0) t (after step t) := by
    cases hcall : t.call? with
    | none => exact ((indifferent_handlers.step hcall).mono (fun _ _ => id) fun _ _ hr => hr.2).after
    | some callArgs =>
      obtain ⟨call, args⟩ := callArgs
      have hanswer : Works (Handlers fun s address => s = signal → address = 0) (fun _ => True)
          (answer call args : InTurn Volume Reply) := answer_handlers (fun _ _ => rfl) fun hset s hs he => by
        simpa [registers, hcall, hset, hs, he] using hregisters
      exact ((indifferent_handlers.stepCall hcall hanswer).mono (fun _ _ => id) fun _ _ hr => hr.2).after
  rcases hstep signal with he | hzero
  · rw [he]
    exact h
  · exact hzero rfl

/-- A process is as mute behind a step of its own, if it does not register a handler. -/
theorem step_own_mute (h : InCustody l t) (hh : t.self.state.handler .suicide = 0)
    (hfew : t.self.state.env.argCount.toNat ≤ maxArguments) (hregisters : t.registers .suicide = false) :
    Yields (Turn.step t) (fun _ => Mute t.self.pid) (LeavesMute t.self.pid) := by
  have hunhandled := step_unhandled hh hregisters
  have hstep_few := step_few t hfew
  have hself := (step_settled t).self
  obtain ⟨p, hp, -, -, hbacking⟩ := h.seated
  have hparts := Sits.step ⟨p, hp, hbacking⟩
  cases hs : Turn.step t with
  | ok _ t' =>
    rw [after_ok hs] at hunhandled hstep_few hself
    exact .own (by rw [hself]) hunhandled hstep_few
  | error e t' =>
    rw [after_error hs] at hunhandled hstep_few hself
    rw [hs] at hparts
    exact .own (by rw [hself]) hunhandled hstep_few hparts

/-- A process is as mute behind a step as before, if it is alive, nobody else reaches its backing file, and it does
not register a handler. -/
theorem Mute.step (hmute : t.Mute q) (h : InCustody l t)
    (hgrowth : t.self.backingPath = t.kernel.backingPath t.self.pid)
    (hlive : (after Turn.step t).kernel.table.isLive q) (hreaches : q ≠ t.self.pid → t.reaches q = false)
    (hregisters : t.self.pid = q → t.registers .suicide = false) :
    Yields (Turn.step t) (fun _ => Mute q) (LeavesMute q) := by
  cases hmute with
  | own hself hh hfew =>
    subst hself
    exact step_own_mute h hh hfew (hregisters rfl)
  | other hne hmute =>
    have hminds : t.Minds (Kernel.Mute q) l q := ⟨h, hgrowth, hne, hmute⟩
    have hstep := hminds.step_mute (hreaches hne) hlive
    have hself := (step_settled t).self
    cases hs : Turn.step t with
    | ok _ t' =>
      rw [hs] at hstep
      rw [after_ok hs] at hself
      exact .other (by rw [hself]; exact hne) hstep
    | error e t' =>
      rw [hs] at hstep
      rw [after_error hs] at hself
      exact .other (by rw [hself]; exact hne) hstep

/-! ## Beginnings and ends -/

theorem saved_mute (c : Custody l t.kernel) (hsits : t.Sits) (hh : t.self.state.handler .suicide = 0)
    (hfew : t.self.state.env.argCount.toNat ≤ maxArguments) (hlive : (Kernel.endTurn t none).table.isLive t.self.pid) :
    (Kernel.endTurn t none).Mute t.self.pid := by
  obtain ⟨p, hp, hbacking⟩ := hsits
  rcases Kernel.endTurn_none_cases t with ⟨hdone, hend⟩ | ⟨-, hend⟩
  · rw [hend]
    exact .of_save c hp hbacking hfew hh (Prod.ext hdone rfl)
  · rw [hend] at hlive
    exact absurd hlive (Kernel.not_isLive_fault _ _ _)

/-- A process that was mute all through a turn is mute behind it, if it is alive. -/
theorem Mute.endTurn (hmute : t.Mute q) (h : InCustody l t)
    (hgrowth : t.self.backingPath = t.kernel.backingPath t.self.pid)
    (hlive : (Kernel.endTurn t none).table.isLive q) : (Kernel.endTurn t none).Mute q := by
  cases hmute with
  | own hself hh hfew =>
    subst hself
    obtain ⟨p, hp, -, -, hbacking⟩ := h.seated
    exact saved_mute h.custody ⟨p, hp, hbacking⟩ hh hfew hlive
  | other hne hmute =>
    have hminds : t.Minds (Kernel.Mute q) l q := ⟨h, hgrowth, hne, hmute⟩
    exact (Kernel.mute_lasts q).endTurn h.custody hmute hne fun _ => hminds.apart

/-- So it is if a step ended the turn, unless the kernel is halted by that. -/
theorem LeavesMute.endTurn {e : TurnEnd} (hleaves : t.LeavesMute q e) (c : Custody l t.kernel)
    (hlive : (Kernel.endTurn t (some e)).table.isLive q) :
    (Kernel.endTurn t (some e)).halted = true ∨ (Kernel.endTurn t (some e)).Mute q := by
  cases hleaves with
  | own hself hh hfew hparts =>
    subst hself
    cases e with
    | yielded | blocked => exact .inr (saved_mute c (hparts.1 rfl) hh hfew hlive)
    | exited => exact absurd hlive (hparts.2 rfl)
    | faulted f => exact absurd hlive (Kernel.not_isLive_fault _ _ _)
    | overflowed => exact .inl rfl
  | other hne hspares => exact .inr ((Kernel.mute_lasts q).endTurn c hspares.1 hne hspares.2)

end Turn

/-- A mute process is given its turn without a handler. -/
theorem Kernel.Mute.openTurn (c : Custody l k) (h : k.Mute q) (pid : Pid) (why : Resumption) :
    match k.openTurn pid why with
    | .error k' => k'.Mute q
    | .ok t => t.Mute q := by
  by_cases hne : q = pid
  · subst hne
    obtain ⟨self, hl, hself, hh, hfew⟩ := h.load c
    rw [Kernel.openTurn, hl]
    cases why with
    | ready => exact .own hself hh hfew
    | result value => exact .own hself hh hfew
  · have hopen := (Kernel.mute_lasts q).openTurn c h hne why
    cases ho : k.openTurn pid why with
    | error k' =>
      rw [ho] at hopen
      exact hopen
    | ok t =>
      rw [ho] at hopen
      exact .other hopen.other hopen.knows

end CoopKernel
