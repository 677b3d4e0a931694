import CoopKernel.Proofs.Outliving.Calls

/-!
# One step and what is known of others

What is known of a process and lasts is known still when another process has taken a step, whatever that process
did: it ended, and those that waited were woken with the status; somebody else was signalled, faulted and died of
that, with a cascade of deaths; files were written, and processes made. There are three kinds of steps that are
not covered: those that kill the process, those that send it a signal, and those that write to its backing file.
-/

namespace CoopKernel

variable {P : Kernel Volume → Prop} {l : Ledger} {k : Kernel Volume} {pid q : Pid} {t t' : Turn Volume} {α : Type}

open Kernel (Lasts)

/-! ## A process beside others -/

namespace Turn

/-- A process sits in its place, and something is known of another one. -/
structure Minds (P : Kernel Volume → Prop) (l : Ledger) (q : Pid) (t : Turn Volume) : Prop where
  held : InCustody l t
  growth : t.self.backingPath = t.kernel.backingPath t.self.pid
  other : q ≠ t.self.pid
  knows : P t.kernel

namespace Minds

theorem seat (h : t.Minds P l q) : ∃ p, t.Housed p := by
  obtain ⟨p, hp, -, -, hbacking⟩ := h.held.seated
  exact ⟨p, hp, hbacking.symm, h.growth⟩

variable (d : Lasts q P)

include d

/-- Work that keeps to the files of the process is no matter to others that keep their places. -/
theorem secluded (h : t.Minds P l q) (hs : Secluded t t')
    (hsame : ∀ r, t.kernel.table.process? q = some r →
      ∃ count, t'.kernel.table.process? q = some { r with count }) : P t'.kernel := by
  obtain ⟨p, hhoused⟩ := h.seat
  obtain ⟨r, hr⟩ := Table.isLive_iff.mp (d.live h.knows)
  obtain ⟨home, hhome, hspares, -⟩ := hhoused.spares hs h.held.custody hr h.other
  exact d.same h.knows hr (hsame r hr) (hspares.behind? hhome)

theorem plain (h : t.Minds P l q) (hp : Plain t t') (hs : Secluded t t') : t'.Minds P l q where
  held := h.held.plain hp
  growth := by
    rw [hp.self, h.growth, Kernel.backingPath, Kernel.backingPath, hp.kernel.rest]
  other := by
    rw [hp.self]
    exact h.other
  knows := h.secluded d hs fun _ hr => Table.process?_of_resetCounts hp.kernel.table hr

/-- So it is when a system call is answered. -/
theorem atCall (h : t.Minds P l q) {call : Syscall} {args : CallArgs} (hcall : t.call? = some (call, args)) :
    t.atCall.Minds P l q :=
  h.plain d (domestic_plain.atCall addCount_plain called_plain hcall) (indifferent_secluded.atCall hcall)

/-! ## System calls -/

theorem exit (h : t.Minds P l q) (status : UInt16) :
    P (after (Turn.exit status : InTurn Volume Reply) t).kernel :=
  d.kill h.held.custody h.knows h.other status

theorem fork (h : t.Minds P l q) : P (after (Turn.fork : InTurn Volume Reply) t).kernel := by
  have hmade := d.fork h.held.custody h.knows t.self
  rw [after_error t.fork_eq]
  rcases hf : t.kernel.fork t.self with ⟨e | child, k⟩
  · rw [hf] at hmade
    exact d.note hmade _
  · rw [hf] at hmade
    exact hmade

/-- Work on the process itself that makes it active at most. -/
theorem inward (h : t.Minds P l q) {act : Attempt Volume α} (hin : Inward act) (hs : Keeps Secluded act) :
    Ensures (· = t) act (fun _ t => Custody l t.kernel ∧ P t.kernel) fun _ t => Custody l t.kernel ∧ P t.kernel := by
  have hafter : Custody l (after act t).kernel ∧ P (after act t).kernel :=
    ⟨Custody.inward hin t h.held.custody, h.secluded d (hs t) fun r hr => ⟨r.count, hin.others h.other hr⟩⟩
  intro s hst
  rw [hst]
  cases hact : act t with
  | ok a t' =>
    rw [after_ok hact] at hafter
    exact hafter
  | error f t' =>
    rw [after_error hact] at hafter
    exact hafter

/-- Whoever else is killed. The first process cannot be. -/
theorem killCall (h : t.Minds P l q) {number : UInt16}
    (hspared : ∀ target, Pid.ofNat? number.toNat = some target → target.val ≠ 0 → q ≠ target) :
    P (after (Turn.killCall number : InTurn Volume Reply) t).kernel := by
  let K (t : Turn Volume) : Prop := Custody l t.kernel ∧ P t.kernel
  have hkill {pid : Pid} (hne : q ≠ pid) : Ensures K (onKernel (·.kill pid exitKilled) : InTurn Volume Bool)
      (fun _ => K) fun _ => K :=
    fun t h => ⟨h.1.kill pid exitKilled, d.kill h.1 h.2 hne exitKilled⟩
  have hdone : Ensures K (pure none : InTurn Volume Reply) (fun _ => K) fun _ => K := .pure fun _ => id
  have hcall : Ensures (fun t' => t.Minds P l q ∧ t = t') (Turn.killCall number : InTurn Volume Reply) (fun _ => K)
      fun _ => K := by
    unfold Turn.killCall
    refine .get_bind_eq ?_
    rintro _ ⟨h, rfl⟩
    have hstart : K t := ⟨h.held.custody, h.knows⟩
    dsimp only
    split
    · exact hdone.mono (fun _ he => he ▸ hstart) (fun _ _ => id) fun _ _ => id
    · next target htarget =>
      split
      · exact hdone.mono (fun _ he => he ▸ hstart) (fun _ _ => id) fun _ _ => id
      · next hfirst =>
        have hne : q ≠ target := hspared target htarget hfirst
        split
        · -- It kills itself, unless it handles that.
          have hlast := h.inward d lastWords_inward (indifferent_secluded.lastWords trivial).keeps
          refine .bind hlast.adaptExcept fun handled => ?_
          split
          · exact hdone
          · exact .bind (hkill h.other) fun _ => .throw fun _ => id
        · -- It kills another one, unless that one handles it.
          refine .bind (Q := fun _ => K) ?_ fun handled => ?_
          · rintro _ rfl
            dsimp only [onKernel]
            split
            · exact ⟨h.held.custody.withLoaded lastWords_inward, d.withLoaded h.held.custody h.knows hne
                lastWords_inward (indifferent_secluded.lastWords trivial).keeps⟩
            · exact hstart
          · split
            · exact .bind (hkill hne) fun _ => hdone
            · exact hdone
  exact (hcall.after ⟨h, rfl⟩).2

/-- Whoever is sent a signal, if it is all the same when that is the process itself. -/
theorem sendSignal (h : t.Minds P l q) {number signal : UInt16}
    (hself : ∀ s, Pid.ofNat? number.toNat = some q → Signal.ofNat? signal.toNat = some s →
      P (t.kernel.sendSignal q s).2) :
    P (after (Turn.sendSignal number signal : InTurn Volume Reply) t).kernel := by
  unfold Turn.sendSignal
  cases hs : Signal.ofNat? signal.toNat with
  | none => exact h.knows
  | some s =>
    cases ht : Pid.ofNat? number.toNat with
    | none => exact h.knows
    | some target =>
      dsimp only
      rw [after, get_bind, ← after]
      by_cases hown : target = t.self.pid
      · -- It is sent to the process whose turn it is.
        have hkept := h.inward d (deliver_inward s) (indifferent_secluded.deliver s).keeps
        have hcall : Ensures (· = t) (do return Reply.flag (← (deliver s : Attempt Volume Bool)) :
            InTurn Volume Reply) (fun _ t => Custody l t.kernel ∧ P t.kernel)
            fun _ t => Custody l t.kernel ∧ P t.kernel :=
          .bind hkept.adaptExcept fun _ => .pure fun _ => id
        rw [if_pos hown]
        exact (hcall.after rfl).2
      · rw [if_neg hown]
        have hsent : (after (do return Reply.flag (← onKernel (·.sendSignal target s)) :
            InTurn Volume Reply) t).kernel = (t.kernel.sendSignal target s).2 := rfl
        rw [hsent]
        by_cases hq : target = q
        · subst hq
          exact hself s ht hs
        · unfold Kernel.sendSignal
          split
          · exact d.withLoaded h.held.custody h.knows (Ne.symm hq) (deliver_inward s)
              (indifferent_secluded.deliver s).keeps
          · exact h.knows

end Minds

/-! ## How a turn ends -/

/-- The files of the process and of another one are at different paths. -/
def Apart (q : Pid) (t : Turn Volume) : Prop :=
  ∀ r, t.kernel.table.process? q = some r →
    t.kernel.store.pathOf? t.self.backing ≠ t.kernel.store.pathOf? r.backing

/-- A turn ended, and something is known of another process; it will not be disturbed when the one whose turn it
was is saved. -/
def Spares (P : Kernel Volume → Prop) (q : Pid) (e : TurnEnd) (t : Turn Volume) : Prop :=
  P t.kernel ∧ (e.isSaved → t.Apart q)

/-- Of the calls by which a process deals with others, only doubling ends with the process being saved. -/
theorem not_saved_of_dealing {call : Syscall} (hd : call.isDealing) (hfork : call ≠ .fork) (args : CallArgs) :
    Works (Stays fun _ => True) (fun e => e.isSaved = false) (answer call args : InTurn Volume Reply) := by
  have d : Indifferent (σ := Volume) (Stays fun _ => True) (Stays fun _ => True) fun _ => True :=
    indifferent_composed.mono fun _ _ _ => id
  have m : Meddling (σ := Volume) (Stays fun _ => True) := ⟨fun _ _ _ => id, fun _ _ _ => id⟩
  have hfault (e : TurnEnd) (he : OnFault (fun _ => True) e) : e.isSaved = false := by
    cases e with
    | faulted f => rfl
    | yielded | blocked | exited | overflowed => exact he.elim
  cases call
  case exit => exact (Indifferent.exit m _).mono (fun _ _ => id) fun e he => by rw [he]; rfl
  case fork => exact absurd rfl hfork
  case kill =>
    refine (d.killCall m trivial _).mono (fun _ _ => id) ?_
    rintro e (rfl | he)
    · rfl
    · exact hfault e he
  case sendSignal => exact (d.sendSignal m _ _).mono (fun _ _ => id) hfault
  all_goals cases hd

namespace Minds

theorem apart (h : t.Minds P l q) : t.Apart q := by
  intro r hr
  obtain ⟨p, hp, hbacking, -⟩ := h.seat
  rw [hbacking]
  exact h.held.custody.backing_paths hp hr (Ne.symm h.other)

variable (d : Lasts q P)

include d

/-- A process that doubled itself is saved to its own file. -/
theorem fork_apart (h : t.Minds P l q) : (after (Turn.fork : InTurn Volume Reply) t).Apart q := by
  have c := h.held.custody
  obtain ⟨p, hp, hbacking, -⟩ := h.seat
  obtain ⟨r, hr⟩ := Table.isLive_iff.mp (d.live h.knows)
  -- The file of the new process is neither that of this one nor that of the other one.
  have hsame {q : Pid} {r : Process} (hr : t.kernel.table.process? q = some r) :
      (t.kernel.fork t.self).2.store.pathOf? r.backing = t.kernel.store.pathOf? r.backing :=
    (Kernel.fork_spares (c.backing_open hr) (fun _ hnone =>
      c.home_ne_backingPath hr (Table.ne_of_free hr hnone)) t.self).path
  have hkernel : (after (Turn.fork : InTurn Volume Reply) t).kernel.store = (t.kernel.fork t.self).2.store ∧
      (after (Turn.fork : InTurn Volume Reply) t).kernel.table = (t.kernel.fork t.self).2.table ∧
        (after (Turn.fork : InTurn Volume Reply) t).self.backing = t.self.backing := by
    rw [after_error t.fork_eq]
    rcases t.kernel.fork t.self with ⟨e | child, k⟩ <;> exact ⟨rfl, rfl, rfl⟩
  obtain ⟨hstore, htable, hself⟩ := hkernel
  intro r' hr'
  rw [htable] at hr'
  obtain rfl : r = r' := Option.some.inj (((t.kernel.fork_making t.self).process? hr).symm.trans hr')
  rw [hstore, hself, hbacking, hsame hp, hsame hr]
  exact c.backing_paths hp hr (Ne.symm h.other)

/-- What the process does by the four calls. -/
theorem answerDealing (h : t.Minds P l q) {call : Syscall} (hd : call.isDealing) (args : CallArgs)
    (hkill : call = .kill → ∀ target, Pid.ofNat? args.a.toNat = some target → target.val ≠ 0 → q ≠ target)
    (hsignal : call = .sendSignal → ∀ s, Pid.ofNat? args.a.toNat = some q → Signal.ofNat? args.b.toNat = some s →
      P (t.kernel.sendSignal q s).2) :
    Yields (answer call args t) (fun _ t' => P t'.kernel) (Turn.Spares P q) := by
  have hknown : P (after (answer call args : InTurn Volume Reply) t).kernel := by
    cases call
    case exit => exact h.exit d args.a
    case fork => exact h.fork d
    case kill => exact h.killCall d (hkill rfl)
    case sendSignal => exact h.sendSignal d (hsignal rfl)
    all_goals cases hd
  by_cases hfork : call = .fork
  · subst hfork
    have hapart := h.fork_apart d
    have hanswer : (answer .fork args : InTurn Volume Reply) t = .error .yielded _ := t.fork_eq
    rw [after_error t.fork_eq] at hapart
    rw [after_error hanswer] at hknown
    rw [hanswer]
    exact ⟨hknown, fun _ => hapart⟩
  · have hends := not_saved_of_dealing hd hfork args t
    cases ha : answer call args t with
    | ok reply t' =>
      rw [after_ok ha] at hknown
      exact hknown
    | error e t' =>
      rw [after_error ha] at hknown
      rw [ha] at hends
      exact ⟨hknown, fun he => absurd (hends.1.symm.trans he) nofun⟩

/-- What the process does by the others, if that is not aimed at the backing file of the other one. -/
theorem answerUndealt (h : t.Minds P l q) {call : Syscall} (hd : call.isDealing = false) (args : CallArgs)
    (htarget : ∀ r, t.kernel.table.process? q = some r →
      t.target? call args ≠ t.kernel.store.pathOf? r.backing) :
    Yields (answer call args t) (fun _ t' => P t'.kernel) (Turn.Spares P q) := by
  obtain ⟨r, hr⟩ := Table.isLive_iff.mp (d.live h.knows)
  obtain ⟨program, home, content, hc, hlives⟩ := h.held.livesBy h.growth h.other hr
  have hn := hlives (some content) (.inr rfl)
  have hfiles : t.self.program ≠ t.self.backing := by
    obtain ⟨p, hp, -, hprogram, hbacking⟩ := h.held.seated
    rw [← hprogram, ← hbacking]
    exact (h.held.custody.backing_apart hp hp).symm
  have hhome : t.target? call args ≠ some home := by
    rw [← hn.backing]
    exact htarget r hr
  have hknown {t' : Turn Volume} (hn' : Neighbour.LivesBy ⟨t.self.pid, q, r, program, home, some content⟩ t') :
      P t'.kernel := by
    refine d.same h.knows hr ⟨r.count, hn'.seat⟩ ?_
    rw [Volume.behind?, hn'.backing, hc]
    exact hn'.content content rfl
  refine (Neighbour.LivesBy.answerUndealt hd args t ⟨hn, hfiles, fun _ => hhome⟩).mono (fun _ t' => hknown)
    fun e t' hn' => ⟨hknown hn', fun _ r' hr' => ?_⟩
  obtain rfl : r = r' := Option.some.inj (hn'.seat.symm.trans hr')
  obtain ⟨own, hown, hne⟩ := hn'.workplace
  rw [hown, hn'.backing]
  exact fun he => hne (Option.some.inj he)

end Minds

/-! ## Steps -/

/-- The next step kills the process, unless that has a handler for it. The first process cannot be killed. -/
def kills (q : Pid) (t : Turn Volume) : Bool :=
  t.call?.any fun (call, args) => call = .kill && q.val ≠ 0 && Pid.ofNat? args.a.toNat = some q

/-- The next step writes to the backing file of the process or resizes it. -/
def reaches (q : Pid) (t : Turn Volume) : Bool :=
  t.call?.any fun (call, args) => (t.atCall.kernel.table.process? q).any fun r =>
    t.atCall.target? call args = t.atCall.kernel.store.pathOf? r.backing

/-- What is known of the other process is known behind the step, unless the process is killed by it, its file is
reached, or a signal that is sent to it makes a difference. -/
theorem Minds.step (d : Lasts q P) (h : t.Minds P l q) (hkill : t.kills q = false) (hreaches : t.reaches q = false)
    (hsignal : ∀ args s, t.call? = some (.sendSignal, args) → Pid.ofNat? args.a.toNat = some q →
      Signal.ofNat? args.b.toNat = some s → P (t.atCall.kernel.sendSignal q s).2) :
    Yields (Turn.step t) (fun _ t' => P t'.kernel) (Turn.Spares P q) := by
  cases hcall : t.call? with
  | none =>
    have hplain := step_plain hcall
    have hsecluded := indifferent_secluded.step hcall
    cases hs : Turn.step t with
    | ok u t' =>
      rw [hs] at hplain hsecluded
      exact (h.plain d hplain hsecluded).knows
    | error e t' =>
      rw [hs] at hplain hsecluded
      have hminds := h.plain d hplain.1 hsecluded.2
      exact ⟨hminds.knows, fun _ => hminds.apart⟩
  | some callArgs =>
    obtain ⟨call, args⟩ := callArgs
    have hat := h.atCall d hcall
    have hanswer : Yields (answer call args t.atCall) (fun _ t' => P t'.kernel) (Turn.Spares P q) := by
      cases hd : call.isDealing with
      | true =>
        refine hat.answerDealing d hd args (fun he target htarget hfirst hq => ?_) fun he s => ?_
        · subst hq
          simp [Turn.kills, hcall, he, htarget] at hkill
          exact hfirst (congrArg Fin.val hkill)
        · exact hsignal args s (he ▸ hcall)
      | false =>
        refine hat.answerUndealt d hd args fun r hr => ?_
        simpa [Turn.reaches, hcall, hr] using hreaches
    rw [(step_call_cases hcall).2.2]
    cases ha : answer call args t.atCall with
    | ok reply t' =>
      rw [ha] at hanswer
      rw [bind_of_ok ha]
      cases reply <;> exact hanswer
    | error e t' =>
      rw [ha] at hanswer
      rw [bind_of_error ha]
      exact hanswer

end Turn

/-- What is known of a process is known still when another one gets a turn. -/
theorem Kernel.Lasts.openTurn (d : Lasts q P) (c : Custody l k) (h : P k) (hne : q ≠ pid) (why : Resumption) :
    match k.openTurn pid why with
    | .error k' => P k'
    | .ok t => t.Minds P l q := by
  have hopen := c.openTurn pid why
  unfold Kernel.openTurn at hopen ⊢
  rcases hl : k.load pid with ⟨f | self, k₁⟩
  · exact d.fault (c.quiet (quiet_of_load hl)) (d.load h hl) hne f
  · rw [hl] at hopen
    obtain ⟨p, hhoused⟩ := housed_of_load hl
    have hself : self.pid = pid := by
      obtain ⟨_, -, he⟩ := load_ok hl
      rw [he]
    have hother : q ≠ self.pid := hself ▸ hne
    have hactive {k : Kernel Volume} (h : P k) : P (k.onTable (·.setStatus pid .active)) :=
      d.keep h (Table.process?_modify_of_ne hne) fun _ _ => rfl
    cases why with
    | ready => exact ⟨hopen, hhoused.growth, hother, hactive (d.load h hl)⟩
    | result value => exact ⟨hopen, hhoused.growth, hother, hactive (d.note (d.load h hl) _)⟩

/-- What is known of a process is known still when the turn of another one is over. -/
theorem Kernel.Lasts.endTurn (d : Lasts q P) (c : Custody l t.kernel) (h : P t.kernel) (hne : q ≠ t.self.pid)
    {how : Option TurnEnd} (hapart : how.all TurnEnd.isSaved → t.Apart q) : P (Kernel.endTurn t how) := by
  have hsaved (hapart : t.Apart q) : P (Kernel.endTurn t none) := by
    obtain ⟨r, hr⟩ := Table.isLive_iff.mp (d.live h)
    have hkept := d.save t.self h hr (hapart r hr)
    rcases Kernel.endTurn_none_cases t with ⟨-, hend⟩ | ⟨-, hend⟩
    · rw [hend]
      exact hkept
    · rw [hend]
      exact d.fault (c.quiet (Kernel.save_quiet t.kernel t.self)) hkept hne .storage
  cases how with
  | none => exact hsaved (hapart rfl)
  | some e =>
    cases e with
    | yielded | blocked => exact hsaved (hapart rfl)
    | exited => exact h
    | faulted f => exact d.fault c h hne f
    | overflowed => exact d.keep h rfl fun _ _ => rfl

end CoopKernel
