import CoopKernel.Proofs.Handlers
import CoopKernel.Proofs.Outliving.Run

/-!
# What becomes of a process that is killed

A process that is killed by a system call, its own or that of another process, either has no handler for that and
ends, or dies of a fault of being loaded, sent into the handler or saved, or goes on in its handler. In the last
case it has no handler for being killed any more. Where the process is loaded, this is so of the snapshot that is
worked on, and of the one in its backing file otherwise.
-/

namespace CoopKernel

variable {σ : Type} [Storage σ] [VolumeBacked σ] {l : Ledger} {q : Pid} {p : Process}

namespace Turn

variable {α : Type} {act : Attempt σ α} {t : Turn σ}

omit [VolumeBacked σ] in
/-- Work on a process leaves it in its place. -/
theorem Inward.isLive (hin : Inward act) (h : t.kernel.table.isLive q) :
    (after act t).kernel.table.isLive q := by
  refine hin.kernel (P := fun k => k.table.isLive q) (fun k k' hq hlive => ?_) (fun _ _ _ => id) (fun k hlive => ?_)
    rfl h
  · rw [hq.rest]
    exact hlive
  · rw [Kernel.isLive_iff_status?] at hlive ⊢
    rw [Kernel.status?_setStatus]
    split
    · rw [Option.isSome_map]
      exact hlive
    · exact hlive

omit [VolumeBacked σ] in
theorem Inward.logsMore (hin : Inward act) (t : Turn σ) : Kernel.LogsMore t.kernel (after act t).kernel :=
  hin.kernel (P := Kernel.LogsMore t.kernel)
    (fun k k' hq hlogs => trans_of Kernel.LogsMore hlogs (.same (by rw [hq.rest])))
    (fun k e _ hlogs => trans_of Kernel.LogsMore hlogs (Kernel.logsMore_note k e))
    (fun _ hlogs => trans_of Kernel.LogsMore hlogs (.same rfl)) rfl (refl_of Kernel.LogsMore t.kernel)

end Turn

namespace Kernel

variable {k k' : Kernel σ}

/-- A process died of a fault since then. -/
def DiedOfFault (k : Kernel σ) (q : Pid) (k' : Kernel σ) : Prop :=
  Ended q exitFault k' ∧ ∃ f es, Logs k es k' ∧ .faulted q f ∈ es

omit [Storage σ] [VolumeBacked σ] in
theorem DiedOfFault.since {k₁ : Kernel σ} {es : List Event} (h : k₁.DiedOfFault q k') (hes : Logs k es k₁) :
    k.DiedOfFault q k' := by
  obtain ⟨hended, f, fs, hfs, hf⟩ := h
  exact ⟨hended, f, _, hes.append hfs, List.mem_append_right _ hf⟩

omit [VolumeBacked σ] in
theorem diedOfFault_fault (hlogs : LogsMore k k') (h : k'.table.isLive q) (f : Fault) :
    k.DiedOfFault q (k'.fault q f) := by
  obtain ⟨p, hp⟩ := Table.isLive_iff.mp h
  obtain ⟨hended, es, hes⟩ := fault_ends hp f
  obtain ⟨before, hbefore⟩ := hlogs
  exact ⟨hended, f, _, hbefore.append hes, List.mem_append_right _ List.mem_cons_self⟩

/-- What comes of letting a process that is not loaded have its last words. -/
inductive Hearing (k : Kernel σ) (q : Pid) (p : Process) : Option Bool × Kernel σ → Prop
  | silent (s : Snapshot) (k' : Kernel σ) (hs : k.kept? p.backing = some s) (hh : s.handler .suicide = 0)
      (hlive : k'.table.isLive q) : Hearing k q p (some false, k')
  | failed (k' : Kernel σ) (hdied : k.DiedOfFault q k') : Hearing k q p (none, k')
  | heard (s s' : Snapshot) (k' : Kernel σ) (hs : k.kept? p.backing = some s) (hh : s.handler .suicide ≠ 0)
      (hp : k'.table.process? q = some { p with status := .active }) (hs' : k'.kept? p.backing = some s')
      (hip : s'.reg Reg.ip = s.handler .suicide) (hclear : s'.handler .suicide = 0)
      (hlogs : Logs k [.signalled q .suicide (s.handler .suicide)] k') : Hearing k q p (some true, k')

theorem hearing_of_lastWords (c : Custody l k) (hp : k.table.process? q = some p) :
    k.Hearing q p (k.withLoaded fault q Turn.lastWords) := by
  have hlive : k.table.isLive q := Table.isLive_iff.mpr ⟨p, hp⟩
  unfold withLoaded
  -- It can die of being loaded, of being sent into its handler and of being saved.
  rcases hl : k.load q with ⟨f | self, k₁⟩
  all_goals
    have hrest := (quiet_of_load hl).rest
    have hlogs : LogsMore k k₁ := .same (by rw [hrest])
    have hlive₁ : k₁.table.isLive q := by rw [hrest]; exact hlive
  · exact .failed _ (diedOfFault_fault hlogs hlive₁ f)
  · obtain ⟨p', hp', hself⟩ := load_ok hl
    obtain rfl : p = p' := Option.some.inj (hp.symm.trans hp')
    obtain rfl : self.pid = q := by rw [hself]
    have hp₁ : k₁.table.process? self.pid = some p := by rw [hrest]; exact hp
    obtain ⟨content, hc⟩ := Option.isSome_iff_exists.mp (c.backing_file hp)
    have hkept := (VolumeBacked.kept?_of_load hc (load_state hl hp)).1
    have hinward := Turn.lastWords_inward (σ := σ)
    have hlive₂ := hinward.isLive (t := ⟨k₁, self⟩) hlive₁
    have hlogs₂ := trans_of LogsMore hlogs (hinward.logsMore ⟨k₁, self⟩)
    have c₂ := Custody.inward hinward ⟨k₁, self⟩ (c.quiet (quiet_of_load hl))
    dsimp only
    cases ha : (Turn.lastWords : Attempt σ Bool) ⟨k₁, self⟩ with
    | error f t =>
      rw [after_error ha] at hlive₂ hlogs₂
      exact .failed _ (diedOfFault_fault hlogs₂ hlive₂ f)
    | ok handled t =>
      rw [after_ok ha] at hlive₂ hlogs₂ c₂
      have hclear := Turn.handler_of_lastWords (t := ⟨k₁, self⟩) hp₁ ha
      have hsaved := (save_quiet t.kernel t.self).rest
      dsimp only
      rcases hsave : t.kernel.save t.self with ⟨_ | _, k₂⟩
      all_goals rw [hsave] at hsaved; dsimp only at hsaved
      · exact .failed _ (diedOfFault_fault (trans_of LogsMore hlogs₂ (.same (by rw [hsaved])))
          (by rw [hsaved]; exact hlive₂) .storage)
      · rcases Turn.lastWords_ok (t := ⟨k₁, self⟩) hp₁ ha with ⟨rfl, rfl⟩ | ⟨rfl, hh⟩
        · exact .silent self.state _ hkept hclear (by rw [hsaved]; exact hlive₁)
        · obtain ⟨-, hp₂, hkept', hlogs'⟩ := handles_saved c hp hl hh c₂ hsave
          refine .heard self.state t.self.state.stored _ hkept hh.handler hp₂ hkept' ?_ ?_ hlogs'
          · rw [Snapshot.stored_reg]
            exact hh.ip
          · rw [Snapshot.stored_handler]
            exact hclear

/-- A process that had nothing to say is killed for good. -/
def unlessHeard (q : Pid) : Option Bool × Kernel σ → Kernel σ
  | (some false, k) => (k.kill q exitKilled).2
  | (_, k) => k

end Kernel

namespace Turn

variable {t : Turn σ} {args : CallArgs}

/-- The snapshot of a process: the one that is worked on if it is loaded, and the one in its backing file
otherwise. -/
def stateOf? (t : Turn σ) (q : Pid) : Option Snapshot :=
  if q = t.self.pid then some t.self.state
  else (t.kernel.table.process? q).bind fun p => t.kernel.kept? p.backing

/-- What becomes of a process that is killed by the next step. -/
inductive KillFate (t : Turn σ) (q : Pid) : Prop
  /-- It has no handler for that. -/
  | killed (s : Snapshot) (hs : t.stateOf? q = some s) (hh : s.handler .suicide = 0)
      (hended : Kernel.Ended q exitKilled t.outcome)
  | failed (hdied : t.kernel.DiedOfFault q t.outcome)
  /-- It goes on in its handler. -/
  | spared (t' : Turn σ) (p : Process) (s s' : Snapshot) (es : List Event) (hstep : step t = .ok () t')
      (hs : t.stateOf? q = some s) (hh : s.handler .suicide ≠ 0) (hp : t'.kernel.table.process? q = some p)
      (hactive : p.status = .active) (hs' : t'.stateOf? q = some s')
      (hip : s'.reg Reg.ip = s.handler .suicide) (hclear : s'.handler .suicide = 0)
      (hlogs : Kernel.Logs t.kernel es t'.kernel) (htold : .signalled q .suicide (s.handler .suicide) ∈ es)

omit [VolumeBacked σ] in
theorem step_killSelf (hcall : t.call? = some (.kill, args)) (htarget : Pid.ofNat? args.a.toNat = some q)
    (hfirst : q.val ≠ 0) (hself : q = t.atCall.self.pid) :
    step t = match (lastWords t.atCall : EStateM.Result Fault (Turn σ) Bool) with
      | .ok true u => .ok () u
      | .ok false u => .error .exited { u with kernel := (u.kernel.kill q exitKilled).2 }
      | .error f u => .error (.faulted f) u := by
  have hanswer : (answer .kill args : InTurn σ Reply) t.atCall = (do
      if ← (lastWords : Attempt σ Bool) then return none
      let _ ← onKernel (·.kill t.atCall.self.pid exitKilled)
      throw .exited : InTurn σ Reply) t.atCall := by
    simp only [answer, killCall]
    rw [get_bind, htarget]
    dsimp only
    rw [if_neg hfirst, if_pos hself]
  rw [(step_call_cases hcall).2.2]
  cases hw : (lastWords : Attempt σ Bool) t.atCall with
  | error f u =>
    have hlast : (answer .kill args : InTurn σ Reply) t.atCall = .error (.faulted f) u := by
      rw [hanswer, bind_of_error (lift_error hw)]
    rw [bind_of_error hlast]
  | ok handled u =>
    rw [bind_of_ok (lift_ok hw)] at hanswer
    cases handled with
    | true =>
      have hlast : (answer .kill args : InTurn σ Reply) t.atCall = .ok none u := hanswer
      rw [bind_of_ok hlast]
      rfl
    | false =>
      have hlast : (answer .kill args : InTurn σ Reply) t.atCall =
          .error .exited { u with kernel := (u.kernel.kill t.atCall.self.pid exitKilled).2 } := hanswer
      rw [bind_of_error hlast, hself]

omit [VolumeBacked σ] in
theorem step_killOther (hcall : t.call? = some (.kill, args)) (htarget : Pid.ofNat? args.a.toNat = some q)
    (hfirst : q.val ≠ 0) (hother : q ≠ t.atCall.self.pid) (hlive : t.atCall.kernel.table.isLive q) :
    step t = .ok () { t.atCall with
      kernel := Kernel.unlessHeard q (t.atCall.kernel.withLoaded Kernel.fault q lastWords) } := by
  have hlast : (answer .kill args : InTurn σ Reply) t.atCall = .ok none { t.atCall with
      kernel := Kernel.unlessHeard q (t.atCall.kernel.withLoaded Kernel.fault q lastWords) } := by
    simp only [answer, killCall]
    rw [get_bind, htarget]
    dsimp only
    rw [if_neg hfirst, if_neg hother]
    simp only [bind, EStateM.bind, onKernel, if_pos hlive]
    rcases t.atCall.kernel.withLoaded Kernel.fault q lastWords with ⟨_ | _ | _, k⟩ <;> rfl
  rw [(step_call_cases hcall).2.2, bind_of_ok hlast]
  rfl

theorem stateOf?_self (t : Turn σ) : t.stateOf? t.self.pid = some t.self.state := if_pos rfl

theorem stateOf?_other (hother : q ≠ t.self.pid) (hp : t.kernel.table.process? q = some p) :
    t.stateOf? q = t.kernel.kept? p.backing := by
  rw [stateOf?, if_neg hother, hp]
  rfl

/-- Up to the system call nothing happens to a process that somebody else kills. -/
theorem kept?_atCall (t : Turn σ) (h : Handle) : t.atCall.kernel.kept? h = t.kernel.kept? h :=
  Volume.kept?_congr (behind?_fetch t h)

/-- A process that handles being killed by itself goes on in its turn. -/
theorem spared_of_handles {u : Turn σ} (hcall : t.call? = some (.kill, args)) (hself : t.atCall.self.pid = t.self.pid)
    (hp : t.atCall.kernel.table.process? t.atCall.self.pid = some p) {es : List Event}
    (hes : Kernel.Logs t.kernel es t.atCall.kernel) (hstep : step t = .ok () u)
    (hh : Handles .suicide t.atCall p u) (hclear : u.self.state.handler .suicide = 0) : t.KillFate t.self.pid := by
  have hloaded : u.self.pid = t.self.pid := hh.pid.trans hself
  have hkept : u.stateOf? t.self.pid = some u.self.state := hloaded ▸ u.stateOf?_self
  have hactive : u.kernel.table.process? t.self.pid = some { p with status := .active } := by
    rw [hh.table, ← hself]
    exact Table.process?_modify_self hp
  have htold : Kernel.Logs t.atCall.kernel [.signalled t.self.pid .suicide (t.self.state.handler .suicide)]
      u.kernel := by
    rw [Kernel.Logs, hh.log, Array.toList_push, hself, handler_atCall hcall]
  refine .spared u _ t.self.state _ _ hstep t.stateOf?_self ?_ hactive rfl hkept ?_ hclear (hes.append htold)
    (List.mem_append_right _ (List.mem_singleton_self _))
  · rw [← handler_atCall hcall]
    exact hh.handler
  · rw [← handler_atCall hcall]
    exact hh.ip

/-- A process that kills itself is loaded. -/
theorem killSelf_fate (h : InCustody l t) (hcall : t.call? = some (.kill, args))
    (htarget : Pid.ofNat? args.a.toNat = some t.self.pid) (hfirst : t.self.pid.val ≠ 0) : t.KillFate t.self.pid := by
  have hplain : Plain t t.atCall := domestic_plain.atCall addCount_plain called_plain hcall
  have hself : t.atCall.self.pid = t.self.pid := by rw [hplain.self]
  have hstep := step_killSelf hcall htarget hfirst hself.symm
  obtain ⟨es, hes, -⟩ := hplain.kernel.log
  obtain ⟨p, hp, -⟩ := (h.plain hplain).seated
  have hinward := lastWords_inward (σ := σ)
  have hlogs := trans_of Kernel.LogsMore ⟨es, hes⟩ (hinward.logsMore t.atCall)
  have hlive := hinward.isLive (t := t.atCall) (Table.isLive_iff.mpr ⟨p, hp⟩)
  have hpid := (lastWords_composed.keeps t.atCall).self
  cases hw : (lastWords : Attempt σ Bool) t.atCall with
  | error f u =>
    rw [after_error hw] at hlogs hlive hpid
    rw [hw] at hstep
    have houtcome : t.outcome = u.kernel.fault t.self.pid f := by
      rw [outcome, hstep]
      dsimp only [Kernel.endTurn]
      rw [hpid, hself]
    refine .failed ?_
    rw [houtcome, ← hself]
    exact Kernel.diedOfFault_fault hlogs hlive f
  | ok handled u =>
    have hclear := handler_of_lastWords hp hw
    rw [hw] at hstep
    rcases lastWords_ok hp hw with ⟨rfl, rfl⟩ | ⟨rfl, hh⟩
    · refine .killed t.self.state t.stateOf?_self ((handler_atCall hcall .suicide).symm.trans hclear) ?_
      have houtcome : t.outcome = (t.atCall.kernel.kill t.self.pid exitKilled).2 := by rw [outcome, hstep]; rfl
      rw [houtcome, ← hself]
      exact Kernel.killWithin_ends hp 15 exitKilled
    · exact spared_of_handles hcall hself hp hes hstep hh hclear

/-- Another process is loaded for its last words and saved behind them. -/
theorem killOther_fate (h : InCustody l t) (hcall : t.call? = some (.kill, args))
    (htarget : Pid.ofNat? args.a.toNat = some q) (hfirst : q.val ≠ 0) (hlive : t.kernel.table.isLive q)
    (hother : q ≠ t.self.pid) : t.KillFate q := by
  have hplain : Plain t t.atCall := domestic_plain.atCall addCount_plain called_plain hcall
  have hself : t.atCall.self.pid = t.self.pid := by rw [hplain.self]
  obtain ⟨es, hes, -⟩ := hplain.kernel.log
  obtain ⟨p, hp⟩ := Table.isLive_iff.mp hlive
  obtain ⟨count, hp'⟩ := Table.process?_of_resetCounts hplain.kernel.table hp
  have hstep := step_killOther hcall htarget hfirst (by rw [hself]; exact hother) (Table.isLive_iff.mpr ⟨_, hp'⟩)
  have hs : t.stateOf? q = t.atCall.kernel.kept? p.backing := by rw [stateOf?_other hother hp, kept?_atCall]
  have houtcome : t.outcome = Kernel.unlessHeard q (t.atCall.kernel.withLoaded Kernel.fault q lastWords) := by
    rw [outcome, hstep]
  have hhearing := Kernel.hearing_of_lastWords (h.plain hplain).custody hp'
  rcases hw : t.atCall.kernel.withLoaded Kernel.fault q lastWords with ⟨handled, k⟩
  rw [hw] at hhearing houtcome hstep
  cases hhearing with
  | silent s _ hkept hh hlive' =>
    obtain ⟨r, hr⟩ := Table.isLive_iff.mp hlive'
    refine .killed s (hs.trans hkept) hh ?_
    rw [houtcome]
    exact Kernel.killWithin_ends hr 15 exitKilled
  | failed _ hdied =>
    refine .failed ?_
    rw [houtcome]
    exact hdied.since hes
  | heard s s' _ hkept hh hr hkept' hip hclear hlogs =>
    have hloaded := stateOf?_other (t := { t.atCall with kernel := k }) (by rw [← hself] at hother; exact hother) hr
    exact .spared _ _ s s' _ hstep (hs.trans hkept) hh hr rfl (hloaded.trans hkept') hip hclear (hes.append hlogs)
      (List.mem_append_right _ (List.mem_singleton_self _))

/-- A process that is killed ends, for want of a handler or of a fault, or goes on in its handler and has it no
longer. -/
theorem kill_fate (h : InCustody l t) (hcall : t.call? = some (.kill, args))
    (htarget : Pid.ofNat? args.a.toNat = some q) (hfirst : q.val ≠ 0) (hlive : t.kernel.table.isLive q) :
    t.KillFate q := by
  by_cases hown : q = t.self.pid
  · subst hown
    exact killSelf_fate h hcall htarget hfirst
  · exact killOther_fate h hcall htarget hfirst hlive hown

end Turn

end CoopKernel
