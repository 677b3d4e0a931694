import CoopKernel.Proofs.Limiting.Kernel

/-!
# Data regions within a bound when a step is taken

Storing bytes, having results copied to memory, taking signals and being copied all leave a process with a data
region within the limit. There is one way past it: a process that exchanges its program gets a region with the
arguments in it, and nobody asks the limit how long these may be.
-/

namespace CoopKernel

variable {α : Type} {l : Ledger} {bound : UInt16}

theorem Ledger.recordStep_home {t : Turn Volume} (h : ∀ args, t.call? ≠ some (.fork, args)) :
    (l.recordStep t).home = l.home := by
  unfold recordStep
  split
  · dsimp only
    split <;> rfl
  · rfl
  · next args _ _ hcall _ => exact absurd hcall (h args)
  · rfl

namespace Turn

/-- The next step does not write to the backing file of a living process by a handle. -/
def writesElsewhere (t : Turn Volume) : Bool :=
  match t.call? with
  | some (.write, args) => t.kernel.table.live.all fun q => (t.kernel.table.process? q).all fun r =>
      t.kernel.store.pathOf? ⟨args.a⟩ ≠ t.kernel.store.pathOf? r.backing
  | _ => true

/-- Where the next step exchanges the program, the arguments for it take no more room than the bound. -/
def argumentsFit (bound : UInt16) (t : Turn Volume) : Bool :=
  match t.call?, step t with
  | some (.exec, _), .error .yielded t' => t'.self.state.dataLength ≤ bound
  | _, _ => true

/-- The turn ended, with the kernel frugal and with a data region within the bound if the process goes on. -/
def Leaving (l : Ledger) (bound : UInt16) (e : TurnEnd) (t : Turn Volume) : Prop :=
  t.kernel.Frugal l bound ∧ (e.isSaved → t.self.state.dataLength ≤ bound)

namespace Frugal

variable {t t' : Turn Volume}

theorem leaving (h : t.Frugal l bound) (e : TurnEnd) : t.Leaving l bound e :=
  ⟨h.kernel, fun _ => h.length⟩

/-! ## System calls -/

theorem exit (status : UInt16) : Ensures (Frugal l bound) (Turn.exit status : InTurn Volume Reply)
    (fun _ => Frugal l bound) (Leaving l bound) :=
  fun t h => ⟨h.kernel.kill t.self.pid status, fun he => by cases he⟩

/-- Work that makes the process active at most, as a part of a system call. -/
theorem lift_inward {act : Attempt Volume α} (hin : Inward act)
    (hact : Works (Limited bound) (fun _ => True) act) : Ensures (Frugal l bound)
      (monadLift act : InTurn Volume α) (fun _ => Frugal l bound) (Leaving l bound) :=
  .adaptExcept ((inward hin hact).mono (fun _ => id) (fun _ _ => id) fun f _ h => h.leaving (.faulted f))

theorem killCall (number : UInt16) : Ensures (Frugal l bound) (Turn.killCall number : InTurn Volume Reply)
    (fun _ => Frugal l bound) (Leaving l bound) := by
  unfold Turn.killCall
  refine .get_bind fun t h => ?_
  dsimp only
  split
  · exact .pure fun _ => id
  · next target _ =>
    split
    · exact .pure fun _ => id
    · split
      · refine .bind (lift_inward lastWords_inward (indifferent_limited.lastWords trivial)) fun handled => ?_
        split
        · exact .pure fun _ => id
        · exact fun t' h' => ⟨h'.kernel.kill t.self.pid exitKilled, fun he => by cases he⟩
      · refine .bind (Q := fun _ => Frugal l bound) (fun t' h' => ?_) fun handled => ?_
        · have hworked : Kernel.Frugal l bound (if t'.kernel.table.isLive target then
              ((t'.kernel.withLoaded Kernel.fault target lastWords).1.getD true,
                (t'.kernel.withLoaded Kernel.fault target lastWords).2)
              else (false, t'.kernel)).2 := by
            split
            · exact h'.kernel.withLoaded lastWords_inward (indifferent_limited.lastWords trivial)
            · exact h'.kernel
          exact ⟨hworked, h'.length⟩
        · split
          · exact fun t' h' => ⟨h'.kernel.kill target exitKilled, h'.length⟩
          · exact .pure fun _ => id

theorem sendSignal (number signal : UInt16) :
    Ensures (Frugal l bound) (Turn.sendSignal number signal : InTurn Volume Reply)
      (fun _ => Frugal l bound) (Leaving l bound) := by
  unfold Turn.sendSignal
  split
  · exact .pure fun _ => id
  · next s _ =>
    split
    · exact .pure fun _ => id
    · next target _ =>
      refine .get_bind fun t h => ?_
      split
      · exact .bind (lift_inward (deliver_inward s) (indifferent_limited.deliver s)) fun _ => .pure fun _ => id
      · refine .bind (Q := fun _ => Frugal l bound) (fun t' h' => ?_) fun _ => .pure fun _ => id
        exact ⟨h'.kernel.sendSignal target s, h'.length⟩

/-- Writing does not reach a backing file through a handle that is open for something else. -/
theorem writeCall (g : Handle) (offset buffer length : UInt16) :
    Ensures (fun t => t.Frugal l bound ∧ ∀ q, t.kernel.table.isLive q →
        t.kernel.store.pathOf? g ≠ some (l.home q))
      (Turn.writeCall g offset buffer length : Attempt Volume Reply) (fun _ => Frugal l bound)
      fun _ => Frugal l bound := by
  rintro t ⟨h, hg⟩
  have hquiet := (writeCall_quiet g offset buffer length) t
  have haimed : Works (fun t t' => ∃ s, t' = t.setSpace s ∧ AddressSpace.Aimed g t.space s)
      (· ≠ .corruptState) (access (AddressSpace.send g offset.toNat buffer length.toNat) :
        Attempt Volume Nat) :=
    access_works ((AddressSpace.readable_aimed g).send (AddressSpace.writeFile_aimed g) _ _ _)
      fun t s hs => ⟨s, rfl, hs⟩
  have hdone {s : AddressSpace Volume} (hs : AddressSpace.Aimed g t.space s)
      (hc : Custody l (t.setSpace s).kernel) : Frugal l bound (t.setSpace s) := by
    have hlength : (t.setSpace s).self.state.dataLength = t.self.state.dataLength :=
      congrArg AddressSpace.dataLength hs.rest
    refine ⟨⟨hc, h.kernel.limit, fun {q _} hq hcontent => ?_⟩, hlength ▸ h.length⟩
    have hsame : s.store.content? (l.home q) = t.kernel.store.content? (l.home q) :=
      hs.content (l.home q) (hg q hq)
    exact h.kernel.files hq (hsame.symm.trans hcontent)
  have hcustody := h.kernel.custody.quiet hquiet.kernel
  have hsent := haimed t
  unfold Turn.writeCall at hcustody ⊢
  cases hr : (access (AddressSpace.send g offset.toNat buffer length.toNat) : Attempt Volume Nat) t with
  | ok count t' =>
    rw [after_bind_ok hr] at hcustody
    rw [hr] at hsent
    rw [bind_of_ok hr]
    obtain ⟨s, rfl, hs⟩ := hsent
    exact hdone hs hcustody
  | error f t' =>
    rw [after_bind_error hr] at hcustody
    rw [hr] at hsent
    rw [bind_of_error hr]
    obtain ⟨-, s, rfl, hs⟩ := hsent
    exact hdone hs hcustody

/-- A process that exchanges its program can have a data region of any length if that succeeds. It is not
kept waiting by that. -/
theorem execCall (t₀ : Turn Volume) (args : CallArgs) :
    Ensures (Limited bound t₀) (Turn.execCall args : InTurn Volume Reply) (fun _ => Limited bound t₀)
      fun e t => e ≠ .blocked ∧ Modest bound t₀ t := by
  have hkeep {ε α : Type} {act : EStateM ε (Turn Volume) α} (hact : Keeps (Limited bound) act) :
      Ensures (Limited bound t₀) act (fun _ => Limited bound t₀) fun _ => Modest bound t₀ :=
    (Ensures.of_keeps hact fun _ _ hs h => trans_of (Limited bound) h hs).mono
      (fun _ => id) (fun _ _ => id) fun _ _ h => h.kernel
  have hlift {α : Type} {act : Attempt Volume α} {Q : α → Turn Volume → Prop}
      (hact : Ensures (Limited bound t₀) act Q fun _ => Modest bound t₀) :
      Ensures (Limited bound t₀) (monadLift act : InTurn Volume α) Q
        fun e t => e ≠ .blocked ∧ Modest bound t₀ t :=
    .adaptExcept (hact.mono (fun _ => id) (fun _ _ => id) fun _ _ h => ⟨nofun, h⟩)
  unfold Turn.execCall
  refine .bind (hlift (hkeep (indifferent_limited.readText _).keeps)) fun name => ?_
  refine .bind (hlift (hkeep (indifferent_limited.readArguments _).keeps)) fun arguments => ?_
  refine .bind (Q := fun done t => Modest bound t₀ t ∧ (done = false → Limited bound t₀ t)) ?_ fun done => ?_
  · unfold exec
    refine hlift (.bind (Q := fun _ => Limited bound t₀) ?_ fun found => ?_)
    · exact hkeep (Indifferent.openProgram (E := fun _ => True) opening_limited.opened name).keeps
    · cases found with
      | none => exact .pure fun _ h => ⟨h.kernel, fun _ => h⟩
      | some found =>
        have hreplace := (@indifferent_modest bound).replaceProgram exchanging_modest found.1 found.2
          arguments
        have hdone := Ensures.of_keeps (P := Modest bound t₀) hreplace.keeps
          fun _ _ hs h => trans_of (Modest bound) h hs
        exact (hdone.mono (fun _ h => h.kernel) (fun _ _ => id) fun _ _ => id).bind
          fun _ => .pure fun _ h => ⟨h, nofun⟩
  · split
    · exact .throw_bind fun _ h => ⟨nofun, h.1⟩
    · next hno => exact .pure fun _ h => h.2 (Bool.eq_false_iff.mpr hno)

/-- A copy of the process has a data region of the same length. -/
theorem fork (h : t.Frugal l bound) (hseated : t.Seated) : Yields (Turn.fork t) (fun _ _ => False)
    fun e t' => e = .yielded ∧ t'.Frugal (InCustody.forked l t.kernel t') bound := by
  obtain ⟨p, hp, -, hprogram, -⟩ := hseated
  have hmade := h.kernel.makes (t.kernel.fork_makes h.length) (h.kernel.custody.fork hp hprogram)
  have hreg (t : Turn Volume) (w : UInt16) :
      ({ t.self with state := t.self.state.setReg Reg.result w } : Loaded).state.reg Reg.result = w :=
    Registers.read_write_self _ _ w
  rcases hf : t.kernel.fork t.self with ⟨e | child, k⟩
  · rw [hf] at hmade
    have hmade : k.Frugal l bound := hmade
    simp only [Turn.fork, Turn.onKernel, bind, EStateM.bind, get_run, hf]
    refine ⟨rfl, ?_, h.length⟩
    rw [InCustody.forked, hreg, show Pid.ofNat? noProcess.toNat = none from rfl]
    exact hmade.note _
  · rw [hf] at hmade
    simp only [Turn.fork, Turn.onKernel, bind, EStateM.bind, get_run, hf]
    refine ⟨rfl, ?_, h.length⟩
    rw [InCustody.forked, hreg, InCustody.ofNat?_word]
    exact hmade

/-! ## Steps -/

theorem atCall (h : t.Frugal l bound) {call : Syscall} {args : CallArgs}
    (hcall : t.call? = some (call, args)) : t.atCall.Frugal l bound := by
  have hplain : Plain t t.atCall := domestic_plain.atCall addCount_plain called_plain hcall
  exact h.limited (indifferent_limited.atCall hcall) (h.kernel.custody.plain hplain.kernel) rfl

/-- A call whose answer leaves the process frugal does so, and leaves the record alone. -/
theorem stepCall {call : Syscall} {args : CallArgs} (hcall : t.call? = some (call, args))
    (hr : InCustody.isRecorded call = false)
    (ha : Yields (answer call args t.atCall) (fun _ => Frugal l bound) (Leaving l bound)) :
    Yields (Turn.step t) (fun _ => Frugal (l.recordStep t) bound) (Leaving (l.recordStep t) bound) := by
  rw [InCustody.recordStep_unrecorded hcall hr, (step_call_cases hcall).2.2]
  cases hs : (answer call args : InTurn Volume Reply) t.atCall with
  | error e t' =>
    rw [hs] at ha
    rw [bind_of_error hs]
    exact ha
  | ok reply t' =>
    rw [hs] at ha
    rw [bind_of_ok hs]
    cases reply with
    | none => exact ha
    | some result => exact ⟨ha.kernel, ha.length⟩

/-- A step that is limited leaves the process frugal, with the books balanced as ever. So does one that is
modest, as far as it does not let the process go on with a longer region. -/
theorem of_limited (h : t.Frugal l bound) (hseated : t.Seated)
    (hfork : ∀ args, t.call? ≠ some (.fork, args)) (hstep : Yields (Turn.step t) (fun _ => Limited bound t)
      fun e t' => Modest bound t t' ∧ (e.isSaved → t'.self.state.dataLength ≤ bound)) :
    Yields (Turn.step t) (fun _ => Frugal (l.recordStep t) bound) (Leaving (l.recordStep t) bound) := by
  have hcustody := InCustody.step ⟨h.kernel.custody, hseated⟩
  have hhome := Ledger.recordStep_home (l := l) hfork
  cases hs : Turn.step t with
  | ok _ t' =>
    rw [hs] at hstep hcustody
    exact h.limited hstep hcustody.custody hhome
  | error e t' =>
    rw [hs] at hstep hcustody
    exact ⟨h.kernel.modest hstep.1 hcustody hhome, hstep.2⟩

theorem step_fork (h : t.Frugal l bound) (hseated : t.Seated) {args : CallArgs}
    (hcall : t.call? = some (.fork, args)) :
    Yields (Turn.step t) (fun _ => Frugal (l.recordStep t) bound) (Leaving (l.recordStep t) bound) := by
  have hplain : Plain t t.atCall := domestic_plain.atCall addCount_plain called_plain hcall
  have hfork := (h.atCall hcall).fork (hseated.plain hplain)
  have hpath : t.atCall.kernel.backingPath = t.kernel.backingPath := by
    funext pid
    rw [hplain.kernel.rest]
    rfl
  have hstep : Turn.step t = (answer .fork args >>= conclude) t.atCall := (step_call_cases hcall).2.2
  have hanswer : (answer .fork args : InTurn Volume Reply) t.atCall = Turn.fork t.atCall := rfl
  cases ha : (Turn.fork : InTurn Volume Reply) t.atCall with
  | ok reply t₂ =>
    rw [ha] at hfork
    exact hfork.elim
  | error e t₂ =>
    rw [ha] at hfork
    rw [bind_of_error (hanswer.trans ha)] at hstep
    have hchild := hfork.2
    rw [InCustody.forked, hpath] at hchild
    simp only [Ledger.recordStep, hcall, hstep]
    exact hchild.leaving e

theorem step_write (h : t.Frugal l bound) {args : CallArgs} (hcall : t.call? = some (.write, args))
    (helsewhere : t.writesElsewhere) :
    Yields (Turn.step t) (fun _ => Frugal (l.recordStep t) bound) (Leaving (l.recordStep t) bound) := by
  have hplain : Plain t t.atCall := domestic_plain.atCall addCount_plain called_plain hcall
  have hopen (g : Handle) : t.atCall.kernel.store.pathOf? g = t.kernel.store.pathOf? g :=
    VolumeBacked.pathOf?_edits hplain.kernel.edits g
  have hother (q : Pid) (hq : t.atCall.kernel.table.isLive q) :
      t.atCall.kernel.store.pathOf? ⟨args.a⟩ ≠ some (l.home q) := by
    have hlive := ((@indifferent_limited bound).atCall hcall).kernel.live q hq
    obtain ⟨r, hr⟩ := Table.isLive_iff.mp hlive
    have hpath : t.kernel.store.pathOf? r.backing = some (l.home q) := h.kernel.custody.backing_path hr
    simp only [writesElsewhere, hcall, List.all_eq_true, Table.mem_live] at helsewhere
    have hne := helsewhere q ⟨r, hr⟩
    rw [hr, Option.all_some, decide_eq_true_eq, hpath] at hne
    rw [hopen]
    exact hne
  have hwrite : Ensures (fun t' : Turn Volume => t'.Frugal l bound ∧ ∀ q, t'.kernel.table.isLive q →
      t'.kernel.store.pathOf? ⟨args.a⟩ ≠ some (l.home q)) (answer .write args : InTurn Volume Reply)
      (fun _ => Frugal l bound) (Leaving l bound) :=
    .adaptExcept ((writeCall _ _ _ _).mono (fun _ => id) (fun _ _ => id) fun f _ h => h.leaving (.faulted f))
  exact stepCall hcall rfl (hwrite t.atCall ⟨h.atCall hcall, hother⟩)

theorem step_exec (h : t.Frugal l bound) (hseated : t.Seated) {args : CallArgs}
    (hcall : t.call? = some (.exec, args)) (hfit : t.argumentsFit bound) :
    Yields (Turn.step t) (fun _ => Frugal (l.recordStep t) bound) (Leaving (l.recordStep t) bound) := by
  have hconclude (reply : Reply) : Ensures (Limited bound t) (conclude reply : InTurn Volume Unit)
      (fun _ => Limited bound t) fun e t' => e ≠ .blocked ∧ Modest bound t t' := by
    have hreply : Works (Limited bound) (· ≠ .blocked) (conclude reply : InTurn Volume Unit) :=
      indifferent_limited.conclude reply
    intro t₁ h₁
    refine (hreply t₁).mono (fun _ _ hs => trans_of (Limited bound) h₁ hs) fun e t₂ hs => ⟨hs.1, ?_⟩
    exact (trans_of (Limited bound) h₁ hs.2).kernel
  have hwork := ((execCall t args).bind hconclude) t.atCall (indifferent_limited.atCall hcall)
  have hstep : Turn.step t = (Turn.execCall args >>= conclude : InTurn Volume Unit) t.atCall :=
    (step_call_cases hcall).2.2
  rw [← hstep] at hwork
  refine h.of_limited hseated (fun _ he => by rw [hcall] at he; cases he) ?_
  cases hs : Turn.step t with
  | ok _ t' =>
    rw [hs] at hwork
    exact hwork
  | error e t' =>
    rw [hs] at hwork
    refine ⟨hwork.2, fun hsaved => ?_⟩
    cases e with
    | yielded =>
      simp only [argumentsFit, hcall, hs, decide_eq_true_eq] at hfit
      exact hfit
    | blocked => exact absurd rfl hwork.1
    | exited | faulted | overflowed => cases hsaved

/-- A step leaves the process frugal unless it writes to a backing file or exchanges the program for one with
arguments that do not fit. -/
theorem step (h : t.Frugal l bound) (hseated : t.Seated) (helsewhere : t.writesElsewhere)
    (hfit : t.argumentsFit bound) :
    Yields (Turn.step t) (fun _ => Frugal (l.recordStep t) bound) (Leaving (l.recordStep t) bound) := by
  have hlimited (hfork : ∀ args, t.call? ≠ some (.fork, args))
      (hstep : Yields (Turn.step t) (fun _ => Limited bound t) fun _ => Limited bound t) :
      Yields (Turn.step t) (fun _ => Frugal (l.recordStep t) bound) (Leaving (l.recordStep t) bound) :=
    h.of_limited hseated hfork (hstep.mono (fun _ _ => id) fun _ _ hs =>
      ⟨hs.kernel, fun _ => hs.length h.kernel.limit h.length⟩)
  cases hcall : t.call? with
  | none =>
    refine hlimited (fun _ he => by rw [hcall] at he; cases he) ?_
    exact (indifferent_limited.step hcall).mono (fun _ _ => id) fun _ _ hs => hs.2
  | some callArgs =>
    obtain ⟨call, args⟩ := callArgs
    have hat := h.atCall hcall
    cases hc : call.isLimited with
    | true =>
      refine hlimited (fun _ he => ?_) ?_
      · rw [hcall] at he
        cases he
        cases hc
      · have hstep := indifferent_limited.stepCall hcall (@answer_limited bound _ hc args)
        exact hstep.mono (fun _ _ => id) fun _ _ hs => hs.2
    | false =>
      cases call
      case exec => exact h.step_exec hseated hcall hfit
      case fork => exact h.step_fork hseated hcall
      case write => exact h.step_write hcall helsewhere
      case exit => exact stepCall hcall rfl (exit _ t.atCall hat)
      case kill => exact stepCall hcall rfl (killCall _ t.atCall hat)
      case sendSignal => exact stepCall hcall rfl (sendSignal _ _ t.atCall hat)
      all_goals cases hc

end Frugal

end Turn

end CoopKernel
