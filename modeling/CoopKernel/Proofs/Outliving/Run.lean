import CoopKernel.Proofs.Backing.Run
import CoopKernel.Proofs.Outliving.Legible
import CoopKernel.Proofs.Outliving.Step

/-!
# The first process in a run

Whatever instruction another process executes in a run, the first process survives it as long as its block can be
read: it cannot be killed, and no fault of others, no cascade of deaths and no failing wake-up reaches it. There
is one exception. A signal for which it has a handler can be sent to it while it has no room for the instruction
pointer on its stack; it faults then, as it would by a signal of the host, and dies of that.

The block can always be read where nobody tampers with backing files.
-/

namespace CoopKernel

namespace Turn

variable {l : Ledger} {q : Pid} {t : Turn Volume}

/-- The kernel when the next instruction was executed, and the turn is over if it ended with that. -/
def outcome {σ : Type} [Storage σ] (t : Turn σ) : Kernel σ :=
  match step t with
  | .ok _ t' => t'.kernel
  | .error e t' => Kernel.endTurn t' (some e)

/-- The next step sends the process a signal that it stumbles over. -/
def fells (q : Pid) (t : Turn Volume) : Bool :=
  t.call?.any fun (call, args) => call = .sendSignal && t.atCall.kernel.fells q args.a args.b

namespace Minds

/-- A process that can be read survives the instruction, unless it is killed or felled by it or its file is
reached. -/
theorem outcome (h : t.Minds (·.Legible q) l q) (hkill : t.kills q = false) (hfells : t.fells q = false)
    (hreaches : t.reaches q = false) : t.outcome.Legible q := by
  have d := Kernel.legible_lasts q
  have hstep := h.step d hkill hreaches fun args s hcall htarget hs => by
    have hat := h.atCall d hcall
    refine (hat.held.custody.signalled hat.knows s).2 ?_
    simpa [Turn.fells, Kernel.fells, hcall, htarget, hs] using hfells
  have hcustody := h.held.step
  have hself := (step_settled t).self
  unfold Turn.outcome
  cases hs : Turn.step t with
  | ok u t' =>
    rw [hs] at hstep
    exact hstep
  | error e t' =>
    rw [hs] at hstep hcustody
    rw [after_error hs] at hself
    have hother : q ≠ t'.self.pid := by
      rw [hself]
      exact h.other
    exact d.endTurn hcustody hstep.1 hother hstep.2

/-- A signal that somebody else sends is the end of a process that stumbles over it, and of the turn it is
not. -/
theorem sendSignal_fells (h : t.Minds (·.Legible q) l q) {number signal : UInt16}
    (hf : t.kernel.fells q number signal) :
    ∃ reply t', (Turn.sendSignal number signal : InTurn Volume Reply) t = .ok reply t' ∧
      Kernel.Ended q exitFault t'.kernel := by
  simp only [Kernel.fells, Bool.and_eq_true, decide_eq_true_eq, Option.any_eq_true] at hf
  obtain ⟨htarget, s, hs, hstumbles⟩ := hf
  have hsent : (Turn.sendSignal number signal : InTurn Volume Reply) t =
      .ok (Reply.flag (t.kernel.sendSignal q s).1) { t with kernel := (t.kernel.sendSignal q s).2 } := by
    unfold Turn.sendSignal
    rw [hs, htarget]
    dsimp only
    rw [get_bind, if_neg h.other]
    rfl
  exact ⟨_, _, hsent, (h.held.custody.signalled h.knows s).1 hstumbles⟩

/-- The other one is felled by the step, and the turn goes on. -/
theorem felled (h : t.Minds (·.Legible q) l q) (hfells : t.fells q) :
    ∃ t', Turn.step t = .ok () t' ∧ Kernel.Ended q exitFault t'.kernel := by
  simp only [Turn.fells, Option.any_eq_true, Bool.and_eq_true, decide_eq_true_eq] at hfells
  obtain ⟨⟨_, args⟩, hcall, rfl, hfells⟩ := hfells
  obtain ⟨reply, t', hsent, hended⟩ := (h.atCall (Kernel.legible_lasts q) hcall).sendSignal_fells hfells
  have hanswer : answer .sendSignal args t.atCall = .ok reply t' := hsent
  rw [(step_call_cases hcall).2.2, bind_of_ok hanswer]
  cases reply <;> exact ⟨_, rfl, hended⟩

end Minds

end Turn

namespace HostCall

variable {v : Volume} {settings : Settings} {entropy : UInt64} {calls : List (HostCall Volume)} {t : Turn Volume}

/-- A process that takes a step in a run minds the others that can be read. -/
theorem minds_of_stepped (h : allSpare (Kernel.new v settings entropy) calls)
    (ht : .stepped t ∈ courseAll (Kernel.new v settings entropy) calls) {q : Pid} (hq : q ≠ t.self.pid)
    (hlegible : t.kernel.Legible q) : ∃ l, t.Minds (·.Legible q) l q := by
  obtain ⟨l, hc⟩ := inCustody_of_stepped h ht
  exact ⟨l, hc, placed_of_stepped ht, hq, hlegible⟩

/-- Where nobody has tampered with backing files, everybody else can be read when a process takes a step. -/
theorem legible_of_stepped {before later : List (Moment Volume)}
    (hcourse : courseAll (Kernel.new v settings entropy) calls = before ++ .stepped t :: later)
    (hspares : before.all Moment.sparesBackings) {q : Pid} (hq : q ≠ t.self.pid)
    (hlive : t.kernel.table.isLive q) : t.kernel.Legible q := by
  have halong := ((backing_upkeep settings.tmpDir).along_of (h := True) (k := Kernel.new v settings entropy)
    (fun {h k call} hI hdirect hok => by
      obtain ⟨hdir, hsound⟩ := hI hok.1
      exact ⟨(tmpDir_run hdirect hok.2).trans hdir, hsound.obeyed hdirect hok.2⟩)
    (fun _ => ⟨rfl, sound_new v settings entropy⟩) calls).1
  rw [hcourse] at halong
  obtain ⟨-, hduty⟩ := halong.at_split ((Moment.foldl_recordSparing _ _).mpr ⟨trivial, hspares⟩)
  obtain ⟨p, hp⟩ := Table.isLive_iff.mp hlive
  obtain ⟨hpath, content, hc, s, hs, hsize, -⟩ := hduty.sound.kept hp (Demands.set_of_ne _ hq _)
  refine ⟨p, content, s, hp, ?_, by omega, hs⟩
  rw [Volume.behind?, hpath]
  exact hc

/-- Whatever instruction another process executes, the first process is alive behind it and can be read, as long
as its block could be read before and the instruction does not write to its backing file. It is killed by one
kind of instruction only: a signal for which it has a handler is sent to it, and pushing the instruction pointer
faults. -/
theorem first_process_survives_others (h : allSpare (Kernel.new v settings entropy) calls)
    (ht : .stepped t ∈ courseAll (Kernel.new v settings entropy) calls) (hother : t.self.pid ≠ 0)
    (hlegible : t.kernel.Legible 0) (hreaches : t.reaches 0 = false) :
    (t.fells 0 = false → t.outcome.Legible 0) ∧
      (t.fells 0 = true → t.outcome.table.slot 0 = .free (some exitFault)) := by
  obtain ⟨l, hminds⟩ := minds_of_stepped h ht (Ne.symm hother) hlegible
  have hkills : t.kills 0 = false := by simp [Turn.kills]
  refine ⟨fun hfells => hminds.outcome hkills hfells hreaches, fun hfells => ?_⟩
  obtain ⟨t', hstep, hended⟩ := hminds.felled hfells
  rw [Turn.outcome, hstep]
  exact hended

/-- A program that registers a handler for a signal while it has no stack. -/
def stacklessProgram : Bytes :=
  #[0xD1, 0x01, 0xD2, 0x20, 0xD8, 0x04, 0x00, 0xC1, 0xC0, 0xC0, 0xC0, 0xC0]

/-- A program that kills the first process, or so it means, and sends it the signal. -/
def assailingProgram : Bytes :=
  #[0xD0, 0x0A, 0xC1, 0xD2, 0x01, 0xD8, 0x04, 0x01, 0xC1, 0xC0, 0xC0, 0xC0]

/-- A kernel with room for both programs in its storage. -/
def assailedKernel : Kernel Volume :=
  Kernel.new (((Volume.empty.mkdir (Path.ofText "/tmp")).2.addFile (Path.ofText "/bin/a")
    stacklessProgram).2.addFile (Path.ofText "/bin/b") assailingProgram).2 { budget := 5 }

/-- The two programs are run side by side. -/
def assailedCalls : List (HostCall Volume) :=
  [.spawn "/bin/a", .spawn "/bin/b", .tick]

theorem allSpare_assailedCalls : allSpare assailedKernel assailedCalls = true := by
  decide +kernel

/-- The second process kills the first, to no effect. -/
def killsInVain (t : Turn Volume) : Bool :=
  t.self.pid = 1 && t.kernel.Legible 0 && !t.reaches 0 && !t.fells 0 &&
    t.call?.any fun (call, args) => call = .kill && args.a = 0

/-- The second process sends the first the signal that is the end of it. -/
def signalsToDeath (t : Turn Volume) : Bool :=
  t.self.pid = 1 && t.kernel.Legible 0 && !t.reaches 0 && t.fells 0 &&
    t.call?.any fun (call, args) => call = .sendSignal && args.a = 0

/-- Killing does nothing to the first process. The signal is the end of it. -/
theorem first_process_survives_killing :
    allSpare assailedKernel assailedCalls ∧
    (∃ t args, .stepped t ∈ courseAll assailedKernel assailedCalls ∧ t.call? = some (.kill, args) ∧
      t.self.pid = 1 ∧ args.a = 0 ∧ t.kernel.Legible 0 ∧ t.outcome.Legible 0) ∧
    ∃ t args, .stepped t ∈ courseAll assailedKernel assailedCalls ∧ t.call? = some (.sendSignal, args) ∧
      t.self.pid = 1 ∧ args.a = 0 ∧ t.kernel.Legible 0 ∧ t.outcome.table.slot 0 = .free (some exitFault) := by
  have hboth : ((courseAll assailedKernel assailedCalls).any fun m => m.turn?.any killsInVain) = true ∧
      ((courseAll assailedKernel assailedCalls).any fun m => m.turn?.any signalsToDeath) = true := by
    decide +kernel
  refine ⟨allSpare_assailedCalls, ?_, ?_⟩
  · obtain ⟨t, ht, hkind⟩ := exists_stepped assailedKernel assailedCalls killsInVain hboth.1
    simp only [killsInVain, Bool.and_eq_true, Option.any_eq_true, decide_eq_true_eq, Bool.not_eq_true'] at hkind
    obtain ⟨⟨⟨⟨hpid, hlegible⟩, hreaches⟩, hfells⟩, ⟨_, args⟩, hcall, rfl, ha⟩ := hkind
    exact ⟨t, args, ht, hcall, hpid, ha, hlegible, (first_process_survives_others allSpare_assailedCalls ht
      (by rw [hpid]; decide) hlegible hreaches).1 hfells⟩
  · obtain ⟨t, ht, hkind⟩ := exists_stepped assailedKernel assailedCalls signalsToDeath hboth.2
    simp only [signalsToDeath, Bool.and_eq_true, Option.any_eq_true, decide_eq_true_eq, Bool.not_eq_true'] at hkind
    obtain ⟨⟨⟨⟨hpid, hlegible⟩, hreaches⟩, hfells⟩, ⟨_, args⟩, hcall, rfl, ha⟩ := hkind
    exact ⟨t, args, ht, hcall, hpid, ha, hlegible, (first_process_survives_others allSpare_assailedCalls ht
      (by rw [hpid]; decide) hlegible hreaches).2 hfells⟩

/-- A program that sends the first process the signal. -/
def signallingProgram : Bytes :=
  #[0xD2, 0x01, 0xD8, 0x04, 0x01, 0xC1, 0xC0, 0xC0, 0xC0, 0xC0]

/-- The first process dies in an instruction of the second, of having no room on its stack. -/
def overflowsFirst (t : Turn Volume) : Bool :=
  t.self.pid = 1 && t.kernel.table.isLive 0 && t.kernel.Legible 0 && !t.outcome.table.isLive 0 &&
    t.outcome.log.contains (.faulted 0 (.protectedWrite 0))

/-- Others are not kept from being the end of the first process: nobody tampered with its file, all that another
process does is to send it a signal, and it dies of having no room on its stack. -/
theorem first_process_dies_of_signal :
    let v := ((Volume.empty.mkdir (Path.ofText "/tmp")).2.addFile (Path.ofText "/a") stacklessProgram).2.addFile
      (Path.ofText "/b") signallingProgram
    let k := Kernel.new v.2 { budget := 4 }
    let calls := [.spawn "/a", .spawn "/b", .tick]
    (courseAll k calls).all Moment.sparesBackings ∧ ∃ t, .stepped t ∈ courseAll k calls ∧ t.self.pid = 1 ∧
      t.kernel.table.isLive 0 ∧ t.kernel.Legible 0 ∧ ¬t.outcome.table.isLive 0 ∧
      .faulted 0 (.protectedWrite 0) ∈ t.outcome.log := by
  intro v k calls
  have hchecked : (courseAll k calls).all Moment.sparesBackings = true ∧
      ((courseAll k calls).any fun m => m.turn?.any overflowsFirst) = true := by decide +kernel
  refine ⟨hchecked.1, ?_⟩
  obtain ⟨t, ht, hkind⟩ := exists_stepped k calls overflowsFirst hchecked.2
  simp only [overflowsFirst, Bool.and_eq_true, decide_eq_true_eq, Bool.not_eq_true', Array.contains_iff_mem] at hkind
  obtain ⟨⟨⟨⟨hpid, hlive⟩, hlegible⟩, hdead⟩, hlog⟩ := hkind
  exact ⟨t, ht, hpid, hlive, hlegible, by rw [hdead]; exact Bool.false_ne_true, hlog⟩

end HostCall

end CoopKernel
