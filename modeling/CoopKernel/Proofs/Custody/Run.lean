import CoopKernel.Proofs.Custody.Making
import CoopKernel.Proofs.Settled

/-!
# Custody all through a run

An onlooker keeps the ledger from what can be seen of a run: which calls the host and the programs make
and what they get for an answer. The books balance at every moment of every run in which the host does
not close what living processes need.
-/

namespace CoopKernel

variable {σ : Type} [Storage σ] [VolumeBacked σ]

namespace Ledger

/-- The record of a storage that nobody has worked with yet: all that is open is on loan. -/
def start (v : Volume) : Ledger where
  loans := v.handles.map Prod.fst
  home _ := Path.root

/-- What a step adds to the record: a program is lent what it opens, gives back what it closes, and has
a child settle. -/
def recordStep (l : Ledger) (t : Turn σ) : Ledger :=
  match t.call?, Turn.step t with
  | some (.openFile, _), .ok _ t' =>
    let h : Handle := ⟨t'.self.state.reg Reg.result⟩
    if h.isValid then l.lend h else l
  | some (.close, args), _ => l.repay ⟨args.a⟩
  | some (.fork, _), .error _ t' =>
    match Pid.ofNat? (t'.self.state.reg Reg.result).toNat with
    | some child => l.settle child (t.kernel.backingPath child)
    | none => l
  | _, _ => l

/-- What a moment adds to the record. -/
def record (l : Ledger) : Moment σ → Ledger
  | .obeyed k (.spawn program) =>
    match (k.spawn program).1 with
    | .ok pid => l.settle pid (k.backingPath pid)
    | .error _ => l
  | .obeyed k (.openPath path) =>
    match (Storage.openPath k.store path).1 with
    | some h => l.lend h
    | none => l
  | .obeyed _ (.close h) => l.repay h
  | .stepped t => l.recordStep t
  | _ => l

end Ledger

namespace Turn

/-- The process whose turn it is is alive and active, and has the files that the table tells. -/
def Seated (t : Turn σ) : Prop :=
  ∃ p, t.kernel.table.process? t.self.pid = some p ∧ p.status = .active ∧
    p.program = t.self.program ∧ p.backing = t.self.backing

omit [VolumeBacked σ] in
theorem Seated.plain {t t' : Turn σ} (hs : t.Seated) (h : Plain t t') : t'.Seated := by
  obtain ⟨p, hp, hactive, hprogram, hbacking⟩ := hs
  obtain ⟨count, hp'⟩ := Table.process?_of_resetCounts h.kernel.table hp
  rw [Seated, h.self]
  exact ⟨_, hp', hactive, hprogram, hbacking⟩

omit [Storage σ] [VolumeBacked σ] in
/-- What happens to others leaves the process seated. -/
theorem Seated.others {t : Turn σ} {k : Kernel σ} (hs : t.Seated)
    (h : ∀ p, Stays (Kernel.Undisturbed t.self.pid p) t.kernel k) :
    Seated { t with kernel := k } := by
  obtain ⟨p, hp, hactive, hfiles⟩ := hs
  have hstill := h p ⟨hp, fun _ _ he => by rw [hactive] at he; cases he⟩
  exact ⟨p, hstill.1, hactive, hfiles⟩

end Turn

/-- The books balance, and the process whose turn it is sits in its place. -/
structure InCustody (l : Ledger) (t : Turn σ) : Prop where
  custody : Custody l t.kernel
  seated : t.Seated

namespace InCustody

open Turn (Quiet Plain)

variable {l : Ledger} {t t' : Turn σ}

theorem plain (h : InCustody l t) (hp : Plain t t') : InCustody l t' :=
  ⟨h.custody.plain hp.kernel, h.seated.plain hp⟩

/-- Quiet work leaves the process in custody. -/
theorem of_quiet {ε α : Type} {act : EStateM ε (Turn σ) α} (h : Keeps Quiet act) :
    Ensures (InCustody l) act (fun _ => InCustody l) fun _ t => Custody l t.kernel :=
  (Ensures.of_keeps h fun _ _ hq hc => hc.plain hq.plain).mono (fun _ => id) (fun _ _ => id)
    fun _ _ hc => hc.custody

/-- So does what leaves the books balanced and concerns only others. -/
theorem others {k : Kernel σ} (h : InCustody l t) (hc : Custody l k)
    (hu : ∀ p, Stays (Kernel.Undisturbed t.self.pid p) t.kernel k) :
    InCustody l { t with kernel := k } :=
  ⟨hc, h.seated.others hu⟩

theorem setActive (h : InCustody l t) :
    InCustody l { t with kernel := t.kernel.onTable (·.setStatus t.self.pid .active) } := by
  obtain ⟨p, hp, hactive, hfiles⟩ := h.seated
  exact ⟨h.custody.setStatus _ _, { p with status := .active }, Table.process?_modify_self hp, rfl, hfiles⟩

/-! ## System calls on processes -/

/-- The system calls that are to be told from the others because they change the record. -/
def isRecorded : Syscall → Bool
  | .openFile | .close | .fork => true
  | _ => false

/-- Work that makes the process active at most leaves it in custody. -/
theorem of_inward {α : Type} {act : Attempt σ α} (h : Turn.Inward act) :
    Ensures (InCustody l) act (fun _ => InCustody l) fun _ t => Custody l t.kernel := by
  intro t hc
  have hact := h t.self.pid (fun t' : Turn σ => t'.self.pid = t.self.pid ∧ InCustody l t')
    (fun _ h => h.1) (fun _ _ hq h => ⟨by rw [hq.self]; exact h.1, h.2.plain hq.plain⟩)
    (fun _ e _ h => ⟨h.1, h.2.custody.note e, h.2.seated⟩)
    fun t' h => ⟨h.1, h.1 ▸ h.2.setActive⟩
  exact (hact.mono (fun _ => id) (fun _ _ h => h.2) fun _ _ h => h.2.custody) t ⟨rfl, hc⟩

theorem exit (status : UInt16) :
    Ensures (InCustody l) (Turn.exit status : InTurn σ Reply) (fun _ => InCustody l)
      fun _ t => Custody l t.kernel :=
  fun t hc => hc.custody.kill t.self.pid status

theorem waitPid (target timeout : UInt16) :
    Ensures (InCustody l) (Turn.waitPid target timeout : InTurn σ Reply) (fun _ => InCustody l)
      fun _ t => Custody l t.kernel := by
  unfold Turn.waitPid
  refine .get_bind fun t ht => ?_
  dsimp only
  split
  · exact .pure fun _ => id
  · split
    · exact .pure fun _ => id
    · exact fun t' hc => (hc.custody.setStatus _ _).note _

theorem readCall (h : Handle) (offset buffer length : UInt16) :
    Ensures (InCustody l) (Turn.readCall h offset buffer length : InTurn σ Reply)
      (fun _ => InCustody l) fun _ t => Custody l t.kernel := by
  have hreceive : Ensures (InCustody l) (do
      let count ← (Turn.access (AddressSpace.receive h offset.toNat buffer length.toNat) :
        Attempt σ Nat)
      return some (UInt16.ofNat count) : InTurn σ Reply) (fun _ => InCustody l)
      fun _ t => Custody l t.kernel :=
    .bind (of_quiet (Turn.lift_quiet (Turn.access_quiet (AddressSpace.receive_quiet _ _ _ _))))
      fun _ => .pure fun _ => id
  unfold Turn.readCall
  refine .bind (of_quiet (Turn.lift_quiet (Turn.ask_quiet _))) fun gone => ?_
  split
  · exact .pure fun _ => id
  · refine .bind (of_quiet (Turn.lift_quiet (Turn.ask_quiet _))) fun ready => ?_
    split
    · refine .get_bind fun t ht => ?_
      exact fun t' hc => (hc.custody.setStatus _ _).note _
    · exact hreceive

/-- The process is in custody, and a program that was found is on loan until it is taken over. -/
def Holding (l : Ledger) (t : Turn σ) : Option (Path × Handle) → Prop
  | none => InCustody l t
  | some (_, h) => h ∉ l.loans ∧ InCustody (l.lend h) t

theorem openProgram (name : List UInt8) :
    Ensures (InCustody l) (Turn.openProgram name : Attempt σ (Option (Path × Handle)))
      (fun found t => Holding l t found) fun _ t => Custody l t.kernel := by
  unfold Turn.openProgram
  split
  · exact .pure fun _ => id
  · dsimp only
    split
    · exact .pure fun _ => id
    · refine .get_bind_eq fun t hc => ?_
      split
      · exact .pure fun _ he => he ▸ hc
      · next path _ =>
        intro t' he
        rw [he]
        rcases ho : Storage.openPath t.kernel.store path with ⟨_ | h, s⟩
        · have hopened : InCustody l { t with kernel := { t.kernel with store := s } } :=
            ⟨hc.custody.opened_none ho, hc.seated⟩
          exact hopened
        · have hopened : InCustody (l.lend h) { t with kernel := { t.kernel with store := s } } :=
            ⟨hc.custody.opened ho, hc.seated⟩
          exact ⟨hc.custody.not_lent ho, hopened⟩

/-- The process takes over the program that it holds. -/
theorem replaceProgram (path : Path) {h : Handle} (args : List (List UInt8)) (hl : h ∉ l.loans) :
    Ensures (InCustody (l.lend h)) (Turn.replaceProgram path h args : Attempt σ Unit)
      (fun _ => InCustody l) fun _ t => Custody l t.kernel := by
  unfold Turn.replaceProgram
  refine .get_bind_eq fun t hc => ?_
  dsimp only
  -- Between the change of the table and that of the process, the process has the old program still.
  refine .bind (Q := fun _ t' => t' = { t with kernel :=
    (t.kernel.onTable (·.setProgram t.self.pid h)).releaseProgram t.self.pid t.self.program })
    (.modify fun _ he => he ▸ rfl) fun _ => ?_
  refine .bind (Q := fun _ => InCustody l) (.modify fun t' he => ?_) fun _ => ?_
  · subst he
    obtain ⟨p, hp, hactive, hprogram, hbacking⟩ := hc.seated
    refine ⟨?_, { p with program := h }, ?_, hactive, rfl, hbacking⟩
    · have hreplaced := hc.custody.replaced hl hp
      rw [hprogram] at hreplaced
      exact hreplaced
    · have htable : ((t.kernel.onTable (·.setProgram t.self.pid h)).releaseProgram t.self.pid
          t.self.program).table = t.kernel.table.setProgram t.self.pid h := by
        unfold Kernel.releaseProgram
        split <;> rfl
      dsimp only
      rw [htable]
      exact Table.process?_modify_self hp
  · refine .bind (of_quiet (Turn.access_quiet (AddressSpace.resizeData_quiet _))) fun fits => ?_
    have hfail : Ensures (InCustody l) (throw .storage : Attempt σ Unit) (fun _ => InCustody l)
      fun _ t => Custody l t.kernel := .throw fun _ hc => hc.custody
    have hwrite : Ensures (InCustody l) (do
        let count ← Turn.access (AddressSpace.writeFile t.self.backing Snapshot.blockSize
          (Arguments.layout 0 ((Utf8.encode path.chars :: args).take maxArguments)).data.toArray)
        if count ≠ (Arguments.layout 0
          ((Utf8.encode path.chars :: args).take maxArguments)).data.length then throw .storage
        Turn.note (.executes t.self.pid path) : Attempt σ Unit) (fun _ => InCustody l)
        fun _ t => Custody l t.kernel := by
      refine .bind (of_quiet (Turn.access_quiet (AddressSpace.writeFile_quiet _ _ _))) fun count => ?_
      have hnote : Ensures (InCustody l) (Turn.note (.executes t.self.pid path) : Attempt σ Unit)
        (fun _ => InCustody l) fun _ t => Custody l t.kernel :=
        .modify fun t' hc => hc.plain ((refl_of Plain t').noted rfl)
      split
      · exact .throw_bind fun _ hc => hc.custody
      · exact hnote
    split
    · exact .throw_bind fun _ hc => hc.custody
    · exact hwrite

theorem exec (name : List UInt8) (arguments : List (List UInt8)) :
    Ensures (InCustody l) (Turn.exec name arguments : Attempt σ Bool) (fun _ => InCustody l)
      fun _ t => Custody l t.kernel := by
  unfold Turn.exec
  refine .bind (openProgram name) fun found => ?_
  cases found with
  | none => exact .pure fun _ => id
  | some found =>
    obtain ⟨path, h⟩ := found
    rintro t ⟨hl, hc⟩
    have hreplace : Ensures (InCustody (l.lend h))
        (Turn.replaceProgram path h arguments >>= fun _ => pure true : Attempt σ Bool)
        (fun _ => InCustody l) fun _ t => Custody l t.kernel :=
      .bind (replaceProgram path arguments hl) fun _ => .pure fun _ => id
    exact hreplace t hc

theorem execCall (args : CallArgs) :
    Ensures (InCustody l) (Turn.execCall args : InTurn σ Reply) (fun _ => InCustody l)
      fun _ t => Custody l t.kernel := by
  unfold Turn.execCall
  refine .bind (of_quiet (Turn.lift_quiet (Turn.readText_quiet _))) fun name => ?_
  refine .bind (of_quiet (Turn.lift_quiet (Turn.readArguments_quiet _))) fun arguments => ?_
  refine .bind (.adaptExcept (exec name arguments)) fun done => ?_
  split
  · exact .throw_bind fun _ hc => hc.custody
  · exact .pure fun _ => id

/-- Working on another process, which dies if that faults. -/
theorem onOther {α : Type} {act : Attempt σ α} {target : Pid} (hact : Turn.Inward act)
    (h : InCustody l t) (hne : target ≠ t.self.pid) :
    InCustody l { t with kernel := (t.kernel.withLoaded Kernel.fault target act).2 } :=
  h.others (h.custody.withLoaded hact) fun _ => Kernel.undisturbed_withLoaded hact hne

theorem killOther (h : InCustody l t) {target : Pid} (hne : target ≠ t.self.pid) (status : UInt16) :
    InCustody l { t with kernel := (t.kernel.kill target status).2 } :=
  h.others (h.custody.kill target status) fun _ => Kernel.undisturbed_kill hne status

theorem killCall (number : UInt16) :
    Ensures (InCustody l) (Turn.killCall number : InTurn σ Reply) (fun _ => InCustody l)
      fun _ t => Custody l t.kernel := by
  unfold Turn.killCall
  refine .get_bind_eq fun t hc => ?_
  dsimp only
  split
  · exact .pure fun _ he => he ▸ hc
  · next target _ =>
    split
    · exact .pure fun _ he => he ▸ hc
    · split
      · refine .bind (Q := fun _ => InCustody l) ?_ fun handled => ?_
        · exact (Ensures.adaptExcept (of_inward Turn.lastWords_inward)).mono (fun _ he => he ▸ hc) (fun _ _ => id) fun _ _ => id
        · split
          · exact .pure fun _ => id
          · exact fun t' hc' => hc'.custody.kill t.self.pid exitKilled
      · next hne =>
        refine .bind (Q := fun _ t' => InCustody l t' ∧ target ≠ t'.self.pid) ?_ fun handled => ?_
        · intro t' he
          subst he
          have hworked : InCustody l { t' with kernel := (if t'.kernel.table.isLive target then
              ((t'.kernel.withLoaded Kernel.fault target Turn.lastWords).1.getD true,
                (t'.kernel.withLoaded Kernel.fault target Turn.lastWords).2)
              else (false, t'.kernel)).2 } := by
            split
            · exact hc.onOther Turn.lastWords_inward hne
            · exact hc
          exact ⟨hworked, hne⟩
        · split
          · exact fun t' h => h.1.killOther h.2 exitKilled
          · exact .pure fun _ h => h.1

theorem sendSignal (number signal : UInt16) :
    Ensures (InCustody l) (Turn.sendSignal number signal : InTurn σ Reply) (fun _ => InCustody l)
      fun _ t => Custody l t.kernel := by
  unfold Turn.sendSignal
  split
  · exact .pure fun _ => id
  · split
    · exact .pure fun _ => id
    · next s _ _ target _ =>
      refine .get_bind_eq fun t hc => ?_
      split
      · refine .bind (Q := fun _ => InCustody l) ?_ fun _ => .pure fun _ => id
        exact (Ensures.adaptExcept (of_inward (Turn.deliver_inward s))).mono (fun _ he => he ▸ hc) (fun _ _ => id) fun _ _ => id
      · next hne =>
        refine .bind (Q := fun _ => InCustody l) ?_ fun _ => .pure fun _ => id
        intro t' he
        subst he
        have hsent : InCustody l { t' with kernel := (t'.kernel.sendSignal target s).2 } := by
          unfold Kernel.sendSignal
          split
          · exact hc.onOther (Turn.deliver_inward s) hne
          · exact hc
        exact hsent

/-- Every system call but those that are recorded leaves the record as it is. -/
theorem answer {call : Syscall} (h : isRecorded call = false) (args : CallArgs) :
    Ensures (InCustody l) (Turn.answer call args : InTurn σ Reply) (fun _ => InCustody l)
      fun _ t => Custody l t.kernel := by
  cases hq : call.isQuiet with
  | true => exact of_quiet (Turn.answer_quiet hq args)
  | false =>
    cases call
    case openFile | close | fork => cases h
    case exit => exact exit args.a
    case exec => exact execCall args
    case waitPid => exact waitPid args.a args.b
    case kill => exact killCall args.a
    case read => exact readCall ⟨args.a⟩ args.b args.c args.d
    case sendSignal => exact sendSignal args.a args.b
    all_goals cases hq

/-! ## System calls that are recorded -/

theorem openCall (address : UInt16) :
    Ensures (InCustody l) (Turn.openCall address : Attempt σ Reply)
      (fun reply t => ∃ n, reply = some n ∧
        InCustody (if Handle.isValid ⟨n⟩ then l.lend ⟨n⟩ else l) t)
      fun _ t => Custody l t.kernel := by
  unfold Turn.openCall
  refine .bind (of_quiet (Turn.readPath_quiet address)) fun path => ?_
  cases path with
  | none => exact .pure fun _ hc => ⟨_, rfl, hc⟩
  | some path =>
    intro t hc
    rcases ho : Storage.openPath t.kernel.store path with ⟨_ | h, s⟩
    · have hopened : InCustody l { t with kernel := { t.kernel with store := s } } :=
        ⟨hc.custody.opened_none ho, hc.seated⟩
      simp only [Turn.act, bind, EStateM.bind, modifyGet_run, ho]
      exact ⟨_, rfl, hopened⟩
    · have hopened : InCustody (l.lend h) { t with kernel := { t.kernel with store := s } } :=
        ⟨hc.custody.opened ho, hc.seated⟩
      have hvalid : h.isValid = true := decide_eq_true (VolumeBacked.openPath_some ho).1
      simp only [Turn.act, bind, EStateM.bind, modifyGet_run, ho]
      refine ⟨h.number, rfl, ?_⟩
      rw [if_pos hvalid]
      exact hopened

/-- A handle that is in use is no loan, so that it makes no difference to the record that it is not
closed. -/
theorem closeCall (h : Handle) :
    Ensures (InCustody l) (Turn.closeCall h : Attempt σ Reply) (fun _ => InCustody (l.repay h))
      fun _ t => Custody (l.repay h) t.kernel := by
  unfold Turn.closeCall
  refine .get_bind_eq fun t hc => ?_
  dsimp only
  split
  · next hu =>
    have hfree : ∀ {pid p}, t.kernel.table.process? pid = some p →
        p.program ≠ h ∧ p.backing ≠ h := by
      intro pid p hp
      simp only [Bool.not_eq_true', List.any_eq_false, Table.mem_live, Table.uses_iff] at hu
      have hnot := hu pid ⟨p, hp⟩
      exact ⟨fun he => hnot ⟨p, hp, .inl he⟩, fun he => hnot ⟨p, hp, .inr he⟩⟩
    intro t' he
    have hclosed : InCustody (l.repay h)
        { t with kernel := { t.kernel with store := Storage.close t.kernel.store h } } :=
      ⟨hc.custody.closed hfree, hc.seated⟩
    rw [he]
    exact hclosed
  · next hu =>
    refine .pure fun t' he => ?_
    rw [he]
    refine ⟨hc.custody.of_home (fun g => ?_) fun _ => rfl, hc.seated⟩
    simp only [Bool.not_eq_true', Bool.not_eq_false, List.any_eq_true, Table.mem_live,
      Table.uses_iff] at hu
    obtain ⟨pid, _, p, hp, hp'⟩ := hu
    rw [Ledger.mem_repay, and_iff_left_iff_imp]
    rintro hg rfl
    have hapart := hc.custody.loan_apart hg hp
    exact hp'.elim hapart.1 hapart.2

theorem ofNat?_word (pid : Pid) : Pid.ofNat? pid.word.toNat = some pid := by
  have hlt : pid.val < maxProcesses := pid.isLt
  have hword : pid.word.toNat = pid.val := by
    rw [Pid.word, UInt16.toNat_ofNat']
    exact Nat.mod_eq_of_lt (Nat.lt_trans hlt (by decide))
  rw [hword, Pid.ofNat?, dif_pos hlt]

/-- The record after a process was asked to double itself, from the answer that it got. -/
def forked (l : Ledger) (k : Kernel σ) (t : Turn σ) : Ledger :=
  match Pid.ofNat? (t.self.state.reg Reg.result).toNat with
  | some child => l.settle child (k.backingPath child)
  | none => l

theorem fork (h : InCustody l t) :
    Yields (Turn.fork t) (fun _ _ => False)
      fun e t' => e = .yielded ∧ Custody (forked l t.kernel t') t'.kernel := by
  obtain ⟨p, hp, _, hprogram, _⟩ := h.seated
  have hfork := h.custody.fork hp hprogram
  have hreg : ∀ (t : Turn σ) (w : UInt16),
      ({ t.self with state := t.self.state.setReg Reg.result w } : Loaded).state.reg Reg.result = w :=
    fun _ w => Registers.read_write_self _ _ w
  rcases hf : t.kernel.fork t.self with ⟨_ | child, k⟩
  · next e =>
    rw [hf] at hfork
    simp only [Turn.fork, Turn.onKernel, bind, EStateM.bind, get_run, hf]
    refine ⟨rfl, ?_⟩
    rw [forked, hreg, show Pid.ofNat? noProcess.toNat = none from rfl]
    exact Custody.note hfork _
  · rw [hf] at hfork
    simp only [Turn.fork, Turn.onKernel, bind, EStateM.bind, get_run, hf]
    refine ⟨rfl, ?_⟩
    rw [forked, hreg, ofNat?_word]
    exact hfork

/-! ## Steps -/

theorem conclude (reply : Reply) :
    Ensures (InCustody l) (Turn.conclude reply : InTurn σ Unit) (fun _ => InCustody l)
      fun _ t => Custody l t.kernel :=
  of_quiet (Turn.conclude_quiet reply)

theorem step_open (h : InCustody l t) {args : CallArgs} (hcall : t.call? = some (.openFile, args)) :
    Yields (Turn.step t) (fun _ => InCustody (l.recordStep t))
      fun _ t' => Custody (l.recordStep t) t'.kernel := by
  obtain ⟨t₁, hplain, _, hstep⟩ := Turn.step_call hcall
  have hopen : Yields (Turn.answer .openFile args t₁)
      (fun reply t => ∃ n, reply = some n ∧
        InCustody (if Handle.isValid ⟨n⟩ then l.lend ⟨n⟩ else l) t)
      fun _ t => Custody l t.kernel :=
    (openCall args.a).adaptExcept t₁ (h.plain hplain)
  simp only [Ledger.recordStep, hcall, hstep, bind, EStateM.bind]
  cases ha : Turn.answer .openFile args t₁ with
  | error e t₂ =>
    rw [ha] at hopen
    exact hopen
  | ok reply t₂ =>
    rw [ha] at hopen
    obtain ⟨n, rfl, hc⟩ := hopen
    have hreg : (t₂.self.state.setReg Reg.result n).reg Reg.result = n :=
      Registers.read_write_self _ _ n
    have hset := hc.plain (Turn.Quiet.plain (Turn.modifyState_quiet (ε := TurnEnd)
      (·.setReg Reg.result n) t₂))
    simp only [Turn.conclude, Turn.modifyState, modify, modifyGet_run, Yields, hreg]
    exact hset

theorem step_close (h : InCustody l t) {args : CallArgs} (hcall : t.call? = some (.close, args)) :
    Yields (Turn.step t) (fun _ => InCustody (l.recordStep t))
      fun _ t' => Custody (l.recordStep t) t'.kernel := by
  obtain ⟨t₁, hplain, _, hstep⟩ := Turn.step_call hcall
  have hclose : Ensures (InCustody l) (Turn.answer .close args : InTurn σ Reply)
      (fun _ => InCustody (l.repay ⟨args.a⟩)) fun _ t => Custody (l.repay ⟨args.a⟩) t.kernel :=
    (closeCall ⟨args.a⟩).adaptExcept
  have hrecord : l.recordStep t = l.repay ⟨args.a⟩ := by
    simp only [Ledger.recordStep, hcall]
  rw [hrecord, hstep]
  exact hclose.bind conclude t₁ (h.plain hplain)

theorem step_fork (h : InCustody l t) {args : CallArgs} (hcall : t.call? = some (.fork, args)) :
    Yields (Turn.step t) (fun _ => InCustody (l.recordStep t))
      fun _ t' => Custody (l.recordStep t) t'.kernel := by
  obtain ⟨t₁, hplain, _, hstep⟩ := Turn.step_call hcall
  have hfork := fork (h.plain hplain)
  have hpath : t₁.kernel.backingPath = t.kernel.backingPath := by
    funext pid
    rw [hplain.kernel.rest]
    rfl
  simp only [Ledger.recordStep, hcall, hstep, bind, EStateM.bind, Turn.answer]
  cases ha : Turn.fork t₁ with
  | ok reply t₂ =>
    rw [ha] at hfork
    exact hfork.elim
  | error e t₂ =>
    rw [ha] at hfork
    have hc := hfork.2
    rw [forked, hpath] at hc
    exact hc

omit [VolumeBacked σ] in
/-- The other calls leave the record as it is. -/
theorem recordStep_unrecorded {call : Syscall} {args : CallArgs} (hcall : t.call? = some (call, args))
    (hr : isRecorded call = false) : l.recordStep t = l := by
  unfold Ledger.recordStep
  rw [hcall]
  cases call <;> first | rfl | cases hr

/-- A step leaves the process in custody with what it adds to the record, or ends the turn with the
books balanced. -/
theorem step (h : InCustody l t) :
    Yields (Turn.step t) (fun _ => InCustody (l.recordStep t))
      fun _ t' => Custody (l.recordStep t) t'.kernel := by
  cases hcall : t.call? with
  | none =>
    have hstep := Turn.step_plain hcall
    simp only [Ledger.recordStep, hcall]
    cases hs : Turn.step t with
    | ok _ t' =>
      rw [hs] at hstep
      exact h.plain hstep
    | error e t' =>
      rw [hs] at hstep
      exact h.custody.plain hstep.1.kernel
  | some call =>
    obtain ⟨call, args⟩ := call
    obtain ⟨t₁, hplain, _, hstep⟩ := Turn.step_call hcall
    have h₁ := h.plain hplain
    cases hr : isRecorded call with
    | false =>
      have hdone := (answer hr args).bind conclude t₁ h₁
      rw [recordStep_unrecorded hcall hr, hstep]
      exact hdone
    | true =>
      cases call
      case openFile => exact h.step_open hcall
      case close => exact h.step_close hcall
      case fork => exact h.step_fork hcall
      all_goals cases hr

end InCustody

/-! ## Runs -/

namespace Custody

variable {l : Ledger} {k : Kernel σ}

theorem endTurn {t : Turn σ} (c : Custody l t.kernel) (how : Option TurnEnd) :
    Custody l (Kernel.endTurn t how) := by
  have hsaved : Custody l (Kernel.endTurn t none) := by
    have c' := c.quiet (Kernel.save_quiet t.kernel t.self)
    rcases Kernel.endTurn_none_cases t with ⟨-, hend⟩ | ⟨-, hend⟩
    · rw [hend]
      exact c'
    · rw [hend]
      exact c'.fault _ _
  cases how with
  | none => exact hsaved
  | some e =>
    cases e with
    | yielded | blocked => exact hsaved
    | exited => exact c
    | faulted f => exact c.fault _ f
    | overflowed => exact c.of_resetCounts rfl (refl_of Volume.Steady _)

/-- A process that is loaded sits in its place. -/
theorem openTurn (c : Custody l k) (pid : Pid) (why : Resumption) :
    match k.openTurn pid why with
    | .error k' => Custody l k'
    | .ok t => InCustody l t := by
  have c₁ := c.quiet (Kernel.load_quiet k pid)
  have htable : (k.load pid).2.table = k.table := by rw [(Kernel.load_quiet k pid).rest]
  unfold Kernel.openTurn
  rcases hl : k.load pid with ⟨f | self, k₁⟩
  · rw [hl] at c₁
    exact c₁.fault pid f
  · rw [hl] at c₁ htable
    obtain ⟨p, hp, hself⟩ := Kernel.load_ok hl
    have hseated : (k₁.onTable (·.setStatus pid .active)).table.process? pid =
        some { p with status := .active } := by
      rw [← htable] at hp
      exact Table.process?_modify_self hp
    have hfiles : p.program = self.program ∧ p.backing = self.backing := by
      rw [hself]
      exact ⟨rfl, rfl⟩
    have hpid : self.pid = pid := by rw [hself]
    cases why with
    | ready =>
      refine ⟨c₁.setStatus pid .active, { p with status := .active }, ?_, rfl, hfiles⟩
      exact hpid.symm ▸ hseated
    | result value =>
      refine ⟨(c₁.note _).setStatus pid .active, { p with status := .active }, ?_, rfl, hfiles⟩
      exact hpid.symm ▸ hseated

theorem countTick (c : Custody l k) : Custody l k.countTick := by
  have c₁ : Custody l { k with ticks := k.ticks + 1 } := c.of_resetCounts rfl (refl_of Volume.Steady _)
  unfold Kernel.countTick
  dsimp only
  split
  · exact c₁.of_resetCounts (Table.resetCounts_resetCounts _) (refl_of Volume.Steady _)
  · exact c₁

/-- A call of the host, other than one for ticks. -/
theorem obeyed (c : Custody l k) {call : HostCall σ} (hd : call.isDirect) (hs : call.spares k) :
    Custody (l.record (.obeyed k call)) (call.run k) := by
  cases call with
  | tick | runUntilIdle => cases hd
  | spawn program =>
    have hspawn := c.spawn program
    simp only [Ledger.record, HostCall.run]
    rcases hr : k.spawn program with ⟨_ | pid, k'⟩
    · rw [hr] at hspawn
      exact hspawn
    · rw [hr] at hspawn
      exact hspawn
  | kill pid status => exact c.kill pid status
  | sendSignal pid signal => exact c.sendSignal pid signal
  | inspect pid => exact c.quiet (Kernel.load_quiet k pid)
  | setClock | configure => exact c.of_resetCounts rfl (refl_of Volume.Steady _)
  | openPath path =>
    simp only [Ledger.record, HostCall.run]
    rcases ho : Storage.openPath k.store path with ⟨_ | h, s⟩
    · exact c.opened_none ho
    · exact c.opened ho
  | close h =>
    refine c.closed fun {pid p} hp => ?_
    simp only [HostCall.spares, Bool.not_eq_true', List.any_eq_false, Table.mem_live,
      Table.uses_iff] at hs
    have hnot := hs pid ⟨p, hp⟩
    exact ⟨fun he => hnot ⟨p, hp, .inl he⟩, fun he => hnot ⟨p, hp, .inr he⟩⟩
  | edit change => exact c.of_resetCounts rfl (change.steady k.store)

/-- The books balance all through a run. -/
theorem upkeep :
    Upkeep (σ := σ) Ledger.record Custody
      (fun how l t => Custody l t.kernel ∧ (how = none → t.Seated)) where
  obeyed h := h.1.obeyed h.2.1 h.2.2
  counted c := c.countTick
  resumed := by
    rintro l k pid why ⟨c, _⟩
    have hopen := c.openTurn pid why
    cases ho : k.openTurn pid why with
    | error k' =>
      rw [ho] at hopen
      exact hopen
    | ok t =>
      rw [ho] at hopen
      exact ⟨hopen.custody, fun _ => hopen.seated⟩
  stepped := by
    rintro l t ⟨c, hs⟩
    have hstep := InCustody.step ⟨c, hs rfl⟩
    cases hr : Turn.step t with
    | ok _ t' =>
      rw [hr] at hstep
      exact ⟨hstep.custody, fun _ => hstep.seated⟩
    | error e t' =>
      rw [hr] at hstep
      exact ⟨hstep, fun he => by cases he⟩
  ended h := h.1.endTurn _

/-- Before anything happens, all that is open is on loan. -/
theorem start (s : σ) (settings : Settings) (entropy : UInt64) :
    Custody (Ledger.start (VolumeBacked.volume s)) (Kernel.new s settings entropy) := by
  have hnobody := Kernel.process?_new s settings entropy
  have hopen : ∀ h, (Storage.pathOf? s h).isSome ↔
      h ∈ (Ledger.start (VolumeBacked.volume s)).loans := by
    intro h
    rw [VolumeBacked.pathOf?]
    exact Index.find?_isSome_iff h _
  exact {
    program_open := fun hp => by rw [hnobody] at hp; cases hp
    backing_path := fun hp => by rw [hnobody] at hp; cases hp
    backing_name := fun hp => by rw [hnobody] at hp; cases hp
    backing_file := fun hp => by rw [hnobody] at hp; cases hp
    backing_unique := fun hp => by rw [hnobody] at hp; cases hp
    backing_apart := fun hp => by rw [hnobody] at hp; cases hp
    loan_open := fun hl => (hopen _).mpr hl
    loan_apart := fun _ hp => by rw [hnobody] at hp; cases hp
    accounted := fun ho => .inl ((hopen _).mp ho) }

end Custody

/-- In every state between the calls of the host, whatever they were and whatever the processes did,
the files of living processes are open, each backing file belongs to one process alone and is where it
was made, and whatever else is open was opened by the host or a program and not closed since. -/
theorem custody_between_calls (v : Volume) (settings : Settings) (entropy : UInt64)
    (calls : List (HostCall Volume))
    (h : HostCall.allSpare (Kernel.new v settings entropy) calls) :
    Custody ((HostCall.courseAll (Kernel.new v settings entropy) calls).foldl Ledger.record
        (Ledger.start v))
      (HostCall.runAll (Kernel.new v settings entropy) calls) :=
  (Custody.upkeep.run (Custody.start v settings entropy) h).2

/-- A process that takes a step in a run is in custody. -/
theorem HostCall.inCustody_of_stepped {s : σ} {settings : Settings} {entropy : UInt64} {calls : List (HostCall σ)}
    (h : allSpare (Kernel.new s settings entropy) calls) {t : Turn σ}
    (ht : .stepped t ∈ courseAll (Kernel.new s settings entropy) calls) : ∃ l, InCustody l t := by
  obtain ⟨before, later, hsplit⟩ := List.append_of_mem ht
  have hcustody := (Custody.upkeep.run (Custody.start s settings entropy) h).1
  rw [hsplit] at hcustody
  obtain ⟨hc, hseated⟩ := hcustody.at_split
  exact ⟨_, hc, hseated rfl⟩

/-- The host opens and closes a directory, and spawns, signals and kills a process. -/
theorem custody_between_calls_of_one_process :
    let k := Kernel.new ((Volume.empty.addFile (Path.ofText "/bin/init") #[0xC1]).2.mkdir
      (Path.ofText "/tmp")).2
    let calls := [.openPath Path.root, .close ⟨1⟩, .spawn "/bin/init", .tick, .sendSignal 0 .user1,
      .kill 0 7]
    Custody ((HostCall.courseAll k calls).foldl Ledger.record (Ledger.start k.store))
      (HostCall.runAll k calls) :=
  custody_between_calls ((Volume.empty.addFile (Path.ofText "/bin/init") #[0xC1]).2.mkdir
    (Path.ofText "/tmp")).2 {} 0 _ (by decide)

end CoopKernel
