import CoopKernel.Proofs.Footprint
import CoopKernel.Proofs.Log
import CoopKernel.Proofs.Table

/-!
# What a step does

A step either does a system call or it concerns the process alone. Up to the system call it is plain:
besides what quiet work changes, an instruction is counted and idle events are logged. `Turn.call?`
tells which system call a step does.
-/

namespace CoopKernel

open Storage (Edits)

variable {σ : Type} [Storage σ] {α : Type}

namespace Table

theorem resetCounts_addCount (t : Table) (pid : Pid) :
    (t.addCount pid).resetCounts = t.resetCounts := by
  simp only [resetCounts, addCount, modify, slot, setSlot, Table.mk.injEq, and_true]
  ext i hi
  simp only [Vector.getElem_map, Vector.getElem_set]
  split
  · next h =>
    subst h
    simp only [Fin.getElem_fin]
    cases t.slots[pid.val] <;> rfl
  · rfl

theorem resetCounts_resetCounts (t : Table) : t.resetCounts.resetCounts = t.resetCounts := by
  simp only [resetCounts, Table.mk.injEq, and_true]
  ext i hi
  simp only [Vector.getElem_map]
  cases t.slots[i] <;> rfl

/-- Tables that agree but for the counters hold the same processes, but for the counters. -/
theorem process?_of_resetCounts {t t' : Table} (h : t'.resetCounts = t.resetCounts) {pid : Pid}
    {p : Process} (hp : t.process? pid = some p) :
    ∃ count, t'.process? pid = some { p with count } := by
  have hpid := congrArg (·.process? pid) h
  simp only [process?_resetCounts, hp, Option.map_some] at hpid
  obtain ⟨p', hp', he⟩ := Option.map_eq_some_iff.mp hpid
  refine ⟨p'.count, ?_⟩
  cases p
  cases p'
  simp only [Process.mk.injEq] at he
  rw [hp', he.1, he.2.2.1, he.2.2.2]

end Table

namespace Kernel

/-- Besides what quiet work changes, only the instruction counters and the log differ, the latter by
idle events. -/
structure Plain (k k' : Kernel σ) : Prop where
  rest : k' = { k with
    store := k'.store, filler := k'.filler, table := k'.table, log := k'.log }
  table : k'.table.resetCounts = k.table.resetCounts
  edits : Edits k.store k'.store
  log : LogsIdly k k'

instance : IsPreorder (Kernel σ) Plain where
  refl k := ⟨rfl, rfl, .refl, refl_of LogsIdly k⟩
  trans _ _ _ h₁ h₂ := ⟨by rw [h₂.rest, h₁.rest], h₂.table.trans h₁.table,
    h₁.edits.trans h₂.edits, trans_of LogsIdly h₁.log h₂.log⟩

theorem Quiet.plain {k k' : Kernel σ} (h : Quiet k k') : Plain k k' :=
  ⟨by rw [h.rest], by rw [h.rest], h.edits, .same (by rw [h.rest])⟩

theorem note_plain (k : Kernel σ) {e : Event} (he : e.isIdle) : Plain k (k.note e) :=
  ⟨rfl, rfl, .refl, logsIdly_note k he⟩

theorem addCount_plain (k : Kernel σ) (pid : Pid) : Plain k (k.onTable (·.addCount pid)) :=
  ⟨rfl, Table.resetCounts_addCount k.table pid, .refl, .same rfl⟩

end Kernel

namespace Turn

/-- Besides what quiet work changes, only the instruction counters and the log differ, the latter by
idle events. -/
structure Plain (t t' : Turn σ) : Prop where
  kernel : Kernel.Plain t.kernel t'.kernel
  self : t'.self = { t.self with state := t'.self.state, window := t'.self.window }

instance : IsPreorder (Turn σ) Plain where
  refl t := ⟨refl_of Kernel.Plain t.kernel, rfl⟩
  trans _ _ _ h₁ h₂ := ⟨trans_of Kernel.Plain h₁.kernel h₂.kernel, by rw [h₂.self, h₁.self]⟩

theorem Quiet.plain {t t' : Turn σ} (h : Quiet t t') : Plain t t' :=
  ⟨h.kernel.plain, h.self⟩

theorem Plain.noted {t t' : Turn σ} (h : Plain t t') {e : Event} (he : e.isIdle) :
    Plain t { t' with kernel := t'.kernel.note e } :=
  ⟨trans_of Kernel.Plain h.kernel (Kernel.note_plain t'.kernel he), h.self⟩

/-- The arguments that stand in the registers. -/
def callArgs (t : Turn σ) : CallArgs :=
  ⟨t.self.state.reg 1, t.self.state.reg 2, t.self.state.reg 3, t.self.state.reg 4⟩

/-- The system call that the next step does, with its arguments. -/
def call? (t : Turn σ) : Option (Syscall × CallArgs) :=
  if t.self.state.skip then none
  else
    match fetch t with
    | .ok .syscall t' =>
      (Syscall.ofNumber? (t'.self.state.reg Reg.result).toNat).map (·, t'.callArgs)
    | _ => none

/-- Leaves the result of a system call in the result register. -/
def conclude : Reply → InTurn σ Unit
  | some result => modifyState (·.setReg Reg.result result)
  | none => pure ()

theorem conclude_quiet (reply : Reply) : Keeps Quiet (conclude reply : InTurn σ Unit) := by
  cases reply with
  | none => exact .pure _
  | some result => exact modifyState_quiet (·.setReg Reg.result result)

/-- A system call is logged and, if there is one with the number, answered. -/
theorem syscall_eq (t : Turn σ) :
    syscall t =
      (match Syscall.ofNumber? (t.self.state.reg Reg.result).toNat with
        | none => throw (.faulted (.unknownCall (t.self.state.reg Reg.result)))
        | some call => answer call t.callArgs >>= conclude : InTurn σ Unit)
      { t with kernel := t.kernel.note (.called t.self.pid (t.self.state.reg Reg.result)
        t.callArgs.a t.callArgs.b t.callArgs.c t.callArgs.d) } := by
  unfold syscall note modifyKernel
  rw [get_bind, modify_bind]
  cases Syscall.ofNumber? (t.self.state.reg Reg.result).toNat with
  | none => rfl
  | some call =>
    refine congrFun (bind_congr fun reply => ?_) _
    cases reply <;> rfl

omit [Storage σ] in
/-- An attempt that succeeds succeeds as a part of a turn. -/
theorem lift_ok {act : Attempt σ α} {a : α} {t t' : Turn σ} (h : act t = .ok a t') :
    (monadLift act : InTurn σ α) t = .ok a t' := by
  simp only [monadLift, MonadLift.monadLift, EStateM.adaptExcept, h]

omit [Storage σ] in
/-- An attempt that faults ends the turn. -/
theorem lift_error {act : Attempt σ α} {f : Fault} {t t' : Turn σ} (h : act t = .error f t') :
    (monadLift act : InTurn σ α) t = .error (.faulted f) t' := by
  simp only [monadLift, MonadLift.monadLift, EStateM.adaptExcept, h]

theorem step_eq (t : Turn σ) :
    step t = (if t.self.state.skip then monadLift (discard : Attempt σ Unit)
      else monadLift (fetch : Attempt σ Instr) >>= execute : InTurn σ Unit) t :=
  rfl

theorem step_of_fetch {t t₁ : Turn σ} {instr : Instr} (hs : t.self.state.skip = false)
    (hf : fetch t = .ok instr t₁) : step t = execute instr t₁ := by
  rw [step_eq, if_neg (by rw [hs]; exact Bool.false_ne_true)]
  exact bind_of_ok (lift_ok hf)

theorem step_of_fetch_error {t t₁ : Turn σ} {f : Fault} (hs : t.self.state.skip = false)
    (hf : fetch t = .error f t₁) : step t = .error (.faulted f) t₁ := by
  rw [step_eq, if_neg (by rw [hs]; exact Bool.false_ne_true)]
  exact bind_of_error (lift_error hf)

/-- The turn at the point where the system call of the next step is answered. -/
def atCall (t : Turn σ) : Turn σ :=
  let t := after fetch t
  { t with kernel := t.kernel.note (.called t.self.pid (t.self.state.reg Reg.result)
    t.callArgs.a t.callArgs.b t.callArgs.c t.callArgs.d) }

/-- Before a system call is answered, the instruction is fetched and the call is logged. -/
theorem step_call_cases {t : Turn σ} {call : Syscall} {args : CallArgs}
    (h : t.call? = some (call, args)) : (∃ t₁, fetch t = .ok .syscall t₁) ∧
      args = t.atCall.callArgs ∧ step t = (answer call args >>= conclude) t.atCall := by
  unfold call? at h
  cases hs : t.self.state.skip with
  | true =>
    rw [if_pos hs] at h
    cases h
  | false =>
    rw [if_neg (by rw [hs]; exact Bool.false_ne_true)] at h
    cases hf : fetch t with
    | error f t₁ =>
      rw [hf] at h
      cases h
    | ok instr t₁ =>
      rw [hf] at h
      cases instr with
      | syscall =>
        obtain ⟨call', hcall, he⟩ := Option.map_eq_some_iff.mp h
        cases he
        refine ⟨⟨t₁, rfl⟩, ?_, ?_⟩
        · simp only [atCall, after_ok hf]
          rfl
        · rw [step_of_fetch hs hf]
          simp only [execute, syscall_eq, hcall, atCall, after_ok hf]
      | _ => cases h

namespace Domestic

variable {A : AddressSpace σ → AddressSpace σ → Prop} [IsPreorder (AddressSpace σ) A]
  {R : Turn σ → Turn σ → Prop} [IsPreorder (Turn σ) R] {E : Fault → Prop} {H : Signal → UInt16 → Prop}
  (d : Domestic A R E H)
  (hcount : ∀ (t : Turn σ) pid, R t { t with kernel := t.kernel.onTable (·.addCount pid) })

include d hcount

theorem fetch : Works R E (Turn.fetch : Attempt σ Instr) :=
  .bind .get fun _ => .bind (d.access (d.memory.fetch _)) fun _ => .bind (d.advance _) fun _ =>
    .bind (.modify fun t => hcount t _) fun _ => .pure _

variable (hcalled : ∀ (t : Turn σ) pid selector a b c d,
  R t { t with kernel := t.kernel.note (.called pid selector a b c d) })

include hcalled

theorem atCall {t : Turn σ} {call : Syscall} {args : CallArgs} (h : t.call? = some (call, args)) :
    R t t.atCall := by
  obtain ⟨⟨t₁, hf⟩, _, _⟩ := step_call_cases h
  have hfetch := (d.fetch hcount).keeps t
  rw [after_ok hf] at hfetch
  simp only [Turn.atCall, after_ok hf]
  exact trans_of R hfetch (hcalled t₁ _ _ _ _ _ _)

/-- A step that does no system call is work at home. -/
theorem step {t : Turn σ} (h : t.call? = none) :
    Yields (Turn.step t) (fun _ => R t) fun e t' => OnFault E e ∧ R t t' := by
  unfold call? at h
  cases hs : t.self.state.skip with
  | true =>
    rw [step_eq, if_pos hs]
    exact lift_works d.discard t
  | false =>
    rw [if_neg (by rw [hs]; exact Bool.false_ne_true)] at h
    have hfetch := d.fetch hcount t
    cases hf : Turn.fetch t with
    | error f t₁ =>
      rw [hf] at hfetch
      rw [step_of_fetch_error hs hf]
      exact hfetch
    | ok instr t₁ =>
      rw [hf] at hfetch
      rw [step_of_fetch hs hf]
      have hother : Yields ((monadLift (Turn.executeOther instr : Attempt σ Unit) : InTurn σ Unit) t₁)
          (fun _ => R t) fun e t' => OnFault E e ∧ R t t' :=
        (lift_works (d.executeOther instr) t₁).mono (fun _ _ => trans_of R hfetch) fun _ _ hr =>
          ⟨hr.1, trans_of R hfetch hr.2⟩
      cases instr with
      | syscall =>
        simp only [hf, Option.map_eq_none_iff] at h
        simp only [execute, syscall_eq, h]
        exact ⟨d.memory.fault _ nofun, trans_of R hfetch (hcalled t₁ _ _ _ _ _ _)⟩
      | _ => exact hother

end Domestic

namespace Indifferent

variable {A : AddressSpace σ → AddressSpace σ → Prop} [IsPreorder (AddressSpace σ) A]
  {R : Turn σ → Turn σ → Prop} [IsPreorder (Turn σ) R] {E : Fault → Prop} {H : Signal → UInt16 → Prop}
  (d : Indifferent A R E H) {t : Turn σ}

include d

theorem atCall {call : Syscall} {args : CallArgs} (h : t.call? = some (call, args)) : R t t.atCall :=
  d.toDomestic.atCall d.count (fun t _ _ _ _ _ _ => d.note t _ rfl) h

theorem step (h : t.call? = none) :
    Yields (Turn.step t) (fun _ => R t) fun e t' => OnFault E e ∧ R t t' :=
  d.toDomestic.step d.count (fun t _ _ _ _ _ _ => d.note t _ rfl) h

theorem conclude {E' : TurnEnd → Prop} (reply : Reply) :
    Works R E' (Turn.conclude reply : InTurn σ Unit) := by
  cases reply with
  | none => exact .pure _
  | some result => exact d.setReg _ _

/-- What answering a call keeps, the step keeps that does the call. -/
theorem stepCall {E' : TurnEnd → Prop} {call : Syscall} {args : CallArgs}
    (h : t.call? = some (call, args)) (ha : Works R E' (answer call args : InTurn σ Reply)) :
    Yields (Turn.step t) (fun _ => R t) fun e t' => E' e ∧ R t t' := by
  have hcall := d.atCall h
  have hanswer := (ha.bind fun reply => d.conclude reply) t.atCall
  rw [(step_call_cases h).2.2]
  exact hanswer.mono (fun _ _ => trans_of R hcall) fun _ _ hr => ⟨hr.1, trans_of R hcall hr.2⟩

end Indifferent

/-! ## What is plain -/

theorem domestic_plain : Domestic (σ := σ) AddressSpace.Quiet Plain fun _ => True :=
  domestic_quiet.mono fun _ _ => Quiet.plain

theorem addCount_plain (t : Turn σ) (pid : Pid) :
    Plain t { t with kernel := t.kernel.onTable (·.addCount pid) } :=
  ⟨Kernel.addCount_plain t.kernel pid, rfl⟩

theorem called_plain (t : Turn σ) (pid : Pid) (selector a b c d : UInt16) :
    Plain t { t with kernel := t.kernel.note (.called pid selector a b c d) } :=
  (refl_of Plain t).noted rfl

/-- A step that does no system call is plain, and can end the turn only by a fault. -/
theorem step_plain {t : Turn σ} (h : t.call? = none) :
    Yields (step t) (fun _ => Plain t) fun e t' => Plain t t' ∧ ∃ f, e = .faulted f := by
  have hstep := domestic_plain.step addCount_plain called_plain h
  refine hstep.mono (fun _ _ => id) ?_
  rintro e t' ⟨hfault, hplain⟩
  cases e with
  | faulted f => exact ⟨hplain, f, rfl⟩
  | _ => exact hfault.elim

/-- A step that does a system call comes plainly to the point where the call is answered, at which the
storage is as the fetching left it. -/
theorem step_call {t : Turn σ} {call : Syscall} {args : CallArgs} (h : t.call? = some (call, args)) :
    ∃ t₁, Plain t t₁ ∧ t₁.kernel.store = (after fetch t).kernel.store ∧
      step t = (answer call args >>= conclude) t₁ :=
  ⟨t.atCall, domestic_plain.atCall addCount_plain called_plain h, rfl, (step_call_cases h).2.2⟩

/-! ## Signals -/

/-- Work that is quiet but for idle events and for the process becoming active. -/
def Inward (act : Attempt σ α) : Prop :=
  ∀ (pid : Pid) (P : Turn σ → Prop), (∀ t, P t → t.self.pid = pid) →
    (∀ t t', Quiet t t' → P t → P t') →
    (∀ t (e : Event), e.isIdle → P t → P { t with kernel := t.kernel.note e }) →
    (∀ t, P t → P { t with kernel := t.kernel.onTable (·.setStatus pid .active) }) →
    Ensures P act (fun _ => P) fun _ => P

/-- What is known of the kernel stays true by such work if it does by each of its parts. -/
theorem Inward.kernel {act : Attempt σ α} (h : Inward act) {pid : Pid} {P : Kernel σ → Prop}
    (hquiet : ∀ k k', Kernel.Quiet k k' → P k → P k')
    (hnote : ∀ k (e : Event), e.isIdle → P k → P (k.note e))
    (hactive : ∀ k, P k → P (k.onTable (·.setStatus pid .active))) {t : Turn σ}
    (ht : t.self.pid = pid) : Stays P t.kernel (after act t).kernel := by
  intro hP
  have hact := h pid (fun t => t.self.pid = pid ∧ P t.kernel) (fun _ h => h.1)
    (fun _ _ hq hP => ⟨by rw [hq.self]; exact hP.1, hquiet _ _ hq.kernel hP.2⟩)
    (fun _ e he hP => ⟨hP.1, hnote _ e he hP.2⟩) fun _ hP => ⟨hP.1, hactive _ hP.2⟩
  exact (hact.keeps t ⟨ht, hP⟩).2

theorem deliver_inward (signal : Signal) : Inward (deliver signal : Attempt σ Bool) := by
  intro pid P hpid hquiet hnote hactive
  have hq {α : Type} {act : Attempt σ α} (h : Keeps Quiet act) :
      Ensures P act (fun _ => P) fun _ => P := .of_keeps h hquiet
  unfold deliver
  refine .get_bind fun t hP => ?_
  dsimp only
  split
  · exact .pure fun _ => id
  · have hrest : Ensures P (do
        modifyKernel (·.onTable (·.setStatus t.self.pid .active))
        let state := (← get).self.state
        let sp := state.reg Reg.stack
        access (AddressSpace.writeWord sp (state.reg Reg.ip))
        modifyState fun s => (s.setReg Reg.stack (sp + 2)).setReg Reg.ip
          (t.self.state.handler signal)
        note (.signalled t.self.pid signal (t.self.state.handler signal))
        return true : Attempt σ Bool) (fun _ => P) fun _ => P := by
      refine .bind (Q := fun _ => P) (.modify fun s hs => ?_) fun _ => ?_
      · rw [hpid t hP]
        exact hactive s hs
      · refine .bind (Q := fun _ => P) (hq .get) fun t' => ?_
        refine .bind (hq (access_quiet (AddressSpace.writeBytes_quiet _ _))) fun _ => ?_
        refine .bind (hq (modifyState_quiet _)) fun _ => ?_
        exact .bind (Q := fun _ => P) (.modify fun s hs => hnote s _ rfl hs) fun _ => .pure fun _ => id
    split
    · exact .bind (hq (modifyState_quiet _)) fun _ => hrest
    · exact hrest

theorem lastWords_inward : Inward (lastWords : Attempt σ Bool) := by
  intro pid P hpid hquiet hnote hactive
  unfold lastWords
  refine .bind (deliver_inward .suicide pid P hpid hquiet hnote hactive) fun handled => ?_
  cases handled with
  | true => exact .bind (.of_keeps (modifyState_quiet _) hquiet) fun _ => .pure fun _ => id
  | false => exact .pure fun _ => id

end Turn

end CoopKernel
