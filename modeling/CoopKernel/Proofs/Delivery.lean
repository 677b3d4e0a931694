import CoopKernel.Proofs.Step

/-!
# What the delivery of a signal does

A process without a handler for a signal is left as it is. One with a handler is taken out of its wait
and goes on in the handler, with the old instruction pointer pushed. All that is done to the kernel by
it is that the process becomes active and that the delivery is logged.
-/

namespace CoopKernel

variable {σ : Type} [Storage σ]

namespace Snapshot

/-- The snapshot of a process that goes on at a handler, above what was pushed. -/
def entered (s : Snapshot) (handler : UInt16) : Snapshot :=
  (s.setReg Reg.stack (s.reg Reg.stack + 2)).setReg Reg.ip handler

theorem reg_setReg_of_ne (s : Snapshot) {r q : Reg} (value : UInt16) (h : r ≠ q) :
    (s.setReg r value).reg q = s.reg q :=
  Registers.read_write_of_ne _ _ h

@[simp] theorem reg_setReg_self (s : Snapshot) (r : Reg) (value : UInt16) :
    (s.setReg r value).reg r = value :=
  Registers.read_write_self _ _ _

@[simp] theorem entered_ip (s : Snapshot) (handler : UInt16) :
    (s.entered handler).reg Reg.ip = handler :=
  reg_setReg_self _ _ _

@[simp] theorem entered_stack (s : Snapshot) (handler : UInt16) :
    (s.entered handler).reg Reg.stack = s.reg Reg.stack + 2 := by
  rw [entered, reg_setReg_of_ne _ _ (by decide), reg_setReg_self]

/-- Entering a handler changes no registers but the stack and the instruction pointer. -/
theorem entered_reg (s : Snapshot) (handler : UInt16) {r : Reg} (hstack : Reg.stack ≠ r)
    (hip : Reg.ip ≠ r) : (s.entered handler).reg r = s.reg r := by
  rw [entered, reg_setReg_of_ne _ _ hip, reg_setReg_of_ne _ _ hstack]

theorem interrupt_env (s : Snapshot) (status : Status) : (s.interrupt status).env = s.env := by
  cases status <;> rfl

theorem interrupt_skip (s : Snapshot) (status : Status) : (s.interrupt status).skip = s.skip := by
  cases status <;> rfl

end Snapshot

namespace Turn

/-- The turn of a process that is taken out of its wait. -/
def interrupted (t : Turn σ) (status : Status) : Turn σ where
  kernel := t.kernel.onTable (·.setStatus t.self.pid .active)
  self := { t.self with state := t.self.state.interrupt status }

/-- The turn of a process that goes on at a handler. -/
def entered (t : Turn σ) (signal : Signal) (handler : UInt16) : Turn σ where
  kernel := t.kernel.note (.signalled t.self.pid signal handler)
  self := { t.self with state := t.self.state.entered handler }

/-- Pushes the instruction pointer. -/
def pushIp (t : Turn σ) : EStateM.Result Fault (AddressSpace σ) Unit :=
  AddressSpace.writeWord (t.self.state.reg Reg.stack) (t.self.state.reg Reg.ip) t.space

variable {t t' : Turn σ} {signal : Signal} {p : Process}

theorem deliver_of_none (h : t.self.state.handler signal = 0) :
    deliver signal t = .ok false t := by
  simp only [deliver, bind, EStateM.bind, get_run, if_pos h]
  rfl

/-- Where there is a handler, the wait ends, the instruction pointer is pushed and the process goes on
at the handler, unless the push faults. -/
theorem deliver_of_some (hp : t.kernel.table.process? t.self.pid = some p)
    (h : t.self.state.handler signal ≠ 0) :
    deliver signal t =
      match (t.interrupted p.status).pushIp with
      | .ok _ s => .ok true (((t.interrupted p.status).setSpace s).entered signal
          (t.self.state.handler signal))
      | .error f s => .error f ((t.interrupted p.status).setSpace s) := by
  simp only [deliver, bind, EStateM.bind, get_run, if_neg h, hp, modifyState, modifyKernel, modify,
    modifyGet_run, access, interrupted, pushIp]
  generalize AddressSpace.writeWord (σ := σ) _ _ _ = r
  cases r <;> rfl

/-- What a delivery to a process with a handler leaves behind. -/
structure Handles (signal : Signal) (t : Turn σ) (p : Process) (t' : Turn σ) : Prop where
  handler : t.self.state.handler signal ≠ 0
  ip : t'.self.state.reg Reg.ip = t.self.state.handler signal
  result : t'.self.state.reg Reg.result = (t.self.state.interrupt p.status).reg Reg.result
  env : t'.self.state.env = t.self.state.env
  pid : t'.self.pid = t.self.pid
  backing : t'.self.backing = t.self.backing
  table : t'.kernel.table = t.kernel.table.setStatus t.self.pid .active
  log : t'.kernel.log =
    t.kernel.log.push (.signalled t.self.pid signal (t.self.state.handler signal))

omit [Storage σ] in
theorem handles_entered (p : Process) (h : t.self.state.handler signal ≠ 0)
    (s : AddressSpace σ) :
    Handles signal t p (((t.interrupted p.status).setSpace s).entered signal
      (t.self.state.handler signal)) where
  handler := h
  ip := Snapshot.entered_ip _ _
  result := Snapshot.entered_reg _ _ (by decide) (by decide)
  env := t.self.state.interrupt_env p.status
  pid := rfl
  backing := rfl
  table := rfl
  log := rfl

/-- A delivery that does not fault finds no handler and changes nothing, or finds one. -/
theorem deliver_ok {handled : Bool} (hp : t.kernel.table.process? t.self.pid = some p)
    (h : deliver signal t = .ok handled t') :
    handled = false ∧ t' = t ∨ handled = true ∧ Handles signal t p t' := by
  by_cases hh : t.self.state.handler signal = 0
  · rw [deliver_of_none hh] at h
    cases h
    exact .inl ⟨rfl, rfl⟩
  · rw [deliver_of_some hp hh] at h
    split at h
    · cases h
      exact .inr ⟨rfl, handles_entered p hh _⟩
    · cases h

/-- So does giving a process its last words. -/
theorem lastWords_ok {handled : Bool} (hp : t.kernel.table.process? t.self.pid = some p)
    (h : lastWords t = .ok handled t') :
    handled = false ∧ t' = t ∨ handled = true ∧ Handles .suicide t p t' := by
  simp only [lastWords, bind, EStateM.bind] at h
  cases hd : deliver .suicide t with
  | error f t₁ =>
    rw [hd] at h
    cases h
  | ok handled₁ t₁ =>
    rw [hd] at h
    rcases deliver_ok hp hd with ⟨rfl, rfl⟩ | ⟨rfl, hh⟩
    · cases h
      exact .inl ⟨rfl, rfl⟩
    · cases h
      exact .inr ⟨rfl, hh.handler, hh.ip, hh.result, hh.env, hh.pid, hh.backing, hh.table,
        hh.log⟩

end Turn

end CoopKernel
