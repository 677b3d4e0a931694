import CoopKernel.Kernel.Execute

/-!
# Scheduling

A tick visits every slot in the order of process numbers. A process that can go on gets a turn: it
is loaded, takes up to as many steps as its budget allows, and is saved. The turn ends early when
the process waits, ends, faults or gives up the rest.
-/

namespace CoopKernel

/-- Why a process gets a turn. -/
inductive Resumption where
  /-- It was not waiting, or what it waited to read is there. -/
  | ready
  /-- Its wait is over with a result. -/
  | result (value : UInt16)
  deriving DecidableEq, Repr

namespace Kernel

variable {σ : Type} [Storage σ]

/-- Whether a process that is doing the given thing gets a turn, and why. A process whose handle was
closed while it waited goes on too, so that its read can fail. -/
def resumption? (k : Kernel σ) : Status → Option Resumption
  | .active => some .ready
  | .waitingForExit target deadline =>
    if !k.table.isLive target then some (.result waitNoProcess)
    else if deadline.any k.clock.reached then some (.result waitTimeout)
    else none
  | .waitingToRead handle =>
    if Storage.canRead k.store handle || (Storage.pathOf? k.store handle).isNone then some .ready
    else none

/-- The kernel after a turn that ended in the given way. -/
def endTurn (t : Turn σ) : Option TurnEnd → Kernel σ
  | none | some .yielded | some .blocked =>
    match t.kernel.save t.self with
    | (true, k) => k
    | (false, k) => k.fault t.self.pid .storage
  | some .exited => t.kernel
  | some (.faulted f) => t.kernel.fault t.self.pid f
  | some .overflowed => { t.kernel with halted := true }

/-- Hands the result of a wait to a process. -/
def resume (k : Kernel σ) (self : Loaded) : Resumption → Turn σ
  | .ready => ⟨k, self⟩
  | .result value =>
    ⟨k.note (.woken self.pid value), { self with state := self.state.setReg Reg.result value }⟩

/-- Gives a process its turn. -/
def runTurn (k : Kernel σ) (pid : Pid) (why : Resumption) : Kernel σ :=
  match k.load pid with
  | (.error f, k) => k.fault pid f
  | (.ok self, k) =>
    let t := k.resume self why
    let t := { t with kernel := t.kernel.onTable (·.setStatus pid .active) }
    match Turn.steps t.kernel.settings.budget.toNat t with
    | .ok () t => endTurn t none
    | .error e t => endTurn t (some e)

/-- Visits a slot. -/
def visit (k : Kernel σ) (pid : Pid) : Kernel σ :=
  if k.halted then k
  else
    match k.table.process? pid with
    | none => k
    | some p =>
      match k.resumption? p.status with
      | none => k
      | some why => k.runTurn pid why

/-- Counts a tick, and resets the instruction counters when it is time to. -/
def countTick (k : Kernel σ) : Kernel σ :=
  let k := { k with ticks := k.ticks + 1 }
  let period := k.settings.resetTicks.toNat
  if period ≠ 0 ∧ k.ticks % period = 0 then k.onTable Table.resetCounts else k

/-- Visits all slots once. -/
def tick (k : Kernel σ) : Kernel σ :=
  if k.halted then k else Pid.all.foldl visit k.countTick

/-- Ticks until no process is alive, and at most the given number of times; the result is how many
times. -/
def runUntilIdle (k : Kernel σ) : (most : Nat) → Nat × Kernel σ
  | 0 => (0, k)
  | most + 1 =>
    if k.halted || k.liveCount = 0 then (0, k)
    else
      let (count, k) := k.tick.runUntilIdle most
      (count + 1, k)

end Kernel

end CoopKernel
