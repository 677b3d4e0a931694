import CoopKernel.Kernel.Ending

/-!
# Delivering signals

A signal sends a process into the handler that it registered, as if the handler had been called: the
instruction pointer is pushed as a word at the stack pointer, which moves on by two. A signal for
which there is no handler is dropped. A process that waits stops waiting; the system call that it
waited in returns with a result that tells so.
-/

namespace CoopKernel

/-- What a wait for the end of a process gives when a signal interrupts it. -/
def waitInterrupted : UInt16 := 0xFFFD

/-- What a read gives when a signal interrupts it. -/
def readInterrupted : UInt16 := 0

namespace Snapshot

/-- The snapshot of a process whose wait was interrupted. A process that waits to read stands on its
system call, to do it again; it is moved past it. -/
def interrupt (s : Snapshot) : Status → Snapshot
  | .active => s
  | .waitingForExit .. => s.setReg Reg.result waitInterrupted
  | .waitingToRead _ =>
    (s.setReg Reg.result readInterrupted).setReg Reg.ip (s.reg Reg.ip + 1)

end Snapshot

namespace Turn

variable {σ : Type} [Storage σ]

/-- Sends the loaded process into its handler for a signal, and tells whether it has one. -/
def deliver (signal : Signal) : Attempt σ Bool := do
  let t ← get
  let pid := t.self.pid
  let handler := t.self.state.handler signal
  if handler = 0 then return false
  if let some p := t.kernel.table.process? pid then
    modifyState (·.interrupt p.status)
  modifyKernel (·.onTable (·.setStatus pid .active))
  let state := (← get).self.state
  let sp := state.reg Reg.stack
  access (AddressSpace.writeWord sp (state.reg Reg.ip))
  modifyState fun s => (s.setReg Reg.stack (sp + 2)).setReg Reg.ip handler
  note (.signalled pid signal handler)
  return true

end Turn

namespace Kernel

variable {σ : Type} [Storage σ]

/-- Sends a signal to a process, and tells whether it went into a handler. A process that faults on
the way is killed. -/
def sendSignal (k : Kernel σ) (pid : Pid) (signal : Signal) : Bool × Kernel σ :=
  if k.table.isLive pid then
    let (handled, k) := k.withLoaded Kernel.fault pid (Turn.deliver signal)
    (handled.getD false, k)
  else (false, k)

end Kernel

end CoopKernel
