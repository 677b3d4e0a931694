import CoopKernel.Kernel.Backing

/-!
# How processes end

A process ends with a status. Its slot becomes free, its files are closed (a program file only if no
other living process runs it), its backing file is deleted, and whoever waited for it is woken with
the status in the result register. A waiter whose snapshot cannot be read or written dies of that in
turn, before the next waiter is woken. Each death frees a slot, so that a cascade of deaths is no
deeper than the table is long.
-/

namespace CoopKernel

/-- The status of a process that was killed for a fault. -/
def exitFault : UInt16 := 0xFFFC

namespace Kernel

variable {σ : Type} [Storage σ]

/-- Closes the program file of a process, unless another living process runs it. -/
def releaseProgram (k : Kernel σ) (pid : Pid) (program : Handle) : Kernel σ :=
  if (k.table.live.filter (· ≠ pid)).any (k.table.uses program) then k
  else { k with store := Storage.close k.store program }

/-- Works on a process that is loaded for that and saved behind. If it cannot be loaded or saved, or
the work faults, that is left to `onFault`, and there is no result. -/
def withLoaded {α : Type} (onFault : Kernel σ → Pid → Fault → Kernel σ) (k : Kernel σ) (pid : Pid)
    (act : Attempt σ α) : Option α × Kernel σ :=
  match k.load pid with
  | (.error fault, k) => (none, onFault k pid fault)
  | (.ok self, k) =>
    match act ⟨k, self⟩ with
    | .error fault t => (none, onFault t.kernel pid fault)
    | .ok value t =>
      match t.kernel.save t.self with
      | (true, k) => (some value, k)
      | (false, k) => (none, onFault k pid .storage)

/-- Ends the wait of a process with a result. -/
def wake (onFault : Kernel σ → Pid → Fault → Kernel σ) (k : Kernel σ) (pid : Pid)
    (result : UInt16) : Kernel σ :=
  match k.withLoaded onFault pid (Turn.modifyState (·.setReg Reg.result result)) with
  | (some (), k) => (k.note (.woken pid result)).onTable (·.setStatus pid .active)
  | (none, k) => k

/-- Takes a process out of the table and releases what it held. -/
def bury (k : Kernel σ) (pid : Pid) (p : Process) (status : UInt16) : Kernel σ :=
  let k := k.onTable (·.vacate pid status)
  let k := k.releaseProgram pid p.program
  let file := k.backingPath pid
  let (_, store) := Storage.delete (Storage.close k.store p.backing) file
  { k with store }.note (.exited pid status)

/-- Ends a process, and all that die of it, down to the given depth. -/
def killWithin : (depth : Nat) → Kernel σ → Pid → UInt16 → Kernel σ
  | 0, k, _, _ => k
  | depth + 1, k, pid, status =>
    match k.table.process? pid with
    | none => k
    | some p =>
      let k := k.bury pid p status
      let onFault (k : Kernel σ) (pid : Pid) (fault : Fault) : Kernel σ :=
        killWithin depth (k.note (.faulted pid fault)) pid exitFault
      (k.table.waitersFor pid).foldl (fun k waiter => k.wake onFault waiter status) k

/-- Ends a process with a status, and tells whether it was alive. -/
def kill (k : Kernel σ) (pid : Pid) (status : UInt16) : Bool × Kernel σ :=
  (k.table.isLive pid, killWithin maxProcesses k pid status)

/-- Kills a process for a fault. -/
def fault (k : Kernel σ) (pid : Pid) (fault : Fault) : Kernel σ :=
  ((k.note (.faulted pid fault)).kill pid exitFault).2

end Kernel

end CoopKernel
