import CoopKernel.Kernel.Call.Basic

/-!
# System calls on processes

Ending, forking, exchanging the program, waiting for and killing processes, and asking about them.
-/

namespace CoopKernel

/-- What a fork gives that made no process. -/
def noProcess : UInt16 := 0xFFFF

/-- What a wait gives when the process to be waited for is not alive. -/
def waitNoProcess : UInt16 := 0xFFFF

/-- What a wait gives when its time is over. -/
def waitTimeout : UInt16 := 0xFFFE

/-- The status of a process that was killed by another, or by itself. -/
def exitKilled : UInt16 := 0xFFFB

namespace Status

/-- The name by which programs are told what a process is doing. -/
def text : Status → String
  | active => "active"
  | waitingForExit .. => "waitpid"
  | waitingToRead _ => "waitread"

end Status

namespace Turn

variable {σ : Type} [Storage σ]

/-- The caller ends. -/
def exit (status : UInt16) : InTurn σ Reply := do
  let pid := (← get).self.pid
  let _ ← onKernel (·.kill pid status)
  throw .exited

/-- Reads an argument from its offset on, up to the first NUL, the end of the data region or the
limit on texts. The address is computed without wrapping. -/
def readArgument (offset : Nat) : (count : Nat) → InTurn σ (List UInt8)
  | 0 => return []
  | count + 1 => do
    if offset ≥ (← get).self.state.dataLength.toNat then return []
    if dataStart.toNat + offset ≥ 0x10000 then throw .overflowed
    let b ← (access (AddressSpace.read (UInt16.ofNat (dataStart.toNat + offset))) : Attempt σ UInt8)
    if b = 0 then return []
    return b :: (← readArgument (offset + 1) count)

/-- Copies an argument of the caller to memory; the result is its length. -/
def argument (n buffer : UInt16) : InTurn σ Reply := do
  let env := (← get).self.state.env
  if n.toNat ≥ env.argCount.toNat then return some 0
  match env.argOffsets[n.toNat]? with
  | none => return some 0
  | some offset =>
    let arg ← readArgument offset.toNat textLimit
    (access (AddressSpace.writeText buffer arg) : Attempt σ Unit)
    return some (UInt16.ofNat arg.length)

/-- Doubles the caller: it gets the number of the new process, which gets zero. -/
def fork : InTurn σ Reply := do
  let self := (← get).self
  let made ← onKernel (·.fork self)
  let result ← match made with
    | .ok child => pure child.word
    | .error e => do
      note (.forkFailed self.pid e)
      pure noProcess
  modifyState (·.setReg Reg.result result)
  throw .yielded

/-- Reads the arguments at the addresses that are not zero. -/
def readArguments : List UInt16 → Attempt σ (List (List UInt8))
  | [] => return []
  | address :: rest => do
    if address = 0 then readArguments rest
    else
      let arg ← readText address
      return arg :: (← readArguments rest)

/-- Exchanges the program of the caller. -/
def execCall (args : CallArgs) : InTurn σ Reply := do
  let name ← (readText args.a : Attempt σ _)
  let arguments ← (readArguments [args.b, args.c, args.d] : Attempt σ _)
  if ← (exec name arguments : Attempt σ Bool) then throw .yielded
  return some 0

/-- Waits for the end of a process, at the longest for a number of seconds. -/
def waitPid (target timeout : UInt16) : InTurn σ Reply := do
  let t ← get
  let pid := t.self.pid
  match Pid.ofNat? target.toNat with
  | none => return some waitNoProcess
  | some target =>
    if target = pid || !t.kernel.table.isLive target then return some waitNoProcess
    let deadline := if timeout = 0 then none else some (t.kernel.clock.after timeout)
    modifyKernel (·.onTable (·.setStatus pid (.waitingForExit target deadline)))
    note (.waitsForExit pid target)
    throw .blocked

/-- The living process that a number stands for. -/
def lookup (number : UInt16) : Attempt σ (Option Process) := do
  return (Pid.ofNat? number.toNat).bind (← get).kernel.table.process?

/-- Copies the path of the program of a process to memory. -/
def programPath (number buffer : UInt16) : Attempt σ Reply := do
  let p ← lookup number
  let path ← ask fun s => p.bind fun p => Storage.pathOf? s p.program
  writeFound buffer (path.map Path.text)

/-- Copies to memory what a process is doing. -/
def processState (number buffer : UInt16) : Attempt σ Reply := do
  writeFound buffer ((← lookup number).map fun p => p.status.text)

/-- Copies the instruction counters of all slots to memory. -/
def allCounts (buffer : UInt16) : Attempt σ Reply := do
  let counts := (← get).kernel.table.counts
  access (AddressSpace.writeBytes buffer (counts.toList.flatMap Word.toBytes))
  return none

/-- The length of the backing file of a process. -/
def processRam (number : UInt16) : Attempt σ Reply := do
  match Pid.ofNat? number.toNat with
  | none => return some 0
  | some pid =>
    let k := (← get).kernel
    if k.table.isLive pid then
      return Reply.length ((Storage.length? k.store (k.backingPath pid)).getD 0)
    else return some 0

/-- Lets the loaded process handle being killed, and tells whether it does. The handler is gone
then, so that the next time is final. -/
def lastWords : Attempt σ Bool := do
  let handled ← deliver .suicide
  if handled then
    modifyState (·.setHandler .suicide 0)
  return handled

/-- Kills a process, unless it handles that. The first process cannot be killed. -/
def killCall (number : UInt16) : InTurn σ Reply := do
  let pid := (← get).self.pid
  match Pid.ofNat? number.toNat with
  | none => return none
  | some target =>
    if target.val = 0 then return none
    else if target = pid then
      if ← (lastWords : Attempt σ Bool) then return none
      let _ ← onKernel (·.kill pid exitKilled)
      throw .exited
    else
      let handled ← onKernel fun k =>
        if k.table.isLive target then
          let (handled, k) := k.withLoaded Kernel.fault target lastWords
          (handled.getD true, k)
        else (false, k)
      if !handled then
        let _ ← onKernel (·.kill target exitKilled)
      return none

end Turn

end CoopKernel
