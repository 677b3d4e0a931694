import CoopKernel.Kernel.Call.Basic

/-!
# System calls on the environment, the time and signals
-/

namespace CoopKernel

namespace Turn

variable {σ : Type} [Storage σ]

/-- Changes the environment of the caller. -/
def modifyEnv (f : Environment → Environment) : Attempt σ Unit :=
  modifyState fun s => { s with env := f s.env }

/-- Sets the handle for standard input and output. -/
def setStdio (handle : Handle) : Attempt σ Reply := do
  modifyEnv fun env => { env with stdio := handle }
  return none

/-- Copies the working directory to memory. -/
def getWorkDir (buffer : UInt16) : Attempt σ Reply := do
  writeText buffer (← get).self.state.env.workDir
  return none

/-- Changes the working directory. A path that has no place in a state block is ignored. -/
def setWorkDir (address : UInt16) : Attempt σ Reply := do
  match ← readPath address with
  | none => return none
  | some p =>
    if p.size < Snapshot.textSize then modifyEnv fun env => { env with workDir := p.text }
    return none

/-- Copies the search path to memory. -/
def getSearchPath (buffer : UInt16) : Attempt σ Reply := do
  writeText buffer (← get).self.state.env.searchPath
  return none

/-- Changes the search path. A text that has no place in a state block is ignored, and what is not
UTF-8 in it is replaced. -/
def setSearchPath (address : UInt16) : Attempt σ Reply := do
  let raw ← access (AddressSpace.readText address Snapshot.textSize)
  if raw.length < Snapshot.textSize then
    modifyEnv fun env => { env with searchPath := String.ofList (Utf8.decodeLossy raw) }
  return none

/-- The time in seconds, cut to a word. -/
def time : Attempt σ Reply := do
  return some (← get).kernel.clock.seconds.toUInt16

/-- Registers a handler for a signal; zero removes it. -/
def setHandler (signal handler : UInt16) : Attempt σ Reply := do
  if let some s := Signal.ofNat? signal.toNat then
    modifyState (·.setHandler s handler)
  return none

/-- Sends a signal to a process, which can be the caller. -/
def sendSignal (number signal : UInt16) : InTurn σ Reply := do
  match Signal.ofNat? signal.toNat with
  | none => return Reply.flag false
  | some s =>
    match Pid.ofNat? number.toNat with
    | none => return Reply.flag false
    | some target =>
      if target = (← get).self.pid then
        return Reply.flag (← (deliver s : Attempt σ Bool))
      else return Reply.flag (← onKernel (·.sendSignal target s))

end Turn

end CoopKernel
