import CoopKernel.Instr.Arithmetic
import CoopKernel.Kernel.Call.Files
import CoopKernel.Kernel.Call.Processes
import CoopKernel.Kernel.Call.Surroundings

/-!
# Executing instructions

One step of a process discards the next instruction, if a skip asked for that, or fetches it, moves
the instruction pointer behind it, counts it and executes it.
-/

namespace CoopKernel

namespace Turn

variable {σ : Type} [Storage σ]

/-- Answers a system call. -/
def answer (call : Syscall) (args : CallArgs) : InTurn σ Reply :=
  let attempt (act : Attempt σ Reply) : InTurn σ Reply := monadLift act
  match call with
  | .exit => exit args.a
  | .getPid => return some (← get).self.pid.word
  | .argCount => return some (← get).self.state.env.argCount.toUInt16
  | .argument => argument args.a args.b
  | .fork => fork
  | .exec => execCall args
  | .waitPid => waitPid args.a args.b
  | .programPath => attempt (programPath args.a args.b)
  | .processState => attempt (processState args.a args.b)
  | .allCounts => attempt (allCounts args.a)
  | .kill => killCall args.a
  | .processRam => attempt (processRam args.a)
  | .read => readCall ⟨args.a⟩ args.b args.c args.d
  | .write => attempt (writeCall ⟨args.a⟩ args.b args.c args.d)
  | .openFile => attempt (openCall args.a)
  | .close => attempt (closeCall ⟨args.a⟩)
  | .childPath => attempt (childCall ⟨args.a⟩ args.b args.c)
  | .handlePath => attempt (pathCall ⟨args.a⟩ args.b)
  | .resizeFile => attempt (resizeCall args.a args.b)
  | .fileLength => attempt (lengthCall args.a)
  | .tryReadByte => attempt (tryReadByte ⟨args.a⟩)
  | .isDir => attempt (pathQuestion Storage.isDir args.a)
  | .fileExists => attempt (pathQuestion Storage.contains args.a)
  | .delete => attempt (deleteCall args.a)
  | .getStdio => return some (← get).self.state.env.stdio.number
  | .setStdio => attempt (setStdio ⟨args.a⟩)
  | .getWorkDir => attempt (getWorkDir args.a)
  | .setWorkDir => attempt (setWorkDir args.a)
  | .getSearchPath => attempt (getSearchPath args.a)
  | .setSearchPath => attempt (setSearchPath args.a)
  | .time => attempt time
  | .setHandler => attempt (setHandler args.a args.b)
  | .sendSignal => sendSignal args.a args.b

/-- Does the system call that the registers tell. -/
def syscall : InTurn σ Unit := do
  let self := (← get).self
  let selector := self.state.reg Reg.result
  let args : CallArgs := ⟨self.state.reg 1, self.state.reg 2, self.state.reg 3, self.state.reg 4⟩
  note (.called self.pid selector args.a args.b args.c args.d)
  match Syscall.ofNumber? selector.toNat with
  | none => throw (.faulted (.unknownCall selector))
  | some call =>
    if let some result ← answer call args then
      modifyState (·.setReg Reg.result result)

/-- Sets a register. -/
def setReg (r : Reg) (value : UInt16) : Attempt σ Unit :=
  modifyState (·.setReg r value)

/-- Executes an instruction that is no system call. -/
def executeOther (instr : Instr) : Attempt σ Unit := do
  let state := (← get).self.state
  let reg (r : Reg) : UInt16 := state.reg r
  match instr with
  | .storeByte addr src => access (AddressSpace.write (reg addr) (Word.low (reg src)))
  | .loadByte dst addr => setReg dst (← access (AddressSpace.read (reg addr))).toUInt16
  | .binary op dst a b =>
    match op.eval (reg a) (reg b) with
    | some value => setReg dst value
    | none => throw .divisionByZero
  | .not dst a => setReg dst (~~~ (reg a))
  | .skip r bit =>
    if Word.testBit (reg r) bit.toNat then modifyState fun s => { s with skip := true }
  | .storeWord addr src => access (AddressSpace.writeWord (reg addr) (reg src))
  | .loadWord dst addr => setReg dst (← access (AddressSpace.readWord (reg addr)))
  | .inc dst step => setReg dst (reg dst + UInt16.ofNat step.amount)
  | .dec dst step => setReg dst (reg dst - UInt16.ofNat step.amount)
  | .nop => return
  | .syscall => return
  | .clearCache => modify fun t => { t with self := { t.self with window := t.self.window.close } }
  | .setByte dst value => setReg dst value.toUInt16
  | .setWord dst value => setReg dst value

/-- Executes an instruction. -/
def execute (instr : Instr) : InTurn σ Unit :=
  match instr with
  | .syscall => syscall
  | other => (executeOther other : Attempt σ Unit)

/-- Moves the instruction pointer past an instruction. -/
def advance (length : Nat) : Attempt σ Unit :=
  modifyState fun s => s.setReg Reg.ip (s.reg Reg.ip + UInt16.ofNat length)

/-- Discards the instruction at the instruction pointer, of which only the first byte is read. -/
def discard : Attempt σ Unit := do
  let first ← access (AddressSpace.read ((← get).self.state.reg Reg.ip))
  advance (Instr.lengthFrom first)
  modifyState fun s => { s with skip := false }

/-- Fetches the instruction at the instruction pointer, moves on behind it and counts it. -/
def fetch : Attempt σ Instr := do
  let self := (← get).self
  let instr ← access (AddressSpace.fetch (self.state.reg Reg.ip))
  advance instr.length
  modifyKernel (·.onTable (·.addCount self.pid))
  return instr

/-- Executes or discards one instruction. -/
def step : InTurn σ Unit := do
  if (← get).self.state.skip then
    (discard : Attempt σ Unit)
  else
    execute (← (fetch : Attempt σ Instr))

/-- Takes the given number of steps. -/
def steps : Nat → InTurn σ Unit
  | 0 => return
  | n + 1 => do
    step
    steps n

end Turn

end CoopKernel
