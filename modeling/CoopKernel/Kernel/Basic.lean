import CoopKernel.Clock
import CoopKernel.Memory.Space
import CoopKernel.Signal
import CoopKernel.Table

/-!
# The kernel

The kernel owns the storage, the process table and the source of fresh memory, and is configured by
settings that its host can change at any time. What happens to processes is logged as a list of
events.

While a process runs, it is loaded: its snapshot is taken from its backing file into a `Loaded`
process, worked on, and put back at the end. A `Turn` is the kernel together with the process that
is loaded at the moment.
-/

namespace CoopKernel

/-- The configuration of a kernel. -/
structure Settings where
  /-- How many instructions a process may execute in a turn. -/
  budget : UInt8 := 8
  /-- After how many ticks the instruction counters are reset; never, if zero. -/
  resetTicks : UInt32 := 3072
  /-- The directory of the backing files. -/
  tmpDir : String := "/tmp"
  /-- The search path that a spawned process starts with. -/
  searchPath : String := "/bin"
  /-- The most bytes that a data region may have. -/
  ramLimit : UInt16 := 0x8000
  /-- How fresh memory is filled; this takes effect when the kernel is made. -/
  ramInit : RamInit := .known 0
  deriving DecidableEq, Repr

/-- Something worth logging. -/
inductive Event where
  /-- A process calls the kernel; the numbers are registers 0 to 4. -/
  | called (pid : Pid) (selector a b c d : UInt16)
  /-- A process was made for a program. -/
  | spawned (pid : Pid) (program : Path)
  /-- A process was doubled. -/
  | forked (parent child : Pid)
  /-- A process could not be doubled. -/
  | forkFailed (pid : Pid) (error : SpawnError)
  /-- A process changed its program. -/
  | executes (pid : Pid) (program : Path)
  /-- A process ended. -/
  | exited (pid : Pid) (status : UInt16)
  /-- A process waits for the end of another. -/
  | waitsForExit (pid target : Pid)
  /-- A process waits until something can be read. -/
  | waitsToRead (pid : Pid) (handle : Handle)
  /-- The wait of a process ended with a result. -/
  | woken (pid : Pid) (result : UInt16)
  /-- A process was sent into its handler for a signal. -/
  | signalled (pid : Pid) (signal : Signal) (handler : UInt16)
  /-- A process is killed for a fault. -/
  | faulted (pid : Pid) (fault : Fault)
  deriving DecidableEq, Repr

/-- How important an event is. -/
inductive Level where
  | trace | debug | warn
  deriving DecidableEq, Repr

namespace Level

/-- The name of a level. -/
def name : Level → String
  | trace => "TRACE"
  | debug => "DEBUG"
  | warn => "WARN"

/-- Levels are ordered by importance. -/
def rank : Level → Nat
  | trace => 0
  | debug => 1
  | warn => 2

end Level

namespace Event

/-- The level of an event. -/
def level : Event → Level
  | called .. => .trace
  | faulted .. => .warn
  | _ => .debug

/-- The text of an event. -/
def text : Event → String
  | called pid selector a b c d =>
    let arg (w : UInt16) : String := Number.hex 4 w.toNat
    "pid " ++ pid.text ++ " syscall " ++ Number.decimal selector.toNat ++ " (" ++ arg a ++ ", " ++
      arg b ++ ", " ++ arg c ++ ", " ++ arg d ++ ")"
  | spawned pid program => "spawned pid " ++ pid.text ++ " running " ++ program.text
  | forked parent child => "pid " ++ parent.text ++ " forked into pid " ++ child.text
  | forkFailed pid error => "pid " ++ pid.text ++ " fork failed: " ++ error.message
  | executes pid program => "pid " ++ pid.text ++ " exec " ++ program.text
  | exited pid status => "pid " ++ pid.text ++ " exited with status " ++ Number.word status
  | waitsForExit pid target => "pid " ++ pid.text ++ " waiting on pid " ++ target.text
  | waitsToRead pid handle => "pid " ++ pid.text ++ " waiting to read " ++ handle.text
  | woken pid result => "pid " ++ pid.text ++ " woken with r0 = " ++ Number.word result
  | signalled pid signal handler =>
    "pid " ++ pid.text ++ " took signal " ++ signal.name ++ " at " ++ Number.word handler
  | faulted pid fault => "pid " ++ pid.text ++ " faulted: " ++ fault.message

end Event

/-- A kernel over a storage. -/
structure Kernel (σ : Type) where
  store : σ
  settings : Settings := {}
  table : Table := {}
  clock : Clock := {}
  filler : Filler := .known 0
  /-- How many ticks have been run. -/
  ticks : Nat := 0
  /-- What happened, in order. -/
  log : Array Event := #[]
  /-- An address computation left its range; the kernel does not go on from there. -/
  halted : Bool := false

namespace Kernel

variable {σ : Type}

/-- A kernel without processes. The entropy takes the place of a seed for fresh memory where the
settings give none. -/
def new (store : σ) (settings : Settings := {}) (entropy : UInt64 := 0) : Kernel σ :=
  { store, settings, filler := Filler.ofInit entropy settings.ramInit }

/-- The kernel after an event was logged. -/
def note (k : Kernel σ) (e : Event) : Kernel σ :=
  { k with log := k.log.push e }

/-- Changes the process table. -/
def onTable (k : Kernel σ) (f : Table → Table) : Kernel σ :=
  { k with table := f k.table }

/-- The path of the backing file of a process, in the directory that the settings name. -/
def backingPath (k : Kernel σ) (pid : Pid) : Path :=
  Path.resolve k.settings.tmpDir ("proc" ++ pid.text)

/-- The number of living processes. -/
def liveCount (k : Kernel σ) : Nat := k.table.live.length

/-- The exit status of the last occupant of a free slot. -/
def exitStatus? (k : Kernel σ) (pid : Pid) : Option UInt16 :=
  (k.table.slot pid).lastExit?

end Kernel

/-- A process whose snapshot has been taken from its backing file. -/
structure Loaded where
  pid : Pid
  program : Handle
  backing : Handle
  backingPath : Path
  state : Snapshot
  window : Window := Window.closed

/-- The kernel and the process that is loaded. -/
structure Turn (σ : Type) where
  kernel : Kernel σ
  self : Loaded

/-- How a turn ends before its budget is used up. -/
inductive TurnEnd where
  /-- The process gave up the rest of its turn. -/
  | yielded
  /-- The process waits. -/
  | blocked
  /-- The process is gone. -/
  | exited
  /-- The process did something fatal. -/
  | faulted (fault : Fault)
  /-- The address of an argument left its range. -/
  | overflowed
  deriving DecidableEq, Repr

/-- Work on a loaded process that can fault. -/
abbrev Attempt (σ α : Type) := EStateM Fault (Turn σ) α

/-- Work on a loaded process that can end its turn. -/
abbrev InTurn (σ α : Type) := EStateM TurnEnd (Turn σ) α

instance {σ : Type} : MonadLift (EStateM Fault (Turn σ)) (EStateM TurnEnd (Turn σ)) where
  monadLift := EStateM.adaptExcept TurnEnd.faulted

namespace Turn

variable {σ : Type}

/-- The address space of the loaded process. -/
def space (t : Turn σ) : AddressSpace σ where
  store := t.kernel.store
  filler := t.kernel.filler
  limit := t.kernel.settings.ramLimit
  program := t.self.program
  data := t.self.backing
  dataPath := t.self.backingPath
  dataLength := t.self.state.dataLength
  window := t.self.window

/-- Puts an address space back. -/
def setSpace (t : Turn σ) (s : AddressSpace σ) : Turn σ where
  kernel := { t.kernel with store := s.store, filler := s.filler }
  self := { t.self with
    state := { t.self.state with dataLength := s.dataLength }, window := s.window }

/-- Accesses the memory of the loaded process. -/
def access {α : Type} (act : Access σ α) : Attempt σ α := fun t =>
  match act t.space with
  | .ok value s => .ok value (t.setSpace s)
  | .error fault s => .error fault (t.setSpace s)

/-- Works on the kernel alone. -/
def onKernel {α : Type} (act : Kernel σ → α × Kernel σ) : InTurn σ α := fun t =>
  match act t.kernel with
  | (value, kernel) => .ok value { t with kernel }

/-- Changes the kernel. -/
def modifyKernel {ε : Type} (f : Kernel σ → Kernel σ) : EStateM ε (Turn σ) Unit :=
  modify fun t => { t with kernel := f t.kernel }

/-- Changes the snapshot of the loaded process. -/
def modifyState {ε : Type} (f : Snapshot → Snapshot) : EStateM ε (Turn σ) Unit :=
  modify fun t => { t with self := { t.self with state := f t.self.state } }

/-- Logs an event. -/
def note {ε : Type} (e : Event) : EStateM ε (Turn σ) Unit :=
  modifyKernel (·.note e)

end Turn

end CoopKernel
