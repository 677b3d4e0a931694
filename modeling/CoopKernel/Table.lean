import CoopKernel.Fault
import CoopKernel.Storage.Basic

/-!
# The process table

The table has a fixed number of slots, and the number of a slot is the process number of whoever is
in it. A slot is free, and then knows how its last occupant ended, or it holds a living process.
Slot 0 is for the first process; it is given away once and never again.
-/

namespace CoopKernel

/-- The number of a process. -/
abbrev Pid := Fin maxProcesses

namespace Pid

/-- Any literal stands for a process number. -/
instance : @NeZero Nat Zero.ofOfNat0 maxProcesses := ⟨nofun⟩

/-- The process number that a number stands for, if it is in range. -/
def ofNat? (n : Nat) : Option Pid :=
  if h : n < maxProcesses then some ⟨n, h⟩ else none

/-- The process number as a word. -/
def word (pid : Pid) : UInt16 := UInt16.ofNat pid.val

/-- All process numbers in ascending order. -/
def all : List Pid := List.finRange maxProcesses

/-- The decimal form of a process number. -/
def text (pid : Pid) : String := Number.decimal pid.val

end Pid

/-- What a living process is doing. -/
inductive Status where
  /-- It runs whenever it is its turn. -/
  | active
  /-- It waits for the end of a process, at the longest up to the deadline. -/
  | waitingForExit (target : Pid) (deadline : Option UInt32)
  /-- It waits until something can be read. -/
  | waitingToRead (handle : Handle)
  deriving DecidableEq, Repr

/-- What the table knows about a living process. -/
structure Process where
  status : Status := .active
  /-- How many instructions it executed since the counters were reset; wraps around. -/
  count : UInt16 := 0
  /-- The program file. -/
  program : Handle
  /-- The backing file. -/
  backing : Handle
  deriving DecidableEq, Repr

/-- A place in the table. -/
inductive Slot where
  /-- Nobody is there; the status is that of the last occupant. -/
  | free (lastExit : Option UInt16)
  | taken (process : Process)
  deriving DecidableEq, Repr

namespace Slot

/-- Who is there. -/
def process? : Slot → Option Process
  | free _ => none
  | taken p => some p

/-- How the last occupant of a free slot ended. -/
def lastExit? : Slot → Option UInt16
  | free status => status
  | taken _ => none

/-- Changes what is known about the occupant. -/
def map (f : Process → Process) : Slot → Slot
  | free status => free status
  | taken p => taken (f p)

theorem process?_map (f : Process → Process) (slot : Slot) :
    (slot.map f).process? = slot.process?.map f := by
  cases slot <;> rfl

end Slot

/-- All slots. -/
structure Table where
  slots : Vector Slot maxProcesses := Vector.replicate maxProcesses (.free none)
  /-- Slot 0 has been given away. -/
  initUsed : Bool := false
  deriving DecidableEq, Repr

namespace Table

/-- The slot with the given number. -/
def slot (t : Table) (pid : Pid) : Slot := t.slots[pid]

/-- The living process with the given number. -/
def process? (t : Table) (pid : Pid) : Option Process := (t.slot pid).process?

/-- The process is alive. -/
def isLive (t : Table) (pid : Pid) : Bool := (t.process? pid).isSome

/-- The living processes in ascending order. -/
def live (t : Table) : List Pid := Pid.all.filter t.isLive

/-- Puts something into a slot. -/
def setSlot (t : Table) (pid : Pid) (slot : Slot) : Table :=
  { t with slots := t.slots.set pid slot }

/-- Changes what is known about a living process. -/
def modify (t : Table) (pid : Pid) (f : Process → Process) : Table :=
  t.setSlot pid ((t.slot pid).map f)

/-- Changes what a living process is doing. -/
def setStatus (t : Table) (pid : Pid) (status : Status) : Table :=
  t.modify pid fun p => { p with status }

/-- Changes the program of a living process. -/
def setProgram (t : Table) (pid : Pid) (program : Handle) : Table :=
  t.modify pid fun p => { p with program }

/-- Counts an instruction of a living process. -/
def addCount (t : Table) (pid : Pid) : Table :=
  t.modify pid fun p => { p with count := p.count + 1 }

/-- Resets all instruction counters. -/
def resetCounts (t : Table) : Table :=
  { t with slots := t.slots.map (Slot.map fun p => { p with count := 0 }) }

/-- The instruction counter of every slot; a free slot counts nothing. -/
def counts (t : Table) : Vector UInt16 maxProcesses :=
  t.slots.map fun slot => (slot.process?.map Process.count).getD 0

/-- The slot for the next process: the first free one, where slot 0 counts as taken once it was
given away. -/
def firstFree? (t : Table) : Option Pid :=
  Pid.all.find? fun pid => !t.isLive pid && (pid.val ≠ 0 || !t.initUsed)

/-- Puts a new process into a slot. -/
def occupy (t : Table) (pid : Pid) (program backing : Handle) : Table :=
  let t := t.setSlot pid (.taken { program, backing })
  if pid.val = 0 then { t with initUsed := true } else t

/-- Frees a slot whose occupant ended with the given status. -/
def vacate (t : Table) (pid : Pid) (status : UInt16) : Table :=
  t.setSlot pid (.free (some status))

/-- The process uses the handle for its program or its backing file. -/
def uses (t : Table) (handle : Handle) (pid : Pid) : Bool :=
  (t.process? pid).any fun p => p.program = handle || p.backing = handle

/-- The living processes that wait for the end of a process, in ascending order. -/
def waitersFor (t : Table) (target : Pid) : List Pid :=
  t.live.filter fun pid => (t.process? pid).any fun p =>
    match p.status with
    | .waitingForExit awaited _ => awaited = target
    | _ => false

/-! ## Who is where after a change -/

theorem process?_setSlot (t : Table) (pid q : Pid) (slot : Slot) :
    (t.setSlot pid slot).process? q = if pid = q then slot.process? else t.process? q := by
  simp only [process?, Table.slot, setSlot, Fin.getElem_fin, Vector.getElem_set, Fin.ext_iff]
  split <;> rfl

theorem process?_modify (t : Table) (pid q : Pid) (f : Process → Process) :
    (t.modify pid f).process? q =
      if pid = q then (t.process? q).map f else t.process? q := by
  rw [modify, process?_setSlot]
  split
  · next h =>
    subst h
    rw [Slot.process?_map]
    rfl
  · rfl

theorem process?_occupy (t : Table) (pid q : Pid) (program backing : Handle) :
    (t.occupy pid program backing).process? q =
      if pid = q then some { program, backing } else t.process? q := by
  have h := process?_setSlot t pid q (.taken { program, backing })
  rw [occupy]
  split <;> exact h

theorem process?_vacate (t : Table) (pid q : Pid) (status : UInt16) :
    (t.vacate pid status).process? q = if pid = q then none else t.process? q := by
  rw [vacate, process?_setSlot]
  rfl

theorem process?_resetCounts (t : Table) (q : Pid) :
    t.resetCounts.process? q = (t.process? q).map fun p => { p with count := 0 } := by
  simp only [process?, slot, resetCounts, Fin.getElem_fin, Vector.getElem_map, Slot.process?_map]

end Table

end CoopKernel
