import CoopKernel.Instr.Codec
import CoopKernel.Path.Basic

/-!
# Faults and refusals

A fault is what a process dies of. It stays inside the kernel: the process is killed, the fault is
logged, and nobody else notices. A spawn error is what a host is told when no process could be made.
-/

namespace CoopKernel

/-- The most processes that can be alive at once. -/
abbrev maxProcesses : Nat := 16

/-- What is fatal to a process. -/
inductive Fault where
  /-- No instruction stands at the instruction pointer. -/
  | illegal (error : DecodeError)
  /-- The program has no byte at the address. -/
  | pastProgram (address : UInt16)
  /-- The address belongs to the program and cannot be written. -/
  | protectedWrite (address : UInt16)
  /-- The address lies past the end of the data region. -/
  | unallocatedRead (address : UInt16)
  /-- The data region could not grow up to the address. -/
  | noRoom (address : UInt16)
  /-- An integer was divided by zero. -/
  | divisionByZero
  /-- The state block could not be read back. -/
  | corruptState
  /-- The backing file could not be written. -/
  | storage
  /-- No system call has the number. -/
  | unknownCall (number : UInt16)
  deriving DecidableEq, Repr

namespace Fault

/-- The one-line description. -/
def message : Fault → String
  | illegal e => "illegal instruction: " ++ e.message
  | pastProgram a => "read past the end of the program at " ++ Number.word a
  | protectedWrite a => "write to read-only address " ++ Number.word a
  | unallocatedRead a => "read of unallocated address " ++ Number.word a
  | noRoom a => "could not grow memory to fit " ++ Number.word a
  | divisionByZero => "division by zero"
  | corruptState => "process state is corrupt"
  | storage => "could not write to process storage"
  | unknownCall n => "unknown syscall " ++ Number.decimal n.toNat

/-- Advice on the cause. -/
def help : Fault → Option String
  | illegal e => e.help
  | protectedWrite _ => some "addresses below x8000 belong to the program and cannot be written"
  | unallocatedRead _ => some "memory must be written before it is read"
  | noRoom _ => some "the memory limit was reached or storage is full"
  | unknownCall _ =>
    some "syscall numbers are grouped by hundreds starting at 0, 256, 512, 768, and 1024"
  | _ => none

end Fault

/-- Why no process was made. Everything that was opened for it has been released. -/
inductive SpawnError where
  /-- Every slot of the process table is taken. -/
  | tableFull
  /-- The path is empty, too long or contains a NUL. -/
  | invalidPath
  /-- No program is at the path. -/
  | programNotFound (path : String)
  /-- The backing file could not be made or written. -/
  | storage
  deriving DecidableEq, Repr

namespace SpawnError

/-- The one-line description. -/
def message : SpawnError → String
  | tableFull => "process table is full"
  | invalidPath => "invalid program path"
  | programNotFound path => "no program at " ++ path
  | storage => "could not create process storage"

/-- Advice on the cause. -/
def help : SpawnError → Option String
  | tableFull => some ("at most " ++ Number.decimal maxProcesses ++
      " processes can be alive at once")
  | invalidPath => some ("paths must be between 1 and " ++ Number.decimal Path.maxSize ++ " bytes")
  | programNotFound _ => none
  | storage => some "check that the temporary directory exists and has space"

end SpawnError

end CoopKernel
