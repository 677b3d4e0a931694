import CoopKernel.Instr.Register
import CoopKernel.Signal
import CoopKernel.Storage.Basic

/-!
# What a process is between its turns

A snapshot holds everything that the kernel keeps about a process while it does not run, its memory
apart: the registers, whether the next instruction is to be discarded, the addresses of its signal
handlers, the length of its data region, and its environment.
-/

namespace CoopKernel

/-- The most arguments that a process can have, the path of its program included. -/
def maxArguments : Nat := 4

/-- The surroundings that a process runs in. -/
structure Environment where
  /-- The working directory. -/
  workDir : String := ""
  /-- The directories in which programs are looked up, separated by colons. -/
  searchPath : String := ""
  /-- The handle that the process uses for its standard input and output. -/
  stdio : Handle := Handle.invalid
  /-- How many of the offsets are in use. -/
  argCount : UInt8 := 0
  /-- Where in the data region each argument starts. -/
  argOffsets : Vector UInt16 4 := Vector.replicate 4 0
  deriving DecidableEq, Repr

/-- All of a process but its memory. -/
structure Snapshot where
  regs : Registers := Registers.cleared
  /-- The next instruction is to be discarded. -/
  skip : Bool := false
  /-- The address of the handler of each signal; zero where there is none. -/
  handlers : Vector UInt16 4 := Vector.replicate 4 0
  /-- The length of the data region. -/
  dataLength : UInt16 := 0
  env : Environment := {}
  deriving DecidableEq, Repr

namespace Snapshot

/-- The snapshot after one register changed. -/
def setReg (s : Snapshot) (r : Reg) (value : UInt16) : Snapshot :=
  { s with regs := s.regs.write r value }

/-- The content of a register. -/
def reg (s : Snapshot) (r : Reg) : UInt16 := s.regs.read r

/-- The snapshot after the handler of one signal changed. -/
def setHandler (s : Snapshot) (signal : Signal) (address : UInt16) : Snapshot :=
  { s with handlers := s.handlers.set signal.index address }

/-- The address of the handler of a signal. -/
def handler (s : Snapshot) (signal : Signal) : UInt16 := s.handlers[signal.index]

end Snapshot

end CoopKernel
