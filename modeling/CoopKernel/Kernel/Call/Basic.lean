import CoopKernel.Kernel.Delivery
import CoopKernel.Kernel.Making

/-!
# System calls

A process calls the kernel with the number of the call in register 0 and the arguments in the
registers behind it. The result comes back in register 0. Calls are grouped by hundreds of
hexadecimal: processes, files, environment, time and signals.

Failures that a program can deal with are reported as particular results. A fault while arguments
are copied in or results are copied out is fatal to the caller.
-/

namespace CoopKernel

/-- A system call. -/
inductive Syscall where
  | exit | getPid | argCount | argument | fork | exec | waitPid | programPath | processState
  | allCounts | kill | processRam
  | read | write | openFile | close | childPath | handlePath | resizeFile | fileLength
  | tryReadByte | isDir | fileExists | delete
  | getStdio | setStdio | getWorkDir | setWorkDir | getSearchPath | setSearchPath
  | time
  | setHandler | sendSignal
  deriving DecidableEq, Repr

namespace Syscall

/-- The number that selects a call. -/
def number : Syscall → Nat
  | exit => 0
  | getPid => 1
  | argCount => 2
  | argument => 3
  | fork => 4
  | exec => 5
  | waitPid => 6
  | programPath => 7
  | processState => 8
  | allCounts => 9
  | kill => 10
  | processRam => 11
  | read => 256
  | write => 257
  | openFile => 258
  | close => 259
  | childPath => 260
  | handlePath => 261
  | resizeFile => 262
  | fileLength => 263
  | tryReadByte => 264
  | isDir => 265
  | fileExists => 266
  | delete => 267
  | getStdio => 512
  | setStdio => 513
  | getWorkDir => 514
  | setWorkDir => 515
  | getSearchPath => 516
  | setSearchPath => 517
  | time => 768
  | setHandler => 1024
  | sendSignal => 1025

/-- All calls. -/
def all : List Syscall :=
  [exit, getPid, argCount, argument, fork, exec, waitPid, programPath, processState, allCounts,
    kill, processRam, read, write, openFile, close, childPath, handlePath, resizeFile, fileLength,
    tryReadByte, isDir, fileExists, delete, getStdio, setStdio, getWorkDir, setWorkDir,
    getSearchPath, setSearchPath, time, setHandler, sendSignal]

/-- The call that a number selects. -/
def ofNumber? (n : Nat) : Option Syscall :=
  all.find? fun call => call.number = n

end Syscall

/-- The arguments of a system call, which are registers 1 to 4. -/
structure CallArgs where
  a : UInt16
  b : UInt16
  c : UInt16
  d : UInt16

/-- What a system call leaves in the result register: a value, or what was there before. -/
abbrev Reply := Option UInt16

namespace Reply

/-- One for yes and zero for no. -/
def flag (b : Bool) : Reply := some (if b then 1 else 0)

/-- A length, as far as a word can tell. -/
def length (n : Nat) : Reply := some (UInt16.ofNat (min n 0xFFFF))

end Reply

namespace Turn

variable {σ : Type} [Storage σ]

/-- How much of a text is read from memory: one byte more than any path has, so that a text that is
too long shows. -/
def textLimit : Nat := Path.maxSize + 1

/-- Reads a text from memory. -/
def readText (address : UInt16) : Attempt σ (List UInt8) :=
  access (AddressSpace.readText address textLimit)

/-- Writes a text to memory. -/
def writeText (address : UInt16) (text : String) : Attempt σ Unit :=
  access (AddressSpace.writeText address (Utf8.bytes text))

/-- Reads a path from memory and resolves it against the working directory; there is none where the
text is not accepted as a path. -/
def readPath (address : UInt16) : Attempt σ (Option Path) := do
  let raw ← readText address
  match Utf8.decode? raw with
  | none => return none
  | some chars =>
    let text := String.ofList chars
    if Path.accepts text then
      return some (Path.resolve (← get).self.state.env.workDir text)
    else return none

/-- Writes a text to memory if there is one, and tells whether there is. -/
def writeFound (address : UInt16) : Option String → Attempt σ Reply
  | some text => do
    writeText address text
    return Reply.flag true
  | none => return Reply.flag false

/-- Asks the storage. -/
def ask {α : Type} (question : σ → α) : Attempt σ α := do
  return question (← get).kernel.store

/-- Has the storage do something. -/
def act {α : Type} (action : σ → α × σ) : Attempt σ α :=
  modifyGet fun t =>
    let (value, store) := action t.kernel.store
    (value, { t with kernel := { t.kernel with store } })

end Turn

end CoopKernel
