import CoopKernel.Kernel.Ending
import CoopKernel.Text.Utf8

/-!
# How processes come to be, and change their programs

A process is spawned by the host for a program, or forked from a running process, of which it is a
copy. A running process can also exchange its program: it keeps its number, its registers and its
environment, and starts over with the arguments in its data region.
-/

namespace CoopKernel

namespace Text

/-- The parts of a text between separators. -/
def fields (separator : Char) : List Char → List (List Char)
  | [] => [[]]
  | c :: cs =>
    match fields separator cs with
    | [] => [[c]]
    | part :: parts => if c = separator then [] :: part :: parts else (c :: part) :: parts

end Text

namespace Environment

/-- The directories of the search path; empty ones are left out. -/
def searchDirs (env : Environment) : List String :=
  ((Text.fields ':' env.searchPath.toList).filter (!·.isEmpty)).map String.ofList

/-- Where the program with a name is looked for, in order: an absolute path stands for itself, a
path with a slash is read from the working directory, and a bare name is looked up there and in the
search path. -/
def candidates (env : Environment) (name : String) : List Path :=
  if name.toList.head? = some '/' then [Path.ofText name]
  else if name.toList.contains '/' then [Path.resolve env.workDir name]
  else Path.resolve env.workDir name :: env.searchDirs.map (Path.resolve · name)

end Environment

/-- Arguments as they are laid out in a data region: one behind the other, each with a NUL, and the
offset of each. -/
structure Arguments where
  data : List UInt8
  offsets : List Nat

namespace Arguments

/-- The layout of some arguments, the first of them at `start`. -/
def layout (start : Nat) : List (List UInt8) → Arguments
  | [] => ⟨[], []⟩
  | arg :: args =>
    let rest := layout (start + arg.length + 1) args
    ⟨arg ++ 0 :: rest.data, start :: rest.offsets⟩

/-- The offsets as they are kept in an environment; those of missing arguments are zero. -/
def offsetVector (a : Arguments) : Vector UInt16 4 :=
  Vector.ofFn fun i => UInt16.ofNat (a.offsets.getD i.val 0)

end Arguments

namespace Kernel

variable {σ : Type} [Storage σ]

/-- The state that a spawned process starts in. -/
def initialState (k : Kernel σ) (program : Path) : Snapshot where
  env := { workDir := program.parent.text, searchPath := k.settings.searchPath, argCount := 1 }

/-- Makes a process for the program at a path. -/
def spawn (k : Kernel σ) (program : String) : Except SpawnError Pid × Kernel σ :=
  if !Path.accepts program then (.error .invalidPath, k)
  else
    let path := Path.ofText program
    match k.table.firstFree? with
    | none => (.error .tableFull, k)
    | some pid =>
      if Storage.isDir k.store path then (.error (.programNotFound path.text), k)
      else
        match Storage.openPath k.store path with
        | (none, store) => (.error (.programNotFound path.text), { k with store })
        | (some handle, store) =>
          let state := k.initialState path
          match { k with store }.makeBacking pid state #[] with
          | (.error e, k) => (.error e, { k with store := Storage.close k.store handle })
          | (.ok backing, k) =>
            (.ok pid, (k.onTable (·.occupy pid handle backing)).note (.spawned pid path))

/-- Makes a process that is a copy of a loaded one, down to the bytes of its data region, but for
the result register. Both run the same open program file. -/
def fork (k : Kernel σ) (parent : Loaded) : Except SpawnError Pid × Kernel σ :=
  match k.table.firstFree? with
  | none => (.error .tableFull, k)
  | some pid =>
    let length := parent.state.dataLength.toNat
    let (data, store) := Storage.read k.store parent.backing Snapshot.blockSize length
    if data.size ≠ length then (.error .storage, { k with store })
    else
      let state := parent.state.setReg Reg.result 0
      match { k with store }.makeBacking pid state data with
      | (.error e, k) => (.error e, k)
      | (.ok backing, k) =>
        (.ok pid, (k.onTable (·.occupy pid parent.program backing)).note (.forked parent.pid pid))

/-- The first place where the program with a name is found. -/
def findProgram (k : Kernel σ) (env : Environment) (name : String) : Option Path :=
  (env.candidates name).find? fun p => Storage.contains k.store p && !Storage.isDir k.store p

end Kernel

namespace Snapshot

/-- The snapshot of a process that starts over with the given arguments. -/
def restart (s : Snapshot) (count : Nat) (args : Arguments) : Snapshot :=
  { s.setReg Reg.ip 0 with
    skip := false
    handlers := Vector.replicate 4 0
    dataLength := UInt16.ofNat args.data.length
    env := { s.env with argCount := UInt8.ofNat count, argOffsets := args.offsetVector } }

end Snapshot

namespace Turn

variable {σ : Type} [Storage σ]

/-- Opens the program that a name stands for. -/
def openProgram (name : List UInt8) : Attempt σ (Option (Path × Handle)) := do
  match Utf8.decode? name with
  | none => return none
  | some chars =>
    let text := String.ofList chars
    if !Path.accepts text then return none
    let t ← get
    match t.kernel.findProgram t.self.state.env text with
    | none => return none
    | some path =>
      let (opened, store) := Storage.openPath t.kernel.store path
      modifyKernel fun k => { k with store }
      return opened.map (path, ·)

/-- Runs the program at a path, open under a handle, in the place of the present one. -/
def replaceProgram (path : Path) (program : Handle) (args : List (List UInt8)) :
    Attempt σ Unit := do
  let self := (← get).self
  modifyKernel fun k =>
    (k.onTable (·.setProgram self.pid program)).releaseProgram self.pid self.program
  let args := (Utf8.encode path.chars :: args).take maxArguments
  let layout := Arguments.layout 0 args
  modify fun t => { t with self := { t.self with
    program, window := Window.closed, state := t.self.state.restart args.length layout } }
  if !(← access (AddressSpace.resizeData layout.data.length)) then throw .storage
  let count ← access (AddressSpace.writeFile self.backing Snapshot.blockSize layout.data.toArray)
  if count ≠ layout.data.length then throw .storage
  note (.executes self.pid path)

/-- Exchanges the program of the loaded process for the one that a name stands for, and tells
whether there is one. -/
def exec (name : List UInt8) (args : List (List UInt8)) : Attempt σ Bool := do
  match ← openProgram name with
  | none => return false
  | some (path, program) =>
    replaceProgram path program args
    return true

end Turn

end CoopKernel
