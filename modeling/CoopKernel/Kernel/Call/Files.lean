import CoopKernel.Kernel.Call.Basic

/-!
# System calls on files, directories and devices

Reading, writing, opening and closing, and asking about and managing what is at a path. A read that
would have to wait puts the caller to sleep on its system call, which it then does again.
-/

namespace CoopKernel

/-- What trying to read a byte gives when there is none. -/
def noByte : UInt16 := 256

namespace Turn

variable {σ : Type} [Storage σ]

/-- Reads from a file or device into memory. -/
def readCall (handle : Handle) (offset buffer length : UInt16) : InTurn σ Reply := do
  if (← ask fun s : σ => (Storage.pathOf? s handle).isNone) then return some 0
  if length ≠ 0 && !(← ask fun s : σ => Storage.canRead s handle) then
    let pid := (← get).self.pid
    modifyState fun s => s.setReg Reg.ip (s.reg Reg.ip - 1)
    modifyKernel (·.onTable (·.setStatus pid (.waitingToRead handle)))
    note (.waitsToRead pid handle)
    throw .blocked
  let count ← (access (AddressSpace.receive handle offset.toNat buffer length.toNat) :
    Attempt σ Nat)
  return some (UInt16.ofNat count)

/-- Writes from memory to a file or device. -/
def writeCall (handle : Handle) (offset buffer length : UInt16) : Attempt σ Reply := do
  let count ← access (AddressSpace.send handle offset.toNat buffer length.toNat)
  return some (UInt16.ofNat count)

/-- Opens what is at a path. -/
def openCall (address : UInt16) : Attempt σ Reply := do
  match ← readPath address with
  | none => return some Handle.invalid.number
  | some p => return some ((← act (Storage.openPath · p)).getD Handle.invalid).number

/-- Closes a handle, unless it belongs to a living process. -/
def closeCall (handle : Handle) : Attempt σ Reply := do
  let table := (← get).kernel.table
  if !table.live.any (table.uses handle) then
    act fun s => ((), Storage.close s handle)
  return none

/-- Copies the path of a place in an open directory to memory. -/
def childCall (handle : Handle) (n buffer : UInt16) : Attempt σ Reply := do
  writeFound buffer (← ask fun s => (Storage.child? s handle n.toNat).map Path.text)

/-- Copies the path that a handle was opened for to memory. -/
def pathCall (handle : Handle) (buffer : UInt16) : Attempt σ Reply := do
  writeFound buffer (← ask fun s => (Storage.pathOf? s handle).map Path.text)

/-- Cuts or extends the file at a path, or makes one where nothing is. -/
def resizeCall (address size : UInt16) : Attempt σ Reply := do
  match ← readPath address with
  | none => return some 0
  | some p =>
    if ← ask (Storage.contains · p) then
      return Reply.flag (← act (Storage.resize · p size.toNat))
    else return Reply.flag (← act (Storage.create · p size.toNat))

/-- The length of the file at a path. -/
def lengthCall (address : UInt16) : Attempt σ Reply := do
  match ← readPath address with
  | none => return some 0
  | some p => return Reply.length ((← ask (Storage.length? · p)).getD 0)

/-- Reads a byte if that is possible without waiting. -/
def tryReadByte (handle : Handle) : Attempt σ Reply := do
  if ← ask (Storage.canRead · handle) then
    let bytes ← act (Storage.read · handle 0 1)
    if let [byte] := bytes.toList then return some byte.toUInt16
  return some noByte

/-- Answers a question about what is at a path; the answer is no where there is no path. -/
def pathQuestion (question : σ → Path → Bool) (address : UInt16) : Attempt σ Reply := do
  match ← readPath address with
  | none => return Reply.flag false
  | some p => return Reply.flag (← ask (question · p))

/-- Removes what is at a path. -/
def deleteCall (address : UInt16) : Attempt σ Reply := do
  match ← readPath address with
  | none => return Reply.flag false
  | some p => return Reply.flag (← act (Storage.delete · p))

end Turn

end CoopKernel
