import CoopKernel.Fill.Basic
import CoopKernel.Memory.Window
import CoopKernel.Snapshot.Block

/-!
# The address space of a process

Addresses are words. The lower half is the program, which can only be read. The upper half is the
data region, which lies in the backing file of the process behind its state block. The data region
grows when it is written past its end: by up to 16 bytes more than needed, or by less if storage is
short, and never past a limit. Addresses wrap around.

An access can fault. What it did up to then stays done.
-/

namespace CoopKernel

/-- The memory of a process, with everything that an access to it needs. -/
structure AddressSpace (σ : Type) where
  store : σ
  /-- Where the bytes of fresh memory come from. -/
  filler : Filler
  /-- The most bytes that the data region may have. -/
  limit : UInt16
  /-- The program file. -/
  program : Handle
  /-- The backing file. -/
  data : Handle
  /-- The path of the backing file, by which it is resized. -/
  dataPath : Path
  /-- The length of the data region. -/
  dataLength : UInt16
  window : Window

/-- An access to memory, which can fault. -/
abbrev Access (σ α : Type) := EStateM Fault (AddressSpace σ) α

namespace AddressSpace

variable {σ : Type} [Storage σ]

/-! ## Files -/

/-- Reads from an open file or device. -/
def readFile (handle : Handle) (offset count : Nat) : Access σ Bytes
  | ⟨store, filler, limit, program, data, dataPath, dataLength, window⟩ =>
    let (bytes, store) := Storage.read store handle offset count
    .ok bytes ⟨store, filler, limit, program, data, dataPath, dataLength, window⟩

/-- Writes to an open file or device. -/
def writeFile (handle : Handle) (offset : Nat) (bytes : Bytes) : Access σ Nat
  | ⟨store, filler, limit, program, data, dataPath, dataLength, window⟩ =>
    let (count, store) := Storage.write store handle offset bytes
    .ok count ⟨store, filler, limit, program, data, dataPath, dataLength, window⟩

/-- Makes room in the backing file for a data region of the given length. -/
def resizeData (length : Nat) : Access σ Bool
  | ⟨store, filler, limit, program, data, dataPath, dataLength, window⟩ =>
    let (done, store) := Storage.resize store dataPath (Snapshot.blockSize + length)
    .ok done ⟨store, filler, limit, program, data, dataPath, dataLength, window⟩

/-! ## Single bytes -/

/-- Reads a byte of the program, through the window. -/
def readProgram (address : UInt16) : Access σ UInt8 := do
  let s ← get
  match s.window.byte? address with
  | some b => return b
  | none =>
    let bytes ← readFile s.program address.toNat (Window.extent address)
    modify fun s => { s with window := ⟨address, bytes⟩ }
    match bytes[0]? with
    | some b => return b
    | none => throw (.pastProgram address)

/-- Reads a byte of the data region. -/
def readData (address : UInt16) (index : Nat) : Access σ UInt8 := do
  let s ← get
  if index ≥ s.dataLength.toNat then throw (.unallocatedRead address)
  let bytes ← readFile s.data (Snapshot.blockSize + index) 1
  if h : bytes.size = 1 then return bytes[0] else throw (.unallocatedRead address)

/-- Reads the byte at an address. -/
def read (address : UInt16) : Access σ UInt8 :=
  if address < dataStart then readProgram address
  else readData address (address.toNat - dataStart.toNat)

/-- How many bytes more than needed the data region is to grow by, in the order of trial. -/
def headroom : List Nat := [16, 8, 4, 2, 1]

/-- The lengths to be tried for a data region that is to contain an index. -/
def candidates (limit : UInt16) (index : Nat) : List Nat :=
  headroom.map fun extra => min (index + 1 + extra) limit.toNat

/-- The first of some lengths that the backing file can be resized for. -/
def firstThatFits : List Nat → Access σ (Option Nat)
  | [] => return none
  | length :: rest => do
    if ← resizeData length then return some length else firstThatFits rest

/-- Draws the bytes that memory grown by `count` bytes is to be filled with. -/
def drawFill (count : Nat) : Access σ (Option Bytes) :=
  modifyGet fun s =>
    let (fill, filler) := s.filler.fill count
    (fill, { s with filler })

/-- Extends the data region so that it contains an index. -/
def grow (address : UInt16) (index : Nat) : Access σ Unit := do
  let s ← get
  if index ≥ s.limit.toNat then throw (.noRoom address)
  let old := s.dataLength.toNat
  match ← firstThatFits (candidates s.limit index) with
  | none => throw (.noRoom address)
  | some length =>
    if let some fill ← drawFill (length - old) then
      let _ ← writeFile s.data (Snapshot.blockSize + old) fill
    modify fun s => { s with dataLength := UInt16.ofNat length }

/-- Writes a byte of the data region. -/
def writeData (address : UInt16) (index : Nat) (b : UInt8) : Access σ Unit := do
  let s ← get
  if index ≥ s.dataLength.toNat then grow address index
  let count ← writeFile s.data (Snapshot.blockSize + index) #[b]
  if count ≠ 1 then throw .storage

/-- Writes the byte at an address. -/
def write (address : UInt16) (b : UInt8) : Access σ Unit :=
  if address < dataStart then throw (.protectedWrite address)
  else writeData address (address.toNat - dataStart.toNat) b

/-! ## Words, texts and instructions -/

/-- Reads the word at an address. -/
def readWord (address : UInt16) : Access σ UInt16 := do
  let high ← read address
  let low ← read (address + 1)
  return Word.ofBytes high low

/-- Writes bytes from an address on. -/
def writeBytes (address : UInt16) : List UInt8 → Access σ Unit
  | [] => return
  | b :: bytes => do
    write address b
    writeBytes (address + 1) bytes

/-- Writes the word at an address. -/
def writeWord (address value : UInt16) : Access σ Unit :=
  writeBytes address (Word.toBytes value)

/-- Reads bytes from an address on, up to the first NUL, and at most `count`. -/
def readText (address : UInt16) : (count : Nat) → Access σ (List UInt8)
  | 0 => return []
  | count + 1 => do
    let b ← read address
    if b = 0 then return []
    return b :: (← readText (address + 1) count)

/-- Writes bytes from an address on, and a NUL behind them. -/
def writeText (address : UInt16) (bytes : List UInt8) : Access σ Unit :=
  writeBytes address (bytes ++ [0])

/-- Reads `count` bytes from an address on. -/
def readBytes (address : UInt16) : (count : Nat) → Access σ (List UInt8)
  | 0 => return []
  | count + 1 => do
    let b ← read address
    return b :: (← readBytes (address + 1) count)

/-- Reads the instruction at an address: as many bytes as its first one announces. -/
def fetch (address : UInt16) : Access σ Instr := do
  let first ← read address
  let rest ← readBytes (address + 1) (Instr.lengthFrom first - 1)
  match Instr.decode (first :: rest) with
  | .ok instr => return instr
  | .error e => throw (.illegal e)

/-! ## Transfers -/

/-- Writes up to `count` bytes of memory to a file or device, a byte at a time, and tells how many
were accepted. -/
def send (handle : Handle) (offset : Nat) (address : UInt16) : (count : Nat) → Access σ Nat
  | 0 => return 0
  | count + 1 => do
    let b ← read address
    if (← writeFile handle offset #[b]) ≠ 1 then return 0
    return (← send handle (offset + 1) (address + 1) count) + 1

/-- Reads up to `count` bytes of a file or device into memory, a byte at a time, and tells how many
there were. -/
def receive (handle : Handle) (offset : Nat) (address : UInt16) : (count : Nat) → Access σ Nat
  | 0 => return 0
  | count + 1 => do
    let bytes ← readFile handle offset 1
    if h : bytes.size = 1 then
      write address bytes[0]
      return (← receive handle (offset + 1) (address + 1) count) + 1
    else return 0

end AddressSpace

end CoopKernel
