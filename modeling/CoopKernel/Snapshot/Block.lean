import CoopKernel.Fault
import CoopKernel.Snapshot.Basic
import CoopKernel.Text.Utf8

/-!
# State blocks

The byte form of a snapshot, which stands at the start of the backing file of its process and is
followed by the data region:

```text
offset  size  field
     0    16  registers
    16     1  flags (bit 0: discard the next instruction)
    17     1  number of arguments
    18     8  signal handlers
    26     2  standard input and output
    28     2  length of the data region
    30     8  argument offsets
    38    64  working directory
   102    64  search path
```

Words are big-endian. A text takes a field of 64 bytes that ends in at least one NUL: it is cut to
63 bytes, wherever that falls, and read back up to the first NUL.
-/

namespace CoopKernel

namespace Snapshot

/-- The size of a state block. -/
def blockSize : Nat := 166

/-- The size of a text field. -/
def textSize : Nat := 64

/-- The bytes of a text in its field. -/
def textField (text : String) : List UInt8 :=
  (Utf8.bytes text).take (textSize - 1) |>.rightpad textSize 0

/-- The bytes of the fields before the texts. -/
def header (s : Snapshot) : List UInt8 :=
  s.regs.toList.flatMap Word.toBytes ++
    [if s.skip then 1 else 0, s.env.argCount] ++
    s.handlers.toList.flatMap Word.toBytes ++
    Word.toBytes s.env.stdio.number ++
    Word.toBytes s.dataLength ++
    s.env.argOffsets.toList.flatMap Word.toBytes

/-- The state block of a snapshot. -/
def toBlock (s : Snapshot) : Bytes :=
  (s.header ++ textField s.env.workDir ++ textField s.env.searchPath).toArray

/-- The text in the field at position `start`. -/
def textAt (block : Bytes) (start : Nat) : String :=
  let field := (block.slice start textSize).toList
  String.ofList (Utf8.decodeLossy (field.takeWhile (· ≠ 0)))

/-- The snapshot in a state block. What follows the block is not looked at. -/
def ofBlock (block : Bytes) : Except Fault Snapshot :=
  if block.size < blockSize then .error .corruptState
  else
    let argCount := block.getD 17 0
    if argCount.toNat > maxArguments then .error .corruptState
    else .ok {
      regs := Vector.ofFn fun i => Word.fromBytes block (2 * i.val)
      skip := (block.getD 16 0).toNat % 2 = 1
      handlers := Vector.ofFn fun i => Word.fromBytes block (18 + 2 * i.val)
      dataLength := Word.fromBytes block 28
      env := {
        workDir := textAt block 38
        searchPath := textAt block 102
        stdio := ⟨Word.fromBytes block 26⟩
        argCount
        argOffsets := Vector.ofFn fun i => Word.fromBytes block (30 + 2 * i.val) } }

/-! ## In a file -/

variable {σ : Type} [Storage σ]

/-- Reads the snapshot from the start of a backing file. -/
def load (store : σ) (file : Handle) : Except Fault Snapshot × σ :=
  let (block, store) := Storage.read store file 0 blockSize
  if block.size = blockSize then (ofBlock block, store) else (.error .corruptState, store)

/-- Writes the snapshot to the start of a backing file, and tells whether all of it was written. -/
def save (s : Snapshot) (store : σ) (file : Handle) : Bool × σ :=
  let block := s.toBlock
  let (count, store) := Storage.write store file 0 block
  (count = block.size, store)

end Snapshot

end CoopKernel
