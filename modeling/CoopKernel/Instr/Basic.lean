import CoopKernel.Instr.Register

/-!
# Instructions

The instruction set: loads and stores of bytes and words, arithmetic and logic on registers,
immediate constants, a conditional skip of the next instruction, and the call into the kernel. An
instruction takes one to three bytes, and its first byte alone tells how many.
-/

namespace CoopKernel

/-- How far an increment or decrement goes: 1 to 64. -/
structure Step where
  amount : Nat
  positive : 1 ≤ amount := by omega
  bounded : amount ≤ 64 := by omega
  deriving DecidableEq, Repr

namespace Step

/-- The step of the given size, if it is in range. -/
def ofNat? (n : Nat) : Option Step :=
  if h : 1 ≤ n ∧ n ≤ 64 then some ⟨n, h.1, h.2⟩ else none

/-- The step that six bits stand for, which is one more than their number. -/
def ofBits (bits : Nat) : Step := ⟨bits % 64 + 1, by omega, by omega⟩

/-- The six bits that stand for a step. -/
def bits (s : Step) : Nat := s.amount - 1

end Step

/-- The operations with two operands. -/
inductive BinaryOp where
  | add | sub | mul | div | xor | or | and | cmp | shl | shr
  deriving DecidableEq, Repr

/-- An instruction. Of two or three registers, the one that is written comes first. -/
inductive Instr where
  /-- Stores the low byte of `src` at the address in `addr`. -/
  | storeByte (addr src : Reg)
  /-- Loads the byte at the address in `addr`. -/
  | loadByte (dst addr : Reg)
  /-- Combines two registers. -/
  | binary (op : BinaryOp) (dst a b : Reg)
  /-- Inverts every bit. -/
  | not (dst a : Reg)
  /-- Discards the next instruction if the given bit is set. -/
  | skip (reg : Reg) (bit : UInt8)
  /-- Stores a word at the address in `addr`. -/
  | storeWord (addr src : Reg)
  /-- Loads the word at the address in `addr`. -/
  | loadWord (dst addr : Reg)
  /-- Adds a constant. -/
  | inc (dst : Reg) (step : Step)
  /-- Subtracts a constant. -/
  | dec (dst : Reg) (step : Step)
  /-- Does nothing. -/
  | nop
  /-- Calls the kernel. -/
  | syscall
  /-- Forgets the fetched part of the program. -/
  | clearCache
  /-- Sets a register to a byte. -/
  | setByte (dst : Reg) (value : UInt8)
  /-- Sets a register to a word. -/
  | setWord (dst : Reg) (value : UInt16)
  deriving DecidableEq, Repr

namespace Instr

/-- The number of bytes of an instruction. -/
def length : Instr → Nat
  | storeByte .. | loadByte .. | nop | syscall | clearCache => 1
  | binary .. | not .. | skip .. | storeWord .. | loadWord .. | inc .. | dec .. | setByte .. => 2
  | setWord .. => 3

/-- The number of bytes of the instruction that begins with the given byte, whether or not there is
one. -/
def lengthFrom (first : UInt8) : Nat :=
  if first.toNat < 0xD0 then 1
  else if first.toNat / 8 = 0b11011 then 3
  else 2

theorem lengthFrom_pos (first : UInt8) : 0 < lengthFrom first := by
  unfold lengthFrom
  split <;> (try split) <;> omega

theorem length_pos (i : Instr) : 0 < i.length := by
  cases i <;> simp [length]

end Instr

end CoopKernel
