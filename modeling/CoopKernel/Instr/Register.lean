import CoopKernel.Text.Number

/-!
# Registers

A process has eight registers of 16 bits. Three have a fixed role: register 0 selects a system call
and takes its result, register 6 is the stack pointer by convention and the one that signal delivery
pushes through, and register 7 is the instruction pointer.
-/

namespace CoopKernel

/-- The number of a register. -/
abbrev Reg := Fin 8

namespace Reg

/-- Any literal stands for a register. -/
instance : @NeZero Nat Zero.ofOfNat0 8 := ⟨nofun⟩

/-- Selects a system call and takes its result. -/
def result : Reg := 0

/-- The stack pointer. -/
def stack : Reg := 6

/-- The instruction pointer. -/
def ip : Reg := 7

/-- The register in the three low bits of `bits`. -/
def ofBits (bits : Nat) : Reg := Fin.ofNat 8 bits

/-- The register with number `n`, if there is one. -/
def ofNat? (n : Nat) : Option Reg :=
  if h : n < 8 then some ⟨n, h⟩ else none

/-- The name of a register in listings. -/
def text (r : Reg) : String := "r" ++ Number.decimal r.val

/-- What is said of a register number that is out of range. -/
def rangeMessage : String := "number too large to fit in target type"

end Reg

/-- The contents of all registers. -/
abbrev Registers := Vector UInt16 8

namespace Registers

/-- All registers zero. -/
def cleared : Registers := Vector.replicate 8 0

/-- The content of a register. -/
def read (regs : Registers) (r : Reg) : UInt16 := regs[r]

/-- Changes the content of one register. -/
def write (regs : Registers) (r : Reg) (value : UInt16) : Registers := regs.set r value

@[simp] theorem read_write_self (regs : Registers) (r : Reg) (value : UInt16) :
    (regs.write r value).read r = value := by
  simp [read, write]

theorem read_write_of_ne (regs : Registers) {r s : Reg} (value : UInt16) (h : s ≠ r) :
    (regs.write s value).read r = regs.read r := by
  simp only [read, write, Fin.getElem_fin]
  exact Vector.getElem_set_ne _ _ fun he => h (Fin.ext he)

end Registers

end CoopKernel
