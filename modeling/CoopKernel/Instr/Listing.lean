import CoopKernel.Instr.Codec

/-!
# Listings

The assembly text of an instruction, and the listing of a byte string: one line for each instruction
found by decoding at the front and going on behind it. Where nothing decodes, the line tells why and
the listing goes on as far behind as the first byte announces.
-/

namespace CoopKernel

namespace BinaryOp

/-- The mnemonic of an operation. -/
def mnemonic : BinaryOp → String
  | add => "ADD"
  | sub => "SUB"
  | mul => "MUL"
  | div => "DIV"
  | xor => "XOR"
  | or => "OR"
  | and => "AND"
  | cmp => "CMP"
  | shl => "SHL"
  | shr => "SHR"

end BinaryOp

namespace Instr

/-- A register that holds an address. -/
def place (addr : Reg) : String := "[" ++ addr.text ++ "]"

/-- A small constant. -/
def count (n : Nat) : String := "#" ++ Number.decimal n

/-- The assembly text of an instruction. -/
def text : Instr → String
  | storeByte addr src => "STB " ++ place addr ++ ", " ++ src.text
  | loadByte dst addr => "LDB " ++ dst.text ++ ", " ++ place addr
  | binary op dst a b => op.mnemonic ++ " " ++ dst.text ++ ", " ++ a.text ++ ", " ++ b.text
  | not dst a => "NOT " ++ dst.text ++ ", " ++ a.text
  | skip reg bit => "SKIP " ++ reg.text ++ ", " ++ count bit.toNat
  | storeWord addr src => "STW " ++ place addr ++ ", " ++ src.text
  | loadWord dst addr => "LDW " ++ dst.text ++ ", " ++ place addr
  | inc dst step => "INC " ++ dst.text ++ ", " ++ count step.amount
  | dec dst step => "DEC " ++ dst.text ++ ", " ++ count step.amount
  | nop => "NOP"
  | syscall => "SYSCALL"
  | clearCache => "CLRICACHE"
  | setByte dst value => "SET8 " ++ dst.text ++ ", " ++ Number.byte value
  | setWord dst value => "SET16 " ++ dst.text ++ ", " ++ Number.word value

/-- A line of a listing: where it starts, and what stands there. -/
structure Line where
  offset : Nat
  content : Except DecodeError Instr

/-- The listing of a byte string that starts at the given offset. -/
def listing (offset : Nat) (bytes : List UInt8) : List Line :=
  match bytes with
  | [] => []
  | first :: rest =>
    let content := decode (first :: rest)
    let size := match content with
      | .ok i => i.length
      | .error _ => lengthFrom first
    ⟨offset, content⟩ :: listing (offset + size) (rest.drop (size - 1))
termination_by bytes.length
decreasing_by
  simp only [List.length_drop, List.length_cons]
  omega

end Instr

end CoopKernel
