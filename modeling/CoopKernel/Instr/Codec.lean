import CoopKernel.Bytes
import CoopKernel.Instr.Basic

/-!
# The byte form of instructions

The top bits of the first byte select the class of the instruction:

```text
00DDDSSS                      store byte
01DDDSSS                      load byte
10......                      reserved
1100XXXX                      0 = nop, 1 = syscall, 2 = clear the cache, the rest undefined
11010DDD VVVVVVVV             set to a byte
11011DDD VVVVVVVV VVVVVVVV    set to a word
111OOOOD DDAAABBB             arithmetic: operation O, registers D, A and B
```

`decode` reads the instruction at the front of a byte string and never looks past it; `encode`
writes one. Operations with fewer than three operands leave the bits of the missing ones zero.
-/

namespace CoopKernel

/-- Why no instruction stands at the front of a byte string. -/
inductive DecodeError where
  /-- The first byte is in the reserved class. -/
  | reserved (first : UInt8)
  /-- The first byte is one of the undefined single bytes. -/
  | undefined (first : UInt8)
  /-- The bytes end before the instruction does. -/
  | truncated
  deriving DecidableEq, Repr

namespace DecodeError

/-- The one-line description. -/
def message : DecodeError → String
  | reserved first => "reserved memory operation (byte " ++ Number.byte first ++ ")"
  | undefined first => "unknown misc operation (byte " ++ Number.byte first ++ ")"
  | truncated => "instruction is missing bytes"

/-- Advice on the cause. -/
def help : DecodeError → Option String
  | reserved _ => some "bytes x80-xBF do not begin any instruction"
  | undefined _ => some "only xC0, xC1, and xC2 are defined misc-short instructions"
  | truncated => none

end DecodeError

namespace BinaryOp

/-- The four bits that select an operation. -/
def code : BinaryOp → Nat
  | add => 0
  | sub => 1
  | mul => 2
  | div => 3
  | xor => 4
  | or => 5
  | and => 6
  | cmp => 8
  | shl => 9
  | shr => 10

end BinaryOp

namespace Instr

/-- The arithmetic instruction with the given operation and operand bits. -/
def ofFields (op d a b : Nat) : Instr :=
  let dst := Reg.ofBits d
  let binary (op : BinaryOp) : Instr := .binary op dst (Reg.ofBits a) (Reg.ofBits b)
  match op with
  | 0 => binary .add
  | 1 => binary .sub
  | 2 => binary .mul
  | 3 => binary .div
  | 4 => binary .xor
  | 5 => binary .or
  | 6 => binary .and
  | 7 => .not dst (Reg.ofBits a)
  | 8 => binary .cmp
  | 9 => binary .shl
  | 10 => binary .shr
  | 11 => .skip dst (UInt8.ofNat (a % 8))
  | 12 => .storeWord dst (Reg.ofBits a)
  | 13 => .loadWord dst (Reg.ofBits a)
  | 14 => .inc dst (Step.ofBits (a % 8 * 8 + b % 8))
  | _ => .dec dst (Step.ofBits (a % 8 * 8 + b % 8))

/-- The arithmetic instruction in two bytes. -/
def ofPair (first second : UInt8) : Instr :=
  let bits := first.toNat * 256 + second.toNat
  ofFields (bits / 512 % 16) (bits / 64) (bits / 8) bits

/-- The instruction at the front of a byte string. -/
def decode : List UInt8 → Except DecodeError Instr
  | [] => .error .truncated
  | first :: rest =>
    let n := first.toNat
    let reg := Reg.ofBits n
    if n < 0x40 then .ok (.storeByte (Reg.ofBits (n / 8)) reg)
    else if n < 0x80 then .ok (.loadByte (Reg.ofBits (n / 8)) reg)
    else if n < 0xC0 then .error (.reserved first)
    else if n = 0xC0 then .ok .nop
    else if n = 0xC1 then .ok .syscall
    else if n = 0xC2 then .ok .clearCache
    else if n < 0xD0 then .error (.undefined first)
    else if n < 0xD8 then
      match rest with
      | value :: _ => .ok (.setByte reg value)
      | [] => .error .truncated
    else if n < 0xE0 then
      match rest with
      | high :: low :: _ => .ok (.setWord reg (Word.ofBytes high low))
      | _ => .error .truncated
    else
      match rest with
      | second :: _ => .ok (ofPair first second)
      | [] => .error .truncated

/-- The two bytes of an arithmetic instruction. -/
def pair (op d a b : Nat) : List UInt8 :=
  Word.toBytes (UInt16.ofNat (0xE000 + op * 512 + d * 64 + a * 8 + b))

/-- The bytes of an instruction. Of a skip's bit number, the three low bits are kept. -/
def encode : Instr → List UInt8
  | storeByte addr src => [UInt8.ofNat (addr.val * 8 + src.val)]
  | loadByte dst addr => [UInt8.ofNat (0x40 + dst.val * 8 + addr.val)]
  | binary op dst a b => pair op.code dst.val a.val b.val
  | not dst a => pair 7 dst.val a.val 0
  | skip reg bit => pair 11 reg.val (bit.toNat % 8) 0
  | storeWord addr src => pair 12 addr.val src.val 0
  | loadWord dst addr => pair 13 dst.val addr.val 0
  | inc dst step => pair 14 dst.val (step.bits / 8) (step.bits % 8)
  | dec dst step => pair 15 dst.val (step.bits / 8) (step.bits % 8)
  | nop => [0xC0]
  | syscall => [0xC1]
  | clearCache => [0xC2]
  | setByte dst value => [UInt8.ofNat (0xD0 + dst.val), value]
  | setWord dst value => UInt8.ofNat (0xD8 + dst.val) :: Word.toBytes value

@[simp] theorem length_encode (i : Instr) : i.encode.length = i.length := by
  cases i <;> rfl

end Instr

end CoopKernel
