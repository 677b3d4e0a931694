import CoopKernel.Instr.Basic

/-!
# Arithmetic on words

What the operations compute. Sums, differences and products wrap around. A shift by 16 or more
leaves nothing. A comparison sets one bit for each relation that holds, at the position that a skip
on that relation tests. Only division can fail.
-/

namespace CoopKernel

/-- The relations that a comparison tests, in the order of their bits. -/
inductive Comparison where
  | equal | zero | notEqual | notZero | less | lessOrEqual | greater | greaterOrEqual
  deriving DecidableEq, Repr

namespace Comparison

/-- All relations in the order of their bits. -/
def all : List Comparison :=
  [equal, zero, notEqual, notZero, less, lessOrEqual, greater, greaterOrEqual]

/-- The bit that stands for a relation. -/
def bit : Comparison → Nat
  | equal => 0
  | zero => 1
  | notEqual => 2
  | notZero => 3
  | less => 4
  | lessOrEqual => 5
  | greater => 6
  | greaterOrEqual => 7

/-- The relation holds between `a` and `b` as unsigned numbers. -/
def holds (a b : UInt16) : Comparison → Bool
  | equal => a = b
  | zero => a = 0
  | notEqual => a ≠ b
  | notZero => a ≠ 0
  | less => a < b
  | lessOrEqual => a ≤ b
  | greater => a > b
  | greaterOrEqual => a ≥ b

end Comparison

namespace Word

/-- The word in which exactly the bits of the relations that hold are set. -/
def compare (a b : UInt16) : UInt16 :=
  let holding := Comparison.all.filter (Comparison.holds a b)
  UInt16.ofNat (holding.foldl (fun bits relation => bits ||| 1 <<< relation.bit) 0)

/-- The bit of a word at a position. -/
def testBit (w : UInt16) (position : Nat) : Bool :=
  w.toNat.testBit position

/-- Shifts to the left; nothing is left of a shift by 16 or more. -/
def shiftLeft (a b : UInt16) : UInt16 :=
  if b < 16 then a <<< b else 0

/-- Shifts to the right; nothing is left of a shift by 16 or more. -/
def shiftRight (a b : UInt16) : UInt16 :=
  if b < 16 then a >>> b else 0

end Word

namespace BinaryOp

/-- The result of an operation; there is none for a division by zero. -/
def eval (op : BinaryOp) (a b : UInt16) : Option UInt16 :=
  match op with
  | add => some (a + b)
  | sub => some (a - b)
  | mul => some (a * b)
  | div => if b = 0 then none else some (a / b)
  | xor => some (a ^^^ b)
  | or => some (a ||| b)
  | and => some (a &&& b)
  | cmp => some (Word.compare a b)
  | shl => some (Word.shiftLeft a b)
  | shr => some (Word.shiftRight a b)

theorem eval_eq_none_iff (op : BinaryOp) (a b : UInt16) :
    op.eval a b = none ↔ op = div ∧ b = 0 := by
  cases op <;> simp [eval]

end BinaryOp

end CoopKernel
