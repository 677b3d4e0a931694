/-!
# Numbers as text

Numbers appear in texts in decimal, or in upper-case hexadecimal filled with zeros to a fixed width
and marked by a leading `x`.
-/

namespace CoopKernel.Number

/-- The decimal form of a number. -/
def decimal (n : Nat) : String :=
  Nat.repr n

/-- The upper-case hexadecimal form of a number, with at least `width` digits. -/
def hex (width n : Nat) : String :=
  String.ofList ((Nat.toDigits 16 n).map Char.toUpper |>.leftpad width '0')

/-- A byte: `x` and two digits. -/
def byte (b : UInt8) : String :=
  "x" ++ hex 2 b.toNat

/-- A word: `x` and four digits. -/
def word (w : UInt16) : String :=
  "x" ++ hex 4 w.toNat

end CoopKernel.Number
