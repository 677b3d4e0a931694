/-!
# UTF-8

The byte form of text, and two ways back. `scan` reads a byte string one byte at a time and yields a
character for each well-formed sequence and `none` for each broken one, where a broken sequence is
the longest run of bytes that some well-formed sequence begins with (or a single byte that begins
none). Strict decoding (`decode?`) refuses broken sequences; lossy decoding (`decodeLossy`) puts one
replacement character in the place of each.

Everything is stated with division and remainder on `Nat`.
-/

namespace CoopKernel.Utf8

/-- The bytes of one character: one byte below 128, and otherwise a leading byte that tells the
length, followed by six bits a byte. -/
def encodeChar (c : Char) : List UInt8 :=
  let n := c.toNat
  if n < 0x80 then
    [UInt8.ofNat n]
  else if n < 0x800 then
    [UInt8.ofNat (0xC0 + n / 64), UInt8.ofNat (0x80 + n % 64)]
  else if n < 0x10000 then
    [UInt8.ofNat (0xE0 + n / 4096), UInt8.ofNat (0x80 + n / 64 % 64), UInt8.ofNat (0x80 + n % 64)]
  else
    [UInt8.ofNat (0xF0 + n / 262144), UInt8.ofNat (0x80 + n / 4096 % 64),
      UInt8.ofNat (0x80 + n / 64 % 64), UInt8.ofNat (0x80 + n % 64)]

/-- The bytes of a list of characters. -/
def encode (text : List Char) : List UInt8 :=
  text.flatMap encodeChar

/-- The bytes of a string. -/
def bytes (text : String) : List UInt8 :=
  encode text.toList

/-- The number of bytes of a string. -/
def size (text : String) : Nat :=
  (bytes text).length

/-- A sequence under way: the bits read so far, how many bytes are missing (at least one), and the
range that the next one has to lie in. -/
structure Pending where
  bits : Nat
  missing : Nat
  least : Nat
  greatest : Nat
  deriving DecidableEq, Repr

/-- What is known after a byte: the sequences that ended with it, and the one under way. -/
abbrev Progress := List (Option Char) × Option Pending

/-- Reads a byte that begins a sequence. The leading bytes `E0`, `ED`, `F0` and `F4` narrow the
range of the byte after them, which keeps out overlong forms, surrogates and numbers past the last
character. -/
def begin (b : UInt8) : Progress :=
  let n := b.toNat
  if n < 0x80 then ([some (Char.ofNat n)], none)
  else if n < 0xC2 then ([none], none)
  else if n < 0xE0 then ([], some ⟨n - 0xC0, 1, 0x80, 0xBF⟩)
  else if n < 0xF0 then
    ([], some ⟨n - 0xE0, 2, if n = 0xE0 then 0xA0 else 0x80, if n = 0xED then 0x9F else 0xBF⟩)
  else if n < 0xF5 then
    ([], some ⟨n - 0xF0, 3, if n = 0xF0 then 0x90 else 0x80, if n = 0xF4 then 0x8F else 0xBF⟩)
  else ([none], none)

/-- Reads the next byte. A byte that does not continue the sequence under way breaks it and begins
a sequence itself. -/
def advance (pending : Option Pending) (b : UInt8) : Progress :=
  match pending with
  | none => begin b
  | some p =>
    if p.least ≤ b.toNat ∧ b.toNat ≤ p.greatest then
      let bits := p.bits * 64 + b.toNat % 64
      if p.missing ≤ 1 then ([some (Char.ofNat bits)], none)
      else ([], some ⟨bits, p.missing - 1, 0x80, 0xBF⟩)
    else
      let (done, next) := begin b
      (none :: done, next)

/-- The sequences of a byte string in order, `none` for each broken one, where `pending` is the
sequence under way at its start. A sequence that the string ends in is broken. -/
def scanFrom (pending : Option Pending) : List UInt8 → List (Option Char)
  | [] => if pending.isSome then [none] else []
  | b :: rest => (advance pending b).1 ++ scanFrom (advance pending b).2 rest

/-- The sequences of a byte string in order, `none` for each broken one. -/
def scan (bytes : List UInt8) : List (Option Char) :=
  scanFrom none bytes

/-- The text with the given bytes, if no sequence is broken. -/
def decode? (bytes : List UInt8) : Option (List Char) :=
  (scan bytes).mapM id

/-- What stands for a broken sequence. -/
def replacement : Char := '\uFFFD'

/-- The text with the given bytes, with a replacement character for each broken sequence. -/
def decodeLossy (bytes : List UInt8) : List Char :=
  (scan bytes).map (·.getD replacement)

end CoopKernel.Utf8
