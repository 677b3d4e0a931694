import CoopKernel.Bytes

/-!
# Seeded byte streams

A stream of bytes that is determined by a 64-bit seed. The seed is stretched to a key of eight words
by a linear congruential generator with a permuted output. The key selects a block function of
twelve ChaCha rounds with a 64-bit block counter; each word of the blocks, in order, gives its low
byte. The `i`-th byte of a stream is thus a function of the key and of `i` alone.
-/

namespace CoopKernel

namespace Stream

/-- What selects a stream. -/
abbrev Key := Vector UInt32 8

/-- The words of a block. -/
abbrev Block := Vector UInt32 16

/-- The next state of the generator that stretches a seed. -/
def nextState (s : UInt64) : UInt64 := s * 6364136223846793005 + 11634580027462260723

/-- The output of the generator in a state. -/
def output (s : UInt64) : UInt32 :=
  let x := (((s >>> 18) ^^^ s) >>> 27).toUInt32
  let turn := (s >>> 59).toUInt32
  (x >>> turn) ||| (x <<< ((32 - turn) % 32))

/-- The key that a seed is stretched to. -/
def key (seed : UInt64) : Key :=
  Vector.ofFn fun i => output (Nat.repeat nextState (i.val + 1) seed)

/-- Rotates to the left. -/
def rotate (x : UInt32) (n : UInt32) : UInt32 := (x <<< n) ||| (x >>> (32 - n))

/-- Mixes four words of a block. -/
def quarterRound (s : Block) (a b c d : Fin 16) : Block :=
  let s := s.set a (s[a] + s[b])
  let s := s.set d (rotate (s[d] ^^^ s[a]) 16)
  let s := s.set c (s[c] + s[d])
  let s := s.set b (rotate (s[b] ^^^ s[c]) 12)
  let s := s.set a (s[a] + s[b])
  let s := s.set d (rotate (s[d] ^^^ s[a]) 8)
  let s := s.set c (s[c] + s[d])
  s.set b (rotate (s[b] ^^^ s[c]) 7)

/-- A round on the columns of the block and one on its diagonals. -/
def doubleRound (s : Block) : Block :=
  let s := quarterRound s 0 4 8 12
  let s := quarterRound s 1 5 9 13
  let s := quarterRound s 2 6 10 14
  let s := quarterRound s 3 7 11 15
  let s := quarterRound s 0 5 10 15
  let s := quarterRound s 1 6 11 12
  let s := quarterRound s 2 7 8 13
  quarterRound s 3 4 9 14

/-- The block that the rounds start from. -/
def start (key : Key) (counter : Nat) : Block :=
  #v[0x61707865, 0x3320646e, 0x79622d32, 0x6b206574,
    key[0], key[1], key[2], key[3], key[4], key[5], key[6], key[7],
    UInt32.ofNat counter, UInt32.ofNat (counter >>> 32), 0, 0]

/-- The block with the given number. -/
def block (key : Key) (counter : Nat) : Block :=
  let first := start key counter
  Vector.zipWith (· + ·) (Nat.repeat doubleRound 6 first) first

/-- The bytes of a block. -/
def blockBytes (key : Key) (counter : Nat) : List UInt8 :=
  (block key counter).toList.map fun word => UInt8.ofNat word.toNat

/-- The bytes of a stream from position `start` on. -/
def bytes (key : Key) (start count : Nat) : List UInt8 :=
  let first := start / 16
  let blocks := (List.range' first ((start + count + 15) / 16 - first)).flatMap (blockBytes key)
  (blocks.drop (start % 16)).take count

end Stream

end CoopKernel
