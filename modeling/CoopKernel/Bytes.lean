/-!
# Byte strings and 16-bit words

File contents, memory regions and instruction encodings are all strings of bytes. This module holds
the few operations on them that files need (`slice`, `overwrite`, `resize`), and the big-endian
form of a 16-bit word, which is the form of every word in memory, in an instruction and in a state
block. The byte order is written with division and remainder, so that facts about it are facts of
arithmetic.
-/

namespace CoopKernel

/-- A string of bytes. -/
abbrev Bytes := Array UInt8

namespace Bytes

/-- At most `count` bytes from position `start` on; fewer where the string ends first. -/
def slice (bytes : Bytes) (start count : Nat) : Bytes :=
  bytes.extract start (start + count)

/-- Puts the bytes of `source` at position `start`. The length is kept: what would fall past the
end is dropped. -/
def overwrite (bytes : Bytes) (start : Nat) : List UInt8 → Bytes
  | [] => bytes
  | b :: source => overwrite (bytes.setIfInBounds start b) (start + 1) source

/-- Cuts the string to `size` bytes or extends it to that size with zeros. -/
def resize (bytes : Bytes) (size : Nat) : Bytes :=
  bytes.extract 0 size ++ Array.replicate (size - bytes.size) 0

/-- How many of `count` bytes fit between position `start` and the end. -/
def room (bytes : Bytes) (start count : Nat) : Nat :=
  min count (bytes.size - start)

@[simp] theorem size_overwrite (bytes : Bytes) (start : Nat) (source : List UInt8) :
    (bytes.overwrite start source).size = bytes.size := by
  induction source generalizing bytes start with
  | nil => rfl
  | cons b source ih => simp [overwrite, ih]

@[simp] theorem size_resize (bytes : Bytes) (size : Nat) : (bytes.resize size).size = size := by
  simp only [resize, Array.size_append, Array.size_extract, Array.size_replicate]
  omega

theorem size_slice (bytes : Bytes) (start count : Nat) :
    (bytes.slice start count).size = bytes.room start count := by
  simp only [slice, room, Array.size_extract]
  omega

end Bytes

namespace Word

/-- The more significant byte of a word. -/
def high (word : UInt16) : UInt8 := UInt8.ofNat (word.toNat / 256)

/-- The less significant byte of a word. -/
def low (word : UInt16) : UInt8 := UInt8.ofNat (word.toNat % 256)

/-- The word with the given more and less significant bytes. -/
def ofBytes (high low : UInt8) : UInt16 := UInt16.ofNat (high.toNat * 256 + low.toNat)

/-- The big-endian form of a word. -/
def toBytes (word : UInt16) : List UInt8 := [high word, low word]

/-- The word whose big-endian form stands at position `start` of a byte string; bytes past the end
count as zero. -/
def fromBytes (bytes : Bytes) (start : Nat) : UInt16 :=
  ofBytes (bytes.getD start 0) (bytes.getD (start + 1) 0)

@[simp] theorem ofBytes_high_low (word : UInt16) : ofBytes (high word) (low word) = word := by
  apply UInt16.toNat_inj.1
  have h := word.toNat_lt
  simp only [ofBytes, high, low, UInt16.toNat_ofNat', UInt8.toNat_ofNat']
  omega

@[simp] theorem high_ofBytes (h l : UInt8) : high (ofBytes h l) = h := by
  apply UInt8.toNat_inj.1
  have hh := h.toNat_lt
  have hl := l.toNat_lt
  simp only [ofBytes, high, UInt16.toNat_ofNat', UInt8.toNat_ofNat']
  omega

@[simp] theorem low_ofBytes (h l : UInt8) : low (ofBytes h l) = l := by
  apply UInt8.toNat_inj.1
  have hh := h.toNat_lt
  have hl := l.toNat_lt
  simp only [ofBytes, low, UInt16.toNat_ofNat', UInt8.toNat_ofNat']
  omega

end Word

end CoopKernel
