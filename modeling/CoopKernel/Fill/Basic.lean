import CoopKernel.Fill.Stream

/-!
# Filling fresh memory

Memory that a process never wrote holds what the kernel fills it with when the data region grows:
one value everywhere, or the next bytes of a stream. Programs that depend on such memory show up
under a stream.
-/

namespace CoopKernel

/-- How fresh memory is filled. -/
inductive RamInit where
  /-- With bytes that differ from one kernel to the next. -/
  | unseeded
  /-- With the stream of a seed. -/
  | seeded (seed : UInt64)
  /-- With one value. -/
  | known (value : UInt8)
  deriving DecidableEq, Repr

/-- The source of the bytes that fresh memory is filled with. -/
inductive Filler where
  /-- One value again and again. -/
  | known (value : UInt8)
  /-- A stream of which some bytes have been drawn. -/
  | stream (key : Stream.Key) (drawn : Nat)
  deriving DecidableEq

namespace Filler

/-- The source for a way of filling; `entropy` is the seed where none is given. -/
def ofInit (entropy : UInt64) : RamInit → Filler
  | .unseeded => stream (Stream.key entropy) 0
  | .seeded seed => stream (Stream.key seed) 0
  | .known value => known value

/-- Draws the next bytes. -/
def draw (count : Nat) : Filler → Bytes × Filler
  | known value => (Array.replicate count value, known value)
  | stream key drawn => ((Stream.bytes key drawn count).toArray, stream key (drawn + count))

/-- What grown memory has to be overwritten with: nothing, where it is to be zero, because storage
grows by zeros. -/
def fill (count : Nat) (f : Filler) : Option Bytes × Filler :=
  if f = known 0 then (none, f)
  else
    let (bytes, f) := f.draw count
    (some bytes, f)

end Filler

end CoopKernel
