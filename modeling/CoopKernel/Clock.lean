/-!
# Clocks

Time is counted in whole seconds since the clock was started, in 32 bits. A clock stands still while
the kernel works and is moved by the host in between.
-/

namespace CoopKernel

/-- The seconds since a clock was started. -/
structure Clock where
  seconds : UInt32 := 0
  deriving DecidableEq, Repr

namespace Clock

/-- Moves the clock to the given time. -/
def set (seconds : UInt32) (_ : Clock) : Clock := ⟨seconds⟩

/-- Moves the clock forward; it wraps around. -/
def advance (seconds : UInt32) (c : Clock) : Clock := ⟨c.seconds + seconds⟩

/-- The time in `timeout` seconds, or the last one that can be counted. -/
def after (c : Clock) (timeout : UInt16) : UInt32 :=
  UInt32.ofNat (min (c.seconds.toNat + timeout.toNat) 0xFFFFFFFF)

/-- The time has come. -/
def reached (c : Clock) (deadline : UInt32) : Bool :=
  deadline ≤ c.seconds

end Clock

end CoopKernel
