/-!
# Signals

The kinds of signals that can be sent to a process.
-/

namespace CoopKernel

/-- A kind of signal. -/
inductive Signal where
  /-- Asked for by a user. -/
  | interrupt
  /-- Defined by the program. -/
  | user1
  /-- Defined by the program. -/
  | user2
  /-- Comes before being killed by another process; a process that handles it survives once. -/
  | suicide
  deriving DecidableEq, Repr

namespace Signal

/-- The number of a signal, which is the place of its handler among the handlers. -/
def index : Signal → Fin 4
  | interrupt => 0
  | user1 => 1
  | user2 => 2
  | suicide => 3

/-- The signal with the given number. -/
def ofNat? : Nat → Option Signal
  | 0 => some interrupt
  | 1 => some user1
  | 2 => some user2
  | 3 => some suicide
  | _ => none

/-- The name of a signal. -/
def name : Signal → String
  | interrupt => "Interrupt"
  | user1 => "User1"
  | user2 => "User2"
  | suicide => "Suicide"

theorem ofNat?_eq_some_iff (n : Nat) (s : Signal) : ofNat? n = some s ↔ n = s.index.val := by
  match n with
  | 0 | 1 | 2 | 3 => cases s <;> decide
  | n + 4 =>
    have h := s.index.isLt
    simp only [ofNat?, reduceCtorEq, false_iff]
    omega

end Signal

end CoopKernel
