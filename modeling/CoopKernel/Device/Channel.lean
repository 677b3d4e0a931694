/-!
# Channel devices

A channel device stands between a reader and a writer that work on their own. The reader takes bytes
from a source one at a time and hands each over through a slot that holds one byte; it may run ahead
of the device by the byte in its hand. The writer is served through a queue without bound; it takes
a given number of bytes (or any number) and then stops, which loses the byte that it stopped on.

Reader, writer and device take turns in any order. `Move` lists what each can do next, and `move`
does it if it is possible at that moment; a run is a list of moves.
-/

namespace CoopKernel

/-- A channel device with its reader and its writer. -/
structure Channel where
  /-- The bytes that the reader has not taken yet; behind the last one it stops. -/
  source : List UInt8
  /-- A byte that the reader took and has not handed over. -/
  hand : Option UInt8 := none
  /-- A byte that was handed over and not read. -/
  slot : Option UInt8 := none
  /-- The bytes that were read from the device. -/
  readOut : List UInt8 := []
  /-- The bytes that the device accepted. -/
  accepted : List UInt8 := []
  /-- Of those, the ones on their way to the writer. -/
  queue : List UInt8 := []
  /-- Of those, the ones that the writer took. -/
  sink : List UInt8 := []
  /-- How many more bytes the writer takes before it stops; `none` if it never stops. -/
  limit : Option Nat := none
  /-- The writer has stopped. -/
  stopped : Bool := false
  /-- The device is closed. -/
  closed : Bool := false
  deriving DecidableEq, Repr

namespace Channel

/-- What can happen next. -/
inductive Move where
  /-- The reader takes a byte from its source. -/
  | take
  /-- The reader hands its byte over. -/
  | pass
  /-- The device is asked for a byte. -/
  | read
  /-- The device is given a byte. -/
  | write (b : UInt8)
  /-- The writer takes a byte, or stops on it. -/
  | serve
  /-- The device is closed. -/
  | close
  deriving DecidableEq, Repr

/-- A byte is there to be read. -/
def ready (c : Channel) : Bool :=
  !c.closed && c.slot.isSome

/-- The byte that a read would give. -/
def next? (c : Channel) : Option UInt8 :=
  if c.closed then none else c.slot

/-- The device takes bytes to be written. -/
def accepts (c : Channel) : Bool :=
  !c.closed && !c.stopped

/-- What happens; nothing, if the move is not possible. -/
def move (c : Channel) : Move → Channel
  | .take =>
    match c.hand, c.source with
    | none, b :: source => { c with hand := some b, source }
    | _, _ => c
  | .pass =>
    match c.hand, c.slot with
    | some b, none => if c.closed then c else { c with hand := none, slot := some b }
    | _, _ => c
  | .read =>
    match c.next? with
    | some b => { c with slot := none, readOut := c.readOut ++ [b] }
    | none => c
  | .write b =>
    if c.accepts then { c with accepted := c.accepted ++ [b], queue := c.queue ++ [b] } else c
  | .serve =>
    if c.stopped then c
    else match c.queue, c.limit with
      | [], _ => c
      | b :: queue, none => { c with queue, sink := c.sink ++ [b] }
      | b :: queue, some (n + 1) => { c with queue, sink := c.sink ++ [b], limit := some n }
      | _ :: queue, some 0 => { c with queue, stopped := true }
  | .close => { c with closed := true }

/-- What a list of moves leads to. -/
def run (c : Channel) (moves : List Move) : Channel :=
  moves.foldl move c

/-- Moves that read everything a source of the given length holds. -/
def readMoves (length : Nat) : List Move :=
  (List.replicate length [Move.take, .pass, .read]).flatten

/-- Moves that write the bytes, close the device and serve the writer to the end. -/
def writeMoves (bytes : List UInt8) : List Move :=
  bytes.map Move.write ++ .close :: List.replicate bytes.length .serve

end Channel

end CoopKernel
