import CoopKernel.Bytes

/-!
# Buffered devices

A wire is a pair of byte buffers between a host and the devices that were made over it: the host
appends to the input and takes the output, the devices take from the front of the input and append
to the output. Any number of devices can share one wire.

Each buffer has a lock that the host can hold for a while. Devices never wait for it: while it is
held, the input gives nothing and the output accepts nothing. A lock whose holder failed stays
usable; the failure is remembered and has no effect on the bytes.
-/

namespace CoopKernel

/-- Content under a lock. -/
structure Locked (α : Type) where
  content : α
  held : Bool := false
  poisoned : Bool := false
  deriving DecidableEq, Repr

namespace Locked

/-- Changes the content. -/
def map (f : α → α) (l : Locked α) : Locked α :=
  { l with content := f l.content }

end Locked

/-- The buffers between a host and its devices. -/
structure Wire where
  /-- Bytes on their way to the devices, the next one first. -/
  input : Locked (List UInt8) := { content := [] }
  /-- Bytes that the devices wrote, in order. -/
  output : Locked Bytes := { content := #[] }
  deriving DecidableEq, Repr

/-- One of the two buffers of a wire. -/
inductive Side where
  | input | output
  deriving DecidableEq, Repr

namespace Wire

/-! ## What a device does -/

/-- A byte is there and can be taken. -/
def ready (w : Wire) : Bool :=
  !w.input.held && !w.input.content.isEmpty

/-- The byte that a device would take next. -/
def next? (w : Wire) : Option UInt8 :=
  if w.input.held then none else w.input.content.head?

/-- The wire after a device took the next byte, if there was one to take. -/
def dropNext (w : Wire) : Wire :=
  if w.input.held then w else { w with input := w.input.map List.tail }

/-- A device can append to the output. -/
def accepts (w : Wire) : Bool :=
  !w.output.held

/-- The wire after a device wrote a byte, if it could. -/
def append (w : Wire) (b : UInt8) : Wire :=
  if w.output.held then w else { w with output := w.output.map (·.push b) }

/-! ## What the host does -/

/-- Appends to the input. -/
def push (w : Wire) (bytes : List UInt8) : Wire :=
  { w with input := w.input.map (· ++ bytes) }

/-- Empties the output. -/
def clearOutput (w : Wire) : Wire :=
  { w with output := w.output.map fun _ => #[] }

/-- Takes or releases the lock of a buffer. -/
def hold (w : Wire) (side : Side) (held : Bool) : Wire :=
  match side with
  | .input => { w with input := { w.input with held } }
  | .output => { w with output := { w.output with held } }

/-- The lock of the given buffer is held. -/
def isHeld (w : Wire) : Side → Bool
  | .input => w.input.held
  | .output => w.output.held

/-- Fails while holding the lock of a buffer. -/
def poison (w : Wire) (side : Side) : Wire :=
  match side with
  | .input => { w with input := { w.input with poisoned := true } }
  | .output => { w with output := { w.output with poisoned := true } }

@[simp] theorem ready_eq_isSome_next? (w : Wire) : w.ready = w.next?.isSome := by
  unfold ready next?
  cases w.input.held <;> cases w.input.content <;> rfl

end Wire

/-- Something that gives and takes single bytes. -/
inductive Device where
  /-- Never has a byte and swallows what is written. -/
  | null
  /-- A device over the wire with the given number. -/
  | buffered (wire : Nat)
  deriving DecidableEq, Repr

namespace Device

/-- Reading a byte would succeed. -/
def ready (wires : Array Wire) : Device → Bool
  | null => false
  | buffered i => wires[i]?.any Wire.ready

/-- Reads up to `count` bytes, as many as there are without waiting. -/
def read (wires : Array Wire) (device : Device) (count : Nat) : List UInt8 × Array Wire :=
  match device, count with
  | null, _ => ([], wires)
  | buffered _, 0 => ([], wires)
  | buffered i, count + 1 =>
    match wires[i]?.bind Wire.next? with
    | none => ([], wires)
    | some b =>
      let (bytes, wires) := read (wires.modify i Wire.dropNext) (buffered i) count
      (b :: bytes, wires)

/-- Writes bytes up to the first that is refused; the result is how many were accepted. -/
def write (wires : Array Wire) (device : Device) : List UInt8 → Nat × Array Wire
  | [] => (0, wires)
  | b :: bytes =>
    match device with
    | null => (bytes.length + 1, wires)
    | buffered i =>
      if wires[i]?.any Wire.accepts then
        let (count, wires) := write (wires.modify i (·.append b)) (buffered i) bytes
        (count + 1, wires)
      else (0, wires)

end Device

end CoopKernel
