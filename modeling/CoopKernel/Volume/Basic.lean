import CoopKernel.Device.Buffered
import CoopKernel.Storage.Basic
import CoopKernel.Volume.Index

/-!
# Volumes

A volume keeps directories, files and devices in memory. It is an index from paths to nodes together
with the open handles, and with the wires that its devices are made over. The sum of the lengths of
all files can be limited; the limit binds those who create and resize files, and not the host that
puts files there.

This module holds the volume itself and the questions that can be asked of it.
-/

namespace CoopKernel

/-- What is at a path. -/
inductive Node where
  | dir
  | file (content : Bytes)
  | device (device : Device)
  deriving DecidableEq, Repr

namespace Node

/-- The number of bytes that count against the capacity of a volume. -/
def size : Node → Nat
  | file content => content.size
  | _ => 0

/-- The content of a file. -/
def content? : Node → Option Bytes
  | file content => some content
  | _ => none

/-- The node is a directory. -/
def isDir : Node → Bool
  | dir => true
  | _ => false

end Node

/-- A tree of directories, files and devices in memory. -/
structure Volume where
  /-- What is where, in the order of the written forms of the paths. -/
  nodes : List (Path × Node) := [(Path.root, Node.dir)]
  /-- The open handles in ascending order, and what each was opened for. -/
  handles : List (Handle × Path) := []
  /-- The most bytes that all files together may have. -/
  capacity : Option Nat := none
  /-- How many times a file was to be resized. -/
  resizeCalls : Nat := 0
  /-- The buffers of the devices. -/
  wires : Array Wire := #[]

namespace Volume

/-- A volume with nothing but the root directory. -/
def empty : Volume := {}

/-- What is at a path. -/
def node? (v : Volume) (p : Path) : Option Node :=
  Index.find? p v.nodes

/-- The path that a handle was opened for. -/
def pathOf? (v : Volume) (h : Handle) : Option Path :=
  Index.find? h v.handles

/-- What is behind an open handle. -/
def opened? (v : Volume) (h : Handle) : Option Node :=
  (v.pathOf? h).bind v.node?

/-- Something is at the path. -/
def contains (v : Volume) (p : Path) : Bool :=
  (v.node? p).isSome

/-- A directory is at the path. -/
def isDir (v : Volume) (p : Path) : Bool :=
  (v.node? p).any Node.isDir

/-- The content of the file at a path. -/
def content? (v : Volume) (p : Path) : Option Bytes :=
  (v.node? p).bind Node.content?

/-- The length of the file at a path. -/
def length? (v : Volume) (p : Path) : Option Nat :=
  (v.content? p).map Array.size

/-- Reading through the handle would not have to wait. -/
def canRead (v : Volume) (h : Handle) : Bool :=
  match v.opened? h with
  | some (.device d) => d.ready v.wires
  | some _ => true
  | none => false

/-- The place at `q` is directly in the directory at `p`. -/
def isChild (p q : Path) : Bool :=
  q ≠ Path.root && q.parent = p

/-- The places in a directory, in order. -/
def children (v : Volume) (p : Path) : List Path :=
  (v.nodes.map Prod.fst).filter (isChild p)

/-- The `n`-th place in an open directory. -/
def child? (v : Volume) (h : Handle) (n : Nat) : Option Path :=
  match v.pathOf? h with
  | some p => if v.isDir p then (v.children p)[n]? else none
  | none => none

/-- The bytes in all files together. -/
def used (v : Volume) : Nat :=
  v.nodes.foldr (fun entry total => entry.2.size + total) 0

/-- A file of `new` bytes in the place of one of `old` bytes keeps within the capacity. -/
def fits (v : Volume) (old new : Nat) : Bool :=
  match v.capacity with
  | some capacity => v.used - old + new ≤ capacity
  | none => true

/-- The lowest number from 1 on that no handle has. One of the first numbers is free, as many as
there are handles and one more. -/
def freeHandle? (v : Volume) : Option Handle :=
  let free (n : Nat) : Bool := n < 65536 && (v.pathOf? ⟨UInt16.ofNat n⟩).isNone
  ((List.range' 1 (v.handles.length + 1)).find? free).map fun n => ⟨UInt16.ofNat n⟩

end Volume

end CoopKernel
