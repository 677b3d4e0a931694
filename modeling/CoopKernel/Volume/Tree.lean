import CoopKernel.Text.Quoted
import CoopKernel.Volume.Basic

/-!
# Looking at a whole volume

The walk through a volume from its root, depth first and in the order of each directory, and the
one-line summary of its paths and handles.
-/

namespace CoopKernel

namespace Volume

/-- What is at a path and below it, where `depth` bounds how far down the walk goes. -/
def walkFrom (v : Volume) : (depth : Nat) → Path → List (Path × Node)
  | 0, _ => []
  | depth + 1, p =>
    match v.node? p with
    | none => []
    | some .dir => (p, .dir) :: (v.children p).flatMap (walkFrom v depth)
    | some node => [(p, node)]

/-- Everything in the volume, depth first. No path is longer than there are places. -/
def walk (v : Volume) : List (Path × Node) :=
  v.walkFrom v.nodes.length Path.root

/-- The items of a list in a summary. -/
def commaSeparated (items : List String) : String :=
  String.intercalate ", " items

/-- The one-line summary of a volume. -/
def summary (v : Volume) : String :=
  let paths := v.nodes.map fun entry => Text.quoted entry.1.text
  let handles := v.handles.map fun entry =>
    Number.decimal entry.1.number.toNat ++ ": " ++ Text.quoted entry.2.text
  "MemFs \x7b paths: [" ++ commaSeparated paths ++ "], handles: \x7b" ++ commaSeparated handles ++
    "\x7d, .. \x7d"

end Volume

end CoopKernel
