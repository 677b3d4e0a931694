import CoopKernel.Volume.Basic

/-!
# Changing a volume

The operations that change a volume: those of its host, which puts directories, files and devices
there, and those of the storage interface, through which the kernel works. An operation that can
fail leaves everything as it was when it does.
-/

namespace CoopKernel

namespace Volume

/-- Handles are ordered by their numbers. -/
def handleBefore (a b : Handle) : Bool := a.number < b.number

/-- Puts a node at a path. -/
def put (v : Volume) (p : Path) (node : Node) : Volume :=
  { v with nodes := Index.insert Path.before p node v.nodes }

/-! ## The host -/

/-- Makes a directory and those on the way to it, given by its names from the last to the first. It
fails if something else is in the way. -/
def mkdirUp : List Name → Volume → Bool × Volume
  | [], v => (v.isDir Path.root, v)
  | name :: up, v =>
    let p : Path := ⟨(name :: up).reverse⟩
    match v.node? p with
    | some node => (node.isDir, v)
    | none =>
      let (made, v) := mkdirUp up v
      if made then (true, v.put p .dir) else (false, v)

/-- Makes a directory and those on the way to it. -/
def mkdir (v : Volume) (p : Path) : Bool × Volume :=
  mkdirUp p.names.reverse v

/-- Puts a file at a path, in the place of an existing file if there is one, and makes the
directories on the way to it. -/
def addFile (v : Volume) (p : Path) (content : Bytes) : Bool × Volume :=
  if p = Path.root then (false, v)
  else
    let (made, v) := v.mkdir p.parent
    if !made then (false, v)
    else match v.node? p with
      | some .dir | some (.device _) => (false, v)
      | some (.file _) | none => (true, v.put p (.file content))

/-- Puts a device at a path where nothing is, and makes the directories on the way to it. -/
def addDevice (v : Volume) (p : Path) (device : Device) : Bool × Volume :=
  if p = Path.root || v.contains p then (false, v)
  else
    let (made, v) := v.mkdir p.parent
    if made then (true, v.put p (.device device)) else (false, v)

/-- Makes a new wire for devices; the result is its number. -/
def addWire (v : Volume) : Nat × Volume :=
  (v.wires.size, { v with wires := v.wires.push {} })

/-- Changes the wire with the given number. -/
def modifyWire (v : Volume) (i : Nat) (f : Wire → Wire) : Volume :=
  { v with wires := v.wires.modify i f }

/-- Limits the bytes in all files together, or lifts the limit. -/
def setCapacity (v : Volume) (capacity : Option Nat) : Volume :=
  { v with capacity }

/-! ## The storage interface -/

/-- Opens what is at a path under the lowest free handle. -/
def openPath (v : Volume) (p : Path) : Option Handle × Volume :=
  if v.contains p then
    match v.freeHandle? with
    | some h => (some h, { v with handles := Index.insert handleBefore h p v.handles })
    | none => (none, v)
  else (none, v)

/-- Closes a handle. -/
def close (v : Volume) (h : Handle) : Volume :=
  { v with handles := Index.erase h v.handles }

/-- Reads from a file at a position, or from a device. -/
def read (v : Volume) (h : Handle) (offset count : Nat) : Bytes × Volume :=
  match v.opened? h with
  | some (.file content) => (content.slice offset count, v)
  | some (.device d) =>
    let (bytes, wires) := d.read v.wires count
    (bytes.toArray, { v with wires })
  | some .dir | none => (#[], v)

/-- Writes into the file at a path; the file keeps its length. -/
def overwrite (v : Volume) (p : Path) (offset : Nat) (source : Bytes) : Volume :=
  let change : Node → Node
    | .file content => .file (content.overwrite offset source.toList)
    | node => node
  { v with nodes := Index.adjust p change v.nodes }

/-- Writes into a file at a position, or to a device; the result is how many bytes were written. -/
def write (v : Volume) (h : Handle) (offset : Nat) (source : Bytes) : Nat × Volume :=
  match v.pathOf? h with
  | none => (0, v)
  | some p =>
    match v.node? p with
    | some (.file content) => (content.room offset source.size, v.overwrite p offset source)
    | some (.device d) =>
      let (count, wires) := d.write v.wires source.toList
      (count, { v with wires })
    | some .dir | none => (0, v)

/-- Makes a file of zeros in an existing directory, in the place of an existing file if there is
one. -/
def create (v : Volume) (p : Path) (size : Nat) : Bool × Volume :=
  if !v.isDir p.parent then (false, v)
  else
    let make (old : Nat) : Bool × Volume :=
      if v.fits old size then (true, v.put p (.file (Array.replicate size 0))) else (false, v)
    match v.node? p with
    | some (.file content) => make content.size
    | none => make 0
    | some .dir | some (.device _) => (false, v)

/-- Cuts or extends an existing file. Every call is counted. -/
def resize (v : Volume) (p : Path) (size : Nat) : Bool × Volume :=
  let v := { v with resizeCalls := v.resizeCalls + 1 }
  match v.content? p with
  | none => (false, v)
  | some content =>
    if v.fits content.size size then (true, v.put p (.file (content.resize size))) else (false, v)

/-- The path is that of an open handle. -/
def isOpen (v : Volume) (p : Path) : Bool :=
  v.handles.any fun entry => entry.2 = p

/-- Removes what is at a path, unless it is a directory that is the root or holds something, or has
an open handle: handles are used again, so one must never outlive what it was opened for. -/
def delete (v : Volume) (p : Path) : Bool × Volume :=
  match v.node? p with
  | none => (false, v)
  | some node =>
    if node.isDir && (p = Path.root || !(v.children p).isEmpty) then (false, v)
    else if v.isOpen p then (false, v)
    else (true, { v with nodes := Index.erase p v.nodes })

/-! ## What is where after a change -/

theorem node?_put (v : Volume) (p q : Path) (node : Node) :
    (v.put p node).node? q = if p = q then some node else v.node? q :=
  Index.find?_insert Path.before p node v.nodes q

theorem node?_overwrite_of_ne (v : Volume) {p q : Path} (offset : Nat) (source : Bytes)
    (h : p ≠ q) : (v.overwrite p offset source).node? q = v.node? q := by
  simp only [node?, overwrite, Index.find?_adjust, if_neg h]

theorem content?_overwrite_self (v : Volume) (p : Path) (offset : Nat) (source : Bytes) :
    (v.overwrite p offset source).content? p =
      (v.content? p).map (·.overwrite offset source.toList) := by
  simp only [content?, node?, overwrite, Index.find?_adjust, if_true]
  cases Index.find? p v.nodes with
  | none => rfl
  | some node => cases node <;> rfl

theorem pathOf?_close (v : Volume) (h g : Handle) :
    (v.close h).pathOf? g = if h = g then none else v.pathOf? g :=
  Index.find?_erase h v.handles g

instance : Storage Volume where
  openPath := openPath
  close := close
  read := read
  write := write
  create := create
  resize := resize
  delete := delete
  contains := contains
  isDir := isDir
  length? := length?
  pathOf? := pathOf?
  child? := child?
  canRead := canRead

end Volume

end CoopKernel
