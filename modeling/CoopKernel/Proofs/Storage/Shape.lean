import CoopKernel.Proofs.Memory.Region
import CoopKernel.Proofs.Storage.WellFormed

/-!
# The shape of a volume

The shape of a volume is what is where, apart from what is in the files: which paths there are, what kind of
thing is at each, and how long the files are. Reading, writing, opening and closing leave the shape as it
is; the other calls change it at one path at most.
-/

namespace CoopKernel

namespace Volume

/-- What kind of thing is at a path, and how long it is. -/
def shape? (v : Volume) (p : Path) : Option (Node.Kind × Nat) :=
  (v.node? p).map fun node => (node.kind, node.size)

variable {v w : Volume} {p : Path}

theorem shape?_eq_none : v.shape? p = none ↔ v.node? p = none :=
  Option.map_eq_none_iff

theorem length?_eq_shape? (v : Volume) (p : Path) :
    v.length? p = (v.shape? p).bind fun (kind, size) => if kind = .file then some size else none := by
  unfold length? content? shape?
  cases v.node? p with
  | none => rfl
  | some node => cases node <;> rfl

theorem length?_congr (h : w.shape? p = v.shape? p) : w.length? p = v.length? p := by
  rw [length?_eq_shape?, length?_eq_shape?, h]

theorem shape?_of_nodes (h : w.nodes = v.nodes) (p : Path) : w.shape? p = v.shape? p := by
  rw [shape?, shape?, node?, node?, h]

theorem OnlyAt.shape? {x : Path} (h : OnlyAt x v w) (hp : p ≠ x) : w.shape? p = v.shape? p := by
  rw [Volume.shape?, Volume.shape?, h.nodes p hp]

theorem handles_read (v : Volume) (h : Handle) (offset count : Nat) :
    (v.read h offset count).2.handles = v.handles := by
  unfold read
  split <;> rfl

theorem nodes_read (v : Volume) (h : Handle) (offset count : Nat) :
    (v.read h offset count).2.nodes = v.nodes := by
  unfold read
  split <;> rfl

theorem shape?_read (v : Volume) (h : Handle) (offset count : Nat) (p : Path) :
    (v.read h offset count).2.shape? p = v.shape? p :=
  shape?_of_nodes (v.nodes_read h offset count) p

theorem shape?_overwrite (v : Volume) (q : Path) (offset : Nat) (bytes : Bytes) (p : Path) :
    (v.overwrite q offset bytes).shape? p = v.shape? p := by
  simp only [shape?, node?, overwrite, Index.find?_adjust]
  split
  · cases Index.find? p v.nodes with
    | none => rfl
    | some node =>
      cases node with
      | file content => simp [Node.kind, Node.size]
      | dir | device d => rfl
  · rfl

/-- A file that is written to keeps its length. -/
theorem shape?_write (v : Volume) (h : Handle) (offset : Nat) (bytes : Bytes) (p : Path) :
    (v.write h offset bytes).2.shape? p = v.shape? p := by
  unfold write
  split
  · rfl
  · split
    · exact shape?_overwrite v _ offset bytes p
    · rfl
    · rfl
    · rfl

theorem handles_write (v : Volume) (h : Handle) (offset : Nat) (bytes : Bytes) :
    (v.write h offset bytes).2.handles = v.handles := by
  unfold Volume.write
  split
  · rfl
  · split <;> rfl

theorem shape?_openPath (v : Volume) (q p : Path) : (v.openPath q).2.shape? p = v.shape? p := by
  rcases v.openPath_cases q with ho | ⟨h, _, _, ho⟩
  · rw [ho]
  · rw [ho]
    rfl

theorem shape?_close (v : Volume) (h : Handle) (p : Path) : (v.close h).shape? p = v.shape? p :=
  rfl

end Volume

end CoopKernel
