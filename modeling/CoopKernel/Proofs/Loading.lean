import CoopKernel.Proofs.Memory.Data
import CoopKernel.Proofs.Run
import CoopKernel.Proofs.Storage.Shape

/-!
# Loading and saving in a volume

A process whose backing file has room for a state block is loaded and saved without fail: what is loaded
is what the block says, and what is saved is loaded again as it is stored. Neither touches the data
region behind the block.
-/

namespace CoopKernel

namespace Kernel

/-- A turn starts with what was loaded. -/
theorem openTurn_ready {σ : Type} [Storage σ] {k : Kernel σ} {pid : Pid} {t : Turn σ}
    (h : k.openTurn pid .ready = .ok t) :
    ∃ k', k.load pid = (.ok t.self, k') ∧ t.kernel = k'.onTable (·.setStatus pid .active) := by
  unfold openTurn at h
  split at h
  · cases h
  · next self k' hl =>
    cases h
    exact ⟨k', hl, rfl⟩

variable {k : Kernel Volume} {pid : Pid} {p : Process} {content : Bytes}

/-- Loading a process looks at the block in its backing file and changes nothing. -/
theorem load_eq (hp : k.table.process? pid = some p) (hc : k.store.behind? p.backing = some content)
    (hsize : Snapshot.blockSize ≤ content.size) :
    k.load pid = ((Snapshot.ofBlock (content.slice 0 Snapshot.blockSize)).map fun state =>
      { pid, program := p.program, backing := p.backing, backingPath := k.backingPath pid, state }, k) := by
  have hread : Storage.read k.store p.backing 0 Snapshot.blockSize =
      (content.slice 0 Snapshot.blockSize, k.store) := Volume.read_behind hc 0 Snapshot.blockSize
  have hblock : (content.slice 0 Snapshot.blockSize).size = Snapshot.blockSize := by
    rw [Bytes.size_slice, Bytes.room]
    omega
  simp only [load, hp, Snapshot.load, hread, if_pos hblock]
  cases Snapshot.ofBlock (content.slice 0 Snapshot.blockSize) <;> rfl

/-- Loading a process only reads its file. -/
theorem load_store {k' : Kernel Volume} {loaded : Except Fault Loaded} (h : k.load pid = (loaded, k')) :
    k'.store.handles = k.store.handles ∧ k'.store.nodes = k.store.nodes := by
  unfold load at h
  split at h
  · cases h
    exact ⟨rfl, rfl⟩
  · next p _ =>
    have hloaded : (Snapshot.load k.store p.backing).2 =
        (k.store.read p.backing 0 Snapshot.blockSize).2 := by
      unfold Snapshot.load
      dsimp only
      split <;> rfl
    dsimp only at h
    split at h <;> cases h <;>
      (dsimp only; rw [hloaded]; exact ⟨k.store.handles_read _ _ _, k.store.nodes_read _ _ _⟩)

/-- What was loaded was in a file with room for a block. -/
theorem size_of_load {k' : Kernel Volume} {self : Loaded} (hl : k.load pid = (.ok self, k'))
    (hc : k.store.behind? self.backing = some content) : Snapshot.blockSize ≤ content.size := by
  obtain ⟨p, hp, hself⟩ := load_ok hl
  have hbacking : self.backing = p.backing := by rw [hself]
  rw [hbacking] at hc
  have hread : Storage.read k.store p.backing 0 Snapshot.blockSize =
      (content.slice 0 Snapshot.blockSize, k.store) := Volume.read_behind hc 0 Snapshot.blockSize
  have hstate := load_state hl hp
  simp only [Snapshot.load, hread] at hstate
  split at hstate
  · next hblock =>
    rw [Bytes.size_slice, Bytes.room] at hblock
    omega
  · cases hstate

/-- The kernel with a loaded process saved. -/
def saved (k : Kernel Volume) (self : Loaded) : Kernel Volume :=
  { k with store := (k.store.write self.backing 0 self.state.toBlock).2 }

/-- Saving a process puts its block in the place of the old one. -/
theorem saved_behind {self : Loaded} (hc : k.store.behind? self.backing = some content) :
    (k.saved self).store.behind? self.backing = some (content.overwrite 0 self.state.toBlock.toList) :=
  (Volume.write_behind hc 0 self.state.toBlock).2

/-- Saving a process does not touch the data region. -/
theorem saved_data {self : Loaded} (hc : k.store.behind? self.backing = some content) (i : Nat) :
    ((k.saved self).store.behind? self.backing).bind (·[Snapshot.blockSize + i]?) =
      (k.store.behind? self.backing).bind (·[Snapshot.blockSize + i]?) := by
  rw [saved_behind hc, hc, Option.bind_some, Option.bind_some, Bytes.getElem?_overwrite,
    Array.length_toList, Snapshot.size_toBlock, if_neg (by omega)]

theorem save_eq {self : Loaded} (hc : k.store.behind? self.backing = some content)
    (hsize : Snapshot.blockSize ≤ content.size) : k.save self = (true, k.saved self) := by
  have hcount : (Storage.write k.store self.backing 0 self.state.toBlock).1 =
      content.room 0 self.state.toBlock.size := (Volume.write_behind hc 0 self.state.toBlock).1
  refine Prod.ext ?_ rfl
  simp only [save, Snapshot.save, hcount, Bytes.room, Snapshot.size_toBlock]
  exact decide_eq_true (by omega)

/-- A turn that comes to its end is saved. -/
theorem endTurn_of_hasBlock {t : Turn Volume} (h : t.space.HasBlock) :
    endTurn t none = t.kernel.saved t.self := by
  obtain ⟨content, hc, hroom⟩ := h
  have hsave : t.kernel.save t.self = (true, t.kernel.saved t.self) := save_eq hc hroom
  simp only [endTurn, hsave]

/-- A block that was put into a file with room for it is there. -/
theorem slice_overwrite_toBlock (hsize : Snapshot.blockSize ≤ content.size) (s : Snapshot) :
    (content.overwrite 0 s.toBlock.toList).slice 0 Snapshot.blockSize = s.toBlock := by
  have hroom : content.room 0 s.toBlock.size = s.toBlock.size := by
    rw [Bytes.room, Snapshot.size_toBlock]
    omega
  have hslice := Bytes.slice_overwrite content 0 s.toBlock hroom
  rw [Snapshot.size_toBlock] at hslice
  exact hslice

/-- A process in whose file there is the block of a snapshot starts its turn with what is stored of it. -/
theorem openTurn_of_toBlock (hp : k.table.process? pid = some p)
    (hc : k.store.behind? p.backing = some content) (hsize : Snapshot.blockSize ≤ content.size)
    {s : Snapshot} (hblock : content.slice 0 Snapshot.blockSize = s.toBlock)
    (hargs : s.env.argCount.toNat ≤ maxArguments) :
    k.openTurn pid .ready = .ok ⟨k.onTable (·.setStatus pid .active),
      { pid, program := p.program, backing := p.backing, backingPath := k.backingPath pid,
        state := s.stored }⟩ := by
  have hload := load_eq hp hc hsize
  rw [hblock, Snapshot.ofBlock_toBlock hargs] at hload
  unfold openTurn
  rw [hload]
  rfl

/-- A process that was saved starts its next turn with what is stored of it. -/
theorem saved_turn {self : Loaded} (hp : k.table.process? self.pid = some p)
    (hself : self.backing = p.backing) (hc : k.store.behind? self.backing = some content)
    (hsize : Snapshot.blockSize ≤ content.size)
    (hargs : self.state.env.argCount.toNat ≤ maxArguments) :
    (k.saved self).openTurn self.pid .ready = .ok ⟨(k.saved self).onTable (·.setStatus self.pid .active),
      { pid := self.pid, program := p.program, backing := p.backing,
        backingPath := k.backingPath self.pid, state := self.state.stored }⟩ := by
  have hbehind := saved_behind hc
  rw [hself] at hbehind
  have hprocess : (k.saved self).table.process? self.pid = some p := hp
  exact openTurn_of_toBlock hprocess hbehind (by rw [Bytes.size_overwrite]; exact hsize)
    (slice_overwrite_toBlock hsize self.state) hargs

end Kernel

end CoopKernel
