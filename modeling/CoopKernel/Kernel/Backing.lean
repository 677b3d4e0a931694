import CoopKernel.Kernel.Basic

/-!
# Backing files

Every process has a backing file with its state block and its data region. A process is loaded by
reading the block and saved by writing it. A new backing file is made and filled before its process
gets a slot, and nothing is left of it where that fails.
-/

namespace CoopKernel

namespace Kernel

variable {σ : Type} [Storage σ]

/-- Takes the snapshot of a living process from its backing file. -/
def load (k : Kernel σ) (pid : Pid) : Except Fault Loaded × Kernel σ :=
  match k.table.process? pid with
  | none => (.error .corruptState, k)
  | some p =>
    let backingPath := k.backingPath pid
    let (loaded, store) := Snapshot.load k.store p.backing
    let kernel := { k with store }
    match loaded with
    | .ok state =>
      (.ok { pid, program := p.program, backing := p.backing, backingPath, state }, kernel)
    | .error fault => (.error fault, kernel)

/-- Puts the snapshot of a loaded process back, and tells whether that succeeded. -/
def save (k : Kernel σ) (self : Loaded) : Bool × Kernel σ :=
  let (done, store) := self.state.save k.store self.backing
  (done, { k with store })

/-- The snapshot of a living process, if it can be read. -/
def snapshot? (k : Kernel σ) (pid : Pid) : Option Snapshot × Kernel σ :=
  let (loaded, k) := k.load pid
  (loaded.toOption.map Loaded.state, k)

/-- Makes the backing file for a process to be, and opens it. -/
def makeBacking (k : Kernel σ) (pid : Pid) (state : Snapshot) (data : Bytes) :
    Except SpawnError Handle × Kernel σ :=
  let file := k.backingPath pid
  let (created, store) := Storage.create k.store file (Snapshot.blockSize + data.size)
  if !created then (.error .storage, { k with store })
  else
    match Storage.openPath store file with
    | (none, store) =>
      let (_, store) := Storage.delete store file
      (.error .storage, { k with store })
    | (some handle, store) =>
      let (saved, store) := state.save store handle
      let (written, store) :=
        if saved then
          let (count, store) := Storage.write store handle Snapshot.blockSize data
          (decide (count = data.size), store)
        else (false, store)
      if written then (.ok handle, { k with store })
      else
        let store := Storage.close store handle
        let (_, store) := Storage.delete store file
        (.error .storage, { k with store })

end Kernel

end CoopKernel
