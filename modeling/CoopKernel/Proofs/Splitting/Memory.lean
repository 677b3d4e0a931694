import CoopKernel.Proofs.Abreast
import CoopKernel.Proofs.Memory.Program
import CoopKernel.Proofs.Splitting.Alike

/-!
# Accesses to two memories that are alike

The two memories of a process that was saved and loaded again and of one that was not differ in the
state block and in the window on the program. Neither shows: the block is not in the data region, and a
window shows what is in the program file, which the process cannot change by accesses to its memory.
-/

namespace CoopKernel

/-- A process that runs, with what stays the same while it runs. -/
structure Runner where
  pid : Pid
  /-- What the table knows about it, but for the counter. -/
  process : Process
  /-- The path by which the backing file is resized. -/
  backingPath : Path
  /-- Where the backing file is. -/
  place : Path
  /-- What is in the program file. -/
  code : Bytes
  env : Environment

namespace Runner

open AddressSpace

variable {r : Runner} {s s' : AddressSpace Volume}

/-- The address space is that of the process. The program is in another file than the memory. -/
structure Owns (r : Runner) (s : AddressSpace Volume) : Prop where
  program : s.program = r.process.program
  data : s.data = r.process.backing
  dataPath : s.dataPath = r.backingPath
  place : s.store.pathOf? r.process.backing = some r.place
  code : s.store.behind? r.process.program = some r.code
  apart : s.store.pathOf? r.process.program ≠ some r.place
  apartPath : s.store.pathOf? r.process.program ≠ some r.backingPath
  window : s.window.Shows r.code

/-- Two address spaces of the process that are alike but for the state block and for what they show of
the program. -/
structure Twins (r : Runner) (s s' : AddressSpace Volume) : Prop where
  owns : r.Owns s
  rest : s' = { s with store := s'.store, window := s'.window }
  store : Volume.Alike r.place s.store s'.store
  window : s'.window.Shows r.code

namespace Twins

theorem owns_right (h : r.Twins s s') : r.Owns s' := by
  have hpaths := h.store.pathOf?
  rw [h.rest]
  exact ⟨h.owns.program, h.owns.data, h.owns.dataPath, (hpaths _).trans h.owns.place,
    (h.store.behind?_of_ne h.owns.apart).trans h.owns.code,
    fun he => h.owns.apart ((hpaths _).symm.trans he),
    fun he => h.owns.apartPath ((hpaths _).symm.trans he), h.window⟩

theorem dataLength (h : r.Twins s s') : s'.dataLength = s.dataLength := by
  rw [h.rest]

theorem limit (h : r.Twins s s') : s'.limit = s.limit := by
  rw [h.rest]

theorem filler (h : r.Twins s s') : s'.filler = s.filler := by
  rw [h.rest]

/-- Both may look at other parts of the program. -/
theorem windows (h : r.Twins s s') {w w' : Window} (hw : w.Shows r.code) (hw' : w'.Shows r.code) :
    r.Twins { s with window := w } { s' with window := w' } where
  owns := { h.owns with window := hw }
  rest := by rw [h.rest]
  store := h.store
  window := hw'

/-- Both volumes may change in a way that leaves them alike, and the handles and the program alone. -/
theorem stores (h : r.Twins s s') {v v' : Volume} (hv : Volume.Alike r.place v v')
    (hpaths : ∀ g, v.pathOf? g = s.store.pathOf? g)
    (hcode : v.behind? r.process.program = s.store.behind? r.process.program) :
    r.Twins { s with store := v } { s' with store := v' } where
  owns := { h.owns with
    place := (hpaths _).trans h.owns.place
    code := hcode.trans h.owns.code
    apart := fun he => h.owns.apart ((hpaths _).symm.trans he)
    apartPath := fun he => h.owns.apartPath ((hpaths _).symm.trans he) }
  rest := by rw [h.rest]
  store := hv
  window := h.window

/-- Both data regions hold the same. -/
theorem dataByte? (h : r.Twins s s') (i : Nat) : s'.dataByte? i = s.dataByte? i := by
  obtain ⟨c, d, hc, hd, hcd⟩ := h.store.behind? h.owns.place
  unfold AddressSpace.dataByte?
  rw [h.dataLength, h.owns_right.data, h.owns.data, hc, hd, Option.bind_some, Option.bind_some,
    hcd.rest _ (Nat.le_add_right _ _)]

end Twins

/-! ## Reading -/

theorem Owns.code? (h : r.Owns s) : s.code? = some r.code := by
  rw [AddressSpace.code?, h.program]
  exact h.code

theorem readProgram_twins {a : UInt16} (ha : a < dataStart) :
    Lockstep r.Twins (readProgram a : Access Volume UInt8) (readProgram a) := by
  intro s s' h
  obtain ⟨w, hw, hs⟩ := readProgram_of_shows h.owns.code? h.owns.window ha
  obtain ⟨w', hw', hs'⟩ := readProgram_of_shows h.owns_right.code? h.owns_right.window ha
  rw [hs, hs']
  cases r.code[a.toNat]? with
  | none => exact ⟨rfl, h.windows hw hw'⟩
  | some b => exact ⟨rfl, h.windows hw hw'⟩

theorem readData_twins (a : UInt16) (i : Nat) :
    Lockstep r.Twins (readData a i : Access Volume UInt8) (readData a i) := by
  intro s s' h
  obtain ⟨c, d, hc, hd, _⟩ := h.store.behind? h.owns.place
  rw [readData_eq (by rw [h.owns.data, hc]; rfl), readData_eq (by rw [h.owns_right.data, hd]; rfl),
    h.dataByte?]
  cases s.dataByte? i <;> exact ⟨rfl, h⟩

theorem read_twins (a : UInt16) : Lockstep r.Twins (AddressSpace.read a : Access Volume UInt8)
    (AddressSpace.read a) := by
  unfold AddressSpace.read
  split
  · next ha => exact readProgram_twins ha
  · exact readData_twins a _

/-! ## Writing -/

/-- Writing to the data region. -/
theorem writeFile_twins (offset : Nat) (bytes : Bytes) :
    Lockstep r.Twins (writeFile r.process.backing offset bytes : Access Volume Nat)
      (writeFile r.process.backing offset bytes) := by
  intro s s' h
  obtain ⟨hcount, hstore⟩ := h.store.write h.owns.place offset bytes
  refine ⟨hcount, h.stores hstore ?_ ?_⟩
  · intro g
    exact (s.store.steady_write r.process.backing offset bytes).paths g
  · exact s.store.behind?_write_of_ne offset bytes fun he => h.owns.apart (he ▸ h.owns.place)

theorem resizeData_twins (length : Nat) :
    Lockstep r.Twins (resizeData length : Access Volume Bool) (resizeData length) := by
  intro s s' h
  have hat {s : AddressSpace Volume} (hpath : s.dataPath = r.backingPath) :
      resizeData length s = .ok (s.store.resize r.backingPath (Snapshot.blockSize + length)).1
        { s with store := (s.store.resize r.backingPath (Snapshot.blockSize + length)).2 } := by
    rw [← hpath]
    rfl
  obtain ⟨hdone, hstore⟩ := h.store.resize r.backingPath (Nat.le_add_right Snapshot.blockSize length)
  rw [hat h.owns.dataPath, hat h.owns_right.dataPath]
  refine ⟨hdone, h.stores hstore (s.store.steady_resize _ _).paths ?_⟩
  rcases s.store.behind?_resize r.backingPath (Snapshot.blockSize + length) r.process.program with
    hsame | ⟨_, hprogram, _⟩
  · exact hsame
  · exact absurd hprogram h.owns.apartPath

theorem drawFill_twins (count : Nat) :
    Lockstep r.Twins (drawFill count : Access Volume (Option Bytes)) (drawFill count) := by
  refine .modifyGet fun s s' h => ?_
  rw [h.filler]
  exact ⟨rfl, { h.owns with }, by rw [h.rest], h.store, h.window⟩

theorem setLength_twins (length : UInt16) :
    Lockstep r.Twins (modify fun s => { s with dataLength := length } : Access Volume PUnit)
      (modify fun s => { s with dataLength := length }) :=
  .modify fun _ _ h => ⟨{ h.owns with }, by rw [h.rest], h.store, h.window⟩

theorem twins_abreast : Abreast r.Twins r.process.backing where
  handles h := ⟨h.owns.data, h.owns_right.data⟩
  limit h := h.limit
  dataLength h := h.dataLength
  read := read_twins
  writeFile := writeFile_twins
  resizeData := resizeData_twins
  drawFill := drawFill_twins
  setLength := setLength_twins

end Runner

end CoopKernel
