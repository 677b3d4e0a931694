import CoopKernel.Proofs.Abreast
import CoopKernel.Proofs.Commuting.Changes

/-!
# Memory while another file is changed

Accesses of a process to its memory come to changes of its backing file. If the backing file of another
process was changed in the meantime, the accesses have the same results and come to the same changes.
-/

namespace CoopKernel

/-- Where a process has its program and its memory in the volume in which its turn begins, and what fresh
memory is filled with. -/
structure Site where
  volume : Volume
  program : Handle
  backing : Handle
  /-- Where the backing file is. -/
  place : Path
  value : UInt8

namespace Site

open AddressSpace

/-- The process does not depend on what is at the path: its program and its backing file are files that
are elsewhere, and not limited by what others need. -/
structure Clear (r : Site) (q : Path) : Prop where
  unlimited : r.volume.capacity = none
  program : (r.volume.behind? r.program).isSome
  programApart : r.volume.pathOf? r.program ≠ some r.place
  programClear : r.volume.pathOf? r.program ≠ some q
  backing : r.volume.pathOf? r.backing = some r.place
  block : ∃ content, r.volume.content? r.place = some content ∧ Snapshot.blockSize ≤ content.size
  placeClear : r.place ≠ q

/-- Two address spaces of the process, one with the volume as the process changed it, and one in which the
file at a path was changed as well. -/
structure Meanwhile (r : Site) (q : Path) (ds : List BackingChange) (s s' : AddressSpace Volume) : Prop where
  store : ∃ cs, s.store = r.volume.changeAll r.place cs
  other : s' = { s with store := s.store.changeAll q ds }
  program : s.program = r.program
  data : s.data = r.backing
  dataPath : s.dataPath = r.place
  filler : s.filler = .known r.value

variable {r : Site} {q : Path} {ds : List BackingChange} {s s' : AddressSpace Volume}

namespace Meanwhile

variable (hr : r.Clear q) (h : r.Meanwhile q ds s s')

include h

theorem storeRight : s'.store = s.store.changeAll q ds := by
  rw [h.other]

include hr

theorem unlimited : s.store.capacity = none := by
  obtain ⟨cs, hcs⟩ := h.store
  rw [hcs, Volume.capacity_changeAll]
  exact hr.unlimited

/-- The program is the same file with the same bytes in it. -/
theorem code : ∃ content, s.store.behind? r.program = some content ∧
    s'.store.behind? r.program = some content := by
  obtain ⟨cs, hcs⟩ := h.store
  obtain ⟨content, hc⟩ := Option.isSome_iff_exists.mp hr.program
  have hown : s.store.behind? r.program = some content := by
    rw [hcs, Volume.behind?_changeAll_of_ne hr.programApart, hc]
  refine ⟨content, hown, ?_⟩
  have hclear : s.store.pathOf? r.program ≠ some q := by
    rw [hcs, Volume.pathOf?_changeAll]
    exact hr.programClear
  rw [h.storeRight, Volume.behind?_changeAll_of_ne hclear, hown]

/-- The backing file is in its place, with the same bytes in it and with room for a state block. -/
theorem home : s.store.pathOf? r.backing = some r.place ∧ s'.store.pathOf? r.backing = some r.place ∧
    ∃ content, s.store.content? r.place = some content ∧ s'.store.content? r.place = some content ∧
      Snapshot.blockSize ≤ content.size := by
  obtain ⟨cs, hcs⟩ := h.store
  obtain ⟨content, hc, hroom⟩ := hr.block
  obtain ⟨content', hc', hroom'⟩ := Volume.content?_changeAll_self hc hroom cs
  have hpath : s.store.pathOf? r.backing = some r.place := by
    rw [hcs, Volume.pathOf?_changeAll]
    exact hr.backing
  refine ⟨hpath, ?_, content', ?_, ?_, hroom'⟩
  · rw [h.storeRight, Volume.pathOf?_changeAll]
    exact hpath
  · rw [hcs]
    exact hc'
  · rw [h.storeRight, (s.store.changeAll_onlyAt q ds).content? hr.placeClear, hcs]
    exact hc'

/-- The same bytes are read through the handle of the backing file. -/
theorem memory : ∃ content, s.store.behind? r.backing = some content ∧
    s'.store.behind? r.backing = some content ∧ Snapshot.blockSize ≤ content.size := by
  obtain ⟨hpath, hpath', content, hc, hc', hroom⟩ := h.home hr
  refine ⟨content, ?_, ?_, hroom⟩
  · rw [Volume.behind?, hpath, Option.bind_some, hc]
  · rw [Volume.behind?, hpath', Option.bind_some, hc']

/-- Both can be saved. -/
theorem hasBlock : s.HasBlock ∧ s'.HasBlock := by
  obtain ⟨content, hc, hc', hroom⟩ := h.memory hr
  have hdata' : s'.data = r.backing := by rw [h.other, ← h.data]
  exact ⟨⟨content, by rw [h.data, hc], hroom⟩, content, by rw [hdata', hc'], hroom⟩

/-- The process may change its backing file in both. -/
theorem changed (c : BackingChange) : r.Meanwhile q ds { s with store := s.store.change r.place c }
    { s' with store := s'.store.change r.place c } where
  store := by
    obtain ⟨cs, hcs⟩ := h.store
    refine ⟨cs ++ [c], ?_⟩
    show s.store.change r.place c = r.volume.changeAll r.place (cs ++ [c])
    rw [Volume.changeAll, List.foldl_append, hcs]
    rfl
  other := by
    have hcomm := Volume.changeAll_comm hr.placeClear (h.unlimited hr) [c] ds
    rw [h.other]
    show ({ s with store := (s.store.changeAll q ds).changeAll r.place [c] } : AddressSpace Volume) = _
    rw [← hcomm]
    rfl
  program := h.program
  data := h.data
  dataPath := h.dataPath
  filler := h.filler

omit hr in
/-- What is not kept in the volume may change in the same way. -/
theorem setLength (length : UInt16) :
    r.Meanwhile q ds { s with dataLength := length } { s' with dataLength := length } :=
  ⟨h.store, by rw [h.other], h.program, h.data, h.dataPath, h.filler⟩

omit hr in
theorem setWindow (w : Window) : r.Meanwhile q ds { s with window := w } { s' with window := w } :=
  ⟨h.store, by rw [h.other], h.program, h.data, h.dataPath, h.filler⟩

end Meanwhile

/-! ## Accesses -/

theorem readFile_meanwhile {g : Handle}
    (hg : ∀ {s s'}, r.Meanwhile q ds s s' →
      ∃ content, s.store.behind? g = some content ∧ s'.store.behind? g = some content)
    (offset count : Nat) : Lockstep (r.Meanwhile q ds) (readFile g offset count : Access Volume Bytes)
      (readFile g offset count) := by
  intro s s' h
  obtain ⟨content, hc, hc'⟩ := hg h
  rw [readFile_eq hc, readFile_eq hc']
  exact ⟨rfl, h⟩

variable (hr : r.Clear q)

include hr

theorem read_meanwhile (a : UInt16) :
    Lockstep (r.Meanwhile q ds) (AddressSpace.read a : Access Volume UInt8) (AddressSpace.read a) := by
  have hprogram : Lockstep (r.Meanwhile q ds) (readProgram a : Access Volume UInt8) (readProgram a) := by
    unfold readProgram
    refine .get_bind fun s s' h => ?_
    have hwindow : s'.window = s.window := by rw [h.other]
    have hhandle : s'.program = r.program := by rw [h.other, ← h.program]
    rw [hwindow, hhandle, h.program]
    cases s.window.byte? a with
    | some b => exact .pure _
    | none =>
      refine .bind (readFile_meanwhile (fun h => h.code hr) _ _) fun bytes => ?_
      refine .bind (.modify fun u u' hu => hu.setWindow _) fun _ => ?_
      split
      · exact .pure _
      · exact .throw _
  have hdata (i : Nat) :
      Lockstep (r.Meanwhile q ds) (readData a i : Access Volume UInt8) (readData a i) := by
    unfold readData
    refine .get_bind fun s s' h => ?_
    have hlength : s'.dataLength = s.dataLength := by rw [h.other]
    have hhandle : s'.data = r.backing := by rw [h.other, ← h.data]
    rw [hlength, hhandle, h.data]
    split
    · exact .throw_bind _ _ _
    · have hfile {s s' : AddressSpace Volume} (h : r.Meanwhile q ds s s') :
          ∃ content, s.store.behind? r.backing = some content ∧
            s'.store.behind? r.backing = some content := by
        obtain ⟨content, hc, hc', -⟩ := h.memory hr
        exact ⟨content, hc, hc'⟩
      refine .bind (readFile_meanwhile hfile _ _) fun bytes => ?_
      split
      · exact .pure _
      · exact .throw _
  unfold AddressSpace.read
  split
  · exact hprogram
  · exact hdata _

theorem writeFile_meanwhile (offset : Nat) (bytes : Bytes) :
    Lockstep (r.Meanwhile q ds) (writeFile r.backing offset bytes : Access Volume Nat)
      (writeFile r.backing offset bytes) := by
  intro s s' h
  obtain ⟨hpath, hpath', content, hc, hc', -⟩ := h.home hr
  have hwrite {s : AddressSpace Volume} (hpath : s.store.pathOf? r.backing = some r.place)
      (hc : s.store.content? r.place = some content) : writeFile r.backing offset bytes s =
        .ok (content.room offset bytes.size)
          { s with store := s.store.change r.place (.overwrite offset bytes) } := by
    have hstored : Storage.write s.store r.backing offset bytes =
        (content.room offset bytes.size, s.store.overwrite r.place offset bytes) :=
      Volume.write_eq hpath hc offset bytes
    simp only [writeFile, hstored]
    rfl
  rw [hwrite hpath hc, hwrite hpath' hc']
  exact ⟨rfl, h.changed hr _⟩

theorem resizeData_meanwhile (length : Nat) :
    Lockstep (r.Meanwhile q ds) (resizeData length : Access Volume Bool) (resizeData length) := by
  intro s s' h
  obtain ⟨-, -, content, hc, hc', -⟩ := h.home hr
  have hresize {s : AddressSpace Volume} (hpath : s.dataPath = r.place)
      (hunlimited : s.store.capacity = none) (hc : s.store.content? r.place = some content) :
      resizeData length s = .ok true { s with store := s.store.change r.place (.resize length) } := by
    have hstored : (Storage.resize s.store r.place (Snapshot.blockSize + length)).1 = true := by
      show (s.store.resize r.place (Snapshot.blockSize + length)).1 = true
      rw [Volume.resize_unlimited hunlimited, hc]
    simp only [resizeData, hpath, hstored]
    rfl
  have hunlimited' : s'.store.capacity = none := by
    rw [h.storeRight, Volume.capacity_changeAll]
    exact h.unlimited hr
  have hpath' : s'.dataPath = r.place := by rw [h.other, ← h.dataPath]
  rw [hresize h.dataPath (h.unlimited hr) hc, hresize hpath' hunlimited' hc']
  exact ⟨rfl, h.changed hr _⟩

omit hr in
/-- The same bytes are drawn, and as many as wanted can be drawn again. -/
theorem drawFill_meanwhile (count : Nat) :
    Lockstep (r.Meanwhile q ds) (drawFill count : Access Volume (Option Bytes)) (drawFill count) := by
  refine .modifyGet fun s s' h => ?_
  have hfiller : s'.filler = s.filler := by rw [h.other]
  have hknown : (s.filler.fill count).2 = .known r.value := by rw [h.filler, fill_known]
  rw [hfiller]
  refine ⟨rfl, h.store, by rw [h.other], h.program, h.data, h.dataPath, hknown⟩

/-- Whatever the process does to its memory it does in both. -/
theorem meanwhile_abreast : Abreast (r.Meanwhile q ds) r.backing where
  handles h := ⟨h.data, by rw [h.other, ← h.data]⟩
  limit h := by rw [h.other]
  dataLength h := by rw [h.other]
  read := read_meanwhile hr
  writeFile := writeFile_meanwhile hr
  resizeData := resizeData_meanwhile hr
  drawFill := drawFill_meanwhile
  setLength _ := .modify fun _ _ h => h.setLength _

end Site

end CoopKernel
