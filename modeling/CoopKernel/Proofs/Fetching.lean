import CoopKernel.Proofs.Delivery
import CoopKernel.Proofs.Instr.Codec
import CoopKernel.Proofs.Memory.Program
import CoopKernel.Proofs.Step

/-!
# Fetching instructions

An instruction is fetched byte by byte, through the window from the lower half of memory and from the backing file
from the upper half, and may reach from one into the other or around the end of memory. What is fetched is what the
bytes that stand there decode to.
-/

namespace CoopKernel

namespace AddressSpace

variable {s s' : AddressSpace Volume} {a : UInt16} {b : UInt8} {code : Bytes} {bytes others : List UInt8}

/-! ## What stands in memory -/

/-- The byte at an address, of the program or of the data region. -/
def image? (s : AddressSpace Volume) (a : UInt16) : Option UInt8 :=
  if a < dataStart then s.code?.bind (·[a.toNat]?) else s.dataByte? (a.toNat - dataStart.toNat)

/-- What reading comes to at an address where no byte is. -/
def missing (a : UInt16) : Fault :=
  if a < dataStart then .pastProgram a else .unallocatedRead a

/-- The bytes stand one behind the other from an address on. Addresses wrap around. -/
def Spells (s : AddressSpace Volume) (a : UInt16) (bytes : List UInt8) : Prop :=
  ∀ i b, bytes[i]? = some b → s.image? (a + UInt16.ofNat i) = some b

theorem spells_nil : s.Spells a [] := by
  rintro i b ⟨⟩

theorem spells_cons : s.Spells a (b :: bytes) ↔ s.image? a = some b ∧ s.Spells (a + 1) bytes := by
  have hzero : a + UInt16.ofNat 0 = a := UInt16.add_zero a
  constructor
  · intro h
    refine ⟨hzero ▸ h 0 b rfl, fun i b' hb' => ?_⟩
    rw [← add_ofNat_succ]
    exact h (i + 1) b' hb'
  · rintro ⟨hfirst, hrest⟩ i b' hb'
    cases i with
    | zero =>
      cases hb'
      rw [hzero]
      exact hfirst
    | succ i =>
      rw [add_ofNat_succ]
      exact hrest i b' hb'

instance (s : AddressSpace Volume) (a : UInt16) (bytes : List UInt8) : Decidable (s.Spells a bytes) :=
  decidable_of_iff (∀ i < bytes.length, s.image? (a + UInt16.ofNat i) = bytes[i]?) <| by
    constructor
    · intro h i b hb
      rw [h i (List.getElem?_eq_some_iff.mp hb).1, hb]
    · intro h i hi
      rw [h i _ (List.getElem?_eq_getElem hi), List.getElem?_eq_getElem hi]

/-- Only one text of a length stands at an address. -/
theorem Spells.unique (h : s.Spells a bytes) (h' : s.Spells a others) (hlength : bytes.length = others.length) :
    bytes = others := by
  refine List.ext_getElem hlength fun i hi hi' => ?_
  have hsame := (h i _ (List.getElem?_eq_getElem hi)).symm.trans (h' i _ (List.getElem?_eq_getElem hi'))
  exact Option.some.inj hsame

/-- The bytes are as many as the first of them announces. -/
def SpellsInstr (s : AddressSpace Volume) (a : UInt16) (bytes : List UInt8) : Prop :=
  s.Spells a bytes ∧ bytes.head?.map Instr.lengthFrom = some bytes.length

/-- There is no byte behind some that are fewer than the first of them announces. -/
def StopsBehind (s : AddressSpace Volume) (a : UInt16) (bytes : List UInt8) : Prop :=
  s.Spells a bytes ∧ (bytes.head?.map Instr.lengthFrom).all (bytes.length < ·) ∧
    s.image? (a + UInt16.ofNat bytes.length) = none

/-- All announced bytes are there, or not all. -/
theorem SpellsInstr.not_stopsBehind (h : s.SpellsInstr a bytes) : ¬s.StopsBehind a others := by
  rintro ⟨hothers, hfew, hnone⟩
  obtain ⟨hbytes, hmany⟩ := h
  cases bytes with
  | nil => cases hmany
  | cons first rest =>
    have hlt : others.length < (first :: rest).length := by
      cases others with
      | nil => exact Nat.succ_pos _
      | cons first' rest' =>
        obtain rfl : first' = first :=
          Option.some.inj ((spells_cons.mp hothers).1.symm.trans (spells_cons.mp hbytes).1)
        simp only [List.head?_cons, Option.map_some, Option.all_some, decide_eq_true_eq, Option.some.injEq]
          at hfew hmany
        exact hmany ▸ hfew
    have hthere := hbytes others.length _ (List.getElem?_eq_getElem hlt)
    rw [hnone] at hthere
    cases hthere

theorem SpellsInstr.unique (h : s.SpellsInstr a bytes) (h' : s.SpellsInstr a others) : bytes = others := by
  refine h.1.unique h'.1 ?_
  obtain ⟨hbytes, hmany⟩ := h
  obtain ⟨hothers, hmany'⟩ := h'
  cases bytes with
  | nil => cases hmany
  | cons first rest =>
    cases others with
    | nil => cases hmany'
    | cons first' rest' =>
      obtain rfl : first' = first :=
        Option.some.inj ((spells_cons.mp hothers).1.symm.trans (spells_cons.mp hbytes).1)
      exact Option.some.inj (hmany.symm.trans hmany')

/-- There is only one place where the bytes of an instruction stop. -/
theorem StopsBehind.unique (h : s.StopsBehind a bytes) (h' : s.StopsBehind a others) : bytes = others := by
  refine h.1.unique h'.1 ?_
  have hnot {xs ys : List UInt8} (hx : s.StopsBehind a xs) (hy : s.StopsBehind a ys) : ¬xs.length < ys.length := by
    intro hlt
    have hthere := hy.1 xs.length _ (List.getElem?_eq_getElem hlt)
    rw [hx.2.2] at hthere
    cases hthere
  exact Nat.le_antisymm (Nat.not_lt.mp (hnot h' h)) (Nat.not_lt.mp (hnot h h'))

/-! ## Reading what stands there -/

/-- The program file and the backing file can be read, and the window shows what is in the program file. -/
structure Legible (code : Bytes) (s : AddressSpace Volume) : Prop where
  program : s.code? = some code
  window : s.window.Shows code
  data : (s.store.behind? s.data).isSome

theorem Legible.withWindow (h : s.Legible code) {w : Window} (hw : w.Shows code) :
    { s with window := w }.Legible code :=
  ⟨h.program, hw, h.data⟩

/-- What stands in memory is read. -/
theorem Legible.read (h : s.Legible code) (a : UInt16) : ∃ w : Window, w.Shows code ∧ AddressSpace.read a s =
    match s.image? a with
    | some b => .ok b { s with window := w }
    | none => .error (missing a) { s with window := w } := by
  unfold AddressSpace.read image? missing
  by_cases ha : a < dataStart
  · simp only [if_pos ha, h.program, Option.bind_some]
    exact readProgram_of_shows h.program h.window ha
  · rw [if_neg ha, if_neg ha, if_neg ha, readData_eq h.data]
    refine ⟨s.window, h.window, ?_⟩
    cases s.dataByte? (a.toNat - dataStart.toNat) <;> rfl

/-- Bytes are read up to their number, or up to the first address where there is none. -/
theorem Legible.readBytes (h : s.Legible code) (a : UInt16) (n : Nat) : ∃ (w : Window) (bytes : List UInt8),
    w.Shows code ∧ s.Spells a bytes ∧
      (bytes.length = n ∧ AddressSpace.readBytes a n s = .ok bytes { s with window := w } ∨
        bytes.length < n ∧ s.image? (a + UInt16.ofNat bytes.length) = none ∧
          AddressSpace.readBytes a n s = .error (missing (a + UInt16.ofNat bytes.length)) { s with window := w }) := by
  induction n generalizing a s with
  | zero => exact ⟨s.window, [], h.window, spells_nil, .inl ⟨rfl, rfl⟩⟩
  | succ n ih =>
    have hzero : a + UInt16.ofNat 0 = a := UInt16.add_zero a
    unfold AddressSpace.readBytes
    obtain ⟨w₁, hw₁, hread⟩ := h.read a
    cases hb : s.image? a with
    | none =>
      rw [hb] at hread
      refine ⟨w₁, [], hw₁, spells_nil, .inr ⟨Nat.succ_pos n, ?_, ?_⟩⟩
      · rw [List.length_nil, hzero, hb]
      · rw [List.length_nil, hzero, bind_of_error hread]
    | some b =>
      rw [hb] at hread
      rw [bind_of_ok hread]
      obtain ⟨w, bytes, hw, hspells, hrest⟩ := ih (h.withWindow hw₁) (a + 1)
      refine ⟨w, b :: bytes, hw, spells_cons.mpr ⟨hb, hspells⟩, ?_⟩
      rw [List.length_cons, add_ofNat_succ]
      rcases hrest with ⟨hlength, hok⟩ | ⟨hlength, hnone, hfault⟩
      · rw [bind_of_ok hok]
        exact .inl ⟨congrArg Nat.succ hlength, rfl⟩
      · rw [bind_of_error hfault]
        exact .inr ⟨Nat.succ_lt_succ hlength, hnone, rfl⟩

/-- What is fetched is what the bytes of an instruction decode to, if they are all there. -/
theorem Legible.fetch (h : s.Legible code) (a : UInt16) : ∃ (w : Window) (bytes : List UInt8), w.Shows code ∧
    (s.SpellsInstr a bytes ∧ AddressSpace.fetch a s =
        (match Instr.decode bytes with
        | .ok i => .ok i { s with window := w }
        | .error e => .error (.illegal e) { s with window := w }) ∨
      s.StopsBehind a bytes ∧ AddressSpace.fetch a s =
        .error (missing (a + UInt16.ofNat bytes.length)) { s with window := w }) := by
  have hzero : a + UInt16.ofNat 0 = a := UInt16.add_zero a
  unfold AddressSpace.fetch
  obtain ⟨w₁, hw₁, hread⟩ := h.read a
  cases hfirst : s.image? a with
  | none =>
    rw [hfirst] at hread
    refine ⟨w₁, [], hw₁, .inr ⟨⟨spells_nil, rfl, ?_⟩, ?_⟩⟩
    · rw [List.length_nil, hzero, hfirst]
    · rw [List.length_nil, hzero, bind_of_error hread]
  | some first =>
    rw [hfirst] at hread
    rw [bind_of_ok hread]
    have hpos := Instr.lengthFrom_pos first
    obtain ⟨w, rest, hw, hspells, hrest⟩ :=
      (h.withWindow hw₁).readBytes (a + 1) (Instr.lengthFrom first - 1)
    have hall : s.Spells a (first :: rest) := spells_cons.mpr ⟨hfirst, hspells⟩
    refine ⟨w, first :: rest, hw, ?_⟩
    rcases hrest with ⟨hlength, hok⟩ | ⟨hlength, hnone, hfault⟩
    · refine .inl ⟨⟨hall, ?_⟩, ?_⟩
      · rw [List.head?_cons, Option.map_some, List.length_cons, hlength, Nat.sub_add_cancel hpos]
      · rw [bind_of_ok hok]
        cases Instr.decode (first :: rest) <;> rfl
    · refine .inr ⟨⟨hall, ?_, ?_⟩, ?_⟩
      · rw [List.head?_cons, Option.map_some, Option.all_some, List.length_cons, decide_eq_true_eq]
        omega
      · rw [List.length_cons, add_ofNat_succ]
        exact hnone
      · rw [bind_of_error hfault, List.length_cons, add_ofNat_succ]

/-- An instruction is fetched exactly if its bytes are there and decode to it. -/
theorem Legible.fetch_ok_iff (h : s.Legible code) {i : Instr} : (∃ s', AddressSpace.fetch a s = .ok i s') ↔
    ∃ bytes, s.SpellsInstr a bytes ∧ Instr.decode bytes = .ok i := by
  obtain ⟨w, bytes, -, ⟨hspells, hfetch⟩ | ⟨hstops, hfetch⟩⟩ := h.fetch a <;> rw [hfetch]
  · constructor
    · rintro ⟨s', hok⟩
      cases hd : Instr.decode bytes with
      | ok i' =>
        rw [hd] at hok
        cases hok
        exact ⟨bytes, hspells, hd⟩
      | error e =>
        rw [hd] at hok
        cases hok
    · rintro ⟨others, hothers, hd⟩
      obtain rfl := hspells.unique hothers
      rw [hd]
      exact ⟨_, rfl⟩
  · constructor
    · rintro ⟨s', ⟨⟩⟩
    · rintro ⟨others, hothers, -⟩
      exact absurd hstops hothers.not_stopsBehind

/-- There is a fault exactly if a byte is missing, or all are there and do not decode. -/
theorem Legible.fetch_error_iff (h : s.Legible code) {f : Fault} : (∃ s', AddressSpace.fetch a s = .error f s') ↔
    (∃ bytes, s.StopsBehind a bytes ∧ f = missing (a + UInt16.ofNat bytes.length)) ∨
      ∃ bytes e, s.SpellsInstr a bytes ∧ Instr.decode bytes = .error e ∧ f = .illegal e := by
  obtain ⟨w, bytes, -, ⟨hspells, hfetch⟩ | ⟨hstops, hfetch⟩⟩ := h.fetch a <;> rw [hfetch]
  · constructor
    · rintro ⟨s', hfault⟩
      cases hd : Instr.decode bytes with
      | ok i =>
        rw [hd] at hfault
        cases hfault
      | error e =>
        rw [hd] at hfault
        cases hfault
        exact .inr ⟨bytes, e, hspells, hd, rfl⟩
    · rintro (⟨others, hothers, -⟩ | ⟨others, e, hothers, hd, rfl⟩)
      · exact absurd hothers hspells.not_stopsBehind
      · obtain rfl := hspells.unique hothers
        rw [hd]
        exact ⟨_, rfl⟩
  · constructor
    · rintro ⟨s', ⟨⟩⟩
      exact .inl ⟨bytes, hstops, rfl⟩
    · rintro (⟨others, hothers, rfl⟩ | ⟨others, e, hothers, -⟩)
      · obtain rfl := hstops.unique hothers
        exact ⟨_, rfl⟩
      · exact absurd hstops hothers.not_stopsBehind

/-- As many bytes as are announced are never too few. -/
theorem SpellsInstr.decode_ne_truncated (h : s.SpellsInstr a bytes) : Instr.decode bytes ≠ .error .truncated := by
  intro hd
  cases bytes with
  | nil => cases h.2
  | cons first rest =>
    have hmany : Instr.lengthFrom first = rest.length + 1 := Option.some.inj h.2
    rcases Instr.decode_eq_error_iff.mp hd with ⟨-, hshort⟩ | ⟨he, -⟩ | ⟨he, -⟩
    · omega
    · cases he
    · cases he

/-- A byte that is missing is not an instruction that does not decode. -/
theorem missing_ne_illegal (a : UInt16) (e : DecodeError) : missing a ≠ .illegal e := by
  unfold missing
  split <;> exact Fault.noConfusion

end AddressSpace

/-! ## Fetching and discarding in a turn -/

namespace Turn

/-- The turn behind an instruction of a length that was fetched. -/
def past (t : Turn Volume) (length : Nat) : Turn Volume where
  kernel := t.kernel.onTable (·.addCount t.self.pid)
  self := { t.self with state := t.self.state.setReg Reg.ip (t.self.state.reg Reg.ip + UInt16.ofNat length) }

theorem fetch_eq (t : Turn Volume) : fetch t =
    match AddressSpace.fetch (t.self.state.reg Reg.ip) t.space with
    | .ok instr s => .ok instr ((t.setSpace s).past instr.length)
    | .error f s => .error f (t.setSpace s) := by
  unfold fetch
  rw [get_bind]
  cases hf : AddressSpace.fetch (t.self.state.reg Reg.ip) t.space with
  | error f s =>
    have haccess : access (AddressSpace.fetch (t.self.state.reg Reg.ip)) t = .error f (t.setSpace s) := by
      rw [access, hf]
    exact bind_of_error haccess
  | ok instr s =>
    have haccess : access (AddressSpace.fetch (t.self.state.reg Reg.ip)) t = .ok instr (t.setSpace s) := by
      rw [access, hf]
    rw [bind_of_ok haccess]
    rfl

theorem past_ip (t : Turn Volume) (length : Nat) :
    (t.past length).self.state.reg Reg.ip = t.self.state.reg Reg.ip + UInt16.ofNat length :=
  Snapshot.reg_setReg_self _ _ _

/-- The turn with a skip pending. -/
def skipping (t : Turn Volume) : Turn Volume :=
  { t with self := { t.self with state := { t.self.state with skip := true } } }

/-- The turn with an instruction of a length discarded, which was seen through a window. -/
def discarded (t : Turn Volume) (w : Window) (length : Nat) : Turn Volume :=
  { t with self := { t.self with
      window := w
      state := { t.self.state.setReg Reg.ip (t.self.state.reg Reg.ip + UInt16.ofNat length) with skip := false } } }

theorem discarded_ip (t : Turn Volume) (w : Window) (length : Nat) :
    (t.discarded w length).self.state.reg Reg.ip = t.self.state.reg Reg.ip + UInt16.ofNat length :=
  Snapshot.reg_setReg_self _ _ _

/-- An instruction that is to be skipped is passed over by what its first byte announces. -/
theorem step_skipping {t : Turn Volume} {code : Bytes} (h : t.space.Legible code) {first : UInt8}
    (hfirst : t.space.image? (t.self.state.reg Reg.ip) = some first) :
    ∃ w : Window, w.Shows code ∧ step t.skipping = .ok () (t.discarded w (Instr.lengthFrom first)) := by
  obtain ⟨w, hw, hread⟩ := h.read (t.self.state.reg Reg.ip)
  rw [hfirst] at hread
  refine ⟨w, hw, ?_⟩
  have haccess : access (AddressSpace.read (t.self.state.reg Reg.ip)) t.skipping =
      .ok first { t.skipping with self := { t.skipping.self with window := w } } := by
    rw [access, show t.skipping.space = t.space from rfl, hread]
    rfl
  have hdiscard : discard t.skipping = .ok () (t.discarded w (Instr.lengthFrom first)) := by
    unfold discard
    rw [get_bind]
    exact bind_of_ok haccess
  exact (step_eq t.skipping).trans (lift_ok hdiscard)

end Turn

/-- The window shows what reading left in it, from an empty window on and while the program file was the same. -/
def Window.LeftBy (code : Bytes) (w : Window) : Prop :=
  ∃ (s : AddressSpace Volume) (addresses : List UInt16), s.window.bytes = #[] ∧ s.code? = some code ∧
    w = (ProgramEvent.run (addresses.map .read) s).window

/-- Reading the program keeps the window in agreement with it. -/
theorem ProgramEvent.shows_run_read {s : AddressSpace Volume} {code : Bytes} (hcode : s.code? = some code)
    (hw : s.window.Shows code) (addresses : List UInt16) : (run (addresses.map .read) s).window.Shows code := by
  induction addresses generalizing s with
  | nil => exact hw
  | cons a addresses ih =>
    refine ih ((s.code?_after_read a).trans hcode) ?_
    rcases AddressSpace.window_after_read hcode a with hsame | hshows
    · rw [apply, hsame]
      exact hw
    · exact hshows

theorem Window.LeftBy.shows {code : Bytes} {w : Window} (h : w.LeftBy code) : w.Shows code := by
  obtain ⟨s, addresses, hempty, hcode, rfl⟩ := h
  exact ProgramEvent.shows_run_read hcode (Window.shows_of_empty hempty code) addresses

/-- Fetching agrees with decoding. An instruction is fetched exactly if the bytes that the first of them announces are
all there and decode to it. Otherwise it is the fault of the first address where there is none, or that of an
instruction that does not decode, and never that of one with bytes missing. Only the window moves, and it goes on
showing what is in the program file. Before an instruction is executed, the instruction pointer moves by as much as
it does when the instruction is discarded. -/
theorem fetch_agrees_with_decode {t : Turn Volume} {code : Bytes} (hprogram : t.space.code? = some code)
    (hwindow : t.self.window.LeftBy code) (hdata : (t.kernel.store.behind? t.self.backing).isSome) :
    let s := t.space
    let ip := t.self.state.reg Reg.ip
    (∀ i, (∃ s', AddressSpace.fetch ip s = .ok i s') ↔
      ∃ bytes, s.SpellsInstr ip bytes ∧ Instr.decode bytes = .ok i) ∧
    (∀ f, (∃ s', AddressSpace.fetch ip s = .error f s') ↔
      (∃ bytes, s.StopsBehind ip bytes ∧ f = AddressSpace.missing (ip + UInt16.ofNat bytes.length)) ∨
      ∃ bytes e, s.SpellsInstr ip bytes ∧ Instr.decode bytes = .error e ∧ f = .illegal e) ∧
    (∀ s', AddressSpace.fetch ip s ≠ .error (.illegal .truncated) s') ∧
    (∃ w : Window, w.Shows code ∧ after (AddressSpace.fetch ip) s = { s with window := w }) ∧
    ∀ i s', AddressSpace.fetch ip s = .ok i s' →
      (t.self.state.skip = false → Turn.step t = Turn.execute i ((t.setSpace s').past i.length)) ∧
      ∃ w, Turn.step t.skipping = .ok () (t.discarded w i.length) ∧
        (t.discarded w i.length).self.state.reg Reg.ip = ((t.setSpace s').past i.length).self.state.reg Reg.ip := by
  intro s ip
  have h : s.Legible code := ⟨hprogram, hwindow.shows, hdata⟩
  refine ⟨fun i => h.fetch_ok_iff, fun f => h.fetch_error_iff, ?_, ?_, ?_⟩
  · intro s' hfault
    rcases h.fetch_error_iff.mp ⟨s', hfault⟩ with ⟨bytes, -, he⟩ | ⟨bytes, e, hspells, hd, he⟩
    · exact AddressSpace.missing_ne_illegal _ _ he.symm
    · cases he
      exact hspells.decode_ne_truncated hd
  · obtain ⟨w, bytes, hw, ⟨-, hfetch⟩ | ⟨-, hfetch⟩⟩ := h.fetch ip
    · refine ⟨w, hw, ?_⟩
      rw [after, hfetch]
      cases Instr.decode bytes <;> rfl
    · exact ⟨w, hw, after_error hfetch⟩
  · intro i s' hfetch
    obtain ⟨bytes, hspells, hd⟩ := h.fetch_ok_iff.mp ⟨s', hfetch⟩
    refine ⟨fun hskip => Turn.step_of_fetch hskip ?_, ?_⟩
    · rw [Turn.fetch_eq, hfetch]
    · cases bytes with
      | nil => cases hspells.2
      | cons first rest =>
        obtain ⟨w, -, hstep⟩ := Turn.step_skipping h (AddressSpace.spells_cons.mp hspells.1).1
        rw [← (Instr.reads_of_decode hd).1] at hstep
        exact ⟨w, hstep, (t.discarded_ip w i.length).trans ((t.setSpace s').past_ip i.length).symm⟩

/-- A process whose program sets a register and ends within an instruction. -/
def cutShort : Turn Volume where
  kernel := Kernel.new (((((Volume.empty.addFile (Path.ofText "/a") #[0xD1, 7, 0xD8, 0x12]).2.addFile
    (Path.ofText "/tmp/proc0") (Array.replicate Snapshot.blockSize 0)).2.openPath (Path.ofText "/a")).2.openPath
    (Path.ofText "/tmp/proc0")).2)
  self := { pid := 0, program := ⟨1⟩, backing := ⟨2⟩, backingPath := Path.ofText "/tmp/proc0", state := { env := {} } }

theorem fetch_agrees_with_decode_of_cutShort :
    (∃ s', AddressSpace.fetch 0 cutShort.space = .ok (.setByte 1 7) s') ∧
      ∃ w, Turn.step cutShort.skipping = .ok () (cutShort.discarded w 2) := by
  have hprogram : cutShort.space.code? = some #[0xD1, 7, 0xD8, 0x12] := by decide +kernel
  have hall := fetch_agrees_with_decode hprogram ⟨cutShort.space, [], rfl, hprogram, rfl⟩ (by decide +kernel)
  obtain ⟨s', hfetch⟩ := (hall.1 (.setByte 1 7)).mpr ⟨[0xD1, 7], ⟨by decide +kernel, rfl⟩, rfl⟩
  obtain ⟨w, hstep, -⟩ := (hall.2.2.2.2 _ s' hfetch).2
  exact ⟨⟨s', hfetch⟩, w, hstep⟩

end CoopKernel
