import CoopKernel.Proofs.Device.Traffic
import CoopKernel.Proofs.Storage.WellFormed

/-!
# A buffered device neither loses nor doubles bytes

A wire is used by its host, by any number of devices over it that somebody has in hand, and by those that were put into
a volume, through the handles that were opened for them. `Usage` lists what each of them can do. Whatever they do one
after the other, the input of the wire conserves what was pushed and the output what was accepted.
-/

namespace CoopKernel

/-! ## Devices -/

namespace Wire

/-- What is kept of the wire with the given number; nothing, if there is no such wire. -/
def keptAt (kept : Wire → List UInt8) (wires : Array Wire) (i : Nat) : List UInt8 :=
  wires[i]?.elim [] kept

/-- The bytes on their way to the devices over a wire. -/
def inputAt : Array Wire → Nat → List UInt8 :=
  keptAt (·.input.content)

/-- The bytes that the devices over a wire wrote. -/
def outputAt : Array Wire → Nat → List UInt8 :=
  keptAt (·.output.content.toList)

variable {kept : Wire → List UInt8} {wires : Array Wire}

theorem keptAt_modify (kept : Wire → List UInt8) (wires : Array Wire) (f : Wire → Wire) (j i : Nat) :
    keptAt kept (wires.modify j f) i = if j = i then keptAt (fun w => kept (f w)) wires i else keptAt kept wires i := by
  unfold keptAt
  rw [Array.getElem?_modify]
  split
  · cases wires[i]? <;> rfl
  · rfl

theorem keptAt_modify_of_same {f : Wire → Wire} (h : ∀ w, kept (f w) = kept w) (j i : Nat) :
    keptAt kept (wires.modify j f) i = keptAt kept wires i := by
  simp [keptAt_modify, h]

theorem keptAt_new (h : kept {} = []) (wires : Array Wire) (i : Nat) :
    keptAt kept (wires.push {}) i = keptAt kept wires i := by
  unfold keptAt
  rw [Array.getElem?_push]
  split
  next hi => simp [hi, h]
  next => rfl

theorem inputAt_push (wires : Array Wire) (bytes : List UInt8) (j i : Nat) :
    inputAt (wires.modify j (·.push bytes)) i =
      inputAt wires i ++ if j = i ∧ i < wires.size then bytes else [] := by
  unfold inputAt
  rw [keptAt_modify]
  by_cases hij : j = i
  · subst hij
    by_cases hj : j < wires.size
    · simp [hj, keptAt, Wire.push, Locked.map]
    · simp [hj, keptAt]
  · simp [hij]

theorem outputAt_clearOutput (wires : Array Wire) (j i : Nat) :
    (if j = i then outputAt wires i else []) ++ outputAt (wires.modify j clearOutput) i = outputAt wires i := by
  unfold outputAt
  rw [keptAt_modify]
  by_cases hij : j = i
  · subst hij
    cases hw : wires[j]? with
    | none => simp [hw, keptAt]
    | some w => simp [hw, keptAt, clearOutput, Locked.map]
  · simp [hij]

/-- The byte that a device takes is the first on its way. -/
theorem inputAt_dropNext {j : Nat} {b : UInt8} (h : wires[j]?.bind next? = some b) (i : Nat) :
    inputAt wires i = (if j = i then [b] else []) ++ inputAt (wires.modify j dropNext) i := by
  unfold inputAt
  rw [keptAt_modify]
  by_cases hij : j = i
  · subst hij
    cases hw : wires[j]? with
    | none => simp [hw] at h
    | some w =>
      rw [hw, Option.bind_some, next?] at h
      split at h
      next => cases h
      next hheld =>
        obtain ⟨rest, hcontent⟩ := List.head?_eq_some_iff.mp h
        simp [keptAt, hw, dropNext, Locked.map, hheld, hcontent]
  · simp [hij]

theorem outputAt_dropNext (wires : Array Wire) (j i : Nat) :
    outputAt (wires.modify j dropNext) i = outputAt wires i := by
  apply keptAt_modify_of_same
  intro w
  unfold dropNext
  split <;> rfl

theorem outputAt_append {j : Nat} (h : wires[j]?.any accepts = true) (b : UInt8) (i : Nat) :
    outputAt (wires.modify j (·.append b)) i = outputAt wires i ++ if j = i then [b] else [] := by
  unfold outputAt
  rw [keptAt_modify]
  by_cases hij : j = i
  · subst hij
    cases hw : wires[j]? with
    | none => simp [hw] at h
    | some w =>
      have hheld : w.output.held = false := by simpa [hw, accepts] using h
      simp [keptAt, hw, append, Locked.map, hheld]
  · simp [hij]

theorem inputAt_append (wires : Array Wire) (b : UInt8) (j i : Nat) :
    inputAt (wires.modify j (·.append b)) i = inputAt wires i := by
  apply keptAt_modify_of_same
  intro w
  unfold append
  split <;> rfl

end Wire

namespace Device

open Wire

theorem inputAt_read (wires : Array Wire) (device : Device) (count i : Nat) :
    inputAt wires i = (if device = buffered i then (device.read wires count).1 else []) ++
      inputAt (device.read wires count).2 i := by
  induction count generalizing wires with
  | zero => cases device <;> simp [read]
  | succ count ih =>
    cases device with
    | null => simp [read]
    | buffered j =>
      rw [read]
      cases hnext : wires[j]?.bind next? with
      | none => simp
      | some b =>
        rw [inputAt_dropNext hnext i, ih (wires.modify j dropNext)]
        by_cases hij : j = i
        · simp [hij]
        · simp [hij]

theorem outputAt_read (wires : Array Wire) (device : Device) (count i : Nat) :
    outputAt (device.read wires count).2 i = outputAt wires i := by
  induction count generalizing wires with
  | zero => cases device <;> rfl
  | succ count ih =>
    cases device with
    | null => rfl
    | buffered j =>
      rw [read]
      cases hnext : wires[j]?.bind next? with
      | none => rfl
      | some b => exact (ih _).trans (outputAt_dropNext wires j i)

theorem outputAt_write (wires : Array Wire) (device : Device) (bytes : List UInt8) (i : Nat) :
    outputAt (device.write wires bytes).2 i =
      outputAt wires i ++ if device = buffered i then bytes.take (device.write wires bytes).1 else [] := by
  induction bytes generalizing wires with
  | nil => simp [write]
  | cons b bytes ih =>
    cases device with
    | null => simp [write]
    | buffered j =>
      rw [write]
      split
      next haccepts =>
        dsimp only
        rw [ih, outputAt_append haccepts]
        by_cases hij : j = i
        · simp [hij]
        · simp [hij]
      next => simp

theorem inputAt_write (wires : Array Wire) (device : Device) (bytes : List UInt8) (i : Nat) :
    inputAt (device.write wires bytes).2 i = inputAt wires i := by
  induction bytes generalizing wires with
  | nil => rfl
  | cons b bytes ih =>
    cases device with
    | null => rfl
    | buffered j =>
      rw [write]
      split
      · exact (ih _).trans (inputAt_append wires b j i)
      · rfl

end Device

/-! ## Volumes -/

namespace Volume

open Wire

theorem wires_mkdirUp (up : List Name) (v : Volume) : (mkdirUp up v).2.wires = v.wires := by
  induction up with
  | nil => rfl
  | cons name up ih =>
    unfold mkdirUp
    dsimp only
    split
    · rfl
    · split <;> exact ih

theorem wires_addFile (v : Volume) (p : Path) (content : Bytes) : (v.addFile p content).2.wires = v.wires := by
  have hmkdir : (v.mkdir p.parent).2.wires = v.wires := wires_mkdirUp _ v
  unfold addFile
  dsimp only
  split
  · rfl
  · split
    · exact hmkdir
    · split <;> exact hmkdir

theorem wires_addDevice (v : Volume) (p : Path) (device : Device) : (v.addDevice p device).2.wires = v.wires := by
  have hmkdir : (v.mkdir p.parent).2.wires = v.wires := wires_mkdirUp _ v
  unfold addDevice
  dsimp only
  split
  · rfl
  · split <;> exact hmkdir

variable {v : Volume} {h : Handle} {d : Device}

theorem read_of_device (hopened : v.opened? h = some (.device d)) (offset count : Nat) :
    v.read h offset count = ((d.read v.wires count).1.toArray, { v with wires := (d.read v.wires count).2 }) := by
  simp only [read, hopened]

theorem read_of_no_device (hopened : ∀ d, v.opened? h ≠ some (.device d)) (offset count : Nat) :
    (v.read h offset count).2 = v := by
  unfold read
  split
  next => rfl
  next d hd => exact absurd hd (hopened d)
  next => rfl
  next => rfl

theorem write_of_device (hopened : v.opened? h = some (.device d)) (offset : Nat) (bytes : Bytes) :
    v.write h offset bytes =
      ((d.write v.wires bytes.toList).1, { v with wires := (d.write v.wires bytes.toList).2 }) := by
  obtain ⟨p, hp, hnode⟩ := Option.bind_eq_some_iff.mp hopened
  simp only [write, hp, hnode]

theorem wires_write_of_no_device (hopened : ∀ d, v.opened? h ≠ some (.device d)) (offset : Nat) (bytes : Bytes) :
    (v.write h offset bytes).2.wires = v.wires := by
  unfold write
  split
  next => rfl
  next p hp =>
    split
    next => rfl
    next d hd => exact absurd (Option.bind_eq_some_iff.mpr ⟨p, hp, hd⟩) (hopened d)
    next => rfl
    next => rfl

theorem inputAt_read (v : Volume) (h : Handle) (offset count i : Nat) :
    inputAt v.wires i =
      (if v.opened? h = some (.device (.buffered i)) then (v.read h offset count).1.toList else []) ++
        inputAt (v.read h offset count).2.wires i := by
  by_cases hdevice : ∃ d, v.opened? h = some (.device d)
  · obtain ⟨d, hopened⟩ := hdevice
    simpa [read_of_device hopened, hopened] using Device.inputAt_read v.wires d count i
  · rw [not_exists] at hdevice
    rw [read_of_no_device hdevice, if_neg (hdevice _), List.nil_append]

theorem outputAt_read (v : Volume) (h : Handle) (offset count i : Nat) :
    outputAt (v.read h offset count).2.wires i = outputAt v.wires i := by
  by_cases hdevice : ∃ d, v.opened? h = some (.device d)
  · obtain ⟨d, hopened⟩ := hdevice
    rw [read_of_device hopened]
    exact Device.outputAt_read v.wires d count i
  · rw [not_exists] at hdevice
    rw [read_of_no_device hdevice]

theorem outputAt_write (v : Volume) (h : Handle) (offset : Nat) (bytes : Bytes) (i : Nat) :
    outputAt (v.write h offset bytes).2.wires i = outputAt v.wires i ++
      if v.opened? h = some (.device (.buffered i)) then bytes.toList.take (v.write h offset bytes).1 else [] := by
  by_cases hdevice : ∃ d, v.opened? h = some (.device d)
  · obtain ⟨d, hopened⟩ := hdevice
    simpa [write_of_device hopened, hopened] using Device.outputAt_write v.wires d bytes.toList i
  · rw [not_exists] at hdevice
    rw [wires_write_of_no_device hdevice, if_neg (hdevice _), List.append_nil]

theorem inputAt_write (v : Volume) (h : Handle) (offset : Nat) (bytes : Bytes) (i : Nat) :
    inputAt (v.write h offset bytes).2.wires i = inputAt v.wires i := by
  by_cases hdevice : ∃ d, v.opened? h = some (.device d)
  · obtain ⟨d, hopened⟩ := hdevice
    rw [write_of_device hopened]
    exact Device.inputAt_write v.wires d bytes.toList i
  · rw [not_exists] at hdevice
    rw [wires_write_of_no_device hdevice]

end Volume

/-! ## Usage -/

/-- What is done with wires, with devices over them, and with a volume that some of the devices are in. The lock of a
buffer may be held by the host itself, which can push and take all the same. -/
inductive Usage where
  /-- The host makes a wire. -/
  | addWire
  /-- The host appends to the input of a wire. -/
  | push (i : Nat) (bytes : List UInt8)
  /-- The host takes the whole output of a wire. -/
  | takeOutput (i : Nat)
  /-- Somebody takes or releases the lock of a buffer. -/
  | hold (i : Nat) (side : Side) (held : Bool)
  /-- Somebody fails while holding the lock of a buffer. -/
  | poison (i : Nat) (side : Side)
  /-- A device over a wire is asked for a byte. -/
  | readByte (i : Nat)
  /-- A device over a wire is given a byte. -/
  | writeByte (i : Nat) (b : UInt8)
  /-- The volume is asked for something that reaches the wires through its devices only. -/
  | ask (request : Volume.Request) (proper : ∀ change, request ≠ .rewire change)

namespace Usage

open Wire

/-- What the volume becomes. -/
def run (v : Volume) : Usage → Volume
  | addWire => v.addWire.2
  | push i bytes => v.modifyWire i (·.push bytes)
  | takeOutput i => v.modifyWire i (·.clearOutput)
  | hold i side held => v.modifyWire i (·.hold side held)
  | poison i side => v.modifyWire i (·.poison side)
  | readByte i => { v with wires := ((Device.buffered i).read v.wires 1).2 }
  | writeByte i b => { v with wires := ((Device.buffered i).write v.wires [b]).2 }
  | ask request _ => request.run v

/-- What is pushed into the input of a wire. -/
def pushed (i : Nat) (v : Volume) : Usage → List UInt8
  | push j bytes => if j = i ∧ i < v.wires.size then bytes else []
  | _ => []

/-- What the devices over a wire return. -/
def returned (i : Nat) (v : Volume) : Usage → List UInt8
  | readByte j => if j = i then ((Device.buffered j).read v.wires 1).1 else []
  | ask (.read h offset count) _ =>
    if v.opened? h = some (.device (.buffered i)) then (v.read h offset count).1.toList else []
  | _ => []

/-- What the devices over a wire accept. -/
def accepted (i : Nat) (v : Volume) : Usage → List UInt8
  | writeByte j b => if j = i then [b].take ((Device.buffered j).write v.wires [b]).1 else []
  | ask (.write h offset bytes) _ =>
    if v.opened? h = some (.device (.buffered i)) then bytes.toList.take (v.write h offset bytes).1 else []
  | _ => []

/-- What is taken from the output of a wire. -/
def taken (i : Nat) (v : Volume) : Usage → List UInt8
  | takeOutput j => if j = i then outputAt v.wires i else []
  | _ => []

/-- Requests other than to read and to write leave the wires alone. -/
theorem wires_ask (v : Volume) {request : Volume.Request} (proper : ∀ change, request ≠ .rewire change)
    (hread : ∀ h offset count, request ≠ .read h offset count)
    (hwrite : ∀ h offset bytes, request ≠ .write h offset bytes) : (request.run v).wires = v.wires := by
  cases request with
  | mkdir path => exact Volume.wires_mkdirUp _ v
  | addFile path content => exact v.wires_addFile _ content
  | addDevice path device => exact v.wires_addDevice _ device
  | setCapacity capacity => rfl
  | rewire change => exact absurd rfl (proper change)
  | openPath path =>
    unfold Volume.Request.run Volume.openPath
    dsimp only
    split
    · split <;> rfl
    · rfl
  | close handle => rfl
  | read handle offset count => exact absurd rfl (hread handle offset count)
  | write handle offset bytes => exact absurd rfl (hwrite handle offset bytes)
  | create path size =>
    unfold Volume.Request.run Volume.create
    dsimp only
    split
    · rfl
    · split
      · split <;> rfl
      · split <;> rfl
      · rfl
      · rfl
  | resize path size =>
    unfold Volume.Request.run Volume.resize
    dsimp only
    split
    · rfl
    · split <;> rfl
  | delete path =>
    unfold Volume.Request.run Volume.delete
    dsimp only
    split
    · rfl
    · split
      · rfl
      · split <;> rfl

theorem input_conserves (i : Nat) : Conserves run (fun v => inputAt v.wires i) (pushed i) (returned i) := by
  intro v usage
  cases usage with
  | addWire => exact (List.append_nil _).trans (keptAt_new rfl v.wires i).symm
  | push j bytes => simp [pushed, returned, run, Volume.modifyWire, inputAt_push]
  | takeOutput j =>
    refine (List.append_nil _).trans (keptAt_modify_of_same ?_ j i).symm
    intro w
    rfl
  | hold j side held | poison j side =>
    refine (List.append_nil _).trans (keptAt_modify_of_same ?_ j i).symm
    intro w
    cases side <;> rfl
  | readByte j =>
    have hread := Device.inputAt_read v.wires (.buffered j) 1 i
    simpa [pushed, returned, run] using hread
  | writeByte j b =>
    have hwrite := Device.inputAt_write v.wires (.buffered j) [b] i
    simp [pushed, returned, run, hwrite]
  | ask request proper =>
    cases request with
    | read h offset count => exact (List.append_nil _).trans (v.inputAt_read h offset count i)
    | write h offset bytes => exact (List.append_nil _).trans (v.inputAt_write h offset bytes i).symm
    | _ => simp [pushed, returned, run, wires_ask v proper]

theorem output_conserves (i : Nat) : Conserves run (fun v => outputAt v.wires i) (accepted i) (taken i) := by
  intro v usage
  cases usage with
  | addWire => exact (List.append_nil _).trans (keptAt_new rfl v.wires i).symm
  | push j bytes =>
    refine (List.append_nil _).trans (keptAt_modify_of_same ?_ j i).symm
    intro w
    rfl
  | takeOutput j => simp [accepted, taken, run, Volume.modifyWire, outputAt_clearOutput]
  | hold j side held | poison j side =>
    refine (List.append_nil _).trans (keptAt_modify_of_same ?_ j i).symm
    intro w
    cases side <;> rfl
  | readByte j =>
    have hread := Device.outputAt_read v.wires (.buffered j) 1 i
    simp [accepted, taken, run, hread]
  | writeByte j b =>
    have hwrite := Device.outputAt_write v.wires (.buffered j) [b] i
    simpa [accepted, taken, run] using hwrite.symm
  | ask request proper =>
    cases request with
    | read h offset count => exact (List.append_nil _).trans (v.outputAt_read h offset count i).symm
    | write h offset bytes => exact (v.outputAt_write h offset bytes i).symm
    | _ => simp [accepted, taken, run, wires_ask v proper]

end Usage

/-! ## Answers -/

namespace Device

open Wire

variable {wires : Array Wire} {i : Nat} {w : Wire}

/-- A device reads something unless there is nothing to read or the input is locked, and it says so before. -/
theorem ready_iff (wires : Array Wire) (i : Nat) {count : Nat} (hcount : 0 < count) :
    (buffered i).ready wires = true ↔ ((buffered i).read wires count).1 ≠ [] := by
  obtain ⟨count, rfl⟩ := Nat.exists_eq_succ_of_ne_zero (Nat.ne_of_gt hcount)
  rw [read, ready]
  cases hw : wires[i]? with
  | none => simp
  | some w =>
    rw [Option.any_some, ready_eq_isSome_next?, Option.bind_some]
    cases w.next? with
    | none => simp
    | some b => simp

theorem read_of_held (hw : wires[i]? = some w) (hheld : w.input.held = true) (count : Nat) :
    (buffered i).read wires count = ([], wires) := by
  cases count with
  | zero => rfl
  | succ count => simp [read, hw, next?, hheld]

theorem write_of_held (hw : wires[i]? = some w) (hheld : w.output.held = true) (bytes : List UInt8) :
    (buffered i).write wires bytes = (0, wires) := by
  cases bytes with
  | nil => rfl
  | cons b bytes => simp [write, hw, accepts, hheld]

theorem write_of_free (hw : wires[i]? = some w) (hfree : w.output.held = false) (bytes : List UInt8) :
    ((buffered i).write wires bytes).1 = bytes.length := by
  induction bytes generalizing wires w with
  | nil => rfl
  | cons b bytes ih =>
    have hnext : (wires.modify i (·.append b))[i]? = some (w.append b) := by
      simp [Array.getElem?_modify, hw]
    have hfree' : (w.append b).output.held = false := by
      simp [append, hfree, Locked.map]
    simp [write, hw, accepts, hfree, ih hnext hfree']

end Device

/-- How the devices over a wire of a volume answer, be they asked by themselves or through handles. -/
structure Wire.Answers (v : Volume) (i : Nat) (w : Wire) : Prop where
  /-- Whether a byte is there does not depend on the device that is asked. -/
  canRead : ∀ h, v.opened? h = some (.device (.buffered i)) → v.canRead h = (Device.buffered i).ready v.wires
  ready_iff_readByte : (Device.buffered i).ready v.wires = true ↔ ∃ b, ((Device.buffered i).read v.wires 1).1 = [b]
  ready_iff_read : ∀ h offset count, v.opened? h = some (.device (.buffered i)) → 0 < count →
    ((Device.buffered i).ready v.wires = true ↔ (v.read h offset count).1 ≠ #[])
  /-- Nothing but a lock that is held keeps a byte away. -/
  ready_iff : (Device.buffered i).ready v.wires = true ↔ w.input.held = false ∧ w.input.content ≠ []
  read_of_held : w.input.held = true → (∀ count, (Device.buffered i).read v.wires count = ([], v.wires)) ∧
    ∀ h offset count, v.opened? h = some (.device (.buffered i)) → v.read h offset count = (#[], v)
  write_of_held : w.output.held = true → (∀ bytes, (Device.buffered i).write v.wires bytes = (0, v.wires)) ∧
    ∀ h offset bytes, v.opened? h = some (.device (.buffered i)) → v.write h offset bytes = (0, v)
  write_of_free : w.output.held = false → (∀ bytes, ((Device.buffered i).write v.wires bytes).1 = bytes.length) ∧
    ∀ h offset bytes, v.opened? h = some (.device (.buffered i)) → (v.write h offset bytes).1 = bytes.size

theorem Wire.answers {v : Volume} {i : Nat} {w : Wire} (hw : v.wires[i]? = some w) : Answers v i w where
  canRead := by
    intro h hopened
    simp only [Volume.canRead, hopened]
  ready_iff_readByte := by
    rw [Device.ready_iff v.wires i Nat.one_pos, Device.read]
    cases v.wires[i]?.bind next? with
    | none => simp
    | some b => simp [Device.read]
  ready_iff_read := by
    intro h offset count hopened hcount
    rw [Device.ready_iff v.wires i hcount, Volume.read_of_device hopened]
    simp
  ready_iff := by
    simp only [Device.ready, hw, Option.any_some, ready_eq_isSome_next?, next?]
    split
    next hheld => simp [hheld]
    next hfree => simp [hfree]
  read_of_held := by
    intro hheld
    refine ⟨Device.read_of_held hw hheld, ?_⟩
    intro h offset count hopened
    rw [Volume.read_of_device hopened, Device.read_of_held hw hheld]
  write_of_held := by
    intro hheld
    refine ⟨Device.write_of_held hw hheld, ?_⟩
    intro h offset bytes hopened
    rw [Volume.write_of_device hopened, Device.write_of_held hw hheld]
  write_of_free := by
    intro hfree
    refine ⟨Device.write_of_free hw hfree, ?_⟩
    intro h offset bytes hopened
    rw [Volume.write_of_device hopened, Device.write_of_free hw hfree, Array.length_toList]

/-- Along any usage, what was in the input of a wire and what was pushed into it is what its devices returned and what
is still there; what was in the output and what the devices accepted is what was taken and what is still there; and the
devices over the wire answer all alike. -/
theorem buffered_devices_lose_nothing (v : Volume) (usages : List Usage) (i : Nat) :
    (Wire.inputAt v.wires i ++ along Usage.run (Usage.pushed i) v usages =
        along Usage.run (Usage.returned i) v usages ++ Wire.inputAt (usages.foldl Usage.run v).wires i) ∧
      (Wire.outputAt v.wires i ++ along Usage.run (Usage.accepted i) v usages =
        along Usage.run (Usage.taken i) v usages ++ Wire.outputAt (usages.foldl Usage.run v).wires i) ∧
      ∀ w, (usages.foldl Usage.run v).wires[i]? = some w → Wire.Answers (usages.foldl Usage.run v) i w := by
  refine ⟨(Usage.input_conserves i).total v usages, (Usage.output_conserves i).total v usages, ?_⟩
  intro w hw
  exact Wire.answers hw

/-- A read that is refused, since somebody holds the lock, leaves the byte to the next one. -/
example : along Usage.run (Usage.returned 0) .empty
    [.addWire, .push 0 [1, 2], .hold 0 .input true, .readByte 0, .hold 0 .input false, .readByte 0] = [1] := by
  decide

end CoopKernel
