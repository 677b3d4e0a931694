import CoopKernel.Proofs.Custody.Neighbours
import CoopKernel.Proofs.Memory.Program
import CoopKernel.Proofs.Splitting.Alike

/-!
# Transfers between memory and files

Reading from a file into memory and writing from memory to a file go byte by byte, and each byte may fault, move the
window or make the data region grow. If the file is not one that the process runs from or has its memory in, none of
this interferes with the file, and a transfer comes to the same as moving all bytes at once.
-/

namespace CoopKernel

namespace Bytes

/-- A part that begins within a byte string begins with the byte that stands there. -/
theorem toList_slice_succ {content : Bytes} {offset : Nat} (h : offset < content.size) (n : Nat) :
    (content.slice offset (n + 1)).toList = content[offset] :: (content.slice (offset + 1) n).toList := by
  refine List.ext_getElem? fun i => ?_
  cases i with
  | zero =>
    rw [Array.getElem?_toList, getElem?_slice, if_pos (Nat.succ_pos n), List.getElem?_cons_zero, Nat.add_zero,
      Array.getElem?_eq_getElem h]
  | succ i =>
    rw [Array.getElem?_toList, getElem?_slice, List.getElem?_cons_succ, Array.getElem?_toList, getElem?_slice]
    simp only [Nat.add_lt_add_iff_right, Nat.add_assoc, Nat.add_comm 1 i]

theorem slice_of_le {content : Bytes} {offset : Nat} (h : content.size ≤ offset) (n : Nat) :
    content.slice offset n = #[] := by
  refine Array.eq_empty_of_size_eq_zero ?_
  rw [size_slice, room, Nat.sub_eq_zero_of_le h, Nat.min_zero]

/-- What was put into a byte string is read back, as far as there was room for it. -/
theorem slice_overwrite_take (content : Bytes) (offset : Nat) (bytes : List UInt8) :
    ((content.overwrite offset (bytes.take (content.room offset bytes.length))).slice offset bytes.length).toList =
      bytes.take (content.room offset bytes.length) := by
  refine List.ext_getElem? fun i => ?_
  rw [Array.getElem?_toList, getElem?_slice, getElem?_overwrite, List.length_take, Nat.add_sub_cancel_left]
  unfold room
  by_cases hi : i < min bytes.length (content.size - offset)
  · rw [if_pos (by omega), if_pos (by omega)]
  · rw [List.getElem?_eq_none (by rw [List.length_take]; omega)]
    split
    · rw [if_neg (by omega), Array.getElem?_eq_none (by omega)]
    · rfl

end Bytes

namespace AddressSpace

variable {s s' s₁ : AddressSpace Volume} {handle : Handle} {content : Bytes} {a : UInt16} {b : UInt8}
  {bytes : List UInt8} {v : Volume}

/-- The process has its program and its memory in files, and the file behind the handle is another one. -/
structure Outside (handle : Handle) (content : Bytes) (s : AddressSpace Volume) : Prop where
  content : s.store.behind? handle = some content
  program : s.code?.isSome
  data : (s.store.behind? s.data).isSome
  notProgram : s.store.pathOf? handle ≠ s.store.pathOf? s.program
  notData : s.store.pathOf? handle ≠ s.store.pathOf? s.data
  notGrown : s.store.pathOf? handle ≠ some s.dataPath

/-! ## From memory to a file -/

/-- What is read does not depend on other files than those of the process. -/
theorem read_of_files (hprogram : s.code?.isSome) (hdata : (s.store.behind? s.data).isSome)
    (hsame : v.behind? s.program = s.code?) (hsame' : v.behind? s.data = s.store.behind? s.data)
    (h : AddressSpace.read a s = .ok b s₁) : ∃ w, s₁ = { s with window := w } ∧
      AddressSpace.read a { s with store := v } = .ok b { s with store := v, window := w } := by
  unfold AddressSpace.read at h ⊢
  by_cases ha : a < dataStart
  · obtain ⟨code, hcode⟩ := Option.isSome_iff_exists.mp hprogram
    have hcode' : code? { s with store := v } = some code := hsame.trans hcode
    rw [if_pos ha, readProgram_eq hcode ha] at h
    rw [if_pos ha, readProgram_eq hcode' ha]
    cases hw : s.window.byte? a with
    | some b' =>
      rw [hw] at h
      cases h
      exact ⟨s.window, rfl, rfl⟩
    | none =>
      rw [hw] at h
      dsimp only at h ⊢
      cases hb : code[a.toNat]? with
      | none =>
        rw [hb] at h
        cases h
      | some b' =>
        rw [hb] at h
        cases h
        exact ⟨_, rfl, rfl⟩
  · have hbyte : dataByte? { s with store := v } (a.toNat - dataStart.toNat) =
        s.dataByte? (a.toNat - dataStart.toNat) := by
      simp only [dataByte?, hsame']
    rw [if_neg ha, readData_eq hdata] at h
    rw [if_neg ha, readData_eq (hsame'.symm ▸ hdata), hbyte]
    cases hb : s.dataByte? (a.toNat - dataStart.toNat) with
    | none =>
      rw [hb] at h
      cases h
    | some b' =>
      rw [hb] at h
      cases h
      exact ⟨s.window, rfl, rfl⟩

theorem readBytes_of_files (hprogram : s.code?.isSome) (hdata : (s.store.behind? s.data).isSome)
    (hsame : v.behind? s.program = s.code?) (hsame' : v.behind? s.data = s.store.behind? s.data) {n : Nat}
    (h : AddressSpace.readBytes a n s = .ok bytes s₁) :
    ∃ s₂, AddressSpace.readBytes a n { s with store := v } = .ok bytes s₂ := by
  induction n generalizing s a bytes with
  | zero =>
    cases h
    exact ⟨_, rfl⟩
  | succ n ih =>
    unfold AddressSpace.readBytes at h ⊢
    cases hr : AddressSpace.read a s with
    | error f s' =>
      rw [bind_of_error hr] at h
      cases h
    | ok b s' =>
      rw [bind_of_ok hr] at h
      obtain ⟨rest, hrest, rfl⟩ := bind_pure_ok.mp h
      obtain ⟨w, rfl, hread⟩ := read_of_files hprogram hdata hsame hsame' hr
      obtain ⟨s₂, hrest'⟩ := ih (s := { s with window := w }) hprogram hdata hsame hsame' hrest
      rw [bind_of_ok hread]
      exact ⟨s₂, bind_pure_ok.mpr ⟨rest, hrest', rfl⟩⟩

theorem length_of_readBytes {n : Nat} (h : AddressSpace.readBytes a n s = .ok bytes s₁) : bytes.length = n := by
  induction n generalizing s a bytes with
  | zero =>
    cases h
    rfl
  | succ n ih =>
    unfold AddressSpace.readBytes at h
    cases hr : AddressSpace.read a s with
    | error f s' =>
      rw [bind_of_error hr] at h
      cases h
    | ok b s' =>
      rw [bind_of_ok hr] at h
      obtain ⟨rest, hrest, rfl⟩ := bind_pure_ok.mp h
      exact congrArg Nat.succ (ih hrest)

namespace Outside

/-- It stays another file when it is written to. -/
theorem write (h : s.Outside handle content) (offset : Nat) (bytes : Bytes) :
    Outside handle (content.overwrite offset bytes.toList)
      { s with store := (s.store.write handle offset bytes).2 } := by
  have hpaths := (s.store.steady_write handle offset bytes).paths
  have hprogram := s.store.behind?_write_of_ne offset bytes h.notProgram
  have hdata := s.store.behind?_write_of_ne offset bytes h.notData
  refine ⟨(Volume.write_behind h.content offset bytes).2, ?_, ?_, ?_, ?_, ?_⟩
  · exact (congrArg Option.isSome hprogram).trans h.program
  · exact (congrArg Option.isSome hdata).trans h.data
  · rw [hpaths, hpaths]
    exact h.notProgram
  · rw [hpaths, hpaths]
    exact h.notData
  · rw [hpaths]
    exact h.notGrown

theorem window (h : s.Outside handle content) (w : Window) : Outside handle content { s with window := w } :=
  ⟨h.content, h.program, h.data, h.notProgram, h.notData, h.notGrown⟩

end Outside

/-- Memory is written to a file as far as there is room for it. -/
theorem send_eq (ho : s.Outside handle content) (offset : Nat) {n : Nat}
    (h : AddressSpace.readBytes a n s = .ok bytes s₁) :
    ∃ v w, send handle offset a n s = .ok (content.room offset n) { s with store := v, window := w } ∧
      (∀ p, s.store.pathOf? handle = some p → s.store.OnlyAt p v) ∧
      Outside handle (content.overwrite offset (bytes.take (content.room offset n)))
        { s with store := v, window := w } := by
  induction n generalizing s s₁ a offset content bytes with
  | zero =>
    have hroom : content.room offset 0 = 0 := Nat.zero_min _
    rw [hroom, List.take_zero]
    exact ⟨s.store, s.window, rfl, fun p _ => refl_of _ _, ho⟩
  | succ n ih =>
    unfold AddressSpace.readBytes at h
    cases hr : AddressSpace.read a s with
    | error f s' =>
      rw [bind_of_error hr] at h
      cases h
    | ok b s' =>
      rw [bind_of_ok hr] at h
      obtain ⟨rest, hrest, rfl⟩ := bind_pure_ok.mp h
      obtain ⟨w, rfl, -⟩ := read_of_files ho.program ho.data rfl rfl hr
      have hwrite : writeFile handle offset #[b] { s with window := w } = .ok (content.room offset 1)
          { s with store := (s.store.write handle offset #[b]).2, window := w } := by
        have hroom : (s.store.write handle offset #[b]).1 = content.room offset 1 :=
          (Volume.write_behind ho.content offset #[b]).1
        rw [← hroom]
        rfl
      have ho₁ := (ho.window w).write offset #[b]
      have honly : ∀ p, s.store.pathOf? handle = some p → s.store.OnlyAt p (s.store.write handle offset #[b]).2 :=
        fun p hp => Volume.write_onlyAt hp offset #[b]
      unfold send
      rw [bind_of_ok hr, bind_of_ok hwrite]
      by_cases hlt : offset < content.size
      · have hone : content.room offset 1 = 1 := by
          unfold Bytes.room
          omega
        have hmore : content.room offset (n + 1) = (content.overwrite offset [b]).room (offset + 1) n + 1 := by
          unfold Bytes.room
          rw [Bytes.size_overwrite]
          omega
        obtain ⟨s₂, hrest'⟩ := readBytes_of_files (s := { s with window := w })
          (v := (s.store.write handle offset #[b]).2) (ho.window w).program (ho.window w).data
          (s.store.behind?_write_of_ne offset #[b] ho.notProgram)
          (s.store.behind?_write_of_ne offset #[b] ho.notData) hrest
        obtain ⟨v, w', hsend, honly', ho'⟩ := ih ho₁ (offset + 1) hrest'
        rw [hone, if_neg (not_not.mpr rfl), hmore, List.take_succ_cons]
        refine ⟨v, w', bind_pure_ok.mpr ⟨_, hsend, rfl⟩, fun p hp => ?_, ho'⟩
        refine trans_of _ (honly p hp) (honly' p ?_)
        exact ((honly p hp).pathOf? handle).trans hp
      · have hzero (m : Nat) : content.room offset m = 0 := by
          unfold Bytes.room
          omega
        have hsame : content.overwrite offset [b] = content :=
          Array.setIfInBounds_eq_of_size_le (Nat.not_lt.mp hlt)
        have hthen : (#[b] : Bytes).toList = [b] := rfl
        rw [hthen, hsame] at ho₁
        rw [hzero, hzero, if_pos Nat.zero_ne_one]
        exact ⟨_, w, rfl, honly, ho₁⟩

/-! ## From a file to memory -/

/-- Work that changes no file but that of the memory leaves what is behind another handle. -/
theorem Secluded.behind? (h : Secluded s s') (hb : s.store.behind? handle = some content)
    (hdata : s.store.pathOf? handle ≠ s.store.pathOf? s.data)
    (hgrown : s.store.pathOf? handle ≠ some s.dataPath) : s'.store.behind? handle = some content := by
  obtain ⟨p, hp, hc⟩ := Option.bind_eq_some_iff.mp hb
  rw [hp] at hdata hgrown
  rw [Volume.behind?, h.path, hp, Option.bind_some,
    h.content p (fun he => hgrown (congrArg some he)) hdata.symm]
  exact hc

/-- A file is read into memory by writing to memory what is there. -/
theorem receive_eq (hb : s.store.behind? handle = some content)
    (hdata : s.store.pathOf? handle ≠ s.store.pathOf? s.data)
    (hgrown : s.store.pathOf? handle ≠ some s.dataPath) (offset : Nat) (a : UInt16) (n : Nat) :
    receive handle offset a n s = (do
      writeBytes a (content.slice offset n).toList
      return content.room offset n : Access Volume Nat) s := by
  induction n generalizing s a offset with
  | zero =>
    have hempty : (content.slice offset 0).toList = [] := by
      refine List.eq_nil_of_length_eq_zero ?_
      rw [Array.length_toList, Bytes.size_slice]
      exact Nat.zero_min _
    have hroom : content.room offset 0 = 0 := Nat.zero_min _
    rw [hempty, hroom]
    rfl
  | succ n ih =>
    unfold receive
    rw [bind_of_ok (readFile_eq hb offset 1)]
    by_cases hlt : offset < content.size
    · have hone : (content.slice offset 1).size = 1 := by
        rw [Bytes.size_slice, Bytes.room]
        omega
      have hfirst : (content.slice offset 1)[0] = content[offset] := by
        have hget := Bytes.getElem?_slice content offset 1 0
        rw [if_pos Nat.one_pos, Nat.add_zero, Array.getElem?_eq_getElem hlt,
          Array.getElem?_eq_getElem (by omega)] at hget
        exact Option.some.inj hget
      have hmore : content.room offset (n + 1) = content.room (offset + 1) n + 1 := by
        unfold Bytes.room
        omega
      rw [dif_pos hone, hfirst, Bytes.toList_slice_succ hlt, hmore]
      unfold writeBytes
      have hsecluded := write_secluded a content[offset] s
      cases hw : AddressSpace.write a content[offset] s with
      | error f s₁ => rw [bind_of_error hw, bind_of_error (bind_of_error hw)]
      | ok u s₁ =>
        rw [after_ok hw] at hsecluded
        have hrest := ih (hsecluded.behind? hb hdata hgrown)
          (by rw [hsecluded.path, hsecluded.path, hsecluded.data]; exact hdata)
          (by rw [hsecluded.path, hsecluded.dataPath]; exact hgrown) (offset + 1) (a + 1)
        have hthen : (do
            AddressSpace.write a content[offset]
            writeBytes (a + 1) (content.slice (offset + 1) n).toList : Access Volume Unit) s =
            writeBytes (a + 1) (content.slice (offset + 1) n).toList s₁ := bind_of_ok hw
        rw [bind_of_ok hw]
        cases hbytes : writeBytes (a + 1) (content.slice (offset + 1) n).toList s₁ with
        | error f s₂ =>
          rw [bind_of_error hbytes] at hrest
          rw [bind_of_error hrest, bind_of_error (hthen.trans hbytes)]
        | ok u s₂ =>
          rw [bind_of_ok hbytes] at hrest
          rw [bind_of_ok (hthen.trans hbytes)]
          exact bind_of_ok hrest
    · have hzero : content.room offset (n + 1) = 0 := by
        unfold Bytes.room
        omega
      have hempty := Bytes.slice_of_le (Nat.not_lt.mp hlt)
      rw [hempty, hempty, hzero]
      rfl

/-- Bytes that were written are in memory, and the other bytes are those that were there. -/
theorem written_of_writeBytes (hdata : (s.store.behind? s.data).isSome) (hshort : bytes.length ≤ 0x10000)
    (hw : writeBytes a bytes s = .ok () s₁) :
    (∀ i < bytes.length, s₁.byte? (a + UInt16.ofNat i) = bytes[i]?) ∧
      ∀ a' b', (∀ i < bytes.length, a' ≠ a + UInt16.ofNat i) → s.byte? a' = some b' → s₁.byte? a' = some b' := by
  have hwritten := writeBytes_ensures s a bytes hshort hdata s rfl
  rw [hw] at hwritten
  refine ⟨fun i hi => ?_, hwritten.2.2⟩
  rw [List.getElem?_eq_getElem hi]
  exact hwritten.2.1 i _ (List.getElem?_eq_getElem hi)

end AddressSpace

/-! ## The system calls -/

namespace Turn

variable {t : Turn Volume} {handle : Handle}

theorem ask_bind {α β : Type} (question : Volume → α) (f : α → InTurn Volume β) (t : Turn Volume) :
    ((monadLift (ask question : Attempt Volume α) : InTurn Volume α) >>= f) t = f (question t.kernel.store) t :=
  rfl

/-- A handle that is not open is read from without effect. -/
theorem readCall_closed (hclosed : t.kernel.store.pathOf? handle = none) (offset buffer length : UInt16) :
    readCall handle offset buffer length t = .ok (some 0) t := by
  have hgone : (Storage.pathOf? t.kernel.store handle).isNone = true := by
    rw [show Storage.pathOf? t.kernel.store handle = none from hclosed]
    rfl
  unfold readCall
  rw [ask_bind, hgone]
  rfl

/-- What can be read without waiting is received in memory. -/
theorem readCall_ready (hopen : (t.kernel.store.pathOf? handle).isSome) {length : UInt16}
    (hready : length = 0 ∨ t.kernel.store.canRead handle) (offset buffer : UInt16) :
    readCall handle offset buffer length t =
      match AddressSpace.receive handle offset.toNat buffer length.toNat t.space with
      | .ok count s => .ok (some (UInt16.ofNat count)) (t.setSpace s)
      | .error f s => .error (.faulted f) (t.setSpace s) := by
  have hthere : (Storage.pathOf? t.kernel.store handle).isNone = false :=
    Option.isNone_eq_false_iff.mpr hopen
  have hnot : (decide (length ≠ 0) && !Storage.canRead t.kernel.store handle) = false := by
    rcases hready with rfl | hready
    · rfl
    · rw [show Storage.canRead t.kernel.store handle = true from hready, Bool.not_true, Bool.and_false]
  unfold readCall
  rw [ask_bind, hthere, if_neg Bool.false_ne_true, ask_bind, hnot, if_neg Bool.false_ne_true]
  cases hr : AddressSpace.receive handle offset.toNat buffer length.toNat t.space with
  | ok count s =>
    refine bind_of_ok (lift_ok (a := count) ?_)
    rw [access, hr]
  | error f s =>
    refine bind_of_error (lift_error ?_)
    rw [access, hr]

/-- Memory is sent to a handle. -/
theorem writeCall_eq (handle : Handle) (offset buffer length : UInt16) (t : Turn Volume) :
    writeCall handle offset buffer length t =
      match AddressSpace.send handle offset.toNat buffer length.toNat t.space with
      | .ok count s => .ok (some (UInt16.ofNat count)) (t.setSpace s)
      | .error f s => .error f (t.setSpace s) := by
  unfold writeCall
  cases hs : AddressSpace.send handle offset.toNat buffer length.toNat t.space with
  | ok count s =>
    refine bind_of_ok (a := count) ?_
    rw [access, hs]
  | error f s =>
    refine bind_of_error ?_
    rw [access, hs]

/-- A file does not have to be waited for. -/
theorem canRead_of_behind {v : Volume} {content : Bytes} (h : v.behind? handle = some content) :
    (v.pathOf? handle).isSome ∧ v.canRead handle := by
  obtain ⟨p, hp, hc⟩ := Option.bind_eq_some_iff.mp h
  refine ⟨Option.isSome_iff_exists.mpr ⟨p, hp⟩, ?_⟩
  simp only [Volume.canRead, Volume.opened?, hp, Option.bind_some, Volume.node?_of_content? hc]

/-- Bytes that can be stored in memory are read there from a file, and nothing else changes. -/
theorem read_of_outside {content : Bytes} {s : AddressSpace Volume} (ho : t.space.Outside handle content)
    {offset buffer length : UInt16} (hw : AddressSpace.writeBytes buffer
      (content.slice offset.toNat length.toNat).toList t.space = .ok () s) :
    readCall handle offset buffer length t =
      .ok (some (UInt16.ofNat (content.room offset.toNat length.toNat))) (t.setSpace s) := by
  obtain ⟨hopen, hready⟩ := canRead_of_behind ho.content
  rw [readCall_ready hopen (.inr hready), AddressSpace.receive_eq ho.content ho.notData ho.notGrown, bind_of_ok hw]
  rfl

end Turn

open AddressSpace in
/-- Reading from a file and writing to a file are bulk transfers, where the process neither runs from the file nor has
its memory in it. Writing stores as many of the bytes in memory as there is room for in the file, and changes no other
file. Reading copies as many bytes as there are to memory, changes nothing else in it and leaves the file. What was
written is read back. -/
theorem transfers_are_bulk {t : Turn Volume} {handle : Handle} {content : Bytes}
    (ho : t.space.Outside handle content) (offset buffer length : UInt16) :
    let k := min length.toNat (content.size - offset.toNat)
    (UInt16.ofNat k).toNat = k ∧
    (∀ bytes s₁, readBytes buffer length.toNat t.space = .ok bytes s₁ → ∃ t',
      Turn.answer .write ⟨handle.number, offset, buffer, length⟩ t = .ok (some (UInt16.ofNat k)) t' ∧
      t'.self = { t.self with window := t'.self.window } ∧
      t'.space.Outside handle (content.overwrite offset.toNat (bytes.take k)) ∧
      (∀ p, t.kernel.store.pathOf? handle = some p → t.kernel.store.OnlyAt p t'.kernel.store) ∧
      ∀ (u : Turn Volume) (buffer' : UInt16) s₂,
        u.space.Outside handle (content.overwrite offset.toNat (bytes.take k)) →
        writeBytes buffer' (bytes.take k) u.space = .ok () s₂ →
          Turn.answer .read ⟨handle.number, offset, buffer', length⟩ u =
            .ok (some (UInt16.ofNat k)) (u.setSpace s₂) ∧
          ∀ i < k, s₂.byte? (buffer' + UInt16.ofNat i) = bytes[i]?) ∧
    ∀ s₁, writeBytes buffer (content.slice offset.toNat length.toNat).toList t.space = .ok () s₁ →
      Turn.answer .read ⟨handle.number, offset, buffer, length⟩ t = .ok (some (UInt16.ofNat k)) (t.setSpace s₁) ∧
      (t.setSpace s₁).space = s₁ ∧
      (∀ i < k, s₁.byte? (buffer + UInt16.ofNat i) = content[offset.toNat + i]?) ∧
      (∀ a b, (∀ i < k, a ≠ buffer + UInt16.ofNat i) → t.space.byte? a = some b → s₁.byte? a = some b) ∧
      s₁.store.behind? handle = some content ∧
      (t.space.store.pathOf? t.space.program ≠ t.space.store.pathOf? t.space.data →
        t.space.store.pathOf? t.space.program ≠ some t.space.dataPath → s₁.code? = t.space.code?) := by
  intro k
  have hk : k = content.room offset.toNat length.toNat := rfl
  have hlt := length.toNat_lt
  have hexact : (UInt16.ofNat k).toNat = k := by
    rw [UInt16.toNat_ofNat', Nat.mod_eq_of_lt (by omega)]
  refine ⟨hexact, ?_, ?_⟩
  · intro bytes s₁ hread
    obtain ⟨v, w, hsend, honly, ho'⟩ := send_eq ho offset.toNat hread
    have hlength := length_of_readBytes hread
    refine ⟨t.setSpace { t.space with store := v, window := w }, ?_, rfl, ho', honly, ?_⟩
    · refine Turn.lift_ok ((Turn.writeCall_eq handle offset buffer length t).trans ?_)
      rw [hsend]
      rfl
    · intro u buffer' s₂ hu hw
      have hback := Bytes.slice_overwrite_take content offset.toNat bytes
      rw [hlength, ← hk] at hback
      have hread' : Turn.readCall handle offset buffer' length u = .ok (some (UInt16.ofNat
          (Bytes.room (content.overwrite offset.toNat (bytes.take k)) offset.toNat length.toNat))) (u.setSpace s₂) :=
        Turn.read_of_outside hu (by rw [hback]; exact hw)
      have hroom : Bytes.room (content.overwrite offset.toNat (bytes.take k)) offset.toNat length.toNat = k := by
        unfold Bytes.room
        rw [Bytes.size_overwrite]
      rw [hroom] at hread'
      have hwritten := (written_of_writeBytes hu.data (by rw [List.length_take]; omega) hw).1
      refine ⟨hread', fun i hi => ?_⟩
      rw [hwritten i (by rw [List.length_take, hlength]; omega), List.getElem?_take, if_pos hi]
  · intro s₁ hw
    have hlength : (content.slice offset.toNat length.toNat).toList.length = k := by
      rw [Array.length_toList, Bytes.size_slice]
      rfl
    have hwritten := written_of_writeBytes ho.data (by rw [hlength]; omega) hw
    have hquiet := writeBytes_quiet buffer (content.slice offset.toNat length.toNat).toList t.space
    have hsecluded := (tame_secluded.writeBytes buffer (content.slice offset.toNat length.toNat).toList).keeps t.space
    rw [after_ok hw] at hquiet hsecluded
    rw [hlength] at hwritten
    refine ⟨Turn.read_of_outside ho hw, ?_, fun i hi => ?_, hwritten.2,
      hsecluded.behind? ho.content ho.notData ho.notGrown, fun hdata hgrown => ?_⟩
    · rw [hquiet.rest]
      rfl
    · rw [hwritten.1 i hi, Array.getElem?_toList, Bytes.getElem?_slice, if_pos (by omega)]
    · obtain ⟨code, hcode⟩ := Option.isSome_iff_exists.mp ho.program
      have hprogram : s₁.program = t.space.program := by rw [hquiet.rest]
      rw [hcode, code?, hprogram]
      exact hsecluded.behind? hcode hdata hgrown

/-- A process that runs from one file, has its memory in another and has a third one open. -/
def filingTurn : Turn Volume where
  kernel := Kernel.new (((((((Volume.empty.addFile (Path.ofText "/a") #[1, 2, 3]).2.addFile (Path.ofText "/tmp/proc0")
    (Array.replicate Snapshot.blockSize 0)).2.addFile (Path.ofText "/f") #[9, 8, 7, 6]).2.openPath
    (Path.ofText "/a")).2.openPath (Path.ofText "/tmp/proc0")).2.openPath (Path.ofText "/f")).2)
  self := { pid := 0, program := ⟨1⟩, backing := ⟨2⟩, backingPath := Path.ofText "/tmp/proc0", state := {} }

/-- The first bytes of a program can be read, and two bytes be stored at the beginning of memory. -/
def Turn.movesBytes (t : Turn Volume) : Bool :=
  (AddressSpace.readBytes 0 3 t.space matches .ok [1, 2, 3] _) &&
    (AddressSpace.writeBytes 0x8000 [7, 6] t.space matches .ok () _)

open AddressSpace in
/-- Of three bytes, two are written before the end of the file, and two are read there. -/
theorem transfers_are_bulk_at_end :
    (∃ t', Turn.answer .write ⟨3, 2, 0, 3⟩ filingTurn = .ok (some 2) t' ∧
      t'.kernel.store.behind? ⟨3⟩ = some #[9, 8, 1, 2]) ∧
    ∃ s₁, Turn.answer .read ⟨3, 2, 0x8000, 3⟩ filingTurn = .ok (some 2) (filingTurn.setSpace s₁) ∧
      s₁.byte? 0x8000 = some 7 ∧ s₁.byte? 0x8001 = some 6 := by
  have ho : filingTurn.space.Outside ⟨3⟩ #[9, 8, 7, 6] :=
    ⟨by decide +kernel, by decide +kernel, by decide +kernel, by decide +kernel, by decide +kernel, by decide +kernel⟩
  have hmoves : filingTurn.movesBytes := by decide +kernel
  rw [Turn.movesBytes, Bool.and_eq_true] at hmoves
  obtain ⟨hreads, hwrites⟩ := hmoves
  constructor
  · split at hreads <;> [skip; cases hreads]
    next s₁ hread =>
    obtain ⟨t', hwrite, -, ho', -⟩ := (transfers_are_bulk ho 2 0 3).2.1 _ s₁ hread
    exact ⟨t', hwrite, ho'.content⟩
  · split at hwrites <;> [skip; cases hwrites]
    next s₁ hwrite =>
    obtain ⟨hread, -, hbytes, -⟩ := (transfers_are_bulk ho 2 0x8000 3).2.2 s₁ hwrite
    exact ⟨s₁, hread, hbytes 0 (by decide), hbytes 1 (by decide)⟩

end CoopKernel
