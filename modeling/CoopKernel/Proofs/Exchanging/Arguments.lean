import CoopKernel.Proofs.Custody.Run
import CoopKernel.Proofs.Exchanging.Texts
import CoopKernel.Proofs.Loading

/-!
# What a program is told of its arguments

The texts that a program is started with are laid out in its data region one behind the other, with a NUL behind
each, and it asks for them by their numbers. It is told each of them as it is, with one exception: the answer is no
longer than a text that is read from memory can be, and the path of a program can be longer than that.
-/

namespace CoopKernel

open Turn (Plain)

/-! ## The layout -/

/-- Each text is laid out at its offset, with a NUL behind it. -/
theorem Arguments.layout_at (start : Nat) {texts : List (List UInt8)} {n : Nat} {text : List UInt8}
    (h : texts[n]? = some text) :
    ∃ place rest, (layout start texts).offsets[n]? = some (start + place) ∧
      (layout start texts).data.drop place = text ++ 0 :: rest := by
  induction texts generalizing start n with
  | nil => cases h
  | cons first texts ih =>
    cases n with
    | zero =>
      cases h
      exact ⟨0, (layout (start + text.length + 1) texts).data, rfl, rfl⟩
    | succ n =>
      obtain ⟨place, rest, hoffset, hdata⟩ := ih (start + first.length + 1) h
      refine ⟨first.length + 1 + place, rest, ?_, ?_⟩
      · rw [layout, List.getElem?_cons_succ, hoffset]
        congr 1
        omega
      · rw [layout, ← hdata, ← List.drop_drop]
        congr 1
        rw [List.drop_append, List.drop_of_length_le (Nat.le_succ _), Nat.add_sub_cancel_left]
        rfl

namespace AddressSpace

variable {s : AddressSpace Volume}

/-! ## Writing where there is room -/

/-- All of the data region is in the backing file. -/
def Whole (s : AddressSpace Volume) : Prop :=
  ∃ content, s.store.behind? s.data = some content ∧ Snapshot.blockSize + s.dataLength.toNat ≤ content.size

theorem Whole.hasBlock (h : s.Whole) : s.HasBlock := by
  obtain ⟨content, hc, hsize⟩ := h
  exact ⟨content, hc, Nat.le_trans (Nat.le_add_right _ _) hsize⟩

theorem Whole.file (h : s.Whole) : (s.store.behind? s.data).isSome := by
  obtain ⟨content, hc, -⟩ := h
  rw [hc]
  rfl

/-- A byte can be written to the data region, and the region is as long as before. -/
theorem Whole.write (h : s.Whole) {a : UInt16} (ha : s.Covers a) (b : UInt8) :
    ∃ s', AddressSpace.write a b s = .ok () s' ∧ s'.Whole ∧ s'.dataLength = s.dataLength := by
  obtain ⟨content, hc, hsize⟩ := h
  obtain ⟨hlow, hin⟩ := ha
  obtain ⟨hcount, hbehind⟩ := Volume.write_behind hc (Snapshot.blockSize + (a.toNat - dataStart.toNat)) #[b]
  have hone : content.room (Snapshot.blockSize + (a.toNat - dataStart.toNat)) (#[b] : Bytes).size = 1 := by
    rw [Bytes.room, show (#[b] : Bytes).size = 1 from rfl]
    omega
  rw [hone] at hcount
  have hwrite : writeFile s.data (Snapshot.blockSize + (a.toNat - dataStart.toNat)) #[b] s =
      .ok 1 { s with store :=
        (s.store.write s.data (Snapshot.blockSize + (a.toNat - dataStart.toNat)) #[b]).2 } := by
    rw [← hcount]
    rfl
  refine ⟨{ s with store :=
    (s.store.write s.data (Snapshot.blockSize + (a.toNat - dataStart.toNat)) #[b]).2 }, ?_, ⟨_, hbehind, ?_⟩, rfl⟩
  · rw [AddressSpace.write, if_neg (UInt16.not_lt.mpr hlow), writeData, get_bind, if_neg (Nat.not_le.mpr hin)]
    exact (bind_of_ok hwrite).trans rfl
  · rw [Bytes.size_overwrite]
    exact hsize

/-- Whatever has room in the data region can be written there. -/
theorem Whole.writeBytes (h : s.Whole) {a : UInt16} {bytes : List UInt8}
    (hin : ∀ i < bytes.length, s.Covers (a + UInt16.ofNat i)) :
    ∃ s', AddressSpace.writeBytes a bytes s = .ok () s' := by
  induction bytes generalizing s a with
  | nil => exact ⟨s, rfl⟩
  | cons b bytes ih =>
    have hfirst := hin 0 (Nat.succ_pos _)
    rw [show a + UInt16.ofNat 0 = a from UInt16.add_zero a] at hfirst
    obtain ⟨s₁, hwrite, hwhole, hlength⟩ := h.write hfirst b
    obtain ⟨s', hrest⟩ := ih hwhole (a := a + 1) fun i hi => by
      have hnext := hin (i + 1) (Nat.succ_lt_succ hi)
      rw [add_ofNat_succ] at hnext
      exact ⟨hnext.1, by rw [hlength]; exact hnext.2⟩
    exact ⟨s', (bind_of_ok hwrite).trans hrest⟩

end AddressSpace

namespace Turn

variable {t u u' : Turn Volume} {texts : List (List UInt8)} {text : List UInt8}

/-! ## Reading an argument -/

/-- The texts are in the data region of the process, where its environment says, with a NUL behind each. -/
structure Holds (texts : List (List UInt8)) (t : Turn Volume) : Prop where
  count : t.self.state.env.argCount.toNat = texts.length
  whole : t.space.Whole
  place : ∀ {n : Nat} {text : List UInt8}, texts[n]? = some text → ∃ offset : UInt16,
    t.self.state.env.argOffsets[n]? = some offset ∧ offset.toNat + text.length < 0x8000 ∧
      ∀ {i : Nat} {b : UInt8}, (text ++ [0])[i]? = some b → t.space.dataByte? (offset.toNat + i) = some b

/-- A byte of the data region is read where it is. -/
theorem access_read (hfile : (t.space.store.behind? t.space.data).isSome) {i : Nat} (hi : i < 0x8000) {b : UInt8}
    (hb : t.space.dataByte? i = some b) :
    access (AddressSpace.read (UInt16.ofNat (dataStart.toNat + i))) t = .ok b t := by
  have hnat : (UInt16.ofNat (dataStart.toNat + i)).toNat = dataStart.toNat + i := by
    rw [UInt16.toNat_ofNat']
    have hstart : dataStart.toNat = 0x8000 := rfl
    omega
  have hbyte : t.space.byte? (UInt16.ofNat (dataStart.toNat + i)) = some b := by
    rw [AddressSpace.byte?, if_neg, hnat, Nat.add_sub_cancel_left]
    · exact hb
    · rw [UInt16.lt_iff_toNat_lt, hnat]
      omega
  simp only [access, AddressSpace.read_of_byte hfile hbyte]
  rfl

/-- Of a text without a NUL is read what stands before the NUL behind it, and at most as much as asked for. -/
theorem readArgument_eq (hfile : (t.space.store.behind? t.space.data).isSome) {offset : Nat} (count : Nat)
    (hnul : ∀ b ∈ text, b ≠ 0) (hlow : offset + text.length < 0x8000)
    (hbytes : ∀ {i : Nat} {b : UInt8}, (text ++ [0])[i]? = some b → t.space.dataByte? (offset + i) = some b) :
    readArgument offset count t = .ok (text.take count) t := by
  induction count generalizing offset text with
  | zero => rfl
  | succ count ih =>
    -- The first byte is that of the text, or the NUL behind it if the text is at its end.
    have hfirst : ∀ {b}, (text ++ [0])[0]? = some b →
        readArgument offset (count + 1) t =
          (if b = 0 then pure [] else do return b :: (← readArgument (offset + 1) count) :
            InTurn Volume (List UInt8)) t := by
      intro b hb
      have hbyte := hbytes hb
      have hin : offset < t.self.state.dataLength.toNat := by
        rw [Nat.add_zero, AddressSpace.dataByte?] at hbyte
        split at hbyte
        · next hlt => exact hlt
        · cases hbyte
      have hread := access_read hfile (by omega) hbyte
      rw [Nat.add_zero] at hread
      have hstart : dataStart.toNat = 0x8000 := rfl
      rw [readArgument, get_bind, if_neg (Nat.not_le.mpr hin), if_neg (by omega)]
      exact bind_of_ok (lift_ok hread)
    cases text with
    | nil =>
      rw [hfirst rfl]
      rfl
    | cons b text =>
      rw [hfirst rfl, if_neg (hnul b List.mem_cons_self)]
      rw [List.length_cons] at hlow
      refine bind_of_ok (ih (fun b' hb' => hnul b' (List.mem_cons_of_mem b hb')) (by omega) ?_)
      intro i b' hb'
      have hnext := hbytes (i := i + 1) hb'
      rw [show offset + (i + 1) = offset + 1 + i by omega] at hnext
      exact hnext

/-- What was written to a buffer is there, and everything else in the data region is as it was. -/
structure Written (buffer : UInt16) (bytes : List UInt8) (t t' : Turn Volume) : Prop where
  there : ∀ {i b}, bytes[i]? = some b → t'.space.byte? (buffer + UInt16.ofNat i) = some b
  elsewhere : ∀ {a b}, (∀ i < bytes.length, a ≠ buffer + UInt16.ofNat i) → t.space.byte? a = some b →
    t'.space.byte? a = some b

/-- A process that asks for an argument by its number has the beginning of it put into its buffer, as much of it as
is read at most, with a NUL behind, and is given the length of that. It has as many arguments as there are texts,
and under other numbers there is nothing. A buffer in the data region will do. -/
structure Tells (texts : List (List UInt8)) (t : Turn Volume) : Prop where
  count : t.self.state.env.argCount.toNat = texts.length
  writable : ∀ {buffer : UInt16} {text : List UInt8},
    (∀ i ≤ text.length, t.space.Covers (buffer + UInt16.ofNat i)) →
      ∃ t', access (AddressSpace.writeText buffer text) t = .ok () t'
  told : ∀ {n buffer : UInt16} {text : List UInt8} {t' : Turn Volume}, texts[n.toNat]? = some text →
    access (AddressSpace.writeText buffer (text.take textLimit)) t = .ok () t' →
    argument n buffer t = .ok (some (UInt16.ofNat (text.take textLimit).length)) t' ∧
      Written buffer (text.take textLimit ++ [0]) t t'
  untold : ∀ {n buffer : UInt16}, texts.length ≤ n.toNat → argument n buffer t = .ok (some 0) t

/-- A text that was written to memory is there. -/
theorem written_of_writeText (hblock : t.space.HasBlock) {buffer : UInt16} (hshort : text.length < 0x10000)
    (h : access (AddressSpace.writeText buffer text) t = .ok () u) : Written buffer (text ++ [0]) t u := by
  have hlength : (text ++ [0]).length ≤ 0x10000 := by
    rw [List.length_append]
    exact hshort
  have hwritten := AddressSpace.writeBytes_ensures t.space buffer (text ++ [0]) hlength hblock.file t.space rfl
  have hquiet := AddressSpace.writeBytes_quiet buffer (text ++ [0]) t.space
  unfold access AddressSpace.writeText at h
  cases hs : AddressSpace.writeBytes buffer (text ++ [0]) t.space with
  | error f s =>
    rw [hs] at h
    cases h
  | ok _ s =>
    rw [hs] at h hwritten
    rw [after_ok hs] at hquiet
    cases h
    have hspace : (t.setSpace s).space = s := by
      rw [hquiet.rest]
      rfl
    refine ⟨fun hb => ?_, fun hne hb => ?_⟩
    · rw [hspace]
      exact hwritten.2.1 _ _ hb
    · rw [hspace]
      exact hwritten.2.2 _ _ hne hb

/-- Asking for an argument is writing the beginning of it to the buffer. -/
theorem Holds.argument_eq (h : t.Holds texts) (hnul : ∀ text ∈ texts, ∀ b ∈ text, b ≠ 0) {n : UInt16}
    (htext : texts[n.toNat]? = some text) (buffer : UInt16) : argument n buffer t = (do
      (access (AddressSpace.writeText buffer (text.take textLimit)) : Attempt Volume Unit)
      return some (UInt16.ofNat (text.take textLimit).length) : InTurn Volume Reply) t := by
  obtain ⟨offset, hoffset, hlow, hbytes⟩ := h.place htext
  have hlt := (List.getElem?_eq_some_iff.mp htext).1
  have hread := readArgument_eq h.whole.file textLimit (hnul text (List.mem_of_getElem? htext)) hlow hbytes
  unfold argument
  rw [get_bind, if_neg (by rw [h.count]; omega)]
  simp only [hoffset]
  exact bind_of_ok hread

theorem Holds.tells (h : t.Holds texts) (hnul : ∀ text ∈ texts, ∀ b ∈ text, b ≠ 0) : t.Tells texts where
  count := h.count
  writable {buffer text} hin := by
    obtain ⟨s, hs⟩ : ∃ s, AddressSpace.writeBytes buffer (text ++ [0]) t.space = .ok () s :=
      h.whole.writeBytes fun i hi => hin i (Nat.le_of_lt_succ (by rw [List.length_append] at hi; exact hi))
    refine ⟨t.setSpace s, ?_⟩
    rw [access, AddressSpace.writeText, hs]
  told {n buffer text t'} htext hwrite := by
    rw [h.argument_eq hnul htext, bind_of_ok (lift_ok hwrite)]
    have hshort : (text.take textLimit).length ≤ 64 := List.length_take_le _ _
    exact ⟨rfl, written_of_writeText h.whole.hasBlock (by omega) hwrite⟩
  untold {n buffer} hmany := by
    have hnone : n.toNat ≥ t.self.state.env.argCount.toNat := by
      rw [h.count]
      exact hmany
    unfold argument
    rw [get_bind, if_pos hnone]
    rfl

/-! ## What is read from memory -/

variable {a : UInt16} {addresses : List UInt16} {arguments : List (List UInt8)}

theorem readText_ok (h : readText a t = .ok text u) : text.length ≤ textLimit ∧ ∀ b ∈ text, b ≠ 0 := by
  unfold readText access at h
  split at h
  · next hs =>
    cases h
    exact ⟨AddressSpace.length_readText hs, readText_ne_zero hs⟩
  · cases h

/-- No more arguments are read than there are addresses, and all of them are short and without a NUL. -/
theorem readArguments_ok (h : readArguments addresses t = .ok arguments u) :
    arguments.length ≤ addresses.length ∧ ∀ arg ∈ arguments, arg.length ≤ textLimit ∧ ∀ b ∈ arg, b ≠ 0 := by
  induction addresses generalizing t arguments with
  | nil =>
    cases h
    exact ⟨Nat.le_refl 0, nofun⟩
  | cons address addresses ih =>
    unfold readArguments at h
    split at h
    · obtain ⟨hcount, hall⟩ := ih h
      exact ⟨Nat.le_succ_of_le hcount, hall⟩
    · cases harg : readText address t with
      | error f t₁ =>
        rw [bind_of_error harg] at h
        cases h
      | ok arg t₁ =>
        rw [bind_of_ok harg] at h
        obtain ⟨rest, hrest, rfl⟩ := bind_pure_ok.mp h
        obtain ⟨hcount, hall⟩ := ih hrest
        refine ⟨Nat.succ_le_succ hcount, fun arg' harg' => ?_⟩
        rcases List.mem_cons.mp harg' with rfl | harg'
        · exact readText_ok harg
        · exact hall arg' harg'

/-! ## Starting over -/

/-- A process that starts over holds its texts if they are few and short and their layout is in its backing file. -/
theorem holds_of_layout (hfew : texts.length ≤ maxArguments) (hshort : ∀ text ∈ texts, text.length < 0x400)
    {s : Snapshot} (hstate : t.self.state = s.restart texts.length (Arguments.layout 0 texts)) {content : Bytes}
    (hc : t.kernel.store.behind? t.self.backing = some content)
    (hsize : Snapshot.blockSize + (Arguments.layout 0 texts).data.length ≤ content.size)
    (hbytes : ∀ i < (Arguments.layout 0 texts).data.length,
      content[Snapshot.blockSize + i]? = (Arguments.layout 0 texts).data[i]?) : t.Holds texts := by
  obtain ⟨hdata, hoffsets⟩ := Arguments.layout_small hfew hshort
  have hlength : t.self.state.dataLength.toNat = (Arguments.layout 0 texts).data.length := by
    rw [hstate]
    exact Nat.mod_eq_of_lt hdata
  have hspace : t.space.store.behind? t.space.data = some content := hc
  refine ⟨?_, ⟨content, hc, ?_⟩, fun {n text} htext => ?_⟩
  · rw [hstate]
    exact Nat.mod_eq_of_lt (Nat.lt_of_le_of_lt hfew (show maxArguments < 256 by decide))
  · exact Nat.le_trans (Nat.le_of_eq (congrArg (Snapshot.blockSize + ·) hlength)) hsize
  · obtain ⟨place, rest, hplace, hdrop⟩ := Arguments.layout_at 0 htext
    rw [Nat.zero_add] at hplace
    have hlow := hoffsets place (List.mem_of_getElem? hplace)
    have hn : n < 4 := Nat.lt_of_lt_of_le (List.getElem?_eq_some_iff.mp htext).1 hfew
    have hoffset : (UInt16.ofNat place).toNat = place := Nat.mod_eq_of_lt (by omega)
    refine ⟨UInt16.ofNat place, ?_, ?_, fun {i b} hb => ?_⟩
    · rw [hstate]
      refine Vector.getElem?_ofFn.trans ?_
      rw [dif_pos hn, List.getD_eq_getElem?_getD, hplace]
      rfl
    · have hlimit := hshort text (List.mem_of_getElem? htext)
      rw [hoffset]
      omega
    · have hi := (List.getElem?_eq_some_iff.mp hb).1
      have hthere : (Arguments.layout 0 texts).data[place + i]? = some b := by
        rw [← List.getElem?_drop, hdrop, ← hb, List.append_cons, List.getElem?_append_left hi]
      have hlt := (List.getElem?_eq_some_iff.mp hthere).1
      rw [hoffset, AddressSpace.dataByte?, if_pos (hlength ▸ hlt), hspace, Option.bind_some, hbytes _ hlt]
      exact hthere

/-- A process that started over holds the path of its program and its arguments. -/
theorem holds_of_exec {l : Ledger} (hc : InCustody l u) (hterse : u.self.state.env.Terse) {name : List UInt8}
    (hfew : arguments.length ≤ 3) (hshort : ∀ arg ∈ arguments, arg.length ≤ textLimit)
    (h : exec name arguments u = .ok true u') :
    ∃ path, u.Finds name path ∧ u'.Holds (Utf8.encode path.chars :: arguments) := by
  have hc' := InCustody.exec name arguments u hc
  rw [h] at hc'
  obtain ⟨path, program, s, hfinds, -, -, hreplaced⟩ := exec_true h
  obtain ⟨hself, v, hwrite⟩ := replaceProgram_ok hreplaced
  have htexts : startTexts path arguments = Utf8.encode path.chars :: arguments :=
    List.take_of_length_le (Nat.succ_le_succ hfew)
  have hsmall : ∀ text ∈ Utf8.encode path.chars :: arguments, text.length < 0x400 := by
    intro text htext
    rcases List.mem_cons.mp htext with rfl | htext
    · have hpath := (hfinds.terse hterse).1
      have hencode := (Utf8.length_encode path.chars).2
      omega
    · have hlimit : text.length ≤ 64 := hshort text htext
      omega
  -- The layout was written in full, so that there was room for it in the backing file.
  obtain ⟨p, hp, -, -, hbacking⟩ := hc'.seated
  have hfile : (u'.kernel.store.behind? u'.self.backing).isSome := hbacking ▸ hc'.custody.backing_file hp
  have hsame : u'.self.backing = u.self.backing := by
    rw [hself]
    rfl
  have hstore := congrArg Prod.snd hwrite
  dsimp only at hstore
  rw [← hstore, hsame, Volume.behind?_write, Option.isSome_map] at hfile
  obtain ⟨content, hcontent⟩ := Option.isSome_iff_exists.mp hfile
  obtain ⟨hroom, hbehind⟩ := Volume.write_behind hcontent Snapshot.blockSize
    (Arguments.layout 0 (startTexts path arguments)).data.toArray
  rw [hwrite, Bytes.room, List.size_toArray] at hroom
  rw [hstore, ← hsame] at hbehind
  dsimp only at hroom
  rw [htexts] at hroom hbehind
  refine ⟨path, hfinds, holds_of_layout (s := u.self.state) (Nat.succ_le_succ hfew) hsmall ?_ hbehind ?_ ?_⟩
  · rw [hself, ← htexts]
    rfl
  · rw [Bytes.size_overwrite]
    have hpos : 0 < (Arguments.layout 0 (Utf8.encode path.chars :: arguments)).data.length := by
      rw [Arguments.layout]
      dsimp only
      rw [List.length_append, List.length_cons]
      omega
    omega
  · intro i hi
    rw [Bytes.getElem?_overwrite, if_pos ⟨Nat.le_add_right _ _, Nat.add_lt_add_left hi _, by omega⟩,
      Nat.add_sub_cancel_left]

/-- What a process holds depends on its data region and on what its environment says of it. -/
theorem Holds.congr (h : t.Holds texts) (hcount : u.self.state.env.argCount = t.self.state.env.argCount)
    (hoffsets : u.self.state.env.argOffsets = t.self.state.env.argOffsets) (hwhole : u.space.Whole)
    (hbytes : ∀ i, u.space.dataByte? i = t.space.dataByte? i) : u.Holds texts where
  count := hcount ▸ h.count
  whole := hwhole
  place htext := by
    simp only [hoffsets, hbytes]
    exact h.place htext

/-- What a process holds at the end of a turn it holds at the beginning of the next. -/
theorem Holds.kept (h : t.Holds texts) {l : Ledger} (hc : InCustody l t) (hfew : texts.length ≤ maxArguments) :
    ∃ w, (Kernel.endTurn t (some .yielded)).openTurn t.self.pid .ready = .ok w ∧ w.Holds texts := by
  obtain ⟨p, hp, -, -, hbacking⟩ := hc.seated
  obtain ⟨content, hcontent, hsize⟩ := h.whole
  have hroom := Nat.le_trans (Nat.le_add_right _ _) hsize
  have hend : Kernel.endTurn t (some .yielded) = t.kernel.saved t.self := Kernel.endTurn_of_hasBlock h.whole.hasBlock
  have hopen := Kernel.saved_turn hp hbacking.symm hcontent hroom (h.count ▸ hfew)
  have hdata := Kernel.saved_data (k := t.kernel) hcontent
  have hbehind := Kernel.saved_behind (k := t.kernel) hcontent
  have hlength := Snapshot.stored_dataLength t.self.state
  rw [hend]
  refine ⟨_, hopen, h.congr (Snapshot.stored_argCount _) (by simp only [Snapshot.stored]) ?_ fun i => ?_⟩
  · rw [hbacking]
    refine ⟨_, hbehind, ?_⟩
    simp only [Bytes.size_overwrite, Turn.space, hlength]
    exact hsize
  · simp only [AddressSpace.dataByte?, Turn.space, hlength, hbacking]
    exact if_congr Iff.rfl (hdata i) rfl

end Turn

/-! ## Runs -/

section Exchange

variable {v : Volume} {settings : Settings} {entropy : UInt64} {calls : List (HostCall Volume)}
  {t t₁ u u' : Turn Volume} {args : CallArgs} {name : List UInt8} {arguments : List (List UInt8)}
  (h : HostCall.allSpare (Kernel.new v settings entropy) calls)
  (ht : .stepped t ∈ HostCall.courseAll (Kernel.new v settings entropy) calls)
  (hcall : t.call? = some (.exec, args)) (hname : Turn.readText args.a t.atCall = .ok name t₁)
  (harguments : Turn.readArguments [args.b, args.c, args.d] t₁ = .ok arguments u)
  (hexec : Turn.exec name arguments u = .ok true u')

include h ht hcall hname harguments hexec

/-- A program that is called for in a run holds the path that it was found under and the arguments, all of them
without a NUL. -/
theorem HostCall.holds_after_exchange : (∃ l, InCustody l u') ∧
    ∃ path, u.Finds name path ∧ u'.Holds (Utf8.encode path.chars :: arguments) ∧
      ∀ text ∈ Utf8.encode path.chars :: arguments, ∀ b ∈ text, b ≠ 0 := by
  obtain ⟨l, hcustody⟩ := inCustody_of_stepped h ht
  obtain ⟨hfew, hread⟩ := Turn.readArguments_ok harguments
  -- Up to the exchange, the process only reads.
  have hquiet₁ := Turn.readText_quiet args.a t.atCall
  have hcomposed₁ := (Turn.domestic_composed.readText args.a).keeps t.atCall
  rw [after_ok hname] at hquiet₁ hcomposed₁
  have hquiet₂ := Turn.readArguments_quiet [args.b, args.c, args.d] t₁
  have hcomposed₂ := (Turn.domestic_composed.readArguments [args.b, args.c, args.d]).keeps t₁
  rw [after_ok harguments] at hquiet₂ hcomposed₂
  have hcalled : InCustody l t.atCall :=
    hcustody.plain (Turn.domestic_plain.atCall Turn.addCount_plain Turn.called_plain hcall)
  have hc : InCustody l u := (hcalled.plain hquiet₁.plain).plain hquiet₂.plain
  have hcomposed := trans_of Turn.Composed (trans_of Turn.Composed (Turn.atCall_composed hcall) hcomposed₁) hcomposed₂
  have hterse : u.self.state.env.Terse := Turn.terse_equipped t u hcomposed.equipped (terse_of_stepped ht)
  have hc' := InCustody.exec name arguments u hc
  rw [hexec] at hc'
  obtain ⟨path, hfinds, hholds⟩ := Turn.holds_of_exec hc hterse hfew (fun arg harg => (hread arg harg).1) hexec
  refine ⟨⟨l, hc'⟩, path, hfinds, hholds, fun text htext => ?_⟩
  rcases List.mem_cons.mp htext with rfl | htext
  · exact (hfinds.terse hterse).2
  · exact (hread text htext).2

/-- A program that is called for in a run, with whatever name and arguments, is told the path that it was found under
and the arguments, each as far as a text is read at most: the arguments in full, and the path unless it is longer
than that. It is told the same right after the exchange and when it has its first turn. -/
theorem program_is_told_its_arguments :
    Turn.step t = .error .yielded u' ∧ (∀ arg ∈ arguments, arg.take Turn.textLimit = arg) ∧
      ∃ path, u.Finds name path ∧ u'.Tells (Utf8.encode path.chars :: arguments) ∧
        ∃ w, (Kernel.endTurn u' (some .yielded)).openTurn u'.self.pid .ready = .ok w ∧
          w.Tells (Utf8.encode path.chars :: arguments) := by
  obtain ⟨⟨l, hc'⟩, path, hfinds, hholds, hnul⟩ :=
    HostCall.holds_after_exchange h ht hcall hname harguments hexec
  obtain ⟨hfew, hread⟩ := Turn.readArguments_ok harguments
  obtain ⟨w, hopen, hkept⟩ := hholds.kept hc' (Nat.succ_le_succ hfew)
  refine ⟨?_, fun arg harg => List.take_of_length_le (hread arg harg).1, path, hfinds, hholds.tells hnul, w, hopen,
    hkept.tells hnul⟩
  have hyields : Turn.execCall args t.atCall = .error .yielded u' := by
    unfold Turn.execCall
    rw [bind_of_ok (Turn.lift_ok hname), bind_of_ok (Turn.lift_ok harguments), bind_of_ok (Turn.lift_ok hexec)]
    rfl
  rw [(Turn.step_call_cases hcall).2.2]
  exact bind_of_error hyields

end Exchange

/-- A program that runs the program `/b` with the argument `/b`. -/
def talkingProgram : Bytes :=
  #[0xD0, 0x05, 0xD1, 0x07, 0xD2, 0x07, 0xC1, 0x2F, 0x62, 0x00]

/-- A kernel with that program, and with one that it runs. -/
def talkingKernel : Kernel Volume :=
  Kernel.new (((Volume.empty.mkdir (Path.ofText "/tmp")).2.addFile (Path.ofText "/bin/a")
    talkingProgram).2.addFile (Path.ofText "/b") #[0xC0]).2 {}

/-- The next step calls for the program `/b` with the argument `/b`, and the process starts over with six bytes of
data. -/
def Turn.startsTalking (t : Turn Volume) : Bool :=
  t.call?.any fun c => c.1 = .exec &&
    match readText c.2.a t.atCall with
    | .error .. => false
    | .ok name t₁ => name = [0x2F, 0x62] &&
      match readArguments [c.2.b, c.2.c, c.2.d] t₁ with
      | .error .. => false
      | .ok arguments u => arguments = [[0x2F, 0x62]] &&
        match exec name arguments u with
        | .ok true u' => u'.self.state.dataLength = 6
        | _ => false

theorem program_is_told_its_arguments_of_talking :
    let calls := [.spawn "/bin/a", .tick]
    HostCall.allSpare talkingKernel calls ∧ ∃ t args t₁ u u',
      .stepped t ∈ HostCall.courseAll talkingKernel calls ∧ t.call? = some (.exec, args) ∧
      Turn.readText args.a t.atCall = .ok [0x2F, 0x62] t₁ ∧
      Turn.readArguments [args.b, args.c, args.d] t₁ = .ok [[0x2F, 0x62]] u ∧
      Turn.exec [0x2F, 0x62] [[0x2F, 0x62]] u = .ok true u' ∧
      ∃ t', Turn.argument 1 0x8000 u' = .ok (some 2) t' ∧ Turn.Written 0x8000 [0x2F, 0x62, 0x00] u' t' := by
  intro calls
  have hspare : HostCall.allSpare talkingKernel calls := by decide +kernel
  obtain ⟨t, ht, hkind⟩ := HostCall.exists_stepped talkingKernel calls Turn.startsTalking (by decide +kernel)
  simp only [Turn.startsTalking, Option.any_eq_true, Bool.and_eq_true, decide_eq_true_eq] at hkind
  obtain ⟨⟨_, args⟩, hcall, rfl, hkind⟩ := hkind
  split at hkind <;> [cases hkind; skip]
  next name t₁ hname =>
  simp only [Bool.and_eq_true, decide_eq_true_eq] at hkind
  obtain ⟨rfl, hkind⟩ := hkind
  split at hkind <;> [cases hkind; skip]
  next arguments u harguments =>
  simp only [Bool.and_eq_true, decide_eq_true_eq] at hkind
  obtain ⟨rfl, hkind⟩ := hkind
  split at hkind <;> [skip; cases hkind]
  next u' hexec =>
  have hlength : u'.space.dataLength = 6 := of_decide_eq_true hkind
  obtain ⟨-, -, path, -, htells, -⟩ := program_is_told_its_arguments hspare ht hcall hname harguments hexec
  have hcovers : ∀ i ≤ 2, u'.space.Covers (0x8000 + UInt16.ofNat i) := by
    intro i hi
    obtain rfl | rfl | rfl : i = 0 ∨ i = 1 ∨ i = 2 := by omega
    all_goals
      unfold AddressSpace.Covers
      rw [hlength]
      decide
  obtain ⟨t', hwrite⟩ : ∃ t', Turn.access (AddressSpace.writeText 0x8000 [0x2F, 0x62]) u' = .ok () t' :=
    htells.writable hcovers
  obtain ⟨hargument, hwritten⟩ := htells.told (n := 1) rfl hwrite
  exact ⟨hspare, t, args, t₁, u, u', ht, hcall, hname, harguments, hexec, t', hargument, hwritten⟩

/-- A program that runs one in its own directory, with a name that it has behind its instructions. -/
def farProgram : Bytes :=
  #[0xD0, 0x05, 0xD1, 0x05, 0xC1] ++ (Array.replicate 62 0x62).push 0

/-- A kernel with that program and the other in a directory. -/
def farKernel : Kernel Volume :=
  Kernel.new ((((Volume.empty.mkdir (Path.ofText "/tmp")).2.mkdir (Path.ofText "/d")).2.addFile
    (Path.ofText "/d/a") farProgram).2.addFile
    (Path.ofText "/d/bbbbbbbbbbbbbbbbbbbbbbbbbbbbbbbbbbbbbbbbbbbbbbbbbbbbbbbbbbbbbb") #[0xC0]).2 {}

/-- The next step calls for a program without arguments whose path has 65 bytes, and the process runs it. -/
def Turn.startsFarAway (t : Turn Volume) : Bool :=
  t.call?.any fun c => c.1 = .exec &&
    match readText c.2.a t.atCall with
    | .error .. => false
    | .ok name t₁ => match readArguments [c.2.b, c.2.c, c.2.d] t₁ with
      | .error .. => false
      | .ok arguments u => arguments = [] && match openProgram name u with
        | .ok (some (path, _)) _ => (Utf8.encode path.chars).length = 65 && (exec name arguments u matches .ok true _)
        | _ => false

/-- A program whose path has 65 bytes is told no more than 64 of them, wherever it asks to have them. -/
theorem long_path_is_cut :
    let calls := [.spawn "/d/a", .tick]
    ∃ t args name t₁ u u' path, .stepped t ∈ HostCall.courseAll farKernel calls ∧
      t.call? = some (.exec, args) ∧ Turn.readText args.a t.atCall = .ok name t₁ ∧
      Turn.readArguments [args.b, args.c, args.d] t₁ = .ok [] u ∧ Turn.exec name [] u = .ok true u' ∧
      u.Finds name path ∧ (Utf8.encode path.chars).length = 65 ∧
      ∀ buffer result t', Turn.argument 0 buffer u' = .ok result t' → result = some 64 := by
  intro calls
  have hspare : HostCall.allSpare farKernel calls := by decide +kernel
  obtain ⟨t, ht, hkind⟩ := HostCall.exists_stepped farKernel calls Turn.startsFarAway (by decide +kernel)
  simp only [Turn.startsFarAway, Option.any_eq_true, Bool.and_eq_true, decide_eq_true_eq] at hkind
  obtain ⟨⟨_, args⟩, hcall, rfl, hkind⟩ := hkind
  split at hkind <;> [cases hkind; skip]
  next name t₁ hname =>
  split at hkind <;> [cases hkind; skip]
  next arguments u harguments =>
  simp only [Bool.and_eq_true, decide_eq_true_eq] at hkind
  obtain ⟨rfl, hkind⟩ := hkind
  split at hkind <;> [skip; cases hkind]
  next path program u₁ hopened =>
  simp only [Bool.and_eq_true, decide_eq_true_eq] at hkind
  obtain ⟨hlength, hkind⟩ := hkind
  split at hkind <;> [skip; cases hkind]
  next u' hexec =>
  obtain ⟨-, path', hfinds, hholds, hnul⟩ := HostCall.holds_after_exchange hspare ht hcall hname harguments hexec
  obtain ⟨path'', program', s, hfinds', -, hopened', -⟩ := Turn.exec_true hexec
  cases hopened.symm.trans hopened'
  cases hfinds.unique hfinds'
  refine ⟨t, args, name, t₁, u, u', path, ht, hcall, hname, harguments, hexec, hfinds, hlength,
    fun buffer result t' htold => ?_⟩
  rw [hholds.argument_eq hnul rfl] at htold
  obtain ⟨-, -, hresult⟩ := bind_pure_ok.mp htold
  rw [← hresult, List.length_take, hlength]
  rfl

end CoopKernel
