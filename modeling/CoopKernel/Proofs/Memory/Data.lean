import CoopKernel.Proofs.Footprint
import CoopKernel.Proofs.Storage.Kept

/-!
# The data region in a volume

What a process reads from its data region is what it wrote there last, however the region grew in
between. The state block in front of the region is not touched by that.
-/

namespace CoopKernel

namespace AddressSpace

/-! ## Reading -/

/-- The byte at an index of the data region. -/
def dataByte? (s : AddressSpace Volume) (i : Nat) : Option UInt8 :=
  if i < s.dataLength.toNat then (s.store.behind? s.data).bind (·[Snapshot.blockSize + i]?) else none

theorem readFile_eq {s : AddressSpace Volume} {h : Handle} {content : Bytes}
    (hc : s.store.behind? h = some content) (offset count : Nat) :
    readFile h offset count s = .ok (content.slice offset count) s := by
  have hread : Storage.read s.store h offset count = (content.slice offset count, s.store) :=
    Volume.read_behind hc offset count
  simp only [readFile, hread]

theorem readData_eq {s : AddressSpace Volume} (hfile : (s.store.behind? s.data).isSome) (a : UInt16)
    (i : Nat) : readData a i s =
      match s.dataByte? i with
      | some b => .ok b s
      | none => .error (.unallocatedRead a) s := by
  obtain ⟨content, hcontent⟩ := Option.isSome_iff_exists.mp hfile
  unfold readData dataByte?
  rw [get_bind]
  by_cases hi : i < s.dataLength.toNat
  · have hslice := Bytes.getElem?_slice content (Snapshot.blockSize + i) 1 0
    rw [if_pos Nat.one_pos, Nat.add_zero] at hslice
    have hsize := Bytes.size_slice content (Snapshot.blockSize + i) 1
    unfold Bytes.room at hsize
    rw [if_neg (Nat.not_le.mpr hi), if_pos hi, hcontent, Option.bind_some]
    dsimp only
    rw [bind_of_ok (readFile_eq hcontent _ 1), ← hslice]
    split
    · next hone =>
      rw [Array.getElem?_eq_getElem (by omega)]
      rfl
    · next hone =>
      rw [Array.getElem?_eq_none (by omega)]
      rfl
  · rw [if_pos (Nat.not_lt.mp hi), if_neg hi]
    rfl

/-! ## Writing -/

/-- The backing file has room for a state block. -/
def HasBlock (s : AddressSpace Volume) : Prop :=
  ∃ content, s.store.behind? s.data = some content ∧ Snapshot.blockSize ≤ content.size

theorem HasBlock.file {s : AddressSpace Volume} (h : s.HasBlock) : (s.store.behind? s.data).isSome := by
  obtain ⟨content, hc, -⟩ := h
  exact Option.isSome_iff_exists.mpr ⟨content, hc⟩

/-- The data region is still in a file, and there is still room for a state block in front of it. -/
structure KeepsFile (s s' : AddressSpace Volume) : Prop where
  file : (s.store.behind? s.data).isSome → (s'.store.behind? s'.data).isSome
  block : s.HasBlock → s'.HasBlock

theorem KeepsFile.trans {s s₁ s₂ : AddressSpace Volume} (h₁ : KeepsFile s s₁) (h₂ : KeepsFile s₁ s₂) :
    KeepsFile s s₂ :=
  ⟨h₂.file ∘ h₁.file, h₂.block ∘ h₁.block⟩

/-- The bytes of the data region that could be read before can still be read, but for some, and the region is still in
its file. -/
structure Preserves (but : Nat → Prop) (s s' : AddressSpace Volume) : Prop extends KeepsFile s s' where
  data : s'.data = s.data
  bytes : ∀ {i b}, ¬but i → s.dataByte? i = some b → s'.dataByte? i = some b

/-- The handle and the length of the data region are the same, and only the file behind it changed, which
has still what was in it at the indices of the region but for some. -/
theorem Preserves.of_content {but : Nat → Prop} {s s' : AddressSpace Volume} (hdata : s'.data = s.data)
    (hlength : s.dataLength.toNat ≤ s'.dataLength.toNat)
    (hcontent : ∀ content, s.store.behind? s.data = some content →
      ∃ content', s'.store.behind? s.data = some content' ∧
        (Snapshot.blockSize ≤ content.size → Snapshot.blockSize ≤ content'.size) ∧
        ∀ i b, ¬but i → i < s.dataLength.toNat → content[Snapshot.blockSize + i]? = some b →
          content'[Snapshot.blockSize + i]? = some b) : Preserves but s s' where
  data := hdata
  bytes {i b} hi hb := by
    unfold dataByte? at hb ⊢
    rw [hdata]
    split at hb
    · next hlt =>
      obtain ⟨content, hc, hget⟩ := Option.bind_eq_some_iff.mp hb
      obtain ⟨content', hc', _, hkeep⟩ := hcontent content hc
      rw [if_pos (Nat.lt_of_lt_of_le hlt hlength), hc', Option.bind_some]
      exact hkeep i b hi hlt hget
    · cases hb
  file hs := by
    obtain ⟨content, hc⟩ := Option.isSome_iff_exists.mp hs
    obtain ⟨content', hc', -⟩ := hcontent content hc
    rw [hdata, hc']
    rfl
  block hs := by
    obtain ⟨content, hc, hsize⟩ := hs
    obtain ⟨content', hc', hsize', _⟩ := hcontent content hc
    exact ⟨content', by rw [hdata]; exact hc', hsize' hsize⟩

theorem Preserves.trans {but : Nat → Prop} {s s₁ s₂ : AddressSpace Volume}
    (h₁ : Preserves but s s₁) (h₂ : Preserves but s₁ s₂) : Preserves but s s₂ where
  toKeepsFile := h₁.toKeepsFile.trans h₂.toKeepsFile
  data := h₂.data.trans h₁.data
  bytes hi hb := h₂.bytes hi (h₁.bytes hi hb)

theorem Preserves.refl (but : Nat → Prop) (s : AddressSpace Volume) : Preserves but s s :=
  .of_content rfl (Nat.le_refl _) fun content hc => ⟨content, hc, id, fun _ _ _ _ => id⟩

theorem resizeData_preserves (but : Nat → Prop) (s : AddressSpace Volume) {length : Nat}
    (h : s.dataLength.toNat ≤ length) : Preserves but s (after (resizeData length) s) := by
  refine .of_content rfl (Nat.le_refl _) ?_
  intro content hc
  rcases s.store.behind?_resize s.dataPath (Snapshot.blockSize + length) s.data with
    hsame | ⟨_, _, hresized⟩
  · exact ⟨content, hsame.trans hc, id, fun _ _ _ _ => id⟩
  · refine ⟨content.resize (Snapshot.blockSize + length), ?_, ?_, ?_⟩
    · rw [hc] at hresized
      exact hresized
    · intro _
      rw [Bytes.size_resize]
      exact Nat.le_add_right _ _
    · intro i b _ hi hget
      rw [Bytes.getElem?_resize, if_pos (by omega), hget]
      rfl

/-- Writing to the backing file does not touch what is elsewhere. -/
theorem writeFile_preserves {but : Nat → Prop} (s : AddressSpace Volume) (offset : Nat)
    (bytes : Bytes) (h : ∀ i, ¬but i → i < s.dataLength.toNat → Snapshot.blockSize + i < offset ∨
      offset + bytes.size ≤ Snapshot.blockSize + i) :
    Preserves but s (after (writeFile s.data offset bytes) s) := by
  refine .of_content rfl (Nat.le_refl _) ?_
  intro content hc
  refine ⟨content.overwrite offset bytes.toList, (Volume.write_behind hc offset bytes).2, ?_,
    ?_⟩
  · intro hsize
    rw [Bytes.size_overwrite]
    exact hsize
  · intro i b hi hlt hget
    have hout := h i hi hlt
    rw [Bytes.getElem?_overwrite, Array.length_toList, if_neg (by omega)]
    exact hget

theorem firstThatFits_ensures (but : Nat → Prop) (s : AddressSpace Volume) (lengths : List Nat)
    (h : ∀ length ∈ lengths, s.dataLength.toNat ≤ length) :
    Ensures (fun s' => Preserves but s s' ∧ s'.dataLength = s.dataLength)
      (firstThatFits lengths : Access Volume (Option Nat))
      (fun found s' => (Preserves but s s' ∧ s'.dataLength = s.dataLength) ∧
        ∀ length, found = some length → length ∈ lengths) fun _ _ => True := by
  induction lengths with
  | nil => exact .pure fun s' hs' => ⟨hs', nofun⟩
  | cons length rest ih =>
    have hrest := ih fun n hn => h n (List.mem_cons_of_mem length hn)
    have hresize : Ensures (fun s' => Preserves but s s' ∧ s'.dataLength = s.dataLength)
        (resizeData length : Access Volume Bool)
        (fun _ s' => Preserves but s s' ∧ s'.dataLength = s.dataLength) fun _ _ => True := by
      rintro s' ⟨hs', hlength⟩
      refine ⟨hs'.trans (resizeData_preserves but s' ?_), hlength⟩
      rw [hlength]
      exact h length List.mem_cons_self
    refine .bind hresize fun fits => ?_
    cases fits with
    | true => exact .pure fun s' hs' => ⟨hs', fun n hn => Option.some.inj hn ▸ List.mem_cons_self⟩
    | false =>
      exact hrest.mono (fun _ => id) (fun _ _ hr => ⟨hr.1, fun n hn =>
        List.mem_cons_of_mem length (hr.2 n hn)⟩) fun _ _ => id

/-- Growing keeps what is there and makes the region contain the index. -/
theorem grow_ensures (but : Nat → Prop) (s : AddressSpace Volume) (a : UInt16) (i : Nat)
    (h : s.dataLength.toNat ≤ i) :
    Ensures (· = s) (grow a i : Access Volume Unit)
      (fun _ s' => Preserves but s s' ∧ i < s'.dataLength.toNat) fun _ _ => True := by
  unfold grow
  refine .get_bind_eq fun s₀ he => ?_
  subst he
  dsimp only
  split
  · exact .throw_bind fun _ _ => trivial
  · next hlimit =>
    have hlengths : ∀ length ∈ candidates s₀.limit i, i < length ∧ length < 65536 := by
      intro length hm
      obtain ⟨extra, _, rfl⟩ := List.mem_map.mp hm
      have hlt := s₀.limit.toNat_lt
      omega
    refine .bind (Q := fun found s' => (Preserves but s₀ s' ∧ s'.dataLength = s₀.dataLength) ∧
      ∀ length, found = some length → length ∈ candidates s₀.limit i) ?_ fun found => ?_
    · refine (firstThatFits_ensures but s₀ _ ?_).mono
        (fun s' he => by rw [he]; exact ⟨.refl but s₀, rfl⟩) (fun _ _ => id) fun _ _ => id
      intro length hm
      exact Nat.le_trans h (Nat.le_of_lt (hlengths length hm).1)
    · cases found with
      | none => exact .throw fun _ _ => trivial
      | some length =>
        have hset : Ensures (fun s' => Preserves but s₀ s' ∧ s'.dataLength = s₀.dataLength ∧
            length ∈ candidates s₀.limit i)
            (modify fun s' : AddressSpace Volume => { s' with dataLength := UInt16.ofNat length } :
              Access Volume PUnit)
            (fun _ s' => Preserves but s₀ s' ∧ i < s'.dataLength.toNat) fun _ _ => True := by
          refine .modify fun s' hs' => ?_
          obtain ⟨hlow, hhigh⟩ := hlengths length hs'.2.2
          have hnat : (UInt16.ofNat length).toNat = length := by
            rw [UInt16.toNat_ofNat', Nat.mod_eq_of_lt hhigh]
          refine ⟨hs'.1.trans (.of_content rfl ?_ fun content hc =>
            ⟨content, hc, id, fun _ _ _ _ => id⟩), ?_⟩
          · rw [hs'.2.1, hnat]
            exact Nat.le_trans h (Nat.le_of_lt hlow)
          · rw [hnat]
            exact hlow
        refine .bind (Q := fun _ s' => Preserves but s₀ s' ∧ s'.dataLength = s₀.dataLength ∧
          length ∈ candidates s₀.limit i) ?_ fun fill => ?_
        · refine .modifyGet fun s' hs' => ⟨?_, hs'.1.2, hs'.2 length rfl⟩
          exact hs'.1.1.trans (.of_content rfl (Nat.le_refl _) fun content hc =>
            ⟨content, hc, id, fun _ _ _ _ => id⟩)
        · cases fill with
          | none => exact hset
          | some fill =>
            refine .bind (Q := fun _ s' => Preserves but s₀ s' ∧ s'.dataLength = s₀.dataLength ∧
              length ∈ candidates s₀.limit i) ?_ fun _ => hset
            rintro s' ⟨hs', hlength, hm⟩
            rw [← hs'.data]
            refine ⟨hs'.trans (writeFile_preserves s' _ fill fun j _ hj => .inl ?_), hlength, hm⟩
            rw [hlength] at hj
            omega

/-- A byte that was written to the backing file is in the data region. -/
theorem writeFile_dataByte {s : AddressSpace Volume} {content : Bytes} {i : Nat}
    (hc : s.store.behind? s.data = some content) (hi : i < s.dataLength.toNat) (b : UInt8)
    (hroom : content.room (Snapshot.blockSize + i) 1 = 1) :
    (after (writeFile s.data (Snapshot.blockSize + i) #[b]) s).dataByte? i = some b := by
  have hwritten : (after (writeFile s.data (Snapshot.blockSize + i) #[b]) s).store.behind? s.data =
      some (content.overwrite (Snapshot.blockSize + i) [b]) :=
    (Volume.write_behind hc _ #[b]).2
  have hdata : (after (writeFile s.data (Snapshot.blockSize + i) #[b]) s).data = s.data := rfl
  have hlength :
      (after (writeFile s.data (Snapshot.blockSize + i) #[b]) s).dataLength = s.dataLength := rfl
  unfold dataByte?
  unfold Bytes.room at hroom
  rw [hdata, hlength, if_pos hi, hwritten, Option.bind_some, Bytes.getElem?_overwrite,
    List.length_singleton, if_pos (by omega), Nat.sub_self, List.getElem?_cons_zero]

/-- A byte that was written is there, and the others are as they were. -/
theorem writeData_ensures (s : AddressSpace Volume) (a : UInt16) (i : Nat) (b : UInt8)
    (hfile : (s.store.behind? s.data).isSome) :
    Ensures (· = s) (writeData a i b : Access Volume Unit)
      (fun _ s' => Preserves (· = i) s s' ∧ s'.dataByte? i = some b) fun _ _ => True := by
  have hput : Ensures (fun s' => Preserves (· = i) s s' ∧ i < s'.dataLength.toNat) (do
      let count ← writeFile s.data (Snapshot.blockSize + i) #[b]
      if count ≠ 1 then throw .storage : Access Volume Unit)
      (fun _ s' => Preserves (· = i) s s' ∧ s'.dataByte? i = some b) fun _ _ => True := by
    refine .bind (Q := fun count s' => Preserves (· = i) s s' ∧
      (count = 1 → s'.dataByte? i = some b)) ?_ fun count => ?_
    · rintro s' ⟨hs', hi⟩
      obtain ⟨content, hc⟩ := Option.isSome_iff_exists.mp (hs'.file hfile)
      rw [← hs'.data]
      refine ⟨hs'.trans (writeFile_preserves s' _ _ ?_), ?_⟩
      · intro j hj _
        rw [List.size_toArray, List.length_singleton]
        omega
      · intro hcount
        have hroom : (Storage.write s'.store s'.data (Snapshot.blockSize + i) #[b]).1 =
            content.room (Snapshot.blockSize + i) 1 := (Volume.write_behind hc _ #[b]).1
        exact writeFile_dataByte hc hi b (hroom.symm.trans hcount)
    · split
      · exact .throw fun _ _ => trivial
      · next hcount => exact .pure fun s' hs' => ⟨hs'.1, hs'.2 (Decidable.not_not.mp hcount)⟩
  unfold writeData
  refine .get_bind_eq fun s₀ he => ?_
  subst he
  dsimp only
  split
  · next hi => exact .bind (grow_ensures (· = i) s₀ a i hi) fun _ => hput
  · next hi =>
    refine hput.mono ?_ (fun _ _ => id) fun _ _ => id
    intro s' he
    rw [he]
    exact ⟨.refl _ _, Nat.not_le.mp hi⟩

/-! ## Words -/

/-- The byte at an address of the data region. -/
def byte? (s : AddressSpace Volume) (a : UInt16) : Option UInt8 :=
  if a < dataStart then none else s.dataByte? (a.toNat - dataStart.toNat)

/-- The word at an address of the data region. -/
def word? (s : AddressSpace Volume) (a : UInt16) : Option UInt16 :=
  (s.byte? a).bind fun high => (s.byte? (a + 1)).map (Word.ofBytes high)

/-- Words are made of the bytes of the data region. -/
theorem word?_congr {s s' : AddressSpace Volume} (h : ∀ i, s'.dataByte? i = s.dataByte? i) (a : UInt16) :
    s'.word? a = s.word? a := by
  simp only [word?, byte?, h]

/-- A word is in a file. -/
theorem file_of_word {s : AddressSpace Volume} {a w : UInt16} (h : s.word? a = some w) :
    (s.store.behind? s.data).isSome := by
  obtain ⟨high, hhigh, _⟩ := Option.bind_eq_some_iff.mp h
  unfold byte? dataByte? at hhigh
  split at hhigh
  · cases hhigh
  · split at hhigh
    · obtain ⟨content, hc, _⟩ := Option.bind_eq_some_iff.mp hhigh
      exact Option.isSome_iff_exists.mpr ⟨content, hc⟩
    · cases hhigh

theorem read_of_byte {s : AddressSpace Volume} (hfile : (s.store.behind? s.data).isSome) {a : UInt16}
    {b : UInt8} (h : s.byte? a = some b) : read a s = .ok b s := by
  unfold byte? at h
  split at h
  · cases h
  · next ha =>
    unfold read
    rw [if_neg ha, readData_eq hfile, h]

theorem readWord_of_word {s : AddressSpace Volume} (hfile : (s.store.behind? s.data).isSome)
    {a w : UInt16} (h : s.word? a = some w) : readWord a s = .ok w s := by
  obtain ⟨high, hhigh, hlow⟩ := Option.bind_eq_some_iff.mp h
  obtain ⟨low, hlow, hw⟩ := Option.map_eq_some_iff.mp hlow
  unfold readWord
  rw [bind_of_ok (read_of_byte hfile hhigh), bind_of_ok (read_of_byte hfile hlow), hw]
  rfl

/-- What was written at an address is there, and the bytes at other addresses are as they were. -/
theorem write_ensures (s : AddressSpace Volume) (a : UInt16) (b : UInt8)
    (hfile : (s.store.behind? s.data).isSome) :
    Ensures (· = s) (write a b : Access Volume Unit)
      (fun _ s' => KeepsFile s s' ∧ s'.byte? a = some b ∧
        ∀ a' b', a' ≠ a → s.byte? a' = some b' → s'.byte? a' = some b') fun _ _ => True := by
  unfold write
  split
  · exact .throw fun _ _ => trivial
  · next ha =>
    refine (writeData_ensures s a _ b hfile).mono (fun _ => id) ?_ fun _ _ => id
    intro _ s' hs'
    refine ⟨hs'.1.toKeepsFile, ?_, ?_⟩
    · rw [byte?, if_neg ha]
      exact hs'.2
    · intro a' b' hne hb'
      unfold byte? at hb' ⊢
      split at hb'
      · cases hb'
      · next ha' =>
        rw [if_neg ha']
        refine hs'.1.bytes (fun he => hne (UInt16.toNat_inj.mp ?_)) hb'
        rw [UInt16.lt_iff_toNat_lt] at ha ha'
        omega

/-- The address so many bytes further on is the next but one fewer. -/
theorem add_ofNat_succ (a : UInt16) (i : Nat) : a + UInt16.ofNat (i + 1) = a + 1 + UInt16.ofNat i := by
  refine UInt16.toNat_inj.mp ?_
  have hone : (1 : UInt16).toNat = 1 := rfl
  simp only [UInt16.toNat_add, UInt16.toNat_ofNat', hone]
  omega

/-- An address does not come again in less than all addresses. -/
theorem ne_add_ofNat_succ (a : UInt16) {i : Nat} (hi : i + 1 < 0x10000) : a ≠ a + UInt16.ofNat (i + 1) := by
  intro he
  have hnat := congrArg UInt16.toNat he
  simp only [UInt16.toNat_add, UInt16.toNat_ofNat'] at hnat
  have hlt := a.toNat_lt
  omega

/-- Bytes that were written are there, and the bytes at other addresses are as they were. -/
theorem writeBytes_ensures (s : AddressSpace Volume) (a : UInt16) (bytes : List UInt8)
    (hshort : bytes.length ≤ 0x10000) (hfile : (s.store.behind? s.data).isSome) :
    Ensures (· = s) (writeBytes a bytes : Access Volume Unit)
      (fun _ s' => KeepsFile s s' ∧
        (∀ i b, bytes[i]? = some b → s'.byte? (a + UInt16.ofNat i) = some b) ∧
        ∀ a' b', (∀ i < bytes.length, a' ≠ a + UInt16.ofNat i) → s.byte? a' = some b' →
          s'.byte? a' = some b') fun _ _ => True := by
  induction bytes generalizing s a with
  | nil => exact .pure fun s' he => ⟨he ▸ ⟨id, id⟩, nofun, fun _ _ _ hb' => he ▸ hb'⟩
  | cons b bytes ih =>
    rw [List.length_cons] at hshort
    have hzero : a + UInt16.ofNat 0 = a := UInt16.add_zero a
    unfold writeBytes
    refine .bind (write_ensures s a b hfile) fun _ => ?_
    rintro s₁ ⟨hkept, hbyte, hkeep⟩
    refine ((ih s₁ (a + 1) (by omega) (hkept.file hfile)).mono (fun _ => id) ?_ fun _ _ => id) s₁ rfl
    rintro _ s₂ ⟨hkept₂, hbytes, hkeep₂⟩
    refine ⟨hkept.trans hkept₂, fun i b' hb' => ?_, fun a' b' hne hb' => ?_⟩
    · cases i with
      | zero =>
        cases hb'
        rw [hzero]
        refine hkeep₂ a _ (fun i hi => ?_) hbyte
        rw [← add_ofNat_succ]
        exact ne_add_ofNat_succ a (by omega)
      | succ i =>
        rw [add_ofNat_succ]
        exact hbytes i b' hb'
    · refine hkeep₂ a' b' (fun i hi => ?_) (hkeep a' b' ?_ hb')
      · rw [← add_ofNat_succ]
        exact hne (i + 1) (Nat.succ_lt_succ hi)
      · rw [← hzero]
        exact hne 0 (Nat.succ_pos _)

/-- A word that was written is there. -/
theorem writeWord_ensures (s : AddressSpace Volume) (a w : UInt16) (hfile : (s.store.behind? s.data).isSome) :
    Ensures (· = s) (writeWord a w : Access Volume Unit)
      (fun _ s' => KeepsFile s s' ∧ s'.word? a = some w) fun _ _ => True := by
  refine (writeBytes_ensures s a (Word.toBytes w) (show 2 ≤ 0x10000 by decide) hfile).mono (fun _ => id) ?_ fun _ _ => id
  rintro _ s' ⟨hkept, hbytes, -⟩
  have hhigh := hbytes 0 _ rfl
  rw [show a + UInt16.ofNat 0 = a from UInt16.add_zero a] at hhigh
  have hlow := hbytes 1 _ rfl
  refine ⟨hkept, ?_⟩
  rw [word?, hhigh, Option.bind_some]
  exact congrArg (Option.map _) hlow |>.trans (congrArg some (Word.ofBytes_high_low w))

/-! ## Reading instructions -/

/-- The data region and its backing file are the same. -/
structure SameData (s s' : AddressSpace Volume) : Prop where
  data : s'.data = s.data
  length : s'.dataLength = s.dataLength
  content : s'.store.behind? s'.data = s.store.behind? s.data

instance : IsPreorder (AddressSpace Volume) SameData where
  refl _ := ⟨rfl, rfl, rfl⟩
  trans _ _ _ h₁ h₂ :=
    ⟨h₂.data.trans h₁.data, h₂.length.trans h₁.length, h₂.content.trans h₁.content⟩

theorem SameData.word? {s s' : AddressSpace Volume} (h : SameData s s') (a : UInt16) :
    s'.word? a = s.word? a :=
  word?_congr (fun i => by simp only [dataByte?, h.length, h.content]) a

theorem fetch_sameData (a : UInt16) : Keeps SameData (fetch a : Access Volume Instr) :=
  fetch_keeps (fun h offset count s => ⟨rfl, rfl, s.store.behind?_read h offset count _⟩)
    (fun _ _ => ⟨rfl, rfl, rfl⟩) a

end AddressSpace

end CoopKernel
