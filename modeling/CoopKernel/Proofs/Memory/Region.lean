import CoopKernel.Proofs.Memory.Data

/-!
# The data region as an array of bytes

A backing file that is as long as the state block and the data region together stays so, whatever is
done to memory. What an access does to the region is then told by the bytes that it wrote: a byte that
was not written is what it was, or comes from the filler if the region grew over it. Nothing else in the
volume changes.
-/

namespace CoopKernel

namespace Volume

/-- The same handles are open for the same paths, and nothing changed but what is at one path. -/
structure OnlyAt (p : Path) (v w : Volume) : Prop where
  handles : w.handles = v.handles
  nodes : ∀ q, q ≠ p → w.node? q = v.node? q

instance (p : Path) : IsPreorder Volume (OnlyAt p) where
  refl _ := ⟨rfl, fun _ _ => rfl⟩
  trans _ _ _ h₁ h₂ :=
    ⟨h₂.handles.trans h₁.handles, fun q hq => (h₂.nodes q hq).trans (h₁.nodes q hq)⟩

theorem OnlyAt.pathOf? {p : Path} {v w : Volume} (h : OnlyAt p v w) (g : Handle) :
    w.pathOf? g = v.pathOf? g := by
  simp only [Volume.pathOf?, h.handles]

theorem put_onlyAt (v : Volume) (p : Path) (node : Node) : OnlyAt p v (v.put p node) := by
  refine ⟨rfl, ?_⟩
  intro q hq
  rw [node?_put, if_neg (Ne.symm hq)]

theorem read_onlyAt (v : Volume) (h : Handle) (offset count : Nat) (p : Path) :
    OnlyAt p v (v.read h offset count).2 := by
  unfold read
  split <;> exact ⟨rfl, fun _ _ => rfl⟩

theorem write_onlyAt {v : Volume} {h : Handle} {p : Path} (hp : v.pathOf? h = some p) (offset : Nat)
    (bytes : Bytes) : OnlyAt p v (v.write h offset bytes).2 := by
  simp only [write, hp]
  split
  · exact ⟨rfl, fun q hq => node?_overwrite_of_ne v offset bytes (Ne.symm hq)⟩
  · exact ⟨rfl, fun _ _ => rfl⟩
  · exact refl_of (OnlyAt p) v
  · exact refl_of (OnlyAt p) v

theorem resize_onlyAt (v : Volume) (p : Path) (size : Nat) : OnlyAt p v (v.resize p size).2 := by
  have hcount : OnlyAt p v { v with resizeCalls := v.resizeCalls + 1 } := ⟨rfl, fun _ _ => rfl⟩
  rcases v.resize_cases p size with hr | ⟨content, _, hr⟩
  · rw [hr]
    exact hcount
  · rw [hr]
    exact trans_of (OnlyAt p) hcount (put_onlyAt _ p _)

theorem create_onlyAt (v : Volume) (p : Path) (size : Nat) : OnlyAt p v (v.create p size).2 := by
  rcases v.create_cases p size with hc | ⟨_, _, hc⟩
  · rw [hc]
    exact refl_of (OnlyAt p) v
  · rw [hc]
    exact put_onlyAt v p _

theorem delete_onlyAt (v : Volume) (p : Path) : OnlyAt p v (v.delete p).2 := by
  rcases v.delete_cases p with hd | ⟨_, _, _, _, hd⟩
  · rw [hd]
    exact refl_of (OnlyAt p) v
  · rw [hd]
    refine ⟨rfl, ?_⟩
    intro q hq
    rw [node?, Index.find?_erase, if_neg (Ne.symm hq)]
    rfl

/-- The byte at a position of the file at a path. -/
def byteAt? (v : Volume) (p : Path) (i : Nat) : Option UInt8 :=
  (v.content? p).bind (·[i]?)

end Volume

namespace AddressSpace

/-- The backing file is open under its path, and holds a state block and the data region and nothing
else. -/
structure Fits (s : AddressSpace Volume) : Prop where
  path : s.store.pathOf? s.data = some s.dataPath
  size : s.store.length? s.dataPath = some (Snapshot.blockSize + s.dataLength.toNat)

/-- The address is one of the data region. -/
def Covers (s : AddressSpace Volume) (a : UInt16) : Prop :=
  dataStart ≤ a ∧ a.toNat - dataStart.toNat < s.dataLength.toNat

instance (s : AddressSpace Volume) (a : UInt16) : Decidable (s.Covers a) :=
  inferInstanceAs (Decidable (_ ∧ _))

variable {s s' s'' : AddressSpace Volume}

theorem Fits.content (hs : s.Fits) : ∃ content, s.store.content? s.dataPath = some content ∧
    s.store.behind? s.data = some content ∧
      content.size = Snapshot.blockSize + s.dataLength.toNat := by
  obtain ⟨content, hc, hsize⟩ := Option.map_eq_some_iff.mp hs.size
  refine ⟨content, hc, ?_, hsize⟩
  rw [Volume.behind?, hs.path]
  exact hc

theorem Fits.dataByte? (hs : s.Fits) {i : Nat} (hi : i < s.dataLength.toNat) :
    s.dataByte? i = s.store.byteAt? s.dataPath (Snapshot.blockSize + i) := by
  rw [AddressSpace.dataByte?, if_pos hi, Volume.behind?, hs.path]
  rfl

theorem byte?_of_covers {a : UInt16} (ha : s.Covers a) :
    s.byte? a = s.dataByte? (a.toNat - dataStart.toNat) := by
  rw [byte?, if_neg (UInt16.not_lt.mpr ha.1)]

theorem byte?_of_not_covers {a : UInt16} (ha : ¬s.Covers a) : s.byte? a = none := by
  unfold byte? dataByte?
  split
  · rfl
  · next hlow =>
    rw [if_neg]
    exact fun hlt => ha ⟨UInt16.not_lt.mp hlow, hlt⟩

/-! ## What an access changes -/

/-- Only the data region, the filler and the window differ, and what is not kept in files. -/
structure Apart (s s' : AddressSpace Volume) : Prop where
  program : s'.program = s.program
  data : s'.data = s.data
  dataPath : s'.dataPath = s.dataPath
  limit : s'.limit = s.limit
  store : s.store.OnlyAt s.dataPath s'.store
  block : ∀ i < Snapshot.blockSize,
    s'.store.byteAt? s.dataPath i = s.store.byteAt? s.dataPath i

instance : IsPreorder (AddressSpace Volume) Apart where
  refl _ := ⟨rfl, rfl, rfl, rfl, refl_of _ _, fun _ _ => rfl⟩
  trans s s' s'' h₁ h₂ := by
    have hstore := h₂.store
    have hblock := h₂.block
    rw [h₁.dataPath] at hstore hblock
    exact ⟨h₂.program.trans h₁.program, h₂.data.trans h₁.data, h₂.dataPath.trans h₁.dataPath,
      h₂.limit.trans h₁.limit, trans_of _ h₁.store hstore,
      fun i hi => (hblock i hi).trans (h₁.block i hi)⟩

/-- The byte that was written at an address last. -/
def lastWritten (written : List (UInt16 × UInt8)) (a : UInt16) : Option UInt8 :=
  written.reverse.lookup a

theorem lastWritten_append (w₁ w₂ : List (UInt16 × UInt8)) (a : UInt16) :
    lastWritten (w₁ ++ w₂) a = (lastWritten w₂ a).or (lastWritten w₁ a) := by
  rw [lastWritten, List.reverse_append, List.lookup_append]
  rfl

theorem lastWritten_singleton (a x : UInt16) (b : UInt8) :
    lastWritten [(a, b)] x = if x = a then some b else none := by
  rw [lastWritten, List.reverse_singleton, List.lookup_cons]
  split
  · next h => rw [if_pos (eq_of_beq h)]
  · next h => rw [if_neg fun he => by simp [he] at h, List.lookup_nil]

/-- What was written at an address was written. -/
theorem mem_of_lastWritten {written : List (UInt16 × UInt8)} {a : UInt16} {b : UInt8}
    (h : lastWritten written a = some b) : (a, b) ∈ written := by
  obtain ⟨before, behind, hw, _⟩ := List.lookup_eq_some_iff.mp h
  rw [← List.mem_reverse, hw]
  exact List.mem_append_right before List.mem_cons_self

/-- The second address space comes from the first by writing the given bytes in the data region, in
this order, and by growing it. -/
structure Evolves (written : List (UInt16 × UInt8)) (s s' : AddressSpace Volume) : Prop where
  fits : s'.Fits
  apart : Apart s s'
  length : s.dataLength.toNat ≤ s'.dataLength.toNat
  covered : ∀ entry ∈ written, s'.Covers entry.1
  kept : ∀ a, s.Covers a → s'.byte? a = (lastWritten written a).or (s.byte? a)
  fresh : ∀ v, s.filler = .known v → s'.filler = .known v ∧
    ∀ a, s'.Covers a → ¬s.Covers a → s'.byte? a = (lastWritten written a).or (some v)

theorem Evolves.covers {written : List (UInt16 × UInt8)} (h : Evolves written s s') {a : UInt16}
    (ha : s.Covers a) : s'.Covers a :=
  ⟨ha.1, Nat.lt_of_lt_of_le ha.2 h.length⟩

theorem Evolves.refl (hs : s.Fits) : Evolves [] s s :=
  ⟨hs, refl_of _ _, Nat.le_refl _, nofun, fun _ _ => rfl,
    fun _ hv => ⟨hv, fun _ ha hn => absurd ha hn⟩⟩

theorem Evolves.trans {w₁ w₂ : List (UInt16 × UInt8)} (h₁ : Evolves w₁ s s')
    (h₂ : Evolves w₂ s' s'') : Evolves (w₁ ++ w₂) s s'' where
  fits := h₂.fits
  apart := trans_of _ h₁.apart h₂.apart
  length := Nat.le_trans h₁.length h₂.length
  covered entry hm := by
    rcases List.mem_append.mp hm with hm | hm
    · exact h₂.covers (h₁.covered entry hm)
    · exact h₂.covered entry hm
  kept a ha := by
    rw [h₂.kept a (h₁.covers ha), h₁.kept a ha, lastWritten_append, Option.or_assoc]
  fresh v hv := by
    obtain ⟨hfill, hfresh₁⟩ := h₁.fresh v hv
    obtain ⟨hfill', hfresh₂⟩ := h₂.fresh v hfill
    refine ⟨hfill', ?_⟩
    intro a ha hn
    rw [lastWritten_append, Option.or_assoc]
    by_cases hmid : s'.Covers a
    · rw [h₂.kept a hmid, hfresh₁ a hmid hn]
    · have hnone : lastWritten w₁ a = none := by
        cases hw : lastWritten w₁ a with
        | none => rfl
        | some b => exact absurd (h₁.covered _ (mem_of_lastWritten hw)) hmid
      rw [hfresh₂ a ha hmid, hnone]
      rfl

/-! ## Reading -/

/-- Only the window differs, and what is not kept in files. -/
structure Untouched (s s' : AddressSpace Volume) : Prop where
  rest : s' = { s with store := s'.store, window := s'.window }
  handles : s'.store.handles = s.store.handles
  nodes : s'.store.nodes = s.store.nodes

instance : IsPreorder (AddressSpace Volume) Untouched where
  refl _ := ⟨rfl, rfl, rfl⟩
  trans s s' s'' h₁ h₂ :=
    ⟨by rw [h₂.rest, h₁.rest], h₂.handles.trans h₁.handles, h₂.nodes.trans h₁.nodes⟩

theorem Untouched.evolves (h : Untouched s s') (hs : s.Fits) : Evolves [] s s' := by
  obtain ⟨hrest, hhandles, hnodes⟩ := h
  have hcontent : s'.store.content? = s.store.content? := by
    funext p
    simp only [Volume.content?, Volume.node?, hnodes]
  have hpath : s'.store.pathOf? = s.store.pathOf? := by
    funext g
    simp only [Volume.pathOf?, hhandles]
  have hlength : s'.dataLength = s.dataLength := by rw [hrest]
  have hbyte : ∀ a, s'.byte? a = s.byte? a := by
    intro a
    have hdata : s'.data = s.data := by rw [hrest]
    simp only [byte?, dataByte?, Volume.behind?, hdata, hlength, hpath, hcontent]
  refine ⟨⟨?_, ?_⟩, ⟨?_, ?_, ?_, ?_, ⟨hhandles, ?_⟩, ?_⟩, ?_,
    fun _ h => absurd h List.not_mem_nil, ?_, ?_⟩
  · rw [hpath, hrest]
    exact hs.path
  · rw [Volume.length?, hcontent, hrest]
    exact hs.size
  · rw [hrest]
  · rw [hrest]
  · rw [hrest]
  · rw [hrest]
  · intro q _
    simp only [Volume.node?, hnodes]
  · intro i _
    simp only [Volume.byteAt?, hcontent]
  · rw [hlength]
  · intro a _
    exact hbyte a
  · intro v hv
    refine ⟨by rw [hrest]; exact hv, ?_⟩
    intro a ha hn
    exact absurd ⟨ha.1, hlength ▸ ha.2⟩ hn

theorem readFile_untouched (h : Handle) (offset count : Nat) :
    Keeps Untouched (readFile h offset count : Access Volume Bytes) := by
  intro s
  have hread : ((s.store.read h offset count).2.handles = s.store.handles) ∧
      (s.store.read h offset count).2.nodes = s.store.nodes := by
    unfold Volume.read
    split <;> exact ⟨rfl, rfl⟩
  exact ⟨rfl, hread.1, hread.2⟩

theorem read_untouched (a : UInt16) : Keeps Untouched (read a : Access Volume UInt8) :=
  read_keeps readFile_untouched (fun _ _ => ⟨rfl, rfl, rfl⟩) a

theorem readText_untouched (a : UInt16) (count : Nat) :
    Keeps Untouched (readText a count : Access Volume (List UInt8)) := by
  induction count generalizing a with
  | zero => exact .pure _
  | succ count ih =>
    refine .bind (read_untouched a) fun b => ?_
    split
    · exact .pure _
    · exact .bind (ih (a + 1)) fun _ => .pure _

/-! ## Growing -/

/-- The backing file was resized for a data region of the given length. -/
structure Resized (length : Nat) (s s' : AddressSpace Volume) : Prop where
  rest : s' = { s with store := s'.store, window := s'.window }
  store : s.store.OnlyAt s.dataPath s'.store
  content : s'.store.content? s.dataPath =
    (s.store.content? s.dataPath).map (·.resize (Snapshot.blockSize + length))

theorem Untouched.resized {length : Nat} (h : Untouched s s') (hr : Resized length s' s'') :
    Resized length s s'' := by
  obtain ⟨hrest, hstore, hcontent⟩ := hr
  have hpath : s'.dataPath = s.dataPath := by rw [h.rest]
  have hsame : s'.store.content? s.dataPath = s.store.content? s.dataPath := by
    simp only [Volume.content?, Volume.node?, h.nodes]
  rw [hpath] at hstore hcontent
  have honly : s.store.OnlyAt s.dataPath s'.store :=
    ⟨h.handles, fun q _ => by simp only [Volume.node?, h.nodes]⟩
  exact ⟨by rw [hrest, h.rest], trans_of _ honly hstore, by rw [hcontent, hsame]⟩

theorem resizeData_cases (s : AddressSpace Volume) (length : Nat) :
    (∃ s', resizeData length s = .ok false s' ∧ Untouched s s') ∨
      ∃ s', resizeData length s = .ok true s' ∧ Resized length s s' := by
  have hresize : resizeData length s = .ok
      (s.store.resize s.dataPath (Snapshot.blockSize + length)).1
      { s with store := (s.store.resize s.dataPath (Snapshot.blockSize + length)).2 } := rfl
  have honly := s.store.resize_onlyAt s.dataPath (Snapshot.blockSize + length)
  rcases s.store.resize_cases s.dataPath (Snapshot.blockSize + length) with hr | ⟨content, hc, hr⟩
  · rw [hr] at hresize
    exact .inl ⟨_, hresize, rfl, rfl, rfl⟩
  · rw [hr] at hresize honly
    refine .inr ⟨_, hresize, rfl, honly, ?_⟩
    rw [Volume.content?_put, if_pos rfl, hc]
    rfl

/-- The first length that the backing file can be resized for is one of those that were tried. -/
theorem firstThatFits_cases (s : AddressSpace Volume) (lengths : List Nat) :
    (∃ s', firstThatFits lengths s = .ok none s' ∧ Untouched s s') ∨
      ∃ length ∈ lengths, ∃ s', firstThatFits lengths s = .ok (some length) s' ∧
        Resized length s s' := by
  induction lengths generalizing s with
  | nil => exact .inl ⟨s, rfl, refl_of _ s⟩
  | cons length rest ih =>
    unfold firstThatFits
    rcases resizeData_cases s length with ⟨s₁, hr, hsame⟩ | ⟨s₁, hr, hresized⟩
    · rw [bind_of_ok hr]
      rcases ih s₁ with ⟨s₂, hf, hsame₂⟩ | ⟨n, hn, s₂, hf, hresized⟩
      · exact .inl ⟨s₂, hf, trans_of _ hsame hsame₂⟩
      · exact .inr ⟨n, List.mem_cons_of_mem length hn, s₂, hf, hsame.resized hresized⟩
    · rw [bind_of_ok hr]
      exact .inr ⟨length, List.mem_cons_self, s₁, rfl, hresized⟩

/-- The lengths that are tried keep within the limit. -/
theorem le_limit_of_mem_candidates {limit : UInt16} {index length : Nat}
    (h : length ∈ candidates limit index) : length ≤ limit.toNat := by
  obtain ⟨extra, _, rfl⟩ := List.mem_map.mp h
  exact Nat.min_le_right _ _

/-- What is new of the data region was filled by writing to its file, or was left as it is. -/
structure Filled (s s' : AddressSpace Volume) : Prop where
  rest : s' = { s with store := s'.store, filler := s'.filler }
  store : s'.store = s.store ∨ ∃ i fill, s'.store = (s.store.write s.data (Snapshot.blockSize + i) fill).2

/-- A data region grows, if at all, by having its file resized for a length within the limit and what is new
filled. -/
theorem after_grow (s : AddressSpace Volume) (a : UInt16) (i : Nat) :
    Untouched s (after (grow a i) s) ∨
      ∃ length ≤ s.limit.toNat, ∃ s₁ s₂, firstThatFits (candidates s.limit i) s = .ok (some length) s₁ ∧
        Resized length s s₁ ∧ Filled s₁ s₂ ∧
          after (grow a i) s = { s₂ with dataLength := UInt16.ofNat length } := by
  unfold grow
  rw [after, get_bind, ← after]
  split
  · exact .inl (refl_of _ s)
  · dsimp only
    rcases firstThatFits_cases s (candidates s.limit i) with ⟨s₁, hf, hsame⟩ |
      ⟨length, hm, s₁, hf, hresized⟩
    · rw [after_bind_ok hf]
      exact .inl hsame
    · have hdraw : drawFill (length - s.dataLength.toNat) s₁ =
        .ok (s₁.filler.fill (length - s.dataLength.toNat)).1
          { s₁ with filler := (s₁.filler.fill (length - s.dataLength.toNat)).2 } := rfl
      have hdata : s₁.data = s.data := by rw [hresized.rest]
      rw [after_bind_ok hf]
      dsimp only
      rw [after_bind_ok hdraw]
      refine .inr ⟨length, le_limit_of_mem_candidates hm, s₁, ?_⟩
      cases (s₁.filler.fill (length - s.dataLength.toNat)).1 with
      | none =>
        exact ⟨{ s₁ with filler := (s₁.filler.fill (length - s.dataLength.toNat)).2 }, hf, hresized,
          ⟨rfl, .inl rfl⟩, rfl⟩
      | some fill =>
        rw [← hdata]
        exact ⟨{ s₁ with
          store := (s₁.store.write s₁.data (Snapshot.blockSize + s.dataLength.toNat) fill).2
          filler := (s₁.filler.fill (length - s.dataLength.toNat)).2 }, hf, hresized,
          ⟨rfl, .inr ⟨_, fill, rfl⟩⟩, rfl⟩

/-- What a file holds after it was extended and then overwritten from its old end on, if need be. -/
def extended (content : Bytes) (size : Nat) : Option Bytes → Bytes
  | none => content.resize size
  | some fill => (content.resize size).overwrite content.size fill.toList

@[simp] theorem size_extended (content : Bytes) (size : Nat) (fill : Option Bytes) :
    (extended content size fill).size = size := by
  cases fill <;> simp [extended]

theorem getElem?_extended_of_lt {content : Bytes} {size j : Nat} (fill : Option Bytes)
    (hsize : content.size ≤ size) (hj : j < content.size) :
    (extended content size fill)[j]? = content[j]? := by
  have hresize : (content.resize size)[j]? = content[j]? := by
    rw [Bytes.getElem?_resize, if_pos (by omega), Array.getElem?_eq_getElem hj]
    rfl
  cases fill with
  | none => exact hresize
  | some fill => rw [extended, Bytes.getElem?_overwrite, if_neg (by omega), hresize]

/-- A file that grows by one value holds that value where it is new. -/
theorem getElem?_extended_known {content : Bytes} {size j : Nat} (v : UInt8)
    (hj : content.size ≤ j) (hlt : j < size) :
    (extended content size ((Filler.known v).fill (size - content.size)).1)[j]? = some v := by
  have hresize : (content.resize size)[j]? = some 0 := by
    rw [Bytes.getElem?_resize, if_pos hlt, Array.getElem?_eq_none hj]
    rfl
  unfold Filler.fill
  by_cases hv : v = 0
  · rw [if_pos (by rw [hv]), hv]
    exact hresize
  · rw [if_neg (by simpa using hv)]
    simp only [Filler.draw, extended]
    rw [Bytes.getElem?_overwrite, if_pos, Array.getElem?_toList, Array.getElem?_replicate,
      if_pos (by omega)]
    simp only [Array.length_toList, Array.size_replicate, Bytes.size_resize]
    omega

theorem fill_known (v : UInt8) (count : Nat) : ((Filler.known v).fill count).2 = .known v := by
  unfold Filler.fill
  split <;> rfl

/-- Growing is told by the content of the backing file before and after it. -/
theorem evolves_of_content (hs : s.Fits)
    (hrest : s' = { s with
      store := s'.store, filler := s'.filler, dataLength := s'.dataLength, window := s'.window })
    (hstore : s.store.OnlyAt s.dataPath s'.store)
    (hlength : s.dataLength.toNat ≤ s'.dataLength.toNat) {content content' : Bytes}
    (hc : s.store.content? s.dataPath = some content)
    (hc' : s'.store.content? s.dataPath = some content')
    (hsize : content'.size = Snapshot.blockSize + s'.dataLength.toNat)
    (hkeep : ∀ j < Snapshot.blockSize + s.dataLength.toNat, content'[j]? = content[j]?)
    (hfresh : ∀ v, s.filler = .known v → s'.filler = .known v ∧
      ∀ j, Snapshot.blockSize + s.dataLength.toNat ≤ j → j < content'.size →
        content'[j]? = some v) : Evolves [] s s' := by
  have hpath : s'.dataPath = s.dataPath := by rw [hrest]
  have hdata : s'.data = s.data := by rw [hrest]
  have hfits : s'.Fits := by
    refine ⟨?_, ?_⟩
    · rw [hstore.pathOf?, hdata, hpath]
      exact hs.path
    · rw [Volume.length?, hpath, hc', Option.map_some, hsize]
  have hbyte : ∀ {a : UInt16}, s'.Covers a →
      s'.byte? a = content'[Snapshot.blockSize + (a.toNat - dataStart.toNat)]? := by
    intro a ha
    rw [byte?_of_covers ha, hfits.dataByte? ha.2, Volume.byteAt?, hpath, hc', Option.bind_some]
  refine ⟨hfits, ⟨by rw [hrest], hdata, hpath, by rw [hrest], hstore, ?_⟩, hlength, nofun, ?_, ?_⟩
  · intro i hi
    rw [Volume.byteAt?, hc', Option.bind_some, hkeep i (by omega), Volume.byteAt?, hc,
      Option.bind_some]
  · intro a ha
    have hlt := ha.2
    have hold : s.byte? a = content[Snapshot.blockSize + (a.toNat - dataStart.toNat)]? := by
      rw [byte?_of_covers ha, hs.dataByte? hlt, Volume.byteAt?, hc, Option.bind_some]
    rw [hbyte ⟨ha.1, Nat.lt_of_lt_of_le hlt hlength⟩, hkeep _ (by omega), ← hold]
    rfl
  · intro v hv
    obtain ⟨hfill, hbytes⟩ := hfresh v hv
    refine ⟨hfill, ?_⟩
    intro a ha hn
    have hlt := ha.2
    have hout : s.dataLength.toNat ≤ a.toNat - dataStart.toNat :=
      Nat.not_lt.mp fun h => hn ⟨ha.1, h⟩
    rw [hbyte ha, hbytes _ (by omega) (by omega)]
    rfl

/-- Writing to the backing file overwrites its content. -/
theorem writeFile_content (hpath : s.store.pathOf? s.data = some s.dataPath) {content : Bytes}
    (hc : s.store.content? s.dataPath = some content) (offset : Nat) (bytes : Bytes) :
    ∃ s', writeFile s.data offset bytes s = .ok (content.room offset bytes.size) s' ∧
      s' = { s with store := s'.store } ∧ s.store.OnlyAt s.dataPath s'.store ∧
        s'.store.content? s.dataPath = some (content.overwrite offset bytes.toList) := by
  have hb : s.store.behind? s.data = some content := by
    rw [Volume.behind?, hpath]
    exact hc
  have honly := Volume.write_onlyAt hpath offset bytes
  obtain ⟨hcount, hbehind⟩ := Volume.write_behind hb offset bytes
  rw [Volume.behind?, honly.pathOf?, hpath, Option.bind_some] at hbehind
  refine ⟨{ s with store := (s.store.write s.data offset bytes).2 }, ?_, rfl, honly, hbehind⟩
  rw [← hcount]
  rfl

/-- Growing extends the backing file so that there is room for the index, or there is no room and
everything stays as it was. -/
theorem grow_content (hs : s.Fits) {content : Bytes} (hc : s.store.content? s.dataPath = some content)
    (hsize : content.size = Snapshot.blockSize + s.dataLength.toNat) (a : UInt16) (i : Nat) :
    (∃ s', grow a i s = .error (.noRoom a) s' ∧ Untouched s s') ∨
      ∃ length s', grow a i s = .ok () s' ∧ i < length ∧ length < 65536 ∧
        s.store.OnlyAt s.dataPath s'.store ∧
          s'.store.content? s.dataPath = some (extended content (Snapshot.blockSize + length)
            (s.filler.fill (length - s.dataLength.toNat)).1) ∧
              s' = { s with
                store := s'.store
                filler := (s.filler.fill (length - s.dataLength.toNat)).2
                dataLength := UInt16.ofNat length
                window := s'.window } := by
  unfold grow
  rw [get_bind]
  by_cases hlimit : s.limit.toNat ≤ i
  · rw [if_pos hlimit]
    exact .inl ⟨s, rfl, refl_of _ s⟩
  · rw [if_neg hlimit]
    dsimp only
    rcases firstThatFits_cases s (candidates s.limit i) with ⟨s₁, hf, hsame⟩ |
      ⟨length, hm, s₁, hf, hresized⟩
    · exact .inl ⟨s₁, bind_of_ok hf, hsame⟩
    · have hlength : i < length ∧ length < 65536 := by
        obtain ⟨extra, _, rfl⟩ := List.mem_map.mp hm
        have hlt := s.limit.toNat_lt
        omega
      have hcontent := hresized.content
      rw [hc, Option.map_some] at hcontent
      have hdraw : drawFill (length - s.dataLength.toNat) s₁ =
          .ok (s.filler.fill (length - s.dataLength.toNat)).1
            { s₁ with filler := (s.filler.fill (length - s.dataLength.toNat)).2 } := by
        rw [hresized.rest]
        rfl
      refine .inr ⟨length, ?_⟩
      rw [bind_of_ok hf]
      dsimp only
      rw [bind_of_ok hdraw]
      cases (s.filler.fill (length - s.dataLength.toNat)).1 with
      | none =>
        refine ⟨_, rfl, hlength.1, hlength.2, hresized.store, hcontent, ?_⟩
        rw [hresized.rest]
      | some fill =>
        let s₂ : AddressSpace Volume :=
          { s₁ with filler := (s.filler.fill (length - s.dataLength.toNat)).2 }
        have hdata : s₂.data = s.data := by
          simp only [s₂]
          rw [hresized.rest]
        have hpath : s₂.dataPath = s.dataPath := by
          simp only [s₂]
          rw [hresized.rest]
        have hopen : s₂.store.pathOf? s₂.data = some s₂.dataPath := by
          rw [hdata, hpath]
          exact (hresized.store.pathOf? s.data).trans hs.path
        obtain ⟨s₃, hw, hrest, honly, hwritten⟩ := writeFile_content hopen
          (hpath ▸ hcontent) (Snapshot.blockSize + s.dataLength.toNat) fill
        rw [hdata] at hw
        rw [hpath] at honly hwritten
        refine ⟨{ s₃ with dataLength := UInt16.ofNat length }, bind_of_ok hw, hlength.1, hlength.2,
          trans_of _ hresized.store honly, ?_, ?_⟩
        · rw [extended, hsize]
          exact hwritten
        · rw [hrest]
          simp only [s₂]
          rw [hresized.rest]

/-- Growing makes the region contain the index, or there is no room and everything stays as it was. -/
theorem grow_cases (hs : s.Fits) (a : UInt16) (i : Nat) (hi : s.dataLength.toNat ≤ i) :
    (∃ s', grow a i s = .error (.noRoom a) s' ∧ Untouched s s') ∨
      ∃ s', grow a i s = .ok () s' ∧ Evolves [] s s' ∧ i < s'.dataLength.toNat := by
  obtain ⟨content, hc, _, hsize⟩ := hs.content
  rcases grow_content hs hc hsize a i with hfull | ⟨length, s', hgrow, hlow, hhigh, hstore, hc', hrest⟩
  · exact .inl hfull
  · have hnat : s'.dataLength.toNat = length := by
      rw [hrest]
      exact (UInt16.toNat_ofNat').trans (Nat.mod_eq_of_lt hhigh)
    refine .inr ⟨s', hgrow, ?_, hnat.symm ▸ hlow⟩
    refine evolves_of_content hs (by rw [hrest]) hstore (by omega) hc hc' ?_ ?_ ?_
    · rw [size_extended, hnat]
    · intro j hj
      exact getElem?_extended_of_lt _ (by omega) (by omega)
    · intro v hv
      refine ⟨by rw [hrest, hv]; exact fill_known v _, ?_⟩
      intro j hj hlt
      rw [size_extended] at hlt
      have hnew : length - s.dataLength.toNat = Snapshot.blockSize + length - content.size := by
        omega
      rw [hv, hnew]
      exact getElem?_extended_known v (by omega) hlt

/-! ## Writing -/

/-- A byte of the region can be overwritten. -/
theorem writeFile_evolves (hs : s.Fits) {a : UInt16} (ha : s.Covers a) (b : UInt8) :
    ∃ s', writeFile s.data (Snapshot.blockSize + (a.toNat - dataStart.toNat)) #[b] s = .ok 1 s' ∧
      Evolves [(a, b)] s s' := by
  obtain ⟨content, hc, _, hsize⟩ := hs.content
  obtain ⟨s', hw, hrest, hstore, hc'⟩ := writeFile_content hs.path hc
    (Snapshot.blockSize + (a.toNat - dataStart.toNat)) #[b]
  have hlt := ha.2
  have hroom : content.room (Snapshot.blockSize + (a.toNat - dataStart.toNat)) 1 = 1 := by
    unfold Bytes.room
    omega
  have hone : (#[b] : Bytes).size = 1 := rfl
  rw [hone, hroom] at hw
  refine ⟨s', hw, ?_⟩
  have hpath : s'.dataPath = s.dataPath := by rw [hrest]
  have hdata : s'.data = s.data := by rw [hrest]
  have hlength : s'.dataLength = s.dataLength := by rw [hrest]
  have hfits : s'.Fits := by
    refine ⟨?_, ?_⟩
    · rw [hstore.pathOf?, hdata, hpath]
      exact hs.path
    · rw [Volume.length?, hpath, hc', Option.map_some, Bytes.size_overwrite, hsize, hlength]
  have hcovers : ∀ {x : UInt16}, s.Covers x → s'.Covers x := fun hx => ⟨hx.1, hlength ▸ hx.2⟩
  refine ⟨hfits, ⟨by rw [hrest], hdata, hpath, by rw [hrest], hstore, ?_⟩, by rw [hlength], ?_, ?_, ?_⟩
  · intro i hi
    rw [Volume.byteAt?, hc', Option.bind_some, Bytes.getElem?_overwrite, if_neg (by omega),
      Volume.byteAt?, hc, Option.bind_some]
  · intro entry hm
    rw [List.mem_singleton.mp hm]
    exact hcovers ha
  · intro x hx
    have hxlt := hx.2
    rw [byte?_of_covers (hcovers hx), hfits.dataByte? (hcovers hx).2, Volume.byteAt?, hpath, hc',
      Option.bind_some, Bytes.getElem?_overwrite, byte?_of_covers hx, hs.dataByte? hxlt,
      Volume.byteAt?, hc, Option.bind_some]
    by_cases he : x = a
    · subst he
      rw [if_pos (by simp; omega), Nat.sub_self, lastWritten_singleton, if_pos rfl]
      rfl
    · have hne : x.toNat ≠ a.toNat := fun h => he (UInt16.toNat_inj.mp h)
      have hlow := UInt16.le_iff_toNat_le.mp ha.1
      have hlow' := UInt16.le_iff_toNat_le.mp hx.1
      rw [if_neg (by simp; omega), lastWritten_singleton, if_neg he, Option.none_or]
  · intro v hv
    refine ⟨by rw [hrest]; exact hv, ?_⟩
    intro x hx hn
    exact absurd ⟨hx.1, hlength ▸ hx.2⟩ hn

/-- A byte is written, or there is no room for it and everything stays as it was. -/
theorem writeData_cases (hs : s.Fits) {a : UInt16} (ha : dataStart ≤ a) (b : UInt8) :
    (∃ s', writeData a (a.toNat - dataStart.toNat) b s = .error (.noRoom a) s' ∧ Untouched s s') ∨
      ∃ s', writeData a (a.toNat - dataStart.toNat) b s = .ok () s' ∧ Evolves [(a, b)] s s' := by
  unfold writeData
  rw [get_bind]
  dsimp only
  split
  · next hi =>
    rcases grow_cases hs a _ hi with ⟨s₁, hg, hsame⟩ | ⟨s₁, hg, hgrown, hlt⟩
    · exact .inl ⟨s₁, bind_of_error hg, hsame⟩
    · obtain ⟨s₂, hw, hput⟩ := writeFile_evolves hgrown.fits ⟨ha, hlt⟩ b
      rw [hgrown.apart.data] at hw
      refine .inr ⟨s₂, ?_, hgrown.trans hput⟩
      rw [bind_of_ok hg, bind_of_ok hw]
      rfl
  · next hi =>
    obtain ⟨s₁, hw, hput⟩ := writeFile_evolves hs ⟨ha, Nat.not_le.mp hi⟩ b
    refine .inr ⟨s₁, ?_, hput⟩
    rw [bind_of_ok hw]
    rfl

end AddressSpace

end CoopKernel
