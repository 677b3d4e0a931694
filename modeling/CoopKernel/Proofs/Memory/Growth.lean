import CoopKernel.Proofs.Memory.Flat
import Mathlib.Data.List.Infix

/-!
# How much a data region grows by

A data region that is to contain an index is made longer than it has to be. The lengths that are tried differ by how
much longer, from the most down to one byte, and none is past the limit. The first that the storage has room for is
taken, so that it is the largest of them for which there is room.
-/

namespace CoopKernel

namespace Volume

/-- The bytes of a file are among those in use. -/
theorem size_le_used {v : Volume} {p : Path} {content : Bytes} (h : v.content? p = some content) :
    content.size ≤ v.used := by
  have hsum : ∀ nodes : List (Path × Node), Index.find? p nodes = some (.file content) →
      content.size ≤ nodes.foldr (fun entry total => entry.2.size + total) 0 := by
    intro nodes hfind
    induction nodes with
    | nil => cases hfind
    | cons entry nodes ih =>
      obtain ⟨key, node⟩ := entry
      rw [List.foldr_cons]
      rw [Index.find?] at hfind
      split at hfind
      · cases hfind
        exact Nat.le_add_right _ _
      · exact Nat.le_trans (ih hfind) (Nat.le_add_left _ _)
  obtain ⟨node, hnode, hfile⟩ := Option.bind_eq_some_iff.mp h
  cases node with
  | file content' =>
    cases hfile
    exact hsum v.nodes hnode
  | dir | device => cases hfile

/-- Whether a file can be resized depends on the capacity alone. -/
theorem resize_of_content {v : Volume} {p : Path} {content : Bytes} (h : v.content? p = some content) (size : Nat) :
    v.resize p size =
      if v.fits content.size size then
        (true, ({ v with resizeCalls := v.resizeCalls + 1 } : Volume).put p (.file (content.resize size)))
      else (false, { v with resizeCalls := v.resizeCalls + 1 }) := by
  have hcounted : ({ v with resizeCalls := v.resizeCalls + 1 } : Volume).content? p = some content := h
  simp only [resize, hcounted]
  rfl

theorem resizeCalls_resize (v : Volume) (p : Path) (size : Nat) :
    (v.resize p size).2.resizeCalls = v.resizeCalls + 1 := by
  rcases v.resize_cases p size with hr | ⟨content, -, hr⟩
  · rw [hr]
  · rw [hr]
    rfl

theorem resizeCalls_write (v : Volume) (h : Handle) (offset : Nat) (bytes : Bytes) :
    (v.write h offset bytes).2.resizeCalls = v.resizeCalls := by
  unfold write
  split
  · rfl
  · split <;> rfl

end Volume

namespace AddressSpace

variable {s s' : AddressSpace Volume} {a : UInt16} {i : Nat}

/-- With a data region of the length, all files together keep within the capacity. -/
def hasRoomFor (s : AddressSpace Volume) (length : Nat) : Bool :=
  s.store.capacity.all fun capacity => s.store.used + length ≤ capacity + s.dataLength.toNat

/-- There is room for a region exactly if the storage lets its file be resized. -/
theorem Fits.fits_eq (hs : s.Fits) (length : Nat) :
    s.store.fits (Snapshot.blockSize + s.dataLength.toNat) (Snapshot.blockSize + length) = s.hasRoomFor length := by
  obtain ⟨content, hc, -, hsize⟩ := hs.content
  have hused := Volume.size_le_used hc
  unfold Volume.fits hasRoomFor
  cases s.store.capacity with
  | none => rfl
  | some capacity =>
    rw [Option.all_some, decide_eq_decide]
    omega

/-- The storage after the backing file was to be resized for regions of some lengths, one after the other. -/
def resizes (s : AddressSpace Volume) (lengths : List Nat) : Volume :=
  lengths.foldl (fun v length => (v.resize s.dataPath (Snapshot.blockSize + length)).2) s.store

theorem resizeCalls_resizes (s : AddressSpace Volume) (lengths : List Nat) :
    (s.resizes lengths).resizeCalls = s.store.resizeCalls + lengths.length := by
  induction lengths generalizing s with
  | nil => rfl
  | cons length rest ih =>
    have hrest := ih { s with store := (s.store.resize s.dataPath (Snapshot.blockSize + length)).2 }
    rw [List.length_cons, Nat.add_comm rest.length, ← Nat.add_assoc, ← s.store.resizeCalls_resize]
    exact hrest

/-- The memory with so many more resizings counted. -/
def counted (s : AddressSpace Volume) (calls : Nat) : AddressSpace Volume :=
  { s with store := { s.store with resizeCalls := s.store.resizeCalls + calls } }

theorem Fits.counted (hs : s.Fits) (calls : Nat) : (s.counted calls).Fits :=
  ⟨hs.path, hs.size⟩

theorem resizeData_of_fits (hs : s.Fits) {length : Nat} : resizeData length s =
    .ok (s.hasRoomFor length) { s with store := (s.store.resize s.dataPath (Snapshot.blockSize + length)).2 } := by
  obtain ⟨content, hc, -, hsize⟩ := hs.content
  have hdone : (s.store.resize s.dataPath (Snapshot.blockSize + length)).1 = s.hasRoomFor length := by
    rw [Volume.resize_of_content hc, hsize, hs.fits_eq]
    cases s.hasRoomFor length <;> rfl
  rw [← hdone]
  rfl

/-- Nothing happens but that a resizing is counted where there is no room. -/
theorem resize_of_no_room (hs : s.Fits) {length : Nat} (hroom : s.hasRoomFor length = false) :
    { s with store := (s.store.resize s.dataPath (Snapshot.blockSize + length)).2 } = s.counted 1 := by
  obtain ⟨content, hc, -, hsize⟩ := hs.content
  rw [Volume.resize_of_content hc, hsize, hs.fits_eq, hroom]
  rfl

/-- Lengths for which there is no room are tried in vain. -/
theorem firstThatFits_append (hs : s.Fits) {before : List Nat} (hroom : ∀ m ∈ before, s.hasRoomFor m = false)
    (rest : List Nat) : firstThatFits (before ++ rest) s = firstThatFits rest (s.counted before.length) ∧
      { s with store := s.resizes before } = s.counted before.length := by
  induction before generalizing s with
  | nil => exact ⟨rfl, rfl⟩
  | cons length before ih =>
    have hfirst := hroom length List.mem_cons_self
    obtain ⟨hrest, hresizes⟩ := ih (hs.counted 1) fun m hm => hroom m (List.mem_cons_of_mem length hm)
    have hresize := resize_of_no_room hs hfirst
    have hcount : (s.counted 1).counted before.length = s.counted (before.length + 1) := by
      rw [counted, counted, counted, Nat.add_comm before.length, ← Nat.add_assoc]
    rw [hcount] at hrest hresizes
    refine ⟨?_, ?_⟩
    · rw [List.cons_append, firstThatFits, bind_of_ok (resizeData_of_fits hs), hfirst, hresize]
      exact hrest
    · have hfold : s.resizes (length :: before) =
          resizes { s with store := (s.store.resize s.dataPath (Snapshot.blockSize + length)).2 } before := rfl
      rw [hfold, hresize]
      exact hresizes

/-- A data region grows by what it is to contain, and not past its limit. -/
theorem candidates_inRange {limit : UInt16} {index length : Nat} (hi : index < limit.toNat)
    (h : length ∈ candidates limit index) : index < length ∧ length ≤ limit.toNat := by
  obtain ⟨extra, _, rfl⟩ := List.mem_map.mp h
  omega

/-- The lengths that are tried descend. -/
theorem candidates_descend (limit : UInt16) (index : Nat) : (candidates limit index).Pairwise (· ≥ ·) := by
  refine List.pairwise_map.mpr ((show headroom.Pairwise (· ≥ ·) by decide).imp fun h => ?_)
  omega

/-- What is left after trying some lengths, of which the last was taken. -/
def taken (s : AddressSpace Volume) (tried : List Nat) (length : Nat) : AddressSpace Volume :=
  let fill := s.filler.fill (length - s.dataLength.toNat)
  let resized := s.resizes tried
  { s with
    store := fill.1.elim resized fun bytes =>
      (resized.write s.data (Snapshot.blockSize + s.dataLength.toNat) bytes).2
    filler := fill.2
    dataLength := UInt16.ofNat length }

/-- Growing past the limit, or where there is no room, does nothing but count what was tried. -/
theorem grow_of_no_room (hs : s.Fits) (hroom : s.limit.toNat ≤ i ∨ ∀ m ∈ candidates s.limit i, s.hasRoomFor m = false) :
    grow a i s = .error (.noRoom a) (s.counted (if s.limit.toNat ≤ i then 0 else headroom.length)) := by
  unfold grow
  rw [get_bind]
  by_cases hlimit : s.limit.toNat ≤ i
  · rw [if_pos hlimit, if_pos hlimit]
    rfl
  · have hnone := firstThatFits_append hs (hroom.resolve_left hlimit) []
    rw [List.append_nil, candidates, List.length_map] at hnone
    rw [if_neg hlimit, if_neg hlimit]
    dsimp only
    exact bind_of_ok hnone.1

/-- Growing takes the first length for which there is room. -/
theorem grow_of_room (hs : s.Fits) (hlimit : ¬s.limit.toNat ≤ i) {before behind : List Nat} {length : Nat}
    (hlengths : candidates s.limit i = before ++ length :: behind)
    (hbefore : ∀ m ∈ before, s.hasRoomFor m = false) (hroom : s.hasRoomFor length) :
    grow a i s = .ok () (s.taken (before ++ [length]) length) := by
  obtain ⟨htry, hresizes⟩ := firstThatFits_append hs hbefore (length :: behind)
  have hfirst : firstThatFits (candidates s.limit i) s =
      .ok (some length) { s with store := s.resizes (before ++ [length]) } := by
    rw [hlengths, htry, firstThatFits, bind_of_ok (resizeData_of_fits (hs.counted _))]
    have hsame : (s.counted before.length).hasRoomFor length = true := hroom
    rw [hsame, ← hresizes]
    simp only [resizes, List.foldl_append]
    rfl
  unfold grow
  rw [get_bind, if_neg hlimit]
  dsimp only
  rw [bind_of_ok hfirst]
  dsimp only
  have hdraw : drawFill (length - s.dataLength.toNat) { s with store := s.resizes (before ++ [length]) } =
      .ok (s.filler.fill (length - s.dataLength.toNat)).1
        { s with
          store := s.resizes (before ++ [length])
          filler := (s.filler.fill (length - s.dataLength.toNat)).2 } := rfl
  rw [bind_of_ok hdraw]
  unfold taken
  dsimp only
  cases (s.filler.fill (length - s.dataLength.toNat)).1 <;> rfl

theorem resizeCalls_taken (s : AddressSpace Volume) (tried : List Nat) (length : Nat) :
    (s.taken tried length).store.resizeCalls = s.store.resizeCalls + tried.length := by
  unfold taken
  dsimp only
  cases (s.filler.fill (length - s.dataLength.toNat)).1 with
  | none => exact s.resizeCalls_resizes tried
  | some bytes => exact (Volume.resizeCalls_write _ _ _ _).trans (s.resizeCalls_resizes tried)

/-- A region that has grown is in a file of its length, and what was in the file is still there. -/
theorem grown_content (hs : s.Fits) (hi : s.dataLength.toNat ≤ i) (hgrow : grow a i s = .ok () s') :
    s'.Fits ∧ ∀ j < Snapshot.blockSize + s.dataLength.toNat,
      s'.store.byteAt? s.dataPath j = s.store.byteAt? s.dataPath j := by
  obtain ⟨content, hc, -, hsize⟩ := hs.content
  rcases grow_content hs hc hsize a i with ⟨s₁, hfull, -⟩ | ⟨length, s₁, hgrow', hlow, hhigh, hstore, hc', hrest⟩
  · rw [hgrow] at hfull
    cases hfull
  · rw [hgrow] at hgrow'
    cases hgrow'
    have hnat : s'.dataLength.toNat = length := by
      rw [hrest]
      exact (UInt16.toNat_ofNat').trans (Nat.mod_eq_of_lt hhigh)
    have hpath : s'.dataPath = s.dataPath := by rw [hrest]
    refine ⟨⟨?_, ?_⟩, ?_⟩
    · rw [hstore.pathOf?, hrest]
      exact hs.path
    · rw [Volume.length?, hpath, hc', Option.map_some, size_extended, hnat]
    · intro j hj
      rw [Volume.byteAt?, Volume.byteAt?, hc', hc, Option.bind_some, Option.bind_some,
        getElem?_extended_of_lt _ (by omega) (by omega)]

/-- The growth policy. A data region that is to contain an index behind its end cannot grow exactly if the index is
not below the limit or there is no room for any of the lengths that are tried, and then nothing happens but that the
resizings are counted. Otherwise it gets the largest length for which there is room, after the longer ones were tried
in vain. It then contains the index, is longer than before and not longer than the limit, and has all its bytes. -/
theorem growth_policy (hs : s.Fits) (a : UInt16) (hi : s.dataLength.toNat ≤ i) :
    let lengths := [16, 8, 4, 2, 1].map fun extra => min (i + 1 + extra) s.limit.toNat
    lengths.Pairwise (· ≥ ·) ∧
    ((∃ s', grow a i s = .error (.noRoom a) s') ↔ s.limit.toNat ≤ i ∨ ∀ m ∈ lengths, ¬s.hasRoomFor m) ∧
    (∀ f s', grow a i s = .error f s' →
      f = .noRoom a ∧ s' = s.counted (if s.limit.toNat ≤ i then 0 else lengths.length) ∧
        (i < s.limit.toNat → s' = { s with store := s.resizes lengths })) ∧
    ∀ s', grow a i s = .ok () s' → ∃ tried length, tried ++ [length] <+: lengths ∧
      s' = s.taken (tried ++ [length]) length ∧
      s'.store.resizeCalls = s.store.resizeCalls + (tried ++ [length]).length ∧
      (∀ m ∈ tried, ¬s.hasRoomFor m) ∧ s.hasRoomFor length ∧ (∀ m ∈ lengths, s.hasRoomFor m → m ≤ length) ∧
      s'.dataLength.toNat = length ∧ i < length ∧ s.dataLength.toNat < length ∧ length ≤ s.limit.toNat ∧
      s'.Fits ∧ ∀ j < Snapshot.blockSize + s.dataLength.toNat,
        s'.store.byteAt? s.dataPath j = s.store.byteAt? s.dataPath j := by
  intro lengths
  have hdescend : lengths.Pairwise (· ≥ ·) := candidates_descend s.limit i
  simp only [Bool.not_eq_true]
  by_cases hroom : s.limit.toNat ≤ i ∨ ∀ m ∈ lengths, s.hasRoomFor m = false
  · have hgrow := grow_of_no_room (a := a) hs hroom
    refine ⟨hdescend, ⟨fun _ => hroom, fun _ => ⟨_, hgrow⟩⟩, fun f s' hf => ?_, fun s' hok => ?_⟩
    · rw [hgrow] at hf
      cases hf
      refine ⟨rfl, rfl, fun hlt => ?_⟩
      have hlimit := Nat.not_le.mpr hlt
      rw [if_neg hlimit]
      exact (firstThatFits_append hs (hroom.resolve_left hlimit) []).2.symm
    · rw [hgrow] at hok
      cases hok
  · have hlimit : ¬s.limit.toNat ≤ i := fun h => hroom (.inl h)
    obtain ⟨length, hfind⟩ : ∃ length, lengths.find? s.hasRoomFor = some length := by
      rw [← Option.isSome_iff_exists, List.find?_isSome]
      by_contra hnone
      exact hroom (.inr fun m hm => Bool.eq_false_iff.mpr fun hm' => hnone ⟨m, hm, hm'⟩)
    obtain ⟨hlength, before, behind, hlengths, hbefore⟩ := List.find?_eq_some_iff_append.mp hfind
    simp only [Bool.not_eq_true'] at hbefore
    have hgrow := grow_of_room (a := a) hs hlimit hlengths hbefore hlength
    refine ⟨hdescend, ⟨?_, fun h => absurd h hroom⟩, ?_, fun s' hok => ?_⟩
    · rintro ⟨s', hf⟩
      rw [hgrow] at hf
      cases hf
    · intro f s' hf
      rw [hgrow] at hf
      cases hf
    · have hgrown := grown_content hs hi hok
      rw [hgrow] at hok
      cases hok
      have hmem : length ∈ lengths := by
        rw [hlengths]
        exact List.mem_append_right _ List.mem_cons_self
      obtain ⟨hlow, hhigh⟩ := candidates_inRange (Nat.not_le.mp hlimit) hmem
      refine ⟨before, length, ?_, rfl, resizeCalls_taken s _ length, hbefore, hlength, ?_, ?_, hlow,
        Nat.lt_of_le_of_lt hi hlow, hhigh, hgrown⟩
      · exact ⟨behind, by rw [hlengths, List.append_assoc, List.singleton_append]⟩
      · intro m hm hroom
        rw [hlengths] at hm hdescend
        rcases List.mem_append.mp hm with hm | hm
        · rw [hbefore m hm] at hroom
          cases hroom
        · rcases List.mem_cons.mp hm with rfl | hm
          · exact Nat.le_refl m
          · exact (List.pairwise_cons.mp (List.pairwise_append.mp hdescend).2.1).1 m hm
      · exact (UInt16.toNat_ofNat').trans (Nat.mod_eq_of_lt (Nat.lt_of_le_of_lt hhigh s.limit.toNat_lt))

/-- A data region with no bytes, in a storage that has room for five. -/
def crampedRegion : AddressSpace Volume :=
  { emptyRegion with
    limit := 0x100
    store := emptyRegion.store.setCapacity (some (Snapshot.blockSize + 5)) }

/-- It gets five bytes at the third trial, and cannot grow to eleven. -/
theorem growth_policy_of_cramped :
    (∃ s', grow 0x8000 0 crampedRegion = .ok () s' ∧ s'.dataLength.toNat = 5 ∧ s'.store.resizeCalls = 3) ∧
      grow 0x800A 10 crampedRegion = .error (.noRoom 0x800A) (crampedRegion.counted 5) := by
  have hfits : crampedRegion.Fits := ⟨by decide +kernel, by decide +kernel⟩
  constructor
  · obtain ⟨-, hfails, hfault, hdone⟩ := growth_policy hfits 0x8000 (i := 0) (by decide)
    cases hgrow : grow 0x8000 0 crampedRegion with
    | error f s' =>
      obtain ⟨rfl, -⟩ := hfault f s' hgrow
      exact absurd (hfails.mp ⟨s', hgrow⟩) (by decide +kernel)
    | ok u s' =>
      obtain ⟨tried, length, hprefix, -, hcalls, -, hroom, hlargest, hlength, -⟩ := hdone s' hgrow
      have hle : ∀ m ∈ [16, 8, 4, 2, 1].map fun extra => min (0 + 1 + extra) crampedRegion.limit.toNat,
          crampedRegion.hasRoomFor m → m ≤ 5 := by decide +kernel
      have hmem := hprefix.subset (List.mem_append_right tried (List.mem_singleton_self length))
      obtain rfl : length = 5 :=
        Nat.le_antisymm (hle length hmem hroom) (hlargest 5 (by decide) (by decide +kernel))
      have hthree : ∀ l ∈ ([16, 8, 4, 2, 1].map fun extra => min (0 + 1 + extra) crampedRegion.limit.toNat).inits,
          l.getLast? = some 5 → l.length = 3 := by decide +kernel
      rw [hthree _ ((List.mem_inits _ _).mpr hprefix) (List.getLast?_concat ..)] at hcalls
      exact ⟨s', rfl, hlength, hcalls⟩
  · obtain ⟨-, hfails, hfault, -⟩ := growth_policy hfits 0x800A (i := 10) (by decide)
    obtain ⟨s', hgrow⟩ := hfails.mpr (.inr (by decide +kernel))
    obtain ⟨-, hs', -⟩ := hfault _ s' hgrow
    rw [hgrow, hs']
    rfl

end AddressSpace

end CoopKernel
