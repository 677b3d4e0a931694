import CoopKernel.Proofs.Fetching
import CoopKernel.Proofs.Path
import CoopKernel.Proofs.Text.Strict

/-!
# Paths that are read from memory

A process names a path by the address of a text. The text is read up to its NUL, and one byte further than any path
goes, so that a path that is too long is told from one that just fits. It is never cut: the result is the path that
the text denotes as a whole, or none.
-/

namespace CoopKernel

namespace AddressSpace

section Reading

variable {σ : Type} [Storage σ] {s s' : AddressSpace σ} {a : UInt16} {b : UInt8} {bytes : List UInt8} {f : Fault}
  {n : Nat}

/-- The bytes are read from an address on, one after the other, which leads to another state of the memory. -/
def Gives (s : AddressSpace σ) (a : UInt16) (bytes : List UInt8) (s' : AddressSpace σ) : Prop :=
  readBytes a bytes.length s = .ok bytes s'

/-- The bytes are read from an address on, and reading the one behind them is a fault. -/
def FaultsBehind (s : AddressSpace σ) (a : UInt16) (bytes : List UInt8) (f : Fault) (s' : AddressSpace σ) : Prop :=
  ∃ s₁, s.Gives a bytes s₁ ∧ read (a + UInt16.ofNat bytes.length) s₁ = .error f s'

theorem gives_nil : s.Gives a [] s' ↔ s' = s := by
  constructor
  · intro h
    cases h
    rfl
  · rintro rfl
    rfl

theorem gives_cons : s.Gives a (b :: bytes) s' ↔ ∃ s₁, read a s = .ok b s₁ ∧ s₁.Gives (a + 1) bytes s' := by
  unfold Gives
  rw [List.length_cons, readBytes]
  cases hr : read a s with
  | error f s₁ =>
    rw [bind_of_error hr]
    simp
  | ok c s₁ =>
    rw [bind_of_ok hr, bind_pure_ok]
    constructor
    · rintro ⟨rest, hrest, heq⟩
      cases heq
      exact ⟨s₁, rfl, hrest⟩
    · rintro ⟨s₂, hfirst, hrest⟩
      cases hfirst
      exact ⟨bytes, hrest, rfl⟩

theorem faultsBehind_nil : s.FaultsBehind a [] f s' ↔ read a s = .error f s' := by
  have hzero : a + UInt16.ofNat ([] : List UInt8).length = a := UInt16.add_zero a
  unfold FaultsBehind
  rw [hzero]
  constructor
  · rintro ⟨s₁, hgives, hread⟩
    rw [gives_nil.mp hgives] at hread
    exact hread
  · intro hread
    exact ⟨s, gives_nil.mpr rfl, hread⟩

theorem faultsBehind_cons :
    s.FaultsBehind a (b :: bytes) f s' ↔ ∃ s₁, read a s = .ok b s₁ ∧ s₁.FaultsBehind (a + 1) bytes f s' := by
  unfold FaultsBehind
  rw [List.length_cons, add_ofNat_succ]
  constructor
  · rintro ⟨s₂, hgives, hread⟩
    obtain ⟨s₁, hfirst, hrest⟩ := gives_cons.mp hgives
    exact ⟨s₁, hfirst, s₂, hrest, hread⟩
  · rintro ⟨s₁, hfirst, s₂, hrest, hread⟩
    exact ⟨s₂, gives_cons.mpr ⟨s₁, hfirst, hrest⟩, hread⟩

/-- A fault behind some bytes is that of reading one byte more. -/
theorem FaultsBehind.readBytes (h : s.FaultsBehind a bytes f s') :
    AddressSpace.readBytes a (bytes.length + 1) s = .error f s' := by
  induction bytes generalizing s a with
  | nil => exact bind_of_error (faultsBehind_nil.mp h)
  | cons b bytes ih =>
    obtain ⟨s₁, hfirst, hrest⟩ := faultsBehind_cons.mp h
    rw [List.length_cons, AddressSpace.readBytes, bind_of_ok hfirst]
    exact bind_of_error (ih hrest)

/-! ## Texts -/

theorem readText_succ (n : Nat) : readText a (n + 1) s =
    match read a s with
    | .error f s' => .error f s'
    | .ok b s' =>
      if b = 0 then .ok [] s'
      else match readText (a + 1) n s' with
        | .error f s'' => .error f s''
        | .ok rest s'' => .ok (b :: rest) s'' := by
  rw [readText]
  cases hr : read a s with
  | error f s' => exact bind_of_error hr
  | ok b s' =>
    rw [bind_of_ok hr]
    by_cases hb : b = 0
    · simp only [if_pos hb]
      rfl
    · simp only [if_neg hb]
      cases ht : readText (a + 1) n s' with
      | error f s'' => exact bind_of_error ht
      | ok rest s'' => exact bind_of_ok ht

/-- What is found where a text is read of which at most so many bytes are wanted: its end, or as many bytes as are
wanted and no end, or an address that cannot be read. -/
inductive TextAt (s : AddressSpace σ) (a : UInt16) (n : Nat) :
    EStateM.Result Fault (AddressSpace σ) (List UInt8) → Prop
  | ends (text : List UInt8) (s' : AddressSpace σ) : text.length < n → (∀ b ∈ text, b ≠ 0) →
      s.Gives a (text ++ [0]) s' → TextAt s a n (.ok text s')
  | goesOn (text : List UInt8) (s' : AddressSpace σ) : text.length = n → (∀ b ∈ text, b ≠ 0) →
      s.Gives a text s' → TextAt s a n (.ok text s')
  | stops (text : List UInt8) (e : Fault) (s' : AddressSpace σ) : text.length < n → (∀ b ∈ text, b ≠ 0) →
      s.FaultsBehind a text e s' → TextAt s a n (.error e s')

/-- A byte that is not a NUL belongs to the text. -/
theorem TextAt.cons {s₁ : AddressSpace σ} (hread : read a s = .ok b s₁) (hb : b ≠ 0)
    {r : EStateM.Result Fault (AddressSpace σ) (List UInt8)} :
    s₁.TextAt (a + 1) n r → s.TextAt a (n + 1) (match r with
      | .error f s' => .error f s'
      | .ok rest s' => .ok (b :: rest) s') := by
  intro h
  have hmore {bytes : List UInt8} (h : ∀ c ∈ bytes, c ≠ 0) : ∀ c ∈ b :: bytes, c ≠ 0 := by
    intro c hc
    rcases List.mem_cons.mp hc with rfl | hc
    · exact hb
    · exact h c hc
  cases h with
  | ends text s' hlength hne hgives =>
    exact .ends (b :: text) s' (Nat.succ_lt_succ hlength) (hmore hne) (gives_cons.mpr ⟨s₁, hread, hgives⟩)
  | goesOn text s' hlength hne hgives =>
    exact .goesOn (b :: text) s' (congrArg Nat.succ hlength) (hmore hne) (gives_cons.mpr ⟨s₁, hread, hgives⟩)
  | stops text e s' hlength hne hfaults =>
    exact .stops (b :: text) e s' (Nat.succ_lt_succ hlength) (hmore hne) (faultsBehind_cons.mpr ⟨s₁, hread, hfaults⟩)

/-- Reading a text comes to what is found there. -/
theorem textAt_readText (s : AddressSpace σ) (a : UInt16) (n : Nat) : s.TextAt a n (readText a n s) := by
  induction n generalizing s a with
  | zero => exact .goesOn [] s rfl nofun (gives_nil.mpr rfl)
  | succ n ih =>
    rw [readText_succ]
    cases hr : read a s with
    | error f s' => exact .stops [] f s' (Nat.succ_pos n) nofun (faultsBehind_nil.mpr hr)
    | ok b s' =>
      by_cases hb : b = 0
      · subst hb
        exact .ends [] s' (Nat.succ_pos n) nofun (gives_cons.mpr ⟨s', hr, gives_nil.mpr rfl⟩)
      · simp only [if_neg hb]
        exact (ih s' (a + 1)).cons hr hb

/-- There is only one thing to be found. -/
theorem readText_of_textAt {r : EStateM.Result Fault (AddressSpace σ) (List UInt8)} (h : s.TextAt a n r) :
    readText a n s = r := by
  induction n generalizing s a r with
  | zero =>
    cases h with
    | ends text s' hlength => exact absurd hlength (Nat.not_lt_zero _)
    | goesOn text s' hlength _ hgives =>
      cases List.eq_nil_of_length_eq_zero hlength
      rw [gives_nil.mp hgives]
      rfl
    | stops text e s' hlength => exact absurd hlength (Nat.not_lt_zero _)
  | succ n ih =>
    rw [readText_succ]
    cases h with
    | ends text s' hlength hne hgives =>
      obtain _ | ⟨b, text⟩ := text
      · obtain ⟨s₁, hread, hrest⟩ := gives_cons.mp hgives
        rw [hread, gives_nil.mp hrest]
        rfl
      · obtain ⟨s₁, hread, hrest⟩ := gives_cons.mp hgives
        have htext := ih (.ends text s' (Nat.lt_of_succ_lt_succ hlength) (List.forall_mem_of_forall_mem_cons hne) hrest)
        simp only [hread, if_neg (hne b List.mem_cons_self), htext]
    | goesOn text s' hlength hne hgives =>
      obtain _ | ⟨b, text⟩ := text
      · cases hlength
      · obtain ⟨s₁, hread, hrest⟩ := gives_cons.mp hgives
        have htext := ih (.goesOn text s' (Nat.succ.inj hlength) (List.forall_mem_of_forall_mem_cons hne) hrest)
        simp only [hread, if_neg (hne b List.mem_cons_self), htext]
    | stops text e s' hlength hne hfaults =>
      obtain _ | ⟨b, text⟩ := text
      · rw [faultsBehind_nil.mp hfaults]
      · obtain ⟨s₁, hread, hrest⟩ := faultsBehind_cons.mp hfaults
        have htext := ih (.stops text e s' (Nat.lt_of_succ_lt_succ hlength) (List.forall_mem_of_forall_mem_cons hne)
          hrest)
        simp only [hread, if_neg (hne b List.mem_cons_self), htext]

theorem readText_iff {r : EStateM.Result Fault (AddressSpace σ) (List UInt8)} :
    readText a n s = r ↔ s.TextAt a n r :=
  ⟨fun h => h ▸ textAt_readText s a n, readText_of_textAt⟩

theorem textAt_ok_iff : s.TextAt a n (.ok bytes s') ↔ (∀ b ∈ bytes, b ≠ 0) ∧
    (bytes.length < n ∧ s.Gives a (bytes ++ [0]) s' ∨ bytes.length = n ∧ s.Gives a bytes s') := by
  constructor
  · intro h
    cases h with
    | ends text s' hlength hne hgives => exact ⟨hne, .inl ⟨hlength, hgives⟩⟩
    | goesOn text s' hlength hne hgives => exact ⟨hne, .inr ⟨hlength, hgives⟩⟩
  · rintro ⟨hne, ⟨hlength, hgives⟩ | ⟨hlength, hgives⟩⟩
    · exact .ends bytes s' hlength hne hgives
    · exact .goesOn bytes s' hlength hne hgives

theorem textAt_error_iff : s.TextAt a n (.error f s') ↔
    ∃ bytes, (∀ b ∈ bytes, b ≠ 0) ∧ bytes.length < n ∧ s.FaultsBehind a bytes f s' := by
  constructor
  · intro h
    cases h with
    | stops text e s' hlength hne hfaults => exact ⟨text, hne, hlength, hfaults⟩
  · rintro ⟨bytes, hne, hlength, hfaults⟩
    exact .stops bytes f s' hlength hne hfaults

/-- No more bytes are read than are wanted. -/
theorem TextAt.after_readBytes {r : EStateM.Result Fault (AddressSpace σ) (List UInt8)} (h : s.TextAt a n r) :
    ∃ m ≤ n, after (readText a n) s = after (readBytes a m) s := by
  have hr := readText_of_textAt h
  cases h with
  | ends text s' hlength _ hgives =>
    refine ⟨(text ++ [0]).length, ?_, (after_ok hr).trans (after_ok hgives).symm⟩
    rw [List.length_append]
    exact hlength
  | goesOn text s' hlength _ hgives =>
    exact ⟨text.length, Nat.le_of_eq hlength, (after_ok hr).trans (after_ok hgives).symm⟩
  | stops text e s' hlength _ hfaults =>
    exact ⟨text.length + 1, hlength, (after_error hr).trans (after_error hfaults.readBytes).symm⟩

end Reading

/-! ## What stands in memory -/

section Legible

variable {s : AddressSpace Volume} {code : Bytes} {a : UInt16} {bytes : List UInt8} {f : Fault}

/-- Those bytes are read that stand in memory. -/
theorem Legible.gives_iff (h : s.Legible code) : (∃ s', s.Gives a bytes s') ↔ s.Spells a bytes := by
  obtain ⟨w, others, -, hothers, ⟨hlength, hread⟩ | ⟨hlength, hnone, hread⟩⟩ := h.readBytes a bytes.length
  · constructor
    · rintro ⟨s', hgives⟩
      cases hread.symm.trans hgives
      exact hothers
    · intro hbytes
      rw [hothers.unique hbytes hlength] at hread
      exact ⟨_, hread⟩
  · constructor
    · rintro ⟨s', hgives⟩
      cases hread.symm.trans hgives
    · intro hbytes
      have hthere := hbytes others.length _ (List.getElem?_eq_getElem hlength)
      rw [hnone] at hthere
      cases hthere

/-- There is a fault behind bytes exactly where none stands behind them, and it is the one for that address. -/
theorem Legible.faultsBehind_iff (h : s.Legible code) : (∃ s', s.FaultsBehind a bytes f s') ↔
    s.Spells a bytes ∧ s.image? (a + UInt16.ofNat bytes.length) = none ∧
      f = missing (a + UInt16.ofNat bytes.length) := by
  -- Reading moves nothing but the window, so that the byte behind is looked for in the same memory.
  have hbehind {s₁ : AddressSpace Volume} (hgives : s.Gives a bytes s₁) :
      (∃ s', AddressSpace.read (a + UInt16.ofNat bytes.length) s₁ = .error f s') ↔
        s.image? (a + UInt16.ofNat bytes.length) = none ∧ f = missing (a + UInt16.ofNat bytes.length) := by
    obtain ⟨w, others, hw, -, ⟨-, hread⟩ | ⟨-, -, hread⟩⟩ := h.readBytes a bytes.length
    · cases hread.symm.trans hgives
      obtain ⟨w', -, hnext⟩ := (h.withWindow hw).read (a + UInt16.ofNat bytes.length)
      rw [hnext, show ({ s with window := w } : AddressSpace Volume).image? = s.image? from rfl]
      cases s.image? (a + UInt16.ofNat bytes.length) <;> simp [eq_comm]
    · cases hread.symm.trans hgives
  rw [← h.gives_iff]
  constructor
  · rintro ⟨s', s₁, hgives, hread⟩
    exact ⟨⟨s₁, hgives⟩, (hbehind hgives).mp ⟨s', hread⟩⟩
  · rintro ⟨⟨s₁, hgives⟩, hmissing⟩
    obtain ⟨s', hread⟩ := (hbehind hgives).mpr hmissing
    exact ⟨s', s₁, hgives, hread⟩

end Legible

end AddressSpace

/-! ## Paths -/

namespace Turn

variable {σ : Type} [Storage σ] {t t' : Turn σ} {a : UInt16} {bytes : List UInt8}

/-- The path that a process names by some bytes. -/
def pathOf? (t : Turn σ) (bytes : List UInt8) : Option Path :=
  match Utf8.decode? bytes with
  | none => none
  | some chars =>
    if Path.accepts (String.ofList chars) then some (Path.resolve t.self.state.env.workDir (String.ofList chars))
    else none

theorem readPath_eq (t : Turn σ) (a : UInt16) : readPath a t =
    match AddressSpace.readText a textLimit t.space with
    | .ok bytes s => .ok (t.pathOf? bytes) (t.setSpace s)
    | .error f s => .error f (t.setSpace s) := by
  unfold readPath readText
  cases hr : AddressSpace.readText a textLimit t.space with
  | error f s =>
    refine bind_of_error ?_
    rw [access, hr]
  | ok bytes s =>
    have haccess : access (AddressSpace.readText a textLimit) t = .ok bytes (t.setSpace s) := by
      rw [access, hr]
    rw [bind_of_ok haccess]
    dsimp only
    unfold pathOf?
    cases Utf8.decode? bytes with
    | none => rfl
    | some chars =>
      dsimp only
      split
      · rw [get_bind]
        rfl
      · rfl

theorem readPath_ok_iff {p : Option Path} : readPath a t = .ok p t' ↔
    ∃ bytes s', t.space.TextAt a textLimit (.ok bytes s') ∧ t.pathOf? bytes = p ∧ t' = t.setSpace s' := by
  rw [readPath_eq]
  constructor
  · intro h
    cases hr : AddressSpace.readText a textLimit t.space with
    | error f s =>
      rw [hr] at h
      cases h
    | ok bytes s =>
      rw [hr] at h
      cases h
      exact ⟨bytes, s, AddressSpace.readText_iff.mp hr, rfl, rfl⟩
  · rintro ⟨bytes, s, htext, rfl, rfl⟩
    rw [AddressSpace.readText_of_textAt htext]

theorem readPath_error_iff {f : Fault} : readPath a t = .error f t' ↔
    ∃ s', t.space.TextAt a textLimit (.error f s') ∧ t' = t.setSpace s' := by
  rw [readPath_eq]
  constructor
  · intro h
    cases hr : AddressSpace.readText a textLimit t.space with
    | error e s =>
      rw [hr] at h
      cases h
      exact ⟨s, AddressSpace.readText_iff.mp hr, rfl⟩
    | ok bytes s =>
      rw [hr] at h
      cases h
  · rintro ⟨s, htext, rfl⟩
    rw [AddressSpace.readText_of_textAt htext]

theorem after_readPath (t : Turn σ) (a : UInt16) :
    after (readPath a) t = t.setSpace (after (AddressSpace.readText a textLimit) t.space) := by
  rw [after, readPath_eq, after]
  cases AddressSpace.readText a textLimit t.space <;> rfl

omit [Storage σ] in
/-- A process names a path by the bytes of a text that is not empty and not too long. -/
theorem pathOf?_eq_some_iff (hne : ∀ b ∈ bytes, b ≠ 0) {q : Path} : t.pathOf? bytes = some q ↔
    ∃ text, Utf8.bytes text = bytes ∧ 1 ≤ bytes.length ∧ bytes.length ≤ Path.maxSize ∧
      q.text = join t.self.state.env.workDir text := by
  unfold pathOf?
  constructor
  · intro h
    split at h
    · cases h
    · next chars hchars =>
      have hbytes : Utf8.bytes (String.ofList chars) = bytes := by
        rw [Utf8.bytes, String.toList_ofList, Utf8.decode?_eq_some_iff.mp hchars]
      split at h
      · next haccepts =>
        cases h
        simp only [Path.accepts, Bool.and_eq_true, decide_eq_true_eq, Utf8.size, hbytes] at haccepts
        refine ⟨String.ofList chars, hbytes, ?_, haccepts.1.2, rfl⟩
        have hlength := (Utf8.length_encode chars).1
        have hpos : chars ≠ [] := by
          rintro rfl
          exact haccepts.1.1 rfl
        rw [Utf8.decode?_eq_some_iff.mp hchars] at hlength
        have := List.length_pos_of_ne_nil hpos
        omega
      · cases h
  · rintro ⟨text, rfl, hpos, hsize, hq⟩
    have hchars : Utf8.decode? (Utf8.bytes text) = some text.toList := Utf8.decode?_eq_some_iff.mpr rfl
    have haccepts : Path.accepts text = true := by
      simp only [Path.accepts, Bool.and_eq_true, decide_eq_true_eq, Bool.not_eq_true', List.contains_eq_mem,
        decide_eq_false_iff_not]
      refine ⟨⟨?_, hsize⟩, fun hnul => ?_⟩
      · rintro rfl
        cases hpos
      · exact hne 0 (List.mem_flatMap.mpr ⟨_, hnul, List.mem_singleton.mpr rfl⟩) rfl
    rw [hchars]
    simp only [String.ofList_toList, haccepts, if_true]
    exact congrArg some (Path.text_injective hq).symm

omit [Storage σ] in
/-- Bytes name no path if they are too few or too many, or not those of a text. -/
theorem pathOf?_eq_none_iff (hne : ∀ b ∈ bytes, b ≠ 0) : t.pathOf? bytes = none ↔
    bytes = [] ∨ Path.maxSize < bytes.length ∨ ∀ text, Utf8.bytes text ≠ bytes := by
  rw [Option.eq_none_iff_forall_ne_some]
  constructor
  · intro h
    by_contra hnot
    simp only [not_or, not_forall, not_not, Nat.not_lt] at hnot
    obtain ⟨hpos, hsize, text, htext⟩ := hnot
    exact h (Path.resolve t.self.state.env.workDir text)
      ((pathOf?_eq_some_iff hne).mpr ⟨text, htext, List.length_pos_of_ne_nil hpos, hsize, rfl⟩)
  · rintro hnone q hq
    obtain ⟨text, htext, hpos, hsize, -⟩ := (pathOf?_eq_some_iff hne).mp hq
    rcases hnone with rfl | hlong | hbroken
    · cases hpos
    · omega
    · exact hbroken text htext

end Turn

open AddressSpace in
/-- Paths that are read from memory are never cut. A path is read exactly if there is a NUL within 64 bytes and those
before it are 1 to 63 bytes that form a text, and it is what the whole text denotes. There is none exactly if the bytes
before the NUL are none or form no text, or the first 64 bytes have no NUL, be they cut within a character or not. There
is a fault exactly if an address that comes earlier cannot be read, and it is that of the first such address. No more
than 64 bytes are read. Where the files of the process can be read and no earlier state of the program is shown, the
bytes are those that stand in memory. -/
theorem path_arguments_are_whole (t : Turn Volume) (a : UInt16) :
    let s := t.space
    (∀ q t', Turn.readPath a t = .ok (some q) t' ↔ ∃ text s', t' = t.setSpace s' ∧
      s.Gives a (Utf8.bytes text ++ [0]) s' ∧ (∀ b ∈ Utf8.bytes text, b ≠ 0) ∧
      1 ≤ (Utf8.bytes text).length ∧ (Utf8.bytes text).length ≤ 63 ∧ q.text = join t.self.state.env.workDir text) ∧
    (∀ t', Turn.readPath a t = .ok none t' ↔ ∃ bytes s', t' = t.setSpace s' ∧ (∀ b ∈ bytes, b ≠ 0) ∧
      (s.Gives a (bytes ++ [0]) s' ∧ bytes.length ≤ 63 ∧ (bytes = [] ∨ ∀ text, Utf8.bytes text ≠ bytes) ∨
        s.Gives a bytes s' ∧ bytes.length = 64)) ∧
    (∀ f t', Turn.readPath a t = .error f t' ↔ ∃ bytes s', t' = t.setSpace s' ∧ (∀ b ∈ bytes, b ≠ 0) ∧
      bytes.length ≤ 63 ∧ s.FaultsBehind a bytes f s') ∧
    (∃ n ≤ 64, after (Turn.readPath a) t = t.setSpace (after (readBytes a n) s)) ∧
    ∀ code, s.Legible code → ∀ bytes, ((∃ s', s.Gives a bytes s') ↔ s.Spells a bytes) ∧
      ∀ f, (∃ s', s.FaultsBehind a bytes f s') ↔ s.Spells a bytes ∧
        s.image? (a + UInt16.ofNat bytes.length) = none ∧ f = missing (a + UInt16.ofNat bytes.length) := by
  intro s
  have hlimit : Turn.textLimit = 64 := rfl
  have hmost : Path.maxSize = 63 := rfl
  refine ⟨?_, ?_, ?_, ?_, ?_⟩
  · intro q t'
    rw [Turn.readPath_ok_iff]
    constructor
    · rintro ⟨bytes, s', htext, hq, ht'⟩
      obtain ⟨hne, hfound⟩ := textAt_ok_iff.mp htext
      obtain ⟨text, rfl, hpos, hsize, hjoin⟩ := (Turn.pathOf?_eq_some_iff hne).mp hq
      obtain ⟨-, hgives⟩ | ⟨hlength, -⟩ := hfound
      · exact ⟨text, s', ht', hgives, hne, hpos, hsize, hjoin⟩
      · omega
    · rintro ⟨text, s', ht', hgives, hne, hpos, hsize, hjoin⟩
      exact ⟨Utf8.bytes text, s', textAt_ok_iff.mpr ⟨hne, .inl ⟨by omega, hgives⟩⟩,
        (Turn.pathOf?_eq_some_iff hne).mpr ⟨text, rfl, hpos, hsize, hjoin⟩, ht'⟩
  · intro t'
    rw [Turn.readPath_ok_iff]
    constructor
    · rintro ⟨bytes, s', htext, hnone, ht'⟩
      obtain ⟨hne, ⟨hlength, hgives⟩ | ⟨hlength, hgives⟩⟩ := textAt_ok_iff.mp htext
      · refine ⟨bytes, s', ht', hne, .inl ⟨hgives, by omega, ?_⟩⟩
        rcases (Turn.pathOf?_eq_none_iff hne).mp hnone with hempty | hlong | hbroken
        · exact .inl hempty
        · omega
        · exact .inr hbroken
      · exact ⟨bytes, s', ht', hne, .inr ⟨hgives, hlength⟩⟩
    · rintro ⟨bytes, s', ht', hne, ⟨hgives, hlength, hbad⟩ | ⟨hgives, hlength⟩⟩
      · exact ⟨bytes, s', textAt_ok_iff.mpr ⟨hne, .inl ⟨by omega, hgives⟩⟩,
          (Turn.pathOf?_eq_none_iff hne).mpr (hbad.imp_right .inr), ht'⟩
      · exact ⟨bytes, s', textAt_ok_iff.mpr ⟨hne, .inr ⟨hlength, hgives⟩⟩,
          (Turn.pathOf?_eq_none_iff hne).mpr (.inr (.inl (by omega))), ht'⟩
  · intro f t'
    rw [Turn.readPath_error_iff]
    constructor
    · rintro ⟨s', htext, ht'⟩
      obtain ⟨bytes, hne, hlength, hfaults⟩ := textAt_error_iff.mp htext
      exact ⟨bytes, s', ht', hne, Nat.le_of_lt_succ hlength, hfaults⟩
    · rintro ⟨bytes, s', ht', hne, hlength, hfaults⟩
      exact ⟨s', textAt_error_iff.mpr ⟨bytes, hne, Nat.lt_succ_of_le hlength, hfaults⟩, ht'⟩
  · obtain ⟨n, hn, hafter⟩ := (textAt_readText s a Turn.textLimit).after_readBytes
    exact ⟨n, hn, by rw [Turn.after_readPath, hafter]⟩
  · intro code hlegible bytes
    refine ⟨hlegible.gives_iff, ?_⟩
    intro f
    exact hlegible.faultsBehind_iff

/-- A process whose program holds a path, a text that is none, and a text that goes on behind its end. -/
def namingTurn : Turn Volume where
  kernel := Kernel.new (((((Volume.empty.addFile (Path.ofText "/a") #[0x62, 0, 0xFF, 0, 0x63]).2.addFile
    (Path.ofText "/tmp/proc0") (Array.replicate Snapshot.blockSize 0)).2.openPath (Path.ofText "/a")).2.openPath
    (Path.ofText "/tmp/proc0")).2)
  self := { pid := 0, program := ⟨1⟩, backing := ⟨2⟩, backingPath := Path.ofText "/tmp/proc0",
            state := { env := { workDir := "/d" } } }

theorem path_arguments_are_whole_of_namingTurn :
    (∃ q t', Turn.readPath 0 namingTurn = .ok (some q) t' ∧ q.text = "/d/b") ∧
      (∃ t', Turn.readPath 2 namingTurn = .ok none t') ∧
        ∃ t', Turn.readPath 4 namingTurn = .error (.pastProgram 5) t' := by
  have hlegible : namingTurn.space.Legible #[0x62, 0, 0xFF, 0, 0x63] :=
    ⟨by decide +kernel, Window.shows_of_empty rfl _, by decide +kernel⟩
  have hread := fun a => (path_arguments_are_whole namingTurn a).2.2.2.2 _ hlegible
  refine ⟨?_, ?_, ?_⟩
  · obtain ⟨s', hgives⟩ := (hread 0 (Utf8.bytes "b" ++ [0])).1.mpr (by decide +kernel)
    exact ⟨Path.ofText "/d/b", _,
      ((path_arguments_are_whole namingTurn 0).1 _ _).mpr
        ⟨"b", s', rfl, hgives, by decide +kernel, by decide +kernel, by decide +kernel, by decide +kernel⟩,
      by decide +kernel⟩
  · obtain ⟨s', hgives⟩ := (hread 2 [0xFF, 0]).1.mpr (by decide +kernel)
    refine ⟨_, ((path_arguments_are_whole namingTurn 2).2.1 _).mpr
      ⟨[0xFF], s', rfl, by simp, .inl ⟨hgives, by simp, .inr fun text htext => ?_⟩⟩⟩
    cases (show Utf8.decode? [0xFF] = none by decide +kernel).symm.trans (Utf8.decode?_eq_some_iff.mpr htext)
  · obtain ⟨s', hfaults⟩ := ((hread 4 [0x63]).2 (.pastProgram 5)).mpr
      ⟨by decide +kernel, by decide +kernel, by decide +kernel⟩
    exact ⟨_, ((path_arguments_are_whole namingTurn 4).2.2.1 _ _).mpr ⟨[0x63], s', rfl, by simp, by simp, hfaults⟩⟩

end CoopKernel
