import CoopKernel.Proofs.Text.Utf8

/-!
# Strict decoding

Strict decoding accepts the byte forms of texts and nothing else, and gives back the text. One half holds since
the bytes of a character spell it. For the other half, `Pending.After` tells which bytes have been read of the
sequence under way: they are the first bytes of whatever character completes it.
-/

namespace CoopKernel.Utf8

/-- A byte string decodes to a text if its sequences are the characters of the text, and none is broken. -/
theorem decode?_eq_some_iff_scan {bytes : List UInt8} {text : List Char} :
    decode? bytes = some text ↔ scan bytes = text.map some := by
  have hall (sequences : List (Option Char)) (text : List Char) :
      sequences.mapM id = some text ↔ sequences = text.map some := by
    induction sequences generalizing text with
    | nil => cases text <;> simp
    | cons first sequences ih =>
      cases first with
      | none => cases text <;> simp
      | some c =>
        have hcons : (some c :: sequences).mapM id = (sequences.mapM id).map (c :: ·) := by
          rw [List.mapM_cons]
          cases sequences.mapM id <;> rfl
        cases text with
        | nil => simp [hcons]
        | cons d text =>
          rw [hcons, List.map_cons, List.cons.injEq, ← ih]
          cases sequences.mapM id <;> simp
  exact hall (scan bytes) text

theorem scan_encode (text : List Char) : scan (encode text) = text.map some := by
  unfold scan
  induction text with
  | nil => rfl
  | cons c text ih =>
    rw [encode, List.flatMap_cons, (spells_encodeChar c).scanFrom, ← encode, ih, List.map_cons]

/-! ## The bytes of a sequence under way -/

theorem ofNat_eq {b : UInt8} {n : Nat} (h : b.toNat = n) : UInt8.ofNat n = b := by
  rw [← h, UInt8.ofNat_toNat]

/-- A sequence is under way after some bytes, which leave no room for an overlong form, a surrogate or a number
past the last character. -/
inductive Pending.After : List UInt8 → Pending → Prop
  | two {a : UInt8} : 0xC2 ≤ a.toNat → a.toNat < 0xE0 → After [a] ⟨a.toNat - 0xC0, 1, 0x80, 0xBF⟩
  | three {a : UInt8} : 0xE0 ≤ a.toNat → a.toNat < 0xF0 → After [a]
      ⟨a.toNat - 0xE0, 2, if a.toNat = 0xE0 then 0xA0 else 0x80, if a.toNat = 0xED then 0x9F else 0xBF⟩
  | threeSecond {a b : UInt8} {bits : Nat} : 0xE0 ≤ a.toNat → a.toNat < 0xF0 → 0x80 ≤ b.toNat → b.toNat < 0xC0 →
      bits = (a.toNat - 0xE0) * 64 + (b.toNat - 0x80) → 32 ≤ bits → bits < 864 ∨ 896 ≤ bits →
      After [a, b] ⟨bits, 1, 0x80, 0xBF⟩
  | four {a : UInt8} : 0xF0 ≤ a.toNat → a.toNat < 0xF5 → After [a]
      ⟨a.toNat - 0xF0, 3, if a.toNat = 0xF0 then 0x90 else 0x80, if a.toNat = 0xF4 then 0x8F else 0xBF⟩
  | fourSecond {a b : UInt8} {bits : Nat} : 0xF0 ≤ a.toNat → a.toNat < 0xF5 → 0x80 ≤ b.toNat → b.toNat < 0xC0 →
      bits = (a.toNat - 0xF0) * 64 + (b.toNat - 0x80) → 16 ≤ bits → bits < 272 →
      After [a, b] ⟨bits, 2, 0x80, 0xBF⟩
  | fourThird {a b c : UInt8} {bits : Nat} : 0xF0 ≤ a.toNat → a.toNat < 0xF5 → 0x80 ≤ b.toNat → b.toNat < 0xC0 →
      0x80 ≤ c.toNat → c.toNat < 0xC0 →
      bits = ((a.toNat - 0xF0) * 64 + (b.toNat - 0x80)) * 64 + (c.toNat - 0x80) → 1024 ≤ bits → bits < 17408 →
      After [a, b, c] ⟨bits, 1, 0x80, 0xBF⟩

/-- What has been read: nothing of a sequence, or the first bytes of one. -/
def After (read : List UInt8) : Option Pending → Prop
  | none => read = []
  | some p => p.After read

/-- A byte is read further into a sequence, or as the last one of a character, or as a broken sequence. -/
def Continues (read : List UInt8) (b : UInt8) : Progress → Prop
  | ([], next) => next.isSome ∧ After (read ++ [b]) next
  | ([some c], next) => next = none ∧ encodeChar c = read ++ [b]
  | (sequences, _) => none ∈ sequences

/-- Where a byte does not go on with what was read, something is broken. -/
theorem continues_broken (read : List UInt8) (b : UInt8) (r : Progress) :
    Continues read b (none :: r.1, r.2) := by
  rcases r with ⟨done, next⟩
  cases done <;> exact List.mem_cons_self

theorem toNat_ofNat_of_valid {n : Nat} (h : n < 0xD800 ∨ 0xDFFF < n ∧ n < 0x110000) : (Char.ofNat n).toNat = n := by
  rw [Char.ofNat, dif_pos h]
  rfl

theorem continues_begin (b : UInt8) : Continues [] b (begin b) := by
  have hb := b.toNat_lt
  unfold begin
  dsimp only
  by_cases hone : b.toNat < 0x80
  · rw [if_pos hone]
    refine ⟨rfl, ?_⟩
    rw [encodeChar, toNat_ofNat_of_valid (by omega), if_pos hone, UInt8.ofNat_toNat]
    rfl
  · rw [if_neg hone]
    by_cases hnone : b.toNat < 0xC2
    · rw [if_pos hnone]
      exact List.mem_singleton.mpr rfl
    · rw [if_neg hnone]
      by_cases htwo : b.toNat < 0xE0
      · rw [if_pos htwo]
        exact ⟨rfl, .two (by omega) htwo⟩
      · rw [if_neg htwo]
        by_cases hthree : b.toNat < 0xF0
        · rw [if_pos hthree]
          exact ⟨rfl, .three (by omega) hthree⟩
        · rw [if_neg hthree]
          by_cases hfour : b.toNat < 0xF5
          · rw [if_pos hfour]
            exact ⟨rfl, .four (by omega) hfour⟩
          · rw [if_neg hfour]
            exact List.mem_singleton.mpr rfl

/-! ## Characters from their bytes -/

theorem encodeChar_of_two {a b : UInt8} (ha : 0xC2 ≤ a.toNat) (ha' : a.toNat < 0xE0) (hb : 0x80 ≤ b.toNat)
    (hb' : b.toNat < 0xC0) : encodeChar (Char.ofNat ((a.toNat - 0xC0) * 64 + b.toNat % 64)) = [a, b] := by
  generalize hn : (a.toNat - 0xC0) * 64 + b.toNat % 64 = n
  have hfirst : UInt8.ofNat (0xC0 + n / 64) = a := ofNat_eq (by omega)
  have hsecond : UInt8.ofNat (0x80 + n % 64) = b := ofNat_eq (by omega)
  rw [encodeChar, toNat_ofNat_of_valid (by omega), if_neg (by omega), if_pos (by omega), hfirst, hsecond]

theorem encodeChar_of_three {a b c : UInt8} {bits : Nat} (ha : 0xE0 ≤ a.toNat) (ha' : a.toNat < 0xF0)
    (hb : 0x80 ≤ b.toNat) (hb' : b.toNat < 0xC0) (hbits : bits = (a.toNat - 0xE0) * 64 + (b.toNat - 0x80))
    (hlow : 32 ≤ bits) (hgap : bits < 864 ∨ 896 ≤ bits) (hc : 0x80 ≤ c.toNat) (hc' : c.toNat < 0xC0) :
    encodeChar (Char.ofNat (bits * 64 + c.toNat % 64)) = [a, b, c] := by
  generalize hn : bits * 64 + c.toNat % 64 = n
  have hfirst : UInt8.ofNat (0xE0 + n / 4096) = a := ofNat_eq (by omega)
  have hsecond : UInt8.ofNat (0x80 + n / 64 % 64) = b := ofNat_eq (by omega)
  have hthird : UInt8.ofNat (0x80 + n % 64) = c := ofNat_eq (by omega)
  rw [encodeChar, toNat_ofNat_of_valid (by omega), if_neg (by omega), if_neg (by omega), if_pos (by omega),
    hfirst, hsecond, hthird]

theorem encodeChar_of_four {a b c d : UInt8} {bits : Nat} (ha : 0xF0 ≤ a.toNat) (ha' : a.toNat < 0xF5)
    (hb : 0x80 ≤ b.toNat) (hb' : b.toNat < 0xC0) (hc : 0x80 ≤ c.toNat) (hc' : c.toNat < 0xC0)
    (hbits : bits = ((a.toNat - 0xF0) * 64 + (b.toNat - 0x80)) * 64 + (c.toNat - 0x80))
    (hlow : 1024 ≤ bits) (hhigh : bits < 17408) (hd : 0x80 ≤ d.toNat) (hd' : d.toNat < 0xC0) :
    encodeChar (Char.ofNat (bits * 64 + d.toNat % 64)) = [a, b, c, d] := by
  generalize hn : bits * 64 + d.toNat % 64 = n
  have hfirst : UInt8.ofNat (0xF0 + n / 262144) = a := ofNat_eq (by omega)
  have hsecond : UInt8.ofNat (0x80 + n / 4096 % 64) = b := ofNat_eq (by omega)
  have hthird : UInt8.ofNat (0x80 + n / 64 % 64) = c := ofNat_eq (by omega)
  have hfourth : UInt8.ofNat (0x80 + n % 64) = d := ofNat_eq (by omega)
  rw [encodeChar, toNat_ofNat_of_valid (by omega), if_neg (by omega), if_neg (by omega), if_neg (by omega),
    hfirst, hsecond, hthird, hfourth]

/-! ## One byte after the other -/

theorem continues_advance {read : List UInt8} {pending : Option Pending} (h : After read pending) (b : UInt8) :
    Continues read b (advance pending b) := by
  cases pending with
  | none =>
    cases h
    exact continues_begin b
  | some p =>
    unfold advance
    dsimp only
    by_cases hrange : p.least ≤ b.toNat ∧ b.toNat ≤ p.greatest
    · rw [if_pos hrange]
      obtain ⟨hleast, hgreatest⟩ := hrange
      have h : p.After read := h
      cases h with
      | two ha ha' =>
        dsimp only at hleast hgreatest ⊢
        exact ⟨rfl, encodeChar_of_two ha ha' hleast (by omega)⟩
      | three ha ha' =>
        dsimp only at hleast hgreatest ⊢
        refine ⟨rfl, .threeSecond ha ha' ?_ ?_ ?_ ?_ ?_⟩ <;> split at hleast <;> split at hgreatest <;> omega
      | threeSecond ha ha' hb hb' hbits hlow hgap =>
        dsimp only at hleast hgreatest ⊢
        exact ⟨rfl, encodeChar_of_three ha ha' hb hb' hbits hlow hgap hleast (by omega)⟩
      | four ha ha' =>
        dsimp only at hleast hgreatest ⊢
        refine ⟨rfl, .fourSecond ha ha' ?_ ?_ ?_ ?_ ?_⟩ <;> split at hleast <;> split at hgreatest <;> omega
      | fourSecond ha ha' hb hb' hbits hlow hhigh =>
        dsimp only at hleast hgreatest ⊢
        refine ⟨rfl, .fourThird ha ha' hb hb' ?_ ?_ ?_ ?_ ?_⟩ <;> omega
      | fourThird ha ha' hb hb' hc hc' hbits hlow hhigh =>
        dsimp only at hleast hgreatest ⊢
        exact ⟨rfl, encodeChar_of_four ha ha' hb hb' hc hc' hbits hlow hhigh hleast (by omega)⟩
    · rw [if_neg hrange]
      exact continues_broken read b (begin b)

/-- Bytes in which no sequence is broken are those of the characters that they are read as. -/
theorem encode_of_scanFrom {read bytes : List UInt8} {pending : Option Pending} {text : List Char}
    (h : After read pending) (hscan : scanFrom pending bytes = text.map some) : encode text = read ++ bytes := by
  induction bytes generalizing read pending text with
  | nil =>
    cases pending with
    | none =>
      cases h
      have hempty : text = [] := List.map_eq_nil_iff.mp hscan.symm
      rw [hempty]
      rfl
    | some p =>
      cases text with
      | nil => cases hscan
      | cons c text => cases hscan
  | cons b bytes ih =>
    have hnext := continues_advance h b
    rw [scanFrom] at hscan
    generalize advance pending b = r at hnext hscan
    obtain ⟨done, next⟩ := r
    cases done with
    | nil =>
      rw [ih hnext.2 hscan, List.append_assoc]
      rfl
    | cons first done =>
      cases text with
      | nil => cases hscan
      | cons c text =>
        obtain ⟨hfirst, hrest⟩ := List.cons.inj hscan
        subst hfirst
        cases done with
        | nil =>
          obtain ⟨rfl, hc⟩ : next = none ∧ encodeChar c = read ++ [b] := hnext
          have hrest := ih (show After [] none from rfl) hrest
          rw [encode, List.flatMap_cons, hc, ← encode, hrest, List.append_assoc]
          rfl
        | cons second done =>
          have hbroken : none ∈ some c :: second :: done := hnext
          have hnone : none ∈ (c :: text).map some := by
            rw [← hscan]
            exact List.mem_append_left _ hbroken
          simp at hnone

/-- Strict decoding undoes encoding, and accepts nothing that encoding does not give. -/
theorem decode?_eq_some_iff {bytes : List UInt8} {text : List Char} :
    decode? bytes = some text ↔ encode text = bytes := by
  rw [decode?_eq_some_iff_scan]
  constructor
  · intro hscan
    exact encode_of_scanFrom (show After [] none from rfl) hscan
  · rintro rfl
    exact scan_encode text

end CoopKernel.Utf8
