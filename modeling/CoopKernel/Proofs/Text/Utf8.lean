import CoopKernel.Text.Utf8

/-!
# Text cut between bytes

The bytes of a text can be cut anywhere, also in the middle of a character. What lossy decoding makes of
the rest is described by `cut`: the characters that are there as a whole and, if there is a piece of one
more, a replacement character for that. The replacement has up to two bytes more than the piece, so
that its bytes can be cut again, but what is left of them is again a piece of one character.
-/

namespace CoopKernel.Utf8

/-- After what is under way, the bytes spell a character, and no fewer of them do. -/
def Spells (c : Char) : Option Pending → List UInt8 → Prop
  | _, [] => False
  | pending, [b] => advance pending b = ([some c], none)
  | pending, b :: rest => ∃ next, advance pending b = ([], some next) ∧ Spells c (some next) rest

/-- Bytes that spell a character are read as that character. -/
theorem Spells.scanFrom {c : Char} {pending : Option Pending} {bytes : List UInt8}
    (h : Spells c pending bytes) (rest : List UInt8) :
    scanFrom pending (bytes ++ rest) = some c :: scanFrom none rest := by
  induction bytes generalizing pending with
  | nil => cases h
  | cons b bytes ih =>
    cases bytes with
    | nil =>
      have hb : advance pending b = ([some c], none) := h
      rw [List.singleton_append, Utf8.scanFrom, hb, List.singleton_append]
    | cons b' bytes =>
      obtain ⟨next, hb, hnext⟩ := h
      rw [List.cons_append, Utf8.scanFrom, hb, List.nil_append, ih hnext]

/-- A piece of them is broken. -/
theorem Spells.scanFrom_take {c : Char} {pending : Option Pending} {bytes : List UInt8}
    (h : Spells c pending bytes) {k : Nat} (hk : k < bytes.length) :
    Utf8.scanFrom pending (bytes.take k) = if pending.isSome ∨ 0 < k then [none] else [] := by
  induction bytes generalizing pending k with
  | nil => cases h
  | cons b bytes ih =>
    cases k with
    | zero => simp only [List.take_zero, Utf8.scanFrom, Nat.lt_irrefl, or_false]
    | succ k =>
      have hk' : k < bytes.length := Nat.lt_of_succ_lt_succ hk
      cases bytes with
      | nil => cases hk'
      | cons b' bytes =>
        obtain ⟨next, hb, hnext⟩ := h
        rw [List.take_succ_cons, Utf8.scanFrom, hb, List.nil_append, ih hnext hk',
          if_pos (.inl rfl), if_pos (.inr (Nat.succ_pos k))]

/-! ## The bytes of a character -/

theorem toNat_ofNat {n : Nat} (h : n < 256) : (UInt8.ofNat n).toNat = n := by
  rw [UInt8.toNat_ofNat', Nat.mod_eq_of_lt h]

/-- A byte with six more bits, more of which are to come. -/
theorem advance_next {bits missing least greatest m : Nat} (hm : m < 64) (hleast : least ≤ 0x80 + m)
    (hgreatest : 0x80 + m ≤ greatest) (hmissing : 1 < missing) :
    advance (some ⟨bits, missing, least, greatest⟩) (UInt8.ofNat (0x80 + m)) =
      ([], some ⟨bits * 64 + m, missing - 1, 0x80, 0xBF⟩) := by
  have hb := toNat_ofNat (show 0x80 + m < 256 by omega)
  have hbits : (0x80 + m) % 64 = m := by omega
  simp only [advance, hb, if_pos (And.intro hleast hgreatest), if_neg (Nat.not_le.mpr hmissing), hbits]

/-- A byte with the last six bits. -/
theorem advance_last {bits least greatest m : Nat} (hm : m < 64) (hleast : least ≤ 0x80 + m)
    (hgreatest : 0x80 + m ≤ greatest) :
    advance (some ⟨bits, 1, least, greatest⟩) (UInt8.ofNat (0x80 + m)) =
      ([some (Char.ofNat (bits * 64 + m))], none) := by
  have hb := toNat_ofNat (show 0x80 + m < 256 by omega)
  have hbits : (0x80 + m) % 64 = m := by omega
  simp only [advance, hb, if_pos (And.intro hleast hgreatest), if_pos (Nat.le_refl 1), hbits]

theorem begin_two {n : Nat} (h : 0x80 ≤ n) (h' : n < 0x800) :
    begin (UInt8.ofNat (0xC0 + n / 64)) = ([], some ⟨n / 64, 1, 0x80, 0xBF⟩) := by
  have hb := toNat_ofNat (show 0xC0 + n / 64 < 256 by omega)
  simp only [begin, hb]
  rw [if_neg (by omega), if_neg (by omega), if_pos (by omega), Nat.add_sub_cancel_left]

theorem begin_three {n : Nat} (h' : n < 0x10000) :
    begin (UInt8.ofNat (0xE0 + n / 4096)) = ([], some ⟨n / 4096, 2,
      if n / 4096 = 0 then 0xA0 else 0x80, if n / 4096 = 0xD then 0x9F else 0xBF⟩) := by
  have hb := toNat_ofNat (show 0xE0 + n / 4096 < 256 by omega)
  have hleast : 0xE0 + n / 4096 = 0xE0 ↔ n / 4096 = 0 := by omega
  have hgreatest : 0xE0 + n / 4096 = 0xED ↔ n / 4096 = 0xD := by omega
  simp only [begin, hb, hleast, hgreatest]
  rw [if_neg (by omega), if_neg (by omega), if_neg (by omega), if_pos (by omega),
    Nat.add_sub_cancel_left]

theorem begin_four {n : Nat} (h' : n < 0x110000) :
    begin (UInt8.ofNat (0xF0 + n / 262144)) = ([], some ⟨n / 262144, 3,
      if n / 262144 = 0 then 0x90 else 0x80, if n / 262144 = 4 then 0x8F else 0xBF⟩) := by
  have hb := toNat_ofNat (show 0xF0 + n / 262144 < 256 by omega)
  have hleast : 0xF0 + n / 262144 = 0xF0 ↔ n / 262144 = 0 := by omega
  have hgreatest : 0xF0 + n / 262144 = 0xF4 ↔ n / 262144 = 4 := by omega
  simp only [begin, hb, hleast, hgreatest]
  rw [if_neg (by omega), if_neg (by omega), if_neg (by omega), if_neg (by omega), if_pos (by omega),
    Nat.add_sub_cancel_left]

theorem spells_encodeChar (c : Char) : Spells c none (encodeChar c) := by
  have hchar : Char.ofNat c.toNat = c := Char.ofNat_toNat c
  have hvalid : c.toNat < 0xD800 ∨ 0xDFFF < c.toNat ∧ c.toNat < 0x110000 := c.valid
  unfold encodeChar
  generalize c.toNat = n at hchar hvalid
  dsimp only
  split
  · next hone =>
    have hb := toNat_ofNat (show n < 256 by omega)
    simp only [Spells, advance, begin, hb, if_pos hone, hchar]
  · split
    · next htwo =>
      refine ⟨_, begin_two (by omega) htwo, ?_⟩
      rw [Spells, advance_last (by omega) (by omega) (by omega), show n / 64 * 64 + n % 64 = n by omega,
        hchar]
    · split
      · next hthree =>
        refine ⟨_, begin_three hthree, _, advance_next (by omega) ?_ ?_ (by omega), ?_⟩
        · split <;> omega
        · split <;> omega
        · rw [Spells, advance_last (by omega) (by omega) (by omega),
            show (n / 4096 * 64 + n / 64 % 64) * 64 + n % 64 = n by omega, hchar]
      · refine ⟨_, begin_four (by omega), _, advance_next (by omega) ?_ ?_ (by omega), _,
          advance_next (by omega) (by omega) (by omega) (by omega), ?_⟩
        · split <;> omega
        · split <;> omega
        · rw [Spells, advance_last (by omega) (by omega) (by omega),
            show ((n / 262144 * 64 + n / 4096 % 64) * 64 + n / 64 % 64) * 64 + n % 64 = n by omega,
            hchar]

/-! ## Cut texts -/

/-- What is read of a text of which only so many bytes are left. -/
def cut : Nat → List Char → List Char
  | _, [] => []
  | n, c :: rest =>
    if (encodeChar c).length ≤ n then c :: cut (n - (encodeChar c).length) rest
    else if n = 0 then [] else [replacement]

theorem decodeLossy_take_encode (n : Nat) (text : List Char) :
    decodeLossy ((encode text).take n) = cut n text := by
  unfold decodeLossy scan
  induction text generalizing n with
  | nil => simp [encode, cut, scanFrom]
  | cons c text ih =>
    have hspells := spells_encodeChar c
    rw [encode, List.flatMap_cons, List.take_append, cut]
    split
    · next hwhole =>
      rw [List.take_of_length_le hwhole, hspells.scanFrom, List.map_cons, ← encode, ih]
      rfl
    · next hpiece =>
      rw [show n - (encodeChar c).length = 0 by omega, List.take_zero, List.append_nil,
        hspells.scanFrom_take (Nat.not_le.mp hpiece)]
      by_cases hn : n = 0
      · rw [if_pos hn, if_neg (by simp [hn])]
        rfl
      · rw [if_neg hn, if_pos (.inr (Nat.pos_of_ne_zero hn))]
        rfl

/-- What is read of a cut text stays the same when its bytes are cut again. -/
theorem cut_cut (n : Nat) (text : List Char) : cut n (cut n text) = cut n text := by
  induction text generalizing n with
  | nil => rfl
  | cons c text ih =>
    by_cases hwhole : (encodeChar c).length ≤ n
    · rw [cut, if_pos hwhole, cut, if_pos hwhole, ih]
    · by_cases hn : n = 0
      · rw [cut, if_neg hwhole, if_pos hn]
        rfl
      · rw [cut, if_neg hwhole, if_neg hn, cut]
        split <;> rfl

/-- A text that is short enough is not cut. -/
theorem cut_of_length_le {n : Nat} {text : List Char} (h : (encode text).length ≤ n) :
    cut n text = text := by
  induction text generalizing n with
  | nil => rfl
  | cons c text ih =>
    rw [encode, List.flatMap_cons, List.length_append, ← encode] at h
    rw [cut, if_pos (by omega), ih (by omega)]

/-- A cut text has no characters but those of the text and the replacement. -/
theorem mem_cut {n : Nat} {text : List Char} {c : Char} (h : c ∈ cut n text) :
    c ∈ text ∨ c = replacement := by
  induction text generalizing n with
  | nil => cases h
  | cons c' text ih =>
    rw [cut] at h
    split at h
    · rcases List.mem_cons.mp h with rfl | h
      · exact .inl List.mem_cons_self
      · exact (ih h).imp_left (List.mem_cons_of_mem c')
    · split at h
      · cases h
      · exact .inr (List.mem_singleton.mp h)

/-! ## Texts up to a NUL -/

/-- No other character than a NUL has a byte that is zero. -/
theorem ne_zero_of_mem_encodeChar {c : Char} (hc : c ≠ '\x00') {b : UInt8} (hb : b ∈ encodeChar c) :
    b ≠ 0 := by
  have hn : c.toNat ≠ 0 := fun he => hc (by rw [← Char.ofNat_toNat c, he])
  have hvalid : c.toNat < 0xD800 ∨ 0xDFFF < c.toNat ∧ c.toNat < 0x110000 := c.valid
  have hbyte (n : Nat) (h : 0 < n) (h' : n < 256) : UInt8.ofNat n ≠ 0 := fun he => by
    have hzero := congrArg UInt8.toNat he
    rw [toNat_ofNat h'] at hzero
    exact Nat.ne_of_gt h hzero
  unfold encodeChar at hb
  generalize c.toNat = n at hn hvalid hb
  dsimp only at hb
  split at hb
  · rw [List.mem_singleton.mp hb]
    exact hbyte _ (by omega) (by omega)
  · split at hb
    · simp only [List.mem_cons, List.not_mem_nil, or_false] at hb
      rcases hb with rfl | rfl <;> exact hbyte _ (by omega) (by omega)
    · split at hb
      · simp only [List.mem_cons, List.not_mem_nil, or_false] at hb
        rcases hb with rfl | rfl | rfl <;> exact hbyte _ (by omega) (by omega)
      · simp only [List.mem_cons, List.not_mem_nil, or_false] at hb
        rcases hb with rfl | rfl | rfl | rfl <;> exact hbyte _ (by omega) (by omega)

/-- The bytes before the first that is zero are those of the characters before the first NUL. -/
theorem takeWhile_encode (text : List Char) :
    (encode text).takeWhile (· ≠ 0) = encode (text.takeWhile (· ≠ '\x00')) := by
  induction text with
  | nil => rfl
  | cons c text ih =>
    rw [encode, List.flatMap_cons, ← encode]
    by_cases hc : c = '\x00'
    · subst hc
      rfl
    · rw [List.takeWhile_append_of_pos fun b hb => decide_eq_true (ne_zero_of_mem_encodeChar hc hb), ih,
        List.takeWhile_cons, if_pos (decide_eq_true hc)]
      rfl

/-! ## Lengths -/

theorem encode_append (text more : List Char) : encode (text ++ more) = encode text ++ encode more :=
  List.flatMap_append

theorem length_encodeChar (c : Char) : 1 ≤ (encodeChar c).length ∧ (encodeChar c).length ≤ 4 := by
  unfold encodeChar
  dsimp only
  split
  · simp
  · split
    · simp
    · split <;> simp

/-- A text has at most as many characters as bytes, and at most four bytes a character. -/
theorem length_encode (text : List Char) :
    text.length ≤ (encode text).length ∧ (encode text).length ≤ 4 * text.length := by
  induction text with
  | nil => exact ⟨Nat.le_refl 0, Nat.le_refl 0⟩
  | cons c text ih =>
    have hc := length_encodeChar c
    rw [encode, List.flatMap_cons, List.length_append, ← encode, List.length_cons]
    omega

/-- A byte ends no more sequences than have begun. -/
theorem length_advance (pending : Option Pending) (b : UInt8) :
    (advance pending b).1.length + (advance pending b).2.toList.length ≤ pending.toList.length + 1 := by
  have hbegin : (begin b).1.length + (begin b).2.toList.length ≤ 1 := by
    unfold begin
    dsimp only
    repeat' split
    all_goals simp
  cases pending with
  | none => exact hbegin
  | some p =>
    unfold advance
    dsimp only
    split
    · split <;> simp
    · simp only [List.length_cons, Option.toList_some, List.length_nil]
      omega

/-- There are at most as many sequences as bytes. -/
theorem length_scanFrom (pending : Option Pending) (bytes : List UInt8) :
    (scanFrom pending bytes).length ≤ pending.toList.length + bytes.length := by
  induction bytes generalizing pending with
  | nil => cases pending <;> simp [scanFrom]
  | cons b bytes ih =>
    have hb := length_advance pending b
    have hrest := ih (advance pending b).2
    rw [scanFrom, List.length_append, List.length_cons]
    omega

theorem length_decodeLossy (bytes : List UInt8) : (decodeLossy bytes).length ≤ bytes.length := by
  have hscan := length_scanFrom none bytes
  simp only [Option.toList_none, List.length_nil, Nat.zero_add] at hscan
  rw [decodeLossy, List.length_map]
  exact hscan

/-! ## Texts without a NUL -/

/-- What the bits of a sequence under way can be, so that whatever completes it is a character, and no
NUL. -/
inductive Pending.Proper : Pending → Prop
  | last {bits : Nat} : 2 ≤ bits → bits < 864 ∨ 895 < bits → bits < 17408 → Proper ⟨bits, 1, 0x80, 0xBF⟩
  | second {bits : Nat} : 16 ≤ bits → bits < 272 → Proper ⟨bits, 2, 0x80, 0xBF⟩
  | three {n : Nat} : 0xE0 ≤ n → n < 0xF0 →
      Proper ⟨n - 0xE0, 2, if n = 0xE0 then 0xA0 else 0x80, if n = 0xED then 0x9F else 0xBF⟩
  | four {n : Nat} : 0xF0 ≤ n → n < 0xF5 →
      Proper ⟨n - 0xF0, 3, if n = 0xF0 then 0x90 else 0x80, if n = 0xF4 then 0x8F else 0xBF⟩

/-- After a byte, no character was a NUL, and what is under way is proper. -/
def Progress.Proper (r : Progress) : Prop :=
  (∀ c, some c ∈ r.1 → c ≠ '\x00') ∧ ∀ p, r.2 = some p → p.Proper

theorem ofNat_ne_nul {n : Nat} (h : n.isValidChar) (hn : n ≠ 0) : Char.ofNat n ≠ '\x00' := by
  intro he
  have hnat : (Char.ofNat n).toNat = n := by
    rw [Char.ofNat, dif_pos h]
    rfl
  rw [he] at hnat
  exact hn hnat.symm

theorem begin_proper {b : UInt8} (hb : b ≠ 0) : Progress.Proper (begin b) := by
  have hn : b.toNat ≠ 0 := fun he => hb (UInt8.toNat_inj.mp he)
  have hfault : Progress.Proper ([none], none) := ⟨by simp, nofun⟩
  have hpending {p : Pending} (hp : p.Proper) : Progress.Proper ([], some p) :=
    ⟨nofun, fun q hq => Option.some.inj hq ▸ hp⟩
  unfold begin
  dsimp only
  split
  · refine ⟨?_, nofun⟩
    intro c hc
    simp only [List.mem_singleton, Option.some.injEq] at hc
    rw [hc]
    exact ofNat_ne_nul (.inl (by omega)) hn
  · split
    · exact hfault
    · split
      · exact hpending (.last (by omega) (.inl (by omega)) (by omega))
      · split
        · exact hpending (.three (by omega) (by omega))
        · split
          · exact hpending (.four (by omega) (by omega))
          · exact hfault

theorem advance_proper {pending : Option Pending} (hp : ∀ p, pending = some p → p.Proper) {b : UInt8}
    (hb : b ≠ 0) : Progress.Proper (advance pending b) := by
  have hbegin := begin_proper hb
  have hpending {p : Pending} (hp : p.Proper) : Progress.Proper ([], some p) :=
    ⟨nofun, fun q hq => Option.some.inj hq ▸ hp⟩
  cases pending with
  | none => exact hbegin
  | some p =>
    unfold advance
    dsimp only
    split
    · next hrange =>
      cases hp p rfl with
      | last hlow hgap hhigh =>
        dsimp only at hrange
        refine ⟨?_, nofun⟩
        intro c hc
        simp only [Nat.le_refl, if_true, List.mem_singleton, Option.some.injEq] at hc
        rw [hc]
        refine ofNat_ne_nul ?_ (by omega)
        rcases hgap with hgap | hgap
        · exact .inl (by omega)
        · exact .inr ⟨by omega, by omega⟩
      | second hlow hhigh =>
        dsimp only at hrange
        refine hpending (.last ?_ (.inr ?_) ?_) <;> dsimp only <;> omega
      | three hlow hhigh =>
        dsimp only at hrange
        refine hpending (.last ?_ ?_ ?_) <;> dsimp only <;> split at hrange <;> split at hrange <;> omega
      | four hlow hhigh =>
        dsimp only at hrange
        refine hpending (.second ?_ ?_) <;> dsimp only <;> split at hrange <;> split at hrange <;> omega
    · refine ⟨?_, hbegin.2⟩
      intro c hc
      exact hbegin.1 c ((List.mem_cons.mp hc).resolve_left nofun)

/-- Bytes of which none is zero are read as a text without a NUL. -/
theorem decodeLossy_ne_nul {bytes : List UInt8} (h : ∀ b ∈ bytes, b ≠ 0) {c : Char}
    (hc : c ∈ decodeLossy bytes) : c ≠ '\x00' := by
  have hscan : ∀ pending : Option Pending, (∀ p, pending = some p → p.Proper) →
      ∀ c, some c ∈ scanFrom pending bytes → c ≠ '\x00' := by
    clear hc
    induction bytes with
    | nil =>
      intro pending _ c hc
      unfold scanFrom at hc
      split at hc <;> simp at hc
    | cons b bytes ih =>
      intro pending hp c hc
      have hb := advance_proper hp (h b List.mem_cons_self)
      rw [scanFrom, List.mem_append] at hc
      rcases hc with hc | hc
      · exact hb.1 c hc
      · exact ih (fun b' hb' => h b' (List.mem_cons_of_mem b hb')) _ hb.2 c hc
  obtain ⟨found, hm, rfl⟩ := List.mem_map.mp hc
  cases found with
  | none => decide
  | some c => exact hscan none nofun c hm

end CoopKernel.Utf8
