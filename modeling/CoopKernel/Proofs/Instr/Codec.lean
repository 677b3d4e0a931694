import CoopKernel.Instr.Listing
import Mathlib.Data.List.Basic

/-!
# Instructions written and read back

The bytes of a list of instructions, one behind the other, are read back as that list by decoding at the
front and going on behind what was decoded, whatever follows them. The other way round, what decodes is
the form of the instruction it decodes to, but for the last three bits where the instruction has no
operand for them, and there are three ways not to decode: too few bytes, the reserved class, and the
undefined single bytes.

Both ways meet at the fields of an arithmetic instruction: `exists_pair` reads the fields of a pair that
was written, and `pair_of_fields` writes the fields of a pair that was read.
-/

namespace CoopKernel

namespace Reg

@[simp]
theorem ofBits_val (r : Reg) : ofBits r.val = r :=
  Fin.ext (Nat.mod_eq_of_lt r.isLt)

@[simp]
theorem val_ofBits (bits : Nat) : (ofBits bits).val = bits % 8 := rfl

theorem ofBits_eq {bits : Nat} {r : Reg} (h : bits % 8 = r.val) : ofBits bits = r :=
  Fin.ext h

theorem ofBits_mod (bits : Nat) : ofBits (bits % 8) = ofBits bits :=
  Fin.ext (Nat.mod_mod bits 8)

end Reg

namespace Step

@[simp]
theorem ofBits_bits (s : Step) : ofBits s.bits = s := by
  obtain ⟨amount, hpos, hle⟩ := s
  simp only [ofBits, bits, Step.mk.injEq]
  omega

theorem bits_lt (s : Step) : s.bits < 64 := by
  have hpos := s.positive
  have hle := s.bounded
  rw [bits]
  omega

/-- The two fields of a step are put together again. -/
theorem bits_of_fields (s : Step) : s.bits / 8 % 8 * 8 + s.bits % 8 % 8 = s.bits := by
  have hlt := s.bits_lt
  omega

@[simp]
theorem bits_ofBits (n : Nat) : (ofBits n).bits = n % 64 := rfl

end Step

namespace Instr

/-- The instruction has a byte form of its own: a skip's bit number is one of the eight that there is
room for. -/
def isEncodable : Instr → Bool
  | skip _ bit => bit < 8
  | _ => true

/-- The instruction that is written: of a skip's bit number, three bits. -/
def clipped : Instr → Instr
  | skip reg bit => skip reg (UInt8.ofNat (bit.toNat % 8))
  | i => i

/-- The last three bits of the instruction's form say nothing. -/
def sparesLast : Instr → Bool
  | not .. | skip .. | storeWord .. | loadWord .. => true
  | _ => false

/-- The bytes of an instruction with zeros for the bits that say nothing. -/
def cleared (i : Instr) : List UInt8 → List UInt8
  | [first, second] => [first, if i.sparesLast then second / 8 * 8 else second]
  | bytes => bytes

/-- The bytes of instructions, one behind the other. -/
def encodeAll (is : List Instr) : List UInt8 := is.flatMap encode

/-- Decodes so many instructions, each behind the one before, and returns them with what is left. -/
def decodeMany : Nat → List UInt8 → Except DecodeError (List Instr × List UInt8)
  | 0, bytes => .ok ([], bytes)
  | n + 1, bytes => do
    let i ← decode bytes
    let (is, rest) ← decodeMany n (bytes.drop i.length)
    return (i :: is, rest)

/-- Nothing is clipped from an instruction with a byte form of its own. -/
theorem clipped_of_isEncodable {i : Instr} (h : i.isEncodable) : i.clipped = i := by
  cases i with
  | skip reg bit =>
    have hbit : bit.toNat < 8 := UInt8.lt_iff_toNat_lt.mp (of_decide_eq_true h)
    rw [clipped, Nat.mod_eq_of_lt hbit, UInt8.ofNat_toNat]
  | _ => rfl

@[simp]
theorem length_clipped (i : Instr) : i.clipped.length = i.length := by
  cases i <;> rfl

/-! ## Pairs -/

/-- What stands in a pair depends on three bits of each operand. -/
theorem ofFields_mod (op d a b : Nat) : ofFields op (d % 8) (a % 8) (b % 8) = ofFields op d a b := by
  simp only [ofFields, Reg.ofBits_mod, Nat.mod_mod]

/-- A pair that was written is read as its fields. -/
theorem exists_pair {op d a b : Nat} (hop : op < 16) (hd : d < 8) (ha : a < 8) (hb : b < 8) :
    ∃ first second, pair op d a b = [first, second] ∧ 0xE0 ≤ first.toNat ∧
      ofPair first second = ofFields op d a b := by
  let word := UInt16.ofNat (0xE000 + op * 512 + d * 64 + a * 8 + b)
  have hword : word.toNat = 0xE000 + op * 512 + d * 64 + a * 8 + b := by
    rw [UInt16.toNat_ofNat']
    omega
  have hhigh : (Word.high word).toNat = word.toNat / 256 := by
    rw [Word.high, UInt8.toNat_ofNat']
    omega
  have hlow : (Word.low word).toNat = word.toNat % 256 := by
    rw [Word.low, UInt8.toNat_ofNat']
    omega
  refine ⟨Word.high word, Word.low word, rfl, by omega, ?_⟩
  have hbits : (Word.high word).toNat * 256 + (Word.low word).toNat = word.toNat := by omega
  rw [ofPair, hbits, hword, ← ofFields_mod, ← ofFields_mod op]
  congr 1 <;> omega

/-- A pair that was read is written from its fields. -/
theorem pair_of_fields {first second : UInt8} {op d a b : Nat}
    (h : first.toNat * 256 + second.toNat = 0xE000 + op * 512 + d * 64 + a * 8 + b) :
    pair op d a b = [first, second] := by
  rw [pair, ← h]
  change Word.toBytes (Word.ofBytes first second) = _
  rw [Word.toBytes, Word.high_ofBytes, Word.low_ofBytes]

/-- An instruction that was made of fields is written with the same fields, but for the operand it does
not have. -/
theorem encode_ofFields {op : Nat} (d a b : Nat) (hop : op < 16) :
    encode (ofFields op d a b) =
      pair op (d % 8) (a % 8) (if (ofFields op d a b).sparesLast then 0 else b % 8) := by
  have hstep : (a % 8 * 8 + b % 8) % 64 = a % 8 * 8 + b % 8 := by omega
  have hhigh : (a % 8 * 8 + b % 8) / 8 = a % 8 := by omega
  have hlow : (a % 8 * 8 + b % 8) % 8 = b % 8 := by omega
  match op, hop with
  | 0, _ | 1, _ | 2, _ | 3, _ | 4, _ | 5, _ | 6, _ | 7, _ | 8, _ | 9, _ | 10, _ | 11, _ | 12, _ | 13, _
  | 14, _ | 15, _ => simp [ofFields, encode, sparesLast, BinaryOp.code, hstep, hhigh, hlow]
  | more + 16, h => omega

/-- An arithmetic instruction is written as the bytes it was read from, without the bits that say
nothing. -/
theorem encode_ofPair {first : UInt8} (second : UInt8) (h : 0xE0 ≤ first.toNat) :
    encode (ofPair first second) = (ofPair first second).cleared [first, second] := by
  have hfirst := first.toNat_lt
  have hsecond := second.toNat_lt
  have hcleared : (second / 8 * 8).toNat = second.toNat / 8 * 8 := by
    rw [UInt8.toNat_mul, UInt8.toNat_div]
    change second.toNat / 8 * 8 % 256 = _
    omega
  rw [cleared, show encode (ofPair first second) = _ from encode_ofFields _ _ _ (by omega)]
  change pair _ _ _ (if (ofPair first second).sparesLast then _ else _) = _
  by_cases hspares : (ofPair first second).sparesLast
  · rw [if_pos hspares, if_pos hspares]
    exact pair_of_fields (by omega)
  · rw [if_neg hspares, if_neg hspares]
    exact pair_of_fields (by omega)

@[simp]
theorem length_ofFields (op d a b : Nat) : (ofFields op d a b).length = 2 := by
  fun_cases ofFields op d a b <;> rfl

/-! ## The classes of the first byte -/

/-- What a whole instruction, or a byte that begins none, is read as. -/
inductive Reads : List UInt8 → Except DecodeError Instr → Prop
  | storeByte (first : UInt8) (hlt : first.toNat < 0x40) :
      Reads [first] (.ok (.storeByte (Reg.ofBits (first.toNat / 8)) (Reg.ofBits first.toNat)))
  | loadByte (first : UInt8) (hle : 0x40 ≤ first.toNat) (hlt : first.toNat < 0x80) :
      Reads [first] (.ok (.loadByte (Reg.ofBits (first.toNat / 8)) (Reg.ofBits first.toNat)))
  | reserved (first : UInt8) (hle : 0x80 ≤ first.toNat) (hlt : first.toNat < 0xC0) :
      Reads [first] (.error (.reserved first))
  | nop : Reads [0xC0] (.ok .nop)
  | syscall : Reads [0xC1] (.ok .syscall)
  | clearCache : Reads [0xC2] (.ok .clearCache)
  | undefined (first : UInt8) (hle : 0xC3 ≤ first.toNat) (hlt : first.toNat < 0xD0) :
      Reads [first] (.error (.undefined first))
  | setByte (first : UInt8) (value : UInt8) (hle : 0xD0 ≤ first.toNat) (hlt : first.toNat < 0xD8) :
      Reads [first, value] (.ok (.setByte (Reg.ofBits first.toNat) value))
  | setWord (first : UInt8) (high low : UInt8) (hle : 0xD8 ≤ first.toNat) (hlt : first.toNat < 0xE0) :
      Reads [first, high, low] (.ok (.setWord (Reg.ofBits first.toNat) (Word.ofBytes high low)))
  | pair (first : UInt8) (second : UInt8) (hle : 0xE0 ≤ first.toNat) :
      Reads [first, second] (.ok (ofPair first second))

/-- The three lengths that a first byte can tell. -/
theorem lengthFrom_cases (first : UInt8) :
    (lengthFrom first = 1 ∧ first.toNat < 0xD0) ∨
    (lengthFrom first = 2 ∧ (0xD0 ≤ first.toNat ∧ first.toNat < 0xD8 ∨ 0xE0 ≤ first.toNat)) ∨
    (lengthFrom first = 3 ∧ 0xD8 ≤ first.toNat ∧ first.toNat < 0xE0) := by
  have hfirst := first.toNat_lt
  unfold lengthFrom
  split
  · omega
  · split <;> omega

/-- What is read is read whatever follows it. -/
theorem Reads.decode_append {front : List UInt8} {result : Except DecodeError Instr}
    (h : Reads front result) (rest : List UInt8) : decode (front ++ rest) = result := by
  cases h with
  | storeByte first hlt =>
    simp only [List.cons_append, decode]
    rw [if_pos hlt]
  | loadByte first hle hlt =>
    simp only [List.cons_append, decode]
    rw [if_neg (by omega), if_pos hlt]
  | reserved first hle hlt =>
    simp only [List.cons_append, decode]
    rw [if_neg (by omega), if_neg (by omega), if_pos hlt]
  | nop => rfl
  | syscall => rfl
  | clearCache => rfl
  | undefined first hle hlt =>
    simp only [List.cons_append, decode]
    iterate 6 rw [if_neg (by omega)]
    rw [if_pos hlt]
  | setByte first value hle hlt =>
    simp only [List.cons_append, decode]
    iterate 7 rw [if_neg (by omega)]
    rw [if_pos hlt]
  | setWord first high low hle hlt =>
    simp only [List.cons_append, decode]
    iterate 8 rw [if_neg (by omega)]
    rw [if_pos hlt]
  | pair first second hle =>
    simp only [List.cons_append, decode]
    iterate 9 rw [if_neg (by omega)]

/-- What is read has the length that its first byte tells. -/
theorem Reads.lengthFrom_eq {first : UInt8} {rest : List UInt8} {result : Except DecodeError Instr}
    (h : Reads (first :: rest) result) : lengthFrom first = rest.length + 1 := by
  have hlength := lengthFrom_cases first
  cases h with
  | nop | syscall | clearCache => rfl
  | _ =>
    simp only [List.length_nil, List.length_cons]
    omega

/-- An instruction that is read is as long as what it is read from. -/
theorem Reads.length_eq {front : List UInt8} {i : Instr} (h : Reads front (.ok i)) :
    i.length = front.length := by
  cases h with
  | pair first second hle => exact length_ofFields _ _ _ _
  | _ => rfl

/-- As many bytes as the first of them tells are read as something. -/
theorem exists_reads {first : UInt8} {rest : List UInt8} (h : lengthFrom first = rest.length + 1) :
    ∃ result, Reads (first :: rest) result := by
  rcases lengthFrom_cases first with ⟨hlength, hlt⟩ | ⟨hlength, hrange⟩ | ⟨hlength, hle, hlt⟩
  · obtain rfl : rest = [] := List.eq_nil_of_length_eq_zero (by omega)
    have hbyte (n : Nat) (hn : first.toNat = n) : first = UInt8.ofNat n := by
      rw [← hn, UInt8.ofNat_toNat]
    by_cases hstore : first.toNat < 0x40
    · exact ⟨_, .storeByte first hstore⟩
    by_cases hload : first.toNat < 0x80
    · exact ⟨_, .loadByte first (by omega) hload⟩
    by_cases hreserved : first.toNat < 0xC0
    · exact ⟨_, .reserved first (by omega) hreserved⟩
    by_cases hnop : first.toNat = 0xC0
    · exact hbyte _ hnop ▸ ⟨_, .nop⟩
    by_cases hsyscall : first.toNat = 0xC1
    · exact hbyte _ hsyscall ▸ ⟨_, .syscall⟩
    by_cases hclear : first.toNat = 0xC2
    · exact hbyte _ hclear ▸ ⟨_, .clearCache⟩
    exact ⟨_, .undefined first (by omega) hlt⟩
  · obtain ⟨second, rfl⟩ := List.length_eq_one_iff.mp (show rest.length = 1 by omega)
    rcases hrange with ⟨hle, hlt⟩ | hle
    · exact ⟨_, .setByte first second hle hlt⟩
    · exact ⟨_, .pair first second hle⟩
  · obtain ⟨high, low, rfl⟩ := List.length_eq_two.mp (show rest.length = 2 by omega)
    exact ⟨_, .setWord first high low hle hlt⟩

/-- Too few bytes are read as nothing. -/
theorem decode_of_short {first : UInt8} {rest : List UInt8} (h : rest.length + 1 < lengthFrom first) :
    decode (first :: rest) = .error .truncated := by
  rcases lengthFrom_cases first with ⟨hlength, hlt⟩ | ⟨hlength, hrange⟩ | ⟨hlength, hle, hlt⟩
  · omega
  · obtain rfl : rest = [] := List.eq_nil_of_length_eq_zero (by omega)
    simp only [decode]
    iterate 7 rw [if_neg (by omega)]
    rcases hrange with ⟨hle, hlt⟩ | hle
    · rw [if_pos hlt]
    · rw [if_neg (by omega), if_neg (by omega)]
  · simp only [decode]
    iterate 8 rw [if_neg (by omega)]
    rw [if_pos hlt]
    split
    · simp only [List.length_cons] at h
      omega
    · rfl

/-- The bytes that the first one tells of begin with it. -/
theorem take_lengthFrom (first : UInt8) (rest : List UInt8) :
    (first :: rest).take (lengthFrom first) = first :: rest.take (lengthFrom first - 1) := by
  obtain ⟨more, hmore⟩ := Nat.exists_eq_add_one.mpr (lengthFrom_pos first)
  rw [hmore, List.take_succ_cons, Nat.add_sub_cancel]

/-- A byte string is too short for what its first byte tells, or what stands at its front is read. -/
theorem short_or_reads (first : UInt8) (rest : List UInt8) :
    rest.length + 1 < lengthFrom first ∨
      Reads (first :: rest.take (lengthFrom first - 1)) (decode (first :: rest)) := by
  rcases Nat.lt_or_ge (rest.length + 1) (lengthFrom first) with hshort | hlong
  · exact .inl hshort
  · have hpos := lengthFrom_pos first
    have hlength : lengthFrom first = (rest.take (lengthFrom first - 1)).length + 1 := by
      rw [List.length_take]
      omega
    obtain ⟨result, hreads⟩ := exists_reads hlength
    have hdecode := hreads.decode_append (rest.drop (lengthFrom first - 1))
    rw [List.cons_append, List.take_append_drop] at hdecode
    exact .inr (hdecode ▸ hreads)

/-! ## What was written is read -/

/-- The fields of an arithmetic instruction are read from the pair. -/
theorem reads_pair {op d a b : Nat} {i : Instr} (hop : op < 16) (hd : d < 8) (ha : a < 8) (hb : b < 8)
    (h : ofFields op d a b = i) : Reads (pair op d a b) (.ok i) := by
  obtain ⟨first, second, hpair, hfirst, hfields⟩ := exists_pair hop hd ha hb
  rw [hpair, ← h, ← hfields]
  exact .pair first second hfirst

/-- An instruction is read from its bytes. -/
theorem reads_encode (i : Instr) : Reads i.encode (.ok i.clipped) := by
  cases i with
  | storeByte addr src =>
    have hfirst : (UInt8.ofNat (addr.val * 8 + src.val)).toNat = addr.val * 8 + src.val :=
      UInt8.toNat_ofNat_of_lt' (show _ < 256 by omega)
    have hreads := Reads.storeByte (UInt8.ofNat (addr.val * 8 + src.val)) (by omega)
    rwa [hfirst, Reg.ofBits_eq (r := addr) (by omega), Reg.ofBits_eq (r := src) (by omega)] at hreads
  | loadByte dst addr =>
    have hfirst : (UInt8.ofNat (0x40 + dst.val * 8 + addr.val)).toNat = 0x40 + dst.val * 8 + addr.val :=
      UInt8.toNat_ofNat_of_lt' (show _ < 256 by omega)
    have hreads := Reads.loadByte (UInt8.ofNat (0x40 + dst.val * 8 + addr.val)) (by omega) (by omega)
    rwa [hfirst, Reg.ofBits_eq (r := dst) (by omega), Reg.ofBits_eq (r := addr) (by omega)] at hreads
  | binary op dst a b =>
    refine reads_pair (by cases op <;> decide) dst.isLt a.isLt b.isLt ?_
    cases op <;> simp [ofFields, BinaryOp.code, clipped]
  | not dst a => exact reads_pair (by decide) dst.isLt a.isLt (by decide) (by simp [ofFields, clipped])
  | skip reg bit =>
    exact reads_pair (by decide) reg.isLt (by omega) (by decide)
      (by simp only [ofFields, Reg.ofBits_val, Nat.mod_mod, clipped])
  | storeWord addr src =>
    exact reads_pair (by decide) addr.isLt src.isLt (by decide) (by simp [ofFields, clipped])
  | loadWord dst addr =>
    exact reads_pair (by decide) dst.isLt addr.isLt (by decide) (by simp [ofFields, clipped])
  | inc dst step =>
    have hstep := step.bits_lt
    exact reads_pair (by decide) dst.isLt (by omega) (by omega)
      (by simp only [ofFields, Reg.ofBits_val, Step.bits_of_fields, Step.ofBits_bits, clipped])
  | dec dst step =>
    have hstep := step.bits_lt
    exact reads_pair (by decide) dst.isLt (by omega) (by omega)
      (by simp only [ofFields, Reg.ofBits_val, Step.bits_of_fields, Step.ofBits_bits, clipped])
  | nop => exact .nop
  | syscall => exact .syscall
  | clearCache => exact .clearCache
  | setByte dst value =>
    have hfirst : (UInt8.ofNat (0xD0 + dst.val)).toNat = 0xD0 + dst.val :=
      UInt8.toNat_ofNat_of_lt' (show _ < 256 by omega)
    have hreads := Reads.setByte (UInt8.ofNat (0xD0 + dst.val)) value (by omega) (by omega)
    rwa [hfirst, Reg.ofBits_eq (r := dst) (by omega)] at hreads
  | setWord dst value =>
    have hfirst : (UInt8.ofNat (0xD8 + dst.val)).toNat = 0xD8 + dst.val :=
      UInt8.toNat_ofNat_of_lt' (show _ < 256 by omega)
    have hreads := Reads.setWord (UInt8.ofNat (0xD8 + dst.val)) (Word.high value)
      (Word.low value) (by omega) (by omega)
    rwa [hfirst, Reg.ofBits_eq (r := dst) (by omega), Word.ofBytes_high_low] at hreads

/-- The first byte of an instruction tells its length. -/
theorem lengthFrom_encode (i : Instr) : i.encode.head?.map lengthFrom = some i.length := by
  have hreads := reads_encode i
  have hlength := length_encode i
  cases hbytes : i.encode with
  | nil =>
    have hpos := length_pos i
    rw [hbytes, List.length_nil] at hlength
    omega
  | cons first rest =>
    rw [hbytes] at hreads hlength
    rw [List.head?_cons, Option.map_some, hreads.lengthFrom_eq, ← hlength, List.length_cons]

/-- An instruction is read back from its bytes, whatever follows them. -/
theorem decode_encode_append {i : Instr} (rest : List UInt8) (h : i.isEncodable) :
    decode (i.encode ++ rest) = .ok i := by
  have hreads := (reads_encode i).decode_append rest
  rwa [clipped_of_isEncodable h] at hreads

/-- Instructions are read back one after the other from their bytes, and what follows is left. -/
theorem decodeMany_encodeAll_append {is : List Instr} (rest : List UInt8)
    (h : ∀ i ∈ is, i.isEncodable) :
    decodeMany is.length (encodeAll is ++ rest) = .ok (is, rest) := by
  induction is with
  | nil => rfl
  | cons i is ih =>
    have hfront := decode_encode_append (encodeAll is ++ rest) (h i List.mem_cons_self)
    have hbehind : (i.encode ++ (encodeAll is ++ rest)).drop i.length = encodeAll is ++ rest := by
      rw [← length_encode, List.drop_left]
    have hrest := ih fun j hj => h j (List.mem_cons_of_mem i hj)
    rw [encodeAll, List.flatMap_cons, List.append_assoc, ← encodeAll, List.length_cons, decodeMany,
      hfront]
    change (decodeMany is.length ((i.encode ++ (encodeAll is ++ rest)).drop i.length) >>= _) = _
    rw [hbehind, hrest]
    rfl

/-! ## What is read was written -/

/-- A byte is made of its number. -/
theorem ofNat_eq {n : Nat} {b : UInt8} (h : n = b.toNat) : UInt8.ofNat n = b := by
  rw [h, UInt8.ofNat_toNat]

/-- What is read as an instruction is its byte form, but for the bits that say nothing. -/
theorem Reads.encode_eq {front : List UInt8} {i : Instr} (h : Reads front (.ok i)) :
    i.encode = i.cleared front := by
  cases h with
  | storeByte first hlt | loadByte first hle hlt =>
    simp only [encode, cleared, Reg.val_ofBits]
    rw [ofNat_eq (b := first) (by omega)]
  | nop | syscall | clearCache => rfl
  | setByte first value hle hlt =>
    simp only [encode, cleared, Reg.val_ofBits]
    rw [ofNat_eq (b := first) (by omega)]
    rfl
  | setWord first high low hle hlt =>
    simp only [encode, cleared, Reg.val_ofBits, Word.toBytes, Word.high_ofBytes, Word.low_ofBytes]
    rw [ofNat_eq (b := first) (by omega)]
  | pair first second hle => exact encode_ofPair second hle

/-- What decodes stands whole at the front. -/
theorem reads_of_decode {first : UInt8} {rest : List UInt8} {i : Instr}
    (h : decode (first :: rest) = .ok i) :
    i.length = lengthFrom first ∧ i.length ≤ rest.length + 1 ∧
      Reads ((first :: rest).take i.length) (.ok i) := by
  rcases short_or_reads first rest with hshort | hreads
  · rw [decode_of_short hshort] at h
    cases h
  · rw [h] at hreads
    have hlength : i.length = lengthFrom first := hreads.length_eq.trans hreads.lengthFrom_eq.symm
    have htake := hreads.lengthFrom_eq
    rw [List.length_take] at htake
    refine ⟨hlength, by omega, ?_⟩
    rw [hlength, take_lengthFrom]
    exact hreads

/-- What decodes does so by the bytes of its length alone. -/
theorem decode_of_take_eq {bytes others : List UInt8} {i : Instr} (h : decode bytes = .ok i)
    (hsame : others.take i.length = bytes.take i.length) : decode others = .ok i := by
  cases bytes with
  | nil => cases h
  | cons first rest =>
    obtain ⟨-, -, hreads⟩ := reads_of_decode h
    rw [← hsame] at hreads
    have hdecode := hreads.decode_append (others.drop i.length)
    rwa [List.take_append_drop] at hdecode

/-- Nothing decodes from too few bytes, from a reserved byte and from an undefined one. -/
theorem decode_eq_error_iff {first : UInt8} {rest : List UInt8} {e : DecodeError} :
    decode (first :: rest) = .error e ↔
      (e = .truncated ∧ rest.length + 1 < lengthFrom first) ∨
      (e = .reserved first ∧ 0x80 ≤ first.toNat ∧ first.toNat < 0xC0) ∨
      (e = .undefined first ∧ 0xC3 ≤ first.toNat ∧ first.toNat < 0xD0) := by
  constructor
  · intro h
    rcases short_or_reads first rest with hshort | hreads
    · rw [decode_of_short hshort] at h
      cases h
      exact .inl ⟨rfl, hshort⟩
    · rw [h] at hreads
      generalize rest.take (lengthFrom first - 1) = tail at hreads
      cases hreads with
      | reserved first hle hlt => exact .inr (.inl ⟨rfl, hle, hlt⟩)
      | undefined first hle hlt => exact .inr (.inr ⟨rfl, hle, hlt⟩)
  · rintro (⟨rfl, hshort⟩ | ⟨rfl, hle, hlt⟩ | ⟨rfl, hle, hlt⟩)
    · exact decode_of_short hshort
    · exact (Reads.reserved first hle hlt).decode_append rest
    · exact (Reads.undefined first hle hlt).decode_append rest

/-! ## Streams -/

/-- A listing begins with the instructions whose bytes it begins with. -/
theorem listing_encodeAll_append {is : List Instr} (offset : Nat) (rest : List UInt8)
    (h : ∀ i ∈ is, i.isEncodable) :
    (listing offset (encodeAll is ++ rest)).map Line.content =
      is.map .ok ++ (listing (offset + (encodeAll is).length) rest).map Line.content := by
  induction is generalizing offset with
  | nil => rfl
  | cons i is ih =>
    have hfront := decode_encode_append (encodeAll is ++ rest) (h i List.mem_cons_self)
    have hrest := ih (offset + i.length) fun j hj => h j (List.mem_cons_of_mem i hj)
    have hlength := length_encode i
    rw [encodeAll, List.flatMap_cons, List.append_assoc, ← encodeAll, List.length_append,
      ← Nat.add_assoc, hlength, List.map_cons, List.cons_append, ← hrest]
    cases hbytes : i.encode with
    | nil =>
      have hpos := length_pos i
      rw [hbytes, List.length_nil] at hlength
      omega
    | cons first others =>
      rw [hbytes, List.cons_append] at hfront
      rw [hbytes, List.length_cons] at hlength
      have hsize : i.length - 1 = others.length := by omega
      rw [List.cons_append, listing, hfront, List.map_cons]
      simp only [hsize, List.drop_left]

/-- What instructions are written as is read back in their order, whatever follows, and each is as long
as its first byte tells. What decodes is as long as the first byte tells, is the same whatever stands
behind that length, and is written as the bytes it was read from with zeros for the bits that say
nothing. What does not decode is too short, or begins with a reserved or an undefined byte. -/
theorem codec_on_streams :
    (∀ (is : List Instr) (rest : List UInt8), (∀ i ∈ is, i.isEncodable) →
      decodeMany is.length (encodeAll is ++ rest) = .ok (is, rest)) ∧
    (∀ i : Instr, i.encode.length = i.length ∧ i.encode.head?.map lengthFrom = some i.length) ∧
    (∀ (first : UInt8) (rest : List UInt8) (i : Instr), decode (first :: rest) = .ok i →
      i.length = lengthFrom first ∧
      (∀ others, others.take i.length = (first :: rest).take i.length → decode others = .ok i) ∧
      i.encode = i.cleared ((first :: rest).take i.length)) ∧
    decode [] = .error .truncated ∧
    (∀ (first : UInt8) (rest : List UInt8) (e : DecodeError), decode (first :: rest) = .error e ↔
      (e = .truncated ∧ (first :: rest).length < lengthFrom first) ∨
      (e = .reserved first ∧ 0x80 ≤ first.toNat ∧ first.toNat ≤ 0xBF) ∨
      (e = .undefined first ∧ 0xC3 ≤ first.toNat ∧ first.toNat ≤ 0xCF)) := by
  refine ⟨fun is rest h => decodeMany_encodeAll_append rest h,
    fun i => ⟨length_encode i, lengthFrom_encode i⟩, ?_, rfl, ?_⟩
  · intro first rest i h
    obtain ⟨hlength, -, hreads⟩ := reads_of_decode h
    exact ⟨hlength, fun _ => decode_of_take_eq h, hreads.encode_eq⟩
  · intro first rest e
    rw [decode_eq_error_iff]
    simp only [List.length_cons, Nat.lt_succ_iff]

/-- A stream with an instruction of each length, in front of a byte that begins none; and two bytes with
bits that say nothing, in front of another. -/
theorem codec_on_stream_of_three :
    encodeAll [.nop, .skip 5 5, .setWord 1 0x1234] = [0xC0, 0xF7, 0x68, 0xD9, 0x12, 0x34] ∧
    decodeMany 3 (encodeAll [.nop, .skip 5 5, .setWord 1 0x1234] ++ [0x80]) =
      .ok ([.nop, .skip 5 5, .setWord 1 0x1234], [0x80]) ∧
    (Instr.not 1 2).encode = (Instr.not 1 2).cleared ([0xEE, 0x57, 0x99].take 2) :=
  have hdecode : decode [0xEE, 0x57, 0x99] = .ok (.not 1 2) := by decide +kernel
  ⟨by decide +kernel, codec_on_streams.1 [.nop, .skip 5 5, .setWord 1 0x1234] [0x80] (by decide +kernel),
    (codec_on_streams.2.2.1 0xEE [0x57, 0x99] (.not 1 2) hdecode).2.2⟩

end Instr

end CoopKernel
