import CoopKernel.Proofs.Text.Utf8
import CoopKernel.Snapshot.Block
import Mathlib.Data.List.TakeWhile

/-!
# State blocks read back

A snapshot that is written to a state block and read back is what it was, but for the two texts of its
environment, which come back as `Snapshot.storedText` tells: cut to the size of their field, up to the
first NUL, and with replacement characters for what the cut broke. A snapshot has a block that can be
read if it has no more arguments than there can be.
-/

namespace CoopKernel

namespace Word

/-- The words of a list stand one behind the other in its bytes. -/
theorem fromBytes_append (before after : List UInt8) (words : List UInt16) (i : Nat)
    (h : i < words.length) :
    fromBytes (before ++ words.flatMap toBytes ++ after).toArray (before.length + 2 * i) = words[i] := by
  induction words generalizing before i with
  | nil => cases h
  | cons w words ih =>
    cases i with
    | zero => simp [fromBytes, toBytes]
    | succ i =>
      have hi : i < words.length := Nat.lt_of_succ_lt_succ h
      have hrest := ih (before ++ toBytes w) i hi
      have hlength : (before ++ toBytes w).length + 2 * i = before.length + 2 * (i + 1) := by
        simp only [List.length_append, toBytes, List.length_cons, List.length_nil]
        omega
      rw [hlength] at hrest
      rw [List.getElem_cons_succ, ← hrest, List.flatMap_cons, ← List.append_assoc before]

/-- A vector of words comes back from the place where its bytes stand. -/
theorem ofFn_fromBytes {n : Nat} {block : Bytes} (start : Nat) (before after : List UInt8)
    (words : Vector UInt16 n)
    (hb : block.toList = before ++ (words.toList.flatMap toBytes ++ after))
    (h : before.length = start) :
    (Vector.ofFn fun i : Fin n => fromBytes block (start + 2 * i.val)) = words := by
  have hblock : block = (before ++ words.toList.flatMap toBytes ++ after).toArray := by
    rw [List.append_assoc, ← hb]
  ext i hi
  have hlength : i < words.toList.length := by rw [Vector.length_toList]; exact hi
  rw [Vector.getElem_ofFn, hblock, ← h, fromBytes_append before after words.toList i hlength,
    Vector.getElem_toList]

/-- A word comes back from the place where its bytes stand. -/
theorem fromBytes_toBytes {start : Nat} {block : Bytes} (before after : List UInt8) (word : UInt16)
    (hb : block.toList = before ++ (toBytes word ++ after)) (h : before.length = start) :
    fromBytes block start = word := by
  have hblock : block = (before ++ [word].flatMap toBytes ++ after).toArray := by
    rw [List.append_assoc, List.flatMap_singleton, ← hb]
  have hword := fromBytes_append before after [word] 0 Nat.zero_lt_one
  rw [← hblock, Nat.mul_zero, Nat.add_zero, h] at hword
  exact hword

/-- A byte comes back from the place where it stands. -/
theorem getD_byte {start : Nat} {block : Bytes} (before after : List UInt8) (b : UInt8)
    (hb : block.toList = before ++ b :: after) (h : before.length = start) :
    block.getD start 0 = b := by
  have hblock : block = (before ++ b :: after).toArray := by rw [← hb]
  simp [hblock, ← h]

theorem length_flatMap_toBytes (words : List UInt16) :
    (words.flatMap toBytes).length = 2 * words.length := by
  induction words with
  | nil => rfl
  | cons w words ih =>
    simp only [List.flatMap_cons, List.length_append, toBytes, List.length_cons, List.length_nil, ih]
    omega

theorem length_toBytes_vector {n : Nat} (words : Vector UInt16 n) :
    (words.toList.flatMap toBytes).length = 2 * n := by
  rw [length_flatMap_toBytes, Vector.length_toList]

end Word

namespace Snapshot

/-- What comes back of a text that is written to its field. -/
def storedText (text : String) : String :=
  String.ofList (Utf8.decodeLossy (((Utf8.bytes text).take (textSize - 1)).takeWhile (· ≠ 0)))

/-- What comes back of a snapshot that is written to a block. -/
def stored (s : Snapshot) : Snapshot :=
  { s with env := { s.env with
    workDir := storedText s.env.workDir, searchPath := storedText s.env.searchPath } }

@[simp]
theorem stored_regs (s : Snapshot) : s.stored.regs = s.regs := by
  simp only [stored]

@[simp]
theorem stored_skip (s : Snapshot) : s.stored.skip = s.skip := by
  simp only [stored]

@[simp]
theorem stored_dataLength (s : Snapshot) : s.stored.dataLength = s.dataLength := by
  simp only [stored]

@[simp]
theorem stored_argCount (s : Snapshot) : s.stored.env.argCount = s.env.argCount := by
  simp only [stored]

@[simp]
theorem stored_reg (s : Snapshot) (r : Reg) : s.stored.reg r = s.reg r := by
  rw [reg, reg, stored_regs]

@[simp]
theorem stored_handler (s : Snapshot) (signal : Signal) : s.stored.handler signal = s.handler signal := by
  simp only [handler, stored]

theorem stored_setReg (s : Snapshot) (r : Reg) (value : UInt16) :
    (s.setReg r value).stored = s.stored.setReg r value := rfl

/-- Of a text comes back what stands before the first NUL, cut to its field. -/
theorem storedText_eq (text : String) : storedText text =
    String.ofList (Utf8.cut (textSize - 1) (text.toList.takeWhile (· ≠ '\x00'))) := by
  rw [storedText, Utf8.bytes, ← List.take_takeWhile, Utf8.takeWhile_encode, Utf8.decodeLossy_take_encode]

/-- A text comes back as it is if it has room in its field and no NUL. -/
theorem storedText_of_size {text : String} (hsize : Utf8.size text < textSize)
    (hnul : ∀ c ∈ text.toList, c ≠ '\x00') : storedText text = text := by
  have hkept : text.toList.takeWhile (· ≠ '\x00') = text.toList :=
    List.takeWhile_eq_self_iff.mpr fun c hc => decide_eq_true (hnul c hc)
  have hroom : (Utf8.encode text.toList).length ≤ textSize - 1 := Nat.le_sub_one_of_lt hsize
  rw [storedText_eq, hkept, Utf8.cut_of_length_le hroom, String.ofList_toList]

/-- What comes back of a text has no NUL. -/
theorem storedText_ne_nul {text : String} {c : Char} (hc : c ∈ (storedText text).toList) :
    c ≠ '\x00' := by
  rw [storedText_eq, String.toList_ofList] at hc
  rcases Utf8.mem_cut hc with hc | rfl
  · exact of_decide_eq_true (List.mem_takeWhile_imp (p := (· ≠ '\x00')) hc)
  · decide

/-- A text that came back once comes back the same again. -/
theorem storedText_storedText (text : String) : storedText (storedText text) = storedText text := by
  have hkept : (Utf8.cut (textSize - 1) (text.toList.takeWhile (· ≠ '\x00'))).takeWhile (· ≠ '\x00') =
      Utf8.cut (textSize - 1) (text.toList.takeWhile (· ≠ '\x00')) := by
    refine List.takeWhile_eq_self_iff.mpr ?_
    intro c hc
    refine decide_eq_true (@storedText_ne_nul text c ?_)
    rw [storedText_eq, String.toList_ofList]
    exact hc
  rw [storedText_eq (storedText text), storedText_eq text, String.toList_ofList, hkept, Utf8.cut_cut]

/-- A snapshot that came back once comes back the same again. -/
theorem stored_stored (s : Snapshot) : s.stored.stored = s.stored := by
  simp only [stored, storedText_storedText]

theorem length_textField (text : String) : (textField text).length = textSize := by
  simp only [textField, List.rightpad, List.length_append, List.length_replicate, List.length_take,
    textSize]
  omega

theorem length_header (s : Snapshot) : s.header.length = 38 := by
  simp only [header, List.length_append, Word.length_flatMap_toBytes, Vector.length_toList,
    List.length_cons, List.length_nil, Word.toBytes]

theorem size_toBlock (s : Snapshot) : s.toBlock.size = blockSize := by
  simp only [toBlock, List.size_toArray, List.length_append, length_header, length_textField]
  rfl

/-- A text comes back cut from the place where its field stands. -/
theorem textAt_textField {start : Nat} {block : Bytes} (before after : List UInt8) (text : String)
    (hb : block.toList = before ++ (textField text ++ after)) (h : before.length = start) :
    textAt block start = storedText text := by
  have hfield : (Bytes.slice block start textSize).toList = textField text := by
    rw [Bytes.slice, Array.toList_extract, hb, List.extract_eq_take_drop, ← h, List.drop_left,
      show before.length + textSize - before.length = (textField text).length by
        rw [length_textField]; omega]
    exact List.take_left
  have hcut : (textField text).takeWhile (· ≠ 0) =
      ((Utf8.bytes text).take (textSize - 1)).takeWhile (· ≠ 0) := by
    simp only [textField, List.rightpad]
    rw [List.takeWhile_append]
    split
    · next hall =>
      have hzero : (List.replicate (textSize - ((Utf8.bytes text).take (textSize - 1)).length)
          (0 : UInt8)).takeWhile (· ≠ 0) = [] := by
        cases textSize - ((Utf8.bytes text).take (textSize - 1)).length with
        | zero => rfl
        | succ n => simp [List.replicate_succ]
      rw [hzero, List.append_nil]
      exact (List.takeWhile_prefix _).eq_of_length hall |>.symm
    · rfl
  simp only [textAt, hfield, hcut, storedText]

/-- The fields of a block, one behind the other. -/
theorem toList_toBlock (s : Snapshot) :
    s.toBlock.toList = s.regs.toList.flatMap Word.toBytes ++ ((if s.skip then 1 else 0) ::
      s.env.argCount :: (s.handlers.toList.flatMap Word.toBytes ++
      (Word.toBytes s.env.stdio.number ++ (Word.toBytes s.dataLength ++
      (s.env.argOffsets.toList.flatMap Word.toBytes ++
      (textField s.env.workDir ++ textField s.env.searchPath)))))) := by
  simp only [toBlock, header, List.append_assoc, List.cons_append, List.nil_append]

/-- The number of arguments comes back from its place. -/
theorem getD_argCount (s : Snapshot) : s.toBlock.getD 17 0 = s.env.argCount := by
  refine Word.getD_byte _ _ _ ((toList_toBlock s).trans (List.append_cons _ _ _)) ?_
  rw [List.length_append, Word.length_flatMap_toBytes, Vector.length_toList, List.length_singleton]

/-- The length of the data region comes back from its place. -/
theorem fromBytes_dataLength (s : Snapshot) : Word.fromBytes s.toBlock 28 = s.dataLength := by
  let before := s.regs.toList.flatMap Word.toBytes ++ ((if s.skip then 1 else 0) :: s.env.argCount ::
    (s.handlers.toList.flatMap Word.toBytes ++ Word.toBytes s.env.stdio.number))
  let behind := s.env.argOffsets.toList.flatMap Word.toBytes ++
    (textField s.env.workDir ++ textField s.env.searchPath)
  have hb : s.toBlock.toList = before ++ (Word.toBytes s.dataLength ++ behind) := by
    rw [toList_toBlock]
    simp only [before, behind, List.append_assoc, List.cons_append]
  have hword (w : UInt16) : (Word.toBytes w).length = 2 := rfl
  have hlength : before.length = 28 := by
    simp only [before, List.length_append, List.length_cons, Word.length_toBytes_vector, hword]
  exact Word.fromBytes_toBytes before behind s.dataLength hb hlength

/-- A snapshot with more arguments than there can be does not come back. -/
theorem ofBlock_toBlock_of_many {s : Snapshot} (h : maxArguments < s.env.argCount.toNat) :
    ofBlock s.toBlock = .error .corruptState := by
  have hsize : ¬s.toBlock.size < blockSize := by
    rw [size_toBlock]
    exact Nat.lt_irrefl _
  simp only [ofBlock, if_neg hsize, getD_argCount, if_pos h]

/-- A snapshot that is written to a block comes back as it is stored. -/
theorem ofBlock_toBlock {s : Snapshot} (h : s.env.argCount.toNat ≤ maxArguments) :
    ofBlock s.toBlock = .ok s.stored := by
  -- Each of these splits the block before the next field.
  have hb₁ := toList_toBlock s
  have hb₂ := hb₁.trans (List.append_cons _ _ _)
  have hb₃ := hb₂.trans (List.append_cons _ _ _)
  have hb₄ := hb₃.trans (List.append_assoc _ _ _).symm
  have hb₅ := hb₄.trans (List.append_assoc _ _ _).symm
  have hb₆ := hb₅.trans (List.append_assoc _ _ _).symm
  have hb₇ := hb₆.trans (List.append_assoc _ _ _).symm
  have hb₈ := hb₇.trans (List.append_assoc _ _ _).symm
  have hlength {n : Nat} (v : Vector UInt16 n) : (v.toList.flatMap Word.toBytes).length = 2 * n :=
    Word.length_toBytes_vector v
  have hword (w : UInt16) : (Word.toBytes w).length = 2 := rfl
  have hregs := Word.ofFn_fromBytes 0 [] _ s.regs hb₁ rfl
  have hskip : s.toBlock.getD 16 0 = if s.skip then 1 else 0 :=
    Word.getD_byte _ _ _ hb₁ (by simp only [hlength])
  have hcount := getD_argCount s
  have hhandlers := Word.ofFn_fromBytes 18 _ _ s.handlers hb₃ (by simp [hlength])
  have hstdio : Word.fromBytes s.toBlock 26 = s.env.stdio.number :=
    Word.fromBytes_toBytes _ _ _ hb₄ (by simp [hlength])
  have hdata := fromBytes_dataLength s
  have hoffsets := Word.ofFn_fromBytes 30 _ _ s.env.argOffsets hb₆
    (by simp [hlength, hword])
  have hwork : textAt s.toBlock 38 = storedText s.env.workDir :=
    textAt_textField _ _ _ hb₇ (by simp [hlength, hword])
  have hsearch : textAt s.toBlock 102 = storedText s.env.searchPath :=
    textAt_textField _ [] _ (by rw [List.append_nil]; exact hb₈)
      (by simp [hlength, hword, length_textField, textSize])
  simp only [Nat.zero_add] at hregs
  have hflag : decide ((s.toBlock.getD 16 0).toNat % 2 = 1) = s.skip := by
    rw [hskip]
    cases s.skip <;> rfl
  have hsize : ¬s.toBlock.size < blockSize := by
    rw [size_toBlock]
    exact Nat.lt_irrefl _
  have hfew : ¬s.env.argCount.toNat > maxArguments := Nat.not_lt.mpr h
  simp only [ofBlock, if_neg hsize, hcount, if_neg hfew, hregs, hflag, hhandlers, hstdio, hdata,
    hoffsets, hwork, hsearch]
  rfl

end Snapshot

end CoopKernel
