import CoopKernel.Bytes

/-!
# Byte strings, byte by byte

What stands at each position after an operation on byte strings.
-/

namespace CoopKernel.Bytes

theorem getElem?_slice (bytes : Bytes) (start count i : Nat) :
    (slice bytes start count)[i]? = if i < count then bytes[start + i]? else none := by
  rw [slice, Array.getElem?_extract]
  by_cases hi : i < count
  · rw [if_pos hi]
    split
    · rfl
    · rw [Array.getElem?_eq_none (by omega)]
  · rw [if_neg hi, if_neg (by omega)]

theorem getElem?_overwrite (bytes : Bytes) (start : Nat) (source : List UInt8) (i : Nat) :
    (overwrite bytes start source)[i]? =
      if start ≤ i ∧ i < start + source.length ∧ i < bytes.size then source[i - start]?
      else bytes[i]? := by
  induction source generalizing bytes start with
  | nil =>
    rw [overwrite, if_neg]
    simp only [List.length_nil]
    omega
  | cons b source ih =>
    rw [overwrite, ih, Array.size_setIfInBounds, Array.getElem?_setIfInBounds]
    simp only [List.length_cons]
    by_cases hstart : start = i
    · subst hstart
      rw [if_neg (by omega), if_pos rfl]
      split
      · rw [if_pos (by omega), Nat.sub_self, List.getElem?_cons_zero]
      · rw [if_neg (by omega), Array.getElem?_eq_none (by omega)]
    · rw [if_neg hstart]
      by_cases hin : start + 1 ≤ i ∧ i < start + 1 + source.length ∧ i < bytes.size
      · rw [if_pos hin, if_pos (by omega), show i - start = (i - (start + 1)) + 1 by omega,
          List.getElem?_cons_succ]
      · rw [if_neg hin, if_neg (by omega)]

/-- What was written in full is read back. -/
theorem slice_overwrite (bytes : Bytes) (start : Nat) (source : Bytes)
    (h : room bytes start source.size = source.size) :
    slice (overwrite bytes start source.toList) start source.size = source := by
  unfold room at h
  apply Array.ext_getElem?
  intro i
  rw [getElem?_slice, getElem?_overwrite, Array.length_toList]
  split
  · rw [if_pos (by omega), Nat.add_sub_cancel_left, Array.getElem?_toList]
  · rw [Array.getElem?_eq_none (by omega)]

/-- What stands before the place is not overwritten. -/
theorem slice_overwrite_of_le (bytes : Bytes) {start count place : Nat} (source : List UInt8)
    (h : start + count ≤ place) :
    slice (overwrite bytes place source) start count = slice bytes start count := by
  apply Array.ext_getElem?
  intro i
  rw [getElem?_slice, getElem?_slice, getElem?_overwrite]
  split
  · rw [if_neg (by omega)]
  · rfl

theorem getElem?_resize (bytes : Bytes) (size i : Nat) :
    (resize bytes size)[i]? = if i < size then some (bytes[i]?.getD 0) else none := by
  rw [resize, Array.getElem?_append, Array.size_extract, Array.getElem?_extract, Nat.zero_add,
    Array.getElem?_replicate]
  by_cases hi : i < size
  · rw [if_pos hi]
    by_cases hb : i < bytes.size
    · rw [if_pos (by omega), if_pos (by omega), Array.getElem?_eq_getElem hb]
      rfl
    · rw [if_neg (by omega), if_pos (by omega), Array.getElem?_eq_none (by omega)]
      rfl
  · rw [if_neg hi, if_neg (by omega), if_neg (by omega)]

end CoopKernel.Bytes
