import CoopKernel.Proofs.Bytes
import CoopKernel.Proofs.Snapshot.Block

/-!
# The state block as a codec

Which byte strings are state blocks, what of them is looked at, and what a snapshot comes back as that
was written to one. A snapshot comes back once as it always comes back after that, since a replacement
character at the end of a field is cut to a piece that is replaced by the same character.
-/

namespace CoopKernel

namespace Bytes

/-- Strings with the same first bytes have the same byte at each of their positions. -/
theorem getD_of_slice_eq {bytes others : Bytes} {n i : Nat} (h : bytes.slice 0 n = others.slice 0 n)
    (hi : i < n) : bytes.getD i 0 = others.getD i 0 := by
  have hbyte := congrArg (·[i]?) h
  simp only [getElem?_slice, if_pos hi, Nat.zero_add] at hbyte
  rw [Array.getD_eq_getD_getElem?, Array.getD_eq_getD_getElem?, hbyte]

/-- Strings with the same first bytes have the same parts there. -/
theorem slice_of_slice_eq {bytes others : Bytes} {n start count : Nat}
    (h : bytes.slice 0 n = others.slice 0 n) (hle : start + count ≤ n) :
    bytes.slice start count = others.slice start count := by
  apply Array.ext_getElem?
  intro i
  have hbyte := congrArg (·[start + i]?) h
  simp only [getElem?_slice, Nat.zero_add] at hbyte
  rw [getElem?_slice, getElem?_slice]
  split
  · rwa [if_pos (by omega), if_pos (by omega)] at hbyte
  · rfl

end Bytes

namespace Word

theorem fromBytes_of_slice_eq {bytes others : Bytes} {n : Nat}
    (h : bytes.slice 0 n = others.slice 0 n) (start : Nat) (hlt : start + 1 < n) :
    fromBytes bytes start = fromBytes others start := by
  rw [fromBytes, fromBytes, Bytes.getD_of_slice_eq h (Nat.lt_of_succ_lt hlt),
    Bytes.getD_of_slice_eq h hlt]

/-- Words that stand within the first bytes are the same. -/
theorem ofFn_of_slice_eq {bytes others : Bytes} {n : Nat}
    (h : bytes.slice 0 n = others.slice 0 n) (start count : Nat) (hle : start + 2 * count ≤ n) :
    (Vector.ofFn fun i : Fin count => fromBytes bytes (start + 2 * i.val)) =
      Vector.ofFn fun i => fromBytes others (start + 2 * i.val) := by
  have hword (i : Fin count) :
      fromBytes bytes (start + 2 * i.val) = fromBytes others (start + 2 * i.val) :=
    fromBytes_of_slice_eq h _ (by omega)
  exact congrArg Vector.ofFn (funext hword)

end Word

namespace Snapshot

/-- A text as its field keeps it: up to the first NUL, as many bytes as the field has besides the NUL at
its end, and a replacement character for a character that these end in the middle of. -/
def clipText (text : String) : String :=
  String.ofList (Utf8.cut (textSize - 1) (text.toList.takeWhile (· ≠ '\x00')))

/-- A string that is long enough and has few enough arguments is a state block, and no other is. -/
theorem ofBlock_cases (block : Bytes) :
    (blockSize ≤ block.size ∧ (block.getD 17 0).toNat ≤ maxArguments ∧ ∃ s, ofBlock block = .ok s) ∨
    (¬(blockSize ≤ block.size ∧ (block.getD 17 0).toNat ≤ maxArguments) ∧
      ofBlock block = .error .corruptState) := by
  unfold ofBlock
  by_cases hsize : block.size < blockSize
  · rw [if_pos hsize]
    exact .inr ⟨fun h => absurd h.1 (Nat.not_le.mpr hsize), rfl⟩
  · rw [if_neg hsize]
    by_cases hmany : (block.getD 17 0).toNat > maxArguments
    · dsimp only
      rw [if_pos hmany]
      exact .inr ⟨fun h => absurd h.2 (Nat.not_le.mpr hmany), rfl⟩
    · dsimp only
      rw [if_neg hmany]
      exact .inl ⟨Nat.not_lt.mp hsize, Nat.not_lt.mp hmany, _, rfl⟩

theorem exists_ofBlock_iff (block : Bytes) :
    (∃ s, ofBlock block = .ok s) ↔
      blockSize ≤ block.size ∧ (block.getD 17 0).toNat ≤ maxArguments := by
  rcases ofBlock_cases block with ⟨hsize, hfew, hok⟩ | ⟨hnot, herror⟩
  · exact iff_of_true hok ⟨hsize, hfew⟩
  · refine iff_of_false ?_ hnot
    rintro ⟨s, hok⟩
    cases herror.symm.trans hok

theorem textAt_of_slice_eq {block other : Bytes} {n : Nat}
    (h : block.slice 0 n = other.slice 0 n) (start : Nat) (hle : start + textSize ≤ n) :
    textAt block start = textAt other start := by
  rw [textAt, textAt, Bytes.slice_of_slice_eq h hle]

/-- Nothing behind the state block is looked at. -/
theorem ofBlock_of_slice_eq {block other : Bytes}
    (h : block.slice 0 blockSize = other.slice 0 blockSize) : ofBlock block = ofBlock other := by
  have hroom : Bytes.room block 0 blockSize = Bytes.room other 0 blockSize := by
    rw [← Bytes.size_slice, ← Bytes.size_slice, h]
  have hsize : block.size < blockSize ↔ other.size < blockSize := by
    unfold Bytes.room at hroom
    omega
  have hregs := Word.ofFn_of_slice_eq h 0 8 (by decide)
  have hskip := Bytes.getD_of_slice_eq (i := 16) h (by decide)
  have hcount := Bytes.getD_of_slice_eq (i := 17) h (by decide)
  have hhandlers := Word.ofFn_of_slice_eq h 18 4 (by decide)
  have hstdio := Word.fromBytes_of_slice_eq h 26 (by decide)
  have hdata := Word.fromBytes_of_slice_eq h 28 (by decide)
  have hoffsets := Word.ofFn_of_slice_eq h 30 4 (by decide)
  have hwork := textAt_of_slice_eq h 38 (by decide)
  have hsearch := textAt_of_slice_eq h 102 (by decide)
  simp only [Nat.zero_add] at hregs
  simp only [ofBlock, hsize, hregs, hskip, hcount, hhandlers, hstdio, hdata, hoffsets, hwork, hsearch]

/-- What came back once comes back the same again. -/
theorem ofBlock_toBlock_again {s s' : Snapshot} (h : ofBlock s.toBlock = .ok s') :
    ofBlock s'.toBlock = .ok s' := by
  have hfew : s.env.argCount.toNat ≤ maxArguments := by
    rw [← getD_argCount]
    exact ((exists_ofBlock_iff s.toBlock).mp ⟨s', h⟩).2
  rw [ofBlock_toBlock hfew] at h
  cases h
  rw [ofBlock_toBlock (by rwa [stored_argCount]), stored_stored]

/-- A snapshot with no more arguments than there can be comes back from its block with its texts cut to
their fields, and with nothing changed where they have room there and no NUL. What came back comes back
the same from then on. A byte string is read as a snapshot exactly if it is as long as a block and says
of no more arguments than there can be, and no byte behind the block matters. -/
theorem block_codec :
    (∀ s : Snapshot, s.env.argCount.toNat ≤ 4 →
      ofBlock s.toBlock = .ok { s with env := { s.env with
        workDir := clipText s.env.workDir, searchPath := clipText s.env.searchPath } } ∧
      (Utf8.size s.env.workDir ≤ 63 → '\x00' ∉ s.env.workDir.toList →
        Utf8.size s.env.searchPath ≤ 63 → '\x00' ∉ s.env.searchPath.toList →
        ofBlock s.toBlock = .ok s)) ∧
    (∀ s s' : Snapshot, ofBlock s.toBlock = .ok s' → ofBlock s'.toBlock = .ok s') ∧
    (∀ block : Bytes, ((∃ s, ofBlock block = .ok s) ↔
        166 ≤ block.size ∧ (block.getD 17 0).toNat ≤ 4) ∧
      ((∀ s, ofBlock block ≠ .ok s) → ofBlock block = .error .corruptState)) ∧
    (∀ block other : Bytes, block.slice 0 166 = other.slice 0 166 → ofBlock block = ofBlock other) := by
  have hclip : ∀ text, storedText text = clipText text := storedText_eq
  refine ⟨?_, fun s s' h => ofBlock_toBlock_again h, ?_, fun block other h => ofBlock_of_slice_eq h⟩
  · intro s hfew
    have hback := ofBlock_toBlock hfew
    refine ⟨?_, ?_⟩
    · rw [hback, stored, hclip, hclip]
    · intro hwork hworkNul hsearch hsearchNul
      rw [hback, stored, storedText_of_size (Nat.lt_succ_of_le hwork) fun c hc hnul => hworkNul (hnul ▸ hc),
        storedText_of_size (Nat.lt_succ_of_le hsearch) fun c hc hnul => hsearchNul (hnul ▸ hc)]
  · intro block
    refine ⟨exists_ofBlock_iff block, ?_⟩
    intro hnone
    rcases ofBlock_cases block with ⟨-, -, s, hok⟩ | ⟨-, herror⟩
    · exact absurd hok (hnone s)
    · exact herror

/-- A snapshot whose working directory ends in a character of two bytes, of which one has room. -/
def brokenText : Snapshot :=
  { skip := true
    dataLength := 7
    env := {
      workDir := String.ofList (List.replicate 62 'x' ++ ['\u00E9', 'y'])
      searchPath := String.ofList ['/', 'b', '\x00', 'c']
      argCount := 4 } }

/-- What comes back of it. -/
def brokenTextBack : Snapshot :=
  { brokenText with env := { brokenText.env with
    workDir := String.ofList (List.replicate 62 'x' ++ ['\uFFFD'])
    searchPath := String.ofList ['/', 'b'] } }

theorem block_codec_of_brokenText :
    ofBlock brokenText.toBlock = .ok brokenTextBack ∧
    ofBlock brokenTextBack.toBlock = .ok brokenTextBack ∧
    ofBlock (({} : Snapshot).toBlock) = .ok {} ∧
    ofBlock (({} : Snapshot).toBlock.push 0xFF) = ofBlock ({} : Snapshot).toBlock := by
  have hwork : clipText brokenText.env.workDir = brokenTextBack.env.workDir := by
    rw [clipText, brokenText, String.toList_ofList]
    decide +kernel
  have hsearch : clipText brokenText.env.searchPath = brokenTextBack.env.searchPath := by
    rw [clipText, brokenText, String.toList_ofList]
    decide +kernel
  have hback := (block_codec.1 brokenText (by decide)).1
  rw [hwork, hsearch] at hback
  have hempty := (block_codec.1 {} (by decide)).2 (by decide) (by decide) (by decide) (by decide)
  have hbehind : Bytes.slice (({} : Snapshot).toBlock.push 0xFF) 0 166 =
      Bytes.slice ({} : Snapshot).toBlock 0 166 := by
    rw [Bytes.slice, Bytes.slice, Array.extract_push_of_le]
    rw [size_toBlock]
    decide
  exact ⟨hback, block_codec.2.1 brokenText brokenTextBack hback, hempty,
    block_codec.2.2.2 _ _ hbehind⟩

end Snapshot

end CoopKernel
