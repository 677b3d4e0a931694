import CoopKernel.Proofs.Memory.Region

/-!
# Memory after any sequence of accesses

A process reads and writes bytes, words and texts, and each of these can fail half way. The history of
such a sequence is the list of the bytes that were written, with their addresses. It determines what the
data region holds.
-/

namespace CoopKernel

/-- What a process can do with its memory. -/
inductive MemoryOp where
  | read (a : UInt16)
  | write (a : UInt16) (b : UInt8)
  | readWord (a : UInt16)
  | writeWord (a value : UInt16)
  | readText (a : UInt16) (count : Nat)
  | writeText (a : UInt16) (bytes : List UInt8)

namespace MemoryOp

/-- What an access answers. -/
inductive Answer where
  | byte (b : UInt8)
  | word (w : UInt16)
  | text (bytes : List UInt8)
  | done

/-- Does it. -/
def perform : MemoryOp → Access Volume Answer
  | read a => do return .byte (← AddressSpace.read a)
  | write a b => do AddressSpace.write a b; return .done
  | readWord a => do return .word (← AddressSpace.readWord a)
  | writeWord a value => do AddressSpace.writeWord a value; return .done
  | readText a count => do return .text (← AddressSpace.readText a count)
  | writeText a bytes => do AddressSpace.writeText a bytes; return .done

/-- The bytes that are to be written, with their addresses. -/
def addressed (a : UInt16) : List UInt8 → List (UInt16 × UInt8)
  | [] => []
  | b :: bytes => (a, b) :: addressed (a + 1) bytes

/-- What is to be written. -/
def payload : MemoryOp → List (UInt16 × UInt8)
  | read _ | readWord _ | readText _ _ => []
  | write a b => addressed a [b]
  | writeWord a value => addressed a (Word.toBytes value)
  | writeText a bytes => addressed a (bytes ++ [0])

/-- How much of it is written: everything up to the first byte that cannot be. -/
def accepted : List (UInt16 × UInt8) → AddressSpace Volume → List (UInt16 × UInt8)
  | [], _ => []
  | (a, b) :: rest, s =>
    match AddressSpace.write a b s with
    | .ok _ s' => (a, b) :: accepted rest s'
    | .error _ _ => []

/-- The memory after a sequence of accesses, some of which may have failed. -/
def run (ops : List MemoryOp) (s : AddressSpace Volume) : AddressSpace Volume :=
  ops.foldl (fun s op => after op.perform s) s

/-- The bytes that a sequence of accesses wrote. -/
def history : List MemoryOp → AddressSpace Volume → List (UInt16 × UInt8)
  | [], _ => []
  | op :: ops, s => accepted op.payload s ++ history ops (after op.perform s)

end MemoryOp

namespace AddressSpace

open MemoryOp

variable {s : AddressSpace Volume}

/-! ## Single accesses -/

theorem write_cases (hs : s.Fits) (a : UInt16) (b : UInt8) :
    (∃ e s', write a b s = .error e s' ∧ Untouched s s') ∨
      ∃ s', write a b s = .ok () s' ∧ Evolves [(a, b)] s s' := by
  unfold write
  split
  · exact .inl ⟨_, s, rfl, refl_of _ s⟩
  · next ha =>
    rcases writeData_cases hs (UInt16.not_lt.mp ha) b with ⟨s', hw, hsame⟩ | ⟨s', hw, hput⟩
    · exact .inl ⟨_, s', hw, hsame⟩
    · exact .inr ⟨s', hw, hput⟩

/-- Writing bytes does with memory what the accepted ones say; all of them are if it succeeds. -/
theorem writeBytes_evolves (hs : s.Fits) (a : UInt16) (bytes : List UInt8) :
    Evolves (accepted (addressed a bytes) s) s (after (writeBytes a bytes) s) ∧
      ∀ u s', writeBytes a bytes s = .ok u s' →
        accepted (addressed a bytes) s = addressed a bytes := by
  induction bytes generalizing a s with
  | nil => exact ⟨.refl hs, fun _ _ _ => rfl⟩
  | cons b bytes ih =>
    unfold writeBytes
    simp only [addressed, accepted]
    rcases write_cases hs a b with ⟨e, s₁, hw, hsame⟩ | ⟨s₁, hw, hput⟩
    · rw [after_bind_error hw, bind_of_error hw, hw]
      refine ⟨hsame.evolves hs, ?_⟩
      rintro _ _ ⟨⟩
    · rw [after_bind_ok hw, bind_of_ok hw, hw]
      obtain ⟨hrest, hall⟩ := ih hput.fits (a + 1)
      exact ⟨hput.trans hrest, fun u s' hok => congrArg (List.cons (a, b)) (hall u s' hok)⟩

theorem after_perform_map {α : Type} (act : Access Volume α) (f : α → Answer) (s : AddressSpace Volume) :
    after (do return f (← act)) s = after act s := by
  cases hr : act s with
  | ok a s' =>
    rw [after_bind_ok hr, after_ok hr]
    rfl
  | error e s' => rw [after_bind_error hr, after_error hr]

theorem perform_evolves (hs : s.Fits) (op : MemoryOp) :
    Evolves (accepted op.payload s) s (after op.perform s) := by
  have hread : ∀ {α : Type} (act : Access Volume α) (f : α → Answer), Keeps Untouched act →
      Evolves [] s (after (do return f (← act)) s) := by
    intro α act f hact
    rw [after_perform_map]
    exact (hact s).evolves hs
  have hwrite : ∀ (a : UInt16) (bytes : List UInt8) (act : Access Volume Unit),
      act = writeBytes a bytes → Evolves (accepted (addressed a bytes) s) s
        (after (do act; return .done : Access Volume Answer) s) := by
    rintro a bytes act rfl
    have hdone := after_perform_map (writeBytes a bytes) (fun _ => .done) s
    exact hdone ▸ (writeBytes_evolves hs a bytes).1
  cases op with
  | read a => exact hread _ .byte (read_untouched a)
  | readWord a =>
    exact hread _ .word (.bind (read_untouched a) fun _ => .bind (read_untouched _) fun _ => .pure _)
  | readText a count => exact hread _ .text (readText_untouched a count)
  | write a b => exact hwrite a [b] _ (bind_pure_unit (x := AddressSpace.write a b)).symm
  | writeWord a value => exact hwrite a (Word.toBytes value) _ rfl
  | writeText a bytes => exact hwrite a (bytes ++ [0]) _ rfl

/-- An access that succeeds has written everything. -/
theorem accepted_of_ok (hs : s.Fits) {op : MemoryOp} {answer : Answer} {s' : AddressSpace Volume}
    (h : op.perform s = .ok answer s') : accepted op.payload s = op.payload := by
  have hwrite : ∀ (a : UInt16) (bytes : List UInt8) (act : Access Volume Unit),
      act = writeBytes a bytes → (do act; return .done : Access Volume Answer) s = .ok answer s' →
        accepted (addressed a bytes) s = addressed a bytes := by
    rintro a bytes act rfl hok
    cases hr : writeBytes a bytes s with
    | ok u s₁ => exact (writeBytes_evolves hs a bytes).2 u s₁ hr
    | error e s₁ =>
      rw [bind_of_error hr] at hok
      cases hok
  cases op with
  | read | readWord | readText => rfl
  | write a b => exact hwrite a [b] _ (bind_pure_unit (x := AddressSpace.write a b)).symm h
  | writeWord a value => exact hwrite a (Word.toBytes value) _ rfl h
  | writeText a bytes => exact hwrite a (bytes ++ [0]) _ rfl h

theorem accepted_prefix (entries : List (UInt16 × UInt8)) (s : AddressSpace Volume) :
    accepted entries s <+: entries := by
  induction entries generalizing s with
  | nil => exact List.prefix_refl []
  | cons entry rest ih =>
    unfold accepted
    split
    · exact (List.prefix_cons_inj _).mpr (ih _)
    · exact List.nil_prefix

theorem run_evolves (hs : s.Fits) (ops : List MemoryOp) :
    Evolves (history ops s) s (run ops s) := by
  induction ops generalizing s with
  | nil => exact .refl hs
  | cons op ops ih =>
    have hop := perform_evolves hs op
    exact hop.trans (ih hop.fits)

end AddressSpace

/-! ## Flat arrays -/

/-- The bytes that there are, by their addresses. -/
abbrev Flat := UInt16 → Option UInt8

namespace Flat

/-- Reads a byte. -/
def read (m : Flat) (a : UInt16) : Except Fault UInt8 :=
  match m a with
  | some b => .ok b
  | none => .error (.unallocatedRead a)

/-- Reads a word. -/
def readWord (m : Flat) (a : UInt16) : Except Fault UInt16 := do
  return Word.ofBytes (← m.read a) (← m.read (a + 1))

/-- Reads a text. -/
def readText (m : Flat) (a : UInt16) : (count : Nat) → Except Fault (List UInt8)
  | 0 => return []
  | count + 1 => do
    let b ← m.read a
    if b = 0 then return []
    return b :: (← m.readText (a + 1) count)

/-- The array of a data region after bytes were written there and it grew to the given length, with
`fill` wherever it is new. -/
def ofHistory (s : AddressSpace Volume) (fill : UInt8) (written : List (UInt16 × UInt8))
    (length : Nat) : Flat := fun a =>
  if dataStart ≤ a ∧ a.toNat - dataStart.toNat < length then
    match AddressSpace.lastWritten written a with
    | some b => some b
    | none => if s.Covers a then s.byte? a else some fill
  else none

/-- An answer that leaves the memory as it is. -/
def reply {α : Type} (s : AddressSpace Volume) :
    Except Fault α → EStateM.Result Fault (AddressSpace Volume) α
  | .ok a => .ok a s
  | .error e => .error e s

theorem reply_bind {α β : Type} {act : Access Volume α} {f : α → Access Volume β}
    {s : AddressSpace Volume} {answer : Except Fault α} {g : α → Except Fault β}
    (h : act s = reply s answer) (hf : ∀ a, f a s = reply s (g a)) :
    (act >>= f) s = reply s (answer >>= g) := by
  cases answer with
  | ok a => exact (bind_of_ok h).trans (hf a)
  | error e => exact bind_of_error h

end Flat

namespace AddressSpace

open MemoryOp Flat

variable {s : AddressSpace Volume}

theorem read_reply (hs : s.Fits) {a : UInt16} (ha : dataStart ≤ a) :
    read a s = reply s (Flat.read s.byte? a) := by
  have hfile : (s.store.behind? s.data).isSome := by
    obtain ⟨_, _, hb, _⟩ := hs.content
    rw [hb]
    rfl
  have hlow : ¬a < dataStart := UInt16.not_lt.mpr ha
  rw [read, if_neg hlow, readData_eq hfile, Flat.read, byte?, if_neg hlow]
  cases s.dataByte? (a.toNat - dataStart.toNat) <;> rfl

/-- The addresses of some bytes from an address of the data region on are all in its half. -/
theorem dataStart_le_succ {a : UInt16} {count : Nat} (ha : dataStart ≤ a)
    (hcount : a.toNat + (count + 2) ≤ 65536) :
    dataStart ≤ a + 1 ∧ (a + 1).toNat + (count + 1) ≤ 65536 := by
  have hsucc : (a + 1).toNat = a.toNat + 1 := by
    rw [UInt16.toNat_add]
    exact Nat.mod_eq_of_lt (by show a.toNat + 1 < 65536; omega)
  rw [UInt16.le_iff_toNat_le] at ha ⊢
  omega

theorem readWord_reply (hs : s.Fits) {a : UInt16} (ha : dataStart ≤ a)
    (hcount : a.toNat + 2 ≤ 65536) : readWord a s = reply s (Flat.readWord s.byte? a) := by
  have hnext : dataStart ≤ a + 1 := (dataStart_le_succ ha (by omega : a.toNat + (0 + 2) ≤ 65536)).1
  exact reply_bind (read_reply hs ha) fun high => reply_bind (read_reply hs hnext) fun low => rfl

theorem readText_reply (hs : s.Fits) {a : UInt16} (count : Nat) (ha : dataStart ≤ a)
    (hcount : a.toNat + count ≤ 65536) :
    readText a count s = reply s (Flat.readText s.byte? a count) := by
  induction count generalizing a with
  | zero => rfl
  | succ count ih =>
    refine reply_bind (read_reply hs ha) fun b => ?_
    by_cases hb : b = 0
    · rw [if_pos hb, if_pos hb]
      rfl
    · rw [if_neg hb, if_neg hb]
      cases count with
      | zero => rfl
      | succ count =>
        obtain ⟨hnext, hroom⟩ := dataStart_le_succ ha hcount
        exact reply_bind (ih hnext hroom) fun _ => rfl

/-- What the data region holds comes from what was written. -/
theorem Evolves.byte?_eq {s' : AddressSpace Volume} {written : List (UInt16 × UInt8)} {v : UInt8}
    (h : Evolves written s s') (hv : s.filler = .known v) :
    s'.byte? = Flat.ofHistory s v written s'.dataLength.toNat := by
  funext a
  unfold Flat.ofHistory
  by_cases ha : s'.Covers a
  · rw [if_pos ⟨ha.1, ha.2⟩]
    by_cases hold : s.Covers a
    · rw [h.kept a hold, if_pos hold]
      cases lastWritten written a <;> rfl
    · rw [(h.fresh v hv).2 a ha hold, if_neg hold]
      cases lastWritten written a <;> rfl
  · have hout : ¬(dataStart ≤ a ∧ a.toNat - dataStart.toNat < s'.dataLength.toNat) := ha
    rw [if_neg hout, byte?_of_not_covers ha]

/-- Writing to the program is refused before anything is written. -/
theorem perform_protected {op : MemoryOp} {a : UInt16} {b : UInt8} {rest : List (UInt16 × UInt8)}
    (hop : op.payload = (a, b) :: rest) (ha : a < dataStart) (s : AddressSpace Volume) :
    op.perform s = .error (.protectedWrite a) s := by
  have hbytes : ∀ (a' : UInt16) (bytes : List UInt8), addressed a' bytes = (a, b) :: rest →
      writeBytes a' bytes s = .error (.protectedWrite a) s := by
    intro a' bytes he
    cases bytes with
    | nil => cases he
    | cons b' bytes =>
      have hfirst : a' = a := congrArg Prod.fst (List.cons.inj he).1
      have hwrite : write a' b' s = .error (.protectedWrite a) s := by
        rw [hfirst, write, if_pos ha]
        rfl
      exact bind_of_error hwrite
  cases op with
  | read | readWord | readText => cases hop
  | write a' b' =>
    have hone := hbytes a' [b'] hop
    rw [writeBytes, writeBytes, bind_pure_unit] at hone
    exact bind_of_error hone
  | writeWord a' value => exact bind_of_error (hbytes a' (Word.toBytes value) hop)
  | writeText a' bytes => exact bind_of_error (hbytes a' (bytes ++ [0]) hop)

/-- The data region is a flat array of bytes. After any sequence of accesses, whether or not they
succeeded, it is read as the array that has the byte written last at each address, and where nothing was
written what was there before or, if the region grew over the address, the byte that fresh memory is
filled with. An access changes no byte but those that it wrote, and those are all it had to write unless
it failed. The region never shrinks, and nothing else in the volume changes. -/
theorem data_region_is_flat {v : UInt8} (hs : s.Fits) (hv : s.filler = .known v)
    (ops : List MemoryOp) :
    let s' := run ops s
    let m := Flat.ofHistory s v (history ops s) s'.dataLength.toNat
    (∀ a, dataStart ≤ a → read a s' = reply s' (m.read a)) ∧
    (∀ a, dataStart ≤ a → a.toNat + 2 ≤ 65536 → readWord a s' = reply s' (m.readWord a)) ∧
    (∀ a count, dataStart ≤ a → a.toNat + count ≤ 65536 →
      readText a count s' = reply s' (m.readText a count)) ∧
    (∀ entry ∈ history ops s, s'.Covers entry.1) ∧
    s.dataLength.toNat ≤ s'.dataLength.toNat ∧
    (∀ i < Snapshot.blockSize, s'.store.byteAt? s.dataPath i = s.store.byteAt? s.dataPath i) ∧
    (∀ p, p ≠ s.dataPath → s'.store.node? p = s.store.node? p) ∧
    ∀ op : MemoryOp,
      let s'' := after op.perform s'
      s'.dataLength.toNat ≤ s''.dataLength.toNat ∧
      accepted op.payload s' <+: op.payload ∧
      (∀ answer, op.perform s' = .ok answer s'' → accepted op.payload s' = op.payload) ∧
      (∀ a, s'.Covers a → a ∉ (accepted op.payload s').map Prod.fst → s''.byte? a = s'.byte? a) ∧
      (∀ a b rest, op.payload = (a, b) :: rest → a < dataStart →
        op.perform s' = .error (.protectedWrite a) s') := by
  intro s' m
  have hrun := run_evolves hs ops
  have hm : m = s'.byte? := (hrun.byte?_eq hv).symm
  rw [hm]
  refine ⟨fun a => read_reply hrun.fits, fun a => readWord_reply hrun.fits,
    fun a count => readText_reply hrun.fits count, hrun.covered, hrun.length, hrun.apart.block,
    hrun.apart.store.nodes, ?_⟩
  intro op s''
  have hop := perform_evolves hrun.fits op
  refine ⟨hop.length, accepted_prefix _ _, fun answer => accepted_of_ok hrun.fits, ?_, ?_⟩
  · intro a ha hnot
    have hnone : lastWritten (accepted op.payload s') a = none := by
      cases hw : lastWritten (accepted op.payload s') a with
      | none => rfl
      | some b => exact absurd (List.mem_map_of_mem (mem_of_lastWritten hw)) hnot
    rw [hop.kept a ha, hnone, Option.none_or]
  · intro a b rest hpayload ha
    exact perform_protected hpayload ha s'

/-- A data region with no bytes that can have four, over memory that is filled with 7. -/
def emptyRegion : AddressSpace Volume where
  store := ((Volume.empty.addFile (Path.ofText "/tmp/proc0")
    (Array.replicate Snapshot.blockSize 0)).2.openPath (Path.ofText "/tmp/proc0")).2
  filler := .known 7
  limit := 4
  program := ⟨2⟩
  data := ⟨1⟩
  dataPath := Path.ofText "/tmp/proc0"
  dataLength := 0
  window := .closed

/-- The third byte is written, a word is written half, and a byte of the program is not. -/
def threeWrites : List MemoryOp := [.write 0x8002 5, .writeWord 0x8003 0x0102, .write 0x7FFF 1]

theorem data_region_is_flat_after_growth :
    let s' := run threeWrites emptyRegion
    readText 0x8000 3 s' = .ok [7, 7, 5] s' ∧ read 0x8003 s' = .ok 1 s' ∧
      read 0x8004 s' = .error (.unallocatedRead 0x8004) s' := by
  intro s'
  let m := Flat.ofHistory emptyRegion 7 (history threeWrites emptyRegion)
    (run threeWrites emptyRegion).dataLength.toNat
  have hfits : emptyRegion.Fits := ⟨by decide +kernel, by decide +kernel⟩
  obtain ⟨hbyte, _, htext, _⟩ := data_region_is_flat hfits (v := 7) rfl threeWrites
  have h₀ : m.readText 0x8000 3 = .ok [7, 7, 5] := by decide +kernel
  have h₃ : m.read 0x8003 = .ok 1 := by decide +kernel
  have h₄ : m.read 0x8004 = .error (.unallocatedRead 0x8004) := by decide +kernel
  refine ⟨?_, ?_, ?_⟩
  · exact (htext 0x8000 3 (by decide +kernel) (by decide +kernel)).trans (congrArg (reply s') h₀)
  · exact (hbyte 0x8003 (by decide +kernel)).trans (congrArg (reply s') h₃)
  · exact (hbyte 0x8004 (by decide +kernel)).trans (congrArg (reply s') h₄)

end AddressSpace

end CoopKernel
