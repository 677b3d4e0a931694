import CoopKernel.Proofs.Abreast
import CoopKernel.Proofs.Fetching
import CoopKernel.Proofs.Snapshot.Block

/-!
# Reads that are done again

A process that would have to wait for what it reads is put back on its system call, so that it does the call again
in its next turn. It sees its program through another window by then, and its environment has been stored and
loaded. Neither makes a difference to a read: what it does depends on the registers, the data region and the
storage alone.
-/

namespace CoopKernel

/-! ## Fetching a system call -/

namespace AddressSpace

variable {s s' : AddressSpace Volume} {a : UInt16} {b : UInt8}

/-- The byte at an address is there to be read, and only the window changes when it is. -/
def Shows (s : AddressSpace Volume) (a : UInt16) (b : UInt8) : Prop :=
  ∃ w, AddressSpace.read a s = .ok b { s with window := w }

/-- A byte of the program is in the program file, and the window does not show another one. -/
theorem shows_program (ha : a < dataStart) (hfile : s.code?.bind (·[a.toNat]?) = some b)
    (hwindow : ∀ b', s.window.byte? a = some b' → b' = b) : s.Shows a b := by
  obtain ⟨code, hcode, hb⟩ := Option.bind_eq_some_iff.mp hfile
  unfold Shows AddressSpace.read
  rw [if_pos ha, readProgram_eq hcode ha]
  cases hw : s.window.byte? a with
  | some b' =>
    obtain rfl := hwindow b' hw
    exact ⟨s.window, rfl⟩
  | none =>
    rw [hb]
    exact ⟨_, rfl⟩

theorem shows_data (ha : ¬a < dataStart) (hfile : (s.store.behind? s.data).isSome)
    (hb : s.dataByte? (a.toNat - dataStart.toNat) = some b) : s.Shows a b := by
  unfold Shows AddressSpace.read
  rw [if_neg ha, readData_eq hfile, hb]
  exact ⟨s.window, rfl⟩

/-- The byte of a system call is enough to fetch it. -/
theorem Shows.fetch (h : s.Shows a 0xC1) : ∃ w, AddressSpace.fetch a s = .ok .syscall { s with window := w } := by
  obtain ⟨w, hread⟩ := h
  refine ⟨w, ?_⟩
  unfold AddressSpace.fetch
  rw [bind_of_ok hread]
  rfl

/-- What is fetched as a system call is the byte of one. -/
theorem read_of_fetch (h : AddressSpace.fetch a s = .ok .syscall s') :
    ∃ s₁, AddressSpace.read a s = .ok 0xC1 s₁ := by
  unfold AddressSpace.fetch at h
  cases hread : AddressSpace.read a s with
  | error f s₁ =>
    rw [bind_of_error hread] at h
    cases h
  | ok first s₁ =>
    rw [bind_of_ok hread] at h
    cases hrest : AddressSpace.readBytes (a + 1) (Instr.lengthFrom first - 1) s₁ with
    | error f s₂ =>
      rw [bind_of_error hrest] at h
      cases h
    | ok rest s₂ =>
      rw [bind_of_ok hrest] at h
      have hdecode : Instr.decode (first :: rest) = .ok .syscall := by
        cases hd : Instr.decode (first :: rest) with
        | ok instr =>
          rw [hd] at h
          cases h
          rfl
        | error e =>
          rw [hd] at h
          cases h
      obtain ⟨-, -, hreads⟩ := Instr.reads_of_decode hdecode
      obtain rfl : 0xC1 = first := (List.cons.inj hreads.encode_eq).1
      exact ⟨s₁, rfl⟩

end AddressSpace

end CoopKernel
