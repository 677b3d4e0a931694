import CoopKernel.Proofs.Memory.Data
import Mathlib.Data.List.Infix

/-!
# The program in memory

A process reads its program through the window, and the program file is not read again for what the window
shows. So a process can read bytes that are no longer in the file, but only such as were there since it last
closed the window. For a process that does not change its program file, or closes the window when it did, the
window makes no difference.
-/

namespace CoopKernel

namespace Window

/-- All that the window shows is there. -/
def Shows (w : Window) (code : Bytes) : Prop :=
  ∀ a b, w.byte? a = some b → code[a.toNat]? = some b

theorem byte?_of_empty {w : Window} (h : w.bytes = #[]) (a : UInt16) : w.byte? a = none := by
  unfold byte?
  rw [h]
  split <;> rfl

theorem shows_of_empty {w : Window} (h : w.bytes = #[]) (code : Bytes) : w.Shows code := by
  intro a b hb
  rw [byte?_of_empty h] at hb
  cases hb

theorem shows_slice (code : Bytes) (base : UInt16) (count : Nat) :
    (⟨base, code.slice base.toNat count⟩ : Window).Shows code := by
  intro a b hb
  unfold byte? at hb
  split at hb
  · next hbase =>
    rw [Bytes.getElem?_slice] at hb
    rw [UInt16.le_iff_toNat_le] at hbase
    split at hb
    · rw [← hb, Nat.add_sub_cancel' hbase]
    · cases hb
  · cases hb

end Window

namespace AddressSpace

variable {s s' : AddressSpace Volume} {a : UInt16} {b : UInt8} {code : Bytes}

/-- What is in the program file. -/
def code? (s : AddressSpace Volume) : Option Bytes :=
  s.store.behind? s.program

/-- What is shown by the window is read from there. For the rest the file is read, and what was read is shown
from then on. -/
theorem readProgram_eq (hcode : s.code? = some code) (ha : a < dataStart) : readProgram a s =
    match s.window.byte? a with
    | some b => .ok b s
    | none =>
      let s' := { s with window := ⟨a, code.slice a.toNat (Window.extent a)⟩ }
      match code[a.toNat]? with
      | some b => .ok b s'
      | none => .error (.pastProgram a) s' := by
  unfold readProgram
  rw [get_bind]
  cases s.window.byte? a with
  | some b => rfl
  | none =>
    have hfirst : (code.slice a.toNat (Window.extent a))[0]? = code[a.toNat]? := by
      rw [UInt16.lt_iff_toNat_lt] at ha
      have hstart : dataStart.toNat = 0x8000 := rfl
      rw [Bytes.getElem?_slice, if_pos (by unfold Window.extent Window.maxSize; omega), Nat.add_zero]
    dsimp only
    rw [bind_of_ok (readFile_eq hcode _ _), modify_bind, hfirst]
    cases code[a.toNat]? <;> rfl

/-- Where the window shows what is in the file, what is read is what is in the file. -/
theorem readProgram_of_shows (hcode : s.code? = some code) (hw : s.window.Shows code) (ha : a < dataStart) :
    ∃ w : Window, w.Shows code ∧ readProgram a s =
      match code[a.toNat]? with
      | some b => .ok b { s with window := w }
      | none => .error (.pastProgram a) { s with window := w } := by
  rw [readProgram_eq hcode ha]
  cases hb : s.window.byte? a with
  | some b =>
    refine ⟨s.window, hw, ?_⟩
    rw [hw a b hb]
  | none => exact ⟨_, Window.shows_slice _ _ _, rfl⟩

/-- Reading memory does not change what is in the program file. -/
theorem code?_after_read (s : AddressSpace Volume) (a : UInt16) : (after (AddressSpace.read a) s).code? = s.code? :=
  read_keeps (R := fun s s' => s'.code? = s.code?) (fun h offset count s => s.store.behind?_read h offset count _)
    (fun _ _ => rfl) a s

/-- Reading the data region does not move the window. -/
theorem readData_window (a : UInt16) (i : Nat) :
    Keeps (fun s s' => s'.window = s.window) (readData a i : Access Volume UInt8) := by
  unfold readData
  refine .bind .get fun s => ?_
  split
  · exact .throw_bind _ _
  · refine .bind (fun s => rfl) fun bytes => ?_
    split
    · exact .pure _
    · exact .throw _

/-- Reading leaves the window where it is, or moves it to a part of the program file. -/
theorem window_after_read (hcode : s.code? = some code) (a : UInt16) :
    (after (AddressSpace.read a) s).window = s.window ∨ (after (AddressSpace.read a) s).window.Shows code := by
  unfold AddressSpace.read
  split
  · next ha =>
    rw [after, readProgram_eq hcode ha]
    cases s.window.byte? a with
    | some b => exact .inl rfl
    | none =>
      refine .inr ?_
      cases code[a.toNat]? <;> exact Window.shows_slice code a (Window.extent a)
  · exact .inl (readData_window a _ s)

end AddressSpace

/-! ## Reading, closing the window and changing the program -/

/-- What can happen to what a process sees of its program. -/
inductive ProgramEvent where
  /-- The process reads a byte. -/
  | read (a : UInt16)
  /-- The process closes the window. -/
  | close
  /-- Anything but the program and the window is changed. The program file may be, with the storage. -/
  | change (memory : AddressSpace Volume)
  /-- The process exchanges its program. -/
  | exchange (program : Handle)

namespace ProgramEvent

/-- What happens to the memory of the process. -/
def apply (s : AddressSpace Volume) : ProgramEvent → AddressSpace Volume
  | read a => after (AddressSpace.read a) s
  | close => { s with window := s.window.close }
  | change memory => { memory with program := s.program, window := s.window }
  | exchange program => { s with program, window := Window.closed }

/-- What happens in turn. -/
def run (events : List ProgramEvent) (s : AddressSpace Volume) : AddressSpace Volume :=
  events.foldl apply s

/-- The window shows nothing afterwards. -/
def empties : ProgramEvent → Bool
  | close | exchange _ => true
  | read _ | change _ => false

variable {s s' : AddressSpace Volume} {a : UInt16} {b : UInt8} {code : Bytes}

theorem shown_of_empties {event : ProgramEvent} (h : event.empties) : (event.apply s).window.byte? a = none := by
  cases event with
  | close | exchange program => exact Window.byte?_of_empty rfl a
  | read a' | change memory => cases h

/-- A byte that the window shows after something happened was shown before, or is in the file. -/
theorem shown_apply (hcode : s.code?.isSome) (event : ProgramEvent)
    (hb : (event.apply s).window.byte? a = some b) :
    event.empties = false ∧ s.window.byte? a = some b ∨ (event.apply s).code?.bind (·[a.toNat]?) = some b := by
  cases hempties : event.empties with
  | true =>
    rw [shown_of_empties hempties] at hb
    cases hb
  | false =>
    cases event with
    | close | exchange program => cases hempties
    | change memory => exact .inl ⟨rfl, hb⟩
    | read a' =>
      obtain ⟨code, hcode⟩ := Option.isSome_iff_exists.mp hcode
      rcases AddressSpace.window_after_read hcode a' with hsame | hshows
      · exact .inl ⟨rfl, hsame ▸ hb⟩
      · refine .inr ?_
        rw [show (apply s (read a')).code? = some code from (s.code?_after_read a').trans hcode]
        exact hshows a b hb

/-- The program is a regular file all the time. -/
def Regular (events : List ProgramEvent) (s : AddressSpace Volume) : Prop :=
  ∀ early, early <+: events → (run early s).code?.isSome

instance (events : List ProgramEvent) (s : AddressSpace Volume) : Decidable (Regular events s) :=
  decidable_of_iff (∀ early ∈ events.inits, (run early s).code?.isSome) (by simp only [List.mem_inits, Regular])

/-- Every byte that the window shows in the end has been shown all the time, or was in the file at some time since
the window was last empty. -/
theorem shown_run {events : List ProgramEvent} (h : Regular events s)
    (hb : (run events s).window.byte? a = some b) :
    events.all (!·.empties) ∧ s.window.byte? a = some b ∨
      ∃ early late, early ++ late = events ∧ late.all (!·.empties) ∧
        (run early s).code?.bind (·[a.toNat]?) = some b := by
  induction events generalizing s with
  | nil => exact .inl ⟨rfl, hb⟩
  | cons event events ih =>
    have hbehind : Regular events (event.apply s) :=
      fun early he => h (event :: early) ((List.prefix_cons_inj _).mpr he)
    rcases ih hbehind hb with ⟨hstays, hb⟩ | ⟨early, late, rfl, hlate, hthen⟩
    · rcases shown_apply (h [] List.nil_prefix) event hb with ⟨hstay, hb⟩ | hnow
      · exact .inl ⟨by rw [List.all_cons, hstay, hstays]; rfl, hb⟩
      · exact .inr ⟨[event], events, rfl, hstays, hnow⟩
    · exact .inr ⟨event :: early, late, rfl, hlate, hthen⟩

/-- What is read was in the file at some time since the window was last empty. -/
theorem read_run {events : List ProgramEvent} (hempty : s.window.bytes = #[]) (h : Regular events s)
    (ha : a < dataStart) (hb : AddressSpace.read a (run events s) = .ok b s') :
    ∃ early late, early ++ late = events ∧ late.all (!·.empties) ∧
      (run early s).code?.bind (·[a.toNat]?) = some b := by
  obtain ⟨code, hcode⟩ := Option.isSome_iff_exists.mp (h events (List.prefix_refl _))
  rw [AddressSpace.read, if_pos ha, AddressSpace.readProgram_eq hcode ha] at hb
  cases hw : (run events s).window.byte? a with
  | some b' =>
    rw [hw] at hb
    cases hb
    rcases shown_run h hw with ⟨-, hstart⟩ | hthen
    · rw [Window.byte?_of_empty hempty] at hstart
      cases hstart
    · exact hthen
  | none =>
    rw [hw] at hb
    refine ⟨events, [], List.append_nil _, rfl, ?_⟩
    rw [hcode, Option.bind_some]
    cases hget : code[a.toNat]? with
    | some b' =>
      rw [hget] at hb
      cases hb
      rfl
    | none =>
      rw [hget] at hb
      cases hb

/-- The part of what happened since the window was last empty begins in the part since an earlier time at which it
was empty. -/
theorem behind_of_empty {early late early' late' : List ProgramEvent} (h : early ++ late = early' ++ late')
    (hempty : early.getLast?.all (·.empties)) (hlate : late'.all (!·.empties)) :
    ∃ mid, mid <+: late ∧ early' = early ++ mid := by
  rcases List.append_eq_append_iff.mp h with ⟨mid, rfl, rfl⟩ | ⟨mid, rfl, rfl⟩
  · exact ⟨mid, List.prefix_append _ _, rfl⟩
  · cases hmid : mid.getLast? with
    | none =>
      rw [List.getLast?_eq_none_iff.mp hmid, List.append_nil]
      exact ⟨[], List.nil_prefix, (List.append_nil _).symm⟩
    | some event =>
      have hstays := List.all_eq_true.mp hlate event (List.mem_append_left _ (List.mem_of_getLast? hmid))
      rw [List.getLast?_append, hmid, Option.some_or, Option.all_some] at hempty
      rw [hempty] at hstays
      cases hstays

/-- Where the file has not changed since the window was empty, reading gives what is in the file. -/
theorem read_unchanged {early late : List ProgramEvent} (hstart : s.window.bytes = #[])
    (h : Regular (early ++ late) s) (hempty : early.getLast?.all (·.empties))
    (hsame : ∀ mid, mid <+: late → (run (early ++ mid) s).code? = some code) (ha : a < dataStart) :
    ∃ w, AddressSpace.read a (run (early ++ late) s) =
      match code[a.toNat]? with
      | some b => .ok b { run (early ++ late) s with window := w }
      | none => .error (.pastProgram a) { run (early ++ late) s with window := w } := by
  have hcode := hsame late (List.prefix_refl _)
  have hread := AddressSpace.readProgram_eq hcode ha
  unfold AddressSpace.read
  rw [if_pos ha, hread]
  cases hw : (run (early ++ late) s).window.byte? a with
  | none =>
    dsimp only
    exact ⟨_, rfl⟩
  | some b =>
    rw [hw] at hread
    have hok : AddressSpace.read a (run (early ++ late) s) = .ok b (run (early ++ late) s) := by
      rw [AddressSpace.read, if_pos ha, hread]
    obtain ⟨early', late', happend, hlate, hthen⟩ := read_run hstart h ha hok
    obtain ⟨mid, hmid, rfl⟩ := behind_of_empty happend.symm hempty hlate
    rw [hsame mid hmid, Option.bind_some] at hthen
    rw [hthen]
    exact ⟨_, rfl⟩

end ProgramEvent

end CoopKernel
