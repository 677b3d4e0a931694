import CoopKernel.Proofs.Memory.Growth
import CoopKernel.Proofs.Run
import CoopKernel.Proofs.Settled

/-!
# Addresses out of range

The kernel computes with lengths and addresses of bounded size. Nearly all of its sums wrap around where
they leave their range, or cannot leave it: what a data region grows to is at least what it was and at
most its limit, and what is taken off the bytes in use is among them. The one exception is the copying of
an argument, which finds the bytes of the argument by adding to the offset that the environment tells. A
kernel halts exactly if a process has it follow an argument past the last address.
-/

namespace CoopKernel

variable {σ : Type} [Storage σ]

namespace Turn

/-! ## Reading an argument -/

/-- Reading from an offset of the data region on comes to the last address, before the limit on texts,
without finding a NUL, and the data region is said to go on there. -/
def Overreaches (t : Turn σ) (offset : Nat) (count : Nat) : Prop :=
  0x8000 - offset < count ∧ max offset 0x8000 < t.self.state.dataLength.toNat ∧
    ∃ text s, AddressSpace.readText (UInt16.ofNat (dataStart.toNat + offset)) (0x8000 - offset) t.space =
      .ok text s ∧ text.length = 0x8000 - offset

/-- Reading memory does not change the length of the data region. -/
theorem read_dataLength {s s' : AddressSpace σ} {a : UInt16} {b : UInt8}
    (h : AddressSpace.read a s = .ok b s') : s'.dataLength = s.dataLength := by
  have hsame : AddressSpace.Readable (σ := σ)
      (Stays fun s' : AddressSpace σ => s'.dataLength = s.dataLength) fun _ => True :=
    ⟨fun _ _ => trivial, fun _ _ _ => .of_keeps (fun _ => id) fun _ => trivial, fun _ _ => id⟩
  have hread := (hsame.read a).keeps s rfl
  rw [after_ok h] at hread
  exact hread

/-- The memory of a process is where reading it left it. -/
theorem space_read {t : Turn σ} {s : AddressSpace σ} {a : UInt16} {b : UInt8}
    (h : AddressSpace.read a t.space = .ok b s) : (t.setSpace s).space = s := by
  have hquiet := (AddressSpace.tame_quiet.read a).keeps t.space
  rw [after_ok h] at hquiet
  rw [hquiet.rest]
  rfl

theorem ofNat_succ (n : Nat) : UInt16.ofNat n + 1 = UInt16.ofNat (n + 1) := by
  apply UInt16.toNat_inj.mp
  simp only [UInt16.toNat_add, UInt16.toNat_ofNat', UInt16.toNat_one]
  omega

/-- A text that fills the limit starts with a byte that is not a NUL and goes on as one. -/
theorem readText_full_iff {s s' : AddressSpace σ} {a : UInt16} {count : Nat} :
    (∃ text, AddressSpace.readText a (count + 1) s = .ok text s' ∧ text.length = count + 1) ↔
      ∃ b s₁, AddressSpace.read a s = .ok b s₁ ∧ b ≠ 0 ∧
        ∃ text, AddressSpace.readText (a + 1) count s₁ = .ok text s' ∧ text.length = count := by
  simp only [AddressSpace.readText]
  cases hread : AddressSpace.read a s with
  | error f s₁ =>
    rw [bind_of_error hread]
    simp
  | ok b s₁ =>
    rw [bind_of_ok hread]
    by_cases hb : b = 0
    · rw [if_pos hb]
      constructor
      · rintro ⟨text, h, hlength⟩
        cases h
        cases hlength
      · rintro ⟨b', s₂, h, hb', _⟩
        cases h
        exact absurd hb hb'
    · rw [if_neg hb]
      constructor
      · rintro ⟨text, h, hlength⟩
        obtain ⟨rest, hrest, rfl⟩ := bind_pure_ok.mp h
        exact ⟨b, s₁, rfl, hb, rest, hrest, Nat.succ.inj hlength⟩
      · rintro ⟨b', s₂, h, _, rest, hrest, hlength⟩
        cases h
        exact ⟨b :: rest, bind_pure_ok.mpr ⟨rest, hrest, rfl⟩, congrArg (· + 1) hlength⟩

/-- Where the address is in range, reading an argument goes on behind a byte that is not a NUL. -/
theorem readArgument_goes_on_iff {t : Turn σ} {offset count : Nat}
    (hin : offset < t.self.state.dataLength.toNat) (hlow : offset < 0x8000) :
    (∃ t', readArgument offset (count + 1) t = .error .overflowed t') ↔
      ∃ b s, AddressSpace.read (UInt16.ofNat (dataStart.toNat + offset)) t.space = .ok b s ∧ b ≠ 0 ∧
        ∃ t', readArgument (offset + 1) count (t.setSpace s) = .error .overflowed t' := by
  have hstart : dataStart.toNat = 0x8000 := rfl
  simp only [readArgument, get_bind]
  rw [if_neg (by omega), if_neg (by omega)]
  cases hread : AddressSpace.read (UInt16.ofNat (dataStart.toNat + offset)) t.space with
  | error f s =>
    have haccess : access (AddressSpace.read (UInt16.ofNat (dataStart.toNat + offset))) t =
        .error f (t.setSpace s) := by
      simp only [access, hread]
    rw [bind_of_error (lift_error haccess)]
    simp
  | ok b s =>
    have haccess : access (AddressSpace.read (UInt16.ofNat (dataStart.toNat + offset))) t =
        .ok b (t.setSpace s) := by
      simp only [access, hread]
    rw [bind_of_ok (lift_ok haccess)]
    by_cases hb : b = 0
    · rw [if_pos hb]
      constructor
      · rintro ⟨t', h⟩
        cases h
      · rintro ⟨b', s', h, hb', _⟩
        cases h
        exact absurd hb hb'
    · rw [if_neg hb]
      constructor
      · rintro ⟨t', h⟩
        exact ⟨b, s, rfl, hb, t', bind_pure_error.mp h⟩
      · rintro ⟨b', s', h, _, t', hrest⟩
        cases h
        exact ⟨t', bind_pure_error.mpr hrest⟩

/-- Reading an argument leaves the range of addresses exactly if it overreaches. -/
theorem readArgument_overflows_iff (t : Turn σ) (offset count : Nat) :
    (∃ t', readArgument offset count t = .error .overflowed t') ↔ t.Overreaches offset count := by
  have hstart : dataStart.toNat = 0x8000 := rfl
  induction count generalizing offset t with
  | zero =>
    constructor
    · rintro ⟨t', h⟩
      cases h
    · rintro ⟨h, _⟩
      exact absurd h (Nat.not_lt_zero _)
  | succ count ih =>
    by_cases hin : offset < t.self.state.dataLength.toNat
    · by_cases hlow : offset < 0x8000
      · rw [readArgument_goes_on_iff hin hlow]
        have hroom : 0x8000 - offset = 0x8000 - (offset + 1) + 1 := by omega
        have haddress := ofNat_succ (dataStart.toNat + offset)
        constructor
        · rintro ⟨b, s, hread, hb, hover⟩
          obtain ⟨hcount, hmax, text, s', htext, hlength⟩ := (ih (t.setSpace s) (offset + 1)).mp hover
          rw [space_read hread] at htext
          rw [← Nat.add_assoc, ← haddress] at htext
          have hfull := readText_full_iff.mpr ⟨b, s, hread, hb, text, htext, hlength⟩
          have hdata : (t.setSpace s).self.state.dataLength = t.self.state.dataLength :=
            read_dataLength hread
          rw [hdata] at hmax
          obtain ⟨whole, hwhole, hall⟩ := hfull
          rw [← hroom] at hwhole hall
          exact ⟨by omega, by omega, whole, s', hwhole, hall⟩
        · rintro ⟨hcount, hmax, text, s', htext, hlength⟩
          rw [hroom] at htext hlength
          obtain ⟨b, s, hread, hb, rest, hrest, hall⟩ := readText_full_iff.mp ⟨text, htext, hlength⟩
          have hdata : (t.setSpace s).self.state.dataLength = t.self.state.dataLength :=
            read_dataLength hread
          rw [haddress, Nat.add_assoc, ← space_read hread] at hrest
          refine ⟨b, s, hread, hb, (ih (t.setSpace s) (offset + 1)).mpr ⟨by omega, ?_, rest, s', hrest, hall⟩⟩
          rw [hdata]
          omega
      · have hover : readArgument offset (count + 1) t = .error .overflowed t := by
          unfold readArgument
          rw [get_bind, if_neg (by omega)]
          dsimp only
          rw [if_pos (by omega)]
          rfl
        have hroom : 0x8000 - offset = 0 := by omega
        constructor
        · intro _
          refine ⟨by omega, by omega, ?_⟩
          rw [hroom]
          exact ⟨[], t.space, rfl, rfl⟩
        · intro _
          exact ⟨t, hover⟩
    · have hend : readArgument offset (count + 1) t = .ok [] t := by
        unfold readArgument
        rw [get_bind, if_pos (by omega)]
        rfl
      rw [hend]
      constructor
      · rintro ⟨t', h⟩
        cases h
      · rintro ⟨_, hmax, _⟩
        omega

/-! ## Steps -/

omit [Storage σ] in
/-- Work that ends in range does not end with an address out of range. -/
theorem ne_overflowed {ε : Type} {R : Turn σ → Turn σ → Prop} {act : InTurn σ ε}
    (h : Works R InRange act) (t t' : Turn σ) : act t ≠ .error .overflowed t' := by
  intro he
  have hwork := h t
  rw [he] at hwork
  exact hwork.1 rfl

theorem argument_overflows_iff (t : Turn σ) (n buffer : UInt16) :
    (∃ t', argument n buffer t = .error .overflowed t') ↔
      n.toNat < t.self.state.env.argCount.toNat ∧
        ∃ offset, t.self.state.env.argOffsets[n.toNat]? = some offset ∧
          t.Overreaches offset.toNat textLimit := by
  have hrest (arg : List UInt8) : Works Composed InRange (do
      (access (AddressSpace.writeText buffer arg) : Attempt σ Unit)
      return some (UInt16.ofNat arg.length) : InTurn σ Reply) :=
    .bind (lift_composed (access_composed _)) fun _ => .pure _
  unfold argument
  rw [get_bind]
  split
  · next hmany =>
    constructor
    · rintro ⟨t', h⟩
      cases h
    · rintro ⟨hfew, _⟩
      omega
  · next hfew =>
    cases hsome : t.self.state.env.argOffsets[n.toNat]? with
    | none =>
      constructor
      · rintro ⟨t', h⟩
        cases h
      · rintro ⟨_, offset, hoffset, _⟩
        cases hoffset
    | some offset =>
      rw [bind_error_iff fun arg t₁ t' => ne_overflowed (hrest arg) t₁ t',
        readArgument_overflows_iff]
      constructor
      · intro hover
        exact ⟨by omega, offset, rfl, hover⟩
      · rintro ⟨_, offset', hoffset, hover⟩
        cases hoffset
        exact hover

/-- The next step asks for an argument that overreaches. -/
def Overreaching (t : Turn σ) : Prop :=
  ∃ args offset, t.call? = some (.argument, args) ∧
    args.a.toNat < t.atCall.self.state.env.argCount.toNat ∧
    t.atCall.self.state.env.argOffsets[args.a.toNat]? = some offset ∧
    t.atCall.Overreaches offset.toNat textLimit

theorem step_overflows_iff (t : Turn σ) :
    (∃ t', step t = .error .overflowed t') ↔ t.Overreaching := by
  by_cases h : ∃ args, t.call? = some (.argument, args)
  · obtain ⟨args, hcall⟩ := h
    have hconclude (reply : Reply) : Works Composed InRange (conclude reply : InTurn σ Unit) :=
      conclude_composed reply
    rw [(step_call_cases hcall).2.2,
      bind_error_iff fun reply t₁ t' => ne_overflowed (hconclude reply) t₁ t']
    have hargument := argument_overflows_iff t.atCall args.a args.b
    constructor
    · intro hover
      obtain ⟨hfew, offset, hsome, hreach⟩ := hargument.mp hover
      exact ⟨args, offset, hcall, hfew, hsome, hreach⟩
    · rintro ⟨args', offset, hcall', hfew, hsome, hreach⟩
      rw [hcall] at hcall'
      cases hcall'
      exact hargument.mpr ⟨hfew, offset, hsome, hreach⟩
  · constructor
    · rintro ⟨t', he⟩
      have hstep := step_inRange fun args hcall => h ⟨args, hcall⟩
      rw [he] at hstep
      exact absurd rfl hstep.1
    · rintro ⟨args, _, hcall, _⟩
      exact absurd ⟨args, hcall⟩ h

end Turn

/-! ## Runs -/

namespace Kernel

theorem ruled_endTurn (t : Turn σ) {how : Option TurnEnd} (h : how ≠ some .overflowed) :
    Ruled t.kernel (endTurn t how) := by
  have hsaved : Ruled t.kernel (endTurn t none) := by
    have hsave := (save_quiet t.kernel t.self).ruled
    rcases endTurn_none_cases t with ⟨-, hend⟩ | ⟨-, hend⟩
    · rw [hend]
      exact hsave
    · rw [hend]
      exact trans_of Ruled hsave (ruled_fault _ _ _)
  cases how with
  | none => exact hsaved
  | some e =>
    cases e with
    | yielded | blocked => exact hsaved
    | exited => exact refl_of Ruled t.kernel
    | faulted f => exact ruled_fault _ _ f
    | overflowed => exact absurd rfl h

theorem ruled_openTurn (k : Kernel σ) (pid : Pid) (why : Resumption) :
    match k.openTurn pid why with
    | .error k' => Ruled k k'
    | .ok t => Ruled k t.kernel := by
  have hload := (load_quiet k pid).ruled
  unfold openTurn
  rcases hl : k.load pid with ⟨f | self, k₁⟩
  · rw [hl] at hload
    exact trans_of Ruled hload (ruled_fault k₁ pid f)
  · rw [hl] at hload
    cases why with
    | ready =>
      have hready : Ruled k (k₁.onTable (·.setStatus pid .active)) :=
        trans_of Ruled hload (ruled_onTable k₁ _)
      exact hready
    | result value =>
      have hwoken : Ruled k ((k₁.note (.woken self.pid value)).onTable (·.setStatus pid .active)) :=
        trans_of Ruled hload (trans_of Ruled (ruled_note k₁ _) (ruled_onTable _ _))
      exact hwoken

omit [Storage σ] in
theorem halted_countTick (k : Kernel σ) : k.countTick.halted = k.halted := by
  unfold countTick
  dsimp only
  split <;> rfl

end Kernel

variable [VolumeBacked σ]

/-- The process whose turn it is asks for an argument that overreaches. -/
def Moment.Overreaching : Moment σ → Prop
  | .stepped t => t.Overreaching
  | .obeyed .. | .counted _ | .resumed .. | .ended .. => False

theorem HostCall.halted_run (k : Kernel σ) {call : HostCall σ} (h : call.isDirect) :
    (call.run k).halted = k.halted := by
  cases call with
  | tick | runUntilIdle => cases h
  | spawn program => exact (k.ruled_spawn program).halted
  | kill pid status => exact (k.ruled_kill pid status).halted
  | sendSignal pid signal => exact (k.ruled_sendSignal pid signal).halted
  | inspect pid => exact (k.load_quiet pid).ruled.halted
  | setClock | configure | openPath | close | edit => rfl

/-- What is recorded is whether a step has overreached. -/
def Moment.recordOverreaching (h : Prop) (m : Moment σ) : Prop :=
  h ∨ m.Overreaching

theorem Moment.foldl_recordOverreaching (ms : List (Moment σ)) (h : Prop) :
    ms.foldl recordOverreaching h ↔ h ∨ ∃ m ∈ ms, m.Overreaching := by
  induction ms generalizing h with
  | nil => simp
  | cons m ms ih =>
    rw [List.foldl_cons, ih, recordOverreaching, or_assoc]
    simp only [List.mem_cons, exists_eq_or_imp]

open Moment (recordOverreaching) in
/-- All through ticks the kernel is halted exactly if a step has overreached. -/
theorem halted_upkeep : TickUpkeep (σ := σ) recordOverreaching (fun h k => k.halted = true ↔ h)
    fun how h t => if how = some .overflowed then h else (t.kernel.halted = true ↔ h) where
  counted := by
    intro h k hI
    rw [Kernel.halted_countTick, recordOverreaching, Moment.Overreaching, or_false]
    exact hI
  resumed := by
    rintro h k pid why ⟨hI, _⟩
    have hopen := k.ruled_openTurn pid why
    cases ho : k.openTurn pid why with
    | error k' =>
      rw [ho] at hopen
      dsimp only
      rw [hopen.halted, recordOverreaching, Moment.Overreaching, or_false]
      exact hI
    | ok t =>
      rw [ho] at hopen
      dsimp only
      rw [if_neg nofun, hopen.halted, recordOverreaching, Moment.Overreaching, or_false]
      exact hI
  stepped := by
    intro h t hJ
    rw [if_neg nofun] at hJ
    have hsettled := Turn.step_settled t
    have hover := Turn.step_overflows_iff t
    cases hs : Turn.step t with
    | ok _ t' =>
      rw [after_ok hs] at hsettled
      rw [hs] at hover
      have hnot : ¬t.Overreaching := by
        intro hreach
        obtain ⟨t'', he⟩ := hover.mpr hreach
        cases he
      dsimp only [Yields]
      rw [if_neg nofun, hsettled.kernel.halted, recordOverreaching, Moment.Overreaching]
      rw [hJ]
      exact (or_iff_left hnot).symm
    | error e t' =>
      rw [after_error hs] at hsettled
      rw [hs] at hover
      dsimp only [Yields]
      by_cases he : e = .overflowed
      · rw [if_pos (congrArg some he)]
        exact .inr (hover.mp ⟨t', he ▸ rfl⟩)
      · have hnot : ¬t.Overreaching := by
          intro hreach
          obtain ⟨t'', he'⟩ := hover.mpr hreach
          cases he'
          exact he rfl
        rw [if_neg (fun hsome => he (Option.some.inj hsome)), hsettled.kernel.halted,
          recordOverreaching, Moment.Overreaching, hJ]
        exact (or_iff_left hnot).symm
  ended := by
    intro h t how hJ
    rw [recordOverreaching, Moment.Overreaching, or_false]
    by_cases he : how = some .overflowed
    · rw [if_pos he] at hJ
      subst he
      exact iff_of_true rfl hJ
    · rw [if_neg he] at hJ
      rw [(Kernel.ruled_endTurn t he).halted]
      exact hJ

/-- A kernel that is not halted in the beginning is halted in the end exactly if a step overreached. -/
theorem halted_iff {k : Kernel σ} (hk : k.halted = false) (calls : List (HostCall σ)) :
    (HostCall.runAll k calls).halted = true ↔
      ∃ m ∈ HostCall.courseAll k calls, Moment.Overreaching m := by
  have hrun := halted_upkeep.run_of (h := False) (k := k) (fun {h k call} hI hd => by
    rw [HostCall.halted_run k hd, Moment.recordOverreaching, Moment.Overreaching, or_false]
    exact hI) (by rw [hk]; exact iff_of_false Bool.false_ne_true id) calls
  rw [hrun, Moment.foldl_recordOverreaching, false_or]

/-- A program that puts an offset of x8000 for the first argument, and a longer data region, into the state
block of the second process. -/
def tamperingProgram : Bytes :=
  #[0xD8, 0x01, 0x02, 0xD9, 0x00, 0x1A, 0xC1, 0xEA, 0x40, 0xD8, 0x01, 0x01, 0xDA, 0x00, 0x1C, 0xDB, 0x00,
    0x25, 0xDC, 0x00, 0x04, 0xC1, 0xD8, 0x00, 0x00, 0xC1, 0x2F, 0x74, 0x6D, 0x70, 0x2F, 0x70, 0x72, 0x6F,
    0x63, 0x31, 0x00, 0xFF, 0xFF, 0x80, 0x00]

/-- A program that asks for its first argument. -/
def askingProgram : Bytes :=
  #[0xD8, 0x00, 0x03, 0xD9, 0x00, 0x00, 0xDA, 0x80, 0x00, 0xC1, 0xD7, 0x00]

end CoopKernel
