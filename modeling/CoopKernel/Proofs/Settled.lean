import CoopKernel.Proofs.Dealings
import Mathlib.Tactic.ByContra

/-!
# What a step leaves settled

Whatever a process does in a step, the settings, the clock and the number of ticks stay as they are, and
the process keeps its number and its backing file. Its environment stays composed, too: but for the
standard handle it is changed by three system calls only, one that exchanges the program and two that set
a text.
-/

namespace CoopKernel

variable {σ : Type} [Storage σ] {α : Type}

namespace Kernel

/-- Only the storage, the filler, the table and the log differ. -/
def Ruled (k k' : Kernel σ) : Prop :=
  k' = { k with store := k'.store, filler := k'.filler, table := k'.table, log := k'.log }

omit [Storage σ] in
instance : IsPreorder (Kernel σ) Ruled where
  refl _ := rfl
  trans k₁ k₂ k₃ h₁ h₂ := by
    unfold Ruled at h₁ h₂ ⊢
    rw [h₂, h₁]

omit [Storage σ] in
theorem Ruled.halted {k k' : Kernel σ} (h : Ruled k k') : k'.halted = k.halted := by
  unfold Ruled at h
  rw [h]

omit [Storage σ] in
theorem Ruled.settings {k k' : Kernel σ} (h : Ruled k k') : k'.settings = k.settings := by
  unfold Ruled at h
  rw [h]

theorem Quiet.ruled {k k' : Kernel σ} (h : Quiet k k') : Ruled k k' := by
  unfold Ruled
  rw [h.rest]

omit [Storage σ] in
theorem ruled_note (k : Kernel σ) (e : Event) : Ruled k (k.note e) :=
  rfl

omit [Storage σ] in
theorem ruled_onTable (k : Kernel σ) (f : Table → Table) : Ruled k (k.onTable f) :=
  rfl

omit [Storage σ] in
theorem ruled_store (k : Kernel σ) (s : σ) : Ruled k { k with store := s } :=
  rfl

theorem ruled_releaseProgram (k : Kernel σ) (pid : Pid) (h : Handle) :
    Ruled k (k.releaseProgram pid h) := by
  unfold releaseProgram
  split
  · exact refl_of Ruled k
  · exact ruled_store k _

theorem ruled_bury (k : Kernel σ) (pid : Pid) (p : Process) (status : UInt16) :
    Ruled k (k.bury pid p status) := by
  have hvacated := ruled_onTable k (·.vacate pid status)
  have hreleased := trans_of Ruled hvacated (ruled_releaseProgram _ pid p.program)
  unfold bury
  exact trans_of Ruled hreleased (trans_of Ruled (ruled_store _ _) (ruled_note _ _))

theorem governed_ruled : Governed (σ := σ) Ruled where
  quiet _ _ h := h.ruled
  note k e _ := ruled_note k e
  status k _ _ := ruled_onTable k _
  bury k pid p status _ := ruled_bury k pid p status

theorem ruled_kill (k : Kernel σ) (pid : Pid) (status : UInt16) : Ruled k (k.kill pid status).2 :=
  Governed.kill governed_ruled k pid status

theorem ruled_fault (k : Kernel σ) (pid : Pid) (f : Fault) : Ruled k (k.fault pid f) :=
  Governed.fault governed_ruled k pid f

theorem ruled_sendSignal (k : Kernel σ) (pid : Pid) (signal : Signal) :
    Ruled k (k.sendSignal pid signal).2 :=
  Governed.sendSignal governed_ruled k pid signal

/-- Working on another process does not disturb one that does not wait for the end of somebody. -/
theorem undisturbed_withLoaded {act : Attempt σ α} (h : Turn.Inward act) {k : Kernel σ} {pid q : Pid}
    (hne : pid ≠ q) {p : Process} : Stays (Undisturbed q p) k (k.withLoaded Kernel.fault pid act).2 :=
  withLoaded_keeps (R := Stays (Undisturbed q p)) (fun _ _ hq => undisturbed_quiet hq)
    (fun _ ht => h.kernel (fun _ _ hq => undisturbed_quiet hq) (fun _ _ _ => id)
      (fun _ => undisturbed_setStatus hne .active) ht)
    (fun _ f => undisturbed_fault hne f) k

theorem undisturbed_sendSignal {k : Kernel σ} {pid q : Pid} (hne : pid ≠ q) {p : Process}
    (signal : Signal) : Stays (Undisturbed q p) k (k.sendSignal pid signal).2 := by
  unfold sendSignal
  split
  · exact undisturbed_withLoaded (Turn.deliver_inward signal) hne
  · exact id

theorem ruled_makeBacking (k : Kernel σ) (pid : Pid) (state : Snapshot) (data : Bytes) :
    Ruled k (k.makeBacking pid state data).2 := by
  unfold makeBacking
  dsimp only
  split
  · exact ruled_store k _
  · split
    · exact ruled_store k _
    · split <;> split <;> exact ruled_store k _

theorem ruled_fork (k : Kernel σ) (parent : Loaded) : Ruled k (k.fork parent).2 := by
  unfold fork
  split
  · exact refl_of Ruled k
  · next pid _ =>
    dsimp only
    split
    · exact ruled_store k _
    · have hmade := trans_of Ruled (ruled_store k _) (ruled_makeBacking
        { k with store := (Storage.read k.store parent.backing Snapshot.blockSize
          parent.state.dataLength.toNat).2 } pid (parent.state.setReg Reg.result 0)
        (Storage.read k.store parent.backing Snapshot.blockSize parent.state.dataLength.toNat).1)
      split
      · next hm =>
        rw [hm] at hmade
        exact hmade
      · next hm =>
        rw [hm] at hmade
        exact trans_of Ruled hmade (trans_of Ruled (ruled_onTable _ _) (ruled_note _ _))

theorem makeBacking_table (k : Kernel σ) (pid : Pid) (state : Snapshot) (data : Bytes) :
    (k.makeBacking pid state data).2.table = k.table := by
  unfold makeBacking
  dsimp only
  split
  · rfl
  · split
    · rfl
    · split <;> split <;> rfl

/-- The making of a backing file keeps what the calls keep by which it is filled once it is there. -/
theorem makeBacking_keeps {R : σ → σ → Prop} [IsPreorder σ R] {k : Kernel σ} {pid : Pid} {state : Snapshot}
    {data : Bytes} (hopen : ∀ s, R s (Storage.openPath s (k.backingPath pid)).2)
    (hsave : ∀ s h, R s (state.save s h).2) (hwrite : ∀ s h, R s (Storage.write s h Snapshot.blockSize data).2)
    (hclose : ∀ s h, R s (Storage.close s h)) (hdelete : ∀ s, R s (Storage.delete s (k.backingPath pid)).2) :
    R (Storage.create k.store (k.backingPath pid) (Snapshot.blockSize + data.size)).2
      (k.makeBacking pid state data).2.store := by
  unfold makeBacking
  rcases hc : Storage.create k.store (k.backingPath pid) (Snapshot.blockSize + data.size) with ⟨created, s₁⟩
  have hopened := hopen s₁
  simp only [hc]
  cases created with
  | false => exact refl_of R s₁
  | true =>
    simp only [Bool.not_true, Bool.false_eq_true, if_false]
    rcases ho : Storage.openPath s₁ (k.backingPath pid) with ⟨_ | h, s₂⟩
    · rw [ho] at hopened
      exact trans_of R hopened (hdelete s₂)
    · rw [ho] at hopened
      -- Whatever was written until then, the file is kept or closed and deleted.
      have hdone (written : Bool) {s : σ} (hs : R s₂ s) : R s₁
          (if written then ((.ok h, { k with store := s }) : Except SpawnError Handle × Kernel σ)
            else (.error .storage,
              { k with store := (Storage.delete (Storage.close s h) (k.backingPath pid)).2 })).2.store := by
        have hkept := trans_of R hopened hs
        cases written with
        | true => exact hkept
        | false => exact trans_of R (trans_of R hkept (hclose s h)) (hdelete _)
      have hsaved := hsave s₂ h
      rcases hr : state.save s₂ h with ⟨saved, s₃⟩
      rw [hr] at hsaved
      simp only [hr]
      cases saved with
      | false => exact hdone false hsaved
      | true => exact hdone _ (trans_of R hsaved (hwrite s₃ h))

/-- A backing file that was made was not there before. -/
theorem created_of_makeBacking {k k' : Kernel σ} {pid : Pid} {state : Snapshot} {data : Bytes} {h : Handle}
    (hm : k.makeBacking pid state data = (.ok h, k')) :
    (Storage.create k.store (k.backingPath pid) (Snapshot.blockSize + data.size)).1 = true := by
  by_contra hn
  rw [Bool.not_eq_true] at hn
  unfold makeBacking at hm
  simp only [hn, Bool.not_false, if_true] at hm
  cases hm

/-- Whoever is there is not disturbed by a new process. -/
theorem undisturbed_fork {k : Kernel σ} {parent : Loaded} {q : Pid} {p : Process} :
    Stays (Undisturbed q p) k (k.fork parent).2 := by
  intro h
  unfold fork
  split
  · exact h
  · next pid hslot =>
    dsimp only
    split
    · exact h
    · have htable := makeBacking_table { k with store :=
          (Storage.read k.store parent.backing Snapshot.blockSize parent.state.dataLength.toNat).2 } pid
        (parent.state.setReg Reg.result 0)
        (Storage.read k.store parent.backing Snapshot.blockSize parent.state.dataLength.toNat).1
      split
      · next hm =>
        rw [hm] at htable
        exact ⟨htable ▸ h.1, h.2⟩
      · next hm =>
        rw [hm] at htable
        have hne : q ≠ pid := by
          rintro rfl
          have hfree := Table.process?_of_firstFree? hslot
          rw [h.1] at hfree
          cases hfree
        refine ⟨?_, h.2⟩
        refine (Table.process?_occupy_of_ne hne).trans ?_
        rw [htable]
        exact h.1

theorem ruled_spawn (k : Kernel σ) (program : String) : Ruled k (k.spawn program).2 := by
  unfold spawn
  split
  · exact refl_of Ruled k
  · dsimp only
    split
    · exact refl_of Ruled k
    · next pid _ =>
      split
      · exact refl_of Ruled k
      · split
        · exact ruled_store k _
        · next h s _ =>
          have hmade := trans_of Ruled (ruled_store k s)
            (ruled_makeBacking { k with store := s } pid (k.initialState (Path.ofText program)) #[])
          split
          · next hm =>
            rw [hm] at hmade
            exact trans_of Ruled hmade (ruled_store _ _)
          · next hm =>
            rw [hm] at hmade
            exact trans_of Ruled hmade (trans_of Ruled (ruled_onTable _ _) (ruled_note _ _))

end Kernel

namespace Turn

/-- Only the storage, the filler, the table and the log of the kernel, and the program, the snapshot and
the window of the process differ. -/
structure Settled (t t' : Turn σ) : Prop where
  kernel : Kernel.Ruled t.kernel t'.kernel
  self : t'.self = { t.self with
    program := t'.self.program, state := t'.self.state, window := t'.self.window }

omit [Storage σ] in
instance : IsPreorder (Turn σ) Settled where
  refl t := ⟨refl_of Kernel.Ruled t.kernel, rfl⟩
  trans _ _ _ h₁ h₂ := ⟨trans_of Kernel.Ruled h₁.kernel h₂.kernel, by rw [h₂.self, h₁.self]⟩

/-- Of the environment only the standard handle can differ besides. -/
structure Composed (t t' : Turn σ) : Prop extends Settled t t' where
  env : t'.self.state.env = { t.self.state.env with stdio := t'.self.state.env.stdio }

omit [Storage σ] in
instance : IsPreorder (Turn σ) Composed where
  refl t := ⟨refl_of Settled t, rfl⟩
  trans _ _ _ h₁ h₂ :=
    ⟨trans_of Settled h₁.toSettled h₂.toSettled, by rw [h₂.env, h₁.env]⟩

omit [Storage σ] in
theorem composed_kernel (t : Turn σ) {k : Kernel σ} (h : Kernel.Ruled t.kernel k) :
    Composed t { t with kernel := k } :=
  ⟨⟨h, rfl⟩, rfl⟩

/-! ## At home -/

theorem indifferent_composed :
    Indifferent (σ := σ) (Stays fun _ => True) Composed fun _ => True where
  memory :=
    { fault := fun _ _ => trivial
      readFile := fun _ _ _ => .of_keeps (fun _ => id) fun _ => trivial
      window := fun _ _ => id
      write := fun _ _ => .of_keeps (fun _ => id) fun _ => trivial }
  space _ _ _ := ⟨⟨rfl, rfl⟩, rfl⟩
  glance t _ _ _ := composed_kernel t (Kernel.ruled_store _ _)
  window _ _ := ⟨⟨rfl, rfl⟩, rfl⟩
  state _ _ henv _ _ := ⟨⟨rfl, rfl⟩, by rw [henv]⟩
  handler _ _ _ _ := ⟨⟨rfl, rfl⟩, rfl⟩
  stdio _ _ := ⟨⟨rfl, rfl⟩, rfl⟩
  status t _ _ := composed_kernel t (Kernel.ruled_onTable _ _)
  count t _ := composed_kernel t (Kernel.ruled_onTable _ _)
  note t _ _ := composed_kernel t (Kernel.ruled_note _ _)

theorem domestic_composed : Domestic (σ := σ) (Stays fun _ => True) Composed fun _ => True :=
  Indifferent.toDomestic indifferent_composed

theorem access_composed (act : Access σ α) :
    Works Composed (fun _ => True) (access act : Attempt σ α) :=
  Domestic.access domestic_composed (.of_keeps (fun _ => id) fun _ => trivial)

omit [Storage σ] in
theorem act_composed (action : σ → α × σ) :
    Works Composed (fun _ => True) (act action : Attempt σ α) :=
  .modifyGet fun t => composed_kernel t (Kernel.ruled_store _ _)

theorem deliver_composed (signal : Signal) :
    Works Composed (fun _ => True) (deliver signal : Attempt σ Bool) :=
  Indifferent.deliver indifferent_composed signal

theorem lastWords_composed : Works Composed (fun _ => True) (lastWords : Attempt σ Bool) :=
  Indifferent.lastWords indifferent_composed trivial

/-! ## System calls -/

/-- The turn did not end because the address of an argument left its range. -/
def InRange (e : TurnEnd) : Prop :=
  e ≠ .overflowed

theorem inRange_of_fault {E : Fault → Prop} (e : TurnEnd) (h : OnFault E e) : InRange e := by
  rintro rfl
  exact h

theorem lift_composed {act : Attempt σ α} (h : Works Composed (fun _ => True) act) :
    Works Composed InRange (monadLift act : InTurn σ α) :=
  (lift_works h).mono (fun _ _ => id) inRange_of_fault

theorem dealing_composed : Dealing (σ := σ) Composed where
  kill t pid status := composed_kernel t (Kernel.ruled_kill _ pid status)
  signalled h t pid := composed_kernel t (Kernel.governed_ruled.withLoaded h _ pid)
  fork t parent := composed_kernel t (Kernel.ruled_fork _ parent)

theorem exit_composed (status : UInt16) :
    Works Composed InRange (exit status : InTurn σ Reply) := by
  refine (Indifferent.exit dealing_composed.toMeddling status).mono (fun _ _ => id) ?_
  rintro e rfl
  exact nofun

theorem fork_composed : Works Composed InRange (fork : InTurn σ Reply) := by
  refine (Indifferent.fork indifferent_composed dealing_composed).mono (fun _ _ => id) ?_
  rintro e rfl
  exact nofun

theorem killCall_composed (number : UInt16) :
    Works Composed InRange (killCall number : InTurn σ Reply) := by
  refine (Indifferent.killCall indifferent_composed dealing_composed.toMeddling trivial number).mono (fun _ _ => id) ?_
  rintro e (rfl | he)
  · exact nofun
  · exact inRange_of_fault e he

theorem sendSignal_composed (number signal : UInt16) :
    Works Composed InRange (sendSignal number signal : InTurn σ Reply) :=
  (Indifferent.sendSignal indifferent_composed dealing_composed.toMeddling number signal).mono
    (fun _ _ => id) inRange_of_fault

theorem argument_composed (n buffer : UInt16) :
    Works Composed (fun _ => True) (argument n buffer : InTurn σ Reply) :=
  (Domestic.argument domestic_composed n buffer).mono (fun _ _ => id) fun _ _ => trivial

end Turn

namespace Syscall

/-- The call can change more of the environment than the standard handle. -/
def setsEnv : Syscall → Bool
  | exec | setWorkDir | setSearchPath => true
  | _ => false

end Syscall

namespace Turn

theorem answer_composed {call : Syscall} (harg : call ≠ .argument) (h : call.setsEnv = false)
    (args : CallArgs) : Works Composed InRange (answer call args : InTurn σ Reply) := by
  cases hd : call.isDomestic with
  | true => exact (Domestic.answer domestic_composed hd args fun _ _ _ => trivial).mono (fun _ _ => id) inRange_of_fault
  | false =>
    cases call
    case argument => exact absurd rfl harg
    case exit => exact exit_composed _
    case fork => exact fork_composed
    case waitPid =>
      refine (Indifferent.waitPid indifferent_composed _ _).mono (fun _ _ => id) ?_
      rintro e rfl
      exact nofun
    case kill => exact killCall_composed _
    case read =>
      refine (Indifferent.readCall indifferent_composed _ _ _ _).mono (fun _ _ => id) ?_
      rintro e (rfl | he)
      · exact nofun
      · exact inRange_of_fault e he
    case write => exact lift_composed (Domestic.writeCall domestic_composed
      (fun _ _ => .of_keeps (fun _ => id) fun _ => trivial) _ _ _)
    case openFile => exact lift_composed (Domestic.openCall domestic_composed (fun _ => act_composed _) _)
    case close => exact lift_composed (Domestic.closeCall (act_composed _))
    case resizeFile => exact lift_composed (Domestic.resizeCall domestic_composed
      (fun _ => act_composed _) (fun _ => act_composed _) _)
    case delete => exact lift_composed (Domestic.deleteCall domestic_composed (fun _ => act_composed _) _)
    case sendSignal => exact sendSignal_composed _ _
    all_goals first | (cases h; done) | cases hd

/-! ## Exchanging the program -/

/-- Of the environment only the standard handle and the arguments can differ, and there are not too many
of the latter if there were not before. -/
structure Equipped (t t' : Turn σ) : Prop extends Settled t t' where
  env : t'.self.state.env = { t.self.state.env with
    stdio := t'.self.state.env.stdio
    argCount := t'.self.state.env.argCount
    argOffsets := t'.self.state.env.argOffsets }
  args : t.self.state.env.argCount.toNat ≤ maxArguments →
    t'.self.state.env.argCount.toNat ≤ maxArguments

omit [Storage σ] in
instance : IsPreorder (Turn σ) Equipped where
  refl t := ⟨refl_of Settled t, rfl, id⟩
  trans _ _ _ h₁ h₂ := ⟨trans_of Settled h₁.toSettled h₂.toSettled, by rw [h₂.env, h₁.env],
    h₂.args ∘ h₁.args⟩

omit [Storage σ] in
theorem Composed.equipped {t t' : Turn σ} (h : Composed t t') : Equipped t t' :=
  ⟨h.toSettled, by rw [h.env], fun hargs => by rw [h.env]; exact hargs⟩

theorem indifferent_equipped :
    Indifferent (σ := σ) (Stays fun _ => True) Equipped fun _ => True :=
  Indifferent.mono indifferent_composed fun _ _ => Composed.equipped

theorem exchanging_equipped : Exchanging (σ := σ) Equipped fun _ => True where
  opened t _ := (composed_kernel t (Kernel.ruled_store _ _)).equipped
  program t pid program old := by
    have hruled := trans_of Kernel.Ruled (Kernel.ruled_onTable t.kernel (·.setProgram pid program))
      (Kernel.ruled_releaseProgram _ pid old)
    exact (composed_kernel t hruled).equipped
  restart t program count layout hcount := by
    refine ⟨⟨rfl, rfl⟩, rfl, fun _ => ?_⟩
    simp only [Snapshot.restart, UInt8.toNat_ofNat']
    exact Nat.le_trans (Nat.mod_le _ _) hcount
  resize _ := (access_composed _).mono (fun _ _ => Composed.equipped) fun _ => id
  write _ _ := (access_composed _).mono (fun _ _ => Composed.equipped) fun _ => id

theorem execCall_equipped (args : CallArgs) :
    Works Equipped InRange (execCall args : InTurn σ Reply) := by
  refine (Indifferent.execCall indifferent_equipped exchanging_equipped args).mono (fun _ _ => id) ?_
  rintro e (rfl | he)
  · exact nofun
  · exact inRange_of_fault e he

/-! ## Steps -/

theorem domestic_settled : Domestic (σ := σ) (Stays fun _ => True) Settled fun _ => True :=
  Domestic.mono domestic_composed fun _ _ => Composed.toSettled

theorem answer_settled {call : Syscall} (harg : call ≠ .argument) (args : CallArgs) :
    Works Settled InRange (answer call args : InTurn σ Reply) := by
  cases hs : call.setsEnv with
  | false =>
    exact (answer_composed harg hs args).mono (fun _ _ h => h.toSettled) fun _ => id
  | true =>
    cases call
    case exec => exact (execCall_equipped args).mono (fun _ _ h => h.toSettled) fun _ => id
    case setWorkDir =>
      exact (lift_works (domestic_settled.setWorkDir (fun _ _ => ⟨rfl, rfl⟩) args.a)).mono
        (fun _ _ => id) inRange_of_fault
    case setSearchPath =>
      exact (lift_works (domestic_settled.setSearchPath (fun _ _ => ⟨rfl, rfl⟩) args.a)).mono
        (fun _ _ => id) inRange_of_fault
    all_goals cases hs

theorem conclude_composed {E : TurnEnd → Prop} (reply : Reply) :
    Works Composed E (conclude reply : InTurn σ Unit) :=
  Indifferent.conclude indifferent_composed reply

theorem atCall_composed {t : Turn σ} {call : Syscall} {args : CallArgs}
    (h : t.call? = some (call, args)) : Composed t t.atCall :=
  Indifferent.atCall indifferent_composed h

/-- What answering a call keeps, the step keeps that does the call. -/
theorem step_works {R : Turn σ → Turn σ → Prop} [IsPreorder (Turn σ) R] {E : TurnEnd → Prop}
    (hR : ∀ t t', Composed t t' → R t t') {t : Turn σ} {call : Syscall} {args : CallArgs}
    (h : t.call? = some (call, args)) (ha : Works R E (answer call args : InTurn σ Reply)) :
    Yields (step t) (fun _ => R t) fun e t' => E e ∧ R t t' :=
  (Indifferent.mono indifferent_composed hR).stepCall h ha

theorem step_composed {t : Turn σ} (h : t.call? = none) :
    Yields (step t) (fun _ => Composed t) fun e t' => InRange e ∧ Composed t t' :=
  (Indifferent.step indifferent_composed h).mono (fun _ _ => id) fun e _ hr =>
    ⟨inRange_of_fault e hr.1, hr.2⟩

/-- A step can end the turn with an address out of range only by asking for an argument. -/
theorem step_inRange {t : Turn σ} (h : ∀ args, t.call? ≠ some (.argument, args)) :
    Yields (step t) (fun _ => Settled t) fun e t' => InRange e ∧ Settled t t' := by
  cases hcall : t.call? with
  | none =>
    exact (step_composed hcall).mono (fun _ _ hc => hc.toSettled) fun _ _ hr =>
      ⟨hr.1, hr.2.toSettled⟩
  | some call =>
    obtain ⟨call, args⟩ := call
    have harg : call ≠ .argument := fun he => h args (he ▸ hcall)
    exact step_works (fun _ _ hc => hc.toSettled) hcall (answer_settled harg args)

theorem step_settled : Keeps Settled (step : InTurn σ Unit) := by
  intro t
  by_cases h : ∃ args, t.call? = some (.argument, args)
  · obtain ⟨args, hcall⟩ := h
    have hwork := step_works (fun _ _ hc => Composed.toSettled hc) hcall
      ((argument_composed args.a args.b).mono (fun _ _ hc => hc.toSettled) fun _ => id)
    exact (hwork.mono (fun _ _ => id) fun _ _ hr => hr.2).after
  · have hwork := step_inRange fun args hcall => h ⟨args, hcall⟩
    exact (hwork.mono (fun _ _ => id) fun _ _ hr => hr.2).after

end Turn

end CoopKernel
