import CoopKernel.Proofs.Lockstep
import CoopKernel.Proofs.Step

/-!
# Turns abreast

Two turns of a process that cannot tell them apart go on abreast: whatever they execute short of a system
call has the same result in both, and they are still alike behind it. What being alike means differs, and
so does why reading and writing memory goes in lockstep. `Abreast` collects what there is to show about
these; the rest follows, instruction by instruction.
-/

namespace CoopKernel

variable {σ : Type} [Storage σ]

namespace AddressSpace

/-- Related memories of a process, with the same backing file, go in lockstep in what writing is made of. -/
structure Writable (A : AddressSpace σ → AddressSpace σ → Prop) (data : Handle) : Prop where
  handles : ∀ {s s'}, A s s' → s.data = data ∧ s'.data = data
  limit : ∀ {s s'}, A s s' → s'.limit = s.limit
  dataLength : ∀ {s s'}, A s s' → s'.dataLength = s.dataLength
  writeFile : ∀ offset bytes,
    Lockstep A (writeFile data offset bytes : Access σ Nat) (writeFile data offset bytes)
  resizeData : ∀ length, Lockstep A (resizeData length : Access σ Bool) (resizeData length)
  drawFill : ∀ count, Lockstep A (drawFill count : Access σ (Option Bytes)) (drawFill count)
  setLength : ∀ length, Lockstep A (modify fun s => { s with dataLength := length } : Access σ PUnit)
    (modify fun s => { s with dataLength := length })

/-- They go in lockstep in reading, too. -/
structure Abreast (A : AddressSpace σ → AddressSpace σ → Prop) (data : Handle) : Prop
    extends Writable A data where
  read : ∀ a, Lockstep A (read a : Access σ UInt8) (read a)

namespace Writable

variable {A : AddressSpace σ → AddressSpace σ → Prop} {data : Handle} (d : Writable A data)

include d

theorem firstThatFits (lengths : List Nat) :
    Lockstep A (AddressSpace.firstThatFits lengths : Access σ (Option Nat))
      (AddressSpace.firstThatFits lengths) := by
  induction lengths with
  | nil => exact .pure _
  | cons length rest ih =>
    refine .bind (d.resizeData length) fun fits => ?_
    split
    · exact .pure _
    · exact ih

theorem grow (a : UInt16) (i : Nat) :
    Lockstep A (AddressSpace.grow a i : Access σ Unit) (AddressSpace.grow a i) := by
  unfold AddressSpace.grow
  refine .get_bind fun s s' h => ?_
  dsimp only
  rw [d.limit h, d.dataLength h, (d.handles h).1, (d.handles h).2]
  split
  · exact .throw_bind _ _ _
  · refine .bind (d.firstThatFits _) fun found => ?_
    cases found with
    | none => exact .throw _
    | some length =>
      refine .bind (d.drawFill _) fun fill => ?_
      cases fill with
      | none => exact d.setLength _
      | some fill => exact .bind (d.writeFile _ _) fun _ => d.setLength _

theorem writeData (a : UInt16) (i : Nat) (b : UInt8) :
    Lockstep A (AddressSpace.writeData a i b : Access σ Unit) (AddressSpace.writeData a i b) := by
  have hput : Lockstep A (do
      let count ← AddressSpace.writeFile data (Snapshot.blockSize + i) #[b]
      if count ≠ 1 then throw .storage : Access σ Unit) (do
      let count ← AddressSpace.writeFile data (Snapshot.blockSize + i) #[b]
      if count ≠ 1 then throw .storage) := by
    refine .bind (d.writeFile _ _) fun count => ?_
    split
    · exact .throw _
    · exact .pure _
  unfold AddressSpace.writeData
  refine .get_bind fun s s' h => ?_
  dsimp only
  rw [d.dataLength h, (d.handles h).1, (d.handles h).2]
  split
  · exact .bind (d.grow a i) fun _ => hput
  · exact hput

theorem write (a : UInt16) (b : UInt8) :
    Lockstep A (AddressSpace.write a b : Access σ Unit) (AddressSpace.write a b) := by
  unfold AddressSpace.write
  split
  · exact .throw _
  · exact d.writeData a _ b

theorem writeWord (a w : UInt16) :
    Lockstep A (AddressSpace.writeWord a w : Access σ Unit) (AddressSpace.writeWord a w) :=
  .bind (d.write a _) fun _ => .bind (d.write _ _) fun _ => .pure _

end Writable

namespace Abreast

variable {A : AddressSpace σ → AddressSpace σ → Prop} {data : Handle} (d : Abreast A data)

include d

theorem readWord (a : UInt16) : Lockstep A (AddressSpace.readWord a : Access σ UInt16)
    (AddressSpace.readWord a) :=
  .bind (d.read a) fun _ => .bind (d.read _) fun _ => .pure _

theorem readBytes (a : UInt16) (count : Nat) :
    Lockstep A (AddressSpace.readBytes a count : Access σ (List UInt8))
      (AddressSpace.readBytes a count) := by
  induction count generalizing a with
  | zero => exact .pure _
  | succ count ih => exact .bind (d.read a) fun _ => .bind (ih (a + 1)) fun _ => .pure _

theorem fetch (a : UInt16) :
    Lockstep A (AddressSpace.fetch a : Access σ Instr) (AddressSpace.fetch a) := by
  unfold AddressSpace.fetch
  refine .bind (d.read a) fun first => .bind (d.readBytes _ _) fun rest => ?_
  split
  · exact .pure _
  · exact .throw _

end Abreast

end AddressSpace

namespace Turn

omit [Storage σ] in
/-- Related turns with related memories go in lockstep in what the memories do. -/
theorem access_lockstep {A : AddressSpace σ → AddressSpace σ → Prop} {R : Turn σ → Turn σ → Prop}
    (hspace : ∀ {t t'}, R t t' → A t.space t'.space)
    (hset : ∀ {t t' s s'}, R t t' → A s s' → R (t.setSpace s) (t'.setSpace s')) {α : Type} {act : Access σ α}
    (hact : Lockstep A act act) : Lockstep R (access act) (access act) := by
  intro t t' h
  have hagree := hact _ _ (hspace h)
  unfold access
  cases hs : act t.space with
  | ok a s =>
    rw [hs] at hagree
    obtain ⟨s', hs', hA⟩ := hagree.ok
    rw [hs']
    exact ⟨rfl, hset h hA⟩
  | error f s =>
    rw [hs] at hagree
    obtain ⟨s', hs', hA⟩ := hagree.error
    rw [hs']
    exact ⟨rfl, hset h hA⟩

/-- The instruction that the next step executes. -/
def next? (t : Turn σ) : Option Instr :=
  if t.self.state.skip then none
  else
    match fetch t with
    | .ok instr _ => some instr
    | .error .. => none

/-- The next steps, as many as are given, do no system call. -/
def stepsAlone : Nat → Turn σ → Bool
  | 0, _ => true
  | n + 1, t =>
    t.next? ≠ some .syscall &&
      match step t with
      | .ok () t => stepsAlone n t
      | .error .. => true

/-- Related turns of a process, whose memories are related and go in lockstep, have the same registers, and
stay related when these change, when the window is closed and when an instruction is counted. -/
structure Abreast (A : AddressSpace σ → AddressSpace σ → Prop) (R : Turn σ → Turn σ → Prop) (pid : Pid)
    (data : Handle) : Prop where
  memory : AddressSpace.Abreast A data
  space : ∀ {t t'}, R t t' → A t.space t'.space
  setSpace : ∀ {t t' s s'}, R t t' → A s s' → R (t.setSpace s) (t'.setSpace s')
  pids : ∀ {t t'}, R t t' → t.self.pid = pid ∧ t'.self.pid = pid
  state : ∀ {t t'}, R t t' → t'.self.state = t.self.state
  setState : ∀ {t t'} {s : Snapshot}, R t t' → s.env = t.self.state.env →
    s.dataLength = t.self.state.dataLength →
    R { t with self := { t.self with state := s } } { t' with self := { t'.self with state := s } }
  closed : ∀ {t t'}, R t t' →
    R { t with self := { t.self with window := t.self.window.close } }
      { t' with self := { t'.self with window := t'.self.window.close } }
  counted : ∀ {t t'}, R t t' → R { t with kernel := t.kernel.onTable (·.addCount pid) }
    { t' with kernel := t'.kernel.onTable (·.addCount pid) }

namespace Abreast

variable {A : AddressSpace σ → AddressSpace σ → Prop} {R : Turn σ → Turn σ → Prop} {pid : Pid}
  {data : Handle} (d : Abreast A R pid data) {t t' : Turn σ}

include d

theorem access {α : Type} {act : Access σ α} (hact : Lockstep A act act) :
    Lockstep R (Turn.access act) (Turn.access act) :=
  access_lockstep d.space d.setSpace hact

theorem modifyState {ε : Type} {f : Snapshot → Snapshot}
    (hf : ∀ s, (f s).env = s.env ∧ (f s).dataLength = s.dataLength) :
    Lockstep R (Turn.modifyState f : EStateM ε (Turn σ) Unit) (Turn.modifyState f) := by
  refine .modify fun t t' h => ?_
  rw [d.state h]
  exact d.setState h (hf _).1 (hf _).2

theorem setReg (q : Reg) (value : UInt16) :
    Lockstep R (Turn.setReg q value : Attempt σ Unit) (Turn.setReg q value) :=
  d.modifyState fun _ => ⟨rfl, rfl⟩

theorem advance (length : Nat) :
    Lockstep R (Turn.advance length : Attempt σ Unit) (Turn.advance length) :=
  d.modifyState fun _ => ⟨rfl, rfl⟩

/-- Both read the same instruction. -/
theorem fetch : Lockstep R (Turn.fetch : Attempt σ Instr) Turn.fetch := by
  unfold Turn.fetch
  refine .get_bind fun t t' h => ?_
  dsimp only
  rw [d.state h, (d.pids h).1, (d.pids h).2]
  refine .bind (d.access (d.memory.fetch _)) fun instr => .bind (d.advance _) fun _ => ?_
  exact .bind (.modify fun u u' hu => d.counted hu) fun _ => .pure _

theorem discard : Lockstep R (Turn.discard : Attempt σ Unit) Turn.discard := by
  unfold Turn.discard
  refine .get_bind fun t t' h => ?_
  rw [d.state h]
  exact .bind (d.access (d.memory.read _)) fun first => .bind (d.advance _) fun _ =>
    d.modifyState fun _ => ⟨rfl, rfl⟩

/-- Both execute an instruction with the same result. -/
theorem executeOther (instr : Instr) :
    Lockstep R (Turn.executeOther instr : Attempt σ Unit) (Turn.executeOther instr) := by
  unfold Turn.executeOther
  refine .get_bind fun t t' h => ?_
  dsimp only
  rw [d.state h]
  cases instr with
  | storeByte addr src => exact d.access (d.memory.write _ _)
  | loadByte dst addr => exact .bind (d.access (d.memory.read _)) fun _ => d.setReg _ _
  | binary op dst a b =>
    dsimp only
    split
    · exact d.setReg _ _
    · exact .throw _
  | not dst a => exact d.setReg _ _
  | skip q bit =>
    dsimp only
    split
    · exact d.modifyState fun _ => ⟨rfl, rfl⟩
    · exact .pure _
  | storeWord addr src => exact d.access (d.memory.writeWord _ _)
  | loadWord dst addr => exact .bind (d.access (d.memory.readWord _)) fun _ => d.setReg _ _
  | inc dst step => exact d.setReg _ _
  | dec dst step => exact d.setReg _ _
  | nop => exact .pure _
  | syscall => exact .pure _
  | clearCache => exact .modify fun u u' hu => d.closed hu
  | setByte dst value => exact d.setReg _ _
  | setWord dst value => exact d.setReg _ _

/-- Both take a step with the same result, if it is no system call. -/
theorem step (h : R t t') (hnext : t.next? ≠ some .syscall) :
    Agree R (Turn.step t) (Turn.step t') := by
  cases hs : t.self.state.skip with
  | true =>
    rw [step_eq, step_eq, d.state h, if_pos hs]
    exact (d.discard.adaptExcept TurnEnd.faulted) t t' h
  | false =>
    have hs' : t'.self.state.skip = false := by rw [d.state h, hs]
    have hfetch := d.fetch t t' h
    cases hf : Turn.fetch t with
    | error f t₁ =>
      rw [hf] at hfetch
      obtain ⟨t₁', hf', h₁⟩ := hfetch.error
      rw [step_of_fetch_error hs hf, step_of_fetch_error hs' hf']
      exact ⟨rfl, h₁⟩
    | ok instr t₁ =>
      rw [hf] at hfetch
      obtain ⟨t₁', hf', h₁⟩ := hfetch.ok
      rw [step_of_fetch hs hf, step_of_fetch hs' hf']
      have hother := (d.executeOther instr).adaptExcept TurnEnd.faulted t₁ t₁' h₁
      cases instr with
      | syscall =>
        refine absurd ?_ hnext
        unfold next?
        rw [if_neg (by rw [hs]; exact Bool.false_ne_true), hf]
      | _ => exact hother

/-- Both take some steps with the same result, if there is no system call among them. -/
theorem steps {n : Nat} (h : R t t') (halone : t.stepsAlone n) :
    Agree R (Turn.steps n t) (Turn.steps n t') := by
  induction n generalizing t t' with
  | zero => exact ⟨rfl, h⟩
  | succ n ih =>
    rw [stepsAlone, Bool.and_eq_true] at halone
    obtain ⟨hnext, hrest⟩ := halone
    have hstep := d.step h (of_decide_eq_true hnext)
    change Agree R ((Turn.step >>= fun _ => Turn.steps n) t) ((Turn.step >>= fun _ => Turn.steps n) t')
    cases hs : Turn.step t with
    | error e t₁ =>
      rw [hs] at hstep
      obtain ⟨t₁', hs', h₁⟩ := hstep.error
      rw [bind_of_error hs, bind_of_error hs']
      exact ⟨rfl, h₁⟩
    | ok _ t₁ =>
      rw [hs] at hstep hrest
      obtain ⟨t₁', hs', h₁⟩ := hstep.ok
      rw [bind_of_ok hs, bind_of_ok hs']
      exact ih h₁ hrest

end Abreast

end Turn

end CoopKernel
