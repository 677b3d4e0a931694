import CoopKernel.Proofs.Domestic
import CoopKernel.Proofs.Storage.Edits

/-!
# What work on a process leaves alone

Most of what a process does concerns itself alone: it reads and writes its memory, asks the kernel
something, or manages files by path. Such work is quiet. It can edit the storage, draw bytes for fresh
memory and change the snapshot and the window of the process; the process table, the clock, the
settings and the log stay as they are, and nothing is opened or closed.
-/

namespace CoopKernel

open Storage (Edit Edits)

variable {σ : Type} [Storage σ] {α : Type}

namespace AddressSpace

/-! ## Reading

Reading memory comes down to reading files and moving the window. -/

section Reading

variable {R : AddressSpace σ → AddressSpace σ → Prop} [IsPreorder (AddressSpace σ) R]
  (hfile : ∀ h offset count, Keeps R (readFile h offset count : Access σ Bytes))
  (hwindow : ∀ s w, R s { s with window := w })

include hfile hwindow

omit [IsPreorder (AddressSpace σ) R] in
theorem readable : Readable R fun _ => True :=
  ⟨fun _ _ => trivial, fun h offset count => .of_keeps (hfile h offset count) fun _ => trivial, hwindow⟩

theorem read_keeps (a : UInt16) : Keeps R (read a : Access σ UInt8) :=
  ((readable hfile hwindow).read a).keeps

theorem fetch_keeps (a : UInt16) : Keeps R (fetch a : Access σ Instr) :=
  ((readable hfile hwindow).fetch a).keeps

end Reading

/-! ## Quiet accesses -/

/-- Only the storage, the filler, the length of the data region and the window differ, and the
storage by edits. -/
structure Quiet (s s' : AddressSpace σ) : Prop where
  rest : s' = { s with
    store := s'.store, filler := s'.filler, dataLength := s'.dataLength, window := s'.window }
  edits : Edits s.store s'.store

instance : IsPreorder (AddressSpace σ) Quiet where
  refl _ := ⟨rfl, .refl⟩
  trans s₁ s₂ s₃ h₁ h₂ := ⟨by rw [h₂.rest, h₁.rest], h₁.edits.trans h₂.edits⟩

theorem readFile_quiet (h : Handle) (offset count : Nat) :
    Keeps Quiet (readFile h offset count : Access σ Bytes) :=
  fun s => ⟨rfl, .single (.read s.store h offset count)⟩

theorem writeFile_quiet (h : Handle) (offset : Nat) (bytes : Bytes) :
    Keeps Quiet (writeFile h offset bytes : Access σ Nat) :=
  fun s => ⟨rfl, .single (.write s.store h offset bytes)⟩

theorem resizeData_quiet (length : Nat) : Keeps Quiet (resizeData length : Access σ Bool) :=
  fun s => ⟨rfl, .single (.resize s.store s.dataPath _)⟩

theorem write_quiet (a : UInt16) (b : UInt8) : Keeps Quiet (write a b : Access σ Unit) := by
  have hput (h : Handle) (i : Nat) (bytes : Bytes) : Works Quiet (fun _ => True)
      (writeFile h (Snapshot.blockSize + i) bytes : Access σ Nat) :=
    .of_keeps (writeFile_quiet h _ bytes) fun _ => trivial
  have hgrow := grow_works (σ := σ) (fun _ _ => trivial) hput
    (fun length => .of_keeps (resizeData_quiet length) fun _ => trivial) (fun _ _ => ⟨rfl, .refl⟩)
    fun _ _ => ⟨rfl, .refl⟩
  exact (write_works (fun _ _ => trivial) hput hgrow a b).keeps

theorem tame_quiet : Tame (σ := σ) Quiet fun _ => True where
  toReadable := readable readFile_quiet fun _ _ => ⟨rfl, .refl⟩
  write a b := .of_keeps (write_quiet a b) fun _ => trivial

theorem writeBytes_quiet (a : UInt16) (bytes : List UInt8) :
    Keeps Quiet (writeBytes a bytes : Access σ Unit) :=
  (tame_quiet.writeBytes a bytes).keeps

theorem receive_quiet (h : Handle) (offset : Nat) (a : UInt16) (count : Nat) :
    Keeps Quiet (receive h offset a count : Access σ Nat) :=
  (tame_quiet.receive h offset a count).keeps

end AddressSpace

namespace Kernel

/-- Only the storage and the filler differ, and the storage by edits. -/
structure Quiet (k k' : Kernel σ) : Prop where
  rest : k' = { k with store := k'.store, filler := k'.filler }
  edits : Edits k.store k'.store

instance : IsPreorder (Kernel σ) Quiet where
  refl _ := ⟨rfl, .refl⟩
  trans _ _ _ h₁ h₂ := ⟨by rw [h₂.rest, h₁.rest], h₁.edits.trans h₂.edits⟩

theorem load_quiet (k : Kernel σ) (pid : Pid) : Quiet k (k.load pid).2 := by
  unfold load
  cases k.table.process? pid with
  | none => exact refl_of Quiet k
  | some p =>
    have hedit : Edits k.store (Snapshot.load k.store p.backing).2 := by
      unfold Snapshot.load
      dsimp only
      split <;> exact .single (.read k.store p.backing 0 Snapshot.blockSize)
    dsimp only
    split <;> exact ⟨rfl, hedit⟩

theorem quiet_of_load {k k' : Kernel σ} {pid : Pid} {loaded : Except Fault Loaded}
    (h : k.load pid = (loaded, k')) : Quiet k k' := by
  have hload := load_quiet k pid
  rw [h] at hload
  exact hload

theorem save_quiet (k : Kernel σ) (self : Loaded) : Quiet k (k.save self).2 :=
  ⟨rfl, .single (.write k.store self.backing 0 self.state.toBlock)⟩

/-- A loaded process is a living one, and its files are those that the table tells. -/
theorem load_ok {k k' : Kernel σ} {pid : Pid} {self : Loaded} (h : k.load pid = (.ok self, k')) :
    ∃ p, k.table.process? pid = some p ∧ self = {
      pid, program := p.program, backing := p.backing, backingPath := k.backingPath pid,
      state := self.state } := by
  unfold load at h
  cases hp : k.table.process? pid with
  | none =>
    rw [hp] at h
    cases h
  | some p =>
    rw [hp] at h
    dsimp only at h
    split at h
    · cases h
      exact ⟨p, rfl, rfl⟩
    · cases h

/-- What is loaded is the snapshot in the backing file. -/
theorem load_state {k k' : Kernel σ} {pid : Pid} {self : Loaded} {p : Process}
    (h : k.load pid = (.ok self, k')) (hp : k.table.process? pid = some p) :
    Snapshot.load k.store p.backing = (.ok self.state, k'.store) := by
  unfold load at h
  rw [hp] at h
  dsimp only at h
  split at h
  · next hs =>
    cases h
    exact Prod.ext hs rfl
  · cases h

end Kernel

namespace Turn

/-- Only the storage, the filler, the snapshot and the window differ, and the storage by edits. -/
structure Quiet (t t' : Turn σ) : Prop where
  kernel : Kernel.Quiet t.kernel t'.kernel
  self : t'.self = { t.self with state := t'.self.state, window := t'.self.window }

instance : IsPreorder (Turn σ) Quiet where
  refl t := ⟨refl_of Kernel.Quiet t.kernel, rfl⟩
  trans _ _ _ h₁ h₂ := ⟨trans_of Kernel.Quiet h₁.kernel h₂.kernel, by rw [h₂.self, h₁.self]⟩

omit [Storage σ] in
/-- What an access keeps of the address space is kept of the turn. -/
theorem access_keeps {R : AddressSpace σ → AddressSpace σ → Prop} {S : Turn σ → Turn σ → Prop}
    {act : Access σ α} (h : Keeps R act) (hRS : ∀ t s, R t.space s → S t (t.setSpace s)) :
    Keeps S (access act) := by
  intro t
  have hs := h t.space
  simp only [after, access] at hs ⊢
  cases hr : act t.space with
  | ok a s =>
    rw [hr] at hs
    exact hRS t s hs
  | error e s =>
    rw [hr] at hs
    exact hRS t s hs

theorem access_quiet {act : Access σ α} (h : Keeps AddressSpace.Quiet act) :
    Keeps Quiet (access act) :=
  access_keeps h fun _ _ hs => ⟨⟨rfl, hs.edits⟩, rfl⟩

theorem modifyState_quiet {ε : Type} (f : Snapshot → Snapshot) :
    Keeps Quiet (modifyState f : EStateM ε (Turn σ) Unit) :=
  .modify fun _ => ⟨⟨rfl, .refl⟩, rfl⟩

/-- Having the storage do something is quiet if it is an edit. -/
theorem act_quiet {action : σ → α × σ} (h : ∀ s, Edit s (action s).2) :
    Keeps Quiet (act action : Attempt σ α) :=
  .modifyGet fun t => ⟨⟨rfl, .single (h t.kernel.store)⟩, rfl⟩

theorem lift_quiet {act : Attempt σ α} (h : Keeps Quiet act) :
    Keeps Quiet (monadLift act : InTurn σ α) :=
  h.adaptExcept _

/-! ## What is done at home -/

theorem domestic_quiet : Domestic (σ := σ) AddressSpace.Quiet Quiet fun _ => True where
  memory := AddressSpace.tame_quiet
  space _ _ hs := ⟨⟨rfl, hs.edits⟩, rfl⟩
  glance t h offset count := ⟨⟨rfl, .single (.read t.kernel.store h offset count)⟩, rfl⟩
  window _ _ := ⟨refl_of Kernel.Quiet _, rfl⟩
  state _ _ _ _ _ := ⟨refl_of Kernel.Quiet _, rfl⟩
  handler _ _ _ _ := ⟨refl_of Kernel.Quiet _, rfl⟩
  stdio _ _ := ⟨refl_of Kernel.Quiet _, rfl⟩

theorem ask_quiet (question : σ → α) : Keeps Quiet (ask question : Attempt σ α) :=
  (Domestic.ask domestic_quiet question).keeps

theorem readText_quiet (a : UInt16) : Keeps Quiet (readText a : Attempt σ (List UInt8)) :=
  (Domestic.readText domestic_quiet a).keeps

theorem readPath_quiet (a : UInt16) : Keeps Quiet (readPath a : Attempt σ (Option Path)) :=
  (Domestic.readPath domestic_quiet a).keeps

theorem readArguments_quiet (addresses : List UInt16) :
    Keeps Quiet (readArguments addresses : Attempt σ (List (List UInt8))) :=
  (Domestic.readArguments domestic_quiet addresses).keeps

theorem argument_quiet (n buffer : UInt16) : Keeps Quiet (argument n buffer : InTurn σ Reply) :=
  (Domestic.argument domestic_quiet n buffer).keeps

/-! ## What is done to files and to the environment -/

theorem writeCall_quiet (h : Handle) (offset buffer length : UInt16) :
    Keeps Quiet (writeCall h offset buffer length : Attempt σ Reply) :=
  (Domestic.writeCall domestic_quiet
    (fun _ _ => .of_keeps (AddressSpace.writeFile_quiet _ _ _) fun _ => trivial) _ _ _).keeps

theorem resizeCall_quiet (a size : UInt16) :
    Keeps Quiet (resizeCall a size : Attempt σ Reply) :=
  (Domestic.resizeCall domestic_quiet
    (fun _ => .of_keeps (act_quiet fun s => .resize s _ _) fun _ => trivial)
    (fun _ => .of_keeps (act_quiet fun s => .create s _ _) fun _ => trivial) a).keeps

theorem deleteCall_quiet (a : UInt16) : Keeps Quiet (deleteCall a : Attempt σ Reply) :=
  (Domestic.deleteCall domestic_quiet
    (fun _ => .of_keeps (act_quiet fun s => .delete s _) fun _ => trivial) a).keeps

theorem setWorkDir_quiet (a : UInt16) : Keeps Quiet (setWorkDir a : Attempt σ Reply) :=
  (Domestic.setWorkDir domestic_quiet (fun _ _ => ⟨refl_of Kernel.Quiet _, rfl⟩) a).keeps

theorem setSearchPath_quiet (a : UInt16) : Keeps Quiet (setSearchPath a : Attempt σ Reply) :=
  (Domestic.setSearchPath domestic_quiet (fun _ _ => ⟨refl_of Kernel.Quiet _, rfl⟩) a).keeps

end Turn

namespace Syscall

/-- The call concerns the caller alone: it starts, ends, wakes and signals nobody, and opens and
closes nothing. A read is not among these calls because it can put the caller to sleep. -/
def isQuiet : Syscall → Bool
  | exit | fork | exec | waitPid | kill | read | openFile | close | sendSignal => false
  | _ => true

end Syscall

namespace Turn

theorem answer_quiet {call : Syscall} (h : call.isQuiet) (args : CallArgs) :
    Keeps Quiet (answer call args : InTurn σ Reply) := by
  cases hd : call.isDomestic with
  | true => exact (Domestic.answer domestic_quiet hd args fun _ _ _ => trivial).keeps
  | false =>
    cases call
    case argument => exact argument_quiet _ _
    case write => exact lift_quiet (writeCall_quiet _ _ _ _)
    case resizeFile => exact lift_quiet (resizeCall_quiet _ _)
    case delete => exact lift_quiet (deleteCall_quiet _)
    case setWorkDir => exact lift_quiet (setWorkDir_quiet _)
    case setSearchPath => exact lift_quiet (setSearchPath_quiet _)
    all_goals first | (cases h; done) | cases hd

end Turn

end CoopKernel
