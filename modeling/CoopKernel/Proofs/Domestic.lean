import CoopKernel.Kernel.Schedule
import CoopKernel.Proofs.Effect
import CoopKernel.Proofs.Log

/-!
# Work that a process does at home

A process that executes instructions and asks the kernel for things that concern nobody else reads
files, reads and writes its memory, and changes its own snapshot. What is kept by each of these, or
allowed to happen in one of them, is so for every instruction and every such system call. `Domestic`
collects what there is to show about the few parts.
-/

namespace CoopKernel

set_option linter.unusedSectionVars false

variable {σ : Type} [Storage σ] {α : Type}

namespace AddressSpace

variable {A : AddressSpace σ → AddressSpace σ → Prop} [IsPreorder (AddressSpace σ) A]
  {E : Fault → Prop}

/-- A relation of memories that is kept by the parts that reading memory is made of, where these fail
only as they may. -/
structure Readable (A : AddressSpace σ → AddressSpace σ → Prop) (E : Fault → Prop) : Prop where
  fault : ∀ f, f ≠ .corruptState → E f
  readFile : ∀ h offset count, Works A E (readFile h offset count : Access σ Bytes)
  window : ∀ s w, A s { s with window := w }

/-- It is kept by writing memory, too. -/
structure Tame (A : AddressSpace σ → AddressSpace σ → Prop) (E : Fault → Prop) : Prop
    extends Readable A E where
  write : ∀ a b, Works A E (write a b : Access σ Unit)

/-! ## Growing and writing -/

section Writing

variable (hfault : ∀ f, f ≠ .corruptState → E f)
  (hput : ∀ h i bytes, Works A E (writeFile h (Snapshot.blockSize + i) bytes : Access σ Nat))

include hfault hput

/-- Growing comes down to resizing the file, filling what is new and setting the length. -/
theorem grow_works (hresize : ∀ length, Works A E (resizeData length : Access σ Bool))
    (hfiller : ∀ s filler, A s { s with filler }) (hset : ∀ s dataLength, A s { s with dataLength })
    (a : UInt16) (i : Nat) : Works A E (grow a i : Access σ Unit) := by
  have htry (lengths : List Nat) : Works A E (firstThatFits lengths : Access σ (Option Nat)) := by
    induction lengths with
    | nil => exact .pure _
    | cons length rest ih =>
      unfold firstThatFits
      refine .bind (hresize length) fun fits => ?_
      split
      · exact .pure _
      · exact ih
  unfold grow
  refine .bind .get fun s => ?_
  split
  · exact .throw_bind (hfault (.noRoom a) nofun) _
  · refine .bind (htry _) fun length => ?_
    cases length with
    | none => exact .throw (hfault _ nofun)
    | some length =>
      refine .bind (.modifyGet fun s => hfiller s _) fun fill => ?_
      cases fill with
      | none => exact .modify fun s => hset s _
      | some fill => exact .bind (hput _ _ fill) fun _ => .modify fun s => hset s _

/-- Writing a byte comes down to growing, if need be, and putting the byte into the file. -/
theorem write_works (hgrow : ∀ a i, Works A E (grow a i : Access σ Unit)) (a : UInt16) (b : UInt8) :
    Works A E (write a b : Access σ Unit) := by
  have hbyte (s : AddressSpace σ) (i : Nat) : Works A E (do
      let count ← writeFile s.data (Snapshot.blockSize + i) #[b]
      if count ≠ 1 then throw .storage : Access σ Unit) := by
    refine .bind (hput _ _ _) fun count => ?_
    split
    · exact .throw (hfault _ nofun)
    · exact .pure _
  unfold write
  split
  · exact .throw (hfault (.protectedWrite a) nofun)
  · unfold writeData
    refine .bind .get fun s => ?_
    split
    · exact .bind (hgrow a _) fun _ => hbyte s _
    · exact hbyte s _

end Writing

namespace Readable

variable (d : Readable A E)

include d

theorem read (a : UInt16) : Works A E (AddressSpace.read a : Access σ UInt8) := by
  have hprogram : Works A E (readProgram a : Access σ UInt8) := by
    unfold readProgram
    refine .bind .get fun s => ?_
    split
    · exact .pure _
    · refine .bind (d.readFile _ _ _) fun bytes => .bind (.modify fun s => d.window s _) fun _ => ?_
      split
      · exact .pure _
      · exact .throw (d.fault _ nofun)
  have hdata : ∀ i, Works A E (readData a i : Access σ UInt8) := by
    intro i
    unfold readData
    refine .bind .get fun s => ?_
    split
    · exact .throw_bind (d.fault (.unallocatedRead a) nofun) _
    · refine .bind (d.readFile _ _ _) fun bytes => ?_
      split
      · exact .pure _
      · exact .throw (d.fault _ nofun)
  unfold AddressSpace.read
  split
  · exact hprogram
  · exact hdata _

theorem readWord (a : UInt16) : Works A E (AddressSpace.readWord a : Access σ UInt16) :=
  .bind (d.read a) fun _ => .bind (d.read _) fun _ => .pure _

theorem readText (a : UInt16) (count : Nat) :
    Works A E (AddressSpace.readText a count : Access σ (List UInt8)) := by
  induction count generalizing a with
  | zero => exact .pure _
  | succ count ih =>
    refine .bind (d.read a) fun b => ?_
    split
    · exact .pure _
    · exact .bind (ih (a + 1)) fun _ => .pure _

theorem readBytes (a : UInt16) (count : Nat) :
    Works A E (AddressSpace.readBytes a count : Access σ (List UInt8)) := by
  induction count generalizing a with
  | zero => exact .pure _
  | succ count ih => exact .bind (d.read a) fun _ => .bind (ih (a + 1)) fun _ => .pure _

theorem fetch (a : UInt16) : Works A E (AddressSpace.fetch a : Access σ Instr) := by
  unfold AddressSpace.fetch
  refine .bind (d.read a) fun first => .bind (d.readBytes _ _) fun rest => ?_
  split
  · exact .pure _
  · exact .throw (d.fault _ fun h => Fault.noConfusion h)

/-- Sending needs a file that may be written to. -/
theorem send {h : Handle}
    (hwrite : ∀ offset b, Works A E (writeFile h offset #[b] : Access σ Nat)) (offset : Nat)
    (a : UInt16) (count : Nat) : Works A E (AddressSpace.send h offset a count : Access σ Nat) := by
  induction count generalizing offset a with
  | zero => exact .pure _
  | succ count ih =>
    refine .bind (d.read a) fun b => .bind (hwrite _ _) fun n => ?_
    split
    · exact .pure _
    · exact .bind (ih (offset + 1) (a + 1)) fun _ => .pure _

end Readable

namespace Tame

variable (d : Tame A E)

include d

theorem writeBytes (a : UInt16) (bytes : List UInt8) :
    Works A E (AddressSpace.writeBytes a bytes : Access σ Unit) := by
  induction bytes generalizing a with
  | nil => exact .pure _
  | cons b bytes ih => exact .bind (d.write a b) fun _ => ih (a + 1)

theorem receive (h : Handle) (offset : Nat) (a : UInt16) (count : Nat) :
    Works A E (AddressSpace.receive h offset a count : Access σ Nat) := by
  induction count generalizing offset a with
  | zero => exact .pure _
  | succ count ih =>
    refine .bind (d.readFile _ _ _) fun bytes => ?_
    split
    · exact .bind (d.write a _) fun _ => .bind (ih (offset + 1) (a + 1)) fun _ => .pure _
    · exact .pure _

end Tame

end AddressSpace

namespace Turn

/-- Faults that may be, as ends of a turn. -/
def OnFault (E : Fault → Prop) : TurnEnd → Prop
  | .faulted f => E f
  | _ => False

theorem ne_exited_of_fault {E : Fault → Prop} (e : TurnEnd) (h : OnFault E e) : e ≠ .exited := by
  rintro rfl
  exact h

/-- What an access does to memory it does to the turn. -/
theorem access_works {A : AddressSpace σ → AddressSpace σ → Prop} {R : Turn σ → Turn σ → Prop}
    {E : Fault → Prop} {act : Access σ α} (h : Works A E act)
    (hAR : ∀ t s, A t.space s → R t (t.setSpace s)) : Works R E (access act) := by
  intro t
  have hs := h t.space
  unfold access
  cases hr : act t.space with
  | ok a s =>
    rw [hr] at hs
    exact hAR t s hs
  | error e s =>
    rw [hr] at hs
    exact ⟨hs.1, hAR t s hs.2⟩

theorem lift_works {R : Turn σ → Turn σ → Prop} {E : Fault → Prop} {act : Attempt σ α}
    (h : Works R E act) : Works R (OnFault E) (monadLift act : InTurn σ α) := by
  have hadapt : Works R (fun f => OnFault E (TurnEnd.faulted f)) act := h
  exact hadapt.adaptExcept

/-- A relation of turns that is kept by what a process does at home, where it may register the handlers `H`. -/
structure Domestic (A : AddressSpace σ → AddressSpace σ → Prop) (R : Turn σ → Turn σ → Prop)
    (E : Fault → Prop) (H : Signal → UInt16 → Prop := fun _ _ => True) : Prop where
  memory : AddressSpace.Tame A E
  space : ∀ t s, A t.space s → R t (t.setSpace s)
  glance : ∀ t h offset count,
    R t { t with kernel := { t.kernel with store := (Storage.read t.kernel.store h offset count).2 } }
  window : ∀ t w, R t { t with self := { t.self with window := w } }
  state : ∀ (t : Turn σ) (s : Snapshot), s.env = t.self.state.env → s.dataLength = t.self.state.dataLength →
    s.handlers = t.self.state.handlers → R t { t with self := { t.self with state := s } }
  handler : ∀ (t : Turn σ) (signal : Signal) (address : UInt16), H signal address →
    R t { t with self := { t.self with state := t.self.state.setHandler signal address } }
  stdio : ∀ (t : Turn σ) (h : Handle), R t { t with self := { t.self with state :=
    { t.self.state with env := { t.self.state.env with stdio := h } } } }

namespace Domestic

variable {A : AddressSpace σ → AddressSpace σ → Prop} [IsPreorder (AddressSpace σ) A]
  {R : Turn σ → Turn σ → Prop} [IsPreorder (Turn σ) R] {E : Fault → Prop} {H : Signal → UInt16 → Prop}
  (d : Domestic A R E H)

include d

omit [IsPreorder (AddressSpace σ) A] [IsPreorder (Turn σ) R] in
protected theorem mono {S : Turn σ → Turn σ → Prop} (h : ∀ t t', R t t' → S t t') :
    Domestic A S E H where
  memory := d.memory
  space t s hs := h _ _ (d.space t s hs)
  glance t handle offset count := h _ _ (d.glance t handle offset count)
  window t w := h _ _ (d.window t w)
  state t s henv hlength hhandlers := h _ _ (d.state t s henv hlength hhandlers)
  handler t signal address hset := h _ _ (d.handler t signal address hset)
  stdio t handle := h _ _ (d.stdio t handle)

theorem access {act : Access σ α} (h : Works A E act) : Works R E (Turn.access act) :=
  access_works h d.space

theorem modifyState {ε : Type} {E' : ε → Prop} {f : Snapshot → Snapshot}
    (h : ∀ s, (f s).env = s.env ∧ (f s).dataLength = s.dataLength ∧ (f s).handlers = s.handlers) :
    Works R E' (Turn.modifyState f : EStateM ε (Turn σ) Unit) :=
  .modify fun t => d.state t _ (h t.self.state).1 (h t.self.state).2.1 (h t.self.state).2.2

theorem setReg {ε : Type} {E' : ε → Prop} (r : Reg) (value : UInt16) :
    Works R E' (Turn.modifyState (·.setReg r value) : EStateM ε (Turn σ) Unit) :=
  d.modifyState fun _ => ⟨rfl, rfl, rfl⟩

theorem ask (question : σ → α) : Works R E (Turn.ask question : Attempt σ α) :=
  .bind .get fun _ => .pure _

/-! ## Reading and writing the memory of the process -/

theorem readText (a : UInt16) : Works R E (Turn.readText a : Attempt σ (List UInt8)) :=
  d.access (d.memory.readText a _)

theorem writeText (a : UInt16) (text : String) : Works R E (Turn.writeText a text : Attempt σ Unit) :=
  d.access (d.memory.writeBytes a _)

theorem readPath (a : UInt16) : Works R E (Turn.readPath a : Attempt σ (Option Path)) := by
  unfold Turn.readPath
  refine .bind (d.readText a) fun raw => ?_
  split
  · exact .pure _
  · dsimp only
    split
    · exact .bind .get fun _ => .pure _
    · exact .pure _

theorem writeFound (a : UInt16) (text : Option String) :
    Works R E (Turn.writeFound a text : Attempt σ Reply) := by
  cases text with
  | none => exact .pure _
  | some text => exact .bind (d.writeText a text) fun _ => .pure _

theorem readArguments (addresses : List UInt16) :
    Works R E (Turn.readArguments addresses : Attempt σ (List (List UInt8))) := by
  induction addresses with
  | nil => exact .pure _
  | cons a rest ih =>
    unfold Turn.readArguments
    split
    · exact ih
    · exact .bind (d.readText a) fun _ => .bind ih fun _ => .pure _

/-! ## System calls -/

theorem lookup (number : UInt16) : Works R E (Turn.lookup number : Attempt σ (Option Process)) :=
  .bind .get fun _ => .pure _

theorem programPath (number buffer : UInt16) :
    Works R E (Turn.programPath number buffer : Attempt σ Reply) :=
  .bind (d.lookup _) fun _ => .bind (d.ask _) fun _ => d.writeFound _ _

theorem processState (number buffer : UInt16) :
    Works R E (Turn.processState number buffer : Attempt σ Reply) :=
  .bind (d.lookup _) fun _ => d.writeFound _ _

theorem allCounts (buffer : UInt16) : Works R E (Turn.allCounts buffer : Attempt σ Reply) :=
  .bind .get fun _ => .bind (d.access (d.memory.writeBytes _ _)) fun _ => .pure _

theorem processRam (number : UInt16) : Works R E (Turn.processRam number : Attempt σ Reply) := by
  unfold Turn.processRam
  split
  · exact .pure _
  · refine .bind .get fun t => ?_
    dsimp only
    split
    · exact .pure _
    · exact .pure _

theorem writeCall {h : Handle}
    (hwrite : ∀ offset b, Works A E (AddressSpace.writeFile h offset #[b] : Access σ Nat))
    (offset buffer length : UInt16) :
    Works R E (Turn.writeCall h offset buffer length : Attempt σ Reply) :=
  .bind (d.access (d.memory.send hwrite _ _ _)) fun _ => .pure _

theorem childCall (h : Handle) (n buffer : UInt16) :
    Works R E (Turn.childCall h n buffer : Attempt σ Reply) :=
  .bind (d.ask _) fun _ => d.writeFound _ _

theorem pathCall (h : Handle) (buffer : UInt16) :
    Works R E (Turn.pathCall h buffer : Attempt σ Reply) :=
  .bind (d.ask _) fun _ => d.writeFound _ _

theorem resizeCall {size : UInt16}
    (hresize : ∀ p, Works R E (Turn.act (Storage.resize · p size.toNat) : Attempt σ Bool))
    (hcreate : ∀ p, Works R E (Turn.act (Storage.create · p size.toNat) : Attempt σ Bool))
    (a : UInt16) : Works R E (Turn.resizeCall a size : Attempt σ Reply) := by
  unfold Turn.resizeCall
  refine .bind (d.readPath a) fun p => ?_
  split
  · exact .pure _
  · refine .bind (d.ask _) fun there => ?_
    split
    · exact .bind (hresize _) fun _ => .pure _
    · exact .bind (hcreate _) fun _ => .pure _

theorem lengthCall (a : UInt16) : Works R E (Turn.lengthCall a : Attempt σ Reply) := by
  unfold Turn.lengthCall
  refine .bind (d.readPath a) fun p => ?_
  split
  · exact .pure _
  · exact .bind (d.ask _) fun _ => .pure _

theorem tryReadByte (h : Handle) : Works R E (Turn.tryReadByte h : Attempt σ Reply) := by
  unfold Turn.tryReadByte
  refine .bind (d.ask _) fun ready => ?_
  split
  · refine .bind (.modifyGet fun t => d.glance t _ _ _) fun bytes => ?_
    split
    · exact .pure _
    · exact .pure _
  · exact .pure _

theorem pathQuestion (question : σ → Path → Bool) (a : UInt16) :
    Works R E (Turn.pathQuestion question a : Attempt σ Reply) := by
  unfold Turn.pathQuestion
  refine .bind (d.readPath a) fun p => ?_
  split
  · exact .pure _
  · exact .bind (d.ask _) fun _ => .pure _

theorem deleteCall (hdelete : ∀ p, Works R E (Turn.act (Storage.delete · p) : Attempt σ Bool))
    (a : UInt16) : Works R E (Turn.deleteCall a : Attempt σ Reply) := by
  unfold Turn.deleteCall
  refine .bind (d.readPath a) fun p => ?_
  split
  · exact .pure _
  · exact .bind (hdelete _) fun _ => .pure _

theorem openCall (hopen : ∀ p, Works R E (Turn.act (Storage.openPath · p) : Attempt σ (Option Handle)))
    (a : UInt16) : Works R E (Turn.openCall a : Attempt σ Reply) := by
  unfold Turn.openCall
  refine .bind (d.readPath a) fun p => ?_
  split
  · exact .pure _
  · exact .bind (hopen _) fun _ => .pure _

omit d in
theorem closeCall {h : Handle}
    (hclose : Works R E (Turn.act (fun s => ((), Storage.close s h)) : Attempt σ Unit)) :
    Works R E (Turn.closeCall h : Attempt σ Reply) := by
  unfold Turn.closeCall
  refine .bind .get fun t => ?_
  dsimp only
  split
  · exact .bind hclose fun _ => .pure _
  · exact .pure _

theorem setWorkDir (henv : ∀ (t : Turn σ) (env : Environment),
      R t { t with self := { t.self with state := { t.self.state with env } } })
    (a : UInt16) : Works R E (Turn.setWorkDir a : Attempt σ Reply) := by
  unfold Turn.setWorkDir
  refine .bind (d.readPath a) fun p => ?_
  split
  · exact .pure _
  · split
    · exact .bind (.modify fun t => henv t _) fun _ => .pure _
    · exact .pure _

theorem setSearchPath (henv : ∀ (t : Turn σ) (env : Environment),
      R t { t with self := { t.self with state := { t.self.state with env } } })
    (a : UInt16) : Works R E (Turn.setSearchPath a : Attempt σ Reply) := by
  unfold Turn.setSearchPath
  refine .bind (d.access (d.memory.readText _ _)) fun raw => ?_
  split
  · exact .bind (.modify fun t => henv t _) fun _ => .pure _
  · exact .pure _

theorem setStdio (h : Handle) : Works R E (Turn.setStdio h : Attempt σ Reply) :=
  .bind (.modify fun t => d.stdio t h) fun _ => .pure _

theorem getWorkDir (buffer : UInt16) : Works R E (Turn.getWorkDir buffer : Attempt σ Reply) :=
  .bind .get fun _ => .bind (d.writeText _ _) fun _ => .pure _

theorem getSearchPath (buffer : UInt16) :
    Works R E (Turn.getSearchPath buffer : Attempt σ Reply) :=
  .bind .get fun _ => .bind (d.writeText _ _) fun _ => .pure _

theorem time : Works R E (Turn.time : Attempt σ Reply) :=
  .bind .get fun _ => .pure _

theorem setHandler {signal handler : UInt16} (h : ∀ s, Signal.ofNat? signal.toNat = some s → H s handler) :
    Works R E (Turn.setHandler signal handler : Attempt σ Reply) := by
  unfold Turn.setHandler
  split
  · next s hs => exact .bind (.modify fun t => d.handler t s handler (h s hs)) fun _ => .pure _
  · exact .pure _

theorem readArgument (offset count : Nat) : Works R (fun e => e = .overflowed ∨ OnFault E e)
    (Turn.readArgument offset count : InTurn σ (List UInt8)) := by
  induction count generalizing offset with
  | zero => exact .pure _
  | succ count ih =>
    unfold Turn.readArgument
    refine .bind .get fun t => ?_
    split
    · exact .pure _
    · dsimp only
      split
      · exact .throw_bind (.inl rfl) _
      · refine .bind ((lift_works (d.access (d.memory.read _))).mono (fun _ _ => id)
          fun _ => .inr) fun b => ?_
        split
        · exact .pure _
        · exact .bind (ih (offset + 1)) fun _ => .pure _

/-- An argument is copied, or its address leaves its range. -/
theorem argument (n buffer : UInt16) : Works R (fun e => e = .overflowed ∨ OnFault E e)
    (Turn.argument n buffer : InTurn σ Reply) := by
  unfold Turn.argument
  refine .bind .get fun t => ?_
  dsimp only
  split
  · exact .pure _
  · split
    · exact .pure _
    · exact .bind (d.readArgument _ _) fun arg =>
        .bind ((lift_works (d.access (d.memory.writeBytes _ _))).mono (fun _ _ => id) fun _ => .inr)
          fun _ => .pure _

end Domestic

end Turn

namespace Syscall

/-- The call is answered at home: it changes no files and nothing of the environment but the standard
handle, and computes no address outside of memory. -/
def isDomestic : Syscall → Bool
  | getPid | argCount | programPath | processState | allCounts | processRam | childPath | handlePath
  | fileLength | tryReadByte | isDir | fileExists | getStdio | setStdio | getWorkDir | getSearchPath
  | time | setHandler => true
  | _ => false

end Syscall

namespace Turn.Domestic

variable {A : AddressSpace σ → AddressSpace σ → Prop} [IsPreorder (AddressSpace σ) A]
  {R : Turn σ → Turn σ → Prop} [IsPreorder (Turn σ) R] {E : Fault → Prop} {H : Signal → UInt16 → Prop}
  (d : Domestic A R E H)

include d

theorem answer {call : Syscall} (h : call.isDomestic) (args : CallArgs)
    (hset : call = .setHandler → ∀ s, Signal.ofNat? args.a.toNat = some s → H s args.b) :
    Works R (OnFault E) (Turn.answer call args : InTurn σ Reply) := by
  cases call
  case getPid | argCount | getStdio => exact .bind .get fun _ => .pure _
  case programPath => exact lift_works (d.programPath _ _)
  case processState => exact lift_works (d.processState _ _)
  case allCounts => exact lift_works (d.allCounts _)
  case processRam => exact lift_works (d.processRam _)
  case childPath => exact lift_works (d.childCall _ _ _)
  case handlePath => exact lift_works (d.pathCall _ _)
  case fileLength => exact lift_works (d.lengthCall _)
  case tryReadByte => exact lift_works (d.tryReadByte _)
  case isDir => exact lift_works (d.pathQuestion _ _)
  case fileExists => exact lift_works (d.pathQuestion _ _)
  case setStdio => exact lift_works (d.setStdio _)
  case getWorkDir => exact lift_works (d.getWorkDir _)
  case getSearchPath => exact lift_works (d.getSearchPath _)
  case time => exact lift_works d.time
  case setHandler => exact lift_works (d.setHandler (hset rfl))
  all_goals cases h

/-! ## Instructions -/

theorem executeOther (i : Instr) : Works R E (Turn.executeOther i : Attempt σ Unit) := by
  unfold Turn.executeOther
  refine .bind .get fun t => ?_
  cases i with
  | storeByte addr src => exact d.access (d.memory.write _ _)
  | loadByte dst addr => exact .bind (d.access (d.memory.read _)) fun _ => d.setReg _ _
  | binary op dst a b =>
    dsimp only
    split
    · exact d.setReg _ _
    · exact .throw (d.memory.fault _ nofun)
  | skip r bit =>
    dsimp only
    split
    · exact d.modifyState fun _ => ⟨rfl, rfl, rfl⟩
    · exact .pure _
  | storeWord addr src => exact d.access (d.memory.writeBytes _ _)
  | loadWord dst addr => exact .bind (d.access (d.memory.readWord _)) fun _ => d.setReg _ _
  | nop | syscall => exact .pure _
  | clearCache => exact .modify fun t => d.window t _
  | not dst a | inc dst step | dec dst step | setByte dst value | setWord dst value =>
    exact d.setReg _ _

theorem advance (length : Nat) : Works R E (Turn.advance length : Attempt σ Unit) :=
  d.modifyState fun _ => ⟨rfl, rfl, rfl⟩

theorem discard : Works R E (Turn.discard : Attempt σ Unit) :=
  .bind .get fun _ => .bind (d.access (d.memory.read _)) fun _ =>
    .bind (d.advance _) fun _ => d.modifyState fun _ => ⟨rfl, rfl, rfl⟩

end Turn.Domestic

/-! ## What concerns the table and the log -/

/-- A relation of turns that does not depend on what the processes do either, nor on how their
instructions are counted and what is logged, unless a process is made or ends. -/
structure Turn.Indifferent (A : AddressSpace σ → AddressSpace σ → Prop) (R : Turn σ → Turn σ → Prop)
    (E : Fault → Prop) (H : Signal → UInt16 → Prop := fun _ _ => True) : Prop extends Turn.Domestic A R E H where
  status : ∀ (t : Turn σ) (pid : Pid) (status : Status),
    R t { t with kernel := t.kernel.onTable (·.setStatus pid status) }
  count : ∀ (t : Turn σ) (pid : Pid), R t { t with kernel := t.kernel.onTable (·.addCount pid) }
  note : ∀ (t : Turn σ) (e : Event), e.isLife = false → R t { t with kernel := t.kernel.note e }

namespace Turn.Indifferent

variable {A : AddressSpace σ → AddressSpace σ → Prop} [IsPreorder (AddressSpace σ) A]
  {R : Turn σ → Turn σ → Prop} [IsPreorder (Turn σ) R] {E : Fault → Prop} {H : Signal → UInt16 → Prop}
  (d : Indifferent A R E H)

include d

omit [IsPreorder (AddressSpace σ) A] [IsPreorder (Turn σ) R] in
protected theorem mono {S : Turn σ → Turn σ → Prop} (h : ∀ t t', R t t' → S t t') :
    Indifferent A S E H where
  toDomestic := d.toDomestic.mono h
  status t pid status := h _ _ (d.status t pid status)
  count t pid := h _ _ (d.count t pid)
  note t e he := h _ _ (d.note t e he)

theorem deliver (signal : Signal) : Works R E (Turn.deliver signal : Attempt σ Bool) := by
  have hrest (pid : Pid) (handler : UInt16) : Works R E (do
      modifyKernel (·.onTable (·.setStatus pid .active))
      let state := (← get).self.state
      let sp := state.reg Reg.stack
      access (AddressSpace.writeWord sp (state.reg Reg.ip))
      modifyState fun s => (s.setReg Reg.stack (sp + 2)).setReg Reg.ip handler
      Turn.note (.signalled pid signal handler)
      return true : Attempt σ Bool) := by
    refine .bind (.modify fun t => d.status t pid .active) fun _ => ?_
    refine .bind .get fun t => .bind (d.access (d.memory.writeBytes _ _)) fun _ => ?_
    refine .bind (d.modifyState fun _ => ⟨rfl, rfl, rfl⟩) fun _ => ?_
    exact .bind (.modify fun t => d.note t _ rfl) fun _ => .pure _
  unfold Turn.deliver
  refine .bind .get fun t => ?_
  dsimp only
  split
  · exact .pure _
  · split
    · refine .bind (d.modifyState fun s => ?_) fun _ => hrest _ _
      unfold Snapshot.interrupt
      split <;> exact ⟨rfl, rfl, rfl⟩
    · exact hrest _ _

theorem lastWords (hclear : H .suicide 0) : Works R E (Turn.lastWords : Attempt σ Bool) := by
  unfold Turn.lastWords
  refine .bind (d.deliver .suicide) fun handled => ?_
  split
  · exact .bind (.modify fun t => d.handler t .suicide 0 hclear) fun _ => .pure _
  · exact .pure _

theorem readCall (h : Handle) (offset buffer length : UInt16) :
    Works R (fun e => e = .blocked ∨ OnFault E e)
      (Turn.readCall h offset buffer length : InTurn σ Reply) := by
  have hlift {α : Type} {act : Attempt σ α} (hact : Works R E act) :
      Works R (fun e => e = .blocked ∨ OnFault E e) (monadLift act : InTurn σ α) :=
    (lift_works hact).mono (fun _ _ => id) fun _ => .inr
  unfold Turn.readCall
  refine .bind (hlift (d.ask _)) fun gone => ?_
  split
  · exact .pure _
  · refine .bind (hlift (d.ask _)) fun ready => ?_
    split
    · exact .bind .get fun t => .bind (d.modifyState fun _ => ⟨rfl, rfl, rfl⟩) fun _ =>
        .bind (.modify fun t => d.status t _ _) fun _ => .bind (.modify fun t => d.note t _ rfl) fun _ =>
        .throw_bind (.inl rfl) _
    · exact .bind (hlift (d.access (d.memory.receive _ _ _ _))) fun _ => .pure _

theorem waitPid (target timeout : UInt16) :
    Works R (fun e => e = .blocked) (Turn.waitPid target timeout : InTurn σ Reply) := by
  unfold Turn.waitPid
  refine .bind .get fun t => ?_
  dsimp only
  split
  · exact .pure _
  · split
    · exact .pure _
    · exact .bind (.modify fun t => d.status t _ _) fun _ => .bind (.modify fun t => d.note t _ rfl) fun _ =>
        .throw rfl

end Turn.Indifferent

/-! ## What concerns the files of the process and its environment -/

namespace Syscall

/-- The call starts nobody, ends nobody and signals nobody, changes no program, and does not write to a file,
resize or delete one. -/
def isInPlace : Syscall → Bool
  | exit | fork | exec | kill | write | resizeFile | delete | sendSignal => false
  | _ => true

end Syscall

/-- What there is to show besides for the calls by which a process opens and closes files and sets its
environment. -/
structure Turn.Opening (R : Turn σ → Turn σ → Prop) : Prop where
  opened : ∀ (t : Turn σ) p,
    R t { t with kernel := { t.kernel with store := (Storage.openPath t.kernel.store p).2 } }
  closed : ∀ (t : Turn σ) h,
    R t { t with kernel := { t.kernel with store := Storage.close t.kernel.store h } }
  env : ∀ (t : Turn σ) (env : Environment),
    R t { t with self := { t.self with state := { t.self.state with env } } }

/-- What there is to show besides for exchanging the program. -/
structure Turn.Exchanging (R : Turn σ → Turn σ → Prop) (E : Fault → Prop) : Prop where
  opened : ∀ (t : Turn σ) p,
    R t { t with kernel := { t.kernel with store := (Storage.openPath t.kernel.store p).2 } }
  program : ∀ (t : Turn σ) pid program old,
    R t { t with kernel := (t.kernel.onTable (·.setProgram pid program)).releaseProgram pid old }
  restart : ∀ (t : Turn σ) program count layout, count ≤ maxArguments → R t { t with self := { t.self with
    program, window := Window.closed, state := t.self.state.restart count layout } }
  resize : ∀ length, Works R E (Turn.access (AddressSpace.resizeData length) : Attempt σ Bool)
  write : ∀ h bytes,
    Works R E (Turn.access (AddressSpace.writeFile h Snapshot.blockSize bytes) : Attempt σ Nat)

namespace Turn.Indifferent

variable {A : AddressSpace σ → AddressSpace σ → Prop} [IsPreorder (AddressSpace σ) A]
  {R : Turn σ → Turn σ → Prop} [IsPreorder (Turn σ) R] {E : Fault → Prop} {H : Signal → UInt16 → Prop}
  (d : Indifferent A R E H)

include d

/-- Such a call keeps it, and the process does not end by it. -/
theorem answerInPlace (o : Opening R) {call : Syscall} (h : call.isInPlace) (args : CallArgs)
    (hset : call = .setHandler → ∀ s, Signal.ofNat? args.a.toNat = some s → H s args.b) :
    Works R (· ≠ .exited) (Turn.answer call args : InTurn σ Reply) := by
  have hlift {act : Attempt σ Reply} (hact : Works R E act) :
      Works R (· ≠ .exited) (monadLift act : InTurn σ Reply) :=
    (lift_works hact).mono (fun _ _ => id) ne_exited_of_fault
  cases hd : call.isDomestic with
  | true => exact (d.toDomestic.answer hd args hset).mono (fun _ _ => id) ne_exited_of_fault
  | false =>
    cases call
    case argument =>
      refine (d.argument _ _).mono (fun _ _ => id) ?_
      rintro e (rfl | he)
      · exact nofun
      · exact ne_exited_of_fault e he
    case waitPid =>
      refine (d.waitPid _ _).mono (fun _ _ => id) ?_
      rintro e rfl
      exact nofun
    case read =>
      refine (d.readCall _ _ _ _).mono (fun _ _ => id) ?_
      rintro e (rfl | he)
      · exact nofun
      · exact ne_exited_of_fault e he
    case openFile => exact hlift (d.openCall (fun p => .modifyGet fun t => o.opened t p) _)
    case close => exact hlift (Domestic.closeCall (.modifyGet fun t => o.closed t _))
    case setWorkDir => exact hlift (d.setWorkDir o.env _)
    case setSearchPath => exact hlift (d.setSearchPath o.env _)
    all_goals first | (cases h; done) | cases hd

omit d in
theorem openProgram (hopen : ∀ (t : Turn σ) p,
      R t { t with kernel := { t.kernel with store := (Storage.openPath t.kernel.store p).2 } })
    (name : List UInt8) : Works R E (Turn.openProgram name : Attempt σ (Option (Path × Handle))) := by
  unfold Turn.openProgram
  split
  · exact .pure _
  · dsimp only
    split
    · exact .pure _
    · intro t
      rw [get_bind]
      cases t.kernel.findProgram t.self.state.env _ with
      | none => exact refl_of R t
      | some path => exact hopen t path

theorem replaceProgram (x : Exchanging R E) (path : Path) (program : Handle) (args : List (List UInt8)) :
    Works R E (Turn.replaceProgram path program args : Attempt σ Unit) := by
  have hstorage : E .storage := d.memory.fault _ nofun
  unfold Turn.replaceProgram
  refine .bind .get fun t => .bind (.modify fun t₁ => x.program t₁ _ _ _) fun _ => ?_
  dsimp only
  have hfew : ((Utf8.encode path.chars :: args).take maxArguments).length ≤ maxArguments := by
    rw [List.length_take]
    exact Nat.min_le_left _ _
  refine .bind (.modify fun t₁ => x.restart t₁ _ _ _ hfew) fun _ => .bind (x.resize _) fun fits => ?_
  split
  · exact .throw_bind hstorage _
  · refine .bind (x.write _ _) fun count => ?_
    split
    · exact .throw_bind hstorage _
    · exact .modify fun t₁ => d.note t₁ _ rfl

theorem execCall (x : Exchanging R E) (args : CallArgs) :
    Works R (fun e => e = .yielded ∨ OnFault E e) (Turn.execCall args : InTurn σ Reply) := by
  have hlift {α : Type} {act : Attempt σ α} (hact : Works R E act) :
      Works R (fun e => e = .yielded ∨ OnFault E e) (monadLift act : InTurn σ α) :=
    (lift_works hact).mono (fun _ _ => id) fun _ => .inr
  have hexec (name : List UInt8) (arguments : List (List UInt8)) :
      Works R E (exec name arguments : Attempt σ Bool) := by
    unfold exec
    refine .bind (openProgram x.opened name) fun found => ?_
    split
    · exact .pure _
    · exact .bind (d.replaceProgram x _ _ _) fun _ => .pure _
  unfold Turn.execCall
  refine .bind (hlift (d.readText _)) fun name => .bind (hlift (d.readArguments _)) fun arguments => ?_
  refine .bind (hlift (hexec name arguments)) fun done => ?_
  split
  · exact .throw_bind (.inl rfl) _
  · exact .pure _

end Turn.Indifferent

end CoopKernel
