import CoopKernel.Proofs.Blocking.Reading
import CoopKernel.Proofs.Blocking.Sleeping
import CoopKernel.Proofs.Transfers

/-!
# Falling asleep over a read, and reading again

A process that would have to wait for what it reads is put back on its system call, and its turn ends. When it is
visited and can read, it is loaded again and does the same call. What comes of that is what would have come of the
call if the process had not done it before that moment, as the two differ in nothing that a read depends on: in the
window on the program, and in the texts of the environment, which may have been cut when they were stored.
-/

namespace CoopKernel

variable {k : Kernel Volume} {l : Ledger} {t : Turn Volume} {handle : Handle} {old : Bytes} {call : Syscall}
  {args : CallArgs}

/-! ## Fetching a system call -/

namespace AddressSpace

/-- Nothing but the window and what is there to be read from devices differs. -/
structure Glimpses (s s' : AddressSpace Volume) : Prop where
  rest : s' = { s with store := s'.store, window := s'.window }
  handles : s'.store.handles = s.store.handles
  nodes : s'.store.nodes = s.store.nodes

instance : IsPreorder (AddressSpace Volume) Glimpses where
  refl _ := ⟨rfl, rfl, rfl⟩
  trans _ _ _ h₁ h₂ := ⟨by rw [h₂.rest, h₁.rest], h₂.handles.trans h₁.handles, h₂.nodes.trans h₁.nodes⟩

theorem fetch_glimpses (a : UInt16) : Keeps Glimpses (fetch a : Access Volume Instr) :=
  fetch_keeps (fun h offset count s => ⟨rfl, s.store.handles_read h offset count, s.store.nodes_read h offset count⟩)
    (fun _ _ => ⟨rfl, rfl, rfl⟩) a

theorem Glimpses.pathOf? {s s' : AddressSpace Volume} (h : Glimpses s s') (g : Handle) :
    s'.store.pathOf? g = s.store.pathOf? g := by
  rw [Volume.pathOf?, Volume.pathOf?, h.handles]

theorem Glimpses.behind? {s s' : AddressSpace Volume} (h : Glimpses s s') (g : Handle) :
    s'.store.behind? g = s.store.behind? g := by
  have hcontent : s'.store.content? = s.store.content? := by
    funext p
    rw [Volume.content?, Volume.content?, Volume.node?, Volume.node?, h.nodes]
  rw [Volume.behind?, Volume.behind?, h.pathOf?, hcontent]

end AddressSpace

namespace Turn

/-- The turn behind the fetching of a system call, which left the memory as given. -/
def calling (t : Turn Volume) (s : AddressSpace Volume) : Turn Volume :=
  let u := (t.setSpace s).past 1
  { u with kernel := u.kernel.note (.called t.self.pid (t.self.state.reg Reg.result)
    t.callArgs.a t.callArgs.b t.callArgs.c t.callArgs.d) }

theorem callArgs_past (t : Turn Volume) (s : AddressSpace Volume) : ((t.setSpace s).past 1).callArgs = t.callArgs := by
  simp only [callArgs, past, setSpace, CallArgs.mk.injEq]
  refine ⟨?_, ?_, ?_, ?_⟩ <;> exact Snapshot.reg_setReg_of_ne _ _ (by decide)

theorem result_past (t : Turn Volume) (s : AddressSpace Volume) :
    ((t.setSpace s).past 1).self.state.reg Reg.result = t.self.state.reg Reg.result :=
  Snapshot.reg_setReg_of_ne _ _ (by decide)

/-- A process whose next instruction is a system call does the call that its registers tell. -/
theorem call?_of_fetch {s : AddressSpace Volume} (hskip : t.self.state.skip = false)
    (hf : AddressSpace.fetch (t.self.state.reg Reg.ip) t.space = .ok .syscall s) :
    t.call? = (Syscall.ofNumber? (t.self.state.reg Reg.result).toNat).map (·, t.callArgs) ∧
      t.atCall = t.calling s := by
  have hfetch : fetch t = .ok .syscall ((t.setSpace s).past 1) := by
    rw [fetch_eq, hf]
    rfl
  constructor
  · unfold call?
    rw [if_neg (by rw [hskip]; exact Bool.false_ne_true), hfetch]
    dsimp only
    rw [callArgs_past, result_past]
  · simp only [atCall, after_ok hfetch, calling]
    rw [callArgs_past, result_past]
    rfl

/-- A system call is done by a process that does not skip and whose next instruction is one. -/
theorem call?_cases (h : t.call? = some (call, args)) : t.self.state.skip = false ∧
    Syscall.ofNumber? (t.self.state.reg Reg.result).toNat = some call ∧ args = t.callArgs ∧
    ∃ s, AddressSpace.fetch (t.self.state.reg Reg.ip) t.space = .ok .syscall s := by
  have hskip : t.self.state.skip = false := by
    cases hs : t.self.state.skip with
    | false => rfl
    | true =>
      rw [call?, if_pos hs] at h
      cases h
  obtain ⟨⟨t₁, hf⟩, -, -⟩ := step_call_cases h
  rw [fetch_eq] at hf
  cases hs : AddressSpace.fetch (t.self.state.reg Reg.ip) t.space with
  | error f s =>
    rw [hs] at hf
    cases hf
  | ok instr s =>
    rw [hs] at hf
    cases hf
    rw [(call?_of_fetch hskip hs).1] at h
    obtain ⟨call', hnumber, he⟩ := Option.map_eq_some_iff.mp h
    cases he
    exact ⟨hskip, hnumber, rfl, s, rfl⟩

/-! ## Falling asleep -/

/-- The turn of a process that has to wait to read, put back on its system call. -/
def putBack (handle : Handle) (t : Turn Volume) : Turn Volume where
  kernel := (t.kernel.onTable (·.setStatus t.self.pid (.waitingToRead handle))).note (.waitsToRead t.self.pid handle)
  self := { t.self with state := t.self.state.setReg Reg.ip (t.self.state.reg Reg.ip - 1) }

theorem readCall_waits (hopen : (t.kernel.store.pathOf? handle).isSome) (hwaits : t.kernel.store.canRead handle = false)
    {length : UInt16} (hlength : length ≠ 0) (offset buffer : UInt16) :
    readCall handle offset buffer length t = .error .blocked (t.putBack handle) := by
  have hthere : (Storage.pathOf? t.kernel.store handle).isNone = false := Option.isNone_eq_false_iff.mpr hopen
  have hblocks : (decide (length ≠ 0) && !Storage.canRead t.kernel.store handle) = true := by
    rw [show Storage.canRead t.kernel.store handle = false from hwaits, decide_eq_true hlength]
    rfl
  unfold readCall
  rw [ask_bind, hthere, if_neg Bool.false_ne_true, ask_bind, hblocks]
  rfl

/-- Put back on the system call, the process has the snapshot that it had before. -/
theorem putBack_calling (t : Turn Volume) {s : AddressSpace Volume} (hs : t.space.Glimpses s) (handle : Handle) :
    ((t.calling s).putBack handle).self = { t.self with window := s.window } := by
  have hlength : s.dataLength = t.self.state.dataLength := by
    rw [hs.rest]
    rfl
  have hback : t.self.state.reg Reg.ip + UInt16.ofNat 1 - 1 = t.self.state.reg Reg.ip :=
    UInt16.add_sub_cancel _ _
  have hstate : ((t.calling s).putBack handle).self.state =
      { t.self.state with dataLength := s.dataLength } := by
    simp only [putBack, calling, past, setSpace, Snapshot.reg_setReg_self]
    simp only [Snapshot.setReg, Registers.write, Vector.set_set]
    rw [show Snapshot.reg { t.self.state with dataLength := s.dataLength } Reg.ip = t.self.state.reg Reg.ip from rfl,
      hback]
    exact congrArg (fun regs => ({ t.self.state with regs, dataLength := s.dataLength } : Snapshot))
      (Vector.set_getElem_self _)
  rw [hlength] at hstate
  change ({ t.self with state := ((t.calling s).putBack handle).self.state, window := s.window } : Loaded) = _
  rw [hstate]

/-- A process that cannot read yet is put back on its system call. Its turn ends, and it sleeps. -/
theorem step_waits (h : InCustody l t) (hcall : t.call? = some (.read, args)) (hlength : args.d ≠ 0)
    (hopen : (t.kernel.store.pathOf? ⟨args.a⟩).isSome) (hwaits : t.atCall.kernel.store.canRead ⟨args.a⟩ = false)
    (hc : t.kernel.store.behind? t.self.backing = some old) (hroom : Snapshot.blockSize ≤ old.size) :
    ∃ t', step t = .error .blocked t' ∧ t'.self = { t.self with window := t'.self.window } ∧
      t'.kernel.store = t.atCall.kernel.store ∧
      (Kernel.endTurn t' (some .blocked)).Sleeps t.self ⟨args.a⟩ (old.overwrite 0 t.self.state.toBlock.toList) := by
  obtain ⟨hskip, -, -, s, hf⟩ := call?_cases hcall
  obtain ⟨-, hat⟩ := call?_of_fetch hskip hf
  have hs : t.space.Glimpses s := by
    have hkept := AddressSpace.fetch_glimpses (t.self.state.reg Reg.ip) t.space
    rw [after_ok hf] at hkept
    exact hkept
  have hopen' : (t.atCall.kernel.store.pathOf? ⟨args.a⟩).isSome := by
    rw [hat, show (t.calling s).kernel.store = s.store from rfl, hs.pathOf?]
    exact hopen
  have hself := t.putBack_calling hs ⟨args.a⟩
  rw [← hat] at hself
  have hblocked : answer .read args t.atCall = .error .blocked (t.atCall.putBack ⟨args.a⟩) :=
    readCall_waits hopen' hwaits hlength args.b args.c
  have hfile :
      (t.atCall.putBack ⟨args.a⟩).kernel.store.behind? (t.atCall.putBack ⟨args.a⟩).self.backing = some old := by
    rw [hself, ← hc, show (t.atCall.putBack ⟨args.a⟩).kernel.store = s.store by rw [hat]; rfl]
    exact hs.behind? _
  have hended : Kernel.endTurn (t.atCall.putBack ⟨args.a⟩) (some .blocked) =
      (t.atCall.putBack ⟨args.a⟩).kernel.saved (t.atCall.putBack ⟨args.a⟩).self :=
    Kernel.endTurn_of_hasBlock (t := t.atCall.putBack ⟨args.a⟩) ⟨old, hfile, hroom⟩
  refine ⟨t.atCall.putBack ⟨args.a⟩, ?_, by rw [hself], rfl, ?_, ?_⟩
  · rw [(step_call_cases hcall).2.2]
    exact bind_of_error hblocked
  · obtain ⟨p, hp, -, hprogram, hbacking⟩ := h.seated
    have hcounted : (t.kernel.table.addCount t.self.pid).process? t.self.pid =
        some { p with count := p.count + 1 } := Table.process?_modify_self hp
    refine ⟨p.count + 1, ?_⟩
    rw [hended, ← hprogram, ← hbacking, hat]
    exact Table.process?_modify_self hcounted
  · have hsaved := Kernel.saved_behind hfile
    rw [← hended, hself] at hsaved
    exact hsaved

end Turn

/-! ## Reading again -/

namespace AddressSpace

/-- Nothing but the window differs, and the data region is behind the handle. -/
structure Views (data : Handle) (s s' : AddressSpace Volume) : Prop where
  rest : s' = { s with window := s'.window }
  data : s.data = data

theorem writable_views (data : Handle) : Writable (Views data) data where
  handles h := ⟨h.data, by rw [h.rest]; exact h.data⟩
  limit h := by rw [h.rest]
  dataLength h := by rw [h.rest]
  writeFile offset bytes s s' h := by
    rw [h.rest]
    exact ⟨rfl, rfl, h.data⟩
  resizeData length s s' h := by
    rw [h.rest]
    exact ⟨rfl, rfl, h.data⟩
  drawFill count s s' h := by
    rw [h.rest]
    exact ⟨rfl, rfl, h.data⟩
  setLength length s s' h := by
    rw [h.rest]
    exact ⟨rfl, rfl, h.data⟩

/-- A system call that was fetched once is still there to be fetched, with the same window or without one, if it is in
the program file, where it is part of the program, and the data region is as it was. -/
theorem shows_again {s s' s₁ : AddressSpace Volume} {a : UInt16} (hf : fetch a s = .ok .syscall s₁)
    (hwindow : s'.window = s.window ∨ s'.window = Window.closed)
    (hcode : a < dataStart → s'.code?.bind (·[a.toNat]?) = some 0xC1)
    (hdata : (s.store.behind? s.data).isSome) (hdata' : (s'.store.behind? s'.data).isSome)
    (hbytes : ∀ i, s'.dataByte? i = s.dataByte? i) : s'.Shows a 0xC1 := by
  obtain ⟨s₂, hread⟩ := read_of_fetch hf
  unfold AddressSpace.read at hread
  by_cases ha : a < dataStart
  · refine shows_program ha (hcode ha) fun b hb => ?_
    rcases hwindow with he | he <;> rw [he] at hb
    · rw [if_pos ha] at hread
      unfold readProgram at hread
      rw [get_bind, hb] at hread
      cases hread
      rfl
    · rw [Window.byte?_of_empty rfl] at hb
      cases hb
  · rw [if_neg ha, readData_eq hdata, ← hbytes] at hread
    refine shows_data ha hdata' ?_
    cases hb : s'.dataByte? (a.toNat - dataStart.toNat) with
    | none =>
      rw [hb] at hread
      cases hread
    | some b =>
      rw [hb] at hread
      cases hread
      rfl

/-- What is received does not depend on the window. -/
theorem receive_views (data handle : Handle) (offset : Nat) (a : UInt16) (n : Nat) :
    Lockstep (Views data) (receive handle offset a n : Access Volume Nat) (receive handle offset a n) := by
  induction n generalizing offset a with
  | zero => exact .pure _
  | succ n ih =>
    have hread : Lockstep (Views data) (readFile handle offset 1 : Access Volume Bytes) (readFile handle offset 1) := by
      intro s s' h
      rw [h.rest]
      exact ⟨rfl, rfl, h.data⟩
    unfold receive
    refine .bind hread fun bytes => ?_
    split
    · exact .bind ((writable_views data).write a _) fun _ => .bind (ih _ _) fun _ => .pure _
    · exact .pure _

end AddressSpace

namespace Turn

/-- The one process is the other, but for the window and for what of its snapshot comes back from a block. -/
structure Recalls (t t' : Turn Volume) : Prop where
  kernel : t'.kernel = t.kernel
  self : t'.self = { t.self with window := t'.self.window, state := t.self.state.stored }

namespace Recalls

variable {t' : Turn Volume}

theorem state (h : Recalls t t') : t'.self.state = t.self.state.stored := by
  rw [h.self]

theorem space (h : Recalls t t') : AddressSpace.Views t.self.backing t.space t'.space := by
  refine ⟨?_, rfl⟩
  unfold Turn.space
  rw [h.self, h.kernel]
  simp only [Snapshot.stored_dataLength]

theorem setSpace (h : Recalls t t') {s s' : AddressSpace Volume} {data : Handle} (hs : AddressSpace.Views data s s') :
    Recalls (t.setSpace s) (t'.setSpace s') := by
  constructor
  · simp only [Turn.setSpace]
    rw [hs.rest, h.kernel]
  · simp only [Turn.setSpace]
    rw [hs.rest, h.self]
    rfl

/-- A register is set in both. -/
theorem setReg (h : Recalls t t') (r : Reg) (value : UInt16) :
    Recalls { t with self := { t.self with state := t.self.state.setReg r value } }
      { t' with self := { t'.self with state := t'.self.state.setReg r value } } := by
  refine ⟨h.kernel, ?_⟩
  rw [h.self]
  rfl

theorem reg (h : Recalls t t') (r : Reg) : t'.self.state.reg r = t.self.state.reg r := by
  rw [h.state, Snapshot.stored_reg]

theorem pid (h : Recalls t t') : t'.self.pid = t.self.pid := by
  rw [h.self]

theorem past (h : Recalls t t') (length : Nat) : Recalls (t.past length) (t'.past length) := by
  constructor
  · simp only [Turn.past]
    rw [h.kernel, h.pid]
  · simp only [Turn.past]
    rw [h.reg]
    exact (h.setReg Reg.ip _).self

theorem putBack (h : Recalls t t') (handle : Handle) : Recalls (t.putBack handle) (t'.putBack handle) := by
  constructor
  · rw [Turn.putBack, Turn.putBack, h.kernel, h.pid]
  · simp only [Turn.putBack]
    rw [h.reg]
    exact (h.setReg Reg.ip _).self

end Recalls

/-- Reading comes to the same. -/
theorem readCall_recalls (handle : Handle) (offset buffer length : UInt16) :
    Lockstep Recalls (readCall handle offset buffer length : InTurn Volume Reply)
      (readCall handle offset buffer length) := by
  have hreceive : Lockstep Recalls
      (access (AddressSpace.receive handle offset.toNat buffer length.toNat) : Attempt Volume Nat)
      (access (AddressSpace.receive handle offset.toNat buffer length.toNat)) := by
    intro t t' h
    have hagree := AddressSpace.receive_views t.self.backing handle offset.toNat buffer length.toNat _ _ h.space
    unfold access
    cases hr : AddressSpace.receive handle offset.toNat buffer length.toNat t.space with
    | ok count s =>
      rw [hr] at hagree
      obtain ⟨s', hr', hs⟩ := hagree.ok
      rw [hr']
      exact ⟨rfl, h.setSpace hs⟩
    | error f s =>
      rw [hr] at hagree
      obtain ⟨s', hr', hs⟩ := hagree.error
      rw [hr']
      exact ⟨rfl, h.setSpace hs⟩
  unfold readCall
  intro t t' h
  rw [ask_bind, ask_bind, h.kernel]
  split
  · exact ⟨rfl, h⟩
  · rw [ask_bind, ask_bind, h.kernel]
    split
    · exact ⟨rfl, h.putBack handle⟩
    · exact Lockstep.bind (hreceive.adaptExcept TurnEnd.faulted) (fun _ => .pure _) t t' h

theorem Recalls.conclude {t' : Turn Volume} (h : Recalls t t') (reply : Reply) :
    Agree Recalls (Turn.conclude reply t) (Turn.conclude reply t') := by
  cases reply with
  | none => exact ⟨rfl, h⟩
  | some result => exact ⟨rfl, h.setReg Reg.result result⟩

/-- Both have fetched a system call, and see their programs through some windows. -/
theorem Recalls.calling {t' : Turn Volume} (h : Recalls t t') (w w' : Window) :
    Recalls (t.calling { t.space with window := w }) (t'.calling { t'.space with window := w' }) := by
  have hviews : AddressSpace.Views t.self.backing { t.space with window := w } { t'.space with window := w' } := by
    refine ⟨?_, rfl⟩
    rw [h.space.rest]
  have hpast := (h.setSpace hviews).past 1
  have hargs : t'.callArgs = t.callArgs := by simp only [callArgs, h.reg]
  refine ⟨?_, hpast.self⟩
  simp only [Turn.calling]
  rw [hpast.kernel, h.pid, h.reg, hargs]

/-- What they read then comes to the same. -/
theorem Recalls.step_read {t' : Turn Volume} {w w' : Window} (h : Recalls t t')
    (hskip : t.self.state.skip = false)
    (hnumber : Syscall.ofNumber? (t.self.state.reg Reg.result).toNat = some .read)
    (hf : AddressSpace.fetch (t.self.state.reg Reg.ip) t.space = .ok .syscall { t.space with window := w })
    (hf' : AddressSpace.fetch (t'.self.state.reg Reg.ip) t'.space = .ok .syscall { t'.space with window := w' }) :
    t.call? = some (.read, t.callArgs) ∧ t'.call? = some (.read, t.callArgs) ∧ Agree Recalls (step t) (step t') := by
  have hskip' : t'.self.state.skip = false := by rw [h.state, Snapshot.stored_skip, hskip]
  have hargs : t'.callArgs = t.callArgs := by simp only [callArgs, h.reg]
  obtain ⟨hcall, hat⟩ := call?_of_fetch hskip hf
  obtain ⟨hcall', hat'⟩ := call?_of_fetch hskip' hf'
  rw [hnumber, Option.map_some] at hcall
  rw [h.reg, hnumber, hargs, Option.map_some] at hcall'
  refine ⟨hcall, hcall', ?_⟩
  rw [(step_call_cases hcall).2.2, (step_call_cases hcall').2.2, hat, hat']
  exact ((readCall_recalls _ _ _ _).bind fun reply t t' h => h.conclude reply) _ _ (h.calling w w')

/-- A read from a handle that is closed is over at once, and its result is that nothing was read. -/
theorem step_read_closed {w : Window} (hcall : t.call? = some (.read, args))
    (hat : t.atCall = t.calling { t.space with window := w })
    (hclosed : t.kernel.store.pathOf? ⟨args.a⟩ = none) :
    ∃ t', step t = .ok () t' ∧ t'.kernel.store = t.kernel.store ∧
      t'.self.state = (t.self.state.setReg Reg.ip (t.self.state.reg Reg.ip + 1)).setReg Reg.result 0 := by
  have hanswer : answer .read args t.atCall = .ok (some 0) t.atCall :=
    readCall_closed (by rw [hat]; exact hclosed) args.b args.c args.d
  refine ⟨_, (step_call_cases hcall).2.2.trans (bind_of_ok hanswer), ?_⟩
  rw [hat]
  exact ⟨rfl, rfl⟩

/-- What can be read is read without waiting. -/
theorem step_read_ready {w : Window} (hcall : t.call? = some (.read, args))
    (hat : t.atCall = t.calling { t.space with window := w }) (hready : t.kernel.store.canRead ⟨args.a⟩)
    (t' : Turn Volume) : step t ≠ .error .blocked t' := by
  have hopen : (t.atCall.kernel.store.pathOf? ⟨args.a⟩).isSome := by
    rw [hat]
    change (t.kernel.store.pathOf? ⟨args.a⟩).isSome
    unfold Volume.canRead Volume.opened? at hready
    cases hp : t.kernel.store.pathOf? ⟨args.a⟩ with
    | none =>
      rw [hp] at hready
      cases hready
    | some p => rfl
  have hready' : args.d = 0 ∨ t.atCall.kernel.store.canRead ⟨args.a⟩ := .inr (by rw [hat]; exact hready)
  have hanswer := readCall_ready hopen hready' args.b args.c
  have hsame : answer .read args t.atCall = readCall ⟨args.a⟩ args.b args.c args.d t.atCall := rfl
  rw [(step_call_cases hcall).2.2]
  cases hr : AddressSpace.receive ⟨args.a⟩ args.b.toNat args.c args.d.toNat t.atCall.space with
  | ok count s =>
    rw [hr] at hanswer
    rw [bind_of_ok (hsame.trans hanswer)]
    rintro ⟨⟩
  | error f s =>
    rw [hr] at hanswer
    rw [bind_of_error (hsame.trans hanswer)]
    rintro ⟨⟩

end Turn

/-! ## The turn in which a process goes on -/

namespace Kernel

/-- The turn in which a process that slept goes on. -/
def rouse (k : Kernel Volume) (sleeper : Loaded) : Turn Volume where
  kernel := k.onTable (·.setStatus sleeper.pid .active)
  self := { sleeper with
    backingPath := k.backingPath sleeper.pid, state := sleeper.state.stored, window := Window.closed }

/-- The turn of a process that comes to its next instruction only now. -/
def belated (k : Kernel Volume) (self : Loaded) : Turn Volume where
  kernel := k.onTable (·.setStatus self.pid .active)
  self := { self with backingPath := k.backingPath self.pid }

theorem recalls_rouse (k : Kernel Volume) (self : Loaded) : (k.belated self).Recalls (k.rouse self) :=
  ⟨rfl, rfl⟩

namespace Rests

variable {sleeper : Loaded}

theorem openTurn (hroom : Snapshot.blockSize ≤ old.size) (hfew : sleeper.state.env.argCount.toNat ≤ maxArguments)
    (h : k.Rests sleeper handle old) : k.openTurn sleeper.pid .ready = .ok (k.rouse sleeper) := by
  unfold Kernel.openTurn
  rw [h.load hroom hfew]
  rfl

/-- A process that cannot read is passed over. -/
theorem visit_of_holdsBack (h : k.Rests sleeper handle old) (hback : k.holdsBack handle) :
    k.visit sleeper.pid = k := by
  obtain ⟨s, -, hs⟩ := h
  obtain ⟨count, hentry⟩ := hs.entry
  rw [holdsBack, Bool.and_eq_true, Bool.not_eq_true'] at hback
  have hnone := hs.resumption?_eq_none hback.1 hback.2 hentry
  simp only [visit, hentry, hnone, ite_self]

/-- A process that can read, or whose handle is closed, is given a turn. -/
theorem visit (hroom : Snapshot.blockSize ≤ old.size) (hfew : sleeper.state.env.argCount.toNat ≤ maxArguments)
    (h : k.Rests sleeper handle old) (hgoes : k.halted = false) (hback : k.holdsBack handle = false) :
    k.visit sleeper.pid = closeTurn (Turn.steps k.settings.budget.toNat (k.rouse sleeper)) := by
  have hopen := h.openTurn hroom hfew
  obtain ⟨s, -, hs⟩ := h
  obtain ⟨count, hentry⟩ := hs.entry
  have hready : k.resumption? (.waitingToRead handle) = some .ready := by
    have hor : (Storage.canRead k.store handle || (Storage.pathOf? k.store handle).isNone) = true := by
      rw [holdsBack, Bool.and_eq_false_iff, Bool.not_eq_false'] at hback
      rw [Bool.or_eq_true]
      exact hback.symm.imp id Option.isSome_eq_false_iff.mp
    exact if_pos hor
  unfold Kernel.visit
  rw [hgoes, if_neg Bool.false_ne_true, hentry]
  dsimp only
  rw [hready]
  dsimp only
  rw [runTurn_eq, hopen]
  rfl

/-- It does the same call again, and what comes of that is what comes of the call if it is done only then. -/
theorem reads_again (hcall : t.call? = some (.read, args)) (hc : t.kernel.store.behind? t.self.backing = some old)
    (h : k.Rests t.self handle old)
    (hcode : t.self.state.reg Reg.ip < dataStart →
      (k.store.behind? t.self.program).bind (·[(t.self.state.reg Reg.ip).toNat]?) = some 0xC1) :
    (k.belated t.self).call? = some (.read, args) ∧ (k.rouse t.self).call? = some (.read, args) ∧
      Agree Turn.Recalls (Turn.step (k.belated t.self)) (Turn.step (k.rouse t.self)) ∧
      ∃ w, (k.rouse t.self).atCall = (k.rouse t.self).calling { (k.rouse t.self).space with window := w } := by
  obtain ⟨hskip, hnumber, rfl, s, hf⟩ := Turn.call?_cases hcall
  obtain ⟨snapshot, -, hs⟩ := h
  have hdata : (t.space.store.behind? t.space.data).isSome := Option.isSome_iff_exists.mpr ⟨old, hc⟩
  have hbytes (i : Nat) : (k.belated t.self).space.dataByte? i = t.space.dataByte? i := by
    have hbehind : (k.belated t.self).space.store.behind? (k.belated t.self).space.data = _ := hs.file
    have hbehind' : t.space.store.behind? t.space.data = some old := hc
    have hrest : (old.overwrite 0 snapshot.toBlock.toList)[Snapshot.blockSize + i]? = old[Snapshot.blockSize + i]? := by
      rw [Bytes.getElem?_overwrite, Array.length_toList, Snapshot.size_toBlock, if_neg (by omega)]
    unfold AddressSpace.dataByte?
    rw [hbehind, hbehind', Option.bind_some, Option.bind_some, hrest]
    rfl
  have hdata' : ((k.belated t.self).space.store.behind? (k.belated t.self).space.data).isSome :=
    Option.isSome_iff_exists.mpr ⟨_, hs.file⟩
  have hlater : (k.rouse t.self).space =
      { (k.belated t.self).space with window := Window.closed } := (recalls_rouse k t.self).space.rest
  have hshows : (k.belated t.self).space.Shows (t.self.state.reg Reg.ip) 0xC1 :=
    AddressSpace.shows_again hf (.inl rfl) hcode hdata hdata' hbytes
  have hshows' : (k.rouse t.self).space.Shows (t.self.state.reg Reg.ip) 0xC1 := by
    rw [hlater]
    exact AddressSpace.shows_again hf (.inr rfl) hcode hdata hdata' hbytes
  obtain ⟨w, hw⟩ := hshows.fetch
  obtain ⟨w', hw'⟩ := hshows'.fetch
  have hskip' : (k.rouse t.self).self.state.skip = false := (Snapshot.stored_skip t.self.state).trans hskip
  have hip : (k.rouse t.self).self.state.reg Reg.ip = t.self.state.reg Reg.ip := (recalls_rouse k t.self).reg Reg.ip
  rw [← hip] at hw'
  obtain ⟨hdirect, hagain, hagree⟩ := (recalls_rouse k t.self).step_read hskip hnumber hw hw'
  exact ⟨hdirect, hagain, hagree, w', (Turn.call?_of_fetch hskip' hw').2⟩

end Rests

end Kernel

end CoopKernel
