import CoopKernel.Proofs.Delivery
import CoopKernel.Proofs.Loading

/-!
# Going on after a signal

A handler is entered like a procedure: it returns by popping the instruction pointer. A process whose
handler restores the registers and returns goes on exactly where it was taken out, but for a pending
skip. The flag for that is left set when the process is sent into its handler, so that it hits the first
instruction of the handler, and it is gone when the handler returns.
-/

namespace CoopKernel

/-- The part of a snapshot that decides what a process does next: the registers, and whether the next
instruction is discarded. -/
def Snapshot.control (s : Snapshot) : Registers × Bool := (s.regs, s.skip)

@[simp]
theorem Snapshot.stored_control (s : Snapshot) : s.stored.control = s.control := by
  simp only [control, stored_regs, stored_skip]

theorem Registers.ext {regs regs' : Registers} (h : ∀ r, regs.read r = regs'.read r) :
    regs = regs' :=
  Vector.ext fun i hi => h ⟨i, hi⟩

namespace Turn

/-- The instruction pointer can be pushed. -/
def pushes (t : Turn Volume) : Bool :=
  match t.pushIp with
  | .ok .. => true
  | .error .. => false

/-! ## Popping the instruction pointer -/

/-- Only the instruction pointer moved, and the data region is the same. -/
structure Fetched (t t' : Turn Volume) : Prop where
  regs : ∀ r, r ≠ Reg.ip → t'.self.state.reg r = t.self.state.reg r
  skip : t'.self.state.skip = t.self.state.skip
  data : AddressSpace.SameData t.space t'.space

instance : IsPreorder (Turn Volume) Fetched where
  refl _ := ⟨fun _ _ => rfl, rfl, refl_of AddressSpace.SameData _⟩
  trans _ _ _ h₁ h₂ := ⟨fun r hr => (h₂.regs r hr).trans (h₁.regs r hr), h₂.skip.trans h₁.skip,
    trans_of AddressSpace.SameData h₁.data h₂.data⟩

theorem fetch_fetched : Keeps Fetched (fetch : Attempt Volume Instr) := by
  unfold fetch
  refine .bind .get fun t => .bind ?_ fun instr => .bind ?_ fun _ => .bind ?_ fun _ => .pure _
  · refine access_keeps (AddressSpace.fetch_sameData _) fun t s hs => ⟨fun _ _ => rfl, rfl, ?_⟩
    have hcontent := hs.content
    rw [hs.data] at hcontent
    exact ⟨rfl, hs.length, hcontent⟩
  · exact .modify fun t => ⟨fun r hr => Snapshot.reg_setReg_of_ne _ _ hr.symm, rfl,
      refl_of AddressSpace.SameData t.space⟩
  · exact .modify fun t => ⟨fun _ _ => rfl, rfl, refl_of AddressSpace.SameData t.space⟩

/-- The turn after one register changed. -/
def withReg (t : Turn Volume) (r : Reg) (value : UInt16) : Turn Volume :=
  { t with self := { t.self with state := t.self.state.setReg r value } }

theorem execute_loadWord {t : Turn Volume} {dst addr : Reg} {w : UInt16}
    (hfile : (t.space.store.behind? t.space.data).isSome)
    (hw : t.space.word? (t.self.state.reg addr) = some w) :
    execute (.loadWord dst addr) t = .ok () (t.withReg dst w) := by
  have hread : access (AddressSpace.readWord (t.self.state.reg addr)) t = .ok w t := by
    simp only [access, AddressSpace.readWord_of_word hfile hw]
    rfl
  have hload : executeOther (.loadWord dst addr) t = .ok () (t.withReg dst w) := by
    unfold executeOther
    rw [get_bind]
    dsimp only
    rw [bind_of_ok hread]
    rfl
  exact lift_ok hload

/-- The next two instructions pop the instruction pointer. -/
def Pops (u : Turn Volume) : Prop :=
  ∃ u₁ u₂ u₃, fetch u = .ok (.dec Reg.stack ⟨2, by decide, by decide⟩) u₁ ∧
    step u = .ok () u₂ ∧ fetch u₂ = .ok (.loadWord Reg.ip Reg.stack) u₃

/-- Popping the instruction pointer takes two steps and goes on at what the stack pointer was moved back
to. -/
theorem steps_of_pops {u : Turn Volume} {w : UInt16} (h : u.Pops) (hs : u.self.state.skip = false)
    (hfile : (u.space.store.behind? u.space.data).isSome)
    (hw : u.space.word? (u.self.state.reg Reg.stack - 2) = some w) :
    ∃ u', steps 2 u = .ok () u' ∧ u'.self.state.skip = false ∧ u'.self.state.reg Reg.ip = w ∧
      u'.self.state.reg Reg.stack = u.self.state.reg Reg.stack - 2 ∧
      ∀ r, r ≠ Reg.ip → r ≠ Reg.stack → u'.self.state.reg r = u.self.state.reg r := by
  obtain ⟨u₁, u₂, u₃, hf₁, hstep₁, hf₂⟩ := h
  have hfetched₁ := fetch_fetched u
  rw [after_ok hf₁] at hfetched₁
  -- The first step moves the stack pointer back.
  have hdec : step u = .ok () (u₁.withReg Reg.stack (u₁.self.state.reg Reg.stack - 2)) :=
    step_of_fetch hs hf₁
  have hu₂ : u₂ = u₁.withReg Reg.stack (u₁.self.state.reg Reg.stack - 2) := by
    rw [hstep₁] at hdec
    cases hdec
    rfl
  have hstack₂ : u₂.self.state.reg Reg.stack = u.self.state.reg Reg.stack - 2 := by
    rw [hu₂, withReg, Snapshot.reg_setReg_self, hfetched₁.regs _ (by decide)]
  have hskip₂ : u₂.self.state.skip = false := by
    rw [hu₂]
    exact hfetched₁.skip.trans hs
  have hdata₂ : AddressSpace.SameData u.space u₂.space := by
    rw [hu₂]
    exact hfetched₁.data
  -- The second reads the word there.
  have hfetched₂ := fetch_fetched u₂
  rw [after_ok hf₂] at hfetched₂
  have hdata : AddressSpace.SameData u.space u₃.space :=
    trans_of AddressSpace.SameData hdata₂ hfetched₂.data
  have hstack₃ : u₃.self.state.reg Reg.stack = u.self.state.reg Reg.stack - 2 := by
    rw [hfetched₂.regs _ (by decide), hstack₂]
  have hload : step u₂ = .ok () (u₃.withReg Reg.ip w) := by
    rw [step_of_fetch hskip₂ hf₂]
    refine execute_loadWord ?_ ?_
    · rw [hdata.content]
      exact hfile
    · rw [hstack₃, hdata.word?]
      exact hw
  refine ⟨u₃.withReg Reg.ip w, ?_, hfetched₂.skip.trans hskip₂, Snapshot.reg_setReg_self _ _ _, ?_,
    ?_⟩
  · simp only [steps]
    rw [bind_of_ok hstep₁, bind_of_ok hload]
    rfl
  · rw [withReg, Snapshot.reg_setReg_of_ne _ _ (by decide), hstack₃]
  · intro r hip hsp
    rw [withReg, Snapshot.reg_setReg_of_ne _ _ hip.symm, hfetched₂.regs _ hip, hu₂, withReg,
      Snapshot.reg_setReg_of_ne _ _ hsp.symm, hfetched₁.regs _ hip]

end Turn

/-! ## Delivery -/

variable {k : Kernel Volume} {q : Pid} {signal : Signal} {p : Process} {t : Turn Volume}

/-- A process has a handler for a signal and can be sent into it: it is loaded as it stands in the turn
`t`, and its instruction pointer can be pushed. -/
structure Deliverable (k : Kernel Volume) (q : Pid) (signal : Signal) (p : Process)
    (t : Turn Volume) : Prop where
  process : k.table.process? q = some p
  loads : k.openTurn q .ready = .ok t
  file : (k.store.behind? p.backing).isSome
  handler : t.self.state.handler signal ≠ 0
  pushes : (t.interrupted p.status).pushes

/-- A handler that was entered in the turn `t` is about to return in the turn `u`: it restored the
registers, and the instruction pointer that was pushed still stands on the stack. -/
structure Restored (t u : Turn Volume) : Prop where
  regs : ∀ r, r ≠ Reg.ip → u.self.state.reg r = t.self.state.reg r
  skip : u.self.state.skip = false
  pushed : u.space.word? (t.self.state.reg Reg.stack - 2) =
    t.space.word? (t.self.state.reg Reg.stack - 2)

/-- A signal sends a process into its handler, at the first instruction, and a handler that restores the
registers and returns has the process go on where it was, with its wait interrupted. -/
def Resumes (k : Kernel Volume) (q : Pid) (signal : Signal) (p : Process) (t : Turn Volume) : Prop :=
  ∃ t', (k.sendSignal q signal).2.openTurn q .ready = .ok t' ∧
    t'.self.state.reg Reg.ip = t.self.state.handler signal ∧ t'.self.state.skip = false ∧
    ∀ u, Restored t' u → u.Pops → ∃ u', Turn.steps 2 u = .ok () u' ∧
      u'.self.state.control = (t.self.state.interrupt p.status).control

/-- A process with a handler is loaded as its backing file says. -/
theorem Deliverable.load (h : Deliverable k q signal p t) :
    ∃ self, t = ⟨k.onTable (·.setStatus q .active), self⟩ ∧ k.load q = (.ok self, k) ∧ self.pid = q ∧
      self.backing = p.backing ∧ self.state.env.argCount.toNat ≤ maxArguments ∧ t.space.HasBlock := by
  obtain ⟨content, hc⟩ := Option.isSome_iff_exists.mp h.file
  obtain ⟨kernel, self⟩ := t
  obtain ⟨k₁, hl, rfl⟩ := Kernel.openTurn_ready h.loads
  obtain ⟨p', hp', hself⟩ := Kernel.load_ok hl
  obtain rfl : p' = p := Option.some.inj (hp'.symm.trans h.process)
  have hbacking : self.backing = p'.backing := congrArg Loaded.backing hself
  have hsize := Kernel.size_of_load hl (by rw [hbacking]; exact hc)
  have hload := Kernel.load_eq hp' hc hsize
  rw [hl] at hload
  obtain ⟨hstate, rfl⟩ := Prod.mk.inj hload
  cases hblock : Snapshot.ofBlock (content.slice 0 Snapshot.blockSize) with
  | error f =>
    rw [hblock] at hstate
    cases hstate
  | ok state =>
    rw [hblock] at hstate
    cases hstate
    exact ⟨_, rfl, hl, rfl, rfl, Snapshot.argCount_of_ofBlock hblock, content, hc, hsize⟩

/-- What was pushed is on the stack. -/
theorem Turn.pushIp_ok {t : Turn Volume} {u : Unit} {s : AddressSpace Volume}
    (hblock : t.space.HasBlock) (h : t.pushIp = .ok u s) :
    s.HasBlock ∧ s.data = t.self.backing ∧
      s.word? (t.self.state.reg Reg.stack) = some (t.self.state.reg Reg.ip) := by
  have hwritten := AddressSpace.writeWord_ensures t.space (t.self.state.reg Reg.stack)
    (t.self.state.reg Reg.ip) hblock.file t.space rfl
  have hquiet : AddressSpace.Quiet t.space (after (AddressSpace.writeWord (t.self.state.reg Reg.stack)
      (t.self.state.reg Reg.ip)) t.space) :=
    AddressSpace.writeBytes_quiet _ _ t.space
  have hpush : AddressSpace.writeWord (t.self.state.reg Reg.stack) (t.self.state.reg Reg.ip) t.space =
    .ok u s := h
  rw [hpush] at hwritten
  rw [after_ok hpush] at hquiet
  exact ⟨hwritten.1.block hblock, by rw [hquiet.rest]; rfl, hwritten.2⟩

/-- The process is sent into its handler, with the instruction pointer pushed and the skip flag as it
was. -/
theorem Deliverable.entered (h : Deliverable k q signal p t) :
    ∃ self t₁, k.load q = (.ok self, k) ∧ Turn.deliver signal ⟨k, self⟩ = .ok true t₁ ∧
      t₁.self.pid = q ∧ t₁.self.backing = p.backing ∧
      t₁.kernel.table = k.table.setStatus q .active ∧
      t₁.self.state.env.argCount.toNat ≤ maxArguments ∧ t₁.space.HasBlock ∧
      t₁.self.state.control = ((t.self.state.interrupt p.status).entered
        (t.self.state.handler signal)).control ∧
      t₁.space.word? ((t.self.state.interrupt p.status).reg Reg.stack) =
        some ((t.self.state.interrupt p.status).reg Reg.ip) := by
  obtain ⟨self, rfl, hload, rfl, hbacking, hargs, hblock⟩ := h.load
  have hpushes := h.pushes
  unfold Turn.pushes at hpushes
  split at hpushes
  · next u s hpush =>
    have hpush : (Turn.interrupted ⟨k, self⟩ p.status).pushIp = .ok u s := hpush
    obtain ⟨⟨content, hc, hsize⟩, hdata, hword⟩ :=
      Turn.pushIp_ok (t := Turn.interrupted ⟨k, self⟩ p.status) hblock hpush
    have hdeliver := Turn.deliver_of_some (t := ⟨k, self⟩) h.process h.handler
    rw [hpush] at hdeliver
    rw [hdata] at hc
    refine ⟨self, _, hload, hdeliver, rfl, hbacking, rfl, ?_, ⟨content, hc, hsize⟩, rfl, ?_⟩
    · exact (self.state.interrupt_env p.status).symm ▸ hargs
    · refine (AddressSpace.word?_congr (fun i => ?_) _).trans hword
      unfold AddressSpace.dataByte?
      rw [hdata]
      rfl
  · cases hpushes

/-- What the delivery of a signal comes to: the process starts its next turn in its handler, with the
old instruction pointer pushed and the skip flag as it was. -/
theorem Deliverable.next_turn (h : Deliverable k q signal p t) :
    ∃ k' t', k.sendSignal q signal = (true, k') ∧
      k'.table.process? q = some { p with status := .active } ∧ k'.openTurn q .ready = .ok t' ∧
      (∀ r, t'.self.state.reg r = ((t.self.state.interrupt p.status).entered
        (t.self.state.handler signal)).reg r) ∧
      t'.self.state.skip = t.self.state.skip ∧
      t'.space.word? ((t.self.state.interrupt p.status).reg Reg.stack) =
        some ((t.self.state.interrupt p.status).reg Reg.ip) := by
  obtain ⟨self, t₁, hload, hdeliver, rfl, hbacking, htable, hargs, ⟨content, hc, hsize⟩, hcontrol,
    hword⟩ := h.entered
  have hp : t₁.kernel.table.process? t₁.self.pid = some { p with status := .active } := by
    rw [htable]
    exact Table.process?_modify_self h.process
  have hlive : k.table.isLive t₁.self.pid := by
    rw [Table.isLive, h.process]
    rfl
  have hsave := Kernel.save_eq hc hsize
  have hturn := Kernel.saved_turn hp hbacking hc hsize hargs
  obtain ⟨hregs, hskip⟩ := Prod.mk.inj ((Snapshot.stored_control _).trans hcontrol)
  refine ⟨t₁.kernel.saved t₁.self, _, ?_, hp, hturn, ?_, ?_, ?_⟩
  · unfold Kernel.sendSignal Kernel.withLoaded
    rw [if_pos hlive, hload]
    dsimp only
    rw [hdeliver]
    dsimp only
    rw [hsave]
    rfl
  · exact fun r => congrArg (Registers.read · r) hregs
  · exact hskip.trans (t.self.state.interrupt_skip p.status)
  · refine (AddressSpace.word?_congr (fun i => ?_) _).trans hword
    have hdata := Kernel.saved_data hc i
    rw [hbacking] at hdata
    simp only [AddressSpace.dataByte?, Turn.space, Snapshot.stored_dataLength, hbacking]
    exact if_congr Iff.rfl hdata rfl

/-- A signal that can be delivered is, and the process that gets it runs; it goes on where it was, as
soon as its handler returns, exactly if it was not about to discard an instruction. -/
theorem resumes_iff_no_pending_skip (h : Deliverable k q signal p t) :
    (k.sendSignal q signal).1 = true ∧
      (k.sendSignal q signal).2.table.process? q = some { p with status := .active } ∧
      (Resumes k q signal p t ↔ t.self.state.skip = false) := by
  obtain ⟨k', t', hsend, hprocess, hturn, hreg, hskip, hword⟩ := h.next_turn
  rw [hsend]
  refine ⟨rfl, hprocess, ?_⟩
  unfold Resumes
  rw [hsend]
  constructor
  · rintro ⟨t'', hturn', _, hskip', _⟩
    obtain rfl : t'' = t' := Except.ok.inj (hturn'.symm.trans hturn)
    rw [← hskip, hskip']
  · intro hpending
    refine ⟨t', hturn, (hreg Reg.ip).trans (Snapshot.entered_ip _ _), hskip.trans hpending,
      ?_⟩
    intro u hu hpops
    have hstack : t'.self.state.reg Reg.stack =
        (t.self.state.interrupt p.status).reg Reg.stack + 2 :=
      (hreg Reg.stack).trans (Snapshot.entered_stack _ _)
    have hback : u.self.state.reg Reg.stack - 2 = (t.self.state.interrupt p.status).reg Reg.stack := by
      rw [hu.regs _ (by decide), hstack, UInt16.add_sub_cancel]
    have hpushed : u.space.word? (u.self.state.reg Reg.stack - 2) =
        some ((t.self.state.interrupt p.status).reg Reg.ip) := by
      have hsame := hu.pushed
      rw [hstack, UInt16.add_sub_cancel, hword] at hsame
      rw [hback, hsame]
    obtain ⟨u', hsteps, hskip', hip', hstack', hrest'⟩ :=
      Turn.steps_of_pops hpops hu.skip (AddressSpace.file_of_word hpushed) hpushed
    refine ⟨u', hsteps, Prod.ext (Registers.ext ?_) ?_⟩
    · intro r
      by_cases hip : r = Reg.ip
      · rw [hip]
        exact hip'
      · by_cases hsp : r = Reg.stack
        · rw [hsp]
          exact hstack'.trans hback
        · exact ((hrest' r hip hsp).trans (hu.regs r hip)).trans
            ((hreg r).trans (Snapshot.entered_reg _ _ (Ne.symm hsp) (Ne.symm hip)))
    · exact hskip'.trans (hpending.symm.trans (t.self.state.interrupt_skip p.status).symm)

/-! ## A signal between a skip and what it discards -/

/-- The process and the turn that a signal can be delivered with, if it can. -/
def deliverable? (k : Kernel Volume) (q : Pid) (signal : Signal) : Option (Process × Turn Volume) :=
  match k.table.process? q, k.openTurn q .ready with
  | some p, .ok t =>
    if (k.store.behind? p.backing).isSome ∧ t.self.state.handler signal ≠ 0 ∧
        (t.interrupted p.status).pushes then some (p, t) else none
  | _, _ => none

theorem deliverable_of_some (h : deliverable? k q signal = some (p, t)) :
    Deliverable k q signal p t := by
  unfold deliverable? at h
  split at h
  · next p' t' hp ht =>
    split at h
    · next hall =>
      cases h
      exact ⟨hp, ht, hall.1, hall.2.1, hall.2.2⟩
    · cases h
  · cases h

/-- A program that sets a handler and skips an instruction before it exits. The handler adds to a register
and takes off again what it added. -/
def skippingProgram : Bytes :=
  #[0xDE, 0x80, 0x00, 0xD8, 0x04, 0x00, 0xD1, 0x01, 0xDA, 0x00, 0x19, 0xC1, 0xD4, 0x01, 0xC0, 0xF7, 0x00,
    0xD5, 0x01, 0xD8, 0x00, 0x00, 0xE0, 0x6B, 0xC1, 0xFC, 0xC6, 0xFE, 0xC6, 0xFF, 0x81, 0xFB, 0xF0]

/-- The kernel after the first turn of the program. With a budget of 8 it ends behind the skip, and with
a smaller one before. -/
def afterFirstTurn (budget : UInt8) : Kernel Volume :=
  let v := ((Volume.empty.addFile (Path.ofText "/bin/init") skippingProgram).2.mkdir
    (Path.ofText "/tmp")).2
  ((Kernel.new v { budget }).spawn "/bin/init").2.tick

/-- A signal that comes between the skip and the instruction to be discarded is delivered, but the process
does not start in its handler with the first instruction. -/
theorem handler_begins_with_pending_skip :
    ∃ p t, Deliverable (afterFirstTurn 8) 0 .user1 p t ∧
      ¬Resumes (afterFirstTurn 8) 0 .user1 p t := by
  have hsome : ((deliverable? (afterFirstTurn 8) 0 .user1).filter
      fun x => x.2.self.state.skip).isSome := by decide +kernel
  obtain ⟨⟨p, t⟩, hpt⟩ := Option.isSome_iff_exists.mp hsome
  obtain ⟨hpt, hpending⟩ := Option.filter_eq_some_iff.mp hpt
  have hdeliverable := deliverable_of_some hpt
  refine ⟨p, t, hdeliverable, ?_⟩
  rintro ⟨t', hturn, _, hskip, _⟩
  obtain ⟨_, _, hsend, _, hturn', _, hskip', _⟩ := hdeliverable.next_turn
  rw [hsend, hturn'] at hturn
  cases hturn
  rw [hskip, hpending] at hskip'
  exact Bool.false_ne_true hskip'

/-- A signal that comes before the skip is delivered, and the process goes on where it was. -/
theorem resumes_before_skip :
    ∃ p t, Deliverable (afterFirstTurn 7) 0 .user1 p t ∧ t.self.state.skip = false ∧
      ((afterFirstTurn 7).sendSignal 0 .user1).1 = true ∧
      ((afterFirstTurn 7).sendSignal 0 .user1).2.table.process? 0 =
        some { p with status := .active } ∧
      Resumes (afterFirstTurn 7) 0 .user1 p t := by
  have hsome : ((deliverable? (afterFirstTurn 7) 0 .user1).filter
      fun x => !x.2.self.state.skip).isSome := by decide +kernel
  obtain ⟨⟨p, t⟩, hpt⟩ := Option.isSome_iff_exists.mp hsome
  obtain ⟨hpt, hskip⟩ := Option.filter_eq_some_iff.mp hpt
  have hskip : t.self.state.skip = false := (Bool.not_eq_true' _).mp hskip
  have hdeliverable := deliverable_of_some hpt
  obtain ⟨hsent, hactive, hiff⟩ := resumes_iff_no_pending_skip hdeliverable
  exact ⟨p, t, hdeliverable, hskip, hsent, hactive, hiff.mpr hskip⟩

end CoopKernel
