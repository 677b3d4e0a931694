import CoopKernel.Proofs.Backing.Loaded

/-!
# Backing files when processes end

A process that ends takes its own backing file with it and no other. Those who are woken by that have proper
files, so that nobody dies in turn. A process that faults while it is worked on ends in the same way.
-/

namespace CoopKernel

open Volume (Spares)

namespace Demands

/-- Something is demanded of everybody. -/
def Total (D : Demands) : Prop :=
  ∀ pid, ∃ P, D pid = some P

theorem strict_total : strict.Total :=
  fun _ => ⟨Proper, rfl⟩

theorem Total.set {D : Demands} (h : D.Total) (pid : Pid) (P : Bytes → Prop) :
    (D.set pid (some P)).Total := by
  intro q
  by_cases hq : q = pid
  · subst hq
    exact ⟨P, D.set_self q _⟩
  · rw [D.set_of_ne hq]
    exact h q

end Demands

namespace Sound

variable {D : Demands} {k : Kernel Volume} {pid : Pid} {p : Process}

/-! ## Waking -/

/-- A process with a proper file is woken without fail. -/
theorem wake (h : Sound D k) (hp : k.table.process? pid = some p) (hD : D pid = some Proper)
    (onFault : Kernel Volume → Pid → Fault → Kernel Volume) (result : UInt16) :
    Sound D (k.wake onFault pid result) ∧
      ∀ q, (k.wake onFault pid result).table.isLive q = k.table.isLive q := by
  obtain ⟨self, hload, rfl, htended⟩ := h.load hp hD
  let self' : Loaded := { self with state := self.state.setReg Reg.result result }
  have htended' : Turn.Tended D ⟨k, self'⟩ := htended.within rfl rfl htended.neat
  obtain ⟨hsave, hsaved⟩ := htended'.save hD
  have hwake : k.wake onFault self.pid result =
      ((k.saved self').note (.woken self.pid result)).onTable (·.setStatus self.pid .active) := by
    have hact : (Turn.modifyState (·.setReg Reg.result result) : Attempt Volume Unit) ⟨k, self⟩ =
        .ok () ⟨k, self'⟩ := rfl
    simp only [Kernel.wake, Kernel.withLoaded, hload, hact, hsave]
  have hnoted : Sound D ((k.saved self').note (.woken self.pid result)) := hsaved.note fun _ => nofun
  rw [hwake]
  refine ⟨hnoted.setActive self.pid, fun q => ?_⟩
  rw [Table.isLive, Table.isLive]
  dsimp only [Kernel.onTable, Kernel.note, Kernel.saved, Table.setStatus]
  rw [Table.process?_modify]
  split
  · rw [Option.isSome_map]
  · rfl

/-- So are some, one after the other. -/
theorem wakeAll (h : Sound D k) {pids : List Pid}
    (hpids : ∀ q ∈ pids, k.table.isLive q ∧ D q = some Proper)
    (onFault : Kernel Volume → Pid → Fault → Kernel Volume) (result : UInt16) :
    Sound D (pids.foldl (fun k q => k.wake onFault q result) k) := by
  induction pids generalizing k with
  | nil => exact h
  | cons q pids ih =>
    obtain ⟨hlive, hD⟩ := hpids q List.mem_cons_self
    obtain ⟨p, hp⟩ := Table.isLive_iff.mp hlive
    obtain ⟨hwoken, hsame⟩ := h.wake hp hD onFault result
    refine ih hwoken fun r hr => ?_
    rw [hsame]
    exact hpids r (List.mem_cons_of_mem q hr)

/-! ## Ending -/

/-- A program can be released by a process of which nothing is demanded. -/
theorem released (h : Sound (D.set pid none) k) (program : Handle) :
    Sound (D.set pid none) (k.releaseProgram pid program) := by
  unfold Kernel.releaseProgram
  split
  · exact h
  · next hunused =>
    refine h.closed fun {q r P} hr hP he => hunused (Table.usedByOther_iff.mpr ?_)
    have hne : q ≠ pid := by
      rintro rfl
      rw [Demands.set_self] at hP
      cases hP
    exact ⟨q, r, hne, hr, .inr he.symm⟩

/-- Nobody else has the backing file of the process. -/
theorem backing_ne (h : Sound (D.set pid none) k) (hp : k.table.process? pid = some p) {q : Pid}
    {r : Process} {P : Bytes → Prop} (hr : k.table.process? q = some r)
    (hP : D.set pid none q = some P) : p.backing ≠ r.backing := by
  intro he
  have hhome := h.home hp (he ▸ (h.kept hr hP).path)
  rw [Kernel.backingPath_inj hhome, Demands.set_self] at hP
  cases hP

/-- A process is taken out of the table with its own file. -/
theorem bury (h : Sound (D.set pid none) k) (hp : k.table.process? pid = some p) (status : UInt16) :
    Sound D (k.bury pid p status) := by
  have hreleased := (h.vacated pid status).released p.program
  have htable : ((k.onTable (·.vacate pid status)).releaseProgram pid p.program).table =
      k.table.vacate pid status := by
    unfold Kernel.releaseProgram
    split <;> rfl
  have hclosed := hreleased.closed (g := p.backing) fun {q r P} hr hP => by
    rw [htable] at hr
    exact h.backing_ne hp (Table.process?_vacate_cases hr).2 hP
  have hburied : Sound (D.set pid none) (k.bury pid p status) := by
    unfold Kernel.bury
    exact (hclosed.deleted _).note fun _ => nofun
  refine hburied.of_set_none fun hq => ?_
  rw [Kernel.bury_table, Table.process?_vacate, if_pos rfl] at hq
  cases hq

/-- A process ends, whatever is the matter with its file. -/
theorem killWithin (h : Sound (D.set pid none) k) (hD : D.Total) (depth : Nat) (status : UInt16) :
    Sound D (Kernel.killWithin (depth + 1) k pid status) := by
  unfold Kernel.killWithin
  cases hp : k.table.process? pid with
  | none =>
    refine h.of_set_none fun hq => ?_
    rw [hp] at hq
    cases hq
  | some p =>
    refine (h.bury hp status).wakeAll ?_ _ _
    intro q hq
    obtain ⟨r, deadline, hr, hwaits⟩ := Table.mem_waitersFor.mp hq
    refine ⟨Table.isLive_iff.mpr ⟨r, hr⟩, ?_⟩
    rw [Kernel.bury_table] at hr
    obtain ⟨hne, hr⟩ := Table.process?_vacate_cases hr
    obtain ⟨P, hP⟩ := hD q
    rcases h.rousable hr ((D.set_of_ne hne none).trans hP) with rfl | hactive
    · exact hP
    · rw [hwaits] at hactive
      cases hactive

theorem kill (h : Sound (D.set pid none) k) (hD : D.Total) (status : UInt16) :
    Sound D (k.kill pid status).2 :=
  h.killWithin hD 15 status

theorem fault (h : Sound (D.set pid none) k) (hD : D.Total) {f : Fault} (hf : f ≠ .corruptState) :
    Sound D (k.fault pid f) := by
  refine Sound.kill (h.note fun q he => hf ?_) hD exitFault
  cases he
  rfl

/-! ## Working on a process -/

/-- A process is worked on, and ends if the work faults. -/
theorem withLoaded {α : Type} {act : Attempt Volume α} (h : Sound D k) (hD : D.Total)
    (hp : k.table.process? pid = some p) (hpid : D pid = some Proper)
    (hact : Works (Stays (Turn.Tended D)) (· ≠ .corruptState) act) (hsettled : Keeps Turn.Settled act) :
    Sound D (k.withLoaded Kernel.fault pid act).2 := by
  obtain ⟨self, hload, rfl, htended⟩ := h.load hp hpid
  have hwork := hact ⟨k, self⟩
  have hself := (hsettled ⟨k, self⟩).self
  simp only [Kernel.withLoaded, hload]
  cases ha : act ⟨k, self⟩ with
  | error f t =>
    rw [ha] at hwork
    rw [after_error ha] at hself
    have hsound := (hwork.2 htended).sound
    rw [hself] at hsound
    exact hsound.fault hD hwork.1
  | ok a t =>
    rw [ha] at hwork
    rw [after_ok ha] at hself
    have htended' : t.Tended D := hwork htended
    have hpid' : D t.self.pid = some Proper := by
      rw [hself]
      exact hpid
    obtain ⟨hsave, hsaved⟩ := htended'.save hpid'
    simp only [hsave]
    exact hsaved

end Sound

namespace Turn.Tended

variable {D : Demands}

theorem deliver (D : Demands) (signal : Signal) :
    Works (Stays (Turn.Tended D)) (· ≠ .corruptState) (Turn.deliver signal : Attempt Volume Bool) := by
  have d := domestic D
  have hrest (pid : Pid) (handler : UInt16) : Works (Stays (Turn.Tended D)) (· ≠ .corruptState) (do
      modifyKernel (·.onTable (·.setStatus pid .active))
      let state := (← get).self.state
      let sp := state.reg Reg.stack
      access (AddressSpace.writeWord sp (state.reg Reg.ip))
      modifyState fun s => (s.setReg Reg.stack (sp + 2)).setReg Reg.ip handler
      Turn.note (.signalled pid signal handler)
      return true : Attempt Volume Bool) := by
    refine .bind (.modify fun t h => h.modified pid fun _ => ⟨rfl, .inr (.inl rfl)⟩) fun _ => ?_
    refine .bind .get fun t => .bind (d.access (d.memory.writeBytes _ _)) fun _ => ?_
    refine .bind (d.modifyState fun _ => ⟨rfl, rfl, rfl⟩) fun _ => ?_
    exact .bind (.modify fun t h => h.note fun _ => nofun) fun _ => .pure _
  unfold Turn.deliver
  refine .bind .get fun t => ?_
  dsimp only
  split
  · exact .pure _
  · split
    · refine .bind (d.modifyState fun s => ?_) fun _ => hrest _ _
      unfold Snapshot.interrupt
      split <;> exact ⟨rfl, rfl, rfl⟩
    · exact hrest _ _

theorem lastWords (D : Demands) :
    Works (Stays (Turn.Tended D)) (· ≠ .corruptState) (Turn.lastWords : Attempt Volume Bool) := by
  unfold Turn.lastWords
  refine .bind (deliver D .suicide) fun handled => ?_
  split
  · exact .bind (.modify fun t => (domestic D).handler t .suicide 0 trivial) fun _ => .pure _
  · exact .pure _

end Turn.Tended

namespace Sound

variable {D : Demands} {k : Kernel Volume}

theorem sendSignal (h : Sound D k) (hD : D.Total) {pid : Pid} (hpid : D pid = some Proper)
    (signal : Signal) : Sound D (k.sendSignal pid signal).2 := by
  unfold Kernel.sendSignal
  split
  · next hlive =>
    obtain ⟨p, hp⟩ := Table.isLive_iff.mp hlive
    exact h.withLoaded hD hp hpid (Turn.Tended.deliver D signal)
      fun t => ((Turn.deliver_composed signal).keeps t).toSettled
  · exact h

end Sound

end CoopKernel
