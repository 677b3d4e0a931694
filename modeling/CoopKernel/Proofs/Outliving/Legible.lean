import CoopKernel.Proofs.Outliving.Lasting
import CoopKernel.Proofs.Signals
import CoopKernel.Proofs.Waiting.Step

/-!
# Processes that can be loaded

A process is legible if it is alive and its backing file begins with a block that can be read. It is loaded
then, and can be woken without fail, so that it outlives whatever becomes of others: no cascade that begins with
another process gets it, and it is legible afterwards. A signal is survived, too, with one exception: the process
has a handler for it, but its instruction pointer cannot be pushed where its stack is.
-/

namespace CoopKernel

variable {l : Ledger} {k k' : Kernel Volume} {pid q : Pid} {p : Process} {self : Loaded}

namespace Kernel

/-- A process is alive, and its backing file begins with a block that can be read. -/
def Legible (k : Kernel Volume) (q : Pid) : Prop :=
  ∃ p content snapshot, k.table.process? q = some p ∧ k.store.behind? p.backing = some content ∧
    Snapshot.blockSize ≤ content.size ∧ Snapshot.ofBlock (content.slice 0 Snapshot.blockSize) = .ok snapshot

instance : Decidable (k.Legible q) :=
  decidable_of_iff ((k.table.process? q).any fun p => (k.store.behind? p.backing).any fun content =>
      Snapshot.blockSize ≤ content.size && (Snapshot.ofBlock (content.slice 0 Snapshot.blockSize)).isOk) <| by
    have hok (result : Except Fault Snapshot) : result.isOk ↔ ∃ snapshot, result = .ok snapshot := by
      cases result <;> simp [Except.isOk, Except.toBool]
    simp only [Legible, Option.any_eq_true, Bool.and_eq_true, decide_eq_true_eq, hok]
    constructor
    · rintro ⟨p, hp, content, hc, hsize, snapshot, hs⟩
      exact ⟨p, content, snapshot, hp, hc, hsize, hs⟩
    · rintro ⟨p, content, snapshot, hp, hc, hsize, hs⟩
      exact ⟨p, hp, content, hc, hsize, snapshot, hs⟩

namespace Legible

theorem isLive (h : k.Legible q) : k.table.isLive q := by
  obtain ⟨p, _, _, hp, -⟩ := h
  exact Table.isLive_iff.mpr ⟨p, hp⟩

/-- What can be read is loaded, and nothing is changed by that. -/
theorem load (h : k.Legible q) : ∃ self, k.load q = (.ok self, k) := by
  obtain ⟨p, content, snapshot, hp, hc, hsize, hs⟩ := h
  have hload := load_eq hp hc hsize
  rw [hs] at hload
  exact ⟨_, hload⟩

/-- Only which file the process has and what is in it matter. -/
theorem of_same (h : k.Legible q)
    (hsame : ∀ p, k.table.process? q = some p → ∃ p', k'.table.process? q = some p' ∧
      p'.backing = p.backing ∧ k'.store.behind? p.backing = k.store.behind? p.backing) : k'.Legible q := by
  obtain ⟨p, content, snapshot, hp, hc, hblock⟩ := h
  obtain ⟨p', hp', hbacking, hbehind⟩ := hsame p hp
  exact ⟨p', content, snapshot, hp', by rw [hbacking, hbehind, hc], hblock⟩

/-- Waking the process does not fail. -/
theorem wakeFailure? (h : k.Legible q) (result : UInt16) : k.wakeFailure? q result = none := by
  obtain ⟨self, hl⟩ := h.load
  obtain ⟨p, content, snapshot, hp, hc, hsize, -⟩ := h
  obtain ⟨p', hp', hself⟩ := load_ok hl
  obtain rfl : p' = p := Option.some.inj (hp'.symm.trans hp)
  have hbacking : self.backing = p'.backing := by rw [hself]
  rw [← hbacking] at hc
  have hsave : k.save { self with state := self.state.setReg Reg.result result } = (true, _) := save_eq hc hsize
  rw [Kernel.wakeFailure?, hl]
  simp only [hsave]

/-- A file that had room for a block and got one begins with it. -/
theorem of_written {content : Bytes} {snapshot : Snapshot} (hp : k.table.process? q = some p)
    (hsize : Snapshot.blockSize ≤ content.size) (hargs : snapshot.env.argCount.toNat ≤ maxArguments)
    (hc : k.store.behind? p.backing = some (content.overwrite 0 snapshot.toBlock.toList)) : k.Legible q := by
  refine ⟨p, _, snapshot.stored, hp, hc, by rw [Bytes.size_overwrite]; exact hsize, ?_⟩
  rw [slice_overwrite_toBlock hsize, Snapshot.ofBlock_toBlock hargs]

/-- A process that was saved is legible. -/
theorem of_save (hp : k.table.process? self.pid = some p) (hbacking : self.backing = p.backing)
    (hfile : (k.store.behind? p.backing).isSome) (hargs : self.state.env.argCount.toNat ≤ maxArguments)
    (hs : k.save self = (true, k')) : k'.Legible self.pid := by
  obtain ⟨content, hc⟩ := Option.isSome_iff_exists.mp hfile
  have hwritten := behind?_save hs hbacking hc
  rcases hsave : self.state.save k.store self.backing with ⟨done, s⟩
  simp only [save, hsave] at hs
  obtain ⟨rfl, rfl⟩ := Prod.mk.inj hs
  rw [hbacking] at hsave
  obtain ⟨hroom, -⟩ := VolumeBacked.behind?_of_save hc hsave
  rw [Bytes.room, Snapshot.size_toBlock] at hroom
  have hprocess : ({ k with store := s } : Kernel Volume).table.process? self.pid = some p := hp
  exact of_written hprocess (by omega) hargs hwritten

end Legible

end Kernel

open Kernel (Legible)

namespace Custody

/-- Who is loaded is legible, since every living process has a backing file. -/
theorem legible_iff (c : Custody l k) : k.Legible q ↔ ∃ self, (k.load q).1 = .ok self := by
  constructor
  · intro h
    obtain ⟨self, hl⟩ := h.load
    exact ⟨self, congrArg Prod.fst hl⟩
  · rintro ⟨self, hself⟩
    have hl : k.load q = (.ok self, (k.load q).2) := Prod.ext hself rfl
    obtain ⟨p, hp, hloaded⟩ := Kernel.load_ok hl
    obtain ⟨content, hc⟩ := Option.isSome_iff_exists.mp (c.backing_file hp)
    have hbacking : self.backing = p.backing := by rw [hloaded]
    have hbehind : k.store.behind? self.backing = some content := hbacking ▸ hc
    exact ⟨p, content, self.state, hp, hc, Kernel.size_of_load hl hbehind,
      VolumeBacked.ofBlock_of_load hc (Kernel.load_state hl hp)⟩

/-! ## Endings -/

/-- Whoever ends, another process that can be read goes on, and can be read. -/
theorem legible_kill (c : Custody l k) (h : k.Legible q) (hne : q ≠ pid) (status : UInt16) :
    (k.kill pid status).2.Legible q := by
  obtain ⟨p, content, snapshot, hp, hc, hsize, hs⟩ := h
  cases (Kernel.kill_aftermath c pid status).share hne hp with
  | spared hp' hb =>
    refine ⟨p, content, snapshot, hp', ?_, hsize, hs⟩
    exact hb.trans hc
  | roused target deadline result content' snapshot' hw hf ht hp' hb ho hb' =>
    obtain rfl : content' = content := Option.some.inj (hb.symm.trans hc)
    have hfew := Snapshot.argCount_of_ofBlock ho
    have hargs : (snapshot'.setReg Reg.result result).env.argCount.toNat ≤ maxArguments := hfew
    exact Legible.of_written hp' hsize hargs hb'
  | lost target deadline result hw hf ht hd hlost =>
    -- It could not be woken at some point, at which it could be read as before.
    obtain ⟨k₁, failure, -, hp₁, hb₁, hfailed⟩ := hlost
    have hlegible : k₁.Legible q := ⟨p, content, snapshot, hp₁, hb₁.trans hc, hsize, hs⟩
    rw [hlegible.wakeFailure?] at hfailed
    cases hfailed

end Custody

/-- That a process can be read lasts. -/
theorem Kernel.legible_lasts (q : Pid) : Lasts q fun k => k.Legible q where
  live h := h.isLive
  same {k k' p} h hp hp' hb := by
    obtain ⟨count, hp'⟩ := hp'
    refine h.of_same fun r hr => ⟨_, hp', ?_⟩
    obtain rfl : p = r := Option.some.inj (hp.symm.trans hr)
    exact ⟨rfl, hb⟩
  kill c h hne status := c.legible_kill h hne status

/-! ## Signals -/

namespace Kernel

/-- A process would stumble over a signal: it has a handler for it, but its instruction pointer cannot be
pushed. -/
def stumbles (k : Kernel Volume) (q : Pid) (signal : Signal) : Bool :=
  match k.table.process? q, (k.load q).1 with
  | some p, .ok self => self.state.handler signal ≠ 0 && !(Turn.interrupted ⟨k, self⟩ p.status).pushes
  | _, _ => false

/-- The process is the one with the number, and would stumble over the signal with the number. -/
def fells (k : Kernel Volume) (q : Pid) (number signal : UInt16) : Bool :=
  Pid.ofNat? number.toNat = some q && (Signal.ofNat? signal.toNat).any (k.stumbles q)

variable {p : Process} {self : Loaded} {signal : Signal}

theorem stumbles_iff (hp : k.table.process? q = some p) (hl : k.load q = (.ok self, k')) :
    k.stumbles q signal ↔
      self.state.handler signal ≠ 0 ∧ (Turn.interrupted ⟨k, self⟩ p.status).pushes = false := by
  rw [stumbles, hp, hl]
  simp

theorem sendSignal_of_live (hp : k.table.process? q = some p) (signal : Signal) :
    (k.sendSignal q signal).2 = (k.withLoaded Kernel.fault q (Turn.deliver signal)).2 := by
  rw [sendSignal, if_pos (Table.isLive_iff.mpr ⟨p, hp⟩)]

/-- A process without a handler is saved as it was loaded. -/
theorem Legible.dropped (h : k.Legible q) (hl : k.load q = (.ok self, k)) (hh : self.state.handler signal = 0) :
    (k.sendSignal q signal).2.Legible q := by
  obtain ⟨p, content, _, hp, hc, hsize, -⟩ := h
  obtain ⟨p', hp', hself⟩ := load_ok hl
  obtain rfl : p = p' := Option.some.inj (hp.symm.trans hp')
  obtain rfl : self.pid = q := by rw [hself]
  have hbacking : self.backing = p.backing := by rw [hself]
  have hsave : k.save self = (true, k.saved self) := save_eq (hbacking ▸ hc) hsize
  have hargs := Snapshot.argCount_of_ofBlock (VolumeBacked.ofBlock_of_load hc (load_state hl hp))
  have hdeliver : Turn.deliver signal ⟨k, self⟩ = .ok false ⟨k, self⟩ := Turn.deliver_of_none hh
  rw [sendSignal_of_live hp, withLoaded]
  simp only [hl, hdeliver, hsave]
  exact .of_save hp hbacking (by rw [hc]; rfl) hargs hsave

/-- A process that stumbles is killed for the fault. -/
theorem stumbling (hp : k.table.process? q = some p) (hl : k.load q = (.ok self, k))
    (hs : k.stumbles q signal) : Ended q exitFault (k.sendSignal q signal).2 := by
  obtain ⟨hh, hpushes⟩ := (stumbles_iff hp hl).mp hs
  obtain ⟨_, -, hself⟩ := load_ok hl
  obtain rfl : self.pid = q := by rw [hself]
  have hactive : (k.table.setStatus self.pid .active).process? self.pid = some { p with status := .active } :=
    Table.process?_modify_self hp
  have hdeliver := Turn.deliver_of_some (t := ⟨k, self⟩) hp hh
  rw [sendSignal_of_live hp, withLoaded]
  simp only [hl, hdeliver]
  unfold Turn.pushes at hpushes
  split at hpushes
  · cases hpushes
  · next f s hpush =>
    rw [hpush]
    exact (fault_ends (k := ((Turn.interrupted ⟨k, self⟩ p.status).setSpace s).kernel) hactive f).1

end Kernel

/-- A process that can be read dies of a signal that it stumbles over, and can be read after any other. -/
theorem Custody.signalled (c : Custody l k) (h : k.Legible q) (signal : Signal) :
    (k.stumbles q signal = true → Kernel.Ended q exitFault (k.sendSignal q signal).2) ∧
      (k.stumbles q signal = false → (k.sendSignal q signal).2.Legible q) := by
  obtain ⟨self, hl⟩ := h.load
  obtain ⟨p, hp, hself⟩ := Kernel.load_ok hl
  refine ⟨Kernel.stumbling hp hl, fun hs => ?_⟩
  by_cases hh : self.state.handler signal = 0
  · exact h.dropped hl hh
  · -- It goes on in its handler, so that it can be loaded.
    have hpushes : (Turn.interrupted ⟨k, self⟩ p.status).pushes := by
      by_contra hn
      rw [(Kernel.stumbles_iff hp hl).mpr ⟨hh, Bool.eq_false_iff.mpr hn⟩] at hs
      cases hs
    have hopen : k.openTurn q .ready = .ok ⟨k.onTable (·.setStatus q .active), self⟩ := by
      rw [Kernel.openTurn, hl]
      rfl
    have hdeliverable : Deliverable k q signal p ⟨k.onTable (·.setStatus q .active), self⟩ :=
      ⟨hp, hopen, c.backing_file hp, hh, hpushes⟩
    obtain ⟨k', t', hsend, -, hturn, -⟩ := hdeliverable.next_turn
    obtain ⟨k₁, hload, -⟩ := Kernel.openTurn_ready hturn
    refine (c.sendSignal q signal).legible_iff.mpr ⟨t'.self, ?_⟩
    rw [hsend, hload]

end CoopKernel
