import CoopKernel.Proofs.Custody.Run
import CoopKernel.Proofs.Limiting.Turn

/-!
# Data regions within a bound

A kernel is frugal if its limit is within a bound and the backing files of the living tell of no region beyond
it. Whoever is loaded then has a data region within the bound, so that saving it, ending it, sending it a
signal or making a copy of it leaves the kernel frugal.
-/

namespace CoopKernel

open Snapshot (lengthIn)

variable {α : Type} {l l' : Ledger} {bound : UInt16}

namespace Kernel

variable {k k' k₁ : Kernel Volume} {pid : Pid} {self : Loaded}

/-! ## What is modest -/

theorem modest_load {loaded : Except Fault Loaded} (h : k.load pid = (loaded, k')) : Modest bound k k' where
  limit := by rw [(quiet_of_load h).rest]
  live q hq := by
    rw [(quiet_of_load h).rest] at hq
    exact hq
  store := .of_nodes (load_store h).2

theorem modest_bury (k : Kernel Volume) (pid : Pid) (p : Process) (status : UInt16) :
    Modest bound k (k.bury pid p status) := by
  have hvacated : Modest bound k (k.onTable (·.vacate pid status)) := by
    refine ⟨rfl, fun q hq => ?_, refl_of (Volume.Modest bound) _⟩
    obtain ⟨r, hr⟩ := Table.isLive_iff.mp hq
    exact Table.isLive_iff.mpr ⟨r, (Table.process?_vacate_cases hr).2⟩
  have hreleased := trans_of (Modest bound) hvacated (modest_releaseProgram _ pid p.program)
  unfold bury
  refine trans_of (Modest bound) hreleased (trans_of (Modest bound) (modest_store ?_) (modest_note _ _))
  exact trans_of (Volume.Modest bound) (Volume.modest_close _ p.backing) (Volume.modest_delete _ _)

theorem modest_countTick (k : Kernel Volume) : Modest bound k k.countTick := by
  unfold countTick
  dsimp only
  split
  · refine ⟨rfl, fun q hq => ?_, refl_of (Volume.Modest bound) _⟩
    rw [onTable, Table.isLive, Table.process?_resetCounts, Option.isSome_map] at hq
    exact hq
  · exact ⟨rfl, fun _ => id, refl_of (Volume.Modest bound) _⟩

/-! ## Frugal kernels -/

/-- The books balance, the limit is within the bound, and so is what the backing files of the living tell of
their data regions. -/
structure Frugal (l : Ledger) (bound : UInt16) (k : Kernel Volume) : Prop where
  custody : Custody l k
  limit : k.settings.ramLimit ≤ bound
  files : ∀ {q content}, k.table.isLive q → k.store.content? (l.home q) = some content →
    lengthIn content ≤ bound

namespace Frugal

theorem modest (h : Frugal l bound k) (hm : Modest bound k k') (c : Custody l' k')
    (hhome : l'.home = l.home) : Frugal l' bound k' where
  custody := c
  limit := by
    rw [hm.limit]
    exact h.limit
  files {q _} hq hc := by
    rw [hhome] at hc
    exact hm.store.le hc fun _ hold => h.files (hm.live q hq) hold

/-- The snapshot that is kept of a living process has a data region within the bound. -/
theorem kept (h : Frugal l bound k) {p : Process} {s : Snapshot} (hp : k.table.process? pid = some p)
    (hs : k.store.kept? p.backing = some s) : s.dataLength ≤ bound := by
  obtain ⟨content, hcontent⟩ := Option.isSome_iff_exists.mp (h.custody.backing_file hp)
  have hcontent : k.store.behind? p.backing = some content := hcontent
  have hpath : k.store.pathOf? p.backing = some (l.home pid) := h.custody.backing_path hp
  rw [Volume.kept?, hcontent, Option.bind_some] at hs
  have hblock : Snapshot.ofBlock (content.slice 0 Snapshot.blockSize) = .ok s := by
    cases hb : Snapshot.ofBlock (content.slice 0 Snapshot.blockSize) with
    | error f =>
      rw [hb] at hs
      cases hs
    | ok s' =>
      rw [hb] at hs
      cases hs
      rfl
  rw [Volume.behind?, hpath, Option.bind_some] at hcontent
  rw [Snapshot.dataLength_of_ofBlock hblock, Snapshot.lengthIn_slice]
  exact h.files (Table.isLive_iff.mpr ⟨p, hp⟩) hcontent

theorem load (h : Frugal l bound k) (hl : k.load pid = (.ok self, k₁)) :
    Frugal l bound k₁ ∧ self.state.dataLength ≤ bound := by
  obtain ⟨p, hp, -⟩ := load_ok hl
  obtain ⟨content, hcontent⟩ := Option.isSome_iff_exists.mp (h.custody.backing_file hp)
  obtain ⟨hkept, -⟩ := VolumeBacked.kept?_of_load hcontent (load_state hl hp)
  exact ⟨h.modest (modest_load hl) (h.custody.quiet (quiet_of_load hl)) rfl, h.kept hp hkept⟩

theorem save (h : Frugal l bound k) (hlength : self.state.dataLength ≤ bound) :
    Frugal l bound (k.save self).2 :=
  h.modest (modest_store (k.store.modest_save self.backing hlength)) (h.custody.quiet (save_quiet k self)) rfl

theorem note (h : Frugal l bound k) (e : Event) : Frugal l bound (k.note e) :=
  h.modest (modest_note k e) (h.custody.note e) rfl

theorem setStatus (h : Frugal l bound k) (pid : Pid) (status : Status) :
    Frugal l bound (k.onTable (·.setStatus pid status)) :=
  h.modest (modest_modify k pid _) (h.custody.setStatus pid status) rfl

/-! ## Endings -/

theorem killWithin (h : Frugal l bound k) (depth : Nat) (pid : Pid) (status : UInt16) :
    Frugal l bound (Kernel.killWithin depth k pid status) := by
  refine killWithin_keeps_of (R := Stays (Frugal l bound)) ?_ ?_ (fun _ e _ h => h.note e)
    (fun _ pid h => h.setStatus pid .active) ?_ depth k pid status h
  · intro k pid f k₁ hl h
    exact h.modest (modest_load hl) (h.custody.quiet (quiet_of_load hl)) rfl
  · intro k pid self k₁ result hl h
    obtain ⟨h₁, hlength⟩ := h.load hl
    exact h₁.save hlength
  · intro k pid p status hp h
    exact h.modest (modest_bury k pid p status) (h.custody.bury hp status) rfl

theorem kill (h : Frugal l bound k) (pid : Pid) (status : UInt16) : Frugal l bound (k.kill pid status).2 :=
  h.killWithin maxProcesses pid status

theorem fault (h : Frugal l bound k) (pid : Pid) (f : Fault) : Frugal l bound (k.fault pid f) :=
  (h.note _).kill pid exitFault

end Frugal

end Kernel

/-! ## Turns -/

namespace Turn

/-- Besides, the data region of the process is within the bound. -/
structure Frugal (l : Ledger) (bound : UInt16) (t : Turn Volume) : Prop where
  kernel : t.kernel.Frugal l bound
  length : t.self.state.dataLength ≤ bound

namespace Frugal

variable {t t' : Turn Volume}

theorem limited (h : t.Frugal l bound) (hl : Limited bound t t') (c : Custody l' t'.kernel)
    (hhome : l'.home = l.home) : t'.Frugal l' bound :=
  ⟨h.kernel.modest hl.kernel c hhome, hl.length h.kernel.limit h.length⟩

/-- Work that makes the process active at most leaves it frugal if it is limited. -/
theorem inward {act : Attempt Volume α} (hin : Inward act) (hact : Works (Limited bound) (fun _ => True) act) :
    Ensures (Frugal l bound) act (fun _ => Frugal l bound) fun _ => Frugal l bound := by
  intro t h
  have hcustody := Custody.inward hin t h.kernel.custody
  have hlimited := hact t
  cases ha : act t with
  | ok a t' =>
    rw [ha] at hlimited
    rw [after_ok ha] at hcustody
    exact h.limited hlimited hcustody rfl
  | error f t' =>
    rw [ha] at hlimited
    rw [after_error ha] at hcustody
    exact h.limited hlimited.2 hcustody rfl

end Frugal

end Turn

namespace Kernel.Frugal

variable {k : Kernel Volume} {pid : Pid}

/-! ## Signals -/

theorem withLoaded (h : Frugal l bound k) {act : Attempt Volume α} (hin : Turn.Inward act)
    (hact : Works (Turn.Limited bound) (fun _ => True) act) :
    Frugal l bound (k.withLoaded Kernel.fault pid act).2 := by
  refine withLoaded_keeps_of (R := Stays (Frugal l bound)) ?_ ?_ (fun _ f h => h.fault pid f) h
  · intro f k₁ hl h
    exact h.modest (modest_load hl) (h.custody.quiet (quiet_of_load hl)) rfl
  · intro self k₁ hl
    have hwork : k.Frugal l bound → Yields (act ⟨k₁, self⟩) (fun _ => Turn.Frugal l bound)
        fun _ => Turn.Frugal l bound := by
      intro h
      obtain ⟨h₁, hlength⟩ := h.load hl
      exact Turn.Frugal.inward hin hact ⟨k₁, self⟩ ⟨h₁, hlength⟩
    cases ha : act ⟨k₁, self⟩ with
    | ok a t =>
      rw [ha] at hwork
      exact fun h => (hwork h).kernel.save (hwork h).length
    | error f t =>
      rw [ha] at hwork
      exact fun h => (hwork h).kernel

theorem sendSignal (h : Frugal l bound k) (pid : Pid) (signal : Signal) :
    Frugal l bound (k.sendSignal pid signal).2 := by
  unfold Kernel.sendSignal
  split
  · exact h.withLoaded (Turn.deliver_inward signal) (Turn.indifferent_limited.deliver signal)
  · exact h

end Kernel.Frugal

/-! ## Making a process -/

namespace Kernel

variable {k k' : Kernel Volume} {pid : Pid}

/-- A process came with a file that tells of a data region within the bound, and what happened else is
modest. -/
structure Admits (bound : UInt16) (pid : Pid) (k k' : Kernel Volume) : Prop where
  limit : k'.settings.ramLimit = k.settings.ramLimit
  live : ∀ q, k'.table.isLive q → q = pid ∨ k.table.isLive q
  store : k.store.Modest bound k'.store
  file : ∀ {content}, k'.store.content? (k.backingPath pid) = some content → lengthIn content ≤ bound

/-- A process came like that, or none came. -/
def Makes (bound : UInt16) (k : Kernel Volume) : Except SpawnError Pid × Kernel Volume → Prop
  | (.ok pid, k') => Admits bound pid k k'
  | (.error _, k') => Modest bound k k'

/-- The kernel is frugal after a process was to be made, with it on record where the file of the process is if
it was. -/
def FrugallyMade (l : Ledger) (bound : UInt16) (home : Pid → Path) :
    Except SpawnError Pid × Kernel Volume → Prop
  | (.ok pid, k) => k.Frugal (l.settle pid (home pid)) bound
  | (.error _, k) => k.Frugal l bound

theorem Frugal.makes (h : k.Frugal l bound) {made : Except SpawnError Pid × Kernel Volume}
    (hm : Makes bound k made) (c : Custody.Made l k.backingPath made) :
    FrugallyMade l bound k.backingPath made := by
  obtain ⟨e | pid, k'⟩ := made
  · exact h.modest hm c rfl
  · have hm : Admits bound pid k k' := hm
    refine ⟨c, by rw [hm.limit]; exact h.limit, fun {q content} hq hc => ?_⟩
    by_cases hself : q = pid
    · subst hself
      simp only [Ledger.settle, if_true] at hc
      exact hm.file hc
    · simp only [Ledger.settle, if_neg hself] at hc
      have hlive := (hm.live q hq).resolve_left hself
      exact hm.store.le hc fun _ hold => h.files hlive hold

/-- A backing file is filled with a block that tells of the data region of the process to be. -/
theorem modest_fill {state : Snapshot} {data : Bytes} (hlength : state.dataLength ≤ bound) :
    Volume.Modest bound (k.store.create (k.backingPath pid) (Snapshot.blockSize + data.size)).2
      (k.makeBacking pid state data).2.store :=
  makeBacking_keeps (fun v => v.modest_openPath _) (fun v h => v.modest_save h hlength)
    (fun v h => v.modest_write_data h (Nat.le_refl _) data) (fun v h => v.modest_close h)
    fun v => v.modest_delete _

/-- Where the backing file is made, the process takes its slot. -/
theorem makes_of_makeBacking (pid : Pid) {state : Snapshot} (data : Bytes) {s : Volume} (hs : k.store.Modest bound s)
    (hlength : state.dataLength ≤ bound) :
    (∀ e k', { k with store := s }.makeBacking pid state data = (.error e, k') → Modest bound k k') ∧
      ∀ program backing e k', { k with store := s }.makeBacking pid state data = (.ok backing, k') →
        Admits bound pid k ((k'.onTable (·.occupy pid program backing)).note e) := by
  let k₁ : Kernel Volume := { k with store := s }
  have hfilled : Volume.Modest bound _ (k₁.makeBacking pid state data).2.store := modest_fill hlength
  have hcreated : Volume.Modest bound s _ := s.modest_create (k.backingPath pid) (Snapshot.blockSize + data.size)
  have hmade := trans_of (Volume.Modest bound) hs (trans_of (Volume.Modest bound) hcreated hfilled)
  have htable := makeBacking_table k₁ pid state data
  have hruled := ruled_makeBacking k₁ pid state data
  refine ⟨fun e k' hm => ?_, fun program backing e k' hm => ?_⟩
  · rw [hm] at hmade htable hruled
    refine ⟨congrArg Settings.ramLimit hruled.settings, fun q hq => ?_, hmade⟩
    rw [htable] at hq
    exact hq
  · have hfresh := Volume.content?_create (created_of_makeBacking hm)
    rw [hm] at hmade htable hruled hfilled
    refine ⟨congrArg Settings.ramLimit hruled.settings, fun q hq => ?_, hmade, fun {content} hc => ?_⟩
    · obtain ⟨r, hr⟩ := Table.isLive_iff.mp hq
      rcases Table.process?_occupy_cases hr with ⟨hself, -⟩ | ⟨-, hr⟩
      · exact .inl hself
      · rw [htable] at hr
        exact .inr (Table.isLive_iff.mpr ⟨r, hr⟩)
    · refine hfilled.le hc fun old hold => ?_
      cases hfresh.symm.trans hold
      rw [Snapshot.lengthIn_zeros]
      exact UInt16.zero_le

theorem spawn_makes (k : Kernel Volume) (program : String) : Makes bound k (k.spawn program) := by
  have hopened : Volume.Modest bound k.store _ := k.store.modest_openPath (Path.ofText program)
  have hnone : (k.initialState (Path.ofText program)).dataLength ≤ bound := UInt16.zero_le
  unfold spawn
  split
  · exact refl_of (Modest bound) k
  · cases k.table.firstFree? with
    | none => exact refl_of (Modest bound) k
    | some pid =>
      dsimp only
      split
      · exact refl_of (Modest bound) k
      · rcases ho : Storage.openPath k.store (Path.ofText program) with ⟨_ | h, s⟩
        · rw [show (k.store.openPath _).2 = s from congrArg Prod.snd ho] at hopened
          exact modest_store hopened
        · rw [show (k.store.openPath _).2 = s from congrArg Prod.snd ho] at hopened
          obtain ⟨hfails, hmakes⟩ := makes_of_makeBacking pid #[] hopened hnone
          dsimp only
          split
          · next hm =>
            exact trans_of (Modest bound) (hfails _ _ hm) (modest_store (Volume.modest_close _ h))
          · next hm => exact hmakes h _ _ _ hm

theorem fork_makes (k : Kernel Volume) {parent : Loaded} (hlength : parent.state.dataLength ≤ bound) :
    Makes bound k (k.fork parent) := by
  have hread : Volume.Modest bound k.store _ :=
    k.store.modest_read parent.backing Snapshot.blockSize parent.state.dataLength.toNat
  have hcopy : (parent.state.setReg Reg.result 0).dataLength ≤ bound := hlength
  unfold fork
  cases k.table.firstFree? with
  | none => exact refl_of (Modest bound) k
  | some pid =>
    rcases hr : Storage.read k.store parent.backing Snapshot.blockSize parent.state.dataLength.toNat with
      ⟨data, s⟩
    rw [show (k.store.read _ _ _).2 = s from congrArg Prod.snd hr] at hread
    obtain ⟨hfails, hmakes⟩ := makes_of_makeBacking pid data hread hcopy
    simp only [hr]
    split
    · exact modest_store hread
    · split
      · next hm => exact hfails _ _ hm
      · next hm => exact hmakes _ _ _ _ hm

end Kernel

end CoopKernel
