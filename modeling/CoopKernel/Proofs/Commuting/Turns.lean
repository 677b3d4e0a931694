import CoopKernel.Proofs.Backing.Run
import CoopKernel.Proofs.Commuting.Memory

/-!
# Turns in either order

The turn of a process that does no system call and does not fault comes to changes of its own backing file
and to a number of executed instructions. Neither depends on such a turn of another process, and so two
processes may have their turns in either order, though they share the volume, the table and perhaps the
program.
-/

namespace CoopKernel

namespace Table

variable {t : Table} {pid q : Pid} {f g : Process → Process}

theorem ext_slot {t t' : Table} (hslots : ∀ pid : Pid, t'.slot pid = t.slot pid)
    (hinit : t'.initUsed = t.initUsed) : t' = t := by
  obtain ⟨slots, initUsed⟩ := t
  obtain ⟨slots', initUsed'⟩ := t'
  simp only [Table.mk.injEq]
  exact ⟨Vector.ext fun i hi => hslots ⟨i, hi⟩, hinit⟩

theorem modify_comm (t : Table) (hne : pid ≠ q) :
    (t.modify pid f).modify q g = (t.modify q g).modify pid f := by
  refine ext_slot (fun i => ?_) rfl
  simp only [slot_modify]
  by_cases hp : pid = i
  · have hq : q ≠ i := fun he => hne (hp.trans he.symm)
    simp [hp, hq]
  · simp [hp]

theorem modify_modify (t : Table) : (t.modify pid f).modify pid g = t.modify pid (g ∘ f) := by
  refine ext_slot (fun i => ?_) rfl
  simp only [slot_modify]
  by_cases hp : pid = i
  · simp only [hp, if_true]
    cases t.slot i <;> rfl
  · simp [hp]

end Table

namespace Kernel

open Turn

/-- The kernel after a process changed its backing file and executed some instructions. -/
def progressed (k : Kernel Volume) (pid : Pid) (cs : List BackingChange) (n : UInt16) : Kernel Volume :=
  { k with
    store := k.store.changeAll (k.backingPath pid) cs
    table := k.table.modify pid fun p => { p with count := p.count + n } }

/-- The next turn of the process comes to its end without a system call and without a fault. -/
def runsByItself (k : Kernel Volume) (pid : Pid) : Bool :=
  match k.openTurn pid .ready with
  | .error _ => false
  | .ok t =>
    t.stepsAlone k.settings.budget.toNat &&
      match steps k.settings.budget.toNat t with
      | .ok .. => true
      | .error .. => false

/-- The process runs a file that is nobody's backing file. -/
structure RunsFile (k : Kernel Volume) (p : Process) : Prop where
  file : (k.store.behind? p.program).isSome
  apart : ∀ q r, k.table.process? q = some r → k.store.pathOf? p.program ≠ k.store.pathOf? r.backing

variable {k : Kernel Volume} {pid q : Pid} {p : Process} {b : UInt8}

theorem progressed_comm (k : Kernel Volume) (hne : pid ≠ q) (hcapacity : k.store.capacity = none)
    (cs ds : List BackingChange) (n m : UInt16) :
    (k.progressed pid cs n).progressed q ds m = (k.progressed q ds m).progressed pid cs n := by
  have hpaths : k.backingPath pid ≠ k.backingPath q := fun he => hne (backingPath_inj he)
  have hstore := Volume.changeAll_comm hpaths hcapacity cs ds
  have htable := k.table.modify_comm (f := fun p => { p with count := p.count + n })
    (g := fun p => { p with count := p.count + m }) hne
  show ({ k with
    store := (k.store.changeAll (k.backingPath pid) cs).changeAll (k.backingPath q) ds
    table := (k.table.modify pid _).modify q _ } : Kernel Volume) = _
  rw [hstore, htable]
  rfl

theorem progressed_nil (k : Kernel Volume) (pid : Pid) : k.progressed pid [] 0 = k := by
  have htable : (k.table.modify pid fun p => { p with count := p.count + 0 }) = k.table := by
    refine Table.ext_slot (fun i => ?_) rfl
    simp only [UInt16.add_zero, Table.slot_modify]
    split
    · cases k.table.slot i <;> rfl
    · rfl
  rw [progressed, htable]
  rfl

/-- Where a process has its program and its memory between turns. -/
def site (k : Kernel Volume) (pid : Pid) (p : Process) (b : UInt8) : Site :=
  ⟨k.store, p.program, p.backing, k.backingPath pid, b⟩

/-- An active process that does not depend on what is in the backing file of another. -/
structure Lone (k : Kernel Volume) (pid q : Pid) (p : Process) (b : UInt8) : Prop where
  process : k.table.process? pid = some p
  active : p.status = .active
  other : pid ≠ q
  filler : k.filler = .known b
  clear : (k.site pid p b).Clear (k.backingPath q)

/-- Two turns of the process since it was loaded from the kernel, one with the kernel as the process
changed it, and one in which another process has made some progress as well. -/
structure Onward (k : Kernel Volume) (pid q : Pid) (p : Process) (ds : List BackingChange) (m : UInt16)
    (t t' : Turn Volume) : Prop where
  kernel : ∃ cs n, t.kernel = k.progressed pid cs n
  other : t' = { t with kernel := t.kernel.progressed q ds m }
  self : t.self = { t.self with
    pid, program := p.program, backing := p.backing, backingPath := k.backingPath pid }

namespace Lone

variable {ds : List BackingChange} {m : UInt16} {t t' : Turn Volume} (h : k.Lone pid q p b)

include h

theorem space (ht : k.Onward pid q p ds m t t') :
    (k.site pid p b).Meanwhile (k.backingPath q) ds t.space t'.space := by
  obtain ⟨cs, n, hkernel⟩ := ht.kernel
  refine ⟨⟨cs, by simp only [Turn.space, hkernel]; rfl⟩, ?_, ?_, ?_, ?_, ?_⟩
  · rw [ht.other]
    simp only [Turn.space, hkernel]
    rfl
  · exact congrArg Loaded.program ht.self
  · exact congrArg Loaded.backing ht.self
  · exact congrArg Loaded.backingPath ht.self
  · simp only [Turn.space, hkernel]
    exact h.filler

theorem setSpace (ht : k.Onward pid q p ds m t t') {s s' : AddressSpace Volume}
    (hs : (k.site pid p b).Meanwhile (k.backingPath q) ds s s') :
    k.Onward pid q p ds m (t.setSpace s) (t'.setSpace s') := by
  obtain ⟨cs, n, hkernel⟩ := ht.kernel
  obtain ⟨cs', hstore⟩ := hs.store
  have hfiller : s.filler = k.filler := hs.filler.trans h.filler.symm
  refine ⟨⟨cs', n, ?_⟩, ?_, ?_⟩
  · simp only [Turn.setSpace, hkernel, hstore, hfiller]
    rfl
  · rw [ht.other, hs.other]
    simp only [Turn.setSpace, hkernel]
    rfl
  · simp only [Turn.setSpace]
    rw [ht.self]

/-- Whatever the process does short of a system call it does in both turns. -/
theorem onward_abreast : Turn.Abreast ((k.site pid p b).Meanwhile (k.backingPath q) ds)
    (k.Onward pid q p ds m) pid p.backing where
  memory := Site.meanwhile_abreast h.clear
  space := h.space
  setSpace ht hs := h.setSpace ht hs
  pids ht := ⟨congrArg Loaded.pid ht.self, by rw [ht.other]; exact congrArg Loaded.pid ht.self⟩
  state ht := by rw [ht.other]
  setState ht _ _ := ⟨ht.kernel, by rw [ht.other], by rw [ht.self]⟩
  closed ht := ⟨ht.kernel, by rw [ht.other], by rw [ht.self]⟩
  counted {t t'} ht := by
    obtain ⟨cs, n, hkernel⟩ := ht.kernel
    refine ⟨⟨cs, n + 1, ?_⟩, ?_, ht.self⟩
    · rw [hkernel]
      simp only [onTable, progressed, Table.addCount, Table.modify_modify, Function.comp_def,
        UInt16.add_assoc]
    · rw [ht.other]
      simp only [onTable, progressed, Table.addCount, Table.modify_comm _ h.other.symm]
      rfl

/-- What is saved at the end goes to the backing file as well. -/
theorem saved (ht : k.Onward pid q p ds m t t') :
    k.Onward pid q p ds m { t with kernel := t.kernel.saved t.self }
      { t' with kernel := t'.kernel.saved t'.self } := by
  have hspace := h.space ht
  obtain ⟨hpath, hpath', content, hc, hc', -⟩ := hspace.home h.clear
  have hself' : t'.self = t.self := by rw [ht.other]
  have hbacking : t.self.backing = p.backing := congrArg Loaded.backing ht.self
  have hsaved {u : Turn Volume} (hself : u.self = t.self)
      (hpath : u.kernel.store.pathOf? p.backing = some (k.backingPath pid))
      (hc : u.kernel.store.content? (k.backingPath pid) = some content) :
      ({ u with kernel := u.kernel.saved u.self } : Turn Volume) =
        u.setSpace { u.space with
          store := u.space.store.change (k.backingPath pid) (.overwrite 0 t.self.state.toBlock) } := by
    have hwrite := Volume.write_eq hpath hc 0 t.self.state.toBlock
    obtain ⟨kernel, self⟩ := u
    obtain rfl : self = t.self := hself
    simp only [Kernel.saved, hbacking, hwrite]
    rfl
  rw [hsaved rfl hpath hc, hsaved hself' hpath' hc']
  exact h.setSpace ht (hspace.changed h.clear _)

/-- The process is loaded the same when the other one has made progress. -/
theorem load (ds : List BackingChange) (m : UInt16) {self : Loaded} {k' : Kernel Volume}
    (hload : k.load pid = (.ok self, k')) :
    k' = k ∧ (k.progressed q ds m).load pid = (.ok self, k.progressed q ds m) := by
  obtain ⟨content, hc, hroom⟩ := h.clear.block
  have hpath : k.store.pathOf? p.backing = some (k.backingPath pid) := h.clear.backing
  have hbehind : k.store.behind? p.backing = some content := by
    rw [Volume.behind?, hpath]
    exact hc
  have hclear : k.store.pathOf? p.backing ≠ some (k.backingPath q) := by
    rw [hpath]
    exact fun he => h.other (backingPath_inj (Option.some.inj he))
  have hbehind' : (k.progressed q ds m).store.behind? p.backing = some content :=
    (Volume.behind?_changeAll_of_ne hclear ds).trans hbehind
  have hprocess : (k.progressed q ds m).table.process? pid = some p :=
    (Table.process?_modify_of_ne h.other).trans h.process
  have hfirst := load_eq h.process hbehind hroom
  have hsecond := load_eq hprocess hbehind' hroom
  rw [hload] at hfirst
  obtain ⟨hself, hk⟩ := Prod.mk.inj hfirst
  refine ⟨hk, hsecond.trans ?_⟩
  rw [hself]
  rfl

/-- The turn begins the same when the other process has made progress. -/
theorem openTurn (ds : List BackingChange) (m : UInt16) (ht : k.openTurn pid .ready = .ok t) :
    t.kernel.settings = k.settings ∧
      k.Onward pid q p ds m t ⟨t.kernel.progressed q ds m, t.self⟩ ∧
      (k.progressed q ds m).openTurn pid .ready = .ok ⟨t.kernel.progressed q ds m, t.self⟩ := by
  obtain ⟨k', hload, hkernel⟩ := openTurn_ready ht
  obtain ⟨p', hp', hself⟩ := load_ok hload
  obtain rfl : p' = p := Option.some.inj (hp'.symm.trans h.process)
  obtain ⟨rfl, hload'⟩ := h.load ds m hload
  have hactive : k'.table.setStatus pid .active = k'.table := Table.setStatus_self h.process h.active
  have hactive' : (k'.progressed q ds m).table.setStatus pid .active = (k'.progressed q ds m).table :=
    Table.setStatus_self ((Table.process?_modify_of_ne h.other).trans h.process) h.active
  have hkernel : t.kernel = k' := by
    rw [hkernel, onTable, hactive]
  rw [hkernel]
  refine ⟨rfl, ⟨⟨[], 0, hkernel.trans (progressed_nil k' pid).symm⟩, by rw [hkernel], ?_⟩, ?_⟩
  · rw [hself]
  · unfold Kernel.openTurn
    rw [hload']
    simp only [resume, onTable, hactive']

/-- The turn comes to some progress of the process, and to the same if the other one has made progress
before. -/
theorem runTurn (hruns : k.runsByItself pid) (ds : List BackingChange) (m : UInt16) :
    ∃ cs n, k.runTurn pid .ready = k.progressed pid cs n ∧
      (k.progressed q ds m).runTurn pid .ready = (k.progressed pid cs n).progressed q ds m := by
  unfold runsByItself at hruns
  cases ho : k.openTurn pid .ready with
  | error k' =>
    rw [ho] at hruns
    cases hruns
  | ok t =>
    rw [ho] at hruns
    simp only [Bool.and_eq_true] at hruns
    obtain ⟨halone, hends⟩ := hruns
    obtain ⟨hsettings, honward, ho'⟩ := h.openTurn ds m ho
    have hagree := h.onward_abreast.steps honward halone
    cases hs : steps k.settings.budget.toNat t with
    | error e t₁ =>
      rw [hs] at hends
      cases hends
    | ok _ t₁ =>
      rw [hs] at hagree
      obtain ⟨t₁', hs', h₁⟩ := hagree.ok
      obtain ⟨hblock, hblock'⟩ := (h.space h₁).hasBlock h.clear
      have hfirst : k.runTurn pid .ready = t₁.kernel.saved t₁.self := by
        rw [runTurn_eq, ho]
        dsimp only
        rw [hsettings, hs]
        exact endTurn_of_hasBlock hblock
      have hsecond : (k.progressed q ds m).runTurn pid .ready = t₁'.kernel.saved t₁'.self := by
        rw [runTurn_eq, ho']
        show closeTurn (steps t.kernel.settings.budget.toNat _) = _
        rw [hsettings, hs']
        exact endTurn_of_hasBlock hblock'
      obtain ⟨⟨cs, n, hkernel⟩, hother, -⟩ := h.saved h₁
      refine ⟨cs, n, hfirst.trans hkernel, hsecond.trans ?_⟩
      have hkernel' := congrArg Turn.kernel hother
      rw [← hkernel]
      exact hkernel'

end Lone

end Kernel

/-- Two active processes may have their turns in either order, with the same result in everything: the
table, every file, the handles and how often files were resized. They may run the same program, even
through the same handle. -/
theorem independent_turns_commute (v : Volume) (settings : Settings) (entropy : UInt64)
    (calls : List (HostCall Volume))
    (hspares : (HostCall.courseAll (Kernel.new v settings entropy) calls).all Moment.sparesBackings)
    {k : Kernel Volume} (hk : HostCall.ComesBy (Kernel.new v settings entropy) calls k)
    (hcapacity : k.store.capacity = none) {b : UInt8} (hfiller : k.filler = .known b)
    {p q : Pid} {r s : Process} (hne : p ≠ q)
    (hp : k.table.process? p = some r) (hq : k.table.process? q = some s)
    (hactive : r.status = .active) (hactive' : s.status = .active)
    (hprogram : k.RunsFile r) (hprogram' : k.RunsFile s)
    (hruns : k.runsByItself p) (hruns' : k.runsByItself q) :
    (k.runTurn p .ready).runTurn q .ready = (k.runTurn q .ready).runTurn p .ready := by
  have hsound := HostCall.sound_of_comesBy hspares hk
  have hlone {p q : Pid} {r s : Process} (hne : p ≠ q) (hp : k.table.process? p = some r)
      (hq : k.table.process? q = some s) (hactive : r.status = .active) (hprogram : k.RunsFile r) :
      k.Lone p q r b := by
    obtain ⟨hpath, content, hc, state, -, hsize, -⟩ := hsound.kept hp rfl
    refine ⟨hp, hactive, hne, hfiller, hcapacity, hprogram.file, ?_, ?_, hpath, ⟨content, hc, ?_⟩, ?_⟩
    · show k.store.pathOf? r.program ≠ some (k.backingPath p)
      rw [← hpath]
      exact hprogram.apart p r hp
    · show k.store.pathOf? r.program ≠ some (k.backingPath q)
      rw [← (hsound.kept hq rfl).path]
      exact hprogram.apart q s hq
    · omega
    · exact fun he => hne (Kernel.backingPath_inj he)
  have hfirst := hlone hne hp hq hactive hprogram
  have hsecond := hlone hne.symm hq hp hactive' hprogram'
  obtain ⟨cs, n, hrun, -⟩ := hfirst.runTurn hruns [] 0
  obtain ⟨ds, m, hrun', hafter'⟩ := hsecond.runTurn hruns' cs n
  obtain ⟨cs', n', hsame, hafter⟩ := hfirst.runTurn hruns ds m
  calc (k.runTurn p .ready).runTurn q .ready
      = (k.progressed p cs n).runTurn q .ready := by rw [hrun]
    _ = (k.progressed q ds m).progressed p cs n := hafter'
    _ = (k.progressed p cs n).progressed q ds m := (k.progressed_comm hne hcapacity cs ds n m).symm
    _ = (k.progressed p cs' n').progressed q ds m := by rw [← hsame, hrun]
    _ = (k.progressed q ds m).runTurn p .ready := hafter.symm
    _ = (k.runTurn q .ready).runTurn p .ready := by rw [hrun']

/-- A program that forks, and of which parent and child then write to their memory twice. -/
def forkingProgram : Bytes :=
  #[0xD8, 0x00, 0x04, 0xC1, 0xDA, 0x80, 0x03, 0x15, 0xDA, 0x80, 0x20, 0x15]

/-- A kernel that gives two instructions to a turn, with the program in its storage. -/
def forkingKernel : Kernel Volume :=
  Kernel.new ((Volume.empty.mkdir (Path.ofText "/tmp")).2.addFile (Path.ofText "/a") forkingProgram).2
    { budget := 2, ramInit := .known 7 }

/-- The kernel after the fork. -/
def forkedKernel : Kernel Volume :=
  HostCall.runAll forkingKernel [.spawn "/a", .tick]

/-- A parent and its child, which share the handle of their program, have their data regions grow in either
order. -/
theorem forked_turns_commute :
    (HostCall.courseAll forkingKernel [.spawn "/a", .tick]).all Moment.sparesBackings ∧
    ∃ r s, forkedKernel.table.process? 0 = some r ∧ forkedKernel.table.process? 1 = some s ∧
      r.program = s.program ∧
      (forkedKernel.runTurn 0 .ready).runTurn 1 .ready =
        (forkedKernel.runTurn 1 .ready).runTurn 0 .ready ∧
      ((forkedKernel.runTurn 0 .ready).runTurn 1 .ready).store.resizeCalls =
        forkedKernel.store.resizeCalls + 2 := by
  have hchecked : ((HostCall.courseAll forkingKernel [.spawn "/a", .tick]).all Moment.sparesBackings &&
      forkedKernel.store.capacity = none && forkedKernel.filler = .known 7 &&
      forkedKernel.runsByItself 0 && forkedKernel.runsByItself 1 &&
      ((forkedKernel.runTurn 0 .ready).runTurn 1 .ready).store.resizeCalls =
        forkedKernel.store.resizeCalls + 2 &&
      (forkedKernel.table.process? 0).any fun r => (forkedKernel.table.process? 1).any fun s =>
        r.status = .active && s.status = .active && r.program = s.program &&
        (forkedKernel.store.behind? r.program).isSome &&
        forkedKernel.table.live.all fun q => (forkedKernel.table.process? q).all fun p =>
          forkedKernel.store.pathOf? r.program ≠ forkedKernel.store.pathOf? p.backing) = true := by
    decide +kernel
  simp only [Bool.and_eq_true, Option.any_eq_true, decide_eq_true_eq] at hchecked
  obtain ⟨⟨⟨⟨⟨⟨hspares, hcapacity⟩, hfiller⟩, hruns⟩, hruns'⟩, hgrown⟩, r, hr, s, hs,
    ⟨⟨⟨hactive, hactive'⟩, hshared⟩, hfile⟩, hapart⟩ := hchecked
  have hcomes : HostCall.ComesBy forkingKernel [.spawn "/a", .tick] forkedKernel := .inr rfl
  have hprogram : forkedKernel.RunsFile r := by
    refine ⟨hfile, fun q p hp => ?_⟩
    have hq := List.all_eq_true.mp hapart q (Table.mem_live.mpr ⟨p, hp⟩)
    simp only [hp, Option.all_some, decide_eq_true_eq] at hq
    exact hq
  have hprogram' : forkedKernel.RunsFile s := by
    obtain ⟨hfile, hapart⟩ := hprogram
    rw [hshared] at hfile hapart
    exact ⟨hfile, hapart⟩
  exact ⟨hspares, r, s, hr, hs, hshared, independent_turns_commute _ _ _ _ hspares hcomes hcapacity
    hfiller (by decide) hr hs hactive hactive' hprogram hprogram' hruns hruns', hgrown⟩

end CoopKernel
