import CoopKernel.Proofs.Custody.Run
import CoopKernel.Proofs.Delivery
import CoopKernel.Proofs.Exchanging.Basic
import CoopKernel.Proofs.Waiting.Rousing

/-!
# What becomes of an exchange of programs

A process that calls for another program goes on as if nothing had happened if there is none to be had. If there
is one, it is committed to it before the arguments are in place: it starts over with the new program, or it ends
for a fault of the storage, and then neither of its programs nor its backing file is left open on its account.
-/

namespace CoopKernel

open Turn (Plain)

/-! ## What is left of a process that faults -/

section Fault

variable {σ : Type} [Storage σ] [VolumeBacked σ] {l : Ledger} {k : Kernel σ} {pid : Pid} {p : Process}

/-- Who is alive in the fallout of a death was so before, with the same files. -/
theorem Fallout.files {owed : Pid → Pid → Prop} {k' : Kernel σ} (h : Fallout owed k k') {q : Pid} {r : Process}
    (hr : k'.table.process? q = some r) :
    ∃ r', k.table.process? q = some r' ∧ r'.program = r.program ∧ r'.backing = r.backing := by
  obtain ⟨r', hr'⟩ := Table.isLive_iff.mp (h.live (Table.isLive_iff.mpr ⟨r, hr⟩))
  refine ⟨r', hr', ?_⟩
  cases h.fate hr' with
  | untouched hp _ =>
    cases hr.symm.trans hp
    exact ⟨rfl, rfl⟩
  | died _ hs => exact absurd (Table.isLive_iff.mpr ⟨r, hr⟩) (Fallout.not_live_of_free hs)
  | answered _ _ _ _ _ _ _ hp _ _ =>
    cases hr.symm.trans hp
    exact ⟨rfl, rfl⟩

/-- What is not on loan and what nobody else uses is closed when a process dies of a fault. -/
theorem Custody.closed_of_fault (c : Custody l k) {h : Handle} (hl : h ∉ l.loans)
    (hother : ¬k.table.UsedByOther pid h) (f : Fault) : Storage.pathOf? (k.fault pid f).store h = none := by
  obtain ⟨hfallout, hdead⟩ := Kernel.fault_fallout c pid f
  refine Option.not_isSome_iff_eq_none.mp fun hopen => ?_
  rcases (c.fault pid f).accounted hopen with hloan | ⟨q, r, hr, huses⟩
  · exact hl hloan
  · obtain ⟨r', hr', hprogram, hbacking⟩ := hfallout.files hr
    refine hother ⟨q, r', ?_, hr', by rw [hprogram, hbacking]; exact huses⟩
    rintro rfl
    exact hdead (Table.isLive_iff.mpr ⟨r, hr⟩)

end Fault

/-! ## What a process is after an exchange -/

/-- The program starts at its beginning and without handlers. The other registers are as before, and so are
the strings of the environment and the standard handle. -/
structure Snapshot.StartsOver (s s' : Snapshot) : Prop where
  ip : s'.reg Reg.ip = 0
  regs : ∀ r, r ≠ Reg.ip → s'.reg r = s.reg r
  skip : s'.skip = false
  handlers : ∀ signal, s'.handler signal = 0
  workDir : s'.env.workDir = s.env.workDir
  searchPath : s'.env.searchPath = s.env.searchPath
  stdio : s'.env.stdio = s.env.stdio

theorem Snapshot.restart_startsOver (s : Snapshot) (count : Nat) (args : Arguments) :
    s.StartsOver (s.restart count args) where
  ip := Registers.read_write_self _ _ _
  regs r hr := Registers.read_write_of_ne _ _ (Ne.symm hr)
  skip := rfl
  handlers signal := by cases signal <;> rfl
  workDir := rfl
  searchPath := rfl
  stdio := rfl

namespace Turn

/-- The process runs what is at a path, under a handle that was free. The handle of its old program is closed
exactly if no other process uses it, and otherwise nothing was opened or closed, and nobody's entry in the
table is another. -/
structure Exchanges (t : Turn Volume) (path : Path) (t' : Turn Volume) : Prop where
  fresh : t.kernel.store.pathOf? t'.self.program = none
  opened : t'.kernel.store.pathOf? t'.self.program = some path
  released : t'.kernel.store.pathOf? t.self.program = none ↔
    ¬t.kernel.table.UsedByOther t.self.pid t.self.program
  others : ∀ h, h ≠ t.self.program → h ≠ t'.self.program →
    t'.kernel.store.pathOf? h = t.kernel.store.pathOf? h
  table : t'.kernel.table = t.kernel.table.setProgram t.self.pid t'.self.program
  pid : t'.self.pid = t.self.pid
  backing : t'.self.backing = t.self.backing
  backingPath : t'.self.backingPath = t.self.backingPath

variable {l : Ledger} {t t' u : Turn Volume} {name : List UInt8} {path : Path} {program : Handle}
  {args : List (List UInt8)}

/-- Besides what was written to the backing file, a process is after the exchange what it is when it has taken
over the program. -/
structure TakesOver (t : Turn Volume) (path : Path) (program : Handle) (args : List (List UInt8))
    (t' : Turn Volume) : Prop where
  self : t'.self = (t.takenOver path program args).self
  table : t'.kernel.table = (t.takenOver path program args).kernel.table
  paths : ∀ h, t'.kernel.store.pathOf? h = (t.takenOver path program args).kernel.store.pathOf? h

theorem replaceProgram_takesOver (t : Turn Volume) (path : Path) (program : Handle) (args : List (List UInt8)) :
    Yields (replaceProgram path program args t) (fun _ => t.TakesOver path program args)
      fun f t' => f = .storage ∧ t.TakesOver path program args t' := by
  have hresize := Volume.steady_resize (t.takenOver path program args).kernel.store t.self.backingPath
    (Snapshot.blockSize + (Arguments.layout 0 (startTexts path args)).data.length)
  have hwrite := trans_of Volume.Steady hresize (Volume.steady_write _ t.self.backing Snapshot.blockSize
    (Arguments.layout 0 (startTexts path args)).data.toArray)
  rw [replaceProgram_eq]
  dsimp only
  split
  · exact ⟨rfl, rfl, rfl, hresize.paths⟩
  · split
    · exact ⟨rfl, rfl, hwrite.paths⟩
    · exact ⟨rfl, rfl, rfl, hwrite.paths⟩

theorem takenOver_table (t : Turn Volume) (path : Path) (program : Handle) (args : List (List UInt8)) :
    (t.takenOver path program args).kernel.table = t.kernel.table.setProgram t.self.pid program := by
  simp only [takenOver, Kernel.releaseProgram]
  split <;> rfl

/-- The old program is closed unless another process uses it, and nothing else is. -/
theorem takenOver_pathOf? (t : Turn Volume) (path : Path) (program : Handle) (args : List (List UInt8)) :
    (¬t.kernel.table.UsedByOther t.self.pid t.self.program ∧
      ∀ h, (t.takenOver path program args).kernel.store.pathOf? h =
        if t.self.program = h then none else t.kernel.store.pathOf? h) ∨
    (t.kernel.table.UsedByOther t.self.pid t.self.program ∧
      ∀ h, (t.takenOver path program args).kernel.store.pathOf? h = t.kernel.store.pathOf? h) := by
  have hother : (t.kernel.table.setProgram t.self.pid program).UsedByOther t.self.pid t.self.program ↔
      t.kernel.table.UsedByOther t.self.pid t.self.program :=
    Table.usedByOther_congr (fun q hne => Table.process?_modify_of_ne hne) _
  simp only [takenOver, Kernel.releaseProgram]
  split
  · next hused => exact .inr ⟨hother.mp (Table.usedByOther_iff.mp hused), fun _ => rfl⟩
  · next hunused =>
    refine .inl ⟨fun hused => hunused (Table.usedByOther_iff.mpr (hother.mpr hused)), fun h => ?_⟩
    exact Volume.pathOf?_close _ _ _

theorem TakesOver.exchanges (hc : InCustody l u) {s : Volume}
    (ho : Storage.openPath u.kernel.store path = (some program, s))
    (h : TakesOver { u with kernel := { u.kernel with store := s } } path program args t') :
    u.Exchanges path t' := by
  obtain ⟨-, hfree, hopened⟩ := VolumeBacked.openPath_some ho
  replace hopened : ∀ g, s.pathOf? g = if program = g then some path else u.kernel.store.pathOf? g := hopened
  replace hfree : u.kernel.store.pathOf? program = none := hfree
  obtain ⟨p, hp, -, hprogram, -⟩ := hc.seated
  have hold : (u.kernel.store.pathOf? u.self.program).isSome := hprogram ▸ hc.custody.program_open hp
  have hne : program ≠ u.self.program := by
    rintro rfl
    rw [hfree] at hold
    cases hold
  have hself : t'.self.program = program := by
    rw [h.self]
    rfl
  have hpaths := h.paths
  -- Whether or not the old program is closed, it is not the new one.
  rcases takenOver_pathOf? { u with kernel := { u.kernel with store := s } } path program args with
    ⟨hunused, htaken⟩ | ⟨hused, htaken⟩
  all_goals
    simp only [htaken, hopened] at hpaths
    refine {
      fresh := hself ▸ hfree
      opened := by rw [hself, hpaths]; simp [Ne.symm hne]
      released := ?_
      others := fun g hg hg' => by rw [hpaths]; simp [Ne.symm hg, hself ▸ Ne.symm hg']
      table := by rw [h.table, takenOver_table, hself]
      pid := by rw [h.self]; rfl
      backing := by rw [h.self]; rfl
      backingPath := by rw [h.self]; rfl }
  · rw [hpaths, if_pos rfl]
    exact ⟨fun _ => hunused, fun _ => rfl⟩
  · rw [hpaths, if_neg hne]
    exact ⟨fun hnone => absurd hnone (Option.ne_none_iff_isSome.mpr hold), fun hn => absurd hused hn⟩

theorem TakesOver.startsOver (h : t.TakesOver path program args t') :
    t.self.state.StartsOver t'.self.state := by
  rw [h.self]
  exact Snapshot.restart_startsOver _ _ _

/-! ## The three outcomes -/

/-- Either there is nothing to run or nothing to open it under, and nothing happens; or what was found is taken
over. -/
theorem exec_cases (hc : InCustody l u) (name : List UInt8) (args : List (List UInt8)) :
    ((u.Misses name ∨ u.kernel.store.Exhausted) ∧ exec name args u = .ok false u) ∨
      ¬(u.Misses name ∨ u.kernel.store.Exhausted) ∧
      ∃ path, u.Finds name path ∧ Yields (exec name args u)
        (fun done u' => done = true ∧ u.Exchanges path u' ∧ u.self.state.StartsOver u'.self.state)
        fun f u' => f = .storage ∧ u.Exchanges path u' ∧ Custody l u'.kernel := by
  have hcustody := InCustody.exec name args u hc
  rcases openProgram_cases u name with ⟨hmisses, hnone⟩ | ⟨path, hfinds, ⟨hexhausted, hnone⟩ | hopened⟩
  · exact .inl ⟨.inl hmisses, exec_of_none hnone⟩
  · exact .inl ⟨.inr hexhausted, exec_of_none hnone⟩
  · obtain ⟨program, s, hvalid, hfree, hs, hsome⟩ := hopened
    refine .inr ⟨?_, path, hfinds, ?_⟩
    · rintro (hmisses | hexhausted)
      · exact hfinds.not_misses hmisses
      · have hused := hexhausted program hvalid
        rw [hfree] at hused
        cases hused
    · have htakes := replaceProgram_takesOver { u with kernel := { u.kernel with store := s } } path program args
      rw [exec_of_some hsome] at hcustody ⊢
      cases hr : replaceProgram path program args { u with kernel := { u.kernel with store := s } } with
      | ok _ u' =>
        rw [hr] at htakes
        rw [bind_of_ok hr]
        exact ⟨rfl, htakes.exchanges hc hs, htakes.startsOver⟩
      | error f u' =>
        rw [hr] at htakes
        rw [bind_of_error hr] at hcustody ⊢
        exact ⟨htakes.1, htakes.2.exchanges hc hs, hcustody⟩

/-- A process that faults while it exchanges its program leaves neither the new program nor its backing file open,
and the old program only if others use it. -/
theorem Exchanges.closed (hc : InCustody l u) (h : u.Exchanges path t') (hc' : Custody l t'.kernel) (f : Fault) :
    (t'.kernel.fault u.self.pid f).store.pathOf? t'.self.program = none ∧
      (t'.kernel.fault u.self.pid f).store.pathOf? u.self.backing = none ∧
      (¬u.kernel.table.UsedByOther u.self.pid u.self.program →
        (t'.kernel.fault u.self.pid f).store.pathOf? u.self.program = none) := by
  obtain ⟨p, hp, -, hprogram, hbacking⟩ := hc.seated
  have hused (g : Handle) : t'.kernel.table.UsedByOther u.self.pid g ↔ u.kernel.table.UsedByOther u.self.pid g := by
    rw [h.table]
    exact Table.usedByOther_congr (fun q hne => Table.process?_modify_of_ne hne) g
  have hclosed {g : Handle} (hl : g ∉ l.loans) (hother : ¬u.kernel.table.UsedByOther u.self.pid g) :
      (t'.kernel.fault u.self.pid f).store.pathOf? g = none :=
    hc'.closed_of_fault hl (fun hu => hother ((hused g).mp hu)) f
  refine ⟨hclosed ?_ ?_, hclosed ?_ ?_, fun hother => hclosed ?_ hother⟩
  · intro hl
    have hopen : (u.kernel.store.pathOf? t'.self.program).isSome := hc.custody.loan_open hl
    rw [h.fresh] at hopen
    cases hopen
  · rintro ⟨q, r, -, hr, huses⟩
    have hopen : (u.kernel.store.pathOf? t'.self.program).isSome := by
      rcases huses with huses | huses
      · exact huses ▸ hc.custody.program_open hr
      · exact huses ▸ hc.custody.backing_open hr
    rw [h.fresh] at hopen
    cases hopen
  · exact fun hl => (hc.custody.loan_apart hl hp).2 hbacking
  · rintro ⟨q, r, hne, hr, huses⟩
    rw [← hbacking] at huses
    rcases huses with huses | huses
    · exact hc.custody.backing_apart hp hr huses.symm
    · exact hne (hc.custody.backing_unique hr hp huses)
  · exact fun hl => (hc.custody.loan_apart hl hp).1 hprogram

end Turn

/-! ## Runs -/

/-- Whatever a process is asked to exchange its program for while it takes a step, and whatever the arguments are:
if there is no program under the name, or no handle left to open it under, nothing happens at all, and only
then. Otherwise the process runs the first program that was found, its old one is closed exactly if no other
process uses it, and it starts over with its registers and its environment as they were; or it faults because
its backing file cannot take the arguments, and is dead without having left any of its files open. -/
theorem exchange_all_or_nothing {v : Volume} {settings : Settings} {entropy : UInt64}
    {calls : List (HostCall Volume)} (h : HostCall.allSpare (Kernel.new v settings entropy) calls)
    {t : Turn Volume} (ht : .stepped t ∈ HostCall.courseAll (Kernel.new v settings entropy) calls)
    {u : Turn Volume} (hplain : Plain t u) (name : List UInt8) (args : List (List UInt8)) :
    (∀ u', Turn.exec name args u = .ok false u' ↔
      u' = u ∧ (u.Misses name ∨ u.kernel.store.Exhausted)) ∧
    (∀ u', Turn.exec name args u = .ok true u' → ∃ path, u.Finds name path ∧ u.Exchanges path u' ∧
      u.self.state.StartsOver u'.self.state) ∧
    ∀ f u', Turn.exec name args u = .error f u' → f = .storage ∧ ∃ path, u.Finds name path ∧
      u.Exchanges path u' ∧
      let k := Kernel.endTurn u' (some (.faulted f))
      k.table.slot u.self.pid = .free (some exitFault) ∧ k.store.pathOf? u'.self.program = none ∧
        k.store.pathOf? u.self.backing = none ∧
        (¬u.kernel.table.UsedByOther u.self.pid u.self.program → k.store.pathOf? u.self.program = none) := by
  obtain ⟨l, hcustody⟩ := HostCall.inCustody_of_stepped h ht
  have hc := hcustody.plain hplain
  rcases Turn.exec_cases hc name args with ⟨hnone, hsame⟩ | ⟨hsome, path, hfinds, hdone⟩
  · simp only [hsame]
    refine ⟨fun u' => ⟨fun he => ?_, fun he => by rw [he.1]⟩, fun _ he => (nomatch he),
      fun _ _ he => (nomatch he)⟩
    cases he
    exact ⟨rfl, hnone⟩
  · cases hr : Turn.exec name args u with
    | ok done u' =>
      rw [hr] at hdone
      obtain ⟨rfl, hexchanges, hstarts⟩ := hdone
      refine ⟨fun u' => ⟨fun he => (nomatch he), fun he => absurd he.2 hsome⟩, fun u'' he => ?_,
        fun _ _ he => (nomatch he)⟩
      cases he
      exact ⟨path, hfinds, hexchanges, hstarts⟩
    | error f u' =>
      rw [hr] at hdone
      obtain ⟨rfl, hexchanges, hc'⟩ := hdone
      refine ⟨fun u' => ⟨fun he => (nomatch he), fun he => absurd he.2 hsome⟩, fun _ he => (nomatch he),
        fun f' u'' he => ?_⟩
      cases he
      have hend : Kernel.endTurn u' (some (.faulted .storage)) = u'.kernel.fault u.self.pid .storage := by
        rw [← hexchanges.pid]
        rfl
      obtain ⟨p, hp, -⟩ := hc.seated
      have hlive : u'.kernel.table.process? u.self.pid = some { p with program := u'.self.program } := by
        rw [hexchanges.table]
        exact Table.process?_modify_self hp
      rw [hend]
      exact ⟨rfl, path, hfinds, hexchanges, (Kernel.fault_ends hlive .storage).1,
        hexchanges.closed hc hc' .storage⟩

/-- A program that runs another one. -/
def callingProgram : Bytes :=
  #[0xD0, 0x05, 0xC1]

/-- A kernel whose storage has room for a few bytes besides what is there when a process was spawned. -/
def narrowKernel : Kernel Volume :=
  Kernel.new ((((Volume.empty.mkdir (Path.ofText "/tmp")).2.addFile (Path.ofText "/bin/a")
    callingProgram).2.addFile (Path.ofText "/b") #[0xC0]).2.setCapacity (some 175)) {}

/-- The first process calls for another program, and nobody else runs its own. There is no program under one name, and
there is one under another name, for which long arguments find no room. -/
def Turn.callsNarrowly (t : Turn Volume) : Bool :=
  t.self.pid = 0 && t.call?.any (fun c => c.1 = .exec) &&
    !((t.kernel.table.live.filter (· ≠ t.self.pid)).any (t.kernel.table.uses t.self.program)) &&
    (exec [0x2F, 0x63] [] t matches .ok false _) && (exec [0x2F, 0x62] [] t matches .ok true _) &&
    (exec [0x2F, 0x62] [[1, 2, 3, 4, 5, 6, 7, 8, 9, 10]] t matches .error _ _)

/-- The process runs the other program if its arguments are short enough, and otherwise dies. There is no program
under another name. -/
theorem exchange_all_or_nothing_of_narrow :
    let calls := [.spawn "/bin/a", .tick]
    HostCall.allSpare narrowKernel calls ∧ ∃ t args u₁ u₂,
      .stepped t ∈ HostCall.courseAll narrowKernel calls ∧ t.call? = some (.exec, args) ∧
      Turn.exec [0x2F, 0x63] [] t = .ok false t ∧
      Turn.exec [0x2F, 0x62] [] t = .ok true u₁ ∧ u₁.kernel.store.pathOf? t.self.program = none ∧
      (∃ path, t.Exchanges path u₁) ∧
      Turn.exec [0x2F, 0x62] [[1, 2, 3, 4, 5, 6, 7, 8, 9, 10]] t = .error .storage u₂ ∧
      (Kernel.endTurn u₂ (some (.faulted .storage))).table.slot 0 = .free (some exitFault) ∧
      (Kernel.endTurn u₂ (some (.faulted .storage))).store.pathOf? u₂.self.program = none := by
  intro calls
  have hspare : HostCall.allSpare narrowKernel calls := by decide +kernel
  obtain ⟨t, ht, hkind⟩ := HostCall.exists_stepped narrowKernel calls Turn.callsNarrowly (by decide +kernel)
  simp only [Turn.callsNarrowly, Bool.and_eq_true, Option.any_eq_true, decide_eq_true_eq, Bool.not_eq_true'] at hkind
  obtain ⟨⟨⟨⟨⟨hpid, ⟨_, args⟩, hcall, rfl⟩, halone⟩, hnone⟩, hsome⟩, hfault⟩ := hkind
  have hunused : ¬t.kernel.table.UsedByOther t.self.pid t.self.program := by
    rw [← Table.usedByOther_iff, halone]
    exact Bool.false_ne_true
  have hall := exchange_all_or_nothing hspare ht (refl_of Plain t)
  split at hnone <;> [skip; cases hnone]
  next u hnone' =>
  split at hsome <;> [skip; cases hsome]
  next u₁ hsome' =>
  split at hfault <;> [skip; cases hfault]
  next f u₂ hfault' =>
  obtain ⟨rfl, -⟩ := ((hall _ _).1 u).mp hnone'
  obtain ⟨path, -, hexchanges, -⟩ := (hall _ _).2.1 u₁ hsome'
  obtain ⟨rfl, -, -, -, hslot, hclosed, -⟩ := (hall _ _).2.2 f u₂ hfault'
  rw [hpid] at hslot
  exact ⟨hspare, u, args, u₁, u₂, ht, hcall, hnone', hsome', hexchanges.released.mpr hunused, ⟨path, hexchanges⟩,
    hfault', hslot, hclosed⟩

end CoopKernel
