import CoopKernel.Proofs.Cascade
import CoopKernel.Proofs.Log
import CoopKernel.Proofs.Splitting.Step

/-!
# Splitting a turn

A turn can be split in two without anybody noticing, as long as the process does no system call. It
does the same in the two parts as in one, and is saved and loaded in between; both ends are the same, or
the process dies of the same fault.
-/

namespace CoopKernel

namespace Turn

variable {σ : Type} [Storage σ]

theorem steps_succ (n : Nat) (t : Turn σ) :
    steps (n + 1) t = (step >>= fun _ => steps n) t :=
  rfl

/-- Steps that come to an end are followed by the others. -/
theorem steps_add_of_ok {n m : Nat} {t t₁ : Turn σ} (h : steps n t = .ok () t₁) :
    steps (n + m) t = steps m t₁ := by
  induction n generalizing t with
  | zero =>
    cases h
    rw [Nat.zero_add]
  | succ n ih =>
    rw [steps_succ] at h
    rw [Nat.add_right_comm, steps_succ]
    cases hs : step t with
    | ok _ t₂ =>
      rw [bind_of_ok hs] at h ⊢
      exact ih h
    | error e t₂ =>
      rw [bind_of_error hs] at h
      cases h

/-- What ends the steps ends them wherever they would have been split. -/
theorem steps_add_of_error {n m : Nat} {t t₁ : Turn σ} {e : TurnEnd} (h : steps n t = .error e t₁) :
    steps (n + m) t = .error e t₁ := by
  induction n generalizing t with
  | zero => cases h
  | succ n ih =>
    rw [steps_succ] at h
    rw [Nat.add_right_comm, steps_succ]
    cases hs : step t with
    | ok _ t₂ =>
      rw [bind_of_ok hs] at h ⊢
      exact ih h
    | error e t₂ =>
      rw [bind_of_error hs] at h ⊢
      exact h

theorem stepsAlone_add {n m : Nat} {t : Turn σ} (h : t.stepsAlone (n + m)) :
    t.stepsAlone n ∧ ∀ t₁, steps n t = .ok () t₁ → t₁.stepsAlone m := by
  induction n generalizing t with
  | zero =>
    rw [Nat.zero_add] at h
    refine ⟨rfl, ?_⟩
    intro t₁ h₁
    cases h₁
    exact h
  | succ n ih =>
    rw [Nat.add_right_comm, stepsAlone, Bool.and_eq_true] at h
    obtain ⟨hnext, hrest⟩ := h
    rw [stepsAlone, Bool.and_eq_true]
    cases hs : step t with
    | ok _ t₂ =>
      rw [hs] at hrest
      obtain ⟨hleft, hright⟩ := ih hrest
      refine ⟨⟨hnext, hleft⟩, fun t₁ h₁ => hright t₁ ?_⟩
      rw [steps_succ, bind_of_ok hs] at h₁
      exact h₁
    | error e t₂ =>
      refine ⟨⟨hnext, rfl⟩, ?_⟩
      intro t₁ h₁
      rw [steps_succ, bind_of_error hs] at h₁
      cases h₁

theorem call?_of_next? {t : Turn σ} (h : t.next? ≠ some .syscall) : t.call? = none := by
  unfold next? at h
  unfold call?
  split
  · rfl
  · next hs =>
    rw [if_neg hs] at h
    cases hf : fetch t with
    | error f t₁ => rfl
    | ok instr t₁ =>
      rw [hf] at h
      cases instr with
      | syscall => exact absurd rfl h
      | _ => rfl

/-- Without system calls only a fault ends a turn. -/
theorem faulted_of_stepsAlone {n : Nat} {t t₁ : Turn σ} {e : TurnEnd} (h : t.stepsAlone n)
    (he : steps n t = .error e t₁) : ∃ f, e = .faulted f := by
  induction n generalizing t with
  | zero => cases he
  | succ n ih =>
    rw [stepsAlone, Bool.and_eq_true] at h
    obtain ⟨hnext, hrest⟩ := h
    have hstep := step_plain (call?_of_next? (of_decide_eq_true hnext))
    rw [steps_succ] at he
    cases hs : step t with
    | ok _ t₂ =>
      rw [hs] at hrest
      rw [bind_of_ok hs] at he
      exact ih hrest he
    | error e' t₂ =>
      rw [hs] at hstep
      rw [bind_of_error hs] at he
      cases he
      exact hstep.2

end Turn

namespace Kernel

section Budgets

variable {σ : Type}

/-- The kernel with another budget. -/
def withBudget (k : Kernel σ) (budget : UInt8) : Kernel σ :=
  { k with settings := { k.settings with budget } }

/-- Gives a process two turns with the given budgets instead of one, unless it dies in the first. -/
def runTurns [Storage σ] (k : Kernel σ) (pid : Pid) (why : Resumption) (n m : UInt8) : Kernel σ :=
  let k := (k.withBudget n).runTurn pid why
  if k.table.isLive pid then (k.withBudget m).runTurn pid .ready else k

/-- A process died of a fault, after what is in the log. -/
def DiedOf (pid : Pid) (f : Fault) (log : List Event) (k : Kernel σ) : Prop :=
  k.exitStatus? pid = some exitFault ∧ (log ++ [.faulted pid f]) <+: k.log.toList

end Budgets

/-- Two kernels have the same processes, which do the same and have executed as many instructions, the
same files with the same bytes in them, and all else but the budget. -/
structure Same (k k' : Kernel Volume) : Prop where
  rest : k' = { k with store := k'.store, settings := k'.settings }
  settings : k'.settings = { k.settings with budget := k'.settings.budget }
  store : k'.store = { k.store with nodes := k'.store.nodes }
  nodes : ∀ p, k'.store.node? p = k.store.node? p

/-- Two turns of a process came to the same: it goes on with the same snapshot, or it died of the same
fault. -/
inductive SameOutcome (pid : Pid) (k k' : Kernel Volume) : Prop where
  | alive (live : k.table.isLive pid) (same : k.Same k')
      (snapshot : (k'.snapshot? pid).1 = (k.snapshot? pid).1)
  | dead (f : Fault) (log : List Event) (left : k.DiedOf pid f log) (right : k'.DiedOf pid f log)

/-- The same is loaded from both. -/
theorem Same.snapshot? {k k' : Kernel Volume} (h : k.Same k') (pid : Pid) :
    (k'.snapshot? pid).1 = (k.snapshot? pid).1 := by
  have htable : k'.table = k.table := by rw [h.rest]
  have hload (g : Handle) : (Snapshot.load k'.store g).1 = (Snapshot.load k.store g).1 := by
    have hread : (Storage.read k'.store g 0 Snapshot.blockSize).1 =
        (Storage.read k.store g 0 Snapshot.blockSize).1 :=
      Volume.read_congr h.store h.nodes g 0 Snapshot.blockSize
    simp only [Snapshot.load, hread]
    split <;> rfl
  unfold Kernel.snapshot? load
  rw [htable]
  cases k.table.process? pid with
  | none => rfl
  | some p =>
    have hp := hload p.backing
    rcases hl : Snapshot.load k.store p.backing with ⟨loaded, store⟩
    rcases hl' : Snapshot.load k'.store p.backing with ⟨loaded', store'⟩
    rw [hl, hl'] at hp
    obtain rfl : loaded' = loaded := hp
    simp only [hl, hl']
    cases loaded' <;> rfl

theorem diedOf_fault {σ : Type} [Storage σ] {k : Kernel σ} {pid : Pid} {p : Process}
    (hp : k.table.process? pid = some p) (f : Fault) :
    (k.fault pid f).DiedOf pid f k.log.toList := by
  obtain ⟨hended, es, hlogs⟩ := fault_ends hp f
  refine ⟨?_, es, ?_⟩
  · rw [exitStatus?, hended]
    rfl
  · rw [hlogs, List.append_assoc, List.singleton_append]

end Kernel

namespace Runner

open Turn

variable {r : Runner} {t t' : Turn Volume}

/-- The process runs, and its environment comes back as it is when it is saved and loaded. -/
structure Settled (r : Runner) : Prop where
  status : r.process.status = .active
  workDir : Snapshot.storedText r.env.workDir = r.env.workDir
  searchPath : Snapshot.storedText r.env.searchPath = r.env.searchPath
  argCount : r.env.argCount.toNat ≤ maxArguments

theorem Settled.stored (hr : r.Settled) {s : Snapshot} (h : s.env = r.env) : s.stored = s := by
  rw [Snapshot.stored, h, hr.workDir, hr.searchPath, ← h]

namespace Beside

theorem process_right (h : r.Beside t t') :
    ∃ count, t'.kernel.table.process? t'.self.pid = some { r.process with count } := by
  rw [h.pid_right, h.pid, h.kernel]
  exact h.entry

/-- One of the processes can be saved and loaded again, with another budget. -/
theorem reloaded (hr : r.Settled) (h : r.Beside t t') (budget : UInt8) :
    ∃ u, ((t'.kernel.saved t'.self).withBudget budget).openTurn r.pid .ready = .ok u ∧
      u.kernel.settings.budget = budget ∧ r.Beside t u := by
  obtain ⟨c, d, hc, hd, hcd⟩ := h.space.store.behind? h.space.owns.place
  obtain ⟨count, hentry⟩ := h.process_right
  have hdata : t'.self.backing = r.process.backing := h.space.owns_right.data
  have hroom : Snapshot.blockSize ≤ d.size := by rw [hcd.size]; exact hcd.room
  have henv : t'.self.state.env = r.env := by rw [h.state, h.env]
  have hopen := Kernel.saved_turn (k := t'.kernel.withBudget budget) hentry hdata
    (by rw [hdata]; exact hd) hroom (by rw [henv]; exact hr.argCount)
  rw [h.pid_right, h.pid, hr.stored henv] at hopen
  have htable : t'.kernel.table.setStatus r.pid .active = t'.kernel.table := by
    rw [h.pid_right, h.pid] at hentry
    exact Table.setStatus_self hentry hr.status
  have hpath : (t'.kernel.withBudget budget).backingPath r.pid = t.self.backingPath := by
    have hdir : t'.kernel.settings.tmpDir = t.kernel.settings.tmpDir := by rw [h.settings]
    refine Eq.trans ?_ (h.path.trans h.space.owns.dataPath.symm)
    simp only [Kernel.backingPath, Kernel.withBudget, hdir]
  have hself : t.self.program = r.process.program ∧ t.self.backing = r.process.backing :=
    ⟨h.space.owns.program, h.space.owns.data⟩
  refine ⟨_, hopen, rfl, h.pid, h.entry, h.path, h.env, ⟨h.space.owns, ?_, ?_, ?_⟩, ?_, ?_, ?_⟩
  · simp only [Turn.space, Kernel.onTable, AddressSpace.mk.injEq, true_and, and_true]
    exact ⟨h.space.filler, h.space.limit, hself.1.symm, hself.2.symm, hpath, h.space.dataLength⟩
  · exact h.space.store.write_block (by rw [hdata]; exact h.space.owns.place)
      (Snapshot.size_toBlock t'.self.state)
  · exact Window.shows_of_empty rfl _
  · simp only [Kernel.onTable, Kernel.saved, Kernel.withBudget, htable]
    rw [h.kernel]
  · simp only [Kernel.onTable, Kernel.saved, Kernel.withBudget]
    rw [h.settings]
  · rw [hpath, h.state, ← h.pid, ← hself.1, ← hself.2]

/-- When both are saved nothing differs but the budget. -/
theorem same_saved (h : r.Beside t t') :
    (t.kernel.saved t.self).Same (t'.kernel.saved t'.self) := by
  have hblock := Snapshot.size_toBlock t.self.state
  have hplace : t.kernel.store.pathOf? t.self.backing = some r.place := by
    have hdata : t.self.backing = r.process.backing := h.space.owns.data
    rw [hdata]
    exact h.space.owns.place
  have hbacking : t'.self.backing = t.self.backing := by rw [h.self]
  have hstore : (t'.kernel.saved t'.self).store =
      (t'.kernel.store.write t.self.backing 0 t.self.state.toBlock).2 := by
    rw [Kernel.saved, hbacking, h.state]
  refine ⟨?_, h.settings, ?_, ?_⟩
  · simp only [Kernel.saved]
    rw [h.kernel]
  · rw [hstore]
    exact (h.space.store.write hplace 0 t.self.state.toBlock).2.rest
  · intro p
    rw [hstore]
    exact h.space.store.node?_of_same_block hplace hblock p

/-- Both can be saved. -/
theorem hasBlock (h : r.Beside t t') : t.space.HasBlock ∧ t'.space.HasBlock := by
  obtain ⟨c, d, hc, hd, hcd⟩ := h.space.store.behind? h.space.owns.place
  refine ⟨⟨c, ?_, hcd.room⟩, d, ?_, by rw [hcd.size]; exact hcd.room⟩
  · rw [h.space.owns.data]
    exact hc
  · rw [h.space.owns_right.data]
    exact hd

end Beside

end Runner

namespace Kernel

open Turn Runner

variable {k : Kernel Volume} {pid : Pid} {p : Process} {s : Snapshot} {why : Resumption} {n m : UInt8}

/-- The state block of the process is as the kernel writes it, and its program is a regular file other
than its backing file, by which path ever the kernel gets at that. -/
structure Ordinary (k : Kernel Volume) (pid : Pid) (p : Process) (s : Snapshot) : Prop where
  process : k.table.process? pid = some p
  block : (k.store.behind? p.backing).map (·.slice 0 Snapshot.blockSize) = some s.toBlock
  program : (k.store.behind? p.program).isSome
  apart : k.store.pathOf? p.program ≠ k.store.pathOf? p.backing
  apartPath : k.store.pathOf? p.program ≠ some (k.backingPath pid)

namespace Ordinary

/-- The backing file is somewhere, and has room for the block. -/
theorem backing (h : k.Ordinary pid p s) : ∃ place content, k.store.pathOf? p.backing = some place ∧
    k.store.content? place = some content ∧ Snapshot.blockSize ≤ content.size ∧
    content.slice 0 Snapshot.blockSize = s.toBlock := by
  obtain ⟨content, hc, hblock⟩ := Option.map_eq_some_iff.mp h.block
  obtain ⟨place, hplace, hcontent⟩ := Option.bind_eq_some_iff.mp hc
  refine ⟨place, content, hplace, hcontent, ?_, hblock⟩
  have hsize := congrArg Array.size hblock
  rw [Bytes.size_slice, Bytes.room, Snapshot.size_toBlock] at hsize
  omega

/-- The turn of a process that was loaded. -/
def opened (k : Kernel Volume) (self : Loaded) (why : Resumption) : Turn Volume :=
  let t := k.resume self why
  { t with kernel := t.kernel.onTable (·.setStatus self.pid .active) }

/-- With whatever budgets, the turns of a process that was loaded begin alike. -/
theorem opened_beside {r : Runner} {self : Loaded} {content : Bytes} (hpid : self.pid = r.pid)
    (hentry : ∃ count,
      (k.table.setStatus r.pid .active).process? r.pid = some { r.process with count })
    (hpath : k.backingPath r.pid = r.backingPath) (henv : self.state.env = r.env)
    (howns : r.Owns (Turn.space ⟨k, self⟩)) (hcontent : k.store.content? r.place = some content)
    (hroom : Snapshot.blockSize ≤ content.size) (budget budget' : UInt8) :
    r.Beside (opened (k.withBudget budget) self why) (opened (k.withBudget budget') self why) := by
  rw [← hpid] at hentry hpath
  have halike := Volume.Alike.refl hcontent hroom
  cases why with
  | ready =>
    exact ⟨hpid, hpid ▸ hentry, hpid ▸ hpath, henv, ⟨howns, rfl, halike, howns.window⟩, rfl, rfl, rfl⟩
  | result value =>
    exact ⟨hpid, hpid ▸ hentry, hpid ▸ hpath, henv, ⟨{ howns with }, rfl, halike, howns.window⟩,
      rfl, rfl, rfl⟩

/-- With whatever budgets, the turn of such a process starts the same way, or the process dies of having
too many arguments. -/
theorem opens (h : k.Ordinary pid p s) (why : Resumption) :
    (∀ budget, (k.withBudget budget).openTurn pid why =
      .error ((k.withBudget budget).fault pid .corruptState)) ∨
    ∃ r : Runner, r.pid = pid ∧ r.Settled ∧ ∀ budget budget', ∃ t t',
      (k.withBudget budget).openTurn pid why = .ok t ∧ t.kernel.settings.budget = budget ∧
      (k.withBudget budget').openTurn pid why = .ok t' ∧ t'.kernel.settings.budget = budget' ∧
      r.Beside t t' := by
  obtain ⟨place, content, hplace, hcontent, hroom, hblock⟩ := h.backing
  have hbehind : k.store.behind? p.backing = some content := by
    rw [Volume.behind?, hplace, Option.bind_some, hcontent]
  have hload (budget : UInt8) := load_eq (k := k.withBudget budget) h.process hbehind hroom
  rw [hblock] at hload
  by_cases hargs : s.env.argCount.toNat ≤ maxArguments
  · obtain ⟨code, hcode⟩ := Option.isSome_iff_exists.mp h.program
    let self : Loaded := ⟨pid, p.program, p.backing, k.backingPath pid, s.stored, Window.closed⟩
    let r : Runner := ⟨pid, { p with status := .active }, k.backingPath pid, place, code, s.stored.env⟩
    have hopen (budget : UInt8) :
        (k.withBudget budget).openTurn pid why = .ok (opened (k.withBudget budget) self why) := by
      unfold openTurn
      rw [hload, Snapshot.ofBlock_toBlock hargs]
      rfl
    have hentry : ∃ count,
        (k.table.setStatus pid .active).process? pid = some { r.process with count } := by
      exact ⟨p.count, Table.process?_modify_self h.process⟩
    have howns : r.Owns (Turn.space ⟨k, self⟩) := by
      refine ⟨rfl, rfl, rfl, hplace, hcode, ?_, h.apartPath, Window.shows_of_empty rfl _⟩
      exact fun he => h.apart (he.trans hplace.symm)
    have hworkDir : Snapshot.storedText s.stored.env.workDir = s.stored.env.workDir := by
      simp only [Snapshot.stored, Snapshot.storedText_storedText]
    have hsearchPath : Snapshot.storedText s.stored.env.searchPath = s.stored.env.searchPath := by
      simp only [Snapshot.stored, Snapshot.storedText_storedText]
    have hcount : s.stored.env.argCount.toNat ≤ maxArguments := by
      rw [Snapshot.stored_argCount]
      exact hargs
    have hsettled : r.Settled := ⟨rfl, hworkDir, hsearchPath, hcount⟩
    refine .inr ⟨r, rfl, hsettled, fun budget budget' =>
      ⟨_, _, hopen budget, ?_, hopen budget', ?_,
        opened_beside rfl hentry rfl rfl howns hcontent hroom budget budget'⟩⟩
    · cases why <;> rfl
    · cases why <;> rfl
  · refine .inl ?_
    intro budget
    unfold openTurn
    rw [hload, Snapshot.ofBlock_toBlock_of_many (Nat.not_le.mp hargs)]
    rfl

end Ordinary

/-- A process that died is not alive. -/
theorem DiedOf.not_live {k : Kernel Volume} {f : Fault} {log : List Event} (h : k.DiedOf pid f log) :
    ¬k.table.isLive pid := by
  have hslot := h.1
  unfold exitStatus? at hslot
  rw [Table.isLive, Table.process?]
  cases hs : k.table.slot pid with
  | free status => exact Bool.false_ne_true
  | taken p' =>
    rw [hs] at hslot
    cases hslot

/-- A fault in one of two turns in lockstep is the end of the process in both. -/
theorem diedOf_of_agree {r : Runner} {f : Fault} {t : Turn Volume}
    {res : EStateM.Result TurnEnd (Turn Volume) Unit} (h : Agree r.Beside (.error (.faulted f) t) res) :
    ∃ log, (closeTurn (.error (.faulted f) t)).DiedOf r.pid f log ∧
      (closeTurn res).DiedOf r.pid f log := by
  obtain ⟨t', rfl, hbeside⟩ := h.error
  obtain ⟨count, hentry⟩ := hbeside.entry
  obtain ⟨count', hentry'⟩ := hbeside.process_right
  rw [hbeside.pid_right, hbeside.pid] at hentry'
  have hlog : t'.kernel.log = t.kernel.log := by rw [hbeside.kernel]
  have hright := diedOf_fault hentry' f
  rw [hlog] at hright
  simp only [closeTurn, endTurn, hbeside.pid_right, hbeside.pid]
  exact ⟨_, diedOf_fault hentry f, hright⟩

/-- The kernels after two turns in lockstep. -/
theorem sameOutcome_of_agree {r : Runner} {res res' : EStateM.Result TurnEnd (Turn Volume) Unit}
    (h : Agree r.Beside res res') (hfault : ∀ e t, res = .error e t → ∃ f, e = .faulted f) :
    SameOutcome r.pid (closeTurn res) (closeTurn res') := by
  cases res with
  | ok _ t =>
    obtain ⟨t', rfl, hbeside⟩ := h.ok
    obtain ⟨hleft, hright⟩ := hbeside.hasBlock
    have hsame := hbeside.same_saved
    simp only [closeTurn, endTurn_of_hasBlock hleft, endTurn_of_hasBlock hright]
    obtain ⟨count, hentry⟩ := hbeside.entry
    refine .alive ?_ hsame (hsame.snapshot? r.pid)
    exact Table.isLive_iff.mpr ⟨_, hentry⟩
  | error e t =>
    obtain ⟨f, rfl⟩ := hfault e t rfl
    obtain ⟨log, hleft, hright⟩ := diedOf_of_agree h
    exact .dead f log hleft hright

/-- A turn without system calls can be split in two: the process ends up with the same snapshot and the
same memory, having executed as many instructions, or it dies of the same fault. -/
theorem split_turn_unnoticed (h : k.Ordinary pid p s) (hbudget : n.toNat + m.toNat ≤ 255)
    (halone : ∀ t, (k.withBudget (n + m)).openTurn pid why = .ok t →
      t.stepsAlone (n.toNat + m.toNat)) :
    SameOutcome pid ((k.withBudget (n + m)).runTurn pid why) (k.runTurns pid why n m) := by
  have hsum : (n + m).toNat = n.toNat + m.toNat := by
    rw [UInt8.toNat_add, Nat.mod_eq_of_lt (by omega)]
  rcases h.opens why with hdies | ⟨r, rfl, hsettled, hopens⟩
  · have hturn (budget : UInt8) : (k.withBudget budget).runTurn pid why =
        (k.withBudget budget).fault pid .corruptState := by
      rw [runTurn_eq, hdies]
    have hdead (budget : UInt8) :=
      diedOf_fault (k := k.withBudget budget) h.process .corruptState
    have hsplit : k.runTurns pid why n m = (k.withBudget n).fault pid .corruptState := by
      unfold runTurns
      rw [hturn]
      exact if_neg (hdead n).not_live
    rw [hsplit, hturn]
    exact .dead _ _ (hdead (n + m)) (hdead n)
  · obtain ⟨t, t', hopen, hwhole, hopen', hpart, hbeside⟩ := hopens (n + m) n
    obtain ⟨halone₁, halone₂⟩ := stepsAlone_add (halone t hopen)
    have hfirst := steps_beside hbeside halone₁
    have hleft : (k.withBudget (n + m)).runTurn r.pid why =
        closeTurn (steps (n.toNat + m.toNat) t) := by
      rw [runTurn_eq, hopen]
      dsimp only
      rw [hwhole, hsum]
    have hright : (k.withBudget n).runTurn r.pid why = closeTurn (steps n.toNat t') := by
      rw [runTurn_eq, hopen']
      dsimp only
      rw [hpart]
    unfold runTurns
    rw [hleft, hright]
    cases hs : steps n.toNat t with
    | error e t₁ =>
      -- The process dies in the first part already, and there is no second.
      rw [hs] at hfirst
      obtain ⟨f, rfl⟩ := faulted_of_stepsAlone halone₁ hs
      obtain ⟨log, hdied, hdied'⟩ := diedOf_of_agree hfirst
      rw [steps_add_of_error hs, if_neg hdied'.not_live]
      exact .dead f log hdied hdied'
    | ok _ t₁ =>
      rw [hs] at hfirst
      obtain ⟨t₁', hs', hbeside₁⟩ := hfirst.ok
      obtain ⟨u, hreopen, hrest, hbeside₂⟩ := hbeside₁.reloaded hsettled m
      obtain ⟨count, hentry⟩ := hbeside₁.process_right
      rw [hbeside₁.pid_right, hbeside₁.pid] at hentry
      have hlive : (t₁'.kernel.saved t₁'.self).table.isLive r.pid :=
        Table.isLive_iff.mpr ⟨_, hentry⟩
      have hsecond : ((t₁'.kernel.saved t₁'.self).withBudget m).runTurn r.pid .ready =
          closeTurn (steps m.toNat u) := by
        rw [runTurn_eq, hreopen]
        dsimp only
        rw [hrest]
      have hsaved : closeTurn (.ok () t₁') = t₁'.kernel.saved t₁'.self :=
        endTurn_of_hasBlock hbeside₁.hasBlock.2
      rw [steps_add_of_ok hs, hs', hsaved, if_pos hlive, hsecond]
      exact sameOutcome_of_agree (steps_beside hbeside₂ (halone₂ t₁ hs)) fun e t₂ he =>
        faulted_of_stepsAlone (halone₂ t₁ hs) he

/-- The kernel after spawning a program that stores a word, skips an instruction and loads the word. -/
def storing : Kernel Volume :=
  let program := #[0xD9, 0x80, 0x00, 0xD2, 0x01, 0xF8, 0x50, 0xF6, 0x80, 0xD3, 0x07, 0xFB, 0x08]
  let v := ((Volume.empty.addFile (Path.ofText "/bin/init") program).2.mkdir (Path.ofText "/tmp")).2
  ((Kernel.new v).spawn "/bin/init").2

/-- The turn is split between the skip and the instruction that it discards, with memory grown before. -/
theorem split_turn_unnoticed_at_skip :
    let p : Process := { program := ⟨1⟩, backing := ⟨2⟩ }
    let s : Snapshot := { env := { workDir := "/bin", searchPath := "/bin", argCount := 1 } }
    storing.Ordinary 0 p s ∧ (4 : UInt8).toNat + (2 : UInt8).toNat ≤ 255 ∧
      (∀ t, (storing.withBudget (4 + 2)).openTurn 0 .ready = .ok t →
        t.stepsAlone ((4 : UInt8).toNat + (2 : UInt8).toNat)) ∧
      SameOutcome 0 ((storing.withBudget (4 + 2)).runTurn 0 .ready) (storing.runTurns 0 .ready 4 2) := by
  intro p s
  have hchecked : storing.table.process? 0 = some p ∧
      (storing.store.behind? p.backing).map (·.slice 0 Snapshot.blockSize) = some s.toBlock ∧
      (storing.store.behind? p.program).isSome ∧
      storing.store.pathOf? p.program ≠ storing.store.pathOf? p.backing ∧
      storing.store.pathOf? p.program ≠ some (storing.backingPath 0) ∧
      (match (storing.withBudget (4 + 2)).openTurn 0 .ready with
        | .ok t => t.stepsAlone 6
        | .error _ => false) = true := by decide +kernel
  obtain ⟨hprocess, hblock, hprogram, hapart, hapartPath, halone⟩ := hchecked
  have hordinary : storing.Ordinary 0 p s := ⟨hprocess, hblock, hprogram, hapart, hapartPath⟩
  have halone (t : Turn Volume) (ht : (storing.withBudget (4 + 2)).openTurn 0 .ready = .ok t) :
      t.stepsAlone 6 := by
    rw [ht] at halone
    exact halone
  exact ⟨hordinary, by decide, halone, split_turn_unnoticed hordinary (by decide) halone⟩

end Kernel

end CoopKernel
