import CoopKernel.Proofs.Settled

/-!
# Who is alive, by the log

The log tells of every process that is made and of every one that ends. How a slot stands can be read from it:
by the last thing that it tells of the life of a process with that number. A process that is made gets zero as
its number if it is the first, and else the lowest other one that nobody has. Whatever the kernel does, its
table stands as the log tells, so that the next number can be read from the log as well.
-/

namespace CoopKernel

namespace Event

/-- The process that the event tells the making of. -/
def birth? : Event → Option Pid
  | spawned pid _ | forked _ pid => some pid
  | _ => none

theorem isLifeOf_of_isLife {e : Event} (h : e.isLife = false) (pid : Pid) : e.isLifeOf pid = false := by
  cases e <;> first | rfl | cases h

theorem birth?_of_isLife {e : Event} (h : e.isLife = false) : e.birth? = none := by
  cases e <;> first | rfl | cases h

end Event

/-- How it stands with a process number. -/
inductive Standing where
  /-- Nobody ever had it. -/
  | unborn
  | alive
  /-- The last one who had it ended with a status. -/
  | ended (status : UInt16)
  deriving DecidableEq, Repr

namespace Standing

/-- How it stands after an event that is about the life of whoever has the number. -/
def after : Event → Standing
  | .exited _ status => ended status
  | _ => alive

/-- How it stands with a number by the last that the log tells about the life of whoever has it. -/
def told (log : List Event) (pid : Pid) : Standing :=
  ((log.filter (·.isLifeOf pid)).getLast?.map after).getD unborn

theorem told_concat (log : List Event) (e : Event) (pid : Pid) :
    told (log ++ [e]) pid = if e.isLifeOf pid then after e else told log pid := by
  unfold told
  cases he : e.isLifeOf pid <;> simp [List.filter_append, he]

end Standing

/-- How it stands with the number of a slot. -/
def Slot.standing : Slot → Standing
  | free none => .unborn
  | free (some status) => .ended status
  | taken _ => .alive

theorem Slot.standing_map (f : Process → Process) (slot : Slot) : (slot.map f).standing = slot.standing := by
  cases slot <;> rfl

/-- The number for the next process is zero if it is the first, and else the lowest other one that nobody
has. -/
def Pid.IsNext (first : Prop) (live : Pid → Prop) (pid : Pid) : Prop :=
  first ∧ pid = 0 ∨ ¬first ∧ pid ≠ 0 ∧ ¬live pid ∧ ∀ q, q ≠ 0 → q < pid → live q

/-- No process has a number yet. -/
def NobodyBorn (log : List Event) : Prop :=
  ∀ e ∈ log, e.birth? = none

/-- Every process that the log tells the making of got the number that was next. -/
def BirthsInOrder (log : List Event) : Prop :=
  ∀ before e later pid, log = before ++ e :: later → e.birth? = some pid →
    pid.IsNext (NobodyBorn before) fun q => Standing.told before q = .alive

theorem BirthsInOrder.concat {log : List Event} (h : BirthsInOrder log) {e : Event}
    (he : ∀ pid, e.birth? = some pid →
      pid.IsNext (NobodyBorn log) fun q => Standing.told log q = .alive) :
    BirthsInOrder (log ++ [e]) := by
  intro before e' later pid hsplit hbirth
  rcases List.eq_nil_or_concat later with rfl | ⟨later, last, rfl⟩
  · obtain ⟨rfl, hsame⟩ := List.append_inj' hsplit rfl
    cases hsame
    exact he pid hbirth
  · rw [List.concat_eq_append, ← List.cons_append, ← List.append_assoc] at hsplit
    exact h before e' later pid (List.append_inj' hsplit rfl).1 hbirth

namespace Table

variable {t : Table} {pid q : Pid}

theorem isLive_iff_standing : t.isLive pid ↔ (t.slot pid).standing = .alive := by
  unfold isLive process?
  cases t.slot pid with
  | free status => cases status <;> simp [Slot.process?, Slot.standing]
  | taken p => simp [Slot.process?, Slot.standing]

theorem lastExit?_iff_standing {status : UInt16} :
    (t.slot pid).lastExit? = some status ↔ (t.slot pid).standing = .ended status := by
  cases t.slot pid with
  | free last => cases last <;> simp [Slot.lastExit?, Slot.standing]
  | taken p => simp [Slot.lastExit?, Slot.standing]

theorem slot_occupy (t : Table) (pid q : Pid) (program backing : Handle) :
    (t.occupy pid program backing).slot q = if pid = q then .taken { program, backing } else t.slot q := by
  have h := slot_setSlot t pid q (.taken { program, backing })
  rw [occupy]
  split <;> exact h

theorem standing_resetCounts (t : Table) (pid : Pid) :
    (t.resetCounts.slot pid).standing = (t.slot pid).standing := by
  simp only [slot, resetCounts, Fin.getElem_fin, Vector.getElem_map, Slot.standing_map]

/-- The first free slot is free, and all the lower ones are not. -/
theorem firstFree?_eq_some_iff : t.firstFree? = some pid ↔
    (t.isLive pid = false ∧ (pid ≠ 0 ∨ t.initUsed = false)) ∧
      ∀ q, q < pid → t.isLive q = true ∨ q = 0 ∧ t.initUsed = true := by
  have hfree (q : Pid) : (!t.isLive q && (q.val ≠ 0 || !t.initUsed)) = true ↔
      t.isLive q = false ∧ (q ≠ 0 ∨ t.initUsed = false) := by
    have hzero : q ≠ 0 ↔ q.val ≠ 0 := Fin.ext_iff.not
    simp only [Bool.and_eq_true, Bool.or_eq_true, Bool.not_eq_true', decide_eq_true_eq, hzero]
  have htaken (q : Pid) : ¬(t.isLive q = false ∧ (q ≠ 0 ∨ t.initUsed = false)) ↔
      t.isLive q = true ∨ q = 0 ∧ t.initUsed = true := by
    cases t.isLive q <;> cases t.initUsed <;> simp
  unfold firstFree? Pid.all
  rw [List.find?_eq_some_iff_getElem, hfree]
  refine and_congr_right fun _ => ⟨?_, fun hbelow => ?_⟩
  · rintro ⟨i, hi, he, hbelow⟩ q hq
    have hqi : q.val < i := by
      rw [List.getElem_finRange] at he
      rw [← he] at hq
      exact hq
    have hnot := hbelow q.val hqi
    rw [List.getElem_finRange, Bool.not_eq_true', Bool.eq_false_iff, ne_eq, hfree, htaken] at hnot
    exact hnot
  · refine ⟨pid.val, ?_, ?_, fun j hj => ?_⟩
    · rw [List.length_finRange]
      exact pid.isLt
    · rw [List.getElem_finRange]
      rfl
    · rw [List.getElem_finRange, Bool.not_eq_true', Bool.eq_false_iff, ne_eq, hfree, htaken]
      exact hbelow _ hj

end Table

namespace Kernel

variable {σ : Type} {k k' : Kernel σ} {pid : Pid}

/-- The table stands as the log tells, slot 0 counts as given away from the first birth on, and all births were
in order. -/
structure Accounted (k : Kernel σ) : Prop where
  slots : ∀ pid, (k.table.slot pid).standing = .told k.log.toList pid
  initUsed : k.table.initUsed = true ↔ ¬NobodyBorn k.log.toList
  births : BirthsInOrder k.log.toList

namespace Accounted

theorem isLive_iff (h : k.Accounted) : k.table.isLive pid ↔ Standing.told k.log.toList pid = .alive := by
  rw [Table.isLive_iff_standing, h.slots]

theorem exitStatus?_iff (h : k.Accounted) {status : UInt16} :
    k.exitStatus? pid = some status ↔ Standing.told k.log.toList pid = .ended status := by
  rw [exitStatus?, Table.lastExit?_iff_standing, h.slots]

/-- Nobody is alive before the first birth. -/
theorem born_of_isLive (h : k.Accounted) (hl : k.table.isLive pid) : ¬NobodyBorn k.log.toList := by
  intro hnobody
  rw [h.isLive_iff, Standing.told] at hl
  cases hlast : (k.log.toList.filter (·.isLifeOf pid)).getLast? with
  | none =>
    rw [hlast] at hl
    cases hl
  | some e =>
    obtain ⟨hmem, hlife⟩ := List.mem_filter.mp (List.mem_of_getLast? hlast)
    have hbirth := hnobody e hmem
    rw [hlast] at hl
    cases e with
    | spawned | forked => cases hbirth
    | exited => cases hl
    | called | forkFailed | executes | waitsForExit | waitsToRead | woken | signalled | faulted => cases hlife

/-- The slot for the next process has the number that is next. -/
theorem firstFree?_iff (h : k.Accounted) : k.table.firstFree? = some pid ↔
    pid.IsNext (NobodyBorn k.log.toList) fun q => k.table.isLive q := by
  have hzero {q : Pid} (hq : ¬q < 0) : q = 0 ∨ 0 < q := by
    rw [Fin.lt_def] at hq ⊢
    exact (Nat.eq_zero_or_pos q.val).imp (fun he => Fin.ext he) id
  rw [Table.firstFree?_eq_some_iff, Pid.IsNext]
  by_cases hfirst : NobodyBorn k.log.toList
  · have hunused : k.table.initUsed = false := by
      rw [Bool.eq_false_iff, ne_eq, h.initUsed, not_not]
      exact hfirst
    have hnone (q : Pid) : k.table.isLive q = false := by
      rw [Bool.eq_false_iff]
      exact fun hl => h.born_of_isLive hl hfirst
    simp only [hfirst, hunused, hnone, not_true_eq_false, false_and, or_false, true_and, or_true,
      Bool.false_eq_true, and_false]
    constructor
    · intro hbelow
      rcases hzero (Nat.not_lt_zero _) with he | hpos
      · exact he
      · exact (hbelow 0 hpos).elim
    · rintro rfl q hq
      exact absurd hq (Nat.not_lt_zero _)
  · have hused := h.initUsed.mpr hfirst
    simp only [hfirst, hused, not_false_eq_true, false_and, false_or, true_and, Bool.true_eq_false, or_false,
      and_true, Bool.not_eq_true]
    constructor
    · rintro ⟨⟨hdead, hne⟩, hbelow⟩
      exact ⟨hne, hdead, fun q hq hlt => (hbelow q hlt).resolve_right hq⟩
    · rintro ⟨hne, hdead, hbelow⟩
      refine ⟨⟨hdead, hne⟩, fun q hlt => ?_⟩
      by_cases hq : q = 0
      · exact .inr hq
      · exact .inl (hbelow q hq hlt)

/-- There is no slot for the next process exactly if there is one in each but slot 0, which was given away. -/
theorem firstFree?_none_iff (h : k.Accounted) : k.table.firstFree? = none ↔
    ¬NobodyBorn k.log.toList ∧ ∀ pid, pid ≠ 0 → k.table.isLive pid := by
  rw [Option.eq_none_iff_forall_ne_some]
  simp only [ne_eq, h.firstFree?_iff]
  constructor
  · intro hnone
    have hborn : ¬NobodyBorn k.log.toList := fun hfirst => hnone 0 (.inl ⟨hfirst, rfl⟩)
    refine ⟨hborn, fun pid => ?_⟩
    -- The lowest number that nobody has would be next.
    obtain ⟨n, hn⟩ := pid
    induction n using Nat.strongRecOn with
    | ind n ih =>
      intro hne
      by_contra hdead
      exact hnone ⟨n, hn⟩ (.inr ⟨hborn, hne, hdead, fun q hq hlt => ih q.val hlt q.isLt hq⟩)
  · rintro ⟨hborn, hall⟩ pid (⟨hfirst, -⟩ | ⟨-, hne, hdead, -⟩)
    · exact hborn hfirst
    · exact hdead (hall pid hne)

/-! ## What is logged together with a change of the table -/

/-- An event is logged as the table changes accordingly. -/
theorem logged (h : k.Accounted) {e : Event} (hlog : Logs k [e] k')
    (hslots : ∀ pid, (k'.table.slot pid).standing =
      if e.isLifeOf pid then Standing.after e else (k.table.slot pid).standing)
    (hused : k'.table.initUsed = true ↔ k.table.initUsed = true ∨ e.birth? ≠ none)
    (hbirth : ∀ pid, e.birth? = some pid → k.table.firstFree? = some pid) : k'.Accounted := by
  unfold Logs at hlog
  refine ⟨fun pid => ?_, ?_, ?_⟩
  · rw [hslots, hlog, Standing.told_concat, h.slots]
  · rw [hused, h.initUsed, hlog, NobodyBorn, NobodyBorn, List.forall_mem_append, List.forall_mem_singleton,
      not_and_or]
  · rw [hlog]
    refine h.births.concat fun pid he => ?_
    have hnext := h.firstFree?_iff.mp (hbirth pid he)
    simp only [h.isLive_iff] at hnext
    exact hnext

/-- Nothing of that has changed. -/
theorem of_same (h : k.Accounted) (hslots : ∀ pid, (k'.table.slot pid).standing = (k.table.slot pid).standing)
    (hused : k'.table.initUsed = k.table.initUsed) (hlog : k'.log = k.log) : k'.Accounted := by
  refine ⟨fun pid => ?_, ?_, ?_⟩
  · rw [hslots, hlog, h.slots]
  · rw [hused, hlog, h.initUsed]
  · rw [hlog]
    exact h.births

end Accounted

/-- What was accounted for still is, and slot 0 stays given away. -/
structure Accounts (k k' : Kernel σ) : Prop where
  accounted : k.Accounted → k'.Accounted
  initUsed : k.table.initUsed = true → k'.table.initUsed = true

instance : IsPreorder (Kernel σ) Accounts where
  refl _ := ⟨id, id⟩
  trans _ _ _ h₁ h₂ := ⟨h₂.accounted ∘ h₁.accounted, h₂.initUsed ∘ h₁.initUsed⟩

theorem Accounts.of_same (hslots : ∀ pid, (k'.table.slot pid).standing = (k.table.slot pid).standing)
    (hused : k'.table.initUsed = k.table.initUsed) (hlog : k'.log = k.log) : Accounts k k' :=
  ⟨fun h => h.of_same hslots hused hlog, fun h => hused.trans h⟩

/-- The table and the log are the same. -/
theorem Accounts.of_eq (htable : k'.table = k.table) (hlog : k'.log = k.log) : Accounts k k' :=
  .of_same (fun _ => by rw [htable]) (by rw [htable]) hlog

theorem accounts_note (k : Kernel σ) {e : Event} (he : e.isLife = false) : Accounts k (k.note e) := by
  refine ⟨fun h => h.logged (logs_note k e) (fun pid => ?_) ?_ ?_, id⟩
  · rw [Event.isLifeOf_of_isLife he]
    rfl
  · rw [Event.birth?_of_isLife he]
    exact (or_iff_left (not_not.mpr rfl)).symm
  · rw [Event.birth?_of_isLife he]
    exact nofun

/-- Changing what is known about somebody does not end anybody. -/
theorem accounts_modify (k : Kernel σ) (pid : Pid) (f : Process → Process) :
    Accounts k (k.onTable (·.modify pid f)) := by
  refine .of_same (fun q => ?_) rfl rfl
  simp only [onTable, Table.slot_modify]
  split
  · exact Slot.standing_map f _
  · rfl

theorem accounts_resetCounts (k : Kernel σ) : Accounts k (k.onTable Table.resetCounts) :=
  .of_same (fun _ => Table.standing_resetCounts _ _) rfl rfl

/-- A process gets the first free slot. -/
theorem accounts_occupy (hslot : k.table.firstFree? = some pid) (program backing : Handle) {e : Event}
    (he : e.birth? = some pid) : Accounts k ((k.onTable (·.occupy pid program backing)).note e) := by
  have hused (hu : k.table.initUsed = true) : (k.table.occupy pid program backing).initUsed = true := by
    unfold Table.occupy
    split
    · rfl
    · exact hu
  have hlife (q : Pid) : e.isLifeOf q = decide (pid = q) ∧ Standing.after e = .alive := by
    cases e with
    | spawned | forked =>
      cases he
      exact ⟨rfl, rfl⟩
    | called | forkFailed | executes | exited | waitsForExit | waitsToRead | woken | signalled | faulted =>
      cases he
  refine ⟨fun h => h.logged (logs_note _ e) (fun q => ?_) ?_ ?_, hused⟩
  · rw [(hlife q).1, (hlife q).2]
    simp only [note, onTable, Table.slot_occupy, decide_eq_true_eq]
    split <;> rfl
  · refine iff_of_true ?_ (.inr (by rw [he]; exact Option.some_ne_none pid))
    by_cases hp : pid = 0
    · subst hp
      rfl
    · refine hused (h.initUsed.mpr fun hfirst => hp ?_)
      rcases h.firstFree?_iff.mp hslot with ⟨-, hzero⟩ | ⟨hborn, -⟩
      · exact hzero
      · exact absurd hfirst hborn
  · intro q hq
    rw [he] at hq
    rw [← hq]
    exact hslot

variable [Storage σ]

theorem accounts_bury (k : Kernel σ) (pid : Pid) (p : Process) (status : UInt16) :
    Accounts k (k.bury pid p status) := by
  have hused : (k.bury pid p status).table.initUsed = k.table.initUsed := by
    rw [bury_table]
    rfl
  refine ⟨fun h => h.logged (logs_bury k pid p status) (fun q => ?_) ?_ nofun, fun hu => hused.trans hu⟩
  · rw [bury_table, Table.slot_vacate]
    simp only [Event.isLifeOf, decide_eq_true_eq]
    split <;> rfl
  · rw [hused]
    exact (or_iff_left (not_not.mpr rfl)).symm

theorem governed_accounts : Governed (σ := σ) Accounts where
  quiet _ _ h := .of_eq (by rw [h.rest]) (by rw [h.rest])
  note k _ he := accounts_note k he
  status k pid _ := accounts_modify k pid _
  bury k pid p status _ := accounts_bury k pid p status

end Kernel

end CoopKernel
