import CoopKernel.Table

/-!
# Looking at the process table

Who is in the lists that the kernel makes from the table, and what is in a slot after a change.
-/

namespace CoopKernel.Table

variable {t : Table} {pid q : Pid}

theorem mem_all (pid : Pid) : pid ∈ Pid.all :=
  List.mem_finRange pid

theorem isLive_iff : t.isLive pid ↔ ∃ p, t.process? pid = some p :=
  Option.isSome_iff_exists

theorem mem_live : pid ∈ t.live ↔ ∃ p, t.process? pid = some p := by
  rw [live, List.mem_filter, isLive_iff]
  exact and_iff_right (mem_all pid)

theorem mem_waitersFor {target : Pid} :
    pid ∈ t.waitersFor target ↔
      ∃ p d, t.process? pid = some p ∧ p.status = .waitingForExit target d := by
  rw [waitersFor, List.mem_filter, mem_live]
  constructor
  · rintro ⟨⟨p, hp⟩, hw⟩
    rw [hp, Option.any_some] at hw
    split at hw
    · next target' d hs =>
      rw [of_decide_eq_true hw] at hs
      exact ⟨p, d, hp, hs⟩
    · cases hw
  · rintro ⟨p, d, hp, hs⟩
    refine ⟨⟨p, hp⟩, ?_⟩
    rw [hp, Option.any_some, hs]
    exact decide_eq_true rfl

theorem uses_iff {h : Handle} :
    t.uses h pid ↔ ∃ p, t.process? pid = some p ∧ (p.program = h ∨ p.backing = h) := by
  unfold uses
  cases t.process? pid <;> simp

/-- Somebody other than the process uses the handle. -/
def UsedByOther (t : Table) (pid : Pid) (h : Handle) : Prop :=
  ∃ q r, q ≠ pid ∧ t.process? q = some r ∧ (r.program = h ∨ r.backing = h)

theorem usedByOther_iff {h : Handle} :
    (t.live.filter (· ≠ pid)).any (t.uses h) ↔ t.UsedByOther pid h := by
  simp only [List.any_eq_true, List.mem_filter, mem_live, uses_iff, decide_eq_true_eq]
  constructor
  · rintro ⟨q, ⟨_, hne⟩, p, hp, hu⟩
    exact ⟨q, p, hne, hp, hu⟩
  · rintro ⟨q, p, hne, hp, hu⟩
    exact ⟨q, ⟨⟨p, hp⟩, hne⟩, p, hp, hu⟩

/-- What a process itself uses does not matter. -/
theorem usedByOther_congr {t' : Table} (h : ∀ q, q ≠ pid → t'.process? q = t.process? q)
    (g : Handle) : t'.UsedByOther pid g ↔ t.UsedByOther pid g := by
  constructor <;> rintro ⟨q, r, hne, hr, hu⟩
  · exact ⟨q, r, hne, h q hne ▸ hr, hu⟩
  · exact ⟨q, r, hne, (h q hne).trans hr, hu⟩

/-- A slot that is given away was free. -/
theorem process?_of_firstFree? (h : t.firstFree? = some pid) : t.process? pid = none := by
  have hfree := List.find?_some h
  simp only [Bool.and_eq_true, Bool.not_eq_true'] at hfree
  exact Option.isSome_eq_false_iff.mp hfree.1 |> Option.isNone_iff_eq_none.mp

/-- Who is there does not sit in a slot that is free. -/
theorem ne_of_free {p : Process} (hp : t.process? q = some p) (hfree : t.process? pid = none) : q ≠ pid := by
  rintro rfl
  rw [hp] at hfree
  cases hfree

/-! ## Slots -/

theorem slot_setSlot (t : Table) (pid q : Pid) (slot : Slot) :
    (t.setSlot pid slot).slot q = if pid = q then slot else t.slot q := by
  simp only [Table.slot, setSlot, Fin.getElem_fin, Vector.getElem_set, Fin.ext_iff]

theorem slot_modify (t : Table) (pid q : Pid) (f : Process → Process) :
    (t.modify pid f).slot q = if pid = q then (t.slot q).map f else t.slot q := by
  rw [modify, slot_setSlot]
  split
  · next h => rw [h]
  · rfl

theorem slot_vacate (t : Table) (pid q : Pid) (status : UInt16) :
    (t.vacate pid status).slot q = if pid = q then .free (some status) else t.slot q :=
  slot_setSlot t pid q _

theorem slot_eq_taken {p : Process} (h : t.process? pid = some p) : t.slot pid = .taken p := by
  unfold process? Slot.process? at h
  split at h
  · cases h
  · next hs =>
    cases h
    exact hs

theorem process?_modify_self {p : Process} {f : Process → Process} (h : t.process? pid = some p) :
    (t.modify pid f).process? pid = some (f p) := by
  rw [process?_modify, if_pos rfl, h, Option.map_some]

theorem process?_modify_of_ne {f : Process → Process} (h : q ≠ pid) :
    (t.modify pid f).process? q = t.process? q := by
  rw [process?_modify, if_neg h.symm]

/-- Who is there after one process changed. -/
theorem process?_modify_cases {f : Process → Process} {r : Process}
    (h : (t.modify pid f).process? q = some r) :
    (q = pid ∧ ∃ p, t.process? pid = some p ∧ r = f p) ∨ q ≠ pid ∧ t.process? q = some r := by
  by_cases hq : q = pid
  · subst hq
    rw [process?_modify, if_pos rfl] at h
    obtain ⟨p, hp, rfl⟩ := Option.map_eq_some_iff.mp h
    exact .inl ⟨rfl, p, hp, rfl⟩
  · rw [process?_modify_of_ne hq] at h
    exact .inr ⟨hq, h⟩

theorem process?_vacate_of_ne {status : UInt16} (h : q ≠ pid) :
    (t.vacate pid status).process? q = t.process? q := by
  rw [process?_vacate, if_neg h.symm]

/-- Who is there after a process left. -/
theorem process?_vacate_cases {status : UInt16} {r : Process}
    (h : (t.vacate pid status).process? q = some r) : q ≠ pid ∧ t.process? q = some r := by
  by_cases hq : q = pid
  · rw [process?_vacate, if_pos hq.symm] at h
    cases h
  · rw [process?_vacate_of_ne hq] at h
    exact ⟨hq, h⟩

theorem process?_occupy_self {program backing : Handle} :
    (t.occupy pid program backing).process? pid = some { program, backing } := by
  rw [process?_occupy, if_pos rfl]

theorem process?_occupy_of_ne {program backing : Handle} (h : q ≠ pid) :
    (t.occupy pid program backing).process? q = t.process? q := by
  rw [process?_occupy, if_neg h.symm]

/-- Who is there after a process came. -/
theorem process?_occupy_cases {program backing : Handle} {r : Process}
    (h : (t.occupy pid program backing).process? q = some r) :
    q = pid ∧ r = { program, backing } ∨ q ≠ pid ∧ t.process? q = some r := by
  by_cases hq : q = pid
  · rw [process?_occupy, if_pos hq.symm] at h
    cases h
    exact .inl ⟨hq, rfl⟩
  · rw [process?_occupy_of_ne hq] at h
    exact .inr ⟨hq, h⟩

/-- Setting what a process does anyway changes nothing. -/
theorem setStatus_self {p : Process} {status : Status} (h : t.process? pid = some p)
    (hs : p.status = status) : t.setStatus pid status = t := by
  subst hs
  have hslot := slot_eq_taken h
  have hsame : (t.slot pid).map (fun p' => { p' with status := p.status }) = t.slot pid := by
    rw [hslot]
    rfl
  rw [setStatus, modify, hsame, setSlot]
  exact congrArg (fun slots => { t with slots }) (Vector.set_getElem_self pid.isLt)

end CoopKernel.Table
