import CoopKernel.Kernel.Basic
import Mathlib.Order.RelClasses

/-!
# Reading the log

The log tells in order which processes were made, which ended, and who began to wait for whom. What a
process waits for is told by comparing the last time that it began to wait with the beginnings and ends
of the other process: if none of them is later, the other is the one that it began to wait for, and not
one that took its slot since.
-/

namespace CoopKernel

namespace Event

/-- The event tells neither that a process was made or ended nor that one waits for another. -/
def isIdle : Event → Bool
  | spawned .. | forked .. | exited .. | waitsForExit .. => false
  | _ => true

/-- The event tells that a process was made or ended. -/
def isLife : Event → Bool
  | spawned .. | forked .. | exited .. => true
  | _ => false

/-- The event tells that the process was made or ended. -/
def isLifeOf (pid : Pid) : Event → Bool
  | spawned p _ | forked _ p | exited p _ => p = pid
  | _ => false

/-- The event tells that the process begins to wait for the end of another. -/
def isWaitOf (pid : Pid) : Event → Bool
  | waitsForExit p _ => p = pid
  | _ => false

theorem isLife_of_isIdle {e : Event} (h : e.isIdle) : e.isLife = false := by
  cases e <;> first | rfl | cases h

theorem isLifeOf_of_isIdle {e : Event} (h : e.isIdle) (pid : Pid) : e.isLifeOf pid = false := by
  cases e <;> first | rfl | cases h

theorem isWaitOf_of_isIdle {e : Event} (h : e.isIdle) (pid : Pid) : e.isWaitOf pid = false := by
  cases e <;> first | rfl | cases h

end Event

namespace Kernel

variable {σ : Type} {k k₁ k₂ : Kernel σ}

/-- The log of the one kernel is that of the other with some events added. -/
def Logs (k : Kernel σ) (es : List Event) (k' : Kernel σ) : Prop :=
  k'.log.toList = k.log.toList ++ es

theorem Logs.append {es fs : List Event} (h₁ : Logs k es k₁) (h₂ : Logs k₁ fs k₂) :
    Logs k (es ++ fs) k₂ := by
  unfold Logs at h₁ h₂ ⊢
  rw [h₂, h₁, List.append_assoc]

theorem Logs.same (h : k₁.log = k.log) : Logs k [] k₁ := by
  rw [Logs, h, List.append_nil]

theorem logs_note (k : Kernel σ) (e : Event) : Logs k [e] (k.note e) := by
  rw [Logs, note, Array.toList_push]

/-- Some events were added. -/
def LogsMore (k k' : Kernel σ) : Prop :=
  ∃ es, Logs k es k'

theorem LogsMore.same (h : k₁.log = k.log) : LogsMore k k₁ :=
  ⟨[], .same h⟩

theorem logsMore_note (k : Kernel σ) (e : Event) : LogsMore k (k.note e) :=
  ⟨[e], logs_note k e⟩

instance : IsPreorder (Kernel σ) LogsMore where
  refl _ := .same rfl
  trans _ _ _ := fun ⟨es, hes⟩ ⟨fs, hfs⟩ => ⟨es ++ fs, hes.append hfs⟩

/-- Only idle events were added. -/
def LogsIdly (k k' : Kernel σ) : Prop :=
  ∃ es, Logs k es k' ∧ ∀ e ∈ es, e.isIdle

theorem LogsIdly.same (h : k₁.log = k.log) : LogsIdly k k₁ :=
  ⟨[], .same h, fun _ he => by cases he⟩

theorem logsIdly_note (k : Kernel σ) {e : Event} (he : e.isIdle) : LogsIdly k (k.note e) :=
  ⟨[e], logs_note k e, fun _ hm => List.mem_singleton.mp hm ▸ he⟩

instance : IsPreorder (Kernel σ) LogsIdly where
  refl _ := .same rfl
  trans _ _ _ := by
    rintro ⟨es, hes, hidle⟩ ⟨fs, hfs, hidle'⟩
    refine ⟨es ++ fs, hes.append hfs, ?_⟩
    intro e he
    rcases List.mem_append.mp he with he | he
    · exact hidle e he
    · exact hidle' e he

/-- Since the process last began to wait, which was for the target, the target was neither made nor
ended. -/
def HasWaitedFor (k : Kernel σ) (pid target : Pid) : Prop :=
  (k.log.toList.filter fun e => e.isWaitOf pid || e.isLifeOf target).getLast? =
    some (.waitsForExit pid target)

theorem HasWaitedFor.logs {pid target : Pid} (h : k.HasWaitedFor pid target) {es : List Event}
    (hlogs : Logs k es k₁) (hes : ∀ e ∈ es, e.isWaitOf pid = false ∧ e.isLifeOf target = false) :
    k₁.HasWaitedFor pid target := by
  have hnone : es.filter (fun e => e.isWaitOf pid || e.isLifeOf target) = [] := by
    refine List.filter_eq_nil_iff.mpr ?_
    intro e he
    rw [(hes e he).1, (hes e he).2]
    decide
  unfold HasWaitedFor
  rw [hlogs, List.filter_append, hnone, List.append_nil]
  exact h

theorem HasWaitedFor.logsIdly {pid target : Pid} (h : k.HasWaitedFor pid target)
    (hlogs : LogsIdly k k₁) : k₁.HasWaitedFor pid target := by
  obtain ⟨es, hes, hidle⟩ := hlogs
  exact h.logs hes fun e he =>
    ⟨e.isWaitOf_of_isIdle (hidle e he) pid, e.isLifeOf_of_isIdle (hidle e he) target⟩

theorem hasWaitedFor_note (k : Kernel σ) (pid target : Pid) :
    (k.note (.waitsForExit pid target)).HasWaitedFor pid target := by
  have hself : (Event.waitsForExit pid target).isWaitOf pid = true := decide_eq_true rfl
  rw [HasWaitedFor, note, Array.toList_push, List.filter_append]
  simp only [List.filter_cons, hself, Bool.true_or, if_true, List.filter_nil,
    List.getLast?_append, List.getLast?_singleton, Option.some_or]

end Kernel

end CoopKernel
