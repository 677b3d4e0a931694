import CoopKernel.Proofs.Custody.Making
import CoopKernel.Proofs.Storage.Kept

/-!
# The fallout of a death

When a process ends, each other process either is left untouched, or dies as well, or was waiting for
one that died and is woken with the status in the result register that is kept of it. Nobody is left
waiting for a dead process. `Fallout` says this of a whole cascade; while the waiters of one process
are woken one after the other, it holds but for those that are still owed their answer.
-/

namespace CoopKernel

variable {σ : Type} [Storage σ] [VolumeBacked σ]

namespace Kernel

/-- The snapshot that is kept behind a handle. -/
def kept? (k : Kernel σ) (h : Handle) : Option Snapshot :=
  (VolumeBacked.volume k.store).kept? h

omit [Storage σ] [VolumeBacked σ] in
/-- The process waits for the end of another, at the longest up to the deadline. -/
def Awaits (k : Kernel σ) (pid target : Pid) (deadline : Option UInt32) : Prop :=
  ∃ p, k.table.process? pid = some p ∧ p.status = .waitingForExit target deadline

/-- Burying a process closes nothing but its own files. -/
theorem behind?_bury (k : Kernel σ) {pid : Pid} {p : Process} {h : Handle} (status : UInt16)
    (hp : p.program ≠ h) (hb : p.backing ≠ h) :
    (VolumeBacked.volume (k.bury pid p status).store).behind? h =
      (VolumeBacked.volume k.store).behind? h := by
  have hrelease : (VolumeBacked.volume ((k.onTable (·.vacate pid status)).releaseProgram pid
      p.program).store).behind? h = (VolumeBacked.volume k.store).behind? h := by
    unfold releaseProgram
    split
    · rfl
    · exact VolumeBacked.behind?_close _ hp
  have hclose := VolumeBacked.behind?_close
    ((k.onTable (·.vacate pid status)).releaseProgram pid p.program).store hb
  exact (VolumeBacked.behind?_delete _ _ h).trans (hclose.trans hrelease)

end Kernel

/-! ## Fates -/

/-- What becomes of a living process in the fallout of a death. -/
inductive Fate (k k' : Kernel σ) (pid : Pid) (p : Process) : Prop
  | untouched (hp : k'.table.process? pid = some p) (hk : k'.kept? p.backing = k.kept? p.backing)
  | died (status : UInt16) (hs : k'.table.slot pid = .free (some status))
  | answered (target : Pid) (deadline : Option UInt32) (status : UInt16) (snapshot : Snapshot)
      (hw : p.status = .waitingForExit target deadline) (hl : k.table.isLive target)
      (hs : k'.table.slot target = .free (some status))
      (hp : k'.table.process? pid = some { p with status := .active })
      (hk : k'.kept? p.backing = some snapshot) (hr : snapshot.reg Reg.result = status)

/-- Besides idle events, the log tells exactly of the processes that ended, and their status. -/
structure Kernel.LogsEnds (k : Kernel σ) (es : List Event) (k' : Kernel σ) : Prop where
  only : ∀ e ∈ es, e.isIdle ∨
    ∃ (pid : Pid) (status : UInt16), e = .exited pid status ∧ k.table.isLive pid ∧
      k'.table.slot pid = .free (some status)
  all : ∀ (pid : Pid) (status : UInt16), k.table.isLive pid →
    k'.table.slot pid = .free (some status) → .exited pid status ∈ es

/-- Dead processes stay dead, living ones have a fate, which is logged if it is their end, and nobody is
left waiting for a dead process who was not before, but for those that are owed an answer. -/
structure Fallout (owed : Pid → Pid → Prop) (k k' : Kernel σ) : Prop where
  free : ∀ {pid : Pid} {status : Option UInt16}, k.table.slot pid = .free status →
    k'.table.slot pid = .free status
  fate : ∀ {pid : Pid} {p : Process}, k.table.process? pid = some p → Fate k k' pid p
  awaited : ∀ {pid target deadline}, k'.Awaits pid target deadline → ¬k'.table.isLive target →
    k.Awaits pid target deadline ∧ ¬k.table.isLive target ∨ owed pid target
  log : ∃ es, Kernel.Logs k es k' ∧ Kernel.LogsEnds k es k'

/-- Nobody is owed an answer. -/
def nobody (_ _ : Pid) : Prop := False

namespace Fallout

variable {owed : Pid → Pid → Prop} {k k₁ k₂ : Kernel σ}

omit [Storage σ] [VolumeBacked σ] in
theorem not_live_of_free {pid : Pid} {status : Option UInt16} (h : k.table.slot pid = .free status) :
    ¬k.table.isLive pid := by
  simp only [Table.isLive, Table.process?, h, Slot.process?]
  decide

omit [Storage σ] [VolumeBacked σ] in
theorem free_of_not_live {pid : Pid} (h : ¬k.table.isLive pid) :
    ∃ status, k.table.slot pid = .free status := by
  cases hs : k.table.slot pid with
  | free status => exact ⟨status, rfl⟩
  | taken p =>
    simp only [Table.isLive, Table.process?, hs, Slot.process?] at h
    exact absurd rfl h

/-- Nobody comes to life in the fallout. -/
theorem live (h : Fallout owed k k₁) {pid : Pid} (hl : k₁.table.isLive pid) : k.table.isLive pid := by
  by_contra hn
  obtain ⟨status, hs⟩ := free_of_not_live hn
  exact not_live_of_free (h.free hs) hl

omit [Storage σ] [VolumeBacked σ] in
/-- Where everybody lives on, there is nothing to be logged. -/
theorem logsEnds_of_idle {es : List Event} (he : ∀ e ∈ es, e.isIdle)
    (hl : ∀ {pid : Pid}, k.table.isLive pid → k₁.table.isLive pid) : Kernel.LogsEnds k es k₁ where
  only e hm := .inl (he e hm)
  all _ _ hlive hs := absurd (hl hlive) (not_live_of_free hs)

/-- Where table and files are as before, there is no fallout. -/
theorem of_same (ht : k₁.table = k.table) (hk : ∀ h, k₁.kept? h = k.kept? h)
    (hl : Kernel.LogsIdly k k₁) : Fallout nobody k k₁ where
  free hs := by
    rw [ht]
    exact hs
  fate hp := .untouched (by rw [ht]; exact hp) (hk _)
  awaited := by
    intro pid target deadline hw hl
    rw [ht] at hl
    unfold Kernel.Awaits at hw ⊢
    rw [ht] at hw
    exact .inl ⟨hw, hl⟩
  log := by
    obtain ⟨es, hes, hidle⟩ := hl
    exact ⟨es, hes, logsEnds_of_idle hidle fun hlive => by rw [ht]; exact hlive⟩

theorem refl (k : Kernel σ) : Fallout nobody k k :=
  of_same rfl (fun _ => rfl) (refl_of Kernel.LogsIdly k)

/-- A fate is sealed, or followed by one of the rest. -/
theorem fate_trans (h₁ : Fallout owed k k₁) (h₂ : Fallout nobody k₁ k₂) {pid : Pid} {p : Process}
    (hp : k.table.process? pid = some p) : Fate k k₂ pid p := by
  cases h₁.fate hp with
  | untouched hp₁ hk₁ =>
    cases h₂.fate hp₁ with
    | untouched hp₂ hk₂ => exact .untouched hp₂ (hk₂.trans hk₁)
    | died s hs => exact .died s hs
    | answered t d s snapshot hw hl hs hp₂ hk hr =>
      exact .answered t d s snapshot hw (h₁.live hl) hs hp₂ hk hr
  | died s hs => exact .died s (h₂.free hs)
  | answered t d s snapshot hw hl hs hp₁ hk₁ hr =>
    cases h₂.fate hp₁ with
    | untouched hp₂ hk₂ => exact .answered t d s snapshot hw hl (h₂.free hs) hp₂ (hk₂.trans hk₁) hr
    | died s' hs' => exact .died s' hs'
    | answered _ _ _ _ hw₂ => cases hw₂

/-- What ended in the first part or in the second ended in both together. -/
theorem logsEnds_append (h₁ : Fallout owed k k₁) (h₂ : Fallout nobody k₁ k₂) {es fs : List Event}
    (hes : Kernel.LogsEnds k es k₁) (hfs : Kernel.LogsEnds k₁ fs k₂) :
    Kernel.LogsEnds k (es ++ fs) k₂ where
  only e he := by
    rcases List.mem_append.mp he with he | he
    · rcases hes.only e he with hidle | ⟨q, s, he', hl, hs⟩
      · exact .inl hidle
      · exact .inr ⟨q, s, he', hl, h₂.free hs⟩
    · rcases hfs.only e he with hidle | ⟨q, s, he', hl, hs⟩
      · exact .inl hidle
      · exact .inr ⟨q, s, he', h₁.live hl, hs⟩
  all q s hl hs := by
    rw [List.mem_append]
    by_cases hl₁ : k₁.table.isLive q
    · exact .inr (hfs.all q s hl₁ hs)
    · obtain ⟨s', hs'⟩ := free_of_not_live hl₁
      have hfree := h₂.free hs'
      rw [hs] at hfree
      cases hfree
      exact .inl (hes.all q s hl hs')

theorem trans (h₁ : Fallout owed k k₁) (h₂ : Fallout nobody k₁ k₂) : Fallout owed k k₂ where
  free hs := h₂.free (h₁.free hs)
  fate hp := h₁.fate_trans h₂ hp
  awaited hw hl := by
    rcases h₂.awaited hw hl with ⟨hw₁, hl₁⟩ | hn
    · exact h₁.awaited hw₁ hl₁
    · exact hn.elim
  log := by
    obtain ⟨es, hes, hends⟩ := h₁.log
    obtain ⟨fs, hfs, hends'⟩ := h₂.log
    exact ⟨es ++ fs, hes.append hfs, h₁.logsEnds_append h₂ hends hends'⟩

/-- What was done to a process that dies in the end does not matter. -/
theorem of_damage (ht : k₁.table = k.table) (hlog : Kernel.LogsIdly k k₁) {w : Pid}
    (hk : ∀ {q r}, q ≠ w → k.table.process? q = some r → k₁.kept? r.backing = k.kept? r.backing)
    (h : Fallout nobody k₁ k₂) (hw : ¬k₂.table.isLive w) : Fallout nobody k k₂ where
  free hs := h.free (by rw [ht]; exact hs)
  fate {q r} hr := by
    have hr₁ : k₁.table.process? q = some r := by rw [ht]; exact hr
    by_cases hq : q = w
    · subst hq
      cases h.fate hr₁ with
      | untouched hp => exact absurd (Table.isLive_iff.mpr ⟨r, hp⟩) hw
      | died s hs => exact .died s hs
      | answered _ _ _ _ _ _ _ hp => exact absurd (Table.isLive_iff.mpr ⟨_, hp⟩) hw
    · cases h.fate hr₁ with
      | untouched hp hk₂ => exact .untouched hp (hk₂.trans (hk hq hr))
      | died s hs => exact .died s hs
      | answered t d s snapshot hw' hl hs hp hk₂ hr' =>
        exact .answered t d s snapshot hw' (by rw [← ht]; exact hl) hs hp hk₂ hr'
  awaited hw' hl := by
    rcases h.awaited hw' hl with ⟨ha, hl₁⟩ | hn
    · unfold Kernel.Awaits at ha ⊢
      rw [ht] at ha hl₁
      exact .inl ⟨ha, hl₁⟩
    · exact hn.elim
  log := by
    obtain ⟨es, hes, hidle⟩ := hlog
    obtain ⟨fs, hfs, hends⟩ := h.log
    refine ⟨es ++ fs, hes.append hfs, ?_, ?_⟩
    · intro e he
      rcases List.mem_append.mp he with he | he
      · exact .inl (hidle e he)
      · rcases hends.only e he with hidle' | ⟨q, s, he', hl, hs⟩
        · exact .inl hidle'
        · exact .inr ⟨q, s, he', by rw [← ht]; exact hl, hs⟩
    · intro q s hl hs
      exact List.mem_append.mpr (.inr (hends.all q s (by rw [ht]; exact hl) hs))

end Fallout

end CoopKernel
