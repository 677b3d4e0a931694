import CoopKernel.Proofs.Delivery
import CoopKernel.Proofs.Waiting.Rousing

/-!
# How waits go on and end

A kernel is orderly if everybody who waits for the end of a process waits for another one, which is
alive and has been since the wait began. `Passage` says of something that the kernel does that it leaves
the kernel orderly and ends waits only in the ways of `WaitFate`. There is one lemma for each kind of
thing that the kernel does: it concerns nobody, or one process alone, or it is the fallout of a death,
or a signal.
-/

namespace CoopKernel

variable {σ : Type} [Storage σ] [VolumeBacked σ]

namespace Kernel

/-- What a process is doing. -/
def status? (k : Kernel σ) (pid : Pid) : Option Status :=
  (k.table.process? pid).map Process.status

/-- The target is another process, is alive, and has been since the process began to wait for it. -/
structure Attends (k : Kernel σ) (pid target : Pid) : Prop where
  apart : target ≠ pid
  live : k.table.isLive target
  since : k.HasWaitedFor pid target

/-- Everybody who waits for the end of a process waits for another one that is alive, and was not made
or ended since the wait began. -/
def Orderly (k : Kernel σ) : Prop :=
  ∀ pid target deadline, k.Awaits pid target deadline → k.Attends pid target

/-- What becomes of a wait. -/
inductive WaitFate (k k' : Kernel σ) (pid target : Pid) (deadline : Option UInt32) : Prop
  | goesOn (h : k'.Awaits pid target deadline)
  | died (h : ¬k'.table.isLive pid)
  /-- The target ended, once and without being made anew before, and its status is in the result
  register. -/
  | answered (p : Process) (status : UInt16) (snapshot : Snapshot) (es : List Event)
      (hp : k'.table.process? pid = some p) (hactive : p.status = .active)
      (hexit : k'.exitStatus? target = some status) (hlogs : Logs k es k')
      (htold : .exited target status ∈ es)
      (honce : ∀ e ∈ es, e.isLifeOf target → e = .exited target status)
      (hkept : k'.kept? p.backing = some snapshot) (hresult : snapshot.reg Reg.result = status)
  /-- A signal was delivered for which the process has a handler. -/
  | interrupted (signal : Signal) (p p' : Process) (snapshot snapshot' : Snapshot) (es : List Event)
      (hp : k.table.process? pid = some p) (hkept : k.kept? p.backing = some snapshot)
      (hhandler : snapshot.handler signal ≠ 0) (hlogs : Logs k es k')
      (htold : .signalled pid signal (snapshot.handler signal) ∈ es)
      (hp' : k'.table.process? pid = some p') (hactive : p'.status = .active)
      (hkept' : k'.kept? p'.backing = some snapshot')
      (hresult : snapshot'.reg Reg.result = waitInterrupted)
      (hip : snapshot'.reg Reg.ip = snapshot.handler signal)

/-- Waits end as they may, and the kernel is orderly in the end. -/
structure Passage (k k' : Kernel σ) : Prop where
  fate : ∀ {pid target deadline}, k.Awaits pid target deadline → WaitFate k k' pid target deadline
  orderly : k'.Orderly

section Statuses

omit [Storage σ] [VolumeBacked σ]

variable {k k' k₁ : Kernel σ} {pid target : Pid} {deadline : Option UInt32}

theorem awaits_iff :
    k.Awaits pid target deadline ↔ k.status? pid = some (.waitingForExit target deadline) :=
  Option.map_eq_some_iff.symm

/-- A process that is active waits for nobody. -/
theorem not_awaits_of_active (h : k.status? pid = some .active) :
    ¬k.Awaits pid target deadline := by
  rw [awaits_iff, h]
  simp

theorem isLive_iff_status? : k.table.isLive pid ↔ (k.status? pid).isSome := by
  rw [status?, Option.isSome_map, Table.isLive]

theorem status?_setStatus (k : Kernel σ) (pid q : Pid) (status : Status) :
    (k.onTable (·.setStatus pid status)).status? q =
      if pid = q then (k.status? q).map fun _ => status else k.status? q := by
  simp only [status?, onTable, Table.setStatus, Table.process?_modify]
  split
  · cases k.table.process? q <;> rfl
  · rfl

theorem status?_occupy (k : Kernel σ) (pid q : Pid) (program backing : Handle) :
    (k.onTable (·.occupy pid program backing)).status? q =
      if pid = q then some .active else k.status? q := by
  simp only [status?, onTable, Table.process?_occupy]
  split <;> rfl

/-! ## Where nobody does anything else -/

/-- Everybody does what they did, and only idle events were logged. -/
structure Calm (k k' : Kernel σ) : Prop where
  status : ∀ pid, k'.status? pid = k.status? pid
  log : LogsIdly k k'

instance : IsPreorder (Kernel σ) Calm where
  refl k := ⟨fun _ => rfl, refl_of LogsIdly k⟩
  trans _ _ _ h₁ h₂ :=
    ⟨fun pid => (h₂.status pid).trans (h₁.status pid), trans_of LogsIdly h₁.log h₂.log⟩

theorem Calm.of_same (ht : k'.table = k.table) (hl : k'.log = k.log) : Calm k k' :=
  ⟨fun pid => by rw [status?, status?, ht], .same hl⟩

theorem Calm.awaits (h : Calm k k') : k'.Awaits pid target deadline ↔ k.Awaits pid target deadline := by
  rw [awaits_iff, awaits_iff, h.status]

theorem Calm.live (h : Calm k k') : k'.table.isLive pid ↔ k.table.isLive pid := by
  rw [isLive_iff_status?, isLive_iff_status?, h.status]

theorem Calm.orderly (h : Calm k k') (ho : k.Orderly) : k'.Orderly := fun _ _ _ ha =>
  have hattends := ho _ _ _ (h.awaits.mp ha)
  ⟨hattends.apart, h.live.mpr hattends.live, hattends.since.logsIdly h.log⟩

theorem calm_note (k : Kernel σ) {e : Event} (he : e.isIdle) : Calm k (k.note e) :=
  ⟨fun _ => rfl, logsIdly_note k he⟩

end Statuses

section Storage

omit [VolumeBacked σ]

variable {k k' : Kernel σ}

theorem Plain.calm (h : Plain k k') : Calm k k' := by
  refine ⟨?_, h.log⟩
  intro pid
  unfold status?
  cases hp : k.table.process? pid with
  | some p =>
    obtain ⟨count, hp'⟩ := Table.process?_of_resetCounts h.table hp
    rw [hp']
    rfl
  | none =>
    cases hp' : k'.table.process? pid with
    | none => rfl
    | some p' =>
      obtain ⟨count, hp''⟩ := Table.process?_of_resetCounts h.table.symm hp'
      rw [hp] at hp''
      cases hp''

theorem Quiet.calm (h : Quiet k k') : Calm k k' :=
  h.plain.calm

end Storage

variable {k k' k₁ : Kernel σ}

theorem Calm.passage (h : Calm k k') (ho : k.Orderly) : Passage k k' :=
  ⟨fun ha => .goesOn (h.awaits.mpr ha), h.orderly ho⟩

/-- If no file is changed by plain work before, that work does not matter. -/
theorem Passage.of_plain (h : Plain k k₁) (hkept : ∀ h, k₁.kept? h = k.kept? h)
    (hp : Passage k₁ k') : Passage k k' := by
  refine ⟨fun {pid target deadline} ha => ?_, hp.orderly⟩
  obtain ⟨es, hes, hidle⟩ := h.log
  cases hp.fate (h.calm.awaits.mpr ha) with
  | goesOn ha' => exact .goesOn ha'
  | died hl => exact .died hl
  | answered p status snapshot fs hp hactive hexit hlogs htold honce hk hr =>
    refine .answered p status snapshot (es ++ fs) hp hactive hexit (hes.append hlogs)
      (List.mem_append_right es htold) ?_ hk hr
    intro e he hlife
    rcases List.mem_append.mp he with he | he
    · rw [e.isLifeOf_of_isIdle (hidle e he)] at hlife
      cases hlife
    · exact honce e he hlife
  | interrupted signal p p' snapshot snapshot' fs hp hk hhandler hlogs htold hp' hactive hk' hr hip =>
    obtain ⟨count, hp₀⟩ := Table.process?_of_resetCounts h.table.symm hp
    rw [hkept] at hk
    exact .interrupted signal { p with count } p' snapshot snapshot' (es ++ fs) hp₀ hk hhandler
      (hes.append hlogs) (List.mem_append_right es htold) hp' hactive hk' hr hip

/-- The fallout of a death, after work that leaves everybody who survives with what they do. -/
theorem Passage.of_fallout (ho : k₁.Orderly) (hlog : LogsIdly k k₁) (hf : Fallout nobody k₁ k')
    (hstatus : ∀ pid, k'.table.isLive pid → k₁.status? pid = k.status? pid) : Passage k k' := by
  obtain ⟨es, hes, hidle⟩ := hlog
  obtain ⟨fs, hfs, hends⟩ := hf.log
  refine ⟨fun {pid target deadline} ha => ?_, ?_⟩
  · by_cases hlive : k'.table.isLive pid
    case neg => exact .died hlive
    have ha₁ : k₁.Awaits pid target deadline := by
      rw [awaits_iff, hstatus pid hlive, ← awaits_iff]
      exact ha
    obtain ⟨p, hp, hs⟩ := ha₁
    cases hf.fate hp with
    | untouched hp' => exact .goesOn ⟨p, hp', hs⟩
    | died status hslot => exact .died (Fallout.not_live_of_free hslot)
    | answered target' deadline' status snapshot hw hl hslot hp' hk hr =>
      rw [hs] at hw
      cases hw
      refine .answered _ status snapshot (es ++ fs) hp' rfl ?_ (hes.append hfs)
        (List.mem_append_right es (hends.all target status hl hslot)) ?_ hk hr
      · rw [exitStatus?, hslot, Slot.lastExit?]
      · intro e he hlife
        rcases List.mem_append.mp he with he | he
        · rw [e.isLifeOf_of_isIdle (hidle e he)] at hlife
          cases hlife
        · rcases hends.only e he with hi | ⟨q, status', rfl, _, hslot'⟩
          · rw [e.isLifeOf_of_isIdle hi] at hlife
            cases hlife
          · have hq : q = target := of_decide_eq_true hlife
            rw [hq, hslot] at hslot'
            cases hslot'
            rw [hq]
  · intro pid target deadline ha
    have hlive : k'.table.isLive pid := by
      obtain ⟨p, hp, _⟩ := ha
      exact Table.isLive_iff.mpr ⟨p, hp⟩
    obtain ⟨p, hp⟩ := Table.isLive_iff.mp (hf.live hlive)
    have ha₁ : k₁.Awaits pid target deadline := by
      obtain ⟨p', hp', hs⟩ := ha
      cases hf.fate hp with
      | untouched hp'' =>
        rw [hp'] at hp''
        cases hp''
        exact ⟨_, hp, hs⟩
      | died status hslot => exact absurd hlive (Fallout.not_live_of_free hslot)
      | answered _ _ _ _ _ _ _ hp'' =>
        rw [hp'] at hp''
        cases hp''
        cases hs
    have hattends := ho _ _ _ ha₁
    have htarget : k'.table.isLive target := by
      by_contra hn
      rcases hf.awaited ha hn with ⟨_, hn₁⟩ | hnobody
      · exact hn₁ hattends.live
      · exact hnobody
    refine ⟨hattends.apart, htarget, hattends.since.logs hfs ?_⟩
    intro e he
    rcases hends.only e he with hi | ⟨q, status, rfl, _, hslot⟩
    · exact ⟨e.isWaitOf_of_isIdle hi pid, e.isLifeOf_of_isIdle hi target⟩
    · have hq : q ≠ target := by
        rintro rfl
        exact Fallout.not_live_of_free hslot htarget
      exact ⟨rfl, decide_eq_false hq⟩

/-- The fallout of a death after work that leaves everybody with what they do. -/
theorem Passage.of_calm_fallout (ho : k.Orderly) (h : Calm k k₁) (hf : Fallout nobody k₁ k') :
    Passage k k' :=
  .of_fallout (h.orderly ho) h.log hf fun pid _ => h.status pid

/-! ## Where one process does something else -/

section Concerns

omit [Storage σ] [VolumeBacked σ]

/-- Everybody but one process does what they did, and nothing was logged of the waits of the others, nor
of the beginning or end of anybody that was alive. -/
structure Concerns (x : Pid) (k k' : Kernel σ) : Prop where
  others : ∀ pid, pid ≠ x → k'.status? pid = k.status? pid
  live : k.table.isLive x → k'.table.isLive x
  log : ∃ es, Logs k es k' ∧ ∀ e ∈ es, (∀ pid, pid ≠ x → e.isWaitOf pid = false) ∧
    ∀ pid, k.table.isLive pid → e.isLifeOf pid = false

variable {x : Pid}

theorem Concerns.of_idle (hothers : ∀ pid, pid ≠ x → k'.status? pid = k.status? pid)
    (hlive : k.table.isLive x → k'.table.isLive x) (hl : LogsIdly k k') : Concerns x k k' := by
  obtain ⟨es, hes, hidle⟩ := hl
  exact ⟨hothers, hlive, es, hes, fun e he => ⟨fun pid _ => e.isWaitOf_of_isIdle (hidle e he) pid,
    fun pid _ => e.isLifeOf_of_isIdle (hidle e he) pid⟩⟩

/-- The waits of the others go on. -/
theorem Concerns.awaits (h : Concerns x k k') {pid target : Pid} {deadline : Option UInt32}
    (hne : pid ≠ x) : k'.Awaits pid target deadline ↔ k.Awaits pid target deadline := by
  rw [awaits_iff, awaits_iff, h.others pid hne]

theorem Concerns.attends (h : Concerns x k k') {pid target : Pid} (hne : pid ≠ x)
    (ha : k.Attends pid target) : k'.Attends pid target := by
  refine ⟨ha.apart, ?_, ?_⟩
  · by_cases ht : target = x
    · subst ht
      exact h.live ha.live
    · rw [isLive_iff_status?, h.others target ht, ← isLive_iff_status?]
      exact ha.live
  · obtain ⟨es, hes, hquiet⟩ := h.log
    exact ha.since.logs hes fun e he => ⟨(hquiet e he).1 pid hne, (hquiet e he).2 target ha.live⟩

end Concerns

/-- It is left to show what becomes of the one process. -/
theorem Concerns.passage {x : Pid} (h : Concerns x k k') (ho : k.Orderly)
    (hfate : ∀ {target deadline}, k.Awaits x target deadline → WaitFate k k' x target deadline)
    (hattends : ∀ {target deadline}, k'.Awaits x target deadline → k'.Attends x target) :
    Passage k k' := by
  refine ⟨fun {pid target deadline} ha => ?_, ?_⟩
  · by_cases hne : pid = x
    · subst hne
      exact hfate ha
    · exact .goesOn ((h.awaits hne).mpr ha)
  · intro pid target deadline ha
    by_cases hne : pid = x
    · subst hne
      exact hattends ha
    · exact h.attends hne (ho _ _ _ ((h.awaits hne).mp ha))

/-! ## Where one process becomes active -/

section Rouses

omit [Storage σ] [VolumeBacked σ]

/-- At most, one process became active, and only idle events were logged. -/
structure Rouses (x : Pid) (k k' : Kernel σ) : Prop where
  others : ∀ pid, pid ≠ x → k'.status? pid = k.status? pid
  self : k'.status? x = k.status? x ∨ k'.status? x = some .active
  log : LogsIdly k k'

variable {x : Pid}

theorem Calm.rouses (h : Calm k k') (x : Pid) : Rouses x k k' :=
  ⟨fun pid _ => h.status pid, .inl (h.status x), h.log⟩

theorem Rouses.calm (h : Rouses x k k₁) (hc : Calm k₁ k') : Rouses x k k' := by
  refine ⟨fun pid hne => (hc.status pid).trans (h.others pid hne), ?_,
    trans_of LogsIdly h.log hc.log⟩
  rw [hc.status]
  exact h.self

theorem Rouses.setActive (h : Rouses x k k') : Rouses x k (k'.onTable (·.setStatus x .active)) := by
  refine ⟨?_, ?_, trans_of LogsIdly h.log (.same rfl)⟩
  · intro pid hne
    rw [status?_setStatus, if_neg (Ne.symm hne)]
    exact h.others pid hne
  · rw [status?_setStatus, if_pos rfl]
    cases hs : k'.status? x with
    | none =>
      have hself := h.self
      rw [hs] at hself
      exact .inl (hself.resolve_right nofun)
    | some status => exact .inr rfl

theorem Rouses.concerns (h : Rouses x k k') : Concerns x k k' := by
  refine .of_idle h.others ?_ h.log
  intro hl
  rw [isLive_iff_status?]
  rcases h.self with hs | hs
  · rw [hs, ← isLive_iff_status?]
    exact hl
  · rw [hs]
    rfl

theorem Rouses.orderly (h : Rouses x k k') (ho : k.Orderly) : k'.Orderly := by
  intro pid target deadline ha
  by_cases hne : pid = x
  · subst hne
    rcases h.self with hs | hs
    · rw [awaits_iff, hs, ← awaits_iff] at ha
      have hattends := ho _ _ _ ha
      have htarget : k'.table.isLive target := by
        rw [isLive_iff_status?, h.others target hattends.apart, ← isLive_iff_status?]
        exact hattends.live
      exact ⟨hattends.apart, htarget, hattends.since.logsIdly h.log⟩
    · exact absurd ha (not_awaits_of_active hs)
  · exact h.concerns.attends hne (ho _ _ _ ((h.concerns.awaits hne).mp ha))

/-- Nothing changes if the process was active before. -/
theorem Rouses.calm_of_active (h : Rouses x k k') (hx : k.status? x = some .active) : Calm k k' := by
  refine ⟨?_, h.log⟩
  intro pid
  by_cases hne : pid = x
  · subst hne
    rw [hx]
    rcases h.self with hs | hs
    · rw [hs, hx]
    · exact hs
  · exact h.others pid hne

end Rouses

omit [VolumeBacked σ] in
/-- Work on a process makes it active at most. -/
theorem rouses_inward {α : Type} {act : Attempt σ α} (hact : Turn.Inward act) {k : Kernel σ}
    {t : Turn σ} (h : Rouses t.self.pid k t.kernel) :
    Rouses t.self.pid k (after act t).kernel :=
  hact.kernel (P := Rouses t.self.pid k) (fun _ _ hq h => h.calm hq.calm)
    (fun k _ he h => h.calm (calm_note k he)) (fun _ h => h.setActive) rfl h

end Kernel

end CoopKernel
