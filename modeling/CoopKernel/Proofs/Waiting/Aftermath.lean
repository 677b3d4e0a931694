import CoopKernel.Proofs.Waiting.Depth

/-!
# What each process gets out of a cascade

A cascade of deaths comes to every process that waits for one of the dead, and to no other. Such a process is
woken with the status of the dead one in the result register of its snapshot, or it is lost because its
snapshot could not be read or written at that point, and then the cascade goes on to those who wait for it.
`Aftermath` says so of a cascade that begins with some process. It is shown beside `Rousing`, by the same
inductions, which tell in addition that whoever is still to be woken is asleep.
-/

namespace CoopKernel

variable {σ : Type} [Storage σ]

namespace Kernel

/-- After the end of a process, those that waited for it are woken in turn, which comes to the process `w`
with the kernel `k₁`. -/
def ComesTo (k : Kernel σ) (pid : Pid) (status : UInt16) (k₁ : Kernel σ) (w : Pid) : Prop :=
  ∃ p before later, k.table.process? pid = some p ∧
    (k.bury pid p status).table.waitersFor pid = before ++ w :: later ∧
    k₁ = before.foldl (fun k w => k.wake fault w status) (k.bury pid p status)

/-- In the cascade that begins with a process, the kernel `k₁` is to wake a process with the result. -/
inductive Attempts : Kernel σ → Pid → UInt16 → Kernel σ → Pid → UInt16 → Prop
  | direct {k k₁ : Kernel σ} {pid w : Pid} {status : UInt16} (h : k.ComesTo pid status k₁ w) :
      Attempts k pid status k₁ w status
  | beyond {k k₁ k₂ k₃ : Kernel σ} {pid w v : Pid} {status result : UInt16} {f : Fault}
      (h : k.ComesTo pid status k₁ w) (hf : k₁.wakeFailure? w status = some (k₂, f))
      (hv : Attempts (k₂.note (.faulted w f)) w exitFault k₃ v result) : Attempts k pid status k₃ v result

variable [VolumeBacked σ]

/-- What is in the file behind a handle. -/
def behind? (k : Kernel σ) (h : Handle) : Option Bytes :=
  (VolumeBacked.volume k.store).behind? h

theorem behind?_load (k : Kernel σ) (pid : Pid) (h : Handle) : (k.load pid).2.behind? h = k.behind? h := by
  unfold load
  cases k.table.process? pid with
  | none => rfl
  | some p =>
    have hread : (VolumeBacked.volume (Snapshot.load k.store p.backing).2).behind? h = k.behind? h := by
      unfold Snapshot.load
      dsimp only
      split <;> exact VolumeBacked.behind?_read k.store p.backing 0 _ h
    dsimp only
    split <;> exact hread

theorem behind?_save_of_ne (k : Kernel σ) {self : Loaded} {h : Handle}
    (hne : Storage.pathOf? k.store self.backing ≠ Storage.pathOf? k.store h) :
    (k.save self).2.behind? h = k.behind? h :=
  VolumeBacked.behind?_write_of_ne k.store 0 _ hne

theorem behind?_save {k k' : Kernel σ} {self : Loaded} {h : Handle} {content : Bytes} (hs : k.save self = (true, k'))
    (hself : self.backing = h) (hb : k.behind? h = some content) :
    k'.behind? h = some (content.overwrite 0 self.state.toBlock.toList) := by
  rcases hsave : self.state.save k.store self.backing with ⟨done, s⟩
  simp only [save, hsave] at hs
  obtain ⟨rfl, rfl⟩ := Prod.mk.inj hs
  rw [hself] at hsave
  exact (VolumeBacked.behind?_of_save hb hsave).2

end Kernel

variable [VolumeBacked σ]

/-! ## What waking does to the files -/

namespace Custody

variable {l : Ledger} {k ka : Kernel σ} {w q : Pid} {r : Process} {self : Loaded} {result : UInt16}

/-- A process is loaded, and saved with another snapshot, without touching the backing files of others. -/
theorem behind?_saved (c : Custody l k) (hl : k.load w = (.ok self, ka)) (state : Snapshot) (hq : q ≠ w)
    (hr : k.table.process? q = some r) :
    (ka.save { self with state }).2.behind? r.backing = k.behind? r.backing := by
  have hloaded : Custody l ka := c.quiet (Kernel.quiet_of_load hl)
  have htable : ka.table = k.table := by rw [(Kernel.quiet_of_load hl).rest]
  have hread : ka.behind? r.backing = k.behind? r.backing := by
    have hsame := Kernel.behind?_load k w r.backing
    rwa [hl] at hsame
  obtain ⟨p, hp, hself⟩ := Kernel.load_ok hl
  refine (Kernel.behind?_save_of_ne ka ?_).trans hread
  have hbacking : self.backing = p.backing := by rw [hself]
  dsimp only
  rw [hbacking]
  rw [← htable] at hp hr
  exact hloaded.backing_paths hp hr (Ne.symm hq)

/-- Neither does a process that cannot be woken. -/
theorem behind?_of_wakeFailure (c : Custody l k) {k₁ : Kernel σ} {f : Fault}
    (h : k.wakeFailure? w result = some (k₁, f)) (hq : q ≠ w) (hr : k.table.process? q = some r) :
    k₁.behind? r.backing = k.behind? r.backing := by
  unfold Kernel.wakeFailure? at h
  rcases hl : k.load w with ⟨f' | self, ka⟩
  · have hsame := Kernel.behind?_load k w r.backing
    rw [hl] at h hsame
    cases h
    exact hsame
  · have hsame := c.behind?_saved hl (self.state.setReg Reg.result result) hq hr
    rw [hl] at h
    rcases hs : ka.save { self with state := self.state.setReg Reg.result result } with ⟨_ | _, kb⟩
    · rw [hs] at hsame
      simp only [hs] at h
      cases h
      exact hsame
    · simp only [hs] at h
      cases h

/-- A process that is woken is active, with the result in the state block at the start of its backing file, of
which the rest is as before, and so are the backing files of others. -/
theorem wake_of_no_failure (c : Custody l k) (h : k.wakeFailure? w result = none)
    (onFault : Kernel σ → Pid → Fault → Kernel σ) :
    (k.wake onFault w result).table = k.table.setStatus w .active ∧
    (∃ r content snapshot, k.table.process? w = some r ∧ k.behind? r.backing = some content ∧
      Snapshot.ofBlock (content.slice 0 Snapshot.blockSize) = .ok snapshot ∧
      (k.wake onFault w result).behind? r.backing =
        some (content.overwrite 0 (snapshot.setReg Reg.result result).toBlock.toList)) ∧
    ∀ {q r}, q ≠ w → k.table.process? q = some r →
      (k.wake onFault w result).behind? r.backing = k.behind? r.backing := by
  obtain ⟨self, ka, kb, hl, hs, hwake⟩ := Kernel.wake_of_no_failure h
  obtain ⟨r, hr, hself⟩ := Kernel.load_ok hl
  have hbacking : self.backing = r.backing := by rw [hself]
  obtain ⟨content, hcontent⟩ := Option.isSome_iff_exists.mp (c.backing_file hr)
  have hread : ka.behind? r.backing = some content := by
    have hsame := Kernel.behind?_load k w r.backing
    rw [hl] at hsame
    exact hsame.trans hcontent
  have htable : kb.table = k.table := by
    have hsaved := trans_of Kernel.Quiet (Kernel.quiet_of_load hl)
      (Kernel.save_quiet ka { self with state := self.state.setReg Reg.result result })
    rw [hs] at hsaved
    exact (congrArg Kernel.table hsaved.rest).trans rfl
  have hwritten := Kernel.behind?_save hs hbacking hread
  have hothers {q : Pid} {r : Process} (hq : q ≠ w) (hr : k.table.process? q = some r) :=
    c.behind?_saved hl (self.state.setReg Reg.result result) hq hr
  rw [hs] at hothers
  rw [hwake onFault]
  refine ⟨congrArg (Table.setStatus · w .active) htable, ⟨r, content, self.state, hr, hcontent, ?_, ?_⟩, ?_⟩
  · exact VolumeBacked.ofBlock_of_load hcontent (Kernel.load_state hl hr)
  · exact hwritten
  · exact hothers

end Custody

/-! ## Shares -/

/-- A cascade got at a process: it is dead, and the cascade began with it, or it waited for one that the
cascade got at. -/
inductive Falls (k k' : Kernel σ) (first : Pid) : Pid → Prop
  | first (hd : ¬k'.table.isLive first) : Falls k k' first first
  | next {pid target : Pid} {deadline : Option UInt32} (ht : Falls k k' first target)
      (hw : k.Awaits pid target deadline) (hd : ¬k'.table.isLive pid) : Falls k k' first pid

/-- What a living process gets out of a cascade in which the given attempts are made to wake somebody. -/
inductive Share (attempts : Kernel σ → Pid → UInt16 → Prop) (first : Pid) (k k' : Kernel σ) (pid : Pid)
    (p : Process) : Prop
  | spared (hp : k'.table.process? pid = some p) (hb : k'.behind? p.backing = k.behind? p.backing)
  | roused (target : Pid) (deadline : Option UInt32) (status : UInt16) (content : Bytes) (snapshot : Snapshot)
      (hw : p.status = .waitingForExit target deadline) (hf : Falls k k' first target)
      (hs : k'.table.slot target = .free (some status))
      (hp : k'.table.process? pid = some { p with status := .active })
      (hb : k.behind? p.backing = some content)
      (ho : Snapshot.ofBlock (content.slice 0 Snapshot.blockSize) = .ok snapshot)
      (hb' : k'.behind? p.backing =
        some (content.overwrite 0 (snapshot.setReg Reg.result status).toBlock.toList))
  | lost (target : Pid) (deadline : Option UInt32) (status : UInt16)
      (hw : p.status = .waitingForExit target deadline) (hf : Falls k k' first target)
      (hs : k'.table.slot target = .free (some status))
      (hd : k'.table.slot pid = .free (some exitFault))
      (hc : ∃ k₁ failure, attempts k₁ pid status ∧ k₁.table.process? pid = some p ∧
        k₁.behind? p.backing = k.behind? p.backing ∧ k₁.wakeFailure? pid status = some failure)

/-- Dead processes stay dead, and all living ones but the first to end get their share. -/
structure Aftermath (attempts : Kernel σ → Pid → UInt16 → Prop) (first : Pid) (k k' : Kernel σ) : Prop where
  free : ∀ {pid : Pid} {status : Option UInt16}, k.table.slot pid = .free status →
    k'.table.slot pid = .free status
  share : ∀ {pid : Pid} {p : Process}, pid ≠ first → k.table.process? pid = some p →
    Share attempts first k k' pid p

namespace Aftermath

open Fallout (free_of_not_live not_live_of_free)

variable {attempts attempts₁ : Kernel σ → Pid → UInt16 → Prop} {first w : Pid} {k k₁ k₂ : Kernel σ}

theorem refl (attempts : Kernel σ → Pid → UInt16 → Prop) (first : Pid) (k : Kernel σ) :
    Aftermath attempts first k k where
  free := id
  share _ hp := .spared hp rfl

/-- Nobody comes to life. -/
theorem live (h : Aftermath attempts first k k₁) {pid : Pid} (hl : k₁.table.isLive pid) :
    k.table.isLive pid := by
  by_contra hn
  obtain ⟨status, hs⟩ := free_of_not_live hn
  exact not_live_of_free (h.free hs) hl

/-- Nobody begins to wait. -/
theorem awaits (h : Aftermath attempts first k k₁) (hd : ¬k₁.table.isLive first) {pid target : Pid}
    {deadline : Option UInt32} (ha : k₁.Awaits pid target deadline) : k.Awaits pid target deadline := by
  obtain ⟨p₁, hp₁, hs⟩ := ha
  have hlive : k₁.table.isLive pid := Table.isLive_iff.mpr ⟨p₁, hp₁⟩
  obtain ⟨p, hp⟩ := Table.isLive_iff.mp (h.live hlive)
  have hne : pid ≠ first := fun he => hd (he ▸ hlive)
  cases h.share hne hp with
  | spared hp' =>
    rw [hp₁] at hp'
    cases hp'
    exact ⟨p₁, hp, hs⟩
  | roused _ _ _ _ _ _ _ _ hp' =>
    rw [hp₁] at hp'
    cases hp'
    cases hs
  | lost _ _ _ _ _ _ hd' => exact absurd hlive (not_live_of_free hd')

/-- Who fell stays so. -/
theorem falls (h : Aftermath attempts w k₁ k₂) {pid : Pid} (hf : Falls k k₁ first pid) :
    Falls k k₂ first pid := by
  induction hf with
  | first hd => exact .first fun hl => hd (h.live hl)
  | next _ hw hd ih => exact .next ih hw fun hl => hd (h.live hl)

/-- What was done to the file of the process that ends first does not matter. -/
theorem of_damage (ht : k₁.table = k.table)
    (hb : ∀ {q r}, q ≠ w → k.table.process? q = some r → k₁.behind? r.backing = k.behind? r.backing)
    (h : Aftermath attempts w k₁ k₂) : Aftermath attempts w k k₂ where
  free hs := h.free (by rw [ht]; exact hs)
  share {q r} hq hp := by
    have hsame := hb hq hp
    have hfalls {pid : Pid} (hf : Falls k₁ k₂ w pid) : Falls k k₂ w pid := by
      induction hf with
      | first hd => exact .first hd
      | next _ hw hd ih =>
        rw [Kernel.Awaits, ht] at hw
        exact .next ih hw hd
    cases h.share hq (by rw [ht]; exact hp) with
    | spared hp₂ hb₂ => exact .spared hp₂ (hb₂.trans hsame)
    | roused t d s content snapshot hw hf hs hp₂ hc ho hc₂ =>
      exact .roused t d s content snapshot hw (hfalls hf) hs hp₂ (hsame.symm.trans hc) ho hc₂
    | lost t d s hw hf hs hd hc =>
      obtain ⟨k₃, failure, hr₃, hp₃, hb₃, hc₃⟩ := hc
      exact .lost t d s hw (hfalls hf) hs hd ⟨k₃, failure, hr₃, hp₃, hb₃.trans hsame, hc₃⟩

/-- Something follows that changes neither the table nor a backing file. -/
theorem quietly (h : Aftermath attempts first k k₁) (ht : k₂.table = k₁.table)
    (hb : ∀ h, k₂.behind? h = k₁.behind? h) : Aftermath attempts first k k₂ where
  free hs := by
    rw [ht]
    exact h.free hs
  share {q r} hq hp := by
    have hfalls {pid : Pid} (hf : Falls k k₁ first pid) : Falls k k₂ first pid := by
      induction hf with
      | first hd => exact .first (by rw [ht]; exact hd)
      | next _ hw hd ih => exact .next ih hw (by rw [ht]; exact hd)
    cases h.share hq hp with
    | spared hp₁ hb₁ => exact .spared (by rw [ht]; exact hp₁) ((hb _).trans hb₁)
    | roused t d s content snapshot hw hf hs hp₁ hc ho hc₁ =>
      exact .roused t d s content snapshot hw (hfalls hf) (by rw [ht]; exact hs) (by rw [ht]; exact hp₁) hc
        ho ((hb _).trans hc₁)
    | lost t d s hw hf hs hd hc =>
      exact .lost t d s hw (hfalls hf) (by rw [ht]; exact hs) (by rw [ht]; exact hd) hc

/-- A second cascade follows, which begins with a process whose share is known, and whose attempts are attempts
of the first one. -/
theorem followed (h₁ : Aftermath attempts first k k₁) (hd : ¬k₁.table.isLive first)
    (h₂ : Aftermath attempts₁ w k₁ k₂)
    (hmore : ∀ {k₃ pid result}, attempts₁ k₃ pid result → attempts k₃ pid result)
    (hf : ¬k₂.table.isLive w → Falls k k₂ first w)
    (hw : ∀ {p}, w ≠ first → k.table.process? w = some p → Share attempts first k k₂ w p) :
    Aftermath attempts first k k₂ where
  free hs := h₂.free (h₁.free hs)
  share {q r} hq hp := by
    have hfalls {pid : Pid} (hfall : Falls k₁ k₂ w pid) : Falls k k₂ first pid := by
      induction hfall with
      | first hd => exact hf hd
      | next _ ha hd' ih => exact .next ih (h₁.awaits hd ha) hd'
    by_cases he : q = w
    · subst he
      exact hw hq hp
    · cases h₁.share hq hp with
      | spared hp₁ hb₁ =>
        cases h₂.share he hp₁ with
        | spared hp₂ hb₂ => exact .spared hp₂ (hb₂.trans hb₁)
        | roused t d s content snapshot hws hf' hs hp₂ hc ho hc₂ =>
          exact .roused t d s content snapshot hws (hfalls hf') hs hp₂ (hb₁.symm.trans hc) ho hc₂
        | lost t d s hws hf' hs hd' hc =>
          obtain ⟨k₃, failure, hr₃, hp₃, hb₃, hc₃⟩ := hc
          exact .lost t d s hws (hfalls hf') hs hd' ⟨k₃, failure, hmore hr₃, hp₃, hb₃.trans hb₁, hc₃⟩
      | roused t d s content snapshot hws hf' hs hp₁ hc ho hc₁ =>
        cases h₂.share he hp₁ with
        | spared hp₂ hb₂ =>
          exact .roused t d s content snapshot hws (h₂.falls hf') (h₂.free hs) hp₂ hc ho (hb₂.trans hc₁)
        | roused _ _ _ _ _ hactive => cases hactive
        | lost _ _ _ hactive => cases hactive
      | lost t d s hws hf' hs hd' hc =>
        exact .lost t d s hws (h₂.falls hf') (h₂.free hs) (h₂.free hd') hc

end Aftermath

/-! ## Waking those who waited -/

namespace Rousing

variable {l : Ledger} {depth : Nat} {pid w : Pid} {status : UInt16} {rest : List Pid} {k k₁ k₂ k₃ : Kernel σ}

open Fallout (not_live_of_free)
open Kernel (Attempts)

/-- A waiter that dies falls to the cascade. -/
theorem falls_waiter (h : Rousing l depth pid status k (w :: rest) k₁)
    (ha : Aftermath (Attempts k pid status) pid k k₁) (hw : k₁.table.isLive w)
    (hpid : ¬k₂.table.isLive pid) (hdead : ¬k₂.table.isLive w) : Falls k k₂ pid w := by
  obtain ⟨p₁, hp₁⟩ := Table.isLive_iff.mp hw
  obtain ⟨d, hd⟩ := h.asleep List.mem_cons_self hp₁
  exact .next (.first hpid) (ha.awaits (not_live_of_free h.buried) ⟨p₁, hp₁, hd⟩) hdead

/-- The next waiter could not be woken, and is killed for that. -/
theorem aftermath_killed (h : Rousing l depth pid status k (w :: rest) k₁)
    (ha : Aftermath (Attempts k pid status) pid k k₁) (hcomes : k.ComesTo pid status k₁ w)
    (hkill : ∀ {k : Kernel σ}, Custody l k → k.liveCount ≤ depth → ∀ pid status,
      Aftermath (Attempts k pid status) pid k (k.kill pid status).2)
    {f : Fault} (hfailed : k₁.wakeFailure? w status = some (k₂, f))
    (hothers : ∀ {q r}, q ≠ w → k₁.table.process? q = some r →
      k₂.behind? r.backing = k₁.behind? r.backing) (hlive : k₁.table.isLive w) :
    Aftermath (Attempts k pid status) pid k (k₂.fault w f) := by
  have hquiet := Kernel.quiet_of_wakeFailure hfailed
  have htable : (k₂.note (.faulted w f)).table = k₁.table := by rw [hquiet.rest]; rfl
  have hfew : (k₂.note (.faulted w f)).liveCount ≤ depth := by
    rw [Kernel.liveCount, htable]
    exact h.few
  have hcascade := Aftermath.of_damage htable hothers
    (hkill ((h.custody.quiet hquiet).note _) hfew w exitFault)
  obtain ⟨p₁, hp₁⟩ := Table.isLive_iff.mp hlive
  have hdead : (k₂.fault w f).table.slot w = .free (some exitFault) :=
    (Kernel.fault_ends (k := k₂) ((congrArg (·.process? w) htable).trans hp₁) f).1
  have hpid : (k₂.fault w f).table.slot pid = .free (some status) := hcascade.free h.buried
  refine ha.followed (not_live_of_free h.buried) hcascade (fun hv => .beyond hcomes hfailed hv)
    (h.falls_waiter ha hlive (not_live_of_free hpid)) @fun p hw hp => ?_
  obtain ⟨d, hd⟩ := h.asleep List.mem_cons_self hp₁
  cases ha.share hw hp with
  | spared hp' hb =>
    rw [hp₁] at hp'
    cases hp'
    exact .lost pid d status hd (.first (not_live_of_free hpid)) hpid hdead
      ⟨k₁, _, .direct hcomes, hp₁, hb, hfailed⟩
  | roused _ _ _ _ _ _ _ _ hp' =>
    rw [hp₁] at hp'
    cases hp'
    cases hd
  | lost _ _ _ _ _ _ hd' => exact absurd hlive (not_live_of_free hd')

/-- The next waiter is woken. -/
theorem aftermath_woken (h : Rousing l depth pid status k (w :: rest) k₁)
    (ha : Aftermath (Attempts k pid status) pid k k₁)
    {r : Process} {content : Bytes} {snapshot : Snapshot} (hr : k₁.table.process? w = some r)
    (ht : k₂.table = k₁.table.setStatus w .active)
    (hbehind : k₁.behind? r.backing = some content)
    (hblock : Snapshot.ofBlock (content.slice 0 Snapshot.blockSize) = .ok snapshot)
    (hbehind' : k₂.behind? r.backing =
      some (content.overwrite 0 (snapshot.setReg Reg.result status).toBlock.toList))
    (hothers : ∀ {q r'}, q ≠ w → k₁.table.process? q = some r' →
      k₂.behind? r'.backing = k₁.behind? r'.backing) :
    Aftermath (Attempts k pid status) pid k k₂ := by
  have hfree : ∀ {q s}, k₁.table.slot q = .free s → k₂.table.slot q = .free s := by
    intro q s hs
    rw [ht, Table.setStatus, Table.slot_modify, hs]
    split <;> rfl
  have hself : k₂.table.process? w = some { r with status := .active } := by
    rw [ht]
    exact Table.process?_modify_self hr
  have hstep : Aftermath (Attempts k pid status) w k₁ k₂ := by
    refine ⟨hfree, fun {q r'} hq hr' => .spared ?_ (hothers hq hr')⟩
    rw [ht]
    exact (Table.process?_modify_of_ne hq).trans hr'
  refine ha.followed (not_live_of_free h.buried) hstep id
    (fun hd => absurd (Table.isLive_iff.mpr ⟨_, hself⟩) hd) @fun p hw hp => ?_
  obtain ⟨d, hd⟩ := h.asleep List.mem_cons_self hr
  cases ha.share hw hp with
  | spared hp₁ hb₁ =>
    rw [hr] at hp₁
    cases hp₁
    exact .roused pid d status content snapshot hd (.first (not_live_of_free (hfree h.buried)))
      (hfree h.buried) hself (hb₁.symm.trans hbehind) hblock hbehind'
  | roused _ _ _ _ _ _ _ _ hp₁ =>
    rw [hr] at hp₁
    cases hp₁
    cases hd
  | lost _ _ _ _ _ _ hd' => exact absurd (Table.isLive_iff.mpr ⟨r, hr⟩) (not_live_of_free hd')

theorem aftermath_wake (h : Rousing l depth pid status k (w :: rest) k₁)
    (ha : Aftermath (Attempts k pid status) pid k k₁) (hcomes : k.ComesTo pid status k₁ w)
    (hkill : ∀ {k : Kernel σ}, Custody l k → k.liveCount ≤ depth → ∀ pid status,
      Aftermath (Attempts k pid status) pid k (k.kill pid status).2) :
    Aftermath (Attempts k pid status) pid k (k₁.wake Kernel.fault w status) := by
  cases hf : k₁.wakeFailure? w status with
  | some failure =>
    obtain ⟨k₂, f⟩ := failure
    rw [Kernel.wake_of_failure hf]
    by_cases hlive : k₁.table.isLive w
    · exact h.aftermath_killed ha hcomes hkill hf (h.custody.behind?_of_wakeFailure hf) hlive
    · -- Someone who is dead by now is neither read nor written.
      rw [Kernel.wakeFailure?_of_not_live hlive] at hf
      cases hf
      rw [Kernel.fault_of_not_live hlive]
      exact ha.quietly rfl fun _ => rfl
  | none =>
    obtain ⟨htable, ⟨r, content, snapshot, hr, hcontent, hblock, hwritten⟩, hothers⟩ :=
      h.custody.wake_of_no_failure hf Kernel.fault
    exact h.aftermath_woken ha hr htable hcontent hblock hwritten hothers

theorem aftermath_wakeAll {p : Process} {before : List Pid} (h : Rousing l depth pid status k rest k₁)
    (ha : Aftermath (Attempts k pid status) pid k k₁) (hp : k.table.process? pid = some p)
    (hall : (k.bury pid p status).table.waitersFor pid = before ++ rest)
    (hk₁ : k₁ = before.foldl (fun k w => k.wake Kernel.fault w status) (k.bury pid p status))
    (hnodup : rest.Nodup)
    (hkill : ∀ {k : Kernel σ}, Custody l k → k.liveCount ≤ depth → ∀ pid status,
      Aftermath (Attempts k pid status) pid k (k.kill pid status).2) :
    Aftermath (Attempts k pid status) pid k
      (rest.foldl (fun k w => k.wake Kernel.fault w status) k₁) := by
  induction rest generalizing k₁ before with
  | nil => exact ha
  | cons w rest ih =>
    obtain ⟨hw, hnodup⟩ := List.nodup_cons.mp hnodup
    have hnext : Rousing l depth pid status k rest (k₁.wake Kernel.fault w status) := by
      have hagree : Kernel.AgreeUpTo (σ := σ) depth
          (fun k pid f => Kernel.killWithin depth (k.note (.faulted pid f)) pid exitFault) Kernel.fault :=
        fun k v f hfew => Kernel.killWithin_eq_kill (k := k.note (.faulted v f)) hfew v exitFault
      rw [← Kernel.wake_congr hagree h.few]
      exact h.wake hw (Table.isLive_iff.mpr ⟨p, hp⟩) fun hh hfew => Kernel.killWithin_fallout depth hh hfew
    have hsplit : (k.bury pid p status).table.waitersFor pid = (before ++ [w]) ++ rest := by
      rw [hall, List.append_assoc, List.singleton_append]
    refine ih hnext (h.aftermath_wake ha ⟨p, before, rest, hp, hall, hk₁⟩ hkill) hsplit ?_ hnodup
    rw [List.foldl_append, ← hk₁]
    rfl

end Rousing

namespace Kernel

variable {l : Ledger} {k : Kernel σ}

theorem aftermath_bury (hh : Custody l k) {pid : Pid} {p : Process} (hp : k.table.process? pid = some p)
    (status : UInt16) (attempts : Kernel σ → Pid → UInt16 → Prop) :
    Aftermath attempts pid k (k.bury pid p status) where
  free {q s} hs := by
    have hq : pid ≠ q := by
      rintro rfl
      exact Fallout.not_live_of_free hs (Table.isLive_iff.mpr ⟨p, hp⟩)
    rw [bury_table, Table.slot_vacate, if_neg hq]
    exact hs
  share {q r} hq hr := by
    refine .spared ?_ (behind?_bury k status (hh.backing_apart hr hp).symm
      fun he => hq (hh.backing_unique hp hr he).symm)
    rw [bury_table, Table.process?_vacate, if_neg (Ne.symm hq)]
    exact hr

/-- A cascade gives everybody their share. The induction is on how many are alive. -/
theorem kill_aftermath (hh : Custody l k) (pid : Pid) (status : UInt16) :
    Aftermath (k.Attempts pid status) pid k (k.kill pid status).2 := by
  obtain ⟨n, hn⟩ : ∃ n, k.liveCount ≤ n := ⟨_, Nat.le_refl _⟩
  induction n generalizing k pid status with
  | zero =>
    have hdead : ¬k.table.isLive pid := not_live_of_liveCount hn
    rw [kill, killWithin_of_not_live hdead]
    exact .refl _ pid k
  | succ n ih =>
    cases hp : k.table.process? pid with
    | none =>
      have hdead : ¬k.table.isLive pid := Option.not_isSome_iff_eq_none.mpr hp
      rw [kill, killWithin_of_not_live hdead]
      exact .refl _ pid k
    | some p =>
      have hnodup : ((k.bury pid p status).table.waitersFor pid).Nodup := by
        have hall : Pid.all.Nodup := List.nodup_finRange maxProcesses
        exact (hall.sublist List.filter_sublist).sublist List.filter_sublist
      rw [kill_eq hp]
      exact (Rousing.bury hh hp hn).aftermath_wakeAll (aftermath_bury hh hp status _) hp
        (List.nil_append _).symm rfl hnodup fun hh hfew pid status => ih hh pid status hfew

end Kernel

end CoopKernel
