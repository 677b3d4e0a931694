import CoopKernel.Proofs.Waiting.Fallout

/-!
# Waking those who waited

A cascade of deaths is no deeper than there are living processes, so that it never stops short. By
induction on the depth, with an induction over the waiters of one process inside it, a cascade leaves
no more behind than `Fallout` tells.
-/

namespace CoopKernel

variable {σ : Type} [Storage σ] [VolumeBacked σ]

namespace Kernel

/-! ## How many are alive -/

omit [Storage σ] [VolumeBacked σ] in
theorem liveCount_le {k k' : Kernel σ} (h : ∀ pid, k'.table.isLive pid → k.table.isLive pid) :
    k'.liveCount ≤ k.liveCount := by
  simp only [liveCount, Table.live, ← List.countP_eq_length_filter]
  exact List.countP_mono_left fun pid _ => h pid

omit [VolumeBacked σ] in
theorem liveCount_bury {k : Kernel σ} {pid : Pid} {p : Process} (status : UInt16)
    (hp : k.table.process? pid = some p) : (k.bury pid p status).liveCount < k.liveCount := by
  have hlive : (k.bury pid p status).table.live = k.table.live.filter (· ≠ pid) := by
    simp only [Table.live, List.filter_filter]
    refine List.filter_congr ?_
    intro q _
    simp only [Table.isLive, bury_table, Table.process?_vacate]
    by_cases hq : pid = q
    · simp [hq]
    · simp [hq, Ne.symm hq]
  simp only [liveCount, hlive]
  refine List.length_filter_lt_length_iff_exists.mpr ⟨pid, Table.mem_live.mpr ⟨p, hp⟩, ?_⟩
  simp

omit [Storage σ] [VolumeBacked σ] in
theorem liveCount_le_maxProcesses (k : Kernel σ) : k.liveCount ≤ maxProcesses := by
  have hlength := List.length_filter_le k.table.isLive Pid.all
  rw [Pid.all, List.length_finRange] at hlength
  exact hlength

/-! ## What loading and saving do to what is kept -/

theorem kept?_load (k : Kernel σ) (pid : Pid) (h : Handle) : (k.load pid).2.kept? h = k.kept? h := by
  unfold load
  cases k.table.process? pid with
  | none => rfl
  | some p =>
    have hread : (VolumeBacked.volume (Snapshot.load k.store p.backing).2).kept? h =
        (VolumeBacked.volume k.store).kept? h := by
      unfold Snapshot.load
      dsimp only
      split <;> exact Volume.kept?_congr (VolumeBacked.behind?_read k.store p.backing 0 _ h)
    dsimp only
    split <;> exact hread

theorem kept?_save_of_ne (k : Kernel σ) {self : Loaded} {h : Handle}
    (hne : Storage.pathOf? k.store self.backing ≠ Storage.pathOf? k.store h) :
    (k.save self).2.kept? h = k.kept? h :=
  Volume.kept?_congr (VolumeBacked.behind?_write_of_ne k.store 0 _ hne)

/-- Loading a process and saving it changed keeps it changed. -/
theorem kept?_save {k k₁ k₂ : Kernel σ} {pid : Pid} {p : Process} {self : Loaded} (self' : Loaded)
    (hp : k.table.process? pid = some p)
    (hfile : ((VolumeBacked.volume k.store).behind? p.backing).isSome)
    (hl : k.load pid = (.ok self, k₁)) (hb : self'.backing = p.backing)
    (hargs : self'.state.env.argCount = self.state.env.argCount)
    (hs : k₁.save self' = (true, k₂)) : k₂.kept? p.backing = some self'.state.stored := by
  obtain ⟨content, hcontent⟩ := Option.isSome_iff_exists.mp hfile
  have hload := load_state hl hp
  have hread := (VolumeBacked.kept?_of_load hcontent hload).2
  have hstill : (VolumeBacked.volume k₁.store).behind? p.backing = some content := by
    have hsame := VolumeBacked.behind?_read k.store p.backing 0 Snapshot.blockSize p.backing
    unfold Snapshot.load at hload
    rw [← hcontent, ← hsame]
    dsimp only at hload
    split at hload <;> rw [← (Prod.mk.inj hload).2]
  rcases hsave : self'.state.save k₁.store self'.backing with ⟨done, s⟩
  simp only [save, hsave] at hs
  obtain ⟨rfl, rfl⟩ := Prod.mk.inj hs
  rw [hb] at hsave
  exact VolumeBacked.kept?_of_save hstill (hargs ▸ hread) hsave

end Kernel

/-! ## One waiter after the other -/

/-- Where a cascade stands when some of those who waited for a process have been woken: the rest still
sleep and are owed an answer. -/
structure Rousing (l : Ledger) (depth : Nat) (pid : Pid) (status : UInt16) (k : Kernel σ)
    (rest : List Pid) (k₁ : Kernel σ) : Prop where
  custody : Custody l k₁
  few : k₁.liveCount ≤ depth
  buried : k₁.table.slot pid = .free (some status)
  fallout : Fallout (fun q target => target = pid ∧ q ∈ rest) k k₁
  asleep : ∀ {w : Pid} {r : Process}, w ∈ rest → k₁.table.process? w = some r →
    ∃ deadline, r.status = .waitingForExit pid deadline

namespace Rousing

variable {l : Ledger} {depth : Nat} {pid w : Pid} {status : UInt16} {rest : List Pid}
  {k k₁ k₂ : Kernel σ}

/-- If the next waiter dies, the others are as they were or suffer the same fate. -/
theorem died (h : Rousing l depth pid status k (w :: rest) k₁) (hf : Fallout nobody k₁ k₂)
    (hh : Custody l k₂) (hw : ¬k₂.table.isLive w) : Rousing l depth pid status k rest k₂ where
  custody := hh
  few := Nat.le_trans (Kernel.liveCount_le fun _ => hf.live) h.few
  buried := hf.free h.buried
  fallout := by
    have hall := h.fallout.trans hf
    refine ⟨hall.free, hall.fate, fun {q target deadline} ha hl => ?_, hall.log⟩
    rcases hall.awaited ha hl with hbefore | ⟨htarget, hq⟩
    · exact .inl hbefore
    · rcases List.mem_cons.mp hq with rfl | hq
      · obtain ⟨r, hr, _⟩ := ha
        exact absurd (Table.isLive_iff.mpr ⟨r, hr⟩) hw
      · exact .inr ⟨htarget, hq⟩
  asleep := by
    intro w' r hw' hr
    obtain ⟨r₁, hr₁⟩ := Table.isLive_iff.mp (hf.live (Table.isLive_iff.mpr ⟨r, hr⟩))
    obtain ⟨d, hd⟩ := h.asleep (List.mem_cons_of_mem w hw') hr₁
    cases hf.fate hr₁ with
    | untouched hp =>
      rw [hr] at hp
      cases hp
      exact ⟨d, hd⟩
    | died s hs => exact absurd (Table.isLive_iff.mpr ⟨r, hr⟩) (Fallout.not_live_of_free hs)
    | answered t d' s snapshot hs hl =>
      rw [hd] at hs
      cases hs
      exact absurd hl (Fallout.not_live_of_free h.buried)

/-- If the next waiter is woken, it has its answer. -/
theorem woken (h : Rousing l depth pid status k (w :: rest) k₁) (hrest : w ∉ rest) {r : Process}
    {snapshot : Snapshot} (hr : k₁.table.process? w = some r) (hh : Custody l k₂)
    (ht : k₂.table = k₁.table.setStatus w .active) (hlog : Kernel.LogsIdly k₁ k₂)
    (hkept : k₂.kept? r.backing = some snapshot) (hreg : snapshot.reg Reg.result = status)
    (hothers : ∀ {q r'}, q ≠ w → k₁.table.process? q = some r' →
      k₂.kept? r'.backing = k₁.kept? r'.backing) (hlive : k.table.isLive pid) :
    Rousing l depth pid status k rest k₂ := by
  obtain ⟨d, hd⟩ := h.asleep List.mem_cons_self hr
  have hslots : ∀ q : Pid, q ≠ w → k₂.table.slot q = k₁.table.slot q := by
    intro q hq
    rw [ht, Table.setStatus, Table.slot_modify, if_neg (Ne.symm hq)]
  have hprocess : ∀ q : Pid, q ≠ w → k₂.table.process? q = k₁.table.process? q := by
    intro q hq
    rw [ht]
    exact Table.process?_modify_of_ne hq
  have hself : k₂.table.process? w = some { r with status := .active } := by
    rw [ht]
    exact Table.process?_modify_self hr
  have hfree : ∀ {q : Pid} {s : Option UInt16}, k₁.table.slot q = .free s →
      k₂.table.slot q = .free s := by
    intro q s hs
    have hq : q ≠ w := by
      rintro rfl
      exact Fallout.not_live_of_free hs (Table.isLive_iff.mpr ⟨r, hr⟩)
    rw [hslots q hq]
    exact hs
  have hlives : ∀ q : Pid, k₂.table.isLive q ↔ k₁.table.isLive q := by
    intro q
    by_cases hq : q = w
    · subst hq
      simp only [Table.isLive, hself, hr, Option.isSome_some]
    · simp only [Table.isLive, hprocess q hq]
  have hnotself : ∀ {q target deadline}, k₂.Awaits q target deadline →
      q ≠ w ∧ k₁.Awaits q target deadline := by
    rintro q target deadline ⟨r', hr', hs⟩
    have hq : q ≠ w := by
      rintro rfl
      rw [hself] at hr'
      cases hr'
      cases hs
    rw [hprocess q hq] at hr'
    exact ⟨hq, r', hr', hs⟩
  have hends : ∃ es, Kernel.Logs k es k₂ ∧ Kernel.LogsEnds k es k₂ := by
    obtain ⟨es, hes, hends⟩ := h.fallout.log
    obtain ⟨fs, hfs, hidle⟩ := hlog
    refine ⟨es ++ fs, hes.append hfs, ?_, ?_⟩
    · intro e he
      rcases List.mem_append.mp he with he | he
      · rcases hends.only e he with hi | ⟨q, s, he', hl, hs⟩
        · exact .inl hi
        · exact .inr ⟨q, s, he', hl, hfree hs⟩
      · exact .inl (hidle e he)
    · intro q s hl hs
      have hq : q ≠ w := by
        rintro rfl
        exact Fallout.not_live_of_free hs (Table.isLive_iff.mpr ⟨_, hself⟩)
      rw [hslots q hq] at hs
      exact List.mem_append.mpr (.inl (hends.all q s hl hs))
  refine ⟨hh, ?_, hfree h.buried, ⟨fun hs => hfree (h.fallout.free hs), ?_, ?_, hends⟩, ?_⟩
  · exact Nat.le_trans (Kernel.liveCount_le fun q => (hlives q).mp) h.few
  · intro q p hp
    by_cases hq : q = w
    · subst hq
      cases h.fallout.fate hp with
      | untouched hp₁ =>
        rw [hr] at hp₁
        cases hp₁
        exact .answered pid d status snapshot hd hlive (hfree h.buried) hself hkept hreg
      | died s hs => exact absurd (Table.isLive_iff.mpr ⟨r, hr⟩) (Fallout.not_live_of_free hs)
      | answered _ _ _ _ _ _ _ hp₁ =>
        rw [hr] at hp₁
        cases hp₁
        cases hd
    · cases h.fallout.fate hp with
      | untouched hp₁ hk =>
        exact .untouched ((hprocess q hq).trans hp₁) ((hothers hq hp₁).trans hk)
      | died s hs => exact .died s (hfree hs)
      | answered t d' s snapshot' hw hl hs hp₁ hk hr' =>
        have hsame := @hothers q { p with status := .active } hq hp₁
        exact .answered t d' s snapshot' hw hl (hfree hs) ((hprocess q hq).trans hp₁)
          (hsame.trans hk) hr'
  · intro q target deadline ha hl
    obtain ⟨hq, ha₁⟩ := hnotself ha
    rcases h.fallout.awaited ha₁ (fun hl₁ => hl ((hlives target).mpr hl₁)) with hbefore | ⟨htarget, hm⟩
    · exact .inl hbefore
    · exact .inr ⟨htarget, (List.mem_cons.mp hm).resolve_left hq⟩
  · intro w' r' hw' hr'
    have hne : w' ≠ w := fun he => hrest (he ▸ hw')
    rw [hprocess w' hne] at hr'
    exact h.asleep (List.mem_cons_of_mem w hw') hr'

/-- If the next waiter is as good as dead once it has been killed, whatever was done to it before does
not matter. -/
theorem killed (h : Rousing l depth pid status k (w :: rest) k₁)
    (hkill : ∀ {k : Kernel σ}, Custody l k → k.liveCount ≤ depth → ∀ pid status,
      Fallout nobody k (Kernel.killWithin depth k pid status) ∧
        ¬(Kernel.killWithin depth k pid status).table.isLive pid)
    (hh : Custody l k₂) (ht : k₂.table = k₁.table) (hlog : k₂.log = k₁.log)
    (hothers : ∀ {q r}, q ≠ w → k₁.table.process? q = some r →
      k₂.kept? r.backing = k₁.kept? r.backing) (f : Fault) :
    Rousing l depth pid status k rest
      (Kernel.killWithin depth (k₂.note (.faulted w f)) w exitFault) := by
  have hnoted : Custody l (k₂.note (.faulted w f)) := hh.note _
  have hfew : (k₂.note (.faulted w f)).liveCount ≤ depth := by
    have hcount : (k₂.note (.faulted w f)).liveCount = k₁.liveCount := by
      simp only [Kernel.liveCount, Kernel.note, ht]
    rw [hcount]
    exact h.few
  obtain ⟨hfallout, hdead⟩ := hkill hnoted hfew w exitFault
  have hidle : Kernel.LogsIdly k₁ (k₂.note (.faulted w f)) :=
    trans_of Kernel.LogsIdly (.same hlog) (Kernel.logsIdly_note k₂ rfl)
  have htable : (k₂.note (.faulted w f)).table = k₁.table := ht
  exact h.died (Fallout.of_damage htable hidle hothers hfallout hdead)
    (hnoted.killWithin depth w exitFault) hdead

/-- Waking the next waiter, whether or not it survives that. -/
theorem wake (h : Rousing l depth pid status k (w :: rest) k₁) (hrest : w ∉ rest)
    (hlive : k.table.isLive pid)
    (hkill : ∀ {k : Kernel σ}, Custody l k → k.liveCount ≤ depth → ∀ pid status,
      Fallout nobody k (Kernel.killWithin depth k pid status) ∧
        ¬(Kernel.killWithin depth k pid status).table.isLive pid) :
    Rousing l depth pid status k rest (k₁.wake (fun k pid f =>
      Kernel.killWithin depth (k.note (.faulted pid f)) pid exitFault) w status) := by
  have hloaded := h.custody.quiet (Kernel.load_quiet k₁ w)
  have hkept := Kernel.kept?_load k₁ w
  have htable : (k₁.load w).2.table = k₁.table := by rw [(Kernel.load_quiet k₁ w).rest]
  have hlog : (k₁.load w).2.log = k₁.log := by rw [(Kernel.load_quiet k₁ w).rest]
  unfold Kernel.wake Kernel.withLoaded
  rcases hl : k₁.load w with ⟨f | self, ka⟩
  · rw [hl] at hloaded hkept htable hlog
    exact h.killed hkill hloaded htable hlog (fun _ _ => hkept _) f
  · rw [hl] at hloaded hkept htable hlog
    obtain ⟨r, hr, hself⟩ := Kernel.load_ok hl
    have hsaved := hloaded.quiet (Kernel.save_quiet ka
      { self with state := self.state.setReg Reg.result status })
    have hbacking : self.backing = r.backing := by rw [hself]
    have hsame : (ka.save { self with state := self.state.setReg Reg.result status }).2.table =
        k₁.table := by
      rw [(Kernel.save_quiet ka _).rest]
      exact htable
    have hlogged : (ka.save { self with state := self.state.setReg Reg.result status }).2.log =
        k₁.log := by
      rw [(Kernel.save_quiet ka _).rest]
      exact hlog
    have hra : ka.table.process? w = some r := by
      rw [htable]
      exact hr
    have hothers : ∀ {q r'}, q ≠ w → k₁.table.process? q = some r' →
        (ka.save { self with state := self.state.setReg Reg.result status }).2.kept? r'.backing =
          k₁.kept? r'.backing := by
      intro q r' hq hr'
      have hra' : ka.table.process? q = some r' := by
        rw [htable]
        exact hr'
      rw [Kernel.kept?_save_of_ne ka, hkept]
      dsimp only
      rw [hbacking]
      exact hloaded.backing_paths hra hra' (Ne.symm hq)
    simp only [Turn.modifyState, modify, modifyGet_run]
    rcases hs : ka.save { self with state := self.state.setReg Reg.result status } with
      ⟨_ | _, kb⟩
    · rw [hs] at hsaved hothers hsame hlogged
      exact h.killed hkill hsaved hsame hlogged hothers .storage
    · rw [hs] at hsaved hothers hsame hlogged
      have hsnapshot := Kernel.kept?_save
        { self with state := self.state.setReg Reg.result status } hr (h.custody.backing_file hr) hl
        hbacking rfl hs
      have hidle : Kernel.LogsIdly k₁ (kb.note (.woken w status)) :=
        trans_of Kernel.LogsIdly (.same hlogged) (Kernel.logsIdly_note kb rfl)
      refine h.woken hrest hr ((hsaved.note _).setStatus w .active) ?_ hidle hsnapshot ?_ hothers hlive
      · simp only [Kernel.onTable, Kernel.note]
        exact congrArg (Table.setStatus · w .active) hsame
      · exact Registers.read_write_self _ _ status

/-- Waking all that are left. -/
theorem wakeAll (h : Rousing l depth pid status k rest k₁) (hnodup : rest.Nodup)
    (hlive : k.table.isLive pid)
    (hkill : ∀ {k : Kernel σ}, Custody l k → k.liveCount ≤ depth → ∀ pid status,
      Fallout nobody k (Kernel.killWithin depth k pid status) ∧
        ¬(Kernel.killWithin depth k pid status).table.isLive pid) :
    Rousing l depth pid status k [] (rest.foldl (fun k w => k.wake (fun k pid f =>
      Kernel.killWithin depth (k.note (.faulted pid f)) pid exitFault) w status) k₁) := by
  induction rest generalizing k₁ with
  | nil => exact h
  | cons w rest ih =>
    obtain ⟨hw, hnodup⟩ := List.nodup_cons.mp hnodup
    exact ih (h.wake hw hlive hkill) hnodup

/-- When a process has been buried, all that waited for it are owed an answer. -/
theorem bury (hh : Custody l k) {p : Process} (hp : k.table.process? pid = some p)
    (hfew : k.liveCount ≤ depth + 1) :
    Rousing l depth pid status k ((k.bury pid p status).table.waitersFor pid)
      (k.bury pid p status) := by
  have htable := Kernel.bury_table k pid p status
  have hprocess : ∀ q : Pid, (k.bury pid p status).table.process? q =
      if pid = q then none else k.table.process? q := by
    intro q
    rw [htable, Table.process?_vacate]
  have hslots : ∀ q : Pid, (k.bury pid p status).table.slot q =
      if pid = q then .free (some status) else k.table.slot q := by
    intro q
    rw [htable, Table.slot_vacate]
  refine ⟨hh.bury hp status, ?_, ?_, ⟨fun {q s} hs => ?_, fun {q r} hr => ?_, ?_, ?_⟩, ?_⟩
  · have hless := Kernel.liveCount_bury status hp
    omega
  · rw [hslots, if_pos rfl]
  · have hq : pid ≠ q := by
      rintro rfl
      exact Fallout.not_live_of_free hs (Table.isLive_iff.mpr ⟨p, hp⟩)
    rw [hslots, if_neg hq]
    exact hs
  · by_cases hq : pid = q
    · subst hq
      exact .died status (by rw [hslots, if_pos rfl])
    · refine .untouched (by rw [hprocess, if_neg hq]; exact hr) (Volume.kept?_congr ?_)
      exact Kernel.behind?_bury k status (hh.backing_apart hr hp).symm
        fun he => hq (hh.backing_unique hp hr he)
  · rintro q target deadline ⟨r, hr, hs⟩ hl
    have hwaits : q ∈ _ := Table.mem_waitersFor.mpr ⟨r, deadline, hr, hs⟩
    rw [hprocess] at hr
    split at hr
    · cases hr
    · by_cases ht : pid = target
      · subst ht
        exact .inr ⟨rfl, hwaits⟩
      · refine .inl ⟨⟨r, hr, hs⟩, fun hl' => hl ?_⟩
        rw [Table.isLive, hprocess, if_neg ht]
        exact hl'
  · refine ⟨[.exited pid status], ?_, fun e he => .inr ⟨pid, status, List.mem_singleton.mp he,
      Table.isLive_iff.mpr ⟨p, hp⟩, by rw [hslots, if_pos rfl]⟩, ?_⟩
    · exact Kernel.logs_bury k pid p status
    · intro q s hl hs
      rw [hslots] at hs
      split at hs
      · next he =>
        cases hs
        rw [he]
        exact List.mem_singleton_self _
      · exact absurd hl (Fallout.not_live_of_free hs)
  · intro w r hw hr
    obtain ⟨r', d, hr', hs⟩ := Table.mem_waitersFor.mp hw
    rw [hr] at hr'
    cases hr'
    exact ⟨d, hs⟩

end Rousing

namespace Kernel

variable {l : Ledger} {k : Kernel σ}

/-- With a depth of as many processes as there are, a cascade does not stop short. -/
theorem killWithin_fallout (depth : Nat) (hh : Custody l k) (hfew : k.liveCount ≤ depth) (pid : Pid)
    (status : UInt16) :
    Fallout nobody k (killWithin depth k pid status) ∧
      ¬(killWithin depth k pid status).table.isLive pid := by
  induction depth generalizing k pid status with
  | zero =>
    refine ⟨Fallout.refl k, ?_⟩
    intro hl
    have hpos := List.length_pos_of_mem (Table.mem_live.mpr (Table.isLive_iff.mp hl))
    exact absurd hpos (Nat.not_lt.mpr hfew)
  | succ depth ih =>
    unfold killWithin
    cases hp : k.table.process? pid with
    | none =>
      refine ⟨Fallout.refl k, ?_⟩
      simp only [Table.isLive, hp]
      decide
    | some p =>
      have hnodup : ((k.bury pid p status).table.waitersFor pid).Nodup := by
        have hall : Pid.all.Nodup := List.nodup_finRange maxProcesses
        exact (hall.sublist List.filter_sublist).sublist List.filter_sublist
      have hburied : Rousing l depth pid status k _ _ := Rousing.bury hh hp hfew
      have hend := hburied.wakeAll hnodup
        (Table.isLive_iff.mpr ⟨p, hp⟩) fun hh hfew pid status => ih hh hfew pid status
      refine ⟨⟨hend.fallout.free, hend.fallout.fate, fun ha hl => ?_, hend.fallout.log⟩,
        Fallout.not_live_of_free hend.buried⟩
      rcases hend.fallout.awaited ha hl with hbefore | ⟨_, hm⟩
      · exact .inl hbefore
      · cases hm

/-- Killing a process has no more to it than its fallout. -/
theorem kill_fallout (hh : Custody l k) (pid : Pid) (status : UInt16) :
    Fallout nobody k (k.kill pid status).2 ∧ ¬(k.kill pid status).2.table.isLive pid :=
  killWithin_fallout maxProcesses hh (liveCount_le_maxProcesses k) pid status

theorem fault_fallout (hh : Custody l k) (pid : Pid) (f : Fault) :
    Fallout nobody k (k.fault pid f) ∧ ¬(k.fault pid f).table.isLive pid := by
  obtain ⟨hfallout, hdead⟩ := kill_fallout (hh.note (.faulted pid f)) pid exitFault
  have hnoted : Fallout nobody k (k.note (.faulted pid f)) :=
    Fallout.of_same rfl (fun _ => rfl) (logsIdly_note k rfl)
  exact ⟨hnoted.trans hfallout, hdead⟩

end Kernel

end CoopKernel
