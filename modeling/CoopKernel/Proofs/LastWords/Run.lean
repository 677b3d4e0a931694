import CoopKernel.Proofs.LastWords.Step
import CoopKernel.Proofs.Overreach

/-!
# Being killed again

A process that survives being killed has lost its handler for that. If it is killed a second time, that is the end of
it, unless it has registered a handler again in the meantime. This takes that nobody else writes to its backing file,
where its handlers are kept while it is not loaded.
-/

namespace CoopKernel

variable {l : Ledger} {k : Kernel Volume} {q : Pid} {t t' : Turn Volume}

namespace Moment

/-- Nobody but the process itself writes to its backing file or resizes it. -/
def sparesFile (q : Pid) : Moment Volume → Bool
  | obeyed k (.edit change) => (k.table.process? q).all fun p =>
      (change.apply k.store).behind? p.backing = k.store.behind? p.backing
  | stepped t => t.self.pid = q || !t.reaches q
  | _ => true

/-- The process lives on, nobody else writes to its backing file, and it does not register a handler for being
killed. -/
def keepsMute (q : Pid) (m : Moment Volume) : Bool :=
  m.sparesFile q && m.after.table.isLive q && !m.turn?.any fun t => t.self.pid = q && t.registers .suicide

/-- What is recorded is whether the process has been kept mute since it was killed. -/
def recordMute (start : Turn Volume) (q : Pid) (h : Ledger × Prop) (m : Moment Volume) : Ledger × Prop :=
  (h.1.record m, m = .stepped start ∨ h.2 ∧ m.keepsMute q)

theorem foldl_recordMute {start : Turn Volume} {ms : List (Moment Volume)} {h : Ledger × Prop} (hh : h.2)
    (hms : ms.all (·.keepsMute q)) : (ms.foldl (recordMute start q) h).2 := by
  induction ms generalizing h with
  | nil => exact hh
  | cons m ms ih =>
    rw [List.all_cons, Bool.and_eq_true] at hms
    exact ih (.inr ⟨hh, hms.1⟩) hms.2

end Moment

/-- What is known between turns: the books balance, and the process is mute if it was kept so. -/
def Kernel.KeepsMute (q : Pid) (h : Ledger × Prop) (k : Kernel Volume) : Prop :=
  Custody h.1 k ∧ (h.2 → k.halted = true ∨ k.Mute q)

/-- What is known in a turn. -/
def Turn.KeepsMute (q : Pid) (how : Option TurnEnd) (h : Ledger × Prop) (t : Turn Volume) : Prop :=
  match how with
  | none => InCustody h.1 t ∧ t.self.backingPath = t.kernel.backingPath t.self.pid ∧ (h.2 → t.Mute q)
  | some e => Custody h.1 t.kernel ∧ (h.2 → t.LeavesMute q e)

/-- The host can only kill a mute process or leave it mute. -/
theorem Kernel.Mute.obeyed (hmute : k.Mute q) (c : Custody l k) {call : HostCall Volume} (hdirect : call.isDirect)
    (hspares : call.spares k) (hkeeps : (Moment.obeyed k call).keepsMute q) : (call.run k).Mute q := by
  simp only [Moment.keepsMute, Bool.and_eq_true] at hkeeps
  obtain ⟨⟨hfile, hlive⟩, -⟩ := hkeeps
  refine (Kernel.mute_lasts q).obeyed c hmute hdirect hspares ?_ ?_ ?_
  · rintro status rfl
    exact absurd hlive (Kernel.not_isLive_kill k q status)
  · rintro signal rfl
    exact hmute.sendSignal c hlive
  · rintro change p rfl hp
    simpa [Moment.sparesFile, hp] using hfile

/-- So can a step of any process. -/
theorem Turn.Mute.stepped (hmute : t.Mute q) (h : InCustody l t)
    (hgrowth : t.self.backingPath = t.kernel.backingPath t.self.pid) (hkeeps : (Moment.stepped t).keepsMute q) :
    Yields (Turn.step t) (fun _ => Turn.Mute q) (Turn.LeavesMute q) := by
  simp only [Moment.keepsMute, Moment.sparesFile, Moment.turn?, Option.any_some, Bool.and_eq_true, Bool.or_eq_true,
    Bool.not_eq_true', Bool.and_eq_false_iff, decide_eq_true_eq, decide_eq_false_iff_not] at hkeeps
  obtain ⟨⟨hfile, hlive⟩, hregisters⟩ := hkeeps
  exact hmute.step h hgrowth hlive (fun hne => hfile.resolve_left (Ne.symm hne))
    fun hself => hregisters.resolve_left (not_not_intro hself)

/-- A process that survives being killed is kept mute. -/
theorem mute_upkeep {start : Turn Volume} (hstep : Turn.step start = .ok () t) (hmute : t.Mute q) :
    Upkeep (Moment.recordMute start q) (Kernel.KeepsMute q) (Turn.KeepsMute q) where
  obeyed := by
    rintro h k call ⟨⟨c, hI⟩, hdirect, hspares⟩
    refine ⟨c.obeyed hdirect hspares, ?_⟩
    rintro (hm | ⟨hh, hkeeps⟩)
    · cases hm
    · rcases hI hh with hhalted | hmute
      · exact .inl ((HostCall.halted_run k hdirect).trans hhalted)
      · exact .inr (hmute.obeyed c hdirect hspares hkeeps)
  counted := by
    rintro h k ⟨c, hI⟩
    refine ⟨c.countTick, ?_⟩
    rintro (hm | ⟨hh, -⟩)
    · cases hm
    · exact (hI hh).imp (fun hhalted => (Kernel.halted_countTick k).trans hhalted) (Kernel.mute_lasts q).countTick
  resumed := by
    rintro h k pid why ⟨⟨c, hI⟩, p, hp, hwhy, hgoes⟩
    have hcustody := c.openTurn pid why
    have hopen (hrecord : (Moment.recordMute start q h (.resumed k pid why)).2) := by
      have hmute : k.Mute q := by
        rcases hrecord with hm | ⟨hh, -⟩
        · cases hm
        · exact (hI hh).resolve_left (by rw [hgoes]; exact Bool.false_ne_true)
      exact hmute.openTurn c pid why
    cases ho : k.openTurn pid why with
    | error k' =>
      simp only [ho] at hcustody hopen
      exact ⟨hcustody, fun hrecord => .inr (hopen hrecord)⟩
    | ok t =>
      simp only [ho] at hcustody hopen
      exact ⟨hcustody, Kernel.openTurn_growth ho, hopen⟩
  stepped := by
    rintro h u ⟨hc, hgrowth, hJ⟩
    have hcustody := hc.step
    have hplaced := Turn.step_growth u hgrowth
    have hknown (hrecord : (Moment.recordMute start q h (.stepped u)).2) :
        Yields (Turn.step u) (fun _ => Turn.Mute q) (Turn.LeavesMute q) := by
      rcases hrecord with hm | ⟨hh, hkeeps⟩
      · cases hm
        rw [hstep]
        exact hmute
      · exact (hJ hh).stepped hc hgrowth hkeeps
    cases hs : Turn.step u with
    | ok _ u' =>
      rw [hs] at hcustody hknown
      rw [after_ok hs] at hplaced
      exact ⟨hcustody, hplaced, hknown⟩
    | error e u' =>
      rw [hs] at hcustody hknown
      exact ⟨hcustody, hknown⟩
  ended := by
    rintro h u how hJ
    have c : Custody h.1 u.kernel := by
      cases how with
      | none => exact hJ.1.custody
      | some e => exact hJ.1
    refine ⟨c.endTurn how, ?_⟩
    rintro (hm | ⟨hh, hkeeps⟩)
    · cases hm
    · simp only [Moment.keepsMute, Bool.and_eq_true] at hkeeps
      cases how with
      | none => exact .inr ((hJ.2.2 hh).endTurn hJ.1 hJ.2.1 hkeeps.1.2)
      | some e => exact (hJ.2 hh).endTurn c hkeeps.1.2

namespace HostCall

variable {v : Volume} {settings : Settings} {entropy : UInt64} {calls : List (HostCall Volume)}
  {before between later : List (Moment Volume)}

/-- A process that survives being killed is mute as long as it is kept so. -/
theorem mute_while_kept (h : allSpare (Kernel.new v settings entropy) calls)
    (hcourse : courseAll (Kernel.new v settings entropy) calls =
      before ++ .stepped t :: (between ++ .stepped t' :: later))
    (hkills : t.kills q) (hlive : t.kernel.table.isLive q) (hsurvives : t.outcome.table.isLive q)
    (hkeeps : between.all (·.keepsMute q)) : t'.Mute q := by
  have ht : .stepped t ∈ courseAll (Kernel.new v settings entropy) calls := by
    rw [hcourse]
    exact List.mem_append_right _ List.mem_cons_self
  obtain ⟨l, hcustody⟩ := inCustody_of_stepped h ht
  obtain ⟨start, hstep, hmute⟩ := Turn.mute_of_kills hcustody (few_of_stepped ht) hkills hlive hsurvives
  obtain ⟨halong, -⟩ := (mute_upkeep hstep hmute).run (h := (Ledger.start v, False))
    ⟨Custody.start v settings entropy, False.elim⟩ h
  rw [hcourse, ← List.cons_append, ← List.append_assoc] at halong
  refine halong.at_split.2.2 ?_
  rw [List.foldl_append, List.foldl_cons]
  exact Moment.foldl_recordMute (.inl rfl) hkeeps

/-- A process that is killed ends, for want of a handler or of a fault, or goes on in its handler and has it no
longer. So if it survives being killed twice, it registered a handler for that itself in between, provided that nobody
else wrote to its backing file. -/
theorem second_kill_is_final :
    (∀ {σ : Type} [Storage σ] [VolumeBacked σ] (store : σ) (settings : Settings) (entropy : UInt64)
      (calls : List (HostCall σ)) (t : Turn σ) (args : CallArgs) (q : Pid),
      allSpare (Kernel.new store settings entropy) calls →
      .stepped t ∈ courseAll (Kernel.new store settings entropy) calls → t.call? = some (.kill, args) →
      Pid.ofNat? args.a.toNat = some q → q.val ≠ 0 → t.kernel.table.isLive q → t.KillFate q) ∧
    ∀ (v : Volume) (settings : Settings) (entropy : UInt64) (calls : List (HostCall Volume))
      (before between later : List (Moment Volume)) (t t' : Turn Volume) (q : Pid),
      allSpare (Kernel.new v settings entropy) calls →
      courseAll (Kernel.new v settings entropy) calls =
        before ++ .stepped t :: (between ++ .stepped t' :: later) →
      t.kills q → t.kernel.table.isLive q → t.outcome.table.isLive q →
      between.all (fun m => m.sparesFile q && m.after.table.isLive q) →
      t'.kills q → t'.outcome.table.isLive q →
      ∃ u, .stepped u ∈ between ∧ u.self.pid = q ∧ u.registers .suicide := by
  constructor
  · intro σ _ _ store settings entropy calls t args q h ht hcall htarget hfirst hlive
    obtain ⟨l, hcustody⟩ := inCustody_of_stepped h ht
    exact Turn.kill_fate hcustody hcall htarget hfirst hlive
  · intro v settings entropy calls before between later t t' q h hcourse hkills hlive hsurvives hbetween hkills'
      hsurvives'
    -- Without a handler of its own making it would still be mute when it is killed again, and would end.
    by_contra hsilent
    have hkeeps : between.all (·.keepsMute q) := by
      refine List.all_eq_true.mpr fun m hm => ?_
      rw [Moment.keepsMute, List.all_eq_true.mp hbetween m hm, Bool.true_and, Bool.not_eq_true']
      refine Bool.eq_false_iff.mpr fun hregisters => hsilent ?_
      cases m with
      | stepped u =>
        simp only [Moment.turn?, Option.any_some, Bool.and_eq_true, decide_eq_true_eq] at hregisters
        exact ⟨u, hm, hregisters⟩
      | obeyed | counted | resumed | ended => cases hregisters
    have ht' : .stepped t' ∈ courseAll (Kernel.new v settings entropy) calls := by
      rw [hcourse]
      exact List.mem_append_right _ (List.mem_cons_of_mem _ (List.mem_append_right _ List.mem_cons_self))
    obtain ⟨l, hcustody⟩ := inCustody_of_stepped h ht'
    have hmute := mute_while_kept h hcourse hkills hlive hsurvives hkeeps
    exact hmute.killed hcustody hkills' hsurvives'

/-! ## A process that is killed twice -/

/-- The moments before the first step of a kind, the turn in which that is taken, and the moments behind it. -/
def splitStep? (kind : Turn Volume → Bool) :
    List (Moment Volume) → Option (List (Moment Volume) × Turn Volume × List (Moment Volume))
  | [] => none
  | m :: ms =>
    match m.turn?.filter kind with
    | some t => some ([], t, ms)
    | none => (splitStep? kind ms).map fun (before, t, later) => (m :: before, t, later)

theorem of_splitStep? {kind : Turn Volume → Bool} {ms : List (Moment Volume)}
    (h : splitStep? kind ms = some (before, t, later)) : ms = before ++ .stepped t :: later ∧ kind t := by
  induction ms generalizing before with
  | nil => cases h
  | cons m ms ih =>
    rw [splitStep?] at h
    split at h
    · next u hu =>
      obtain ⟨hturn, hkind⟩ := Option.filter_eq_some_iff.mp hu
      cases m <;> cases hturn
      cases h
      exact ⟨rfl, hkind⟩
    · obtain ⟨⟨before', t', later'⟩, hsplit, he⟩ := Option.map_eq_some_iff.mp h
      cases he
      obtain ⟨rfl, hkind⟩ := ih hsplit
      exact ⟨rfl, hkind⟩

/-- A process is killed twice among some moments and survives that, and nobody else writes to its backing file in
between. -/
def survivesTwice (q : Pid) (ms : List (Moment Volume)) : Bool :=
  (splitStep? (·.kills q) ms).any fun (_, t, rest) => t.kernel.table.isLive q && t.outcome.table.isLive q &&
    (splitStep? (·.kills q) rest).any fun (between, t', _) => t'.outcome.table.isLive q &&
      between.all fun m => m.sparesFile q && m.after.table.isLive q

/-- A program that registers a handler for being killed, which begins with registering itself again, and kills
the second process. -/
def defyingProgram : Bytes :=
  #[0xDE, 0x80, 0x00, 0xD1, 0x03, 0xD2, 0x03, 0xD8, 0x04, 0x00, 0xC1, 0xD0, 0x0A, 0xD1, 0x01, 0xC1]

/-- A kernel with room for the program in its storage. -/
def defiedKernel : Kernel Volume :=
  Kernel.new ((Volume.empty.mkdir (Path.ofText "/tmp")).2.addFile (Path.ofText "/a") defyingProgram).2 { budget := 15 }

/-- The second process kills itself twice in its turn and survives it, having registered its handler in between. -/
theorem second_kill_is_final_of_defying :
    let calls := [.spawn "/a", .spawn "/a", .kill 0 0, .tick]
    ∃ t t' u, .stepped t ∈ courseAll defiedKernel calls ∧ t.kills 1 ∧ t.KillFate 1 ∧
      .stepped t' ∈ courseAll defiedKernel calls ∧ t'.kills 1 ∧ t'.outcome.table.isLive 1 ∧
      .stepped u ∈ courseAll defiedKernel calls ∧ u.self.pid = 1 ∧ u.registers .suicide := by
  intro calls
  have hspares : allSpare defiedKernel calls := by decide +kernel
  have htwice : survivesTwice 1 (courseAll defiedKernel calls) := by decide +kernel
  simp only [survivesTwice, Option.any_eq_true, Bool.and_eq_true, Prod.exists] at htwice
  obtain ⟨before, t, rest, hfirst, ⟨hlive, hsurvives⟩, between, t', later, hsecond, hsurvives', hbetween⟩ := htwice
  obtain ⟨hcourse, hkills⟩ := of_splitStep? hfirst
  obtain ⟨rfl, hkills'⟩ := of_splitStep? hsecond
  have ht : .stepped t ∈ courseAll defiedKernel calls := by simp [hcourse]
  have ht' : .stepped t' ∈ courseAll defiedKernel calls := by simp [hcourse]
  obtain ⟨args, hcall, htarget, hne⟩ := Turn.kills_iff.mp hkills
  have hfate := second_kill_is_final.1 _ _ _ _ t args 1 hspares ht hcall htarget hne hlive
  obtain ⟨u, hu, hpid, hregisters⟩ := second_kill_is_final.2 _ _ _ _ before between later t t' 1 hspares hcourse
    hkills hlive hsurvives (by simpa using hbetween) hkills' hsurvives'
  have hu' : .stepped u ∈ courseAll defiedKernel calls := by simp [hcourse, hu]
  exact ⟨t, t', u, ht, hkills, hfate, ht', hkills', hsurvives', hu', hpid, hregisters⟩

end HostCall

end CoopKernel
