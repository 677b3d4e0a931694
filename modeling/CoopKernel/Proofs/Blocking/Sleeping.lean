import CoopKernel.Proofs.Outliving.Step
import CoopKernel.Proofs.Signals
import CoopKernel.Proofs.Splitting.Alike

/-!
# Processes that sleep

A process that waits to read sleeps: it has its place in the table and does nothing but wait there, its snapshot is
in the block at the start of its backing file, and its data region is behind that. It goes on sleeping whatever
others do and whoever of them ends, and so all through a run, as long as there is nothing to read and it is not
disturbed. It is disturbed if it is killed, if a signal is sent to it for which it has a handler, and if somebody else
changes its backing file. A signal for which it has no handler does not wake it, but stores its snapshot anew.
-/

namespace CoopKernel

open Kernel (Lasts)

variable {k k' : Kernel Volume} {l : Ledger} {sleeper : Loaded} {handle : Handle} {content old : Bytes}

namespace Kernel

/-- A process that was loaded is in its place and waits to read, and its backing file has a content. -/
structure Sleeps (sleeper : Loaded) (handle : Handle) (content : Bytes) (k : Kernel Volume) : Prop where
  entry : ∃ count, k.table.process? sleeper.pid =
    some { status := .waitingToRead handle, count, program := sleeper.program, backing := sleeper.backing }
  file : k.store.behind? sleeper.backing = some content

/-- A process waits to read, its file is as it was but for the block, and the block is that of its snapshot, or of
what comes back of that. -/
def Rests (sleeper : Loaded) (handle : Handle) (old : Bytes) (k : Kernel Volume) : Prop :=
  ∃ s : Snapshot, s.stored = sleeper.state.stored ∧ k.Sleeps sleeper handle (old.overwrite 0 s.toBlock.toList)

/-- Sleep lasts. -/
theorem Sleeps.lasts (sleeper : Loaded) (handle : Handle) (content : Bytes) :
    Lasts sleeper.pid (Sleeps sleeper handle content) where
  live hs := by
    obtain ⟨count, hr⟩ := hs.entry
    exact Table.isLive_iff.mpr ⟨_, hr⟩
  same {k k' r} hs hr hr' hfile := by
    obtain ⟨count, hentry⟩ := hs.entry
    obtain rfl := Option.some.inj (hentry.symm.trans hr)
    exact ⟨hr', hfile.trans hs.file⟩
  kill {l k pid} c hs hne status := by
    obtain ⟨count, hr⟩ := hs.entry
    -- Nobody who waits for something to read gets anything out of a death.
    cases (kill_aftermath c pid status).share hne hr with
    | spared hr' hb => exact ⟨⟨count, hr'⟩, hb.trans hs.file⟩
    | roused target deadline result content' snapshot' hw => cases hw
    | lost target deadline result hw => cases hw

/-- Who sleeps is not given a turn while the handle is open and nothing can be read from it. -/
theorem Sleeps.resumption?_eq_none (hs : k.Sleeps sleeper handle content) (hopen : (k.store.pathOf? handle).isSome)
    (hwaits : k.store.canRead handle = false) {p : Process} (hp : k.table.process? sleeper.pid = some p) :
    k.resumption? p.status = none := by
  obtain ⟨count, hentry⟩ := hs.entry
  obtain rfl := Option.some.inj (hentry.symm.trans hp)
  have hready : (Storage.canRead k.store handle || (Storage.pathOf? k.store handle).isNone) = false := by
    rw [show Storage.canRead k.store handle = false from hwaits,
      show (Storage.pathOf? k.store handle).isNone = false from Option.isNone_eq_false_iff.mpr hopen]
    rfl
  simp only [resumption?, hready, Bool.false_eq_true, if_false]

namespace Rests

variable {signal : Signal}

theorem lasts (sleeper : Loaded) (handle : Handle) (old : Bytes) : Lasts sleeper.pid (Rests sleeper handle old) where
  live := by
    rintro k ⟨s, -, hs⟩
    exact (Sleeps.lasts sleeper handle _).live hs
  same := by
    rintro k k' r ⟨s, he, hs⟩ hr hr' hfile
    exact ⟨s, he, (Sleeps.lasts sleeper handle _).same hs hr hr' hfile⟩
  kill := by
    rintro l k pid c ⟨s, he, hs⟩ hne status
    exact ⟨s, he, (Sleeps.lasts sleeper handle _).kill c hs hne status⟩

variable (hroom : Snapshot.blockSize ≤ old.size) (hfew : sleeper.state.env.argCount.toNat ≤ maxArguments)

include hroom hfew

/-- It is loaded with what comes back of its snapshot. -/
theorem load (h : k.Rests sleeper handle old) : k.load sleeper.pid = (.ok { sleeper with
    backingPath := k.backingPath sleeper.pid, state := sleeper.state.stored, window := Window.closed }, k) := by
  obtain ⟨s, hstored, hs⟩ := h
  obtain ⟨count, hr⟩ := hs.entry
  have hcount : s.env.argCount = sleeper.state.env.argCount := by
    rw [← Snapshot.stored_argCount s, hstored, Snapshot.stored_argCount]
  have hload := load_eq hr hs.file (by rw [Bytes.size_overwrite]; exact hroom)
  rw [slice_overwrite_toBlock hroom, Snapshot.ofBlock_toBlock (by rw [hcount]; exact hfew), hstored] at hload
  exact hload

/-- A signal is nothing to it where it has no handler. -/
theorem dropped (h : k.Rests sleeper handle old) (hh : sleeper.state.handler signal = 0) :
    (k.sendSignal sleeper.pid signal).2.Rests sleeper handle old := by
  have hload := h.load hroom hfew
  obtain ⟨s, -, hs⟩ := h
  obtain ⟨count, hr⟩ := hs.entry
  obtain ⟨other, hother⟩ : ∃ other : Loaded, other = { sleeper with
      backingPath := k.backingPath sleeper.pid, state := sleeper.state.stored, window := Window.closed } :=
    ⟨_, rfl⟩
  rw [← hother] at hload
  have hbacking : other.backing = sleeper.backing := by rw [hother]
  have hthis : other.state = sleeper.state.stored := by rw [hother]
  have hc : k.store.behind? other.backing = some (old.overwrite 0 s.toBlock.toList) := hbacking ▸ hs.file
  have hsave : k.save other = (true, k.saved other) := save_eq hc (by rw [Bytes.size_overwrite]; exact hroom)
  have hdeliver : Turn.deliver signal ⟨k, other⟩ = .ok false ⟨k, other⟩ :=
    Turn.deliver_of_none (by rw [hthis]; exact hh)
  have hsent : (k.sendSignal sleeper.pid signal).2 = k.saved other := by
    unfold sendSignal withLoaded
    rw [if_pos (Table.isLive_iff.mpr ⟨_, hr⟩), hload]
    simp only [hdeliver, hsave]
  have hbehind := saved_behind hc
  have halike : old.AlikeBehind (old.overwrite 0 s.toBlock.toList) :=
    (Bytes.AlikeBehind.refl hroom).overwrite_block (Snapshot.size_toBlock s)
  rw [halike.eq_of_same_block (Snapshot.size_toBlock _), hbacking, hthis] at hbehind
  rw [hsent]
  exact ⟨sleeper.state.stored, Snapshot.stored_stored _, ⟨count, hr⟩, hbehind⟩

end Rests

/-- The handle is open, and nothing can be read from it. -/
def holdsBack (k : Kernel Volume) (handle : Handle) : Bool :=
  (k.store.pathOf? handle).isSome && !k.store.canRead handle

end Kernel

/-! ## What may happen in the meantime -/

namespace Turn

/-- The next step sends the process a signal that it does not ignore. -/
def disturbs (pid : Pid) (ignored : Signal → Bool) (t : Turn Volume) : Bool :=
  t.call?.any fun (call, args) => call = .sendSignal && Pid.ofNat? args.a.toNat = some pid &&
    (Signal.ofNat? args.b.toNat).any fun signal => !ignored signal

end Turn

namespace Moment

/-- The process is not killed, not sent a signal that it does not ignore, and not visited when it could read, and
nobody else writes to its backing file or resizes it. -/
def leavesAlone (sleeper : Loaded) (handle : Handle) (ignored : Signal → Bool) : Moment Volume → Bool
  | obeyed _ (.kill pid _) => sleeper.pid ≠ pid
  | obeyed _ (.sendSignal pid signal) => sleeper.pid ≠ pid || ignored signal
  | obeyed k (.edit change) => (change.apply k.store).behind? sleeper.backing = k.store.behind? sleeper.backing
  | resumed k pid _ => sleeper.pid ≠ pid || k.holdsBack handle
  | stepped t => !t.kills sleeper.pid && !t.reaches sleeper.pid && !t.disturbs sleeper.pid ignored
  | _ => true

/-- What is recorded is whether the process was left alone since the turn ended in which it fell asleep. -/
def recordSleep (start : Turn Volume) (sleeper : Loaded) (handle : Handle) (ignored : Signal → Bool)
    (h : Ledger × Prop) (m : Moment Volume) : Ledger × Prop :=
  (h.1.record m, m = .ended start (some .blocked) ∨ h.2 ∧ m.leavesAlone sleeper handle ignored)

theorem foldl_recordSleep {start : Turn Volume} {ignored : Signal → Bool} {ms : List (Moment Volume)}
    {h : Ledger × Prop} (hh : h.2) (hms : ms.all (·.leavesAlone sleeper handle ignored)) :
    (ms.foldl (recordSleep start sleeper handle ignored) h).2 := by
  induction ms generalizing h with
  | nil => exact hh
  | cons m ms ih =>
    rw [List.all_cons, Bool.and_eq_true] at hms
    exact ih (.inr ⟨hh, hms.1⟩) hms.2

end Moment

/-! ## Sleep through a run -/

/-- What is known of a process that waits to read lasts and is not changed by signals that are ignored. -/
structure Kernel.Endures (sleeper : Loaded) (handle : Handle) (ignored : Signal → Bool) (P : Kernel Volume → Prop) :
    Prop extends Lasts sleeper.pid P where
  sleeps : ∀ {k}, P k → ∃ content, k.Sleeps sleeper handle content
  signal : ∀ {k s}, P k → ignored s → P (k.sendSignal sleeper.pid s).2

/-- A process sleeps where no signal is ignored. -/
theorem Kernel.Sleeps.endures (sleeper : Loaded) (handle : Handle) (content : Bytes) :
    Endures sleeper handle (fun _ => false) (Sleeps sleeper handle content) where
  toLasts := lasts sleeper handle content
  sleeps hs := ⟨_, hs⟩
  signal _ hs := by cases hs

/-- It rests where signals are ignored for which it has no handler. -/
theorem Kernel.Rests.endures (hroom : Snapshot.blockSize ≤ old.size)
    (hfew : sleeper.state.env.argCount.toNat ≤ maxArguments) (handle : Handle) :
    Endures sleeper handle (fun s => sleeper.state.handler s = 0) (Rests sleeper handle old) where
  toLasts := lasts sleeper handle old
  sleeps := by
    rintro k ⟨s, -, hs⟩
    exact ⟨_, hs⟩
  signal h hs := h.dropped hroom hfew (of_decide_eq_true hs)

section Endures

variable {ignored : Signal → Bool} {P : Kernel Volume → Prop} (d : Kernel.Endures sleeper handle ignored P)

include d

/-- It is known still when the host did something. -/
theorem Kernel.Endures.obeyed (hP : P k) (c : Custody l k) {call : HostCall Volume} (hdirect : call.isDirect)
    (hspares : call.spares k) (halone : (Moment.obeyed k call).leavesAlone sleeper handle ignored) :
    P (call.run k) := by
  refine d.toLasts.obeyed c hP hdirect hspares ?_ ?_ ?_
  · rintro status rfl
    simp [Moment.leavesAlone] at halone
  · rintro signal rfl
    refine d.signal hP ?_
    simpa [Moment.leavesAlone] using halone
  · rintro change r rfl hr
    obtain ⟨content, hs⟩ := d.sleeps hP
    obtain ⟨count, hentry⟩ := hs.entry
    obtain rfl := Option.some.inj (hentry.symm.trans hr)
    exact of_decide_eq_true halone

/-- It is known still when another one took a step. -/
theorem Turn.Minds.step_endures {t : Turn Volume} (h : t.Minds P l sleeper.pid)
    (halone : (Moment.stepped t).leavesAlone sleeper handle ignored) :
    Yields (Turn.step t) (fun _ t' => P t'.kernel) (Turn.Spares P sleeper.pid) := by
  simp only [Moment.leavesAlone, Bool.and_eq_true, Bool.not_eq_true'] at halone
  obtain ⟨⟨hkill, hreaches⟩, hdisturbs⟩ := halone
  refine h.step d.toLasts hkill hreaches fun args s hcall htarget hs => d.signal (h.atCall d.toLasts hcall).knows ?_
  simpa [Turn.disturbs, hcall, htarget, hs] using hdisturbs

end Endures

/-- What is known between turns: the books balance, and the fact about the process if it was left alone. -/
def Kernel.LetsSleep (P : Kernel Volume → Prop) (h : Ledger × Prop) (k : Kernel Volume) : Prop :=
  Custody h.1 k ∧ (h.2 → P k)

/-- What is known in the turn of another process, or in one of its own before it fell asleep. -/
def Turn.LetsSleep (pid : Pid) (P : Kernel Volume → Prop) (how : Option TurnEnd) (h : Ledger × Prop)
    (t : Turn Volume) : Prop :=
  match how with
  | none => InCustody h.1 t ∧ t.self.backingPath = t.kernel.backingPath t.self.pid ∧ (h.2 → t.Minds P h.1 pid)
  | some e => Custody h.1 t.kernel ∧ (h.2 → t.Spares P pid e ∧ pid ≠ t.self.pid)

/-- What is known of a process that fell asleep is known all through a run, for as long as it is left alone. -/
theorem sleep_upkeep {start : Turn Volume} {ignored : Signal → Bool} {P : Kernel Volume → Prop}
    (d : Kernel.Endures sleeper handle ignored P) (hasleep : P (Kernel.endTurn start (some .blocked))) :
    Upkeep (Moment.recordSleep start sleeper handle ignored) (Kernel.LetsSleep P) (Turn.LetsSleep sleeper.pid P) where
  obeyed := by
    rintro h k call ⟨⟨c, hP⟩, hdirect, hspares⟩
    refine ⟨c.obeyed hdirect hspares, ?_⟩
    rintro (hm | ⟨hh, halone⟩)
    · cases hm
    · exact d.obeyed (hP hh) c hdirect hspares halone
  counted := by
    rintro h k ⟨c, hP⟩
    refine ⟨c.countTick, ?_⟩
    rintro (hm | ⟨hh, -⟩)
    · cases hm
    · exact d.toLasts.countTick (hP hh)
  resumed := by
    rintro h k pid why ⟨⟨c, hP⟩, p, hp, hwhy, -⟩
    have hopen := c.openTurn pid why
    have hother (hrecord : (Moment.recordSleep start sleeper handle ignored h (.resumed k pid why)).2) :
        P k ∧ sleeper.pid ≠ pid := by
      rcases hrecord with hm | ⟨hh, halone⟩
      · cases hm
      · refine ⟨hP hh, fun he => ?_⟩
        subst he
        obtain ⟨content, hs⟩ := d.sleeps (hP hh)
        -- It could not read, so that it would not have been given the turn.
        have hback : k.holdsBack handle := by simpa [Moment.leavesAlone] using halone
        rw [Kernel.holdsBack, Bool.and_eq_true, Bool.not_eq_true'] at hback
        rw [hs.resumption?_eq_none hback.1 hback.2 hp] at hwhy
        cases hwhy
    have hlasts hrecord := d.toLasts.openTurn c (hother hrecord).1 (hother hrecord).2 why
    cases ho : k.openTurn pid why with
    | error k' =>
      simp only [ho] at hopen hlasts
      exact ⟨hopen, hlasts⟩
    | ok t =>
      simp only [ho] at hopen hlasts
      exact ⟨hopen, Kernel.openTurn_growth ho, hlasts⟩
  stepped := by
    rintro h t ⟨hc, hgrowth, hminds⟩
    have hstep := hc.step
    have hplaced := Turn.step_growth t hgrowth
    have hself := (Turn.step_settled t).self
    have hknown (hrecord : (Moment.recordSleep start sleeper handle ignored h (.stepped t)).2) :
        sleeper.pid ≠ t.self.pid ∧
          Yields (Turn.step t) (fun _ t' => P t'.kernel) (Turn.Spares P sleeper.pid) := by
      rcases hrecord with hm | ⟨hh, halone⟩
      · cases hm
      · exact ⟨(hminds hh).other, (hminds hh).step_endures d halone⟩
    cases hs : Turn.step t with
    | ok u t' =>
      rw [hs] at hstep
      rw [after_ok hs] at hplaced hself
      refine ⟨hstep, hplaced, fun hrecord => ?_⟩
      obtain ⟨hne, hknows⟩ := hknown hrecord
      rw [hs] at hknows
      exact ⟨hstep, hplaced, by rw [hself]; exact hne, hknows⟩
    | error e t' =>
      rw [hs] at hstep
      rw [after_error hs] at hself
      refine ⟨hstep, fun hrecord => ?_⟩
      obtain ⟨hne, hknows⟩ := hknown hrecord
      rw [hs] at hknows
      exact ⟨hknows, by rw [hself]; exact hne⟩
  ended := by
    rintro h t how hJ
    have c : Custody h.1 t.kernel := by
      cases how with
      | none => exact hJ.1.custody
      | some e => exact hJ.1
    refine ⟨c.endTurn how, ?_⟩
    rintro (hm | ⟨hh, -⟩)
    · cases hm
      exact hasleep
    · cases how with
      | none =>
        have hminds := hJ.2.2 hh
        exact d.toLasts.endTurn c hminds.knows hminds.other fun _ => hminds.apart
      | some e =>
        obtain ⟨hspares, hne⟩ := hJ.2 hh
        exact d.toLasts.endTurn c hspares.1 hne hspares.2

end CoopKernel
