import CoopKernel.Proofs.Backing.Step
import CoopKernel.Proofs.Overreach

/-!
# Backing files all through a run

The host can spoil a backing file as well: by closing the handle of it, by changing what is in it, or by
having backing files kept elsewhere. In a run in which neither it nor a process does so, every living
process has a proper backing file where it belongs whenever the host gets to see the kernel, whatever is
spawned, forked, exchanged, signalled, woken or killed in between, and however data regions grow or fail to.
-/

namespace CoopKernel

namespace HostCall

/-- The host does not close or change the backing file of a living process, nor has them kept elsewhere. -/
def sparesBackings (k : Kernel Volume) : HostCall Volume → Bool
  | close handle => k.table.live.all fun pid => (k.table.process? pid).all (·.backing ≠ handle)
  | edit change => k.table.live.all fun pid =>
      (change.apply k.store).content? (k.backingPath pid) = k.store.content? (k.backingPath pid)
  | configure settings => settings.tmpDir = k.settings.tmpDir
  | _ => true

end HostCall

namespace Moment

/-- Nobody tampers with the backing file of a living process. -/
def sparesBackings : Moment Volume → Bool
  | obeyed k call => call.sparesBackings k
  | stepped t => t.sparesBackings
  | _ => true

/-- What is recorded is whether backing files were left alone. -/
def recordSparing (h : Prop) (m : Moment Volume) : Prop :=
  h ∧ m.sparesBackings

theorem foldl_recordSparing (ms : List (Moment Volume)) (h : Prop) :
    ms.foldl recordSparing h ↔ h ∧ ms.all sparesBackings := by
  induction ms generalizing h with
  | nil => simp
  | cons m ms ih =>
    rw [List.foldl_cons, ih, recordSparing, and_assoc, List.all_cons, Bool.and_eq_true]

end Moment

/-! ## Between turns -/

namespace Sound

variable {k : Kernel Volume}

theorem countTick (h : Sound .strict k) : Sound .strict k.countTick := by
  have hticks : Sound .strict { k with ticks := k.ticks + 1 } := h.congr rfl rfl rfl rfl rfl
  unfold Kernel.countTick
  dsimp only
  split
  · exact hticks.resetCounts
  · exact hticks

/-- A process that is alive gets its turn. -/
theorem openTurn (h : Sound .strict k) {pid : Pid} {p : Process}
    (hp : k.table.process? pid = some p) (why : Resumption) :
    ∃ t, k.openTurn pid why = .ok t ∧ t.OnDuty := by
  obtain ⟨self, hload, rfl, htended⟩ := h.load hp rfl
  have hresumed : (k.resume self why).Tended .strict ∧ (k.resume self why).self.pid = self.pid := by
    cases why with
    | ready => exact ⟨htended, rfl⟩
    | result value =>
      have hnoted := htended.note (e := .woken self.pid value) fun _ => nofun
      exact ⟨hnoted.within rfl rfl htended.neat, rfl⟩
  refine ⟨_, by rw [Kernel.openTurn, hload], ?_, ?_⟩
  · have hactive := hresumed.1.setActive
    rw [hresumed.2] at hactive
    exact hactive
  · intro q hq
    rcases Table.process?_modify_cases hq with ⟨_, r, _, rfl⟩ | ⟨hne, _⟩
    · rfl
    · exact absurd hresumed.2 hne

/-- What a turn leaves behind. -/
theorem endTurn {t : Turn Volume} {how : Option TurnEnd}
    (h : match how with
      | none => t.OnDuty
      | some e => Turn.Leaves e t) : Sound .strict (Kernel.endTurn t how) := by
  have hsaved (ht : t.Tended .strict) : Sound .strict (Kernel.endTurn t none) := by
    obtain ⟨hsave, hsound⟩ := ht.save rfl
    simp only [Kernel.endTurn, hsave]
    exact hsound
  cases how with
  | none => exact hsaved h.toTended
  | some e =>
    cases e with
    | yielded | blocked => exact hsaved h
    | exited => exact h
    | faulted f => exact h.2.fault Demands.strict_total h.1
    | overflowed => exact h.elim

/-- A call of the host that leaves backing files alone. -/
theorem obeyed (h : Sound .strict k) {call : HostCall Volume} (hdirect : call.isDirect)
    (hspares : call.sparesBackings k) : Sound .strict (call.run k) := by
  cases call with
  | tick | runUntilIdle => cases hdirect
  | spawn program => exact h.spawn Demands.strict_total (fun _ => rfl) program
  | kill pid status => exact (h.set_none pid).kill Demands.strict_total status
  | sendSignal pid signal => exact h.sendSignal Demands.strict_total rfl signal
  | setClock clock => exact h.congr rfl rfl rfl rfl rfl
  | configure settings =>
    exact h.congr rfl rfl (of_decide_eq_true hspares) rfl rfl
  | openPath path => exact h.opened path fun hp => h.backing_open Demands.strict_total hp
  | inspect pid =>
    have hsame : (k.load pid).2 = k := by
      cases hp : k.table.process? pid with
      | none =>
        unfold Kernel.load
        rw [hp]
      | some p =>
        obtain ⟨self, hload, -⟩ := h.load hp rfl
        rw [hload]
    have hsound : Sound .strict (k.load pid).2 := by
      rw [hsame]
      exact h
    exact hsound
  | close handle =>
    refine h.closed fun {pid p P} hp _ he => ?_
    simp only [HostCall.sparesBackings, List.all_eq_true, Table.mem_live] at hspares
    have hne := hspares pid ⟨p, hp⟩
    rw [hp] at hne
    simp only [Option.all_some, decide_eq_true_eq] at hne
    exact hne he.symm
  | edit change =>
    have hpaths := (change.steady k.store).paths
    refine h.stored (fun _ hpath => (hpaths _).symm.trans hpath) fun {pid p P} hp _ => ⟨hpaths _, ?_⟩
    simp only [HostCall.sparesBackings, List.all_eq_true, Table.mem_live, decide_eq_true_eq] at hspares
    exact hspares pid ⟨p, hp⟩

end Sound

/-! ## Runs -/

theorem HostCall.tmpDir_run {k : Kernel Volume} {call : HostCall Volume} (hdirect : call.isDirect)
    (hspares : call.sparesBackings k) : (call.run k).settings.tmpDir = k.settings.tmpDir := by
  cases call with
  | tick | runUntilIdle => cases hdirect
  | spawn program => exact congrArg Settings.tmpDir (k.ruled_spawn program).settings
  | kill pid status => exact congrArg Settings.tmpDir (k.ruled_kill pid status).settings
  | sendSignal pid signal => exact congrArg Settings.tmpDir (k.ruled_sendSignal pid signal).settings
  | inspect pid => exact congrArg Settings.tmpDir (k.load_quiet pid).ruled.settings
  | configure settings => exact of_decide_eq_true hspares
  | setClock | openPath | close | edit => rfl

/-- As long as backing files are left alone, they are kept in the directory and are proper. -/
def Kernel.BacksUp (dir : String) (h : Prop) (k : Kernel Volume) : Prop :=
  h → k.settings.tmpDir = dir ∧ Sound .strict k

/-- During a turn, the process has its own file in order. -/
def Turn.BacksUp (dir : String) (how : Option TurnEnd) (h : Prop) (t : Turn Volume) : Prop :=
  h → t.kernel.settings.tmpDir = dir ∧
    match how with
    | none => t.OnDuty
    | some e => t.Leaves e

open Moment (recordSparing) in
theorem backing_upkeep (dir : String) :
    TickUpkeep recordSparing (Kernel.BacksUp dir) (Turn.BacksUp dir) where
  counted := by
    rintro h k hI ⟨hok, -⟩
    obtain ⟨hdir, hsound⟩ := hI hok
    refine ⟨?_, hsound.countTick⟩
    unfold Kernel.countTick
    dsimp only
    split <;> exact hdir
  resumed := by
    rintro h k pid why ⟨hI, p, hp, -⟩
    have hruled := k.ruled_openTurn pid why
    cases ho : k.openTurn pid why with
    | error k' =>
      rintro ⟨hok, -⟩
      obtain ⟨t, ht, -⟩ := (hI hok).2.openTurn hp why
      rw [ho] at ht
      cases ht
    | ok t =>
      rw [ho] at hruled
      rintro ⟨hok, -⟩
      obtain ⟨hdir, hsound⟩ := hI hok
      obtain ⟨t', ht, hduty⟩ := hsound.openTurn hp why
      rw [ho] at ht
      cases ht
      exact ⟨(congrArg Settings.tmpDir hruled.settings).trans hdir, hduty⟩
  stepped := by
    intro h t hJ
    have hsettled := Turn.step_settled t
    cases hs : Turn.step t with
    | ok _ t' =>
      rw [after_ok hs] at hsettled
      rintro ⟨hok, hspares⟩
      obtain ⟨hdir, hduty⟩ := hJ hok
      have hstep := Turn.OnDuty.step hduty hspares
      rw [hs] at hstep
      exact ⟨(congrArg Settings.tmpDir hsettled.kernel.settings).trans hdir, hstep⟩
    | error e t' =>
      rw [after_error hs] at hsettled
      rintro ⟨hok, hspares⟩
      obtain ⟨hdir, hduty⟩ := hJ hok
      have hstep := Turn.OnDuty.step hduty hspares
      rw [hs] at hstep
      exact ⟨(congrArg Settings.tmpDir hsettled.kernel.settings).trans hdir, hstep⟩
  ended := by
    rintro h t how hJ ⟨hok, -⟩
    obtain ⟨hdir, hend⟩ := hJ hok
    have hrange : how ≠ some .overflowed := by
      rintro rfl
      exact hend
    exact ⟨(congrArg Settings.tmpDir (Kernel.ruled_endTurn t hrange).settings).trans hdir,
      Sound.endTurn hend⟩

theorem sound_new (v : Volume) (settings : Settings) (entropy : UInt64) :
    Sound .strict (Kernel.new v settings entropy) := by
  have hnobody := Kernel.process?_new v settings entropy
  refine ⟨fun hp => ?_, fun hp => ?_, fun hp => ?_, fun _ => ?_, rfl⟩
  · rw [hnobody] at hp
    cases hp
  · rw [hnobody] at hp
    cases hp
  · rw [hnobody] at hp
    cases hp
  · exact Array.not_mem_empty _

/-- Between turns, backing files are proper if they were left alone. -/
theorem HostCall.sound_of_comesBy {v : Volume} {settings : Settings} {entropy : UInt64}
    {calls : List (HostCall Volume)} {k : Kernel Volume}
    (hspares : (courseAll (Kernel.new v settings entropy) calls).all Moment.sparesBackings)
    (hk : ComesBy (Kernel.new v settings entropy) calls k) : Sound .strict k := by
  obtain ⟨halong, hlast⟩ := (backing_upkeep settings.tmpDir).holds_of (h := True)
    (k := Kernel.new v settings entropy)
    (fun {h k call} hI hdirect hok => by
      obtain ⟨hdir, hsound⟩ := hI hok.1
      exact ⟨(tmpDir_run hdirect hok.2).trans hdir, hsound.obeyed hdirect hok.2⟩)
    (fun _ => ⟨rfl, sound_new v settings entropy⟩) calls
  rcases hk with ⟨pid, why, hm⟩ | rfl
  · obtain ⟨before, later, hsplit⟩ := List.append_of_mem hm
    rw [hsplit] at halong hspares
    have hbefore : before.all Moment.sparesBackings := by
      rw [List.all_append, Bool.and_eq_true] at hspares
      exact hspares.1
    have hI := halong.at_split k pid why rfl
    exact (hI ((Moment.foldl_recordSparing _ _).mpr ⟨trivial, hbefore⟩)).2
  · exact (hlast ((Moment.foldl_recordSparing _ _).mpr ⟨trivial, hspares⟩)).2

/-- A kernel goes on, and nobody dies of a block that cannot be read, as long as nobody tampers with the
backing files of living processes and these are kept in one directory. Each living process then has its file
there, with a block that can be read and behind it a data region as long as the block says. -/
theorem HostCall.backing_files_stay_proper (v : Volume) (settings : Settings) (entropy : UInt64)
    (calls : List (HostCall Volume))
    (hspares : (courseAll (Kernel.new v settings entropy) calls).all Moment.sparesBackings) :
    let k := runAll (Kernel.new v settings entropy) calls
    k.halted = false ∧ (∀ pid, .faulted pid .corruptState ∉ k.log) ∧
      ∀ pid p, k.table.process? pid = some p →
        let path := Path.resolve settings.tmpDir ("proc" ++ pid.text)
        k.store.pathOf? p.backing = some path ∧
          ∃ content s, k.store.content? path = some content ∧
            content.size = Snapshot.blockSize + s.dataLength.toNat ∧
            Snapshot.ofBlock (content.slice 0 Snapshot.blockSize) = .ok s ∧
            s.env.argCount.toNat ≤ maxArguments ∧
            k.load pid = (.ok
              { pid, program := p.program, backing := p.backing, backingPath := path, state := s }, k) := by
  have hrun := (backing_upkeep settings.tmpDir).run_of (h := True) (k := Kernel.new v settings entropy)
    (fun {h k call} hI hdirect hok => by
      obtain ⟨hdir, hsound⟩ := hI hok.1
      exact ⟨(tmpDir_run hdirect hok.2).trans hdir, hsound.obeyed hdirect hok.2⟩)
    (fun _ => ⟨rfl, sound_new v settings entropy⟩) calls
  obtain ⟨hdir, hsound⟩ := hrun ((Moment.foldl_recordSparing _ _).mpr ⟨trivial, hspares⟩)
  refine ⟨hsound.running, hsound.log, fun pid p hp => ?_⟩
  obtain ⟨hpath, content, hc, s, hs, hsize, -⟩ := hsound.kept hp rfl
  have hbehind : (runAll (Kernel.new v settings entropy) calls).store.behind? p.backing =
      some content := by
    rw [Volume.behind?, hpath]
    exact hc
  have hload := Kernel.load_eq hp hbehind (by omega)
  rw [hs] at hload
  rw [Kernel.backingPath, hdir] at hpath hc hload
  exact ⟨hpath, content, s, hc, hsize, hs, Snapshot.argCount_of_ofBlock hs, hload⟩

/-- A program that has its data region grow and makes a file `/f`. -/
def growingProgram : Bytes :=
  #[0xDA, 0x80, 0x03, 0x15, 0xD9, 0x00, 0x0B, 0xD8, 0x01, 0x06, 0xC1, 0x2F, 0x66, 0x00]

/-- A process leaves its backing file alone, which is as long as its block says when the data region has
grown. -/
theorem HostCall.backing_file_stays_proper_after_growing :
    let v := ((Volume.empty.mkdir (Path.ofText "/tmp")).2.addFile (Path.ofText "/a") growingProgram).2
    let calls := [.spawn "/a", .tick]
    let k := runAll (Kernel.new v { budget := 5 }) calls
    (courseAll (Kernel.new v { budget := 5 }) calls).all Moment.sparesBackings ∧
      ∃ content s, k.store.content? (Path.resolve "/tmp" ("proc" ++ (0 : Pid).text)) = some content ∧
        content.size = Snapshot.blockSize + s.dataLength.toNat ∧ s.dataLength = 0x14 ∧
        (k.load 0).1.toOption.map Loaded.state = some s := by
  intro v calls k
  have hchecked : (courseAll (Kernel.new v { budget := 5 }) calls).all Moment.sparesBackings = true ∧
      (k.table.process? 0).isSome = true ∧
      (k.store.content? (Path.resolve "/tmp" ("proc" ++ (0 : Pid).text))).map Array.size =
        some (Snapshot.blockSize + 0x14) := by decide +kernel
  obtain ⟨hspares, hlive, hlength⟩ := hchecked
  have hproper := backing_files_stay_proper v { budget := 5 } 0 calls hspares
  have hk : runAll (Kernel.new v { budget := 5 }) calls = k := rfl
  clear_value k
  rw [hk] at hproper
  obtain ⟨-, -, hkept⟩ := hproper
  obtain ⟨p, hp⟩ := Option.isSome_iff_exists.mp hlive
  obtain ⟨-, content, s, hc, hsize, -, -, hload⟩ := hkept 0 p hp
  rw [hc] at hlength
  have hsame : content.size = Snapshot.blockSize + 0x14 := Option.some.inj hlength
  have htoNat : s.dataLength.toNat = 0x14 := by omega
  refine ⟨hspares, content, s, hc, hsize, UInt16.toNat_inj.mp htoNat, ?_⟩
  rw [hload]
  rfl

end CoopKernel
