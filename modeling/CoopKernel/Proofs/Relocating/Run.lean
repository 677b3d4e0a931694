import CoopKernel.Proofs.Relocating.Step
import CoopKernel.Proofs.Rollback

/-!
# Backing files of a host that moves

A host can have backing files kept in another directory at any time. A process that is there already keeps
the file that is open for it, but the path at which its data region is extended and at which its file is
deleted is computed anew. As long as that comes to the file that it has whenever a process is worked on or
ends, regions grow in their own files, files go with their processes, and everything else stays as it is.
Where it does not, another file is resized and deleted instead.
-/

namespace CoopKernel

open Kernel (KeepsTo Confined ConfinedIn OnlyMakes)

namespace Turn

/-- Whom the next step kills or sends a signal to. -/
def aim? (t : Turn Volume) : Option Pid :=
  match t.call? with
  | some (.kill, args) | some (.sendSignal, args) => Pid.ofNat? args.a.toNat
  | _ => none

/-- The next step works on the process: it is its turn, or it is killed or sent a signal. -/
def worksOn (t : Turn Volume) (q : Pid) : Prop :=
  q = t.self.pid ∨ t.aim? = some q

/-- The next step is not told to resize or to delete the file at a path. -/
def leavesFiles (t : Turn Volume) : Bool :=
  t.call?.all fun (call, _) => call ≠ .resizeFile && call ≠ .delete

variable {l : Ledger} {t : Turn Volume}

/-- What a step can do to the shape of the volume, by what it calls for. -/
theorem step_cases (h : InCustody l t) (hplaced : t.Placed) (hfiles : t.leavesFiles) :
    (t.aim? = none ∧ Sized t (after step t)) ∨
      ((∃ args, t.call? = some (.exec, args)) ∧ Sited t (after step t)) ∨
      Ranging t.aim? t (after step t) ∨ ∃ args, t.call? = some (.fork, args) := by
  cases hc : t.call? with
  | none =>
    have hstep := (indifferent_sized.step hc).mono (fun _ _ => id) fun _ _ hr => hr.2
    exact .inl ⟨by simp only [aim?, hc], hstep.after⟩
  | some callArgs =>
    obtain ⟨call, args⟩ := callArgs
    have hplaced' := (indifferent_rooted.atCall hc).toSited.placed hplaced
    have hin : InCustody l t.atCall := h.plain (domestic_plain.atCall addCount_plain called_plain hc)
    have hranging {target? : Option Pid} (htarget : t.aim? = target?)
        (ha : Ranging target? t.atCall (after (answer call args : InTurn Volume Reply) t.atCall)) :
        Ranging t.aim? t (after step t) := htarget ▸ ha.step h hplaced hc
    have hsized (ha : Works Sized (fun _ => True) (answer call args : InTurn Volume Reply)) :
        Sized t (after step t) :=
      ((indifferent_sized.stepCall hc ha).mono (fun _ _ => id) fun _ _ hr => hr.2).after
    cases hplace : call.isInPlace with
    | true =>
      refine .inl ⟨?_, hsized (answer_sized hplace args)⟩
      simp only [aim?, hc]
      cases call <;> first | rfl | cases hplace
    | false =>
      cases call
      case write =>
        have hwrite := lift_works (writeCall_sized ⟨args.a⟩ args.b args.c args.d)
        exact .inl ⟨by simp only [aim?, hc], hsized (hwrite.mono (fun _ _ => id) fun _ _ => trivial)⟩
      case exec =>
        have hstep := (indifferent_sited.stepCall hc (execCall_sited args)).mono (fun _ _ => id)
          fun _ _ hr => hr.2
        exact .inr (.inl ⟨⟨args, rfl⟩, hstep.after⟩)
      case exit => exact .inr (.inr (.inl (hranging (by simp only [aim?, hc]) (exit_ranging hin _))))
      case kill =>
        exact .inr (.inr (.inl (hranging (by simp only [aim?, hc]) (killCall_ranging hin hplaced' _))))
      case sendSignal =>
        exact .inr (.inr (.inl (hranging (by simp only [aim?, hc]) (sendSignal_ranging hin hplaced' _ _))))
      case fork => exact .inr (.inr (.inr ⟨args, rfl⟩))
      all_goals first | (cases hplace; done) | simp [leavesFiles, hc] at hfiles

/-- A step that starts a process, or fails to. -/
theorem step_fork {args : CallArgs} (hcall : t.call? = some (.fork, args)) :
    OnlyMakes t.atCall.kernel.table.firstFree? t.kernel (after step t).kernel ∧
      (after step t).self.state.dataLength = t.self.state.dataLength := by
  have hrooted : Rooted t t.atCall := indifferent_rooted.atCall hcall
  have hstill := atCall_still t
  have hmakes := t.atCall.kernel.fork_onlyMakes t.atCall.self
  have hdone : OnlyMakes t.atCall.kernel.table.firstFree? t.atCall.kernel (after step t).kernel ∧
      (after step t).self.state.dataLength = t.atCall.self.state.dataLength := by
    have hanswer : (answer .fork args : InTurn Volume Reply) t.atCall = .error .yielded _ :=
      fork_eq t.atCall
    rw [after, (step_call_cases hcall).2.2, ← after, after_bind_error hanswer]
    rcases hf : t.atCall.kernel.fork t.atCall.self with ⟨_ | child, k⟩
    · rw [hf] at hmakes
      exact ⟨⟨hmakes.live, hmakes.elsewhere⟩, rfl⟩
    · rw [hf] at hmakes
      exact ⟨hmakes, rfl⟩
  refine ⟨⟨fun q hq => hdone.1.live q (hstill.seats.isLive q hq), fun p hp => ?_⟩, hdone.2.trans hstill.length⟩
  have hdir : t.atCall.kernel.settings.tmpDir = t.kernel.settings.tmpDir := by rw [hrooted.kernel]
  have hpath := Kernel.backingPath_congr hdir
  exact (hdone.1.elsewhere p fun q hq => by rw [hpath]; exact hp q hq).trans
    (Volume.shape?_of_nodes hstill.nodes p)

theorem step_keepsTo (h : InCustody l t) (hplaced : t.Placed) (hfiles : t.leavesFiles)
    (hfork : ∀ args, t.call? ≠ some (.fork, args)) : KeepsTo t.worksOn t.kernel (after step t).kernel := by
  have hself : t.worksOn t.self.pid := .inl rfl
  rcases step_cases h hplaced hfiles with ⟨-, hsized⟩ | ⟨-, hsited⟩ | hranging | ⟨args, hcall⟩
  · exact hsized.toSited.keepsTo hplaced hself
  · exact hsited.keepsTo hplaced hself
  · exact hranging.confined.toKeepsTo
  · exact absurd hcall (hfork args)

/-- The data region of the process whose turn it is. -/
theorem step_grown (h : InCustody l t) (hplaced : t.Placed) (hfiles : t.leavesFiles)
    (hexec : ∀ args, t.call? ≠ some (.exec, args))
    (hlive : (after step t).kernel.table.isLive t.self.pid) : Grown t (after step t) := by
  rcases step_cases h hplaced hfiles with ⟨-, hsized⟩ | ⟨⟨args, hcall⟩, -⟩ | hranging | ⟨args, hcall⟩
  · exact hsized.grown
  · exact absurd hcall (hexec args)
  · exact hranging.grown hlive
  · obtain ⟨hmakes, hlength⟩ := step_fork hcall
    refine .inl ⟨hlength, hmakes.elsewhere _ fun q hq he => ?_⟩
    rw [hplaced.path] at he
    cases Kernel.backingPath_inj he
    have hat := (atCall_still t).seats.isLive _ hplaced.live
    rw [Table.isLive, Table.process?_of_firstFree? hq] at hat
    cases hat

/-- The data region of another process that the step works on. -/
theorem step_regrown (h : InCustody l t) (hplaced : t.Placed) (hfiles : t.leavesFiles) {q : Pid}
    (hq : t.worksOn q) (hne : q ≠ t.self.pid) : Kernel.Regrown q t.kernel (after step t).kernel := by
  have haim : t.aim? = some q := hq.resolve_left hne
  rcases step_cases h hplaced hfiles with ⟨hnone, -⟩ | ⟨⟨args, hcall⟩, -⟩ | hranging | ⟨args, hcall⟩
  · rw [hnone] at haim
    cases haim
  · simp [aim?, hcall] at haim
  · exact hranging.regrown q haim hne
  · simp [aim?, hcall] at haim

end Turn

/-! ## Moments -/

namespace Kernel

variable {l : Ledger} {W : Pid → Prop}

theorem endTurn_confinedIn (t : Turn Volume) (how : Option TurnEnd) :
    ConfinedIn l W t.kernel (endTurn t how) := by
  have hsaved : ConfinedIn l W t.kernel (endTurn t none) := by
    rcases endTurn_none_cases t with ⟨-, hend⟩ | ⟨-, hend⟩
    · rw [hend]
      exact save_confinedIn t.kernel t.self
    · rw [hend]
      exact trans_of (ConfinedIn l W) (save_confinedIn t.kernel t.self) (fault_confinedIn _ _ _)
  cases how with
  | none => exact hsaved
  | some e =>
    cases e with
    | yielded | blocked => exact hsaved
    | exited => exact refl_of (ConfinedIn l W) _
    | faulted f => exact fault_confinedIn _ _ f
    | overflowed =>
      exact fun c => ⟨c.endTurn (some .overflowed), .of_store rfl rfl (List.Subset.refl _) fun _ => rfl⟩

theorem openTurn_confinedIn (k : Kernel Volume) (pid : Pid) (why : Resumption) :
    ConfinedIn l W k (Moment.resumed k pid why).after := by
  rcases hl : k.load pid with ⟨f | self, k₁⟩ <;> simp only [Moment.after, openTurn, hl]
  · exact trans_of (ConfinedIn l W) (load_confinedIn hl) (fault_confinedIn k₁ pid f)
  · have hactive (k : Kernel Volume) := setStatus_confinedIn (l := l) (W := W) k pid .active
    cases why with
    | ready => exact trans_of (ConfinedIn l W) (load_confinedIn hl) (hactive k₁)
    | result value =>
      exact trans_of (ConfinedIn l W) (trans_of (ConfinedIn l W) (load_confinedIn hl)
        (note_confinedIn k₁ _)) (hactive _)

end Kernel

namespace Moment

/-- Whom a moment works on: who is sent a signal by the host, or whom a step works on. -/
def worksOn : Moment Volume → Pid → Prop
  | obeyed _ (.sendSignal pid _), q => q = pid
  | stepped t, q => t.worksOn q
  | _, _ => False

/-- Who is to be made at a moment. -/
def makes? : Moment Volume → Option Pid
  | obeyed k (.spawn _) => k.table.firstFree?
  | stepped t =>
    match t.call? with
    | some (.fork, _) => t.atCall.kernel.table.firstFree?
    | _ => none
  | _ => none

/-- Neither does the host change files itself, nor does a program resize or delete one by its path. -/
def leavesFiles : Moment Volume → Bool
  | obeyed _ (.edit _) => false
  | stepped t => t.leavesFiles
  | _ => true

/-- For everybody who is worked on or ends, the path for the backing file comes to the file that is open for
them: backing files are kept in the directory in which theirs was made, or in another by another name of
it. -/
def AtHome (m : Moment Volume) : Prop :=
  ∀ q r, m.before.table.process? q = some r → m.worksOn q ∨ m.after.table.process? q = none →
    m.before.store.pathOf? r.backing = some (m.before.backingPath q)

/-- What happens to the files at a moment, told by the handles of the backing files. -/
structure MindsBackings (m : Moment Volume) : Prop where
  /-- There is something of the same kind and length as before, or still nothing, at every path but those of
  the files of processes that are worked on or end, and that of the file of a process to be. -/
  elsewhere : ∀ p, (∀ q r, m.before.table.process? q = some r → m.before.store.pathOf? r.backing = some p →
      ¬m.worksOn q ∧ m.after.table.isLive q) →
    (∀ q, m.makes? = some q → m.before.backingPath q ≠ p) → m.after.store.shape? p = m.before.store.shape? p
  /-- The file of a process that ends is gone, unless it is open for somebody else. -/
  ended : ∀ {q r p}, m.before.table.process? q = some r → m.before.store.pathOf? r.backing = some p →
    m.after.table.process? q = none →
    m.after.store.node? p = none ∨ ∃ g, g ≠ r.backing ∧ (g, p) ∈ m.before.store.handles
  /-- Where the data region of the process whose turn it is grows, its file has just the room for that. -/
  grownAtWork : ∀ {t p}, m = .stepped t → (∀ args, t.call? ≠ some (.exec, args)) →
    m.after.table.isLive t.self.pid → t.kernel.store.pathOf? t.self.backing = some p →
    t.kernel.store.Grown p t.self.state.dataLength m.after.store
      (CoopKernel.after Turn.step t).self.state.dataLength
  /-- So has the file of another process whose data region grows. -/
  grownAtRest : ∀ {q r s s' p}, m.worksOn q → (∀ t, m = .stepped t → q ≠ t.self.pid) →
    m.before.table.process? q = some r → m.before.store.pathOf? r.backing = some p →
    m.after.table.isLive q → m.before.store.kept? r.backing = some s →
    m.after.store.kept? r.backing = some s' →
    m.before.store.Grown p s.dataLength m.after.store s'.dataLength

/-! ## What happens at the paths that are computed -/

variable {m : Moment Volume}

/-- What happens at a moment, told by the paths that are computed from the settings. -/
structure MindsPaths (m : Moment Volume) : Prop where
  changes : KeepsTo m.worksOn m.before m.after ∨ OnlyMakes m.makes? m.before m.after
  grownAtWork : ∀ {t}, m = .stepped t → (∀ args, t.call? ≠ some (.exec, args)) →
    m.after.table.isLive t.self.pid → t.Grown (CoopKernel.after Turn.step t)
  grownAtRest : ∀ {q}, m.worksOn q → (∀ t, m = .stepped t → q ≠ t.self.pid) →
    Kernel.Regrown q m.before m.after

theorem MindsPaths.mindsBackings (h : MindsPaths m) (hhome : m.AtHome)
    (hseated : ∀ t, m = .stepped t → t.Placed ∧ t.Seated) : MindsBackings m where
  elsewhere p hp hmakes := by
    rcases h.changes with hkeeps | honly
    · refine hkeeps.elsewhere p fun q hq hlive => ?_
      obtain ⟨r, hr⟩ := Table.isLive_iff.mp hlive
      by_contra hn
      have hconcerned : m.worksOn q ∨ m.after.table.process? q = none := by
        by_cases hw : m.worksOn q
        · exact .inl hw
        · refine .inr (Option.not_isSome_iff_eq_none.mp fun hl => hn ⟨hw, hl⟩)
      exact hn (hp q r hr (hq ▸ hhome q r hr hconcerned))
    · exact honly.elsewhere p hmakes
  ended {q r p} hr hpath hgone := by
    have hq := hhome q r hr (.inr hgone)
    cases hpath.symm.trans hq
    rcases h.changes with hkeeps | honly
    · exact hkeeps.removed hr hgone hq
    · have hlive := honly.live q (Table.isLive_iff.mpr ⟨r, hr⟩)
      rw [Table.isLive, hgone] at hlive
      cases hlive
  grownAtWork {t p} hm hexec hlive hpath := by
    obtain ⟨hplaced, r, hr, -, -, hbacking⟩ := hseated t hm
    have hgrown := h.grownAtWork hm hexec hlive
    subst hm
    have hq := hhome t.self.pid r hr (.inl (.inl rfl))
    rw [hbacking] at hq
    cases hpath.symm.trans hq
    rw [Turn.Grown, hplaced.path] at hgrown
    exact hgrown
  grownAtRest {q r s s' p} hw hne hr hpath hlive hs hs' := by
    cases hpath.symm.trans (hhome q r hr (.inl hw))
    exact h.grownAtRest hw hne hr hlive hs hs'

/-- A moment that is neither a step nor works on anybody. -/
theorem MindsPaths.of_keepsTo (hchanges : KeepsTo m.worksOn m.before m.after) (hstep : m.turn? = none)
    (hworks : ∀ q, ¬m.worksOn q) : MindsPaths m where
  changes := .inl hchanges
  grownAtWork hm := by
    rw [hm] at hstep
    cases hstep
  grownAtRest hw := absurd hw (hworks _)

theorem mindsPaths_obeyed {l : Ledger} {k : Kernel Volume} {call : HostCall Volume} (c : Custody l k)
    (hdirect : call.isDirect) (hfiles : (obeyed k call).leavesFiles) : MindsPaths (obeyed k call) := by
  cases call with
  | tick | runUntilIdle => cases hdirect
  | edit => cases hfiles
  | spawn program => exact ⟨.inr (k.spawn_onlyMakes program), fun he => (by cases he), False.elim⟩
  | kill pid status => exact .of_keepsTo (k.kill_confinedIn pid status c).2.toKeepsTo rfl fun _ => id
  | sendSignal pid signal =>
    refine ⟨.inl (k.sendSignal_confinedIn pid signal c).2.toKeepsTo, fun he => (by cases he), ?_⟩
    rintro _ rfl _
    exact Kernel.sendSignal_regrown c _ signal
  | inspect pid =>
    have hload : ConfinedIn l (fun _ => False) k (k.load pid).2 := Kernel.load_confinedIn rfl
    exact .of_keepsTo (hload c).2.toKeepsTo rfl fun _ => id
  | openPath path => exact .of_keepsTo (.of_store rfl (k.store.shape?_openPath path)) rfl fun _ => id
  | setClock | configure | close => exact .of_keepsTo (.of_store rfl fun _ => rfl) rfl fun _ => id

theorem mindsPaths_counted (k : Kernel Volume) : MindsPaths (counted k) := by
  have htable : (counted k).after.table = k.table ∨ (counted k).after.table = k.table.resetCounts := by
    unfold Moment.after Kernel.countTick
    dsimp only
    split
    · exact .inr rfl
    · exact .inl rfl
  have hstore : (counted k).after.store = k.store := by
    unfold Moment.after Kernel.countTick
    dsimp only
    split <;> rfl
  refine .of_keepsTo (.of_live (fun q hq => ?_) fun p _ => by rw [hstore]; rfl) rfl fun _ => id
  rcases htable with he | he
  · rw [he]
    exact hq
  · rw [he, Table.isLive, Table.process?_resetCounts, Option.isSome_map]
    exact hq

theorem mindsPaths_stepped {l : Ledger} {t : Turn Volume} (h : InCustody l t) (hplaced : t.Placed)
    (hfiles : t.leavesFiles) : MindsPaths (stepped t) where
  changes := by
    cases hc : t.call? with
    | none => exact .inl (Turn.step_keepsTo h hplaced hfiles fun args he => by rw [hc] at he; cases he)
    | some callArgs =>
      obtain ⟨call, args⟩ := callArgs
      by_cases hfork : call = .fork
      · subst hfork
        right
        have hmakes := (Turn.step_fork hc).1
        simp only [makes?, hc]
        exact hmakes
      · refine .inl (Turn.step_keepsTo h hplaced hfiles fun args he => hfork ?_)
        rw [hc] at he
        cases he
        rfl
  grownAtWork := by
    rintro _ ⟨⟩ hexec hlive
    exact Turn.step_grown h hplaced hfiles hexec hlive
  grownAtRest hw hne := Turn.step_regrown h hplaced hfiles hw (hne t rfl)

end Moment

/-- All through a run in which the host may have backing files kept elsewhere whenever it likes: as long as
the path that is computed for whoever is worked on or ends comes to the file that is open for them, data
regions grow in their own files, files go with their processes, and nothing else changes its shape. -/
theorem HostCall.backing_files_survive_moving (v : Volume) (settings : Settings) (entropy : UInt64)
    (calls : List (HostCall Volume)) (h : allSpare (Kernel.new v settings entropy) calls) {m : Moment Volume}
    (hm : m ∈ courseAll (Kernel.new v settings entropy) calls) (hfiles : m.leavesFiles) (hhome : m.AtHome) :
    m.MindsBackings := by
  obtain ⟨before, later, hsplit⟩ := List.append_of_mem hm
  have hcustody := (Custody.upkeep.run (Custody.start v settings entropy) h).1
  rw [hsplit] at hcustody
  have hknown := hcustody.at_split
  cases m with
  | obeyed k call =>
    exact (Moment.mindsPaths_obeyed hknown.1 hknown.2.1 hfiles).mindsBackings hhome fun _ he => by cases he
  | counted k => exact (Moment.mindsPaths_counted k).mindsBackings hhome fun _ he => by cases he
  | resumed k pid why =>
    have hchanges := (k.openTurn_confinedIn (W := fun _ => False) pid why hknown.1).2.toKeepsTo
    have hminds : Moment.MindsPaths (.resumed k pid why) := .of_keepsTo hchanges rfl fun _ => id
    exact hminds.mindsBackings hhome fun _ he => by cases he
  | ended t how =>
    have hchanges := (Kernel.endTurn_confinedIn (W := fun _ => False) t how hknown.1).2.toKeepsTo
    have hminds : Moment.MindsPaths (.ended t how) := .of_keepsTo hchanges rfl fun _ => id
    exact hminds.mindsBackings hhome fun _ he => by cases he
  | stepped t =>
    have hin : InCustody _ t := ⟨hknown.1, hknown.2 rfl⟩
    have hplaced : t.Placed := by
      obtain ⟨p, hp, -⟩ := hin.seated
      exact ⟨placed_of_stepped hm, Table.isLive_iff.mpr ⟨p, hp⟩⟩
    refine (Moment.mindsPaths_stepped hin hplaced hfiles).mindsBackings hhome ?_
    rintro _ ⟨⟩
    exact ⟨hplaced, hin.seated⟩

/-- A program that stores a byte in its data region, which has to grow for that. -/
def storingProgram : Bytes :=
  #[0xDA, 0x80, 0x00, 0x12, 0xC0, 0xC0, 0xC0, 0xC0]

/-- A kernel with two directories for backing files and a program. -/
def movingKernel : Kernel Volume :=
  Kernel.new (((Volume.empty.mkdir (Path.ofText "/tmp")).2.mkdir (Path.ofText "/t2")).2.addFile
    (Path.ofText "/bin/a") storingProgram).2 { budget := 2 }

/-- After a process was made in one directory and another one in the other, the second is killed. Its file
goes with it, and that of the first stays. -/
theorem HostCall.killing_after_moving :
    let calls : List (HostCall Volume) :=
      [.spawn "/bin/a", .configure { budget := 2, tmpDir := "/t2" }, .spawn "/bin/a"]
    let k := runAll movingKernel calls
    let m : Moment Volume := .obeyed k (.kill 1 5)
    allSpare movingKernel (calls ++ [.kill 1 5]) ∧ m ∈ courseAll movingKernel (calls ++ [.kill 1 5]) ∧
      m.leavesFiles ∧ m.AtHome ∧ (k.store.node? (Path.ofText "/t2/proc1")).isSome ∧
      (k.kill 1 5).2.store.node? (Path.ofText "/t2/proc1") = none ∧
      (k.kill 1 5).2.store.length? (Path.ofText "/tmp/proc0") = some Snapshot.blockSize := by
  intro calls k m
  have hm : m ∈ courseAll movingKernel (calls ++ [.kill 1 5]) := .tail _ (.tail _ (.tail _ (.head _)))
  have hchecked : allSpare movingKernel (calls ++ [.kill 1 5]) = true ∧
      (∀ q, ((k.table.process? q).all fun r => ((k.kill 1 5).2.table.process? q).isSome ||
        k.store.pathOf? r.backing = some (k.backingPath q)) = true) ∧
      ((k.table.process? 1).any fun r =>
        k.store.pathOf? r.backing = some (Path.ofText "/t2/proc1") && k.store.handles.all fun entry =>
          entry.1 = r.backing || entry.2 ≠ Path.ofText "/t2/proc1") = true ∧
      (∀ q, ((k.table.process? q).all fun r =>
        k.store.pathOf? r.backing ≠ some (Path.ofText "/tmp/proc0") || (k.kill 1 5).2.table.isLive q) = true) ∧
      (k.kill 1 5).2.table.process? 1 = none ∧ (k.store.node? (Path.ofText "/t2/proc1")).isSome ∧
      k.store.length? (Path.ofText "/tmp/proc0") = some Snapshot.blockSize := by decide +kernel
  obtain ⟨hspare, hends, hsecond, hfirst, hdead, hthere, hlength⟩ := hchecked
  clear_value k
  have hhome : m.AtHome := by
    intro q r hr hq
    have hgone : (k.kill 1 5).2.table.process? q = none := hq.resolve_left id
    have hq := hends q
    rw [show k.table.process? q = some r from hr, Option.all_some, hgone] at hq
    exact of_decide_eq_true hq
  have hminds := backing_files_survive_moving _ _ _ _ hspare hm rfl hhome
  obtain ⟨r, hr, hsecond⟩ := (Option.any_eq_true _ _).mp hsecond
  simp only [Bool.and_eq_true, decide_eq_true_eq, List.all_eq_true, Bool.or_eq_true] at hsecond
  have hgone : (k.kill 1 5).2.store.node? (Path.ofText "/t2/proc1") = none := by
    refine (hminds.ended hr hsecond.1 hdead).resolve_right ?_
    rintro ⟨g, hne, hg⟩
    exact (hsecond.2 _ hg).elim hne fun hne => hne rfl
  have hstays : (k.kill 1 5).2.store.shape? (Path.ofText "/tmp/proc0") =
      k.store.shape? (Path.ofText "/tmp/proc0") := by
    refine hminds.elsewhere _ (fun q r hr hpath => ⟨id, ?_⟩) fun _ he => by cases he
    have hq := hfirst q
    rw [show k.table.process? q = some r from hr, Option.all_some, Bool.or_eq_true,
      decide_eq_true_eq] at hq
    exact hq.resolve_left fun hne => hne hpath
  exact ⟨hspare, hm, rfl, hhome, hthere, hgone, (Volume.length?_congr hstays).trans hlength⟩

/-- The host has backing files kept elsewhere while a process is there, and there is a file of the same name
there. When the process stores a byte, that file is resized for it, its own being too short to write to. The
process dies of that, and the other file is deleted and its own left behind. -/
theorem HostCall.moving_loses_backing_file :
    let calls : List (HostCall Volume) := [.spawn "/bin/a",
      .edit (.addFile (Path.ofText "/t2/proc0") #[0xAA]), .configure { budget := 2, tmpDir := "/t2" }]
    let k := runAll movingKernel calls
    allSpare movingKernel (calls ++ [.tick]) ∧
      ((k.table.process? 0).any fun r =>
        k.store.pathOf? r.backing = some (Path.ofText "/tmp/proc0")) = true ∧
      (k.tickCourse.any fun m => m.turn?.any fun t =>
        t.kernel.store.pathOf? t.self.backing = some (Path.ofText "/tmp/proc0") &&
          t.self.state.dataLength = 0 && (after Turn.step t).self.state.dataLength = 0x11 &&
          (after Turn.step t).kernel.store.length? (Path.ofText "/tmp/proc0") =
            some Snapshot.blockSize &&
          t.kernel.store.length? (Path.ofText "/t2/proc0") = some 1 &&
          (after Turn.step t).kernel.store.length? (Path.ofText "/t2/proc0") =
            some (Snapshot.blockSize + 0x11)) = true ∧
      k.tick.table.process? 0 = none ∧
      k.tick.store.length? (Path.ofText "/tmp/proc0") = some Snapshot.blockSize ∧
      k.tick.store.node? (Path.ofText "/t2/proc0") = none := by
  decide +kernel

end CoopKernel
