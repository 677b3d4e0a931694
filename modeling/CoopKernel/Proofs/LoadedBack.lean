import CoopKernel.Proofs.Loading
import CoopKernel.Proofs.Path
import CoopKernel.Proofs.Settled

/-!
# What is loaded back

At the end of a turn the snapshot of the process is put into its state block, where texts have little room.
What the next turn starts with is what the last one ended with, if the texts come back as they are. The
working directory always does: it is changed to paths that have room in their field only. The search path
need not: what is not UTF-8 in it is replaced, and the replacement can be longer than the field.
-/

namespace CoopKernel

variable {σ : Type} [Storage σ]

/-- There are not too many arguments, and the working directory comes back from its field as it is. -/
structure Environment.Tidy (env : Environment) : Prop where
  args : env.argCount.toNat ≤ maxArguments
  workDir : Snapshot.storedText env.workDir = env.workDir

namespace Turn

/-! ## Steps -/

/-- The environment of the process is tidy. -/
def Tidy (t : Turn σ) : Prop :=
  t.self.state.env.Tidy

omit [Storage σ] in
theorem Tidy.equipped {t t' : Turn σ} (ht : t.Tidy) (h : Equipped t t') : t'.Tidy := by
  refine ⟨h.args ht.args, ?_⟩
  rw [h.env]
  exact ht.workDir

omit [Storage σ] in
theorem searchPath_equipped {t t' : Turn σ} (h : Equipped t t') :
    t'.self.state.env.searchPath = t.self.state.env.searchPath := by
  rw [h.env]

/-- A path that is read from memory has no NUL where the working directory has none. -/
theorem readPath_ne_nul {P : Turn σ → Prop} (hP : ∀ t t', Equipped t t' → Stays P t t')
    (hnul : ∀ t, P t → ∀ c ∈ t.self.state.env.workDir.toList, c ≠ '\x00') (address : UInt16) :
    Ensures P (readPath address : Attempt σ (Option Path))
      (fun p t => P t ∧ ∀ q, p = some q → ∀ c ∈ q.chars, c ≠ '\x00') fun _ => P := by
  have htext : Ensures P (readText address : Attempt σ (List UInt8)) (fun _ => P) fun _ => P :=
    .of_keeps (domestic_composed.readText address).keeps fun t t' h => hP t t' h.equipped
  unfold readPath
  refine .bind htext fun raw => ?_
  split
  · exact .pure fun t ht => ⟨ht, nofun⟩
  · next chars _ =>
    dsimp only
    split
    · next haccepts =>
      refine .get_bind fun t ht => .pure fun t' ht' => ⟨ht', ?_⟩
      intro q hq c hc
      cases hq
      rcases Path.mem_chars_resolve hc with rfl | hc | hc
      · decide
      · exact hnul t ht c hc
      · rintro rfl
        simp only [Path.accepts, Bool.and_eq_true, Bool.not_eq_true', List.contains_eq_mem,
          decide_eq_false_iff_not] at haccepts
        exact haccepts.2 hc
    · exact .pure fun t ht => ⟨ht, nofun⟩

/-- The working directory becomes a text without a NUL that has room in its field, or stays as it is. -/
theorem setWorkDir_keeps {P : Turn σ → Prop} (hP : ∀ t t', Equipped t t' → Stays P t t')
    (hnul : ∀ t, P t → ∀ c ∈ t.self.state.env.workDir.toList, c ≠ '\x00')
    (hset : ∀ (t : Turn σ) (workDir : String), P t → Utf8.size workDir < Snapshot.textSize →
      (∀ c ∈ workDir.toList, c ≠ '\x00') → P { t with self := { t.self with
        state := { t.self.state with env := { t.self.state.env with workDir } } } }) (address : UInt16) :
    Keeps (Stays P) (setWorkDir address : Attempt σ Reply) := by
  have hall : Ensures P (setWorkDir address : Attempt σ Reply) (fun _ => P) fun _ => P := by
    unfold setWorkDir
    refine .bind (readPath_ne_nul hP hnul address) fun p => ?_
    split
    · exact .pure fun _ ht => ht.1
    · next p =>
      split
      · next hsize =>
        refine .bind (Q := fun _ => P) (.modify fun t ht => hset t p.text ht.1 ?_ ?_) fun _ => .pure fun _ => id
        · rw [Utf8.size, Utf8.bytes, Path.text, String.toList_ofList]
          exact hsize
        · intro c hc
          rw [Path.text, String.toList_ofList] at hc
          exact ht.2 p rfl c hc
      · exact .pure fun _ ht => ht.1
  exact hall.keeps

/-- What does not depend on the working directory is kept when that is changed. -/
theorem setWorkDir_stays {P : Turn σ → Prop} (hP : ∀ t t', Equipped t t' → Stays P t t')
    (hset : ∀ (t : Turn σ) (workDir : String), P t → P { t with self := { t.self with
      state := { t.self.state with env := { t.self.state.env with workDir } } } }) (address : UInt16) :
    Keeps (Stays P) (setWorkDir address : Attempt σ Reply) := by
  unfold setWorkDir
  refine .bind ((domestic_composed.readPath address).keeps.mono fun t t' h => hP t t' h.equipped) fun p => ?_
  split
  · exact .pure _
  · split
    · exact .bind (.modify fun t => hset t _) fun _ => .pure _
    · exact .pure _

/-- What does not depend on the search path is kept when that is changed. -/
theorem setSearchPath_stays {P : Turn σ → Prop} (hP : ∀ t t', Equipped t t' → Stays P t t')
    (hset : ∀ (t : Turn σ) (searchPath : String), P t → P { t with self := { t.self with
      state := { t.self.state with env := { t.self.state.env with searchPath } } } }) (address : UInt16) :
    Keeps (Stays P) (setSearchPath address : Attempt σ Reply) := by
  unfold setSearchPath
  refine .bind ((access_composed _).keeps.mono fun t t' h => hP t t' h.equipped) fun raw => ?_
  split
  · exact .bind (.modify fun t => hset t _) fun _ => .pure _
  · exact .pure _

/-- The text in memory as it would become the search path, if there is room for it. -/
def searchPathAt? (t : Turn σ) (address : UInt16) : Option String :=
  match access (AddressSpace.readText address Snapshot.textSize) t with
  | .ok raw _ =>
    if raw.length < Snapshot.textSize then some (String.ofList (Utf8.decodeLossy raw)) else none
  | .error _ _ => none

/-- The text that the next step makes the search path. -/
def newSearchPath? (t : Turn σ) : Option String :=
  match t.call? with
  | some (.setSearchPath, args) => t.atCall.searchPathAt? args.a
  | _ => none

/-- What has been read as a text has no NUL. -/
theorem readText_ne_zero {a : UInt16} {count : Nat} {s s' : AddressSpace σ} {text : List UInt8}
    (h : AddressSpace.readText a count s = .ok text s') : ∀ b ∈ text, b ≠ 0 := by
  induction count generalizing a s text with
  | zero =>
    cases h
    nofun
  | succ count ih =>
    unfold AddressSpace.readText at h
    cases hread : AddressSpace.read a s with
    | error f s₁ =>
      rw [bind_of_error hread] at h
      cases h
    | ok b s₁ =>
      rw [bind_of_ok hread] at h
      split at h
      · cases h
        nofun
      · next hb =>
        obtain ⟨rest, hrest, rfl⟩ := bind_pure_ok.mp h
        intro b' hb'
        rcases List.mem_cons.mp hb' with rfl | hb'
        · exact hb
        · exact ih hrest b' hb'

theorem searchPathAt?_ne_nul {t : Turn σ} {address : UInt16} {text : String}
    (h : t.searchPathAt? address = some text) : ∀ c ∈ text.toList, c ≠ '\x00' := by
  unfold searchPathAt? at h
  split at h
  · next raw t' hread =>
    split at h
    · cases h
      have hraw : ∀ b ∈ raw, b ≠ 0 := by
        unfold access at hread
        split at hread
        · next hspace =>
          cases hread
          exact readText_ne_zero hspace
        · cases hread
      intro c hc
      rw [String.toList_ofList] at hc
      exact Utf8.decodeLossy_ne_nul hraw hc
    · cases h
  · cases h

theorem newSearchPath?_ne_nul {t : Turn σ} {text : String} (h : t.newSearchPath? = some text) :
    ∀ c ∈ text.toList, c ≠ '\x00' := by
  unfold newSearchPath? at h
  split at h
  · exact searchPathAt?_ne_nul h
  · cases h

theorem setSearchPath_searchPath (t : Turn σ) (address : UInt16) :
    (after (setSearchPath address : Attempt σ Reply) t).self.state.env.searchPath =
      (t.searchPathAt? address).getD t.self.state.env.searchPath := by
  have hkept := (access_composed (AddressSpace.readText address Snapshot.textSize)).keeps t
  unfold setSearchPath searchPathAt?
  cases hread : access (AddressSpace.readText address Snapshot.textSize) t with
  | error f t₁ =>
    rw [after_error hread] at hkept
    rw [after_bind_error hread]
    exact searchPath_equipped hkept.equipped
  | ok raw t₁ =>
    rw [after_ok hread] at hkept
    rw [after_bind_ok hread]
    by_cases hroom : raw.length < Snapshot.textSize
    · simp only [if_pos hroom]
      rfl
    · simp only [if_neg hroom]
      exact searchPath_equipped hkept.equipped

/-- The search path is not changed after an attempt is answered. -/
theorem searchPath_answer (act : Attempt σ Reply) (t : Turn σ) :
    (after ((monadLift act : InTurn σ Reply) >>= conclude) t).self.state.env.searchPath =
      (after act t).self.state.env.searchPath := by
  cases hr : act t with
  | error f t₁ =>
    rw [after_bind_error (lift_error hr), after_error hr]
  | ok reply t₁ =>
    rw [after_bind_ok (lift_ok hr), after_ok hr]
    exact searchPath_equipped ((conclude_composed (E := fun _ => True) reply).keeps t₁).equipped

/-- What answering a call keeps, and work at home does, too, is kept by the step that does the call. -/
theorem step_stays {P : Turn σ → Prop} (hP : ∀ t t', Composed t t' → P t → P t') {t : Turn σ}
    {call : Syscall} {args : CallArgs} (h : t.call? = some (call, args))
    (ha : Keeps (Stays P) (answer call args : InTurn σ Reply)) : Stays P t (after step t) := by
  have hwork := step_works (R := Stays P) hP h (.of_keeps ha fun _ => trivial)
  have hboth : Yields (step t) (fun _ => Stays P t) fun _ => Stays P t :=
    hwork.mono (fun _ _ => id) fun _ _ hr => hr.2
  exact hboth.after

/-- What does not depend on the arguments and the standard handle is kept by a step, if it is by what is left
that changes the environment. -/
theorem step_env {P : Turn σ → Prop} (hP : ∀ t t', Equipped t t' → Stays P t t')
    (hwork : ∀ address, Keeps (Stays P) (setWorkDir address : Attempt σ Reply)) {t : Turn σ}
    (hsearch : ∀ args, t.call? = some (.setSearchPath, args) →
      Keeps (Stays P) (setSearchPath args.a : Attempt σ Reply)) : Stays P t (after step t) := by
  have hcomposed : ∀ t t' : Turn σ, Composed t t' → Stays P t t' := fun t t' h => hP t t' h.equipped
  cases hcall : t.call? with
  | none =>
    have hstep : Yields (step t) (fun _ => Stays P t) fun _ => Stays P t :=
      (step_composed hcall).mono (fun _ => hcomposed t) fun _ t' hr => hcomposed t t' hr.2
    exact hstep.after
  | some call =>
    obtain ⟨call, args⟩ := call
    refine step_stays hcomposed hcall ?_
    by_cases harg : call = .argument
    · subst harg
      exact (argument_composed args.a args.b).keeps.mono hcomposed
    · cases hset : call.setsEnv with
      | false => exact (answer_composed harg hset args).keeps.mono hcomposed
      | true =>
        cases call
        case exec => exact (execCall_equipped args).keeps.mono hP
        case setWorkDir => exact (hwork args.a).adaptExcept _
        case setSearchPath => exact (hsearch args hcall).adaptExcept _
        all_goals cases hset

theorem setWorkDir_tidy (address : UInt16) :
    Keeps (Stays (Tidy (σ := σ))) (setWorkDir address : Attempt σ Reply) := by
  refine setWorkDir_keeps (fun _ _ h ht => ht.equipped h) (fun t ht c hc => ?_)
    (fun t workDir ht hsize hnul => ⟨ht.args, Snapshot.storedText_of_size hsize hnul⟩) address
  rw [← ht.workDir] at hc
  exact Snapshot.storedText_ne_nul hc

theorem setSearchPath_tidy (address : UInt16) :
    Keeps (Stays (Tidy (σ := σ))) (setSearchPath address : Attempt σ Reply) :=
  setSearchPath_stays (fun _ _ h ht => ht.equipped h) (fun _ _ ht => ⟨ht.args, ht.workDir⟩) address

theorem step_tidy : Keeps (Stays (Tidy (σ := σ))) (step : InTurn σ Unit) :=
  fun _ => step_env (fun _ _ h ht => ht.equipped h) setWorkDir_tidy fun args _ => setSearchPath_tidy args.a

/-- The search path is what it was, unless a step made another text the search path. -/
theorem searchPath_step (t : Turn σ) : (after step t).self.state.env.searchPath =
    t.newSearchPath?.getD t.self.state.env.searchPath := by
  let P (t' : Turn σ) : Prop := t'.self.state.env.searchPath = t.self.state.env.searchPath
  have hequipped : ∀ t t' : Turn σ, Equipped t t' → Stays P t t' := fun _ _ h hp =>
    (searchPath_equipped h).trans hp
  by_cases hset : ∃ args, t.call? = some (.setSearchPath, args)
  · obtain ⟨args, hcall⟩ := hset
    have hstart : P t.atCall := hequipped _ _ (atCall_composed hcall).equipped rfl
    have hstep : after step t = after (answer .setSearchPath args >>= conclude) t.atCall := by
      rw [after, (step_call_cases hcall).2.2, after]
    have hset := (searchPath_answer (setSearchPath args.a) t.atCall).trans
      (setSearchPath_searchPath t.atCall args.a)
    rw [newSearchPath?, hcall, hstep]
    rw [hstart] at hset
    exact hset
  · have hnone : t.newSearchPath? = none := by
      unfold newSearchPath?
      split
      · next args hcall => exact absurd ⟨args, hcall⟩ hset
      · rfl
    rw [hnone]
    exact step_env hequipped (setWorkDir_stays hequipped fun _ _ => id)
      (fun args hcall => absurd ⟨args, hcall⟩ hset) rfl

/-- The number of arguments stays one that there can be. -/
theorem step_few : Keeps (Stays fun t : Turn σ => t.self.state.env.argCount.toNat ≤ maxArguments)
    (step : InTurn σ Unit) :=
  fun _ => step_env (fun _ _ h => h.args) (setWorkDir_stays (fun _ _ h => h.args) fun _ _ => id)
    fun args _ => setSearchPath_stays (fun _ _ h => h.args) (fun _ _ => id) args.a

/-! ## Turns -/

theorem steps_tidy (n : Nat) : Keeps (Stays (Tidy (σ := σ))) (steps n : InTurn σ Unit) := by
  induction n with
  | zero => exact .pure _
  | succ n ih => exact .bind step_tidy fun _ => ih

/-- Where every text that is made the search path has room in its field, the search path comes back from
it in the end. -/
theorem searchPath_steps [VolumeBacked σ] {n : Nat} {t : Turn σ}
    (hroom : ∀ u path, .stepped u ∈ t.course n → u.newSearchPath? = some path →
      Utf8.size path < Snapshot.textSize)
    (hstart : Snapshot.storedText t.self.state.env.searchPath = t.self.state.env.searchPath) :
    Snapshot.storedText (after (steps n) t).self.state.env.searchPath =
      (after (steps n) t).self.state.env.searchPath := by
  induction n generalizing t with
  | zero => exact hstart
  | succ n ih =>
    have hstep : Snapshot.storedText (after step t).self.state.env.searchPath =
        (after step t).self.state.env.searchPath := by
      rw [searchPath_step]
      cases hnew : t.newSearchPath? with
      | none => exact hstart
      | some path =>
        exact Snapshot.storedText_of_size (hroom t path List.mem_cons_self hnew) fun c hc =>
          newSearchPath?_ne_nul hnew c hc
    have hsteps : (steps (n + 1) : InTurn σ Unit) = step >>= fun _ => steps n := rfl
    rw [hsteps]
    cases hs : step t with
    | error e u =>
      rw [after_error hs] at hstep
      rw [after_bind_error hs]
      exact hstep
    | ok _ u =>
      rw [after_ok hs] at hstep
      rw [after_bind_ok hs]
      refine ih (fun u' path hu => hroom u' path ?_) hstep
      rw [course, hs]
      exact List.mem_cons_of_mem _ hu

/-- The end of a turn that the process outlives: it has not ended and done nothing fatal, and can be
saved. -/
def outlived? : EStateM.Result TurnEnd (Turn σ) Unit → Option (Turn σ)
  | .ok () t | .error .yielded t | .error .blocked t =>
    if (t.kernel.save t.self).1 then some t else none
  | .error _ _ => none

theorem outlived?_steps {n : Nat} {t t' : Turn σ} (h : outlived? (steps n t) = some t') :
    after (steps n) t = t' ∧ (t'.kernel.save t'.self).1 = true ∧
      Kernel.closeTurn (steps n t) = (t'.kernel.save t'.self).2 := by
  have hsaved : ∀ u : Turn σ, (if (u.kernel.save u.self).1 then some u else none) = some t' →
      u = t' ∧ (t'.kernel.save t'.self).1 = true ∧
        Kernel.endTurn u none = (t'.kernel.save t'.self).2 := by
    intro u hu
    split at hu
    · next hdone =>
      obtain rfl := Option.some.inj hu
      rcases Kernel.endTurn_none_cases u with ⟨-, hend⟩ | ⟨hfailed, -⟩
      · exact ⟨rfl, hdone, hend⟩
      · cases hfailed.symm.trans hdone
    · cases hu
  unfold outlived? at h
  unfold after Kernel.closeTurn
  split at h
  · next u hr =>
    rw [hr]
    exact hsaved u h
  · next u hr =>
    rw [hr]
    exact hsaved u h
  · next u hr =>
    rw [hr]
    exact hsaved u h
  · cases h

end Turn

namespace HostCall

variable [VolumeBacked σ] {k : Kernel σ} {calls : List (HostCall σ)} {t : Turn σ}

/-- What is so of every environment that is read from a block and is kept by a step is so at every step of a run. -/
theorem env_of_stepped {P : Environment → Prop} (hblock : ∀ {block s}, Snapshot.ofBlock block = .ok s → P s.env)
    (hstep : Keeps (Stays fun t : Turn σ => P t.self.state.env) (Turn.step : InTurn σ Unit))
    (ht : .stepped t ∈ courseAll k calls) : P t.self.state.env := by
  refine holds_of_stepped (P := fun t => P t.self.state.env) (fun {k pid why t} hopen => ?_) hstep ht
  unfold Kernel.openTurn at hopen
  rcases hload : k.load pid with ⟨_ | self, k'⟩
  · rw [hload] at hopen
    cases hopen
  · have hloaded : P self.state.env := by
      obtain ⟨p, hp, -⟩ := Kernel.load_ok hload
      have hstate := Kernel.load_state hload hp
      unfold Snapshot.load at hstate
      dsimp only at hstate
      split at hstate
      · exact hblock (congrArg Prod.fst hstate)
      · cases hstate
    rw [hload] at hopen
    cases why <;> cases hopen <;> exact hloaded

theorem few_of_stepped (ht : .stepped t ∈ courseAll k calls) :
    t.self.state.env.argCount.toNat ≤ maxArguments :=
  env_of_stepped (P := fun env => env.argCount.toNat ≤ maxArguments) Snapshot.argCount_of_ofBlock Turn.step_few ht

end HostCall

namespace Kernel

/-- The block in the backing file of a process is that of a snapshot. -/
def HasBlock (k : Kernel Volume) (pid : Pid) (s : Snapshot) : Prop :=
  ∃ p content, k.table.process? pid = some p ∧ k.store.behind? p.backing = some content ∧
    content.slice 0 Snapshot.blockSize = s.toBlock

/-- A process whose block is that of a snapshot starts its turn in the environment that is stored of it. -/
theorem openTurn_env {k : Kernel Volume} {pid : Pid} {s : Snapshot} (hblock : k.HasBlock pid s)
    {why : Resumption} {t : Turn Volume} (hopen : k.openTurn pid why = .ok t) :
    s.env.argCount.toNat ≤ maxArguments ∧ t.self.state.env = s.stored.env := by
  obtain ⟨p, content, hp, hc, hs⟩ := hblock
  have hsize : Snapshot.blockSize ≤ content.size := by
    have hslice := congrArg Array.size hs
    rw [Snapshot.size_toBlock, Bytes.size_slice, Bytes.room] at hslice
    omega
  have hload := load_eq hp hc hsize
  rw [hs] at hload
  by_cases hargs : s.env.argCount.toNat ≤ maxArguments
  · rw [Snapshot.ofBlock_toBlock hargs] at hload
    unfold openTurn at hopen
    rw [hload] at hopen
    refine ⟨hargs, ?_⟩
    cases why <;> cases hopen <;> rfl
  · rw [Snapshot.ofBlock_toBlock_of_many (Nat.not_le.mp hargs)] at hload
    unfold openTurn at hopen
    rw [hload] at hopen
    cases hopen

/-- A process that could be saved was put into its file. -/
theorem block_of_save {k : Kernel Volume} {self : Loaded} (hsave : (k.save self).1 = true)
    {content : Bytes} (hc : (k.save self).2.store.behind? self.backing = some content) :
    Snapshot.blockSize ≤ content.size ∧
      content.slice 0 Snapshot.blockSize = self.state.toBlock := by
  have hbehind : (k.saved self).store.behind? self.backing = some content := hc
  rw [saved, Volume.behind?_write] at hbehind
  obtain ⟨old, hold, rfl⟩ := Option.map_eq_some_iff.mp hbehind
  have hcount : (Storage.write k.store self.backing 0 self.state.toBlock).1 =
      old.room 0 self.state.toBlock.size := (Volume.write_behind hold 0 self.state.toBlock).1
  simp only [save, Snapshot.save, hcount, decide_eq_true_eq, Bytes.room, Snapshot.size_toBlock] at hsave
  have hsize : Snapshot.blockSize ≤ old.size := by omega
  refine ⟨?_, slice_overwrite_toBlock hsize self.state⟩
  rw [Bytes.size_overwrite]
  exact hsize

end Kernel

/-- A process that outlives its turn starts the next one, before which nobody writes to its file and nothing
happens to it, with what the turn ended with, down to the working directory. The search path is as it comes
back from its field, which is as it was if every text that was made the search path in the turn has room
there. -/
theorem Kernel.turn_is_loaded_back {k k' : Kernel Volume} {pid : Pid} {why : Resumption} {s : Snapshot}
    {t t' : Turn Volume} {p : Process} {content : Bytes} (hblock : k.HasBlock pid s)
    (hopen : k.openTurn pid why = .ok t)
    (hend : Turn.outlived? (Turn.steps t.kernel.settings.budget.toNat t) = some t')
    (hp : k'.table.process? pid = some p) (hbacking : p.backing = t'.self.backing)
    (hfile : (k.runTurn pid why).store.behind? p.backing = some content)
    (hsame : k'.store.behind? p.backing = some content) :
    ∃ next, k'.openTurn pid .ready = .ok next ∧
      next.self.state = { t'.self.state with env := { t'.self.state.env with
        searchPath := Snapshot.storedText t'.self.state.env.searchPath } } ∧
      (next.self.state = t'.self.state ↔
        Snapshot.storedText t'.self.state.env.searchPath = t'.self.state.env.searchPath) ∧
      ((∀ u path, .stepped u ∈ t.course t.kernel.settings.budget.toNat →
          u.newSearchPath? = some path → Utf8.size path < Snapshot.textSize) →
        next.self.state = t'.self.state) := by
  obtain ⟨hafter, hsave, hclose⟩ := Turn.outlived?_steps hend
  obtain ⟨hargs, henv⟩ := Kernel.openTurn_env hblock hopen
  have htidy : t.Tidy := by
    rw [Turn.Tidy, henv]
    exact ⟨by rw [Snapshot.stored_argCount]; exact hargs, Snapshot.storedText_storedText _⟩
  have htidy' : t'.Tidy := hafter ▸ Turn.steps_tidy _ t htidy
  rw [Kernel.runTurn_eq, hopen] at hfile
  dsimp only at hfile
  rw [hclose, hbacking] at hfile
  obtain ⟨hsize, hslice⟩ := Kernel.block_of_save hsave hfile
  have hnext := Kernel.openTurn_of_toBlock hp hsame hsize hslice htidy'.args
  have hstored : t'.self.state.stored = { t'.self.state with env := { t'.self.state.env with
      searchPath := Snapshot.storedText t'.self.state.env.searchPath } } := by
    rw [Snapshot.stored, htidy'.workDir]
  have hiff : t'.self.state.stored = t'.self.state ↔
      Snapshot.storedText t'.self.state.env.searchPath = t'.self.state.env.searchPath := by
    rw [hstored]
    constructor
    · intro he
      exact congrArg (·.env.searchPath) he
    · intro he
      rw [he]
  refine ⟨_, hnext, hstored, hiff, fun hroom => hiff.mpr ?_⟩
  have hstart : Snapshot.storedText t.self.state.env.searchPath = t.self.state.env.searchPath := by
    rw [henv]
    exact Snapshot.storedText_storedText _
  rw [← hafter]
  exact Turn.searchPath_steps hroom hstart

/-- A program that goes to another directory and has programs looked up elsewhere. -/
def movingProgram : Bytes :=
  #[0xD8, 0x02, 0x03, 0xD9, 0x00, 0x10, 0xC1, 0xD8, 0x02, 0x05, 0xD9, 0x00, 0x13, 0xC1, 0xC0, 0xC0,
    0x2F, 0x78, 0x00, 0x2F, 0x79, 0x00]

/-- The process finds itself in the new directory in its next turn. -/
theorem Kernel.moved_process_is_loaded_back :
    let k := ((Kernel.new (((Volume.empty.mkdir (Path.ofText "/tmp")).2.addFile (Path.ofText "/bin/init")
      movingProgram).2)).spawn "/bin/init").2
    ∃ t t' next, k.openTurn 0 .ready = .ok t ∧
      Turn.outlived? (Turn.steps t.kernel.settings.budget.toNat t) = some t' ∧
      t'.self.state.env.workDir = "/x" ∧ t'.self.state.env.searchPath = "/y" ∧
      (k.runTurn 0 .ready).openTurn 0 .ready = .ok next ∧ next.self.state = t'.self.state := by
  intro k
  have hchecked : k.table.process? 0 = some { program := ⟨1⟩, backing := ⟨2⟩ } ∧
      (k.runTurn 0 .ready).table.process? 0 = some { program := ⟨1⟩, backing := ⟨2⟩, count := 8 } ∧
      (k.store.behind? ⟨2⟩).map (·.slice 0 Snapshot.blockSize) =
        some (k.initialState (Path.ofText "/bin/init")).toBlock ∧
      (k.openTurn 0 .ready).toOption.isSome ∧
      ((k.runTurn 0 .ready).store.behind? ⟨2⟩).isSome ∧
      (((k.openTurn 0 .ready).toOption.bind fun t =>
        Turn.outlived? (Turn.steps t.kernel.settings.budget.toNat t)).map fun t' =>
          (t'.self.backing, t'.self.state.env.workDir, t'.self.state.env.searchPath)) =
        some (⟨2⟩, "/x", "/y") := by decide +kernel
  obtain ⟨hprocess, hprocess', hstart, hopen, hfile, hend⟩ := hchecked
  obtain ⟨content, hcontent⟩ := Option.isSome_iff_exists.mp hfile
  obtain ⟨old, hold, hslice⟩ := Option.map_eq_some_iff.mp hstart
  cases ho : k.openTurn 0 .ready with
  | error k' =>
    rw [ho] at hopen
    cases hopen
  | ok t =>
    rw [ho] at hend
    obtain ⟨t', ht', he⟩ := Option.map_eq_some_iff.mp hend
    simp only [Prod.mk.injEq] at he
    obtain ⟨hbacking, hdir, hpath⟩ := he
    obtain ⟨next, hnext, -, hiff, -⟩ := Kernel.turn_is_loaded_back ⟨_, old, hprocess, hold, hslice⟩ ho ht'
      hprocess' hbacking.symm hcontent hcontent
    refine ⟨t, t', next, rfl, ht', hdir, hpath, hnext, hiff.mpr ?_⟩
    rw [hpath]
    decide +kernel

/-- A program that makes bytes that are not UTF-8 its search path. -/
def scramblingProgram : Bytes :=
  #[0xD8, 0x02, 0x05, 0xD9, 0x00, 0x1B, 0xC1, 0xC0, 0xC0, 0xC0, 0xC0, 0xC0, 0xD8, 0x02, 0x04, 0xD9,
    0x80, 0x00, 0xC1, 0xDA, 0x80, 0x3F, 0x4A, 0xD8, 0x00, 0x00, 0xC1] ++ Array.replicate 22 0xFF ++ #[0x00]

/-- The process finds another search path in its next turn than it left. -/
theorem Kernel.search_path_is_not_loaded_back :
    let k := ((Kernel.new (((Volume.empty.mkdir (Path.ofText "/tmp")).2.addFile (Path.ofText "/bin/init")
      scramblingProgram).2)).spawn "/bin/init").2
    let first := (k.openTurn 0 .ready).toOption.bind fun t =>
      Turn.outlived? (Turn.steps t.kernel.settings.budget.toNat t)
    let second := ((k.runTurn 0 .ready).openTurn 0 .ready).toOption
    ∃ t next, first = some t ∧ second = some next ∧ next.self.state ≠ t.self.state := by
  intro k first second
  have hlengths : first.map (·.self.state.env.searchPath.toList.length) = some 22 ∧
      second.map (·.self.state.env.searchPath.toList.length) = some 21 := by decide +kernel
  obtain ⟨hfirst, hsecond⟩ := hlengths
  obtain ⟨t, ht, hlength⟩ := Option.map_eq_some_iff.mp hfirst
  obtain ⟨next, hnext, hlength'⟩ := Option.map_eq_some_iff.mp hsecond
  refine ⟨t, next, ht, hnext, ?_⟩
  intro he
  rw [he, hlength] at hlength'
  cases hlength'

end CoopKernel
