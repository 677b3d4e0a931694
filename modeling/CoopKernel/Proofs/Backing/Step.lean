import CoopKernel.Proofs.Backing.Exec

/-!
# Backing files when a step is taken

There are two system calls by which a process could spoil a backing file: writing to what a handle stands
for, and cutting or extending what is at a path. As long as these leave the backing files of the living
alone, the process stays on duty at every step, or its turn ends as it should.
-/

namespace CoopKernel

open Volume (OnlyAt Spares)

namespace Kernel

/-- The backing file of a living process belongs at the path. -/
def keepsAt (k : Kernel Volume) (path : Path) : Bool :=
  k.table.live.any fun pid => k.backingPath pid = path

theorem backingPath_ne {k : Kernel Volume} {path : Path} (h : k.keepsAt path = false) {pid : Pid}
    {p : Process} (hp : k.table.process? pid = some p) : k.backingPath pid ≠ path := by
  intro he
  simp only [keepsAt, List.any_eq_false, Table.mem_live, decide_eq_true_eq] at h
  exact h pid ⟨p, hp⟩ he

end Kernel

namespace AddressSpace

variable {s s' : AddressSpace Volume} {g : Handle}

/-- Besides the window, only what a handle stands for changes. -/
structure Aimed (g : Handle) (s s' : AddressSpace Volume) : Prop where
  rest : s' = { s with store := s'.store, window := s'.window }
  path : ∀ h, s'.store.pathOf? h = s.store.pathOf? h
  content : ∀ p, s.store.pathOf? g ≠ some p → s'.store.content? p = s.store.content? p

instance (g : Handle) : IsPreorder (AddressSpace Volume) (Aimed g) where
  refl _ := ⟨rfl, fun _ => rfl, fun _ _ => rfl⟩
  trans _ _ _ h₁ h₂ := by
    refine ⟨by rw [h₂.rest, h₁.rest], fun h => (h₂.path h).trans (h₁.path h), fun p hp => ?_⟩
    exact (h₂.content p (by rw [h₁.path]; exact hp)).trans (h₁.content p hp)

theorem readable_aimed (g : Handle) : Readable (σ := Volume) (Aimed g) (· ≠ .corruptState) where
  fault _ := id
  readFile h offset count s :=
    ⟨rfl, fun h' => (s.store.spares_read (h := h') (p := s.dataPath) h offset count).path,
      fun p _ => (s.store.spares_read (h := h) (p := p) h offset count).content⟩
  window _ _ := ⟨rfl, fun _ => rfl, fun _ _ => rfl⟩

theorem writeFile_aimed (g : Handle) (offset : Nat) (b : UInt8) :
    Works (Aimed g) (· ≠ .corruptState) (writeFile g offset #[b] : Access Volume Nat) := by
  intro s
  cases hg : s.store.pathOf? g with
  | none =>
    have hstore : (s.store.write g offset #[b]).2 = s.store := by
      unfold Volume.write
      rw [hg]
    refine ⟨rfl, fun h => ?_, fun p _ => ?_⟩
    · exact congrArg (·.pathOf? h) hstore
    · exact congrArg (·.content? p) hstore
  | some x =>
    have honly := Volume.write_onlyAt hg offset #[b]
    refine ⟨rfl, honly.pathOf?, fun p hp => ?_⟩
    have hne : p ≠ x := by
      rintro rfl
      exact hp hg
    exact (honly.spares (h := g) hne).content

end AddressSpace

namespace Turn

/-- The path that a text in memory stands for. -/
def pathAt? (t : Turn Volume) (address : UInt16) : Option Path :=
  match readPath address t with
  | .ok path _ => path
  | .error _ _ => none

/-- What a system call writes to or resizes. -/
def target? (t : Turn Volume) : Syscall → CallArgs → Option Path
  | .write, args => t.kernel.store.pathOf? ⟨args.a⟩
  | .resizeFile, args => t.pathAt? args.a
  | _, _ => none

/-- The next step does not write to the backing file of a living process, nor resizes it. -/
def sparesBackings (t : Turn Volume) : Bool :=
  match t.call? with
  | some (call, args) => !(t.atCall.target? call args).any t.atCall.kernel.keepsAt
  | none => true

namespace OnDuty

variable {t : Turn Volume}

theorem backingPath_ne (h : t.OnDuty) {x : Path} (hx : t.kernel.keepsAt x = false) :
    t.self.backingPath ≠ x := by
  obtain ⟨p, hp, -⟩ := h.seat
  rw [h.place]
  exact Kernel.backingPath_ne hx hp

/-- Something happens at a path where nobody's backing file belongs. -/
theorem onlyAt (h : t.OnDuty) {x : Path} {s : Volume} (hs : OnlyAt x t.kernel.store s)
    (hx : t.kernel.keepsAt x = false) : OnDuty { t with kernel := { t.kernel with store := s } } :=
  h.stored (h.sound.onlyAt hs fun hp _ => Kernel.backingPath_ne hx hp)
    (hs.spares (h.backingPath_ne hx))

theorem setSpace_aimed (h : t.OnDuty) {g : Handle} {s : AddressSpace Volume}
    (hs : AddressSpace.Aimed g t.space s)
    (hg : ∀ x, t.kernel.store.pathOf? g = some x → t.kernel.keepsAt x = false) :
    OnDuty (t.setSpace s) := by
  have hspares {b : Handle} {p : Path} (hp : ∀ x, t.kernel.keepsAt x = false → p ≠ x) :
      Spares b p t.kernel.store s.store :=
    ⟨hs.path b, hs.content p fun he => hp p (hg p he) rfl⟩
  have hsound : Sound (Demands.strict.set t.self.pid none) { t.kernel with store := s.store } :=
    h.sound.stored (fun _ hpath => (hs.path _).symm.trans hpath) fun hp _ =>
      hspares fun x hx => Kernel.backingPath_ne hx hp
  have hstored := h.stored hsound (hspares fun x hx => h.backingPath_ne hx)
  have hfiller : s.filler = t.kernel.filler := by
    rw [hs.rest]
    rfl
  have hlength : s.dataLength = t.self.state.dataLength := by
    rw [hs.rest]
    rfl
  rw [Turn.setSpace, hfiller, hlength]
  exact domestic.window _ s.window hstored

/-! ## System calls -/

theorem writeCall (g : Handle) (offset buffer length : UInt16) :
    Ensures (fun t => t.OnDuty ∧ ∀ x, t.kernel.store.pathOf? g = some x → t.kernel.keepsAt x = false)
      (Turn.writeCall g offset buffer length : Attempt Volume Reply) (fun _ => OnDuty)
      fun f => Leaves (.faulted f) := by
  have hsend := (AddressSpace.readable_aimed g).send (AddressSpace.writeFile_aimed g) offset.toNat
    buffer length.toNat
  unfold Turn.writeCall
  refine .bind (Q := fun _ => OnDuty) ?_ fun _ => .pure fun _ => id
  rintro t ⟨h, hg⟩
  have hwork := access_works (R := fun t t' => ∃ s, t' = t.setSpace s ∧ AddressSpace.Aimed g t.space s)
    hsend (fun t s hs => ⟨s, rfl, hs⟩) t
  refine hwork.mono ?_ ?_
  · rintro _ _ ⟨s, rfl, hs⟩
    exact h.setSpace_aimed hs hg
  · rintro f _ ⟨hf, s, rfl, hs⟩
    exact ⟨hf, (h.setSpace_aimed hs hg).sound⟩

theorem readPath_at (address : UInt16) (t : Turn Volume) (h : t.OnDuty)
    (hx : ∀ x, t.pathAt? address = some x → t.kernel.keepsAt x = false) :
    Yields (Turn.readPath address t)
      (fun found t' => t'.OnDuty ∧ ∀ x, found = some x → t'.kernel.keepsAt x = false)
      fun f => Leaves (.faulted f) := by
  have hread := domestic.readPath address t
  have hquiet := (domestic_quiet.readPath address).keeps t
  cases hr : (Turn.readPath address : Attempt Volume (Option Path)) t with
  | error f t' =>
    rw [hr] at hread
    exact ⟨hread.1, (hread.2 h).sound⟩
  | ok found t' =>
    rw [hr] at hread
    rw [after_ok hr] at hquiet
    refine ⟨hread h, fun x hfound => ?_⟩
    have hat : t.pathAt? address = some x := by
      rw [pathAt?, hr]
      exact hfound
    have hkernel := hquiet.kernel.rest
    have hkeeps : t'.kernel.keepsAt x = t.kernel.keepsAt x := by
      rw [hkernel]
      rfl
    rw [hkeeps]
    exact hx x hat

theorem resizeCall (address size : UInt16) :
    Ensures (fun t => t.OnDuty ∧ ∀ x, t.pathAt? address = some x → t.kernel.keepsAt x = false)
      (Turn.resizeCall address size : Attempt Volume Reply) (fun _ => OnDuty)
      fun f => Leaves (.faulted f) := by
  unfold Turn.resizeCall
  refine .bind (fun t ht => readPath_at address t ht.1 ht.2) fun found => ?_
  split
  · exact .pure fun _ h => h.1
  · next x =>
    refine .bind (Q := fun _ t => t.OnDuty ∧ t.kernel.keepsAt x = false) ?_ fun there => ?_
    · exact .get_bind fun _ h => .pure fun _ h => ⟨h.1, h.2 x rfl⟩
    · split
      · exact .bind (.modifyGet fun t h => h.1.onlyAt (t.kernel.store.resize_onlyAt x _) h.2) fun _ =>
          .pure fun _ => id
      · exact .bind (.modifyGet fun t h => h.1.onlyAt (t.kernel.store.create_onlyAt x _) h.2) fun _ =>
          .pure fun _ => id

theorem setWorkDir (address : UInt16) :
    Works (Stays OnDuty) (· ≠ .corruptState) (Turn.setWorkDir address : Attempt Volume Reply) := by
  unfold Turn.setWorkDir
  refine .bind (domestic.readPath address) fun found => ?_
  split
  · exact .pure _
  · next p =>
    split
    · next hsize =>
      refine .bind (.modify fun t h => ?_) fun _ => .pure _
      have htext : p.text.toList.length ≤ Snapshot.textSize := by
        have hencode := (Utf8.length_encode p.chars).1
        rw [Path.size] at hsize
        rw [Path.text, String.toList_ofList]
        omega
      exact ⟨h.toTended.within rfl rfl
        ⟨h.neat.args, h.neat.compact, htext, h.neat.searchPath⟩, h.active⟩
    · exact .pure _

theorem setSearchPath (address : UInt16) :
    Works (Stays OnDuty) (· ≠ .corruptState) (Turn.setSearchPath address : Attempt Volume Reply) := by
  unfold Turn.setSearchPath
  refine .bind (domestic.access (domestic.memory.readText address _)) fun raw => ?_
  split
  · next hlength =>
    refine .bind (.modify fun t h => ?_) fun _ => .pure _
    have htext : (String.ofList (Utf8.decodeLossy raw)).toList.length ≤ Snapshot.textSize := by
      have hdecode := Utf8.length_decodeLossy raw
      rw [String.toList_ofList]
      omega
    exact ⟨h.toTended.within rfl rfl
      ⟨h.neat.args, h.neat.compact, h.neat.workDir, htext⟩, h.active⟩
  · exact .pure _

/-- The address of an argument stays in range. -/
theorem readArgument {offset count : Nat} (hrange : offset + count ≤ 0x8000) :
    Ensures OnDuty (Turn.readArgument offset count : InTurn Volume (List UInt8)) (fun _ => OnDuty)
      Leaves := by
  induction count generalizing offset with
  | zero => exact .pure fun _ => id
  | succ count ih =>
    have hdata : dataStart.toNat = 0x8000 := rfl
    unfold Turn.readArgument
    refine .get_bind fun t h => ?_
    split
    · exact .pure fun _ => id
    · dsimp only
      split
      · omega
      · refine .bind (lift (domestic.access (domestic.memory.read _))) fun b => ?_
        split
        · exact .pure fun _ => id
        · exact .bind (ih (by omega)) fun _ => .pure fun _ => id

theorem argument (n buffer : UInt16) :
    Ensures OnDuty (Turn.argument n buffer : InTurn Volume Reply) (fun _ => OnDuty) Leaves := by
  unfold Turn.argument
  refine .get_bind fun t h => ?_
  dsimp only
  split
  · exact .pure fun _ => id
  · split
    · exact .pure fun _ => id
    · next offset hoffset =>
      have hlow := h.neat.compact _ offset hoffset
      have hlimit : textLimit = 64 := rfl
      refine .bind (readArgument (by omega)) fun arg => ?_
      exact .bind (lift (domestic.access (domestic.memory.writeBytes _ _))) fun _ => .pure fun _ => id

theorem answer (call : Syscall) (args : CallArgs) :
    Ensures (fun t => t.OnDuty ∧ ∀ x, t.target? call args = some x → t.kernel.keepsAt x = false)
      (Turn.answer call args : InTurn Volume Reply) (fun _ => OnDuty) Leaves := by
  cases hd : call.isDomestic with
  | true =>
    intro t ht
    have hanswer := domestic.answer hd args (fun _ _ _ => trivial) t
    exact hanswer.mono (fun _ _ hr => hr ht.1) fun e t' hr => leaves_of_fault hr.1 (hr.2 ht.1)
  | false =>
    have hduty {act : InTurn Volume Reply} (hact : Ensures OnDuty act (fun _ => OnDuty) Leaves) :
        Ensures (fun t => t.OnDuty ∧ ∀ x, t.target? call args = some x → t.kernel.keepsAt x = false)
          act (fun _ => OnDuty) Leaves := hact.mono (fun _ h => h.1) (fun _ _ => id) fun _ _ => id
    cases call
    case exit => exact hduty (exit _)
    case argument => exact hduty (argument _ _)
    case fork => exact hduty fork
    case exec => exact hduty (execCall _)
    case waitPid => exact hduty (waitPid _ _)
    case kill => exact hduty (killCall _)
    case read => exact hduty (readCall _ _ _ _)
    case write => exact .adaptExcept (writeCall ⟨args.a⟩ _ _ _)
    case openFile => exact hduty (lift (openCall _))
    case close =>
      refine hduty (.adaptExcept ((closeCall ⟨args.a⟩).mono (fun _ => id) (fun _ _ => id) ?_))
      exact fun _ _ => False.elim
    case resizeFile => exact .adaptExcept (resizeCall args.a _)
    case delete => exact hduty (lift (deleteCall _))
    case setWorkDir => exact hduty (lift (setWorkDir _))
    case setSearchPath => exact hduty (lift (setSearchPath _))
    case sendSignal => exact hduty (sendSignal _ _)
    all_goals cases hd

/-! ## Steps -/

/-- A process that leaves the backing files of others alone stays on duty, or leaves as it should. -/
theorem step (h : t.OnDuty) (hspares : t.sparesBackings) :
    Yields (Turn.step t) (fun _ => OnDuty) Leaves := by
  have hcount : ∀ (t : Turn Volume) pid,
      Stays OnDuty t { t with kernel := t.kernel.onTable (·.addCount pid) } := fun _ pid h => h.addCount pid
  have hcalled : ∀ (t : Turn Volume) pid selector a b c d,
      Stays OnDuty t { t with kernel := t.kernel.note (.called pid selector a b c d) } :=
    fun _ _ _ _ _ _ _ h => h.note fun _ => nofun
  unfold sparesBackings at hspares
  cases hcall : t.call? with
  | none =>
    exact (domestic.step hcount hcalled hcall).mono (fun _ _ hr => hr h) fun e t' hr =>
      leaves_of_fault hr.1 (hr.2 h)
  | some callArgs =>
    obtain ⟨call, args⟩ := callArgs
    rw [hcall] at hspares
    have hat : t.atCall.OnDuty := domestic.atCall hcount hcalled hcall h
    have htarget : ∀ x, t.atCall.target? call args = some x → t.atCall.kernel.keepsAt x = false := by
      intro x hx
      dsimp only at hspares
      rw [hx] at hspares
      simpa using hspares
    rw [(step_call_cases hcall).2.2]
    refine Ensures.bind (answer call args) (fun reply => ?_) t.atCall ⟨hat, htarget⟩
    cases reply with
    | none => exact .pure fun _ => id
    | some result => exact .modify fun _ h => domestic.state _ _ rfl rfl rfl h

end OnDuty

end Turn

end CoopKernel
