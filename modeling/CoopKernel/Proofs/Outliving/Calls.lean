import CoopKernel.Proofs.Dealings
import CoopKernel.Proofs.Outliving.Lasting

/-!
# System calls and those who live by

Whatever a process does by a call that ends, doubles, kills and signals nobody, the others keep their places,
and what is in the backing file of another process stays as it is unless the call is aimed at it. By the other
calls it reaches other processes: some end, and one is sent into a handler. The first process cannot be killed
by these, and is lost to a signal exactly if it stumbles over it.
-/

namespace CoopKernel

open Volume (OnlyAt Spares)

namespace Neighbour

variable {n : Neighbour} {program backing : Handle} {t : Turn Volume} {α : Type}

/-! ## Exchanging the program -/

/-- The process lives by the one whose turn it is, which has the two files open. -/
def Beside (n : Neighbour) (program backing : Handle) (t : Turn Volume) : Prop :=
  n.LivesBy t ∧ t.self.program = program ∧ t.self.backing = backing

namespace Beside

theorem domestic (n : Neighbour) (program backing : Handle) :
    Turn.Domestic AddressSpace.Secluded (Stays (n.Beside program backing)) fun _ => True where
  memory := AddressSpace.tame_secluded
  space t s hs h := ⟨(LivesBy.domestic n).space t s hs h.1, h.2⟩
  glance t g offset count h := ⟨(LivesBy.domestic n).glance t g offset count h.1, h.2⟩
  window t w h := ⟨(LivesBy.domestic n).window t w h.1, h.2⟩
  state t s henv hlength hhandlers h := ⟨(LivesBy.domestic n).state t s henv hlength hhandlers h.1, h.2⟩
  handler t signal address hset h := ⟨(LivesBy.domestic n).handler t signal address hset h.1, h.2⟩
  stdio t g h := ⟨(LivesBy.domestic n).stdio t g h.1, h.2⟩

/-- The process writes to its own backing file. -/
theorem writeFile (offset : Nat) (bytes : Bytes) : Ensures (n.Beside program backing)
    (Turn.access (AddressSpace.writeFile backing offset bytes) : Attempt Volume Nat)
    (fun _ => n.Beside program backing) fun _ => n.Beside program backing := by
  intro t h
  have hwrite := AddressSpace.writeFile_secluded (s := t.space) h.2.2.symm offset bytes t.space
    (refl_of AddressSpace.Secluded t.space)
  unfold Turn.access
  cases hr : AddressSpace.writeFile backing offset bytes t.space with
  | ok count s =>
    rw [hr] at hwrite
    exact (domestic n program backing).space t s hwrite h
  | error f s =>
    rw [hr] at hwrite
    exact (domestic n program backing).space t s hwrite h

/-- The process takes over a program, and closes the old one unless somebody else runs it. -/
theorem program_replaced (h : n.Beside program backing t) (hne : program ≠ backing) (new : Handle) :
    n.Beside program backing { t with
      kernel := (t.kernel.onTable (·.setProgram t.self.pid new)).releaseProgram t.self.pid t.self.program } := by
  obtain ⟨hlives, rfl, rfl⟩ := h
  have hset : n.LivesBy { t with kernel := t.kernel.onTable (·.setProgram t.self.pid new) } := by
    have hmodified := hlives.modified (f := fun p => { p with program := new }) fun _ => rfl
    rw [← hlives.turn] at hmodified
    exact hmodified
  refine ⟨?_, rfl, rfl⟩
  unfold Kernel.releaseProgram
  split
  · exact hset
  · next hunused =>
    have hother {g : Handle} (hg : n.entry.program = g ∨ n.entry.backing = g) : t.self.program ≠ g := by
      rintro rfl
      have hpid : n.pid ≠ t.self.pid := hlives.turn ▸ hlives.apart
      exact hunused (Table.usedByOther_iff.mpr ⟨n.pid, n.entry, hpid, hset.seat, hg⟩)
    refine hset.stored (fun g hg => (Volume.spares_close (p := n.home) ?_).path) fun _ => rfl
    rcases hg with rfl | rfl | rfl
    · exact hother (.inl rfl)
    · exact hother (.inr rfl)
    · exact hne

theorem replaceProgram (hne : program ≠ backing) (path : Path) (new : Handle) (args : List (List UInt8)) :
    Ensures (n.Beside program backing) (Turn.replaceProgram path new args : Attempt Volume Unit)
      (fun _ => n.LivesBy) fun _ => n.LivesBy := by
  have d := domestic n new backing
  unfold Turn.replaceProgram
  refine .get_bind_eq fun t h => ?_
  have hreplaced := h.program_replaced hne new
  have hbacking := h.2.2
  dsimp only
  generalize (Utf8.encode path.chars :: args).take maxArguments = kept
  have hrest : Ensures (n.Beside new backing) (do
      if !(← Turn.access (AddressSpace.resizeData (Arguments.layout 0 kept).data.length)) then throw .storage
      let count ← Turn.access (AddressSpace.writeFile t.self.backing Snapshot.blockSize
        (Arguments.layout 0 kept).data.toArray)
      if count ≠ (Arguments.layout 0 kept).data.length then throw .storage
      Turn.note (.executes t.self.pid path) : Attempt Volume Unit) (fun _ => n.LivesBy) fun _ => n.LivesBy := by
    have hresize := (d.access (.of_keeps (AddressSpace.resizeData_secluded
      (Arguments.layout 0 kept).data.length) fun _ => trivial)).keeps
    rw [hbacking]
    refine .bind ((Ensures.of_keeps hresize fun _ _ hs h => hs h).mono (fun _ => id) (fun _ _ => id)
      fun _ _ h => h.1) fun fits => ?_
    split
    · exact .throw_bind fun _ h => h.1
    · refine .bind ((writeFile _ _).mono (fun _ => id) (fun _ _ => id) fun _ _ h => h.1) fun count => ?_
      split
      · exact .throw_bind fun _ h => h.1
      · exact .modify fun _ h => h.1.note _
  rintro t' rfl
  have hrestarted : n.Beside new backing { t' with
      kernel := (t'.kernel.onTable (·.setProgram t'.self.pid new)).releaseProgram t'.self.pid t'.self.program
      self := { t'.self with
        program := new, window := Window.closed
        state := t'.self.state.restart kept.length (Arguments.layout 0 kept) } } :=
    ⟨hreplaced.1.congr rfl rfl (fun p hp => ⟨p, hp, rfl⟩) rfl, rfl, hbacking⟩
  exact hrest _ hrestarted

theorem openProgram (name : List UInt8) : Keeps (Stays (n.Beside program backing))
    (Turn.openProgram name : Attempt Volume (Option (Path × Handle))) := by
  have hwork := Turn.Indifferent.openProgram (R := Stays (n.Beside program backing)) (E := fun _ => True)
    (fun t p h => ⟨h.1.stored (fun _ hg => (Volume.spares_openPath (p := n.home) p (h.1.isOpen hg)).path)
      fun _ => (Volume.spares_openPath p (h.1.isOpen (.inr (.inl rfl)))).content, h.2⟩) name
  exact hwork.keeps

theorem execCall (hne : program ≠ backing) (args : CallArgs) : Ensures (n.Beside program backing)
    (Turn.execCall args : InTurn Volume Reply) (fun _ => n.LivesBy) fun _ => n.LivesBy := by
  have d := domestic n program backing
  have hkept {β : Type} {act : Attempt Volume β} (h : Keeps (Stays (n.Beside program backing)) act) :
      Ensures (n.Beside program backing) act (fun _ => n.Beside program backing) fun _ => n.LivesBy :=
    (Ensures.of_keeps h fun _ _ hs h => hs h).mono (fun _ => id) (fun _ _ => id) fun _ _ h => h.1
  have hexec (name : List UInt8) (arguments : List (List UInt8)) : Ensures (n.Beside program backing)
      (Turn.exec name arguments : Attempt Volume Bool) (fun _ => n.LivesBy) fun _ => n.LivesBy := by
    unfold Turn.exec
    refine .bind (hkept (openProgram name)) fun found => ?_
    split
    · exact .pure fun _ h => h.1
    · exact .bind (replaceProgram hne _ _ _) fun _ => .pure fun _ => id
  unfold Turn.execCall
  refine .bind (Ensures.adaptExcept (hkept (d.readText _).keeps)) fun name => ?_
  refine .bind (Ensures.adaptExcept (hkept (d.readArguments _).keeps)) fun arguments => ?_
  refine .bind (Ensures.adaptExcept (hexec name arguments)) fun done => ?_
  split
  · exact .throw_bind fun _ => id
  · exact .pure fun _ => id

end Beside

namespace LivesBy

theorem waitPid (target timeout : UInt16) :
    Keeps (Stays n.LivesBy) (Turn.waitPid target timeout : InTurn Volume Reply) := by
  unfold Turn.waitPid
  intro t h
  rw [after, get_bind, ← after]
  dsimp only
  split
  · exact h
  · next other _ =>
    split
    · exact h
    · let status : Status :=
        .waitingForExit other (if timeout = 0 then none else some (t.kernel.clock.after timeout))
      have hasleep := h.modified (f := fun p => { p with status := status }) fun _ => rfl
      rw [← h.turn] at hasleep
      exact hasleep.note _

/-- A call by which the process ends, doubles, kills and signals nobody leaves the others in their places, and
the backing file of another one as it is unless it is aimed at that. -/
theorem answerUndealt {call : Syscall} (hd : call.isDealing = false) (args : CallArgs) :
    Ensures (fun t => n.LivesBy t ∧ t.self.program ≠ t.self.backing ∧
        (n.content.isSome → t.target? call args ≠ some n.home))
      (Turn.answer call args : InTurn Volume Reply) (fun _ => n.LivesBy) fun _ => n.LivesBy := by
  have d := domestic n
  have hkept {act : InTurn Volume Reply} (hact : Keeps (Stays n.LivesBy) act) :
      Ensures (fun t => n.LivesBy t ∧ t.self.program ≠ t.self.backing ∧
        (n.content.isSome → t.target? call args ≠ some n.home)) act (fun _ => n.LivesBy) fun _ => n.LivesBy :=
    (Ensures.of_keeps hact fun _ _ hs h => hs h).mono (fun _ h => h.1) (fun _ _ => id) fun _ _ => id
  have henv (t : Turn Volume) (env : Environment) :
      Stays n.LivesBy t { t with self := { t.self with state := { t.self.state with env } } } :=
    fun h => h.congr rfl rfl (fun p hp => ⟨p, hp, rfl⟩) rfl
  by_cases hfiles : 256 ≤ call.number ∧ call.number ≤ 267
  · exact (answer hfiles args).mono (fun _ h => ⟨h.1, h.2.2⟩) (fun _ _ => id) fun _ _ => id
  · cases hdomestic : call.isDomestic with
    | true => exact hkept (d.answer hdomestic args fun _ _ _ => trivial).keeps
    | false =>
      cases call
      case argument => exact hkept (d.argument _ _).keeps
      case waitPid => exact hkept (waitPid _ _)
      case setWorkDir => exact hkept (Turn.lift_works (d.setWorkDir henv _)).keeps
      case setSearchPath => exact hkept (Turn.lift_works (d.setSearchPath henv _)).keeps
      case exec =>
        rintro t ⟨h, hne, -⟩
        exact Beside.execCall hne args t ⟨h, rfl, rfl⟩
      all_goals first | (cases hd; done) | (cases hdomestic; done) | exact absurd (by decide) hfiles

end LivesBy

end Neighbour

end CoopKernel
