import CoopKernel.Kernel.Schedule
import CoopKernel.Proofs.Effect
import CoopKernel.Proofs.Storage.Steady

/-!
# Runs

A run is what becomes of a kernel under the calls of its host, in whatever order they come. It is told
as a list of moments, each of which is one thing that the kernel does: it obeys a call, counts a tick,
resumes a process, has it take a step or ends its turn. Each moment begins with the kernel that the
one before left behind, so that nothing happens in between.

What is to hold all through a run is shown by `Upkeep`: one proof for each kind of moment.
-/

namespace CoopKernel

/-- A change that a host makes to a storage by itself. Nothing is opened or closed by it, and a file
that is open stays a file. -/
structure HostEdit (σ : Type) [Storage σ] [VolumeBacked σ] where
  apply : σ → σ
  steady : ∀ s, Volume.Steady (VolumeBacked.volume s) (VolumeBacked.volume (apply s))

namespace HostEdit

/-- What a host can do to a volume other than opening and closing. -/
def mkdir (p : Path) : HostEdit Volume :=
  ⟨fun v => (v.mkdir p).2, fun v => v.steady_mkdir p⟩

def addFile (p : Path) (content : Bytes) : HostEdit Volume :=
  ⟨fun v => (v.addFile p content).2, fun v => v.steady_addFile p content⟩

def addDevice (p : Path) (device : Device) : HostEdit Volume :=
  ⟨fun v => (v.addDevice p device).2, fun v => v.steady_addDevice p device⟩

def addWire : HostEdit Volume :=
  ⟨fun v => v.addWire.2, fun _ => .of_content rfl fun _ _ => id⟩

def modifyWire (i : Nat) (f : Wire → Wire) : HostEdit Volume :=
  ⟨fun v => v.modifyWire i f, fun _ => .of_content rfl fun _ _ => id⟩

def setCapacity (capacity : Option Nat) : HostEdit Volume :=
  ⟨fun v => v.setCapacity capacity, fun _ => .of_content rfl fun _ _ => id⟩

/-- A host can do through the storage interface what the kernel can. -/
def call {σ : Type} [Storage σ] [VolumeBacked σ] (act : σ → σ) (h : ∀ s, Storage.Edit s (act s)) :
    HostEdit σ :=
  ⟨act, fun s => VolumeBacked.steady_edit (h s)⟩

/-- What can be done to a storage can be done to it while its calls are made to fail. -/
def faulty {σ : Type} [Storage σ] [VolumeBacked σ] (e : HostEdit σ) : HostEdit (Faulty σ) :=
  ⟨fun f => { f with store := e.apply f.store }, fun f => e.steady f.store⟩

/-- The host decides anew which calls are refused. -/
def refuse {σ : Type} [Storage σ] [VolumeBacked σ] (policy : Policy) : HostEdit (Faulty σ) :=
  ⟨fun f => { f with refuses := policy }, fun _ => refl_of Volume.Steady _⟩

end HostEdit

/-- What the host of a kernel can do. -/
inductive HostCall (σ : Type) [Storage σ] [VolumeBacked σ] where
  | spawn (program : String)
  | kill (pid : Pid) (status : UInt16)
  | sendSignal (pid : Pid) (signal : Signal)
  /-- Asks for the snapshot of a process. -/
  | inspect (pid : Pid)
  | setClock (clock : Clock)
  | configure (settings : Settings)
  /-- Opens something for itself. -/
  | openPath (path : Path)
  | close (handle : Handle)
  | edit (change : HostEdit σ)
  | tick
  | runUntilIdle (most : Nat)

/-- The process goes on after a turn that ended like this, and is saved. -/
def TurnEnd.isSaved : TurnEnd → Bool
  | yielded | blocked => true
  | _ => false

namespace Kernel

variable {σ : Type} [Storage σ]

omit [Storage σ] in
/-- In the beginning there are no processes. -/
theorem process?_new (s : σ) (settings : Settings) (entropy : UInt64) (pid : Pid) :
    (new s settings entropy).table.process? pid = none := by
  simp only [new, Table.process?, Table.slot, Fin.getElem_fin, Vector.getElem_replicate]
  rfl

/-! ## Turns in parts -/

/-- The turn that a process is given, or the kernel after the process died of being loaded. -/
def openTurn (k : Kernel σ) (pid : Pid) (why : Resumption) : Except (Kernel σ) (Turn σ) :=
  match k.load pid with
  | (.error f, k) => .error (k.fault pid f)
  | (.ok self, k) =>
    let t := k.resume self why
    .ok { t with kernel := t.kernel.onTable (·.setStatus pid .active) }

/-- The kernel after the steps of a turn were taken with the given outcome. -/
def closeTurn : EStateM.Result TurnEnd (Turn σ) Unit → Kernel σ
  | .ok () t => endTurn t none
  | .error e t => endTurn t (some e)

/-- A process that goes on is saved, or killed if that fails. -/
theorem endTurn_none_cases (t : Turn σ) :
    ((t.kernel.save t.self).1 = true ∧ endTurn t none = (t.kernel.save t.self).2) ∨
      ((t.kernel.save t.self).1 = false ∧
        endTurn t none = (t.kernel.save t.self).2.fault t.self.pid .storage) := by
  unfold endTurn
  rcases t.kernel.save t.self with ⟨_ | _, k⟩
  · exact .inr ⟨rfl, rfl⟩
  · exact .inl ⟨rfl, rfl⟩

theorem runTurn_eq (k : Kernel σ) (pid : Pid) (why : Resumption) :
    k.runTurn pid why =
      match k.openTurn pid why with
      | .error k => k
      | .ok t => closeTurn (Turn.steps t.kernel.settings.budget.toNat t) := by
  unfold runTurn openTurn
  rcases k.load pid with ⟨loaded, k'⟩
  cases loaded with
  | error f => rfl
  | ok self =>
    dsimp only
    split <;> next h => simp only [h, closeTurn]

end Kernel

section Runs

variable {σ : Type} [Storage σ] [VolumeBacked σ]

namespace HostCall

/-- The kernel after a call. -/
def run (k : Kernel σ) : HostCall σ → Kernel σ
  | spawn program => (k.spawn program).2
  | kill pid status => (k.kill pid status).2
  | sendSignal pid signal => (k.sendSignal pid signal).2
  | inspect pid => (k.snapshot? pid).2
  | setClock clock => { k with clock }
  | configure settings => { k with settings }
  | openPath path => { k with store := (Storage.openPath k.store path).2 }
  | close handle => { k with store := Storage.close k.store handle }
  | edit change => { k with store := change.apply k.store }
  | tick => k.tick
  | runUntilIdle most => (k.runUntilIdle most).2

/-- The kernel after some calls, one after the other. -/
def runAll (k : Kernel σ) (calls : List (HostCall σ)) : Kernel σ :=
  calls.foldl run k

/-- The call is not one for ticks. -/
def isDirect : HostCall σ → Bool
  | tick | runUntilIdle _ => false
  | _ => true

/-- The call does not close what a living process runs or is kept in. -/
def spares (k : Kernel σ) : HostCall σ → Bool
  | close handle => !k.table.live.any (k.table.uses handle)
  | _ => true

/-- None of the calls closes what a living process runs or is kept in. -/
def allSpare : Kernel σ → List (HostCall σ) → Bool
  | _, [] => true
  | k, call :: calls => call.spares k && allSpare (call.run k) calls

end HostCall

/-- One thing that a kernel does in a run. -/
inductive Moment (σ : Type) [Storage σ] [VolumeBacked σ] where
  /-- It obeys a call that is not one for ticks. -/
  | obeyed (k : Kernel σ) (call : HostCall σ)
  /-- It counts a tick. -/
  | counted (k : Kernel σ)
  /-- It gives a process a turn. -/
  | resumed (k : Kernel σ) (pid : Pid) (why : Resumption)
  /-- It has the process whose turn it is take a step. -/
  | stepped (t : Turn σ)
  /-- It ends a turn. -/
  | ended (t : Turn σ) (how : Option TurnEnd)

namespace Moment

/-- The kernel at the beginning of a moment. -/
def before : Moment σ → Kernel σ
  | obeyed k _ | counted k | resumed k _ _ => k
  | stepped t | ended t _ => t.kernel

/-- The kernel at the end of a moment. -/
def after : Moment σ → Kernel σ
  | obeyed k call => call.run k
  | counted k => k.countTick
  | resumed k pid why =>
    match k.openTurn pid why with
    | .error k => k
    | .ok t => t.kernel
  | stepped t => (CoopKernel.after Turn.step t).kernel
  | ended t how => Kernel.endTurn t how

end Moment

/-! ## The course of a run -/

namespace Turn

/-- The moments of a turn that has the given number of steps left. -/
def course : Nat → Turn σ → List (Moment σ)
  | 0, t => [.ended t none]
  | n + 1, t =>
    .stepped t ::
      match step t with
      | .ok () t => course n t
      | .error e t => [.ended t (some e)]

end Turn

namespace Kernel

/-- The moments of a turn. -/
def turnCourse (k : Kernel σ) (pid : Pid) (why : Resumption) : List (Moment σ) :=
  .resumed k pid why ::
    match k.openTurn pid why with
    | .error _ => []
    | .ok t => t.course t.kernel.settings.budget.toNat

/-- The moments of the visit to a slot. -/
def visitCourse (k : Kernel σ) (pid : Pid) : List (Moment σ) :=
  if k.halted then []
  else
    match k.table.process? pid with
    | none => []
    | some p =>
      match k.resumption? p.status with
      | none => []
      | some why => k.turnCourse pid why

/-- The moments of visits to slots, one after the other. -/
def roundCourse (k : Kernel σ) : List Pid → List (Moment σ)
  | [] => []
  | pid :: pids => k.visitCourse pid ++ roundCourse (k.visit pid) pids

/-- The moments of a tick. -/
def tickCourse (k : Kernel σ) : List (Moment σ) :=
  if k.halted then [] else .counted k :: k.countTick.roundCourse Pid.all

/-- The moments of ticking until no process is alive. -/
def idleCourse (k : Kernel σ) : (most : Nat) → List (Moment σ)
  | 0 => []
  | most + 1 =>
    if k.halted || k.liveCount = 0 then [] else k.tickCourse ++ idleCourse k.tick most

end Kernel

namespace HostCall

/-- The moments of a call. -/
def course (k : Kernel σ) : HostCall σ → List (Moment σ)
  | tick => k.tickCourse
  | runUntilIdle most => k.idleCourse most
  | call => [.obeyed k call]

/-- The moments of some calls, one after the other. -/
def courseAll : Kernel σ → List (HostCall σ) → List (Moment σ)
  | _, [] => []
  | k, call :: calls => call.course k ++ courseAll (call.run k) calls

/-- A run comes by the kernel between two turns: when it gives a process one, or at the end. -/
def ComesBy (k : Kernel σ) (calls : List (HostCall σ)) (k' : Kernel σ) : Prop :=
  (∃ pid why, .resumed k' pid why ∈ courseAll k calls) ∨ k' = runAll k calls

/-- A run passes through a kernel: something happens that begins with it, or it is what the run ends with. -/
def PassesThrough (k : Kernel σ) (calls : List (HostCall σ)) (k' : Kernel σ) : Prop :=
  (∃ m ∈ courseAll k calls, m.before = k') ∨ k' = runAll k calls

end HostCall

/-- The turn in which a process takes a step at a moment. -/
def Moment.turn? : Moment σ → Option (Turn σ)
  | .stepped t => some t
  | _ => none

/-- Some step of a run is of a kind that can be checked. -/
theorem HostCall.exists_stepped (k : Kernel σ) (calls : List (HostCall σ)) (kind : Turn σ → Bool)
    (h : ((courseAll k calls).any fun m => m.turn?.any kind) = true) :
    ∃ t, .stepped t ∈ courseAll k calls ∧ kind t = true := by
  obtain ⟨m, hm, hkind⟩ := List.any_eq_true.mp h
  cases m with
  | stepped t => exact ⟨t, hm, hkind⟩
  | obeyed | counted | resumed | ended => cases hkind

/-! ## What holds all through a run -/

section Upkeep

variable {H : Type}

/-- Something holds at each of some moments, with what was recorded of the moments before. -/
def Along (record : H → Moment σ → H) (A : H → Moment σ → Prop) : H → List (Moment σ) → Prop
  | _, [] => True
  | h, m :: ms => A h m ∧ Along record A (record h m) ms

theorem Along.append {record : H → Moment σ → H} {A : H → Moment σ → Prop} {h : H}
    {ms ns : List (Moment σ)} (hm : Along record A h ms)
    (hn : Along record A (ms.foldl record h) ns) : Along record A h (ms ++ ns) := by
  induction ms generalizing h with
  | nil => exact hn
  | cons m ms ih => exact ⟨hm.1, ih hm.2 hn⟩

theorem Along.imp {record : H → Moment σ → H} {A B : H → Moment σ → Prop} {h : H}
    {ms : List (Moment σ)} (ha : Along record A h ms) (hAB : ∀ h m, A h m → B h m) :
    Along record B h ms := by
  induction ms generalizing h with
  | nil => trivial
  | cons m ms ih => exact ⟨hAB _ _ ha.1, ih ha.2⟩

theorem Along.at_split {record : H → Moment σ → H} {A : H → Moment σ → Prop} {h : H}
    {ms : List (Moment σ)} {m : Moment σ} {ns : List (Moment σ)}
    (ha : Along record A h (ms ++ m :: ns)) : A (ms.foldl record h) m := by
  induction ms generalizing h with
  | nil => exact ha.1
  | cons m' ms ih => exact ih ha.2

/-- What is known at a moment, from what is known of the kernel between turns and of the turn that is
going on, where the end of the turn is not yet decided or is. -/
def Known (I : H → Kernel σ → Prop) (J : Option TurnEnd → H → Turn σ → Prop) (h : H) :
    Moment σ → Prop
  | .obeyed k call => I h k ∧ call.isDirect ∧ call.spares k
  | .counted k => I h k
  | .resumed k pid why =>
    I h k ∧ ∃ p, k.table.process? pid = some p ∧ k.resumption? p.status = some why ∧ k.halted = false
  | .stepped t => J none h t
  | .ended t how => J how h t

/-- What is known at a moment even where the host closes what it should not. -/
def KnownOf (I : H → Kernel σ → Prop) (J : Option TurnEnd → H → Turn σ → Prop) (h : H) : Moment σ → Prop
  | .obeyed k call => I h k ∧ call.isDirect
  | m => Known I J h m

/-- What there is to show for something to hold all through ticks: every moment of a tick that begins with
it ends with it. -/
structure TickUpkeep (record : H → Moment σ → H) (I : H → Kernel σ → Prop)
    (J : Option TurnEnd → H → Turn σ → Prop) : Prop where
  counted : ∀ {h k}, I h k → I (record h (.counted k)) k.countTick
  resumed : ∀ {h k pid why}, Known I J h (.resumed k pid why) →
    match k.openTurn pid why with
    | .error k' => I (record h (.resumed k pid why)) k'
    | .ok t => J none (record h (.resumed k pid why)) t
  stepped : ∀ {h t}, J none h t →
    Yields (Turn.step t) (fun _ => J none (record h (.stepped t)))
      fun e => J (some e) (record h (.stepped t))
  ended : ∀ {h t how}, J how h t → I (record h (.ended t how)) (Kernel.endTurn t how)

/-- What there is to show for something to hold all through a run: every moment that begins with it
ends with it. -/
structure Upkeep (record : H → Moment σ → H) (I : H → Kernel σ → Prop)
    (J : Option TurnEnd → H → Turn σ → Prop) : Prop extends TickUpkeep record I J where
  obeyed : ∀ {h k call}, Known I J h (.obeyed k call) → I (record h (.obeyed k call)) (call.run k)

namespace Upkeep

variable {record : H → Moment σ → H} {I : H → Kernel σ → Prop}
  {J : Option TurnEnd → H → Turn σ → Prop} {h : H}

/-- Some moments can begin as recorded, and lead to a kernel for which it holds again. -/
def Carries (record : H → Moment σ → H) (I : H → Kernel σ → Prop)
    (J : Option TurnEnd → H → Turn σ → Prop) (h : H) (ms : List (Moment σ)) (k : Kernel σ) : Prop :=
  Along record (Known I J) h ms ∧ I (ms.foldl record h) k

theorem Carries.append {ms ns : List (Moment σ)} {k k' : Kernel σ}
    (hm : Carries record I J h ms k)
    (hn : ∀ h, I h k → Carries record I J h ns k') : Carries record I J h (ms ++ ns) k' := by
  obtain ⟨halong, hI⟩ := hm
  obtain ⟨halong', hI'⟩ := hn _ hI
  refine ⟨halong.append halong', ?_⟩
  rw [List.foldl_append]
  exact hI'

end Upkeep

namespace TickUpkeep

open Upkeep (Carries)

variable {record : H → Moment σ → H} {I : H → Kernel σ → Prop}
  {J : Option TurnEnd → H → Turn σ → Prop} {h : H} (u : TickUpkeep record I J)

include u

theorem turn {n : Nat} {t : Turn σ} (hJ : J none h t) :
    Carries record I J h (t.course n) (Kernel.closeTurn (Turn.steps n t)) := by
  induction n generalizing h t with
  | zero => exact ⟨⟨hJ, trivial⟩, u.ended hJ⟩
  | succ n ih =>
    have hstep := u.stepped hJ
    have hsteps : Turn.steps (n + 1) t = (Turn.step >>= fun _ => Turn.steps n) t := rfl
    rw [hsteps]
    simp only [Turn.course, bind, EStateM.bind]
    cases hs : Turn.step t with
    | ok _ t' =>
      rw [hs] at hstep
      obtain ⟨halong, hI⟩ := ih hstep
      exact ⟨⟨hJ, halong⟩, hI⟩
    | error e t' =>
      rw [hs] at hstep
      exact ⟨⟨hJ, hstep, trivial⟩, u.ended hstep⟩

theorem runTurn {k : Kernel σ} {pid : Pid} {why : Resumption}
    (hk : Known I J h (.resumed k pid why)) :
    Carries record I J h (k.turnCourse pid why) (k.runTurn pid why) := by
  have hopen := u.resumed hk
  rw [Kernel.runTurn_eq]
  unfold Kernel.turnCourse
  cases ho : k.openTurn pid why with
  | error k' =>
    rw [ho] at hopen
    exact ⟨⟨hk, trivial⟩, hopen⟩
  | ok t =>
    rw [ho] at hopen
    obtain ⟨halong, hI⟩ := u.turn (n := t.kernel.settings.budget.toNat) hopen
    exact ⟨⟨hk, halong⟩, hI⟩

theorem visit {k : Kernel σ} (hI : I h k) (pid : Pid) :
    Carries record I J h (k.visitCourse pid) (k.visit pid) := by
  have hstay : Carries record I J h [] k := ⟨trivial, hI⟩
  unfold Kernel.visitCourse Kernel.visit
  split
  · exact hstay
  · next hgoes =>
    cases hp : k.table.process? pid with
    | none => exact hstay
    | some p =>
      cases hwhy : k.resumption? p.status with
      | none => simpa only [hwhy] using hstay
      | some why =>
        have hknown : Known I J h (.resumed k pid why) := ⟨hI, p, hp, hwhy, Bool.not_eq_true _ ▸ hgoes⟩
        simpa only [hwhy] using u.runTurn hknown

theorem round {k : Kernel σ} (hI : I h k) (pids : List Pid) :
    Carries record I J h (k.roundCourse pids) (pids.foldl Kernel.visit k) := by
  induction pids generalizing h k with
  | nil => exact ⟨trivial, hI⟩
  | cons pid pids ih => exact (u.visit hI pid).append fun _ hI' => ih hI'

theorem tick {k : Kernel σ} (hI : I h k) : Carries record I J h k.tickCourse k.tick := by
  unfold Kernel.tickCourse Kernel.tick
  split
  · exact ⟨trivial, hI⟩
  · obtain ⟨halong, hI'⟩ := u.round (u.counted hI) Pid.all
    exact ⟨⟨hI, halong⟩, hI'⟩

theorem runUntilIdle {k : Kernel σ} (hI : I h k) (most : Nat) :
    Carries record I J h (k.idleCourse most) (k.runUntilIdle most).2 := by
  induction most generalizing h k with
  | zero => exact ⟨trivial, hI⟩
  | succ most ih =>
    unfold Kernel.idleCourse Kernel.runUntilIdle
    split
    · exact ⟨trivial, hI⟩
    · exact (u.tick hI).append fun _ hI' => ih hI'

/-- Where every call of the host that is not one for ticks keeps it, it is known at every moment, and holds in
the end. -/
theorem along_of (hobeyed : ∀ {h k} {call : HostCall σ}, I h k → call.isDirect →
      I (record h (.obeyed k call)) (call.run k))
    {k : Kernel σ} (hI : I h k) (calls : List (HostCall σ)) :
    Along record (KnownOf I J) h (HostCall.courseAll k calls) ∧
      I ((HostCall.courseAll k calls).foldl record h) (HostCall.runAll k calls) := by
  have hknown (h : H) (m : Moment σ) (hm : Known I J h m) : KnownOf I J h m := by
    cases m with
    | obeyed => exact ⟨hm.1, hm.2.1⟩
    | counted | resumed | stepped | ended => exact hm
  induction calls generalizing h k with
  | nil => exact ⟨trivial, hI⟩
  | cons c calls ih =>
    have hcall : Along record (KnownOf I J) h (c.course k) ∧ I ((c.course k).foldl record h) (c.run k) := by
      cases c with
      | tick =>
        obtain ⟨halong, hlast⟩ := u.tick hI
        exact ⟨halong.imp hknown, hlast⟩
      | runUntilIdle most =>
        obtain ⟨halong, hlast⟩ := u.runUntilIdle hI most
        exact ⟨halong.imp hknown, hlast⟩
      | spawn | kill | sendSignal | inspect | setClock | configure | openPath | close | edit =>
        exact ⟨⟨⟨hI, rfl⟩, trivial⟩, hobeyed hI rfl⟩
    obtain ⟨hrest, hlast⟩ := ih hcall.2
    rw [HostCall.courseAll, List.foldl_append]
    exact ⟨hcall.1.append hrest, hlast⟩

/-- Where every call of the host that is not one for ticks keeps it, it holds whenever a process is given a
turn, and in the end. -/
theorem holds_of (hobeyed : ∀ {h k} {call : HostCall σ}, I h k → call.isDirect →
      I (record h (.obeyed k call)) (call.run k))
    {k : Kernel σ} (hI : I h k) (calls : List (HostCall σ)) :
    Along record (fun h m => ∀ k pid why, m = .resumed k pid why → I h k) h
        (HostCall.courseAll k calls) ∧
      I ((HostCall.courseAll k calls).foldl record h) (HostCall.runAll k calls) := by
  obtain ⟨halong, hlast⟩ := u.along_of hobeyed hI calls
  refine ⟨halong.imp fun h m hm k pid why he => ?_, hlast⟩
  subst he
  exact hm.1

/-- Where every call of the host that is not one for ticks keeps it, it holds in the end. -/
theorem run_of (hobeyed : ∀ {h k} {call : HostCall σ}, I h k → call.isDirect →
      I (record h (.obeyed k call)) (call.run k))
    {k : Kernel σ} (hI : I h k) (calls : List (HostCall σ)) :
    I ((HostCall.courseAll k calls).foldl record h) (HostCall.runAll k calls) :=
  (u.holds_of hobeyed hI calls).2

end TickUpkeep

namespace Upkeep

variable {record : H → Moment σ → H} {I : H → Kernel σ → Prop}
  {J : Option TurnEnd → H → Turn σ → Prop} {h : H} (u : Upkeep record I J)

include u

theorem call {k : Kernel σ} {call : HostCall σ} (hI : I h k) (hc : call.spares k) :
    Carries record I J h (call.course k) (call.run k) := by
  cases call with
  | tick => exact u.tick hI
  | runUntilIdle most => exact u.runUntilIdle hI most
  | spawn | kill | sendSignal | inspect | setClock | configure | openPath | close | edit =>
    exact ⟨⟨⟨hI, rfl, hc⟩, trivial⟩, u.obeyed ⟨hI, rfl, hc⟩⟩

/-- What has upkeep and holds in the beginning is known at every moment and holds in the end. -/
theorem run {k : Kernel σ} {calls : List (HostCall σ)} (hI : I h k)
    (hc : HostCall.allSpare k calls) :
    Carries record I J h (HostCall.courseAll k calls) (HostCall.runAll k calls) := by
  induction calls generalizing h k with
  | nil => exact ⟨trivial, hI⟩
  | cons c calls ih =>
    simp only [HostCall.allSpare, Bool.and_eq_true] at hc
    exact (u.call hI hc.1).append fun _ hI' => ih hI' hc.2

end Upkeep

/-- What every turn starts with and every step keeps is so at every step of a run. -/
theorem HostCall.holds_of_stepped {P : Turn σ → Prop}
    (hopen : ∀ {k : Kernel σ} {pid why t}, k.openTurn pid why = .ok t → P t)
    (hstep : Keeps (Stays P) (Turn.step : InTurn σ Unit)) {k : Kernel σ} {calls : List (HostCall σ)} {t : Turn σ}
    (ht : .stepped t ∈ courseAll k calls) : P t := by
  have hkept : TickUpkeep (fun u _ => u) (fun (_ : Unit) (_ : Kernel σ) => True) fun _ _ t => P t := {
    counted := fun _ => trivial
    ended := fun _ => trivial
    resumed := by
      intro _ k pid why _
      cases ho : k.openTurn pid why with
      | error _ => trivial
      | ok t => exact hopen ho
    stepped := by
      intro _ t hP
      have hafter := hstep t hP
      cases hs : Turn.step t with
      | ok _ t' =>
        rw [after_ok hs] at hafter
        exact hafter
      | error _ t' =>
        rw [after_error hs] at hafter
        exact hafter }
  obtain ⟨before, later, hsplit⟩ := List.append_of_mem ht
  have halong := (hkept.along_of (h := ()) (fun _ _ => trivial) (k := k) trivial calls).1
  rw [hsplit] at halong
  exact halong.at_split

/-! ## Nothing happens in between -/

/-- What the kernel is at the end of a moment is what it is at the beginning of the next. -/
theorem upkeep_after :
    Upkeep (fun _ m => m.after) (fun k k' : Kernel σ => k = k') (fun _ k t => k = t.kernel) where
  obeyed _ := rfl
  counted _ := rfl
  resumed := by
    intro h k pid why _
    cases ho : k.openTurn pid why <;> simp only [Moment.after, ho]
  stepped := by
    intro h t _
    cases hs : Turn.step t <;> simp only [Moment.after, CoopKernel.after, Yields, hs]
  ended _ := rfl

/-- The moments of a run lead without a gap from the first kernel to the last. -/
theorem course_linked {k : Kernel σ} {calls : List (HostCall σ)} (hc : HostCall.allSpare k calls) :
    Along (fun _ m => m.after) (fun k m => m.before = k) k (HostCall.courseAll k calls) ∧
      (HostCall.courseAll k calls).foldl (fun _ m => m.after) k = HostCall.runAll k calls := by
  obtain ⟨halong, hlast⟩ := upkeep_after.run (h := k) rfl hc
  refine ⟨halong.imp ?_, hlast⟩
  intro k m hm
  cases m with
  | obeyed | resumed => exact hm.1.symm
  | counted | stepped | ended => exact hm.symm

/-! ## Steps that end turns -/

/-- The last moment was no step, or its step was not left hanging. -/
def Moment.LeadsTo (how : Option TurnEnd) (last : Option (Moment σ)) (t : Turn σ) : Prop :=
  ∀ u, last = some (.stepped u) →
    Turn.step u = match how with
      | none => .ok () t
      | some e => .error e t

/-- A step is followed by what comes of it. -/
theorem upkeep_leadsTo : Upkeep (fun _ m => some m) (fun last (_ : Kernel σ) => ∀ u, last ≠ some (.stepped u))
    Moment.LeadsTo where
  obeyed _ u he := by cases he
  counted _ u he := by cases he
  resumed := by
    intro last k pid why _
    cases k.openTurn pid why with
    | error k' =>
      intro u he
      cases he
    | ok t =>
      intro u he
      cases he
  stepped := by
    intro last t _
    cases hs : Turn.step t with
    | ok _ t' =>
      intro u he
      cases he
      exact hs
    | error e t' =>
      intro u he
      cases he
      exact hs
  ended _ u he := by cases he

/-- When a step of a run is the end of a turn, the turn ends then. -/
theorem HostCall.ended_of_error {k : Kernel σ} {calls : List (HostCall σ)} {before later : List (Moment σ)}
    {t t' : Turn σ} {e : TurnEnd} (hcourse : courseAll k calls = before ++ .stepped t :: later)
    (hstep : Turn.step t = .error e t') : ∃ rest, later = .ended t' (some e) :: rest := by
  obtain ⟨halong, hlast⟩ := upkeep_leadsTo.along_of (k := k) (h := none) (fun _ _ u he => by cases he)
    (fun u he => by cases he) calls
  rw [hcourse] at halong hlast
  cases later with
  | nil =>
    rw [List.foldl_append] at hlast
    exact absurd rfl (hlast t)
  | cons m rest =>
    rw [List.append_cons] at halong
    have hm := halong.at_split
    rw [List.foldl_append] at hm
    cases m with
    | obeyed => exact absurd rfl (hm.1 t)
    | counted => exact absurd rfl (hm t)
    | resumed => exact absurd rfl (hm.1 t)
    | stepped u =>
      have hok := hm t rfl
      rw [hstep] at hok
      cases hok
    | ended u how =>
      have hended := hm t rfl
      rw [hstep] at hended
      cases how with
      | none => cases hended
      | some e' =>
        cases hended
        exact ⟨rest, rfl⟩
end Upkeep

end Runs

end CoopKernel
