import CoopKernel.Proofs.Blocking.Waking
import CoopKernel.Proofs.LoadedBack

/-!
# Reads that wait in a run

A process that has to wait for what it reads does not notice. At whatever point of a run that is, and whatever others
do until there is something to read, it sleeps, and then does the same call as if it had come to it only then. This
takes that it is left alone, and that the call is still to be found where it was.
-/

namespace CoopKernel

/-- The kernel with which some moments begin, or the last one, if there are none. -/
def Moment.start (ms : List (Moment Volume)) (last : Kernel Volume) : Kernel Volume :=
  (ms.head?.map Moment.before).getD last

/-- The next step is a read that has to wait. -/
def Turn.hasToWait (t : Turn Volume) : Bool :=
  t.call?.any fun (call, args) => call = .read && args.d ≠ 0 && (t.kernel.store.pathOf? ⟨args.a⟩).isSome &&
    !t.atCall.kernel.store.canRead ⟨args.a⟩

/-- The process is left alone but for signals for which it has no handler. -/
def Moment.passesBy (sleeper : Loaded) (handle : Handle) (m : Moment Volume) : Bool :=
  m.leavesAlone sleeper handle fun s => sleeper.state.handler s = 0

/-- The moments before some process is disturbed, and those from then on. -/
theorem Moment.split_passesBy (sleeper : Loaded) (handle : Handle) (ms : List (Moment Volume)) :
    ms = ms.takeWhile (·.passesBy sleeper handle) ++ ms.dropWhile (·.passesBy sleeper handle) :=
  List.takeWhile_append_dropWhile.symm

namespace HostCall

variable {v : Volume} {settings : Settings} {entropy : UInt64} {calls : List (HostCall Volume)}
  {before later : List (Moment Volume)} {t t' : Turn Volume} {sleeper : Loaded} {handle : Handle}
  {args : CallArgs} {old : Bytes} {ignored : Signal → Bool} {P : Kernel Volume → Prop}

/-- What is known of a process when it falls asleep in a run is known as long as it is left alone. -/
theorem known_while_left_alone (h : allSpare (Kernel.new v settings entropy) calls)
    (d : Kernel.Endures sleeper handle ignored P) (hasleep : P (Kernel.endTurn t (some .blocked)))
    {idle ahead : List (Moment Volume)}
    (hcourse : courseAll (Kernel.new v settings entropy) calls =
      before ++ .ended t (some .blocked) :: (idle ++ ahead))
    (halone : idle.all (·.leavesAlone sleeper handle ignored)) :
    P (Moment.start ahead (runAll (Kernel.new v settings entropy) calls)) := by
  let record := Moment.recordSleep t sleeper handle ignored
  obtain ⟨halong, hlast⟩ := (sleep_upkeep d hasleep).run (h := (Ledger.start v, False))
    ⟨Custody.start v settings entropy, False.elim⟩ h
  have hrecorded (start : Ledger × Prop) :
      ((before ++ .ended t (some .blocked) :: idle).foldl record start).2 := by
    rw [List.foldl_append, List.foldl_cons]
    exact Moment.foldl_recordSleep (.inl rfl) halone
  rw [hcourse, ← List.cons_append, ← List.append_assoc] at halong hlast
  cases ahead with
  | nil =>
    rw [List.append_nil] at hlast
    exact hlast.2 (hrecorded _)
  | cons m ahead =>
    have hm := halong.at_split
    have hh := hrecorded (Ledger.start v, False)
    cases m with
    | obeyed | resumed => exact hm.1.2 hh
    | counted => exact hm.2 hh
    | stepped u => exact (hm.2.2 hh).knows
    | ended u how =>
      cases how with
      | none => exact (hm.2.2 hh).knows
      | some e => exact (hm.2 hh).1.1

/-- A run passes through the kernel with which some of its moments begin. -/
theorem passesThrough_start {k : Kernel Volume} {ahead : List (Moment Volume)}
    (hcourse : courseAll k calls = before ++ ahead) : PassesThrough k calls (Moment.start ahead (runAll k calls)) := by
  cases ahead with
  | nil => exact .inr rfl
  | cons m ahead =>
    refine .inl ⟨m, ?_, rfl⟩
    rw [hcourse]
    exact List.mem_append_right _ List.mem_cons_self

/-- A kernel with a program, and with a device behind the first handle that has nothing to be read yet. -/
def waitingKernel (program : Bytes) (budget : UInt8) : Kernel Volume :=
  Kernel.new ((((Volume.empty.mkdir (Path.ofText "/tmp")).2.addWire.2.addDevice (Path.ofText "/dev")
    (.buffered 0)).2.openPath (Path.ofText "/dev")).2.addFile (Path.ofText "/a") program).2 { budget }

/-- The first read among some moments that has to wait is of a kind, together with the moments behind it. -/
def waits (kind : Turn Volume → CallArgs → List (Moment Volume) → Bool) (ms : List (Moment Volume)) : Bool :=
  match ms.dropWhile (fun m => !m.turn?.any Turn.hasToWait) with
  | .stepped t :: later => t.hasToWait && t.call?.any fun (_, args) => kind t args later
  | _ => false

theorem exists_waits {kind : Turn Volume → CallArgs → List (Moment Volume) → Bool} {ms : List (Moment Volume)}
    (h : waits kind ms) : ∃ before t later args, ms = before ++ .stepped t :: later ∧
      t.call? = some (.read, args) ∧ args.d ≠ 0 ∧ (t.kernel.store.pathOf? ⟨args.a⟩).isSome ∧
      t.atCall.kernel.store.canRead ⟨args.a⟩ = false ∧ kind t args later := by
  unfold waits at h
  split at h <;> [skip; cases h]
  next t later hms =>
  simp only [Turn.hasToWait, Bool.and_eq_true, Option.any_eq_true, Prod.exists, decide_eq_true_eq,
    Bool.not_eq_true'] at h
  obtain ⟨⟨_, args, hcall, ⟨⟨rfl, hlength⟩, hopen⟩, hwaits⟩, _, args', hcall', hkind⟩ := h
  obtain ⟨-, rfl⟩ := Prod.mk.inj (Option.some.inj (hcall.symm.trans hcall'))
  have hsplit := List.takeWhile_append_dropWhile (p := fun m : Moment Volume => !m.turn?.any Turn.hasToWait) (l := ms)
  rw [hms] at hsplit
  exact ⟨_, t, later, args, hsplit.symm, hcall, hlength, hopen, hwaits, hkind⟩

/-- A program that reads a byte from the first handle to the beginning of its data region. -/
def readingProgram : Bytes :=
  #[0xD1, 0x01, 0xDB, 0x80, 0x00, 0xD4, 0x01, 0xD8, 0x01, 0x00, 0xC1, 0xC0, 0xC0, 0xC0, 0xC0, 0xC0]

/-- The process waits for a tick, is sent a signal and waits on, and can read in the third tick. -/
def lateInput : List (HostCall Volume) :=
  [.spawn "/a", .tick, .tick, .sendSignal 0 .user1, .edit (.modifyWire 0 (·.push [42])), .tick]

/-- The process has room for its block and can read when it is visited first, and the call is still there. -/
def readsLater (last : Kernel Volume) (t : Turn Volume) (args : CallArgs) (later : List (Moment Volume)) : Bool :=
  let k := Moment.start ((later.drop 1).dropWhile (·.passesBy t.self ⟨args.a⟩)) last
  (t.kernel.store.behind? t.self.backing).any (fun old => Snapshot.blockSize ≤ old.size) &&
    k.store.canRead ⟨args.a⟩ && !k.holdsBack ⟨args.a⟩ && !k.halted && 0 < k.settings.budget.toNat &&
    (k.store.behind? t.self.program).bind (·[(t.self.state.reg Reg.ip).toNat]?) = some 0xC1

/-- A program that writes a byte over the second system call in it, which is a read, through the handle of its program
file. The byte is the one at 31, and the window shows all that is executed. -/
def overwritingProgram : Bytes :=
  #[0xD1, 0x02, 0xD2, 0x14, 0xD3, 0x1F, 0xD4, 0x01, 0xD8, 0x01, 0x01, 0xC1, 0xD1, 0x01, 0xDB, 0x80, 0x00, 0xD8, 0x01,
    0x00, 0xC1, 0xC0, 0xC0, 0xC0, 0xC0, 0xC0, 0xC0, 0xC0, 0xC0, 0xC0, 0xC0, 0xC0, 0xC0, 0xC0, 0xC0, 0xC0]

/-- The process is visited when it can read, and its program file is as it was, but it does no system call then. -/
def readsNoMore (last : Kernel Volume) (t : Turn Volume) (args : CallArgs) (later : List (Moment Volume)) : Bool :=
  let k := Moment.start ((later.drop 1).dropWhile (·.passesBy t.self ⟨args.a⟩)) last
  (t.kernel.store.behind? t.self.backing).any (fun old => Snapshot.blockSize ≤ old.size) &&
    k.store.canRead ⟨args.a⟩ && k.store.behind? t.self.program = t.kernel.store.behind? t.self.program &&
    (k.openTurn t.self.pid .ready).toOption.any fun u => u.call?.isNone

/-- A program that cuts its backing file, whose path is behind its instructions, and reads. -/
def cuttingProgram : Bytes :=
  #[0xD8, 0x01, 0x06, 0xD1, 0x1C, 0xD2, 0x00, 0xC1, 0xD1, 0x01, 0xDB, 0x80, 0x00, 0xD4, 0x01, 0xD8, 0x01, 0x00, 0xC1,
    0xC0, 0xC0, 0xC0, 0xC0, 0xC0, 0xC0, 0xC0, 0xC0, 0xC0, 0x2F, 0x74, 0x6D, 0x70, 0x2F, 0x70, 0x72, 0x6F, 0x63, 0x30,
    0x00]

/-- The process does not outlive the turn in which it has to wait. -/
def diesWaiting (t : Turn Volume) (_ : CallArgs) (_ : List (Moment Volume)) : Bool :=
  match Turn.step t with
  | .error .blocked t' => !(Kernel.endTurn t' (some .blocked)).table.isLive t.self.pid
  | _ => false

/-- A program that makes a text its search path which is cut within a character when it is stored, and reads. -/
def cutTextProgram : Bytes :=
  #[0xD8, 0x02, 0x05, 0xD1, 0x13, 0xC1, 0xD1, 0x01, 0xDB, 0x80, 0x00, 0xD4, 0x01, 0xD8, 0x01, 0x00, 0xC1, 0xC0, 0xC0,
    0xFF, 0xFF, 0xFF, 0xFF, 0xFF, 0xFF, 0xFF, 0xFF, 0xFF, 0xFF, 0xFF, 0xFF, 0xFF, 0xFF, 0xFF, 0xFF, 0xFF, 0xFF, 0xFF,
    0xFF, 0x61, 0x61, 0xC3, 0xA9, 0x00]

/-- A signal for which it has no handler changes the backing file of a process that waits to read. -/
def stirs (k : Kernel Volume) (pid : Pid) (s : Signal) : Bool :=
  (k.table.process? pid).any fun p => p.status = .waitingToRead ⟨1⟩ &&
    (k.snapshot? pid).1.any (fun state => state.handler s = 0) &&
    (k.sendSignal pid s).2.store.behind? p.backing ≠ k.store.behind? p.backing

end HostCall

end CoopKernel
