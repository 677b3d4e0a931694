import CoopKernel.Proofs.Exchanging.Basic
import CoopKernel.Proofs.Memory.Program
import CoopKernel.Proofs.Run

/-!
# What a process reads of its program in a turn

A turn begins with an empty window. The window is empty again after the process closed it and after it exchanged
its program. What is read of the program was in the program file at some time since then.
-/

namespace CoopKernel

open ProgramEvent

variable {k : Kernel Volume} {pid : Pid} {why : Resumption} {t : Turn Volume} {a : UInt16}

/-- A turn begins with an empty window. -/
theorem Kernel.openTurn_window (h : k.openTurn pid why = .ok t) : t.space.window.bytes = #[] := by
  unfold openTurn at h
  split at h
  · cases h
  · next self k' hload =>
    obtain ⟨p, -, hself⟩ := load_ok hload
    cases h
    cases why <;> (dsimp only [Turn.space, resume]; rw [hself]; rfl)

/-- The instruction for it closes the window. -/
theorem Turn.executeOther_clearCache (t : Turn Volume) :
    (after (executeOther .clearCache) t).space = ProgramEvent.close.apply t.space :=
  rfl

/-- A process that exchanged its program runs another one through an empty window. -/
theorem Turn.exec_exchange {t' : Turn Volume} {name : List UInt8} {args : List (List UInt8)}
    (h : exec name args t = .ok true t') :
    t'.space = run [.exchange t'.self.program, .change t'.space] t.space := by
  obtain ⟨path, program, s, -, -, -, hreplaced⟩ := exec_true h
  have hself := (replaceProgram_ok hreplaced).1
  have hwindow : t'.self.window = Window.closed := by
    rw [hself]
    rfl
  simp only [run, List.foldl_cons, List.foldl_nil, apply, space, hwindow]

/-- Each byte that a process reads of its program in a turn was in the program file at some time since the process
last closed the window or exchanged its program, or since the turn began. If the program file has not changed since
such a time, the byte is read that is in the file, and there is a fault past its end, whatever was read before. -/
theorem program_reads_are_coherent (hopen : k.openTurn pid why = .ok t) {events : List ProgramEvent}
    (hfile : Regular events t.space) (ha : a < dataStart) :
    let s := run events t.space
    (∀ b s', AddressSpace.read a s = .ok b s' → ∃ early late, early ++ late = events ∧
      late.all (!·.empties) ∧ (run early t.space).code?.bind (·[a.toNat]?) = some b) ∧
    ∀ early late code, early ++ late = events → early.getLast?.all (·.empties) →
      (∀ mid, mid <+: late → (run (early ++ mid) t.space).code? = some code) →
      ∃ w, AddressSpace.read a s =
        if h : a.toNat < code.size then .ok code[a.toNat] { s with window := w }
        else .error (.pastProgram a) { s with window := w } := by
  intro s
  have hempty := Kernel.openTurn_window hopen
  refine ⟨fun b s' => read_run hempty hfile ha, ?_⟩
  rintro early late code rfl hlast hsame
  obtain ⟨w, hread⟩ := read_unchanged hempty hfile hlast hsame ha
  refine ⟨w, hread.trans ?_⟩
  by_cases hlt : a.toNat < code.size
  · rw [dif_pos hlt, Array.getElem?_eq_getElem hlt]
  · rw [dif_neg hlt, Array.getElem?_eq_none (Nat.not_lt.mp hlt)]

/-- A process that has not had a turn yet, whose program is a single instruction. -/
def readyKernel : Kernel Volume :=
  ((Kernel.new ((Volume.empty.mkdir (Path.ofText "/tmp")).2.addFile (Path.ofText "/bin/a") #[0xC0]).2).spawn
    "/bin/a").2

/-- A process reads the first byte of its program, and the byte is overwritten in the file. -/
def Turn.rewriting (t : Turn Volume) : List ProgramEvent :=
  [.read 0, .change { t.space with store := (t.space.store.write t.self.program 0 #[0xC8]).2 }]

/-- The turn begins, the process reads the old byte behind the change, and the new one is in the file. -/
def Turn.readsOld (t : Turn Volume) : Bool :=
  Regular (t.rewriting ++ [.close]) t.space && (AddressSpace.read 0 (run t.rewriting t.space) matches .ok 0xC0 _) &&
    (run t.rewriting t.space).code? = some #[0xC8] && (run (t.rewriting ++ [.close]) t.space).code? = some #[0xC8]

/-- The process reads the byte that was in the file before, and when it has closed the window the one that is there. -/
theorem program_reads_are_coherent_of_rewriting :
    ∃ t, readyKernel.openTurn 0 .ready = .ok t ∧ (run t.rewriting t.space).code? = some #[0xC8] ∧
      (∃ early late, early ++ late = t.rewriting ∧ late.all (!·.empties) ∧
        (run early t.space).code?.bind (·[0]?) = some 0xC0) ∧
      ∃ s', AddressSpace.read 0 (run (t.rewriting ++ [.close]) t.space) = .ok 0xC8 s' := by
  obtain ⟨t, hopen, hreads⟩ : ∃ t, readyKernel.openTurn 0 .ready = .ok t ∧ t.readsOld := by
    have hsome : (readyKernel.openTurn 0 .ready).toOption.any Turn.readsOld := by decide +kernel
    cases hopen : readyKernel.openTurn 0 .ready with
    | error k =>
      rw [hopen] at hsome
      cases hsome
    | ok t =>
      rw [hopen] at hsome
      exact ⟨t, rfl, hsome⟩
  simp only [Turn.readsOld, Bool.and_eq_true, decide_eq_true_eq] at hreads
  obtain ⟨⟨⟨hregular, hold⟩, hnew⟩, hclosed⟩ := hreads
  have hbefore : Regular t.rewriting t.space :=
    fun early he => hregular early (he.trans (List.prefix_append _ _))
  split at hold <;> [skip; cases hold]
  next s' hread =>
  obtain ⟨w, hafter⟩ := (program_reads_are_coherent hopen hregular (a := 0) (by decide)).2
    (t.rewriting ++ [.close]) [] #[0xC8] (List.append_nil _) rfl fun mid hmid => by
      rw [List.prefix_nil.mp hmid, List.append_nil]
      exact hclosed
  exact ⟨t, hopen, hnew, (program_reads_are_coherent hopen hbefore (a := 0) (by decide)).1 0xC0 s' hread, _, hafter⟩

end CoopKernel
