import CoopKernel.Proofs.Loading
import CoopKernel.Proofs.Splitting.Memory
import CoopKernel.Proofs.Step

/-!
# Steps of two turns that are alike

Two turns of a process that are alike but for the state block, the window and the budget stay so when both
take a step that does no system call, and a fault comes in both or in neither.
-/

namespace CoopKernel

namespace Runner

open Turn

variable {r : Runner} {t t' : Turn Volume}

/-- Two turns of the process that are alike but for the state block, what they show of the program, and
the budget. -/
structure Beside (r : Runner) (t t' : Turn Volume) : Prop where
  pid : t.self.pid = r.pid
  entry : ∃ count, t.kernel.table.process? r.pid = some { r.process with count }
  path : t.kernel.backingPath r.pid = r.backingPath
  env : t.self.state.env = r.env
  space : r.Twins t.space t'.space
  kernel : t'.kernel = { t.kernel with store := t'.kernel.store, settings := t'.kernel.settings }
  settings : t'.kernel.settings = { t.kernel.settings with budget := t'.kernel.settings.budget }
  self : t'.self = { t.self with window := t'.self.window }

namespace Beside

theorem state (h : r.Beside t t') : t'.self.state = t.self.state := by
  rw [h.self]

theorem pid_right (h : r.Beside t t') : t'.self.pid = t.self.pid := by
  rw [h.self]

/-- The address spaces may change as they do in lockstep. -/
theorem setSpace (h : r.Beside t t') {s s' : AddressSpace Volume} (hs : r.Twins s s') :
    r.Beside (t.setSpace s) (t'.setSpace s') := by
  have hlimit : t'.kernel.settings.ramLimit = t.kernel.settings.ramLimit := by rw [h.settings]
  have howns : r.Owns (t.setSpace s).space :=
    { hs.owns with
      program := h.space.owns.program
      data := h.space.owns.data
      dataPath := h.space.owns.dataPath }
  refine ⟨h.pid, h.entry, h.path, h.env, ⟨howns, ?_, hs.store, hs.window⟩, ?_, h.settings, ?_⟩
  · simp only [Turn.space, Turn.setSpace, AddressSpace.mk.injEq, true_and, and_true]
    exact ⟨hs.filler, hlimit, by rw [h.self], by rw [h.self], by rw [h.self], hs.dataLength⟩
  · simp only [Turn.setSpace]
    rw [h.kernel, hs.filler]
  · simp only [Turn.setSpace]
    rw [h.self, hs.dataLength]

/-- The snapshots may change in the same way, if the environment does not. -/
theorem setState (h : r.Beside t t') {state : Snapshot} (henv : state.env = t.self.state.env)
    (hlength : state.dataLength = t.self.state.dataLength) :
    r.Beside { t with self := { t.self with state } } { t' with self := { t'.self with state } } where
  pid := h.pid
  entry := h.entry
  path := h.path
  env := henv.trans h.env
  space := by
    have hspace := h.space
    simp only [Turn.space, h.state] at hspace ⊢
    rw [hlength]
    exact hspace
  kernel := h.kernel
  settings := h.settings
  self := by rw [h.self]

/-- The windows may show other parts of the program. -/
theorem setWindow (h : r.Beside t t') {w w' : Window} (hw : w.Shows r.code) (hw' : w'.Shows r.code) :
    r.Beside { t with self := { t.self with window := w } }
      { t' with self := { t'.self with window := w' } } where
  pid := h.pid
  entry := h.entry
  path := h.path
  env := h.env
  space := h.space.windows hw hw'
  kernel := h.kernel
  settings := h.settings
  self := by rw [h.self]

/-- The table may change in the same way, if the process stays but for its counter. -/
theorem onTable (h : r.Beside t t') {f : Table → Table}
    (hf : ∃ count, (f t.kernel.table).process? r.pid = some { r.process with count }) :
    r.Beside { t with kernel := t.kernel.onTable f } { t' with kernel := t'.kernel.onTable f } where
  pid := h.pid
  entry := hf
  path := h.path
  env := h.env
  space := h.space
  kernel := by simp only [Kernel.onTable]; rw [h.kernel]
  settings := h.settings
  self := h.self

end Beside

theorem beside_abreast : Turn.Abreast r.Twins r.Beside r.pid r.process.backing where
  memory := twins_abreast
  space h := h.space
  setSpace h hs := h.setSpace hs
  pids h := ⟨h.pid, h.pid_right.trans h.pid⟩
  state h := h.state
  setState h henv hlength := h.setState henv hlength
  closed h := h.setWindow (Window.shows_of_empty rfl _) (Window.shows_of_empty rfl _)
  counted {t _} h := by
    obtain ⟨count, hcount⟩ := h.entry
    refine h.onTable ⟨count + 1, ?_⟩
    rw [Table.addCount, Table.process?_modify, if_pos rfl, hcount]
    rfl

/-- Both take some steps with the same result, if there is no system call among them. -/
theorem steps_beside {n : Nat} (h : r.Beside t t') (halone : t.stepsAlone n) :
    Agree r.Beside (steps n t) (steps n t') :=
  beside_abreast.steps h halone

end Runner

end CoopKernel
