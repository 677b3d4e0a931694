import CoopKernel.Proofs.Delivery
import CoopKernel.Proofs.Settled

/-!
# Who registers handlers

The handlers of a process are its own business. What others do to the kernel does not touch them while the
process is loaded, and of what it does itself only three things do: it registers a handler, it exchanges its
program, by which it loses them all, and it kills itself, by which it loses the one for that. What is registered
is told by the system call.
-/

namespace CoopKernel

variable {σ : Type} [Storage σ]

namespace Snapshot

theorem handler_setHandler (s : Snapshot) (signal other : Signal) (address : UInt16) :
    (s.setHandler signal address).handler other = if other = signal then address else s.handler other := by
  have hindex : signal.index.val = other.index.val ↔ other = signal := by cases signal <;> cases other <;> decide
  simp only [setHandler, handler, Fin.getElem_fin, Vector.getElem_set, hindex]

theorem handler_restart (s : Snapshot) (count : Nat) (args : Arguments) (signal : Signal) :
    (s.restart count args).handler signal = 0 := by
  cases signal <;> rfl

end Snapshot

namespace Turn

variable {H : Signal → UInt16 → Prop} {t : Turn σ}

omit [Storage σ] in
/-- Every handler of the process is the one that it was, or one of those that may be registered. -/
def Handlers (H : Signal → UInt16 → Prop) (t t' : Turn σ) : Prop :=
  ∀ signal, t'.self.state.handler signal = t.self.state.handler signal ∨ H signal (t'.self.state.handler signal)

omit [Storage σ] in
instance : IsPreorder (Turn σ) (Handlers H) where
  refl _ _ := .inl rfl
  trans t t' t'' h₁ h₂ signal := by
    rcases h₂ signal with he | hset
    · rw [he]
      exact h₁ signal
    · exact .inr hset

omit [Storage σ] in
theorem Handlers.same {t' : Turn σ} (h : t'.self.state.handlers = t.self.state.handlers) : Handlers H t t' :=
  fun signal => .inl <| by rw [Snapshot.handler, Snapshot.handler, h]

/-! ## At home -/

theorem indifferent_handlers :
    Indifferent (σ := σ) (Stays fun _ => True) (Handlers H) (fun _ => True) H where
  memory := indifferent_composed.memory
  space _ _ _ := .same rfl
  glance _ _ _ _ := .same rfl
  window _ _ := .same rfl
  state _ _ _ _ hhandlers := .same hhandlers
  handler t signal address hset other := by
    dsimp only
    rw [Snapshot.handler_setHandler]
    split
    · next he =>
      subst he
      exact .inr hset
    · exact .inl rfl
  stdio _ _ := .same rfl
  status _ _ _ := .same rfl
  count _ _ := .same rfl
  note _ _ _ := .same rfl

theorem opening_handlers : Opening (σ := σ) (Handlers H) where
  opened _ _ := .same rfl
  closed _ _ := .same rfl
  env _ _ := .same rfl

/-- Exchanging the program leaves a process without handlers. -/
theorem exchanging_handlers (hzero : ∀ signal, H signal 0) : Exchanging (σ := σ) (Handlers H) fun _ => True where
  opened _ _ := .same rfl
  program _ _ _ _ := .same rfl
  restart t program count layout _ signal := by
    refine .inr ?_
    dsimp only
    rw [Snapshot.handler_restart]
    exact hzero signal
  resize _ := indifferent_handlers.access (.of_keeps (fun _ => id) fun _ => trivial)
  write _ _ := indifferent_handlers.access (.of_keeps (fun _ => id) fun _ => trivial)

/-- Whoever else is killed, signalled or made has handlers of their own. -/
theorem dealing_handlers : Dealing (σ := σ) (Handlers H) where
  kill _ _ _ := .same rfl
  signalled _ _ _ := .same rfl
  fork _ _ := .same rfl

/-! ## Steps -/

/-- A system call leaves the handlers of the process as they are, or zero, but for the one that it registers. -/
theorem answer_handlers (hzero : ∀ signal, H signal 0) {call : Syscall} {args : CallArgs}
    (hset : call = .setHandler → ∀ signal, Signal.ofNat? args.a.toNat = some signal → H signal args.b) :
    Works (Handlers H) (fun _ => True) (answer call args : InTurn σ Reply) := by
  have d := indifferent_handlers (σ := σ) (H := H)
  have hany {E : TurnEnd → Prop} {act : InTurn σ Reply} (h : Works (Handlers H) E act) :
      Works (Handlers H) (fun _ => True) act := h.mono (fun _ _ => id) fun _ _ => trivial
  have hact {β : Type} (action : σ → β × σ) : Works (Handlers H) (fun _ => True) (act action : Attempt σ β) :=
    .modifyGet fun _ => .same rfl
  cases hp : call.isInPlace with
  | true => exact hany (d.answerInPlace opening_handlers hp args hset)
  | false =>
    cases call
    case exit => exact hany (Indifferent.exit dealing_handlers.toMeddling _)
    case fork => exact hany (d.fork dealing_handlers)
    case exec => exact hany (d.execCall (exchanging_handlers hzero) _)
    case kill => exact hany (d.killCall dealing_handlers.toMeddling (hzero .suicide) _)
    case write => exact hany (lift_works (d.writeCall (fun _ _ => .of_keeps (fun _ => id) fun _ => trivial) _ _ _))
    case resizeFile => exact hany (lift_works (d.resizeCall (fun _ => hact _) (fun _ => hact _) _))
    case delete => exact hany (lift_works (d.deleteCall (fun _ => hact _) _))
    case sendSignal => exact hany (d.sendSignal dealing_handlers.toMeddling _ _)
    all_goals cases hp

/-- Up to the system call nothing is registered. -/
theorem handler_atCall {call : Syscall} {args : CallArgs} (h : t.call? = some (call, args)) (signal : Signal) :
    t.atCall.self.state.handler signal = t.self.state.handler signal :=
  (indifferent_handlers (H := fun _ _ => False).atCall h signal).resolve_right id

/-- A delivery changes no handlers. -/
theorem deliver_handlers (signal : Signal) :
    Works (Handlers fun _ _ => False) (fun _ => True) (deliver signal : Attempt σ Bool) :=
  indifferent_handlers.deliver signal

/-- Who has had its last words, or has none to say, has no handler for that. -/
theorem handler_of_lastWords {t' : Turn σ} {p : Process} {handled : Bool}
    (hp : t.kernel.table.process? t.self.pid = some p) (h : lastWords t = .ok handled t') :
    t'.self.state.handler .suicide = 0 := by
  simp only [lastWords, bind, EStateM.bind] at h
  by_cases hh : t.self.state.handler .suicide = 0
  · rw [deliver_of_none hh] at h
    cases h
    exact hh
  · rw [deliver_of_some hp hh] at h
    cases hpush : (t.interrupted p.status).pushIp with
    | error f s =>
      rw [hpush] at h
      cases h
    | ok _ s =>
      rw [hpush] at h
      cases h
      dsimp only
      rw [Snapshot.handler_setHandler, if_pos rfl]

end Turn

end CoopKernel
