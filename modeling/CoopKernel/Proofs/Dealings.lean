import CoopKernel.Proofs.Cascade
import CoopKernel.Proofs.Step

/-!
# What a process does to others

A process can end, double itself, and kill and signal others. What is kept by the few things that a kernel
does for that, whatever becomes of those who waited, is kept by the system calls.
-/

namespace CoopKernel

variable {σ : Type} [Storage σ] {α : Type}

/-! ## Killing and signalling -/

/-- A relation of kernels that is kept by what killing and signalling are made of. -/
structure Kernel.Governed (R : Kernel σ → Kernel σ → Prop) : Prop where
  quiet : ∀ k k', Quiet k k' → R k k'
  note : ∀ k e, e.isLife = false → R k (k.note e)
  status : ∀ k pid status, R k (k.onTable (·.setStatus pid status))
  bury : ∀ k pid p status, k.table.process? pid = some p → R k (k.bury pid p status)

namespace Kernel.Governed

variable {R : Kernel σ → Kernel σ → Prop} [IsPreorder (Kernel σ) R] (g : Governed R)

include g

theorem kill (k : Kernel σ) (pid : Pid) (status : UInt16) : R k (k.kill pid status).2 :=
  killWithin_keeps g.quiet g.note (fun k pid => g.status k pid .active) g.bury maxProcesses k pid status

theorem fault (k : Kernel σ) (pid : Pid) (f : Fault) : R k (k.fault pid f) :=
  trans_of R (g.note k _ rfl) (g.kill _ pid exitFault)

theorem withLoaded {act : Attempt σ α} (h : Turn.Inward act) (k : Kernel σ) (pid : Pid) :
    R k (k.withLoaded Kernel.fault pid act).2 := by
  refine withLoaded_keeps g.quiet ?_ (fun k f => g.fault k pid f) k
  intro t ht
  exact h.kernel (P := R t.kernel) (fun _ _ hq hr => trans_of R hr (g.quiet _ _ hq))
    (fun k e he hr => trans_of R hr (g.note k e (e.isLife_of_isIdle he)))
    (fun k hr => trans_of R hr (g.status k pid .active)) ht (refl_of R t.kernel)

theorem sendSignal (k : Kernel σ) (pid : Pid) (signal : Signal) : R k (k.sendSignal pid signal).2 := by
  unfold Kernel.sendSignal
  split
  · exact g.withLoaded (Turn.deliver_inward signal) k pid
  · exact refl_of R k

end Kernel.Governed

/-! ## System calls -/

namespace Turn

/-- A process that calls for a copy of itself gives up its turn with the result of that. -/
theorem fork_eq (t : Turn σ) :
    (fork : InTurn σ Reply) t = .error .yielded
      (match t.kernel.fork t.self with
        | (.ok child, k) =>
          ⟨k, { t.self with state := t.self.state.setReg Reg.result child.word }⟩
        | (.error e, k) =>
          ⟨k.note (.forkFailed t.self.pid e),
            { t.self with state := t.self.state.setReg Reg.result noProcess }⟩) := by
  simp only [fork, onKernel, bind, EStateM.bind, get_run]
  rcases t.kernel.fork t.self with ⟨_ | child, k⟩ <;> rfl

end Turn

/-- What there is to show besides for the calls by which a process ends, and kills and signals others. -/
structure Turn.Meddling (R : Turn σ → Turn σ → Prop) : Prop where
  kill : ∀ (t : Turn σ) pid status, R t { t with kernel := (t.kernel.kill pid status).2 }
  signalled : ∀ {act : Attempt σ Bool}, Inward act → ∀ (t : Turn σ) pid,
    R t { t with kernel := (t.kernel.withLoaded Kernel.fault pid act).2 }

/-- What there is to show for the call by which it doubles itself, too. -/
structure Turn.Dealing (R : Turn σ → Turn σ → Prop) : Prop extends Meddling R where
  fork : ∀ (t : Turn σ) parent, R t { t with kernel := (t.kernel.fork parent).2 }

namespace Turn.Indifferent

variable {A : AddressSpace σ → AddressSpace σ → Prop} [IsPreorder (AddressSpace σ) A]
  {R : Turn σ → Turn σ → Prop} [IsPreorder (Turn σ) R] {E : Fault → Prop} {H : Signal → UInt16 → Prop}
  (d : Indifferent A R E H) (m : Meddling R)

omit [IsPreorder (AddressSpace σ) A] [Storage σ] [IsPreorder (Turn σ) R] in
theorem onKernel {E' : TurnEnd → Prop} {act : Kernel σ → α × Kernel σ}
    (h : ∀ t : Turn σ, R t { t with kernel := (act t.kernel).2 }) :
    Works R E' (Turn.onKernel act : InTurn σ α) :=
  h

include m

theorem exit (status : UInt16) : Works R (fun e => e = .exited) (Turn.exit status : InTurn σ Reply) :=
  .bind .get fun _ => .bind (onKernel fun t => m.kill t _ _) fun _ => .throw rfl

include d

theorem killCall (hclear : H .suicide 0) (number : UInt16) :
    Works R (fun e => e = .exited ∨ OnFault E e) (Turn.killCall number : InTurn σ Reply) := by
  have hlast : Works R (fun e => e = .exited ∨ OnFault E e)
      (monadLift (Turn.lastWords : Attempt σ Bool) : InTurn σ Bool) :=
    (lift_works (d.lastWords hclear)).mono (fun _ _ => id) fun _ => .inr
  unfold Turn.killCall
  refine .bind .get fun t => ?_
  dsimp only
  split
  · exact .pure _
  · next target _ =>
    split
    · exact .pure _
    · split
      · refine .bind hlast fun handled => ?_
        split
        · exact .pure _
        · exact .bind (onKernel fun t => m.kill t _ _) fun _ => .throw (.inl rfl)
      · refine .bind (onKernel fun t => ?_) fun handled => ?_
        · split
          · exact m.signalled lastWords_inward t target
          · exact refl_of R t
        · split
          · exact .bind (onKernel fun t => m.kill t _ _) fun _ => .pure _
          · exact .pure _

theorem sendSignal (number signal : UInt16) :
    Works R (OnFault E) (Turn.sendSignal number signal : InTurn σ Reply) := by
  unfold Turn.sendSignal
  split
  · exact .pure _
  · split
    · exact .pure _
    · refine .bind .get fun t => ?_
      split
      · exact .bind (lift_works (d.deliver _)) fun _ => .pure _
      · refine .bind (onKernel fun t => ?_) fun _ => .pure _
        unfold Kernel.sendSignal
        split
        · exact m.signalled (deliver_inward _) t _
        · exact refl_of R t

omit m

theorem fork (g : Dealing R) : Works R (fun e => e = .yielded) (Turn.fork : InTurn σ Reply) := by
  have hrest (result : UInt16) : Works R (fun e => e = .yielded) (do
      modifyState (·.setReg Reg.result result)
      throw .yielded : InTurn σ Reply) :=
    .bind (d.setReg _ _) fun _ => .throw rfl
  unfold Turn.fork
  refine .bind .get fun _ => .bind (onKernel fun t => g.fork t _) fun made => ?_
  dsimp only
  split
  · exact .bind (.pure _) hrest
  · exact .bind (.modify fun t => d.note t _ rfl) fun _ => .bind (.pure _) hrest

end Turn.Indifferent

/-! ## Where the storage does not matter -/

namespace Syscall

/-- The call is one by which a process ends, doubles itself, or kills or signals others. -/
def isDealing : Syscall → Bool
  | exit | fork | kill | sendSignal => true
  | _ => false

end Syscall

/-- A relation of turns that depends neither on the storage nor on the snapshot of the loaded process and the
program that it runs. -/
structure Turn.Detached (R : Turn σ → Turn σ → Prop) : Prop
    extends Indifferent (Stays fun _ => True) R fun _ => True where
  store : ∀ (t : Turn σ) s, R t { t with kernel := { t.kernel with store := s } }
  loaded : ∀ (t : Turn σ) program state window,
    R t { t with self := { t.self with program, state, window } }
  setProgram : ∀ (t : Turn σ) pid program,
    R t { t with kernel := t.kernel.onTable (·.setProgram pid program) }

namespace Turn.Detached

variable {R : Turn σ → Turn σ → Prop} [IsPreorder (Turn σ) R] (d : Detached R)

include d

omit [IsPreorder (Turn σ) R] in
theorem opening : Opening R where
  opened t _ := d.store t _
  closed t _ := d.store t _
  env t _ := d.loaded t _ _ _

theorem exchanging : Exchanging R fun _ => True where
  opened t _ := d.store t _
  program t pid program old := by
    have hset := d.setProgram t pid program
    unfold Kernel.releaseProgram
    split
    · exact hset
    · exact trans_of R hset (d.store { t with kernel := t.kernel.onTable (·.setProgram pid program) } _)
  restart t _ _ _ _ := d.loaded t _ _ _
  resize _ := d.toDomestic.access (.of_keeps (fun _ => id) fun _ => trivial)
  write _ _ := d.toDomestic.access (.of_keeps (fun _ => id) fun _ => trivial)

/-- Every call keeps it that does not end, double, kill or signal anybody, and the process does not end by it. -/
theorem answer {call : Syscall} (h : call.isDealing = false) (args : CallArgs) :
    Works R (· ≠ .exited) (Turn.answer call args : InTurn σ Reply) := by
  have hact {β : Type} (action : σ → β × σ) : Works R (fun _ => True) (act action : Attempt σ β) :=
    .modifyGet fun t => d.store t _
  have hlift {act : Attempt σ Reply} (hw : Works R (fun _ => True) act) :
      Works R (· ≠ .exited) (monadLift act : InTurn σ Reply) :=
    (lift_works hw).mono (fun _ _ => id) ne_exited_of_fault
  cases hp : call.isInPlace with
  | true => exact d.answerInPlace d.opening hp args fun _ _ _ => trivial
  | false =>
    cases call
    case exec =>
      refine (d.execCall d.exchanging _).mono (fun _ _ => id) ?_
      rintro e (rfl | he)
      · exact nofun
      · exact ne_exited_of_fault e he
    case write => exact hlift (d.writeCall (fun _ _ => .of_keeps (fun _ => id) fun _ => trivial) _ _ _)
    case resizeFile => exact hlift (d.resizeCall (fun _ => hact _) (fun _ => hact _) _)
    case delete => exact hlift (d.deleteCall (fun _ => hact _) _)
    all_goals first | (cases h; done) | cases hp

end Turn.Detached

end CoopKernel
