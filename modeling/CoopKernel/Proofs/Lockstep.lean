import CoopKernel.Proofs.Effect

/-!
# Actions in lockstep

Two actions go in lockstep for a relation if from related states they end in the same way, with the same
result or the same failure, and in related states again. As for what actions keep, a fact about two long
actions comes down to facts about the primitive ones that they are made of.
-/

namespace CoopKernel

variable {ε ε' σ α β : Type}

/-- Both results are the same success or the same failure, in related states. -/
def Agree (R : σ → σ → Prop) : EStateM.Result ε σ α → EStateM.Result ε σ α → Prop
  | .ok a s, .ok a' s' => a' = a ∧ R s s'
  | .error e s, .error e' s' => e' = e ∧ R s s'
  | _, _ => False

/-- From related states the two actions end in agreement. -/
def Lockstep (R : σ → σ → Prop) (act act' : EStateM ε σ α) : Prop :=
  ∀ s s', R s s' → Agree R (act s) (act' s')

namespace Agree

variable {R : σ → σ → Prop}

/-- What agrees with a success is a success. -/
theorem ok {r : EStateM.Result ε σ α} {a : α} {s : σ} (h : Agree R (.ok a s) r) :
    ∃ s', r = .ok a s' ∧ R s s' := by
  cases r with
  | ok a' s' => exact ⟨s', by rw [h.1], h.2⟩
  | error e s' => exact h.elim

/-- What agrees with a failure is a failure. -/
theorem error {r : EStateM.Result ε σ α} {e : ε} {s : σ} (h : Agree R (.error e s) r) :
    ∃ s', r = .error e s' ∧ R s s' := by
  cases r with
  | ok a s' => exact h.elim
  | error e' s' => exact ⟨s', by rw [h.1], h.2⟩

protected theorem bind {act act' : EStateM ε σ α} {f f' : α → EStateM ε σ β} {s s' : σ}
    (h : Agree R (act s) (act' s')) (hf : ∀ a, Lockstep R (f a) (f' a)) :
    Agree R ((act >>= f) s) ((act' >>= f') s') := by
  cases hs : act s with
  | ok a t =>
    rw [hs] at h
    obtain ⟨t', hs', ht⟩ := h.ok
    rw [bind_of_ok hs, bind_of_ok hs']
    exact hf a t t' ht
  | error e t =>
    rw [hs] at h
    obtain ⟨t', hs', ht⟩ := h.error
    rw [bind_of_error hs, bind_of_error hs']
    exact ⟨rfl, ht⟩

end Agree

namespace Lockstep

variable {R : σ → σ → Prop}

protected theorem pure (a : α) : Lockstep R (pure a : EStateM ε σ α) (pure a) :=
  fun _ _ hs => ⟨rfl, hs⟩

protected theorem throw (e : ε) : Lockstep R (throw e : EStateM ε σ α) (throw e) :=
  fun _ _ hs => ⟨rfl, hs⟩

/-- What stands behind a failure is not done. -/
protected theorem throw_bind (e : ε) (f f' : α → EStateM ε σ β) :
    Lockstep R ((throw e : EStateM ε σ α) >>= f) ((throw e : EStateM ε σ α) >>= f') :=
  fun _ _ hs => ⟨rfl, hs⟩

protected theorem modify {f f' : σ → σ} (h : ∀ s s', R s s' → R (f s) (f' s')) :
    Lockstep R (modify f : EStateM ε σ PUnit) (modify f') :=
  fun s s' hs => ⟨rfl, h s s' hs⟩

protected theorem modifyGet {f f' : σ → α × σ}
    (h : ∀ s s', R s s' → (f' s').1 = (f s).1 ∧ R (f s).2 (f' s').2) :
    Lockstep R (modifyGet f : EStateM ε σ α) (modifyGet f') :=
  h

protected theorem bind {act act' : EStateM ε σ α} {f f' : α → EStateM ε σ β}
    (h : Lockstep R act act') (hf : ∀ a, Lockstep R (f a) (f' a)) :
    Lockstep R (act >>= f) (act' >>= f') :=
  fun s s' hs => (h s s' hs).bind hf

/-- What is read may differ, as related states do. -/
protected theorem get_bind {f f' : σ → EStateM ε σ β}
    (h : ∀ s s', R s s' → Lockstep R (f s) (f' s')) :
    Lockstep R ((get : EStateM ε σ σ) >>= f) ((get : EStateM ε σ σ) >>= f') :=
  fun s s' hs => h s s' hs s s' hs

protected theorem adaptExcept {act act' : EStateM ε σ α} (h : Lockstep R act act') (f : ε → ε') :
    Lockstep R (act.adaptExcept f) (act'.adaptExcept f) := by
  intro s s' hs
  have hact := h s s' hs
  simp only [EStateM.adaptExcept]
  cases ha : act s with
  | ok a t =>
    rw [ha] at hact
    obtain ⟨t', ha', ht⟩ := hact.ok
    rw [ha']
    exact ⟨rfl, ht⟩
  | error e t =>
    rw [ha] at hact
    obtain ⟨t', ha', ht⟩ := hact.error
    rw [ha']
    exact ⟨rfl, ht⟩

end Lockstep

end CoopKernel
