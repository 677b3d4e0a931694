import Mathlib.Order.Defs.Unbundled

/-!
# What actions keep

Work on a process is written as actions that change a state and can fail, and what was done before a
failure stays done. `after` is the state that an action ends in either way. An action keeps a
relation if it always ends in a state that is related to the one it started in. For a preorder this
is kept by all the ways of putting actions together, so that a fact about a long action comes down to
facts about the few primitive ones.
-/

namespace CoopKernel

variable {ε ε' σ α β : Type}

/-- The state that an action ends in, whether or not it fails. -/
def after (act : EStateM ε σ α) (s : σ) : σ :=
  match act s with
  | .ok _ s' => s'
  | .error _ s' => s'

/-- The action ends in a state that is related to the one it started in. -/
def Keeps (R : σ → σ → Prop) (act : EStateM ε σ α) : Prop :=
  ∀ s, R s (after act s)

/-- What holds in the first state is not lost in the second. -/
def Stays (P : σ → Prop) (s s' : σ) : Prop :=
  P s → P s'

instance (P : σ → Prop) : IsPreorder σ (Stays P) where
  refl _ h := h
  trans _ _ _ h₁ h₂ h := h₂ (h₁ h)

theorem foldl_keeps {R : σ → σ → Prop} [IsPreorder σ R] {f : σ → α → σ} {xs : List α}
    (h : ∀ s, ∀ x ∈ xs, R s (f s x)) (s : σ) : R s (xs.foldl f s) := by
  induction xs generalizing s with
  | nil => exact refl_of R s
  | cons x xs ih =>
    have hx := h s x List.mem_cons_self
    have hrest := ih (fun s y hy => h s y (List.mem_cons_of_mem x hy)) (f s x)
    exact trans_of R hx hrest

/-! ## Running compound actions -/

theorem bind_of_ok {act : EStateM ε σ α} {f : α → EStateM ε σ β} {s s' : σ} {a : α}
    (h : act s = .ok a s') : (act >>= f) s = f a s' := by
  simp only [bind, EStateM.bind, h]

theorem bind_of_error {act : EStateM ε σ α} {f : α → EStateM ε σ β} {s s' : σ} {e : ε}
    (h : act s = .error e s') : (act >>= f) s = .error e s' := by
  simp only [bind, EStateM.bind, h]

theorem bind_pure_ok {act : EStateM ε σ α} {g : α → β} {s s' : σ} {b : β} :
    (act >>= fun a => pure (g a)) s = .ok b s' ↔ ∃ a, act s = .ok a s' ∧ g a = b := by
  constructor
  · intro h
    cases hr : act s with
    | ok a s₁ =>
      rw [bind_of_ok hr] at h
      cases h
      exact ⟨a, rfl, rfl⟩
    | error e s₁ =>
      rw [bind_of_error hr] at h
      cases h
  · rintro ⟨a, hr, rfl⟩
    exact bind_of_ok hr

theorem bind_pure_error {act : EStateM ε σ α} {g : α → β} {s s' : σ} {e : ε} :
    (act >>= fun a => pure (g a)) s = .error e s' ↔ act s = .error e s' := by
  constructor
  · intro h
    cases hr : act s with
    | ok a s₁ =>
      rw [bind_of_ok hr] at h
      cases h
    | error e s₁ =>
      rw [bind_of_error hr] at h
      cases h
      rfl
  · exact bind_of_error

/-- Where the rest does not fail with an error, the whole fails with it exactly if the first part does. -/
theorem bind_error_iff {act : EStateM ε σ α} {f : α → EStateM ε σ β} {s : σ} {e : ε}
    (hf : ∀ a s₁ s', f a s₁ ≠ .error e s') :
    (∃ s', (act >>= f) s = .error e s') ↔ ∃ s', act s = .error e s' := by
  cases hr : act s with
  | ok a s₁ =>
    rw [bind_of_ok hr]
    simp [hf]
  | error e' s₁ =>
    rw [bind_of_error hr]
    simp

theorem get_run (s : σ) : (get : EStateM ε σ σ) s = .ok s s :=
  rfl

theorem modifyGet_run (f : σ → α × σ) (s : σ) :
    (modifyGet f : EStateM ε σ α) s = .ok (f s).1 (f s).2 :=
  rfl

theorem get_bind (f : σ → EStateM ε σ β) (s : σ) : ((get : EStateM ε σ σ) >>= f) s = f s s :=
  rfl

theorem modify_bind (g : σ → σ) (f : PUnit → EStateM ε σ β) (s : σ) :
    ((modify g : EStateM ε σ PUnit) >>= f) s = f ⟨⟩ (g s) :=
  rfl

/-! ## The state after compound actions -/

theorem after_ok {act : EStateM ε σ α} {s s' : σ} {a : α} (h : act s = .ok a s') :
    after act s = s' := by
  simp only [after, h]

theorem after_error {act : EStateM ε σ α} {s s' : σ} {e : ε} (h : act s = .error e s') :
    after act s = s' := by
  simp only [after, h]

theorem after_bind_ok {act : EStateM ε σ α} {f : α → EStateM ε σ β} {s s' : σ} {a : α}
    (h : act s = .ok a s') : after (act >>= f) s = after (f a) s' := by
  rw [after, bind_of_ok h, after]

theorem after_bind_error {act : EStateM ε σ α} {f : α → EStateM ε σ β} {s s' : σ} {e : ε}
    (h : act s = .error e s') : after (act >>= f) s = s' := by
  rw [after, bind_of_error h]

theorem after_adaptExcept (f : ε → ε') (act : EStateM ε σ α) (s : σ) :
    after (act.adaptExcept f) s = after act s := by
  simp only [after, EStateM.adaptExcept]
  cases act s <;> rfl

namespace Keeps

variable {R S : σ → σ → Prop}

protected theorem mono {act : EStateM ε σ α} (h : Keeps R act) (hRS : ∀ s s', R s s' → S s s') :
    Keeps S act :=
  fun s => hRS _ _ (h s)

protected theorem adaptExcept {act : EStateM ε σ α} (h : Keeps R act) (f : ε → ε') :
    Keeps R (act.adaptExcept f) := by
  intro s
  rw [after_adaptExcept]
  exact h s

protected theorem modify {f : σ → σ} (h : ∀ s, R s (f s)) :
    Keeps R (modify f : EStateM ε σ PUnit) :=
  h

protected theorem modifyGet {f : σ → α × σ} (h : ∀ s, R s (f s).2) :
    Keeps R (modifyGet f : EStateM ε σ α) :=
  h

variable [IsPreorder σ R]

protected theorem pure (a : α) : Keeps R (pure a : EStateM ε σ α) :=
  fun s => refl_of R s

protected theorem throw (e : ε) : Keeps R (throw e : EStateM ε σ α) :=
  fun s => refl_of R s

/-- What stands behind a failure is not done. -/
protected theorem throw_bind (e : ε) (f : α → EStateM ε σ β) :
    Keeps R ((throw e : EStateM ε σ α) >>= f) :=
  fun s => refl_of R s

protected theorem get : Keeps R (get : EStateM ε σ σ) :=
  fun s => refl_of R s

protected theorem bind {act : EStateM ε σ α} {f : α → EStateM ε σ β} (h : Keeps R act)
    (hf : ∀ a, Keeps R (f a)) : Keeps R (act >>= f) := by
  intro s
  have hs := h s
  cases hr : act s with
  | ok a s' =>
    rw [after_ok hr] at hs
    rw [after_bind_ok hr]
    exact trans_of R hs (hf a s')
  | error e s' =>
    rw [after_error hr] at hs
    rw [after_bind_error hr]
    exact hs

end Keeps

/-! ## Pre- and postconditions -/

/-- The result of an action is a success with `Q` or a failure with `E`. -/
def Yields (r : EStateM.Result ε σ α) (Q : α → σ → Prop) (E : ε → σ → Prop) : Prop :=
  match r with
  | .ok a s => Q a s
  | .error e s => E e s

theorem Yields.mono {r : EStateM.Result ε σ α} {Q Q' : α → σ → Prop} {E E' : ε → σ → Prop}
    (h : Yields r Q E) (hQ : ∀ a s, Q a s → Q' a s) (hE : ∀ e s, E e s → E' e s) : Yields r Q' E' := by
  cases r with
  | ok a s => exact hQ a s h
  | error e s => exact hE e s h

/-- What holds of the result either way holds of the state after the action. -/
theorem Yields.after {P : σ → Prop} {act : EStateM ε σ α} {s : σ}
    (h : Yields (act s) (fun _ => P) fun _ => P) : P (CoopKernel.after act s) := by
  unfold CoopKernel.after
  cases hr : act s with
  | ok a s' =>
    rw [hr] at h
    exact h
  | error e s' =>
    rw [hr] at h
    exact h

/-- The action ends in a related state, and fails only with errors that may be. -/
def Works (R : σ → σ → Prop) (E : ε → Prop) (act : EStateM ε σ α) : Prop :=
  ∀ s, Yields (act s) (fun _ => R s) fun e s' => E e ∧ R s s'

namespace Works

variable {R S : σ → σ → Prop} {E : ε → Prop} {E' : ε' → Prop}

theorem keeps {act : EStateM ε σ α} (h : Works R E act) : Keeps R act := by
  intro s
  have hs := h s
  cases hr : act s with
  | ok a s' =>
    rw [hr] at hs
    rw [after_ok hr]
    exact hs
  | error e s' =>
    rw [hr] at hs
    rw [after_error hr]
    exact hs.2

theorem of_keeps {act : EStateM ε σ α} (h : Keeps R act) (hE : ∀ e, E e) : Works R E act := by
  intro s
  have hs := h s
  cases hr : act s with
  | ok a s' =>
    rw [after_ok hr] at hs
    exact hs
  | error e s' =>
    rw [after_error hr] at hs
    exact ⟨hE e, hs⟩

protected theorem mono {F : ε → Prop} {act : EStateM ε σ α} (h : Works R E act)
    (hRS : ∀ s s', R s s' → S s s') (hEF : ∀ e, E e → F e) : Works S F act := by
  intro s
  have hs := h s
  cases hr : act s with
  | ok a s' =>
    rw [hr] at hs
    exact hRS s s' hs
  | error e s' =>
    rw [hr] at hs
    exact ⟨hEF e hs.1, hRS s s' hs.2⟩

protected theorem modify {f : σ → σ} (h : ∀ s, R s (f s)) :
    Works R E (modify f : EStateM ε σ PUnit) :=
  h

protected theorem modifyGet {f : σ → α × σ} (h : ∀ s, R s (f s).2) :
    Works R E (modifyGet f : EStateM ε σ α) :=
  h

protected theorem adaptExcept {act : EStateM ε σ α} {f : ε → ε'} (h : Works R (fun e => E' (f e)) act) :
    Works R E' (act.adaptExcept f) := by
  intro s
  have hs := h s
  simp only [EStateM.adaptExcept]
  cases hr : act s with
  | ok a s' =>
    rw [hr] at hs
    exact hs
  | error e s' =>
    rw [hr] at hs
    exact hs

variable [IsPreorder σ R]

protected theorem pure (a : α) : Works R E (pure a : EStateM ε σ α) :=
  fun s => refl_of R s

protected theorem throw {e : ε} (he : E e) : Works R E (throw e : EStateM ε σ α) :=
  fun s => ⟨he, refl_of R s⟩

/-- What stands behind a failure is not done. -/
protected theorem throw_bind {e : ε} (he : E e) (f : α → EStateM ε σ β) :
    Works R E ((throw e : EStateM ε σ α) >>= f) :=
  fun s => ⟨he, refl_of R s⟩

protected theorem get : Works R E (get : EStateM ε σ σ) :=
  fun s => refl_of R s

protected theorem bind {act : EStateM ε σ α} {f : α → EStateM ε σ β} (h : Works R E act)
    (hf : ∀ a, Works R E (f a)) : Works R E (act >>= f) := by
  intro s
  have hs := h s
  cases hr : act s with
  | ok a s₁ =>
    rw [hr] at hs
    rw [bind_of_ok hr]
    have hrest := hf a s₁
    cases hr₁ : f a s₁ with
    | ok b s₂ =>
      rw [hr₁] at hrest
      exact trans_of R hs hrest
    | error e s₂ =>
      rw [hr₁] at hrest
      exact ⟨hrest.1, trans_of R hs hrest.2⟩
  | error e s₁ =>
    rw [hr] at hs
    rw [bind_of_error hr]
    exact hs

end Works

/-- From a state with `P` the action ends with `Q`, or fails with `E`. -/
def Ensures (P : σ → Prop) (act : EStateM ε σ α) (Q : α → σ → Prop) (E : ε → σ → Prop) : Prop :=
  ∀ s, P s → Yields (act s) Q E

namespace Ensures

variable {P : σ → Prop} {Q : α → σ → Prop} {E : ε → σ → Prop}

protected theorem mono {P' : σ → Prop} {Q' : α → σ → Prop} {E' : ε → σ → Prop}
    {act : EStateM ε σ α} (h : Ensures P act Q E) (hP : ∀ s, P' s → P s)
    (hQ : ∀ a s, Q a s → Q' a s) (hE : ∀ e s, E e s → E' e s) : Ensures P' act Q' E' := by
  intro s hs
  have hact := h s (hP s hs)
  cases hr : act s with
  | ok a s' =>
    rw [hr] at hact
    exact hQ a s' hact
  | error e s' =>
    rw [hr] at hact
    exact hE e s' hact

protected theorem pure {a : α} (h : ∀ s, P s → Q a s) : Ensures P (pure a) Q E :=
  h

protected theorem throw {e : ε} (h : ∀ s, P s → E e s) : Ensures P (throw e) Q E :=
  h

/-- What stands behind a failure is not done. -/
protected theorem throw_bind {R : β → σ → Prop} {e : ε} {f : α → EStateM ε σ β}
    (h : ∀ s, P s → E e s) : Ensures P ((throw e : EStateM ε σ α) >>= f) R E :=
  h

protected theorem modify {f : σ → σ} {Q : PUnit → σ → Prop} (h : ∀ s, P s → Q ⟨⟩ (f s)) :
    Ensures P (modify f : EStateM ε σ PUnit) Q E :=
  h

protected theorem modifyGet {f : σ → α × σ} (h : ∀ s, P s → Q (f s).1 (f s).2) :
    Ensures P (modifyGet f : EStateM ε σ α) Q E :=
  h

protected theorem get_bind {f : σ → EStateM ε σ β} {Q : β → σ → Prop}
    (h : ∀ s, P s → Ensures P (f s) Q E) : Ensures P ((get : EStateM ε σ σ) >>= f) Q E :=
  fun s hs => h s hs s hs

/-- What is read is the state that the rest starts in. -/
theorem get_bind_eq {f : σ → EStateM ε σ β} {Q : β → σ → Prop}
    (h : ∀ s, P s → Ensures (· = s) (f s) Q E) : Ensures P ((get : EStateM ε σ σ) >>= f) Q E :=
  fun s hs => h s hs s rfl

protected theorem bind {act : EStateM ε σ α} {f : α → EStateM ε σ β} {R : β → σ → Prop}
    (h : Ensures P act Q E) (hf : ∀ a, Ensures (Q a) (f a) R E) : Ensures P (act >>= f) R E := by
  intro s hs
  have hact := h s hs
  simp only [bind, EStateM.bind]
  cases hr : act s with
  | ok a s' =>
    rw [hr] at hact
    exact hf a s' hact
  | error e s' =>
    rw [hr] at hact
    exact hact

protected theorem adaptExcept {E' : ε' → σ → Prop} {act : EStateM ε σ α} {f : ε → ε'}
    (h : Ensures P act Q fun e => E' (f e)) : Ensures P (act.adaptExcept f) Q E' := by
  intro s hs
  have hact := h s hs
  simp only [EStateM.adaptExcept]
  cases hr : act s with
  | ok a s' =>
    rw [hr] at hact
    exact hact
  | error e s' =>
    rw [hr] at hact
    exact hact

/-- What a kept relation preserves holds after the action, whether or not it fails. -/
theorem of_keeps {R : σ → σ → Prop} {act : EStateM ε σ α} (h : Keeps R act)
    (hP : ∀ s s', R s s' → P s → P s') : Ensures P act (fun _ => P) fun _ => P := by
  intro s hs
  have hr := h s
  cases ha : act s with
  | ok a s' =>
    rw [after_ok ha] at hr
    exact hP s s' hr hs
  | error e s' =>
    rw [after_error ha] at hr
    exact hP s s' hr hs

/-- What holds however the action ends holds of the state after it. -/
theorem after {R : σ → Prop} {act : EStateM ε σ α} (h : Ensures P act (fun _ => R) fun _ => R) {s : σ}
    (hs : P s) : R (CoopKernel.after act s) := by
  have hact := h s hs
  cases ha : act s with
  | ok a s' =>
    rw [ha] at hact
    rw [after_ok ha]
    exact hact
  | error e s' =>
    rw [ha] at hact
    rw [after_error ha]
    exact hact

theorem keeps {act : EStateM ε σ α} (h : Ensures P act (fun _ => P) fun _ => P) :
    Keeps (Stays P) act :=
  fun _ hs => h.after hs

end Ensures

end CoopKernel
