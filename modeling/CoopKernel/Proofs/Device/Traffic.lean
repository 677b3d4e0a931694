/-!
# Bytes that pass through a store

A store keeps things in order: they enter behind those that are there and leave in front. If that is so of each event,
then along any events what was there, and behind it what entered, is what left, and behind it what is there.
-/

namespace CoopKernel

variable {σ ε α : Type} (step : σ → ε → σ)

/-- All that comes along a list of events, of which each brings something. -/
def along (out : σ → ε → List α) (s : σ) : List ε → List α
  | [] => []
  | e :: events => out s e ++ along out (step s e) events

variable {step}

theorem along_append (out : σ → ε → List α) (s : σ) (events more : List ε) :
    along step out s (events ++ more) = along step out s events ++ along step out (events.foldl step s) more := by
  induction events generalizing s with
  | nil => rfl
  | cons e events ih => rw [List.cons_append, along, along, ih, List.append_assoc, List.foldl_cons]

theorem along_eq_nil {out : σ → ε → List α} (h : ∀ s e, out s e = []) (s : σ) (events : List ε) :
    along step out s events = [] := by
  induction events generalizing s with
  | nil => rfl
  | cons e events ih => rw [along, h, ih, List.append_nil]

/-- What enters the store by an event goes behind what is there, and what leaves it comes from the front. -/
def Conserves (step : σ → ε → σ) (stock : σ → List α) (entered left : σ → ε → List α) : Prop :=
  ∀ s e, stock s ++ entered s e = left s e ++ stock (step s e)

variable {stock : σ → List α} {entered left : σ → ε → List α}

theorem Conserves.total (h : Conserves step stock entered left) (s : σ) (events : List ε) :
    stock s ++ along step entered s events = along step left s events ++ stock (events.foldl step s) := by
  induction events generalizing s with
  | nil => exact List.append_nil _
  | cons e events ih =>
    calc
      stock s ++ along step entered s (e :: events)
      _ = stock s ++ entered s e ++ along step entered (step s e) events := (List.append_assoc ..).symm
      _ = left s e ++ (stock (step s e) ++ along step entered (step s e) events) := by
        rw [h s e, List.append_assoc]
      _ = left s e ++ (along step left (step s e) events ++ stock (events.foldl step (step s e))) := by
        rw [ih]
      _ = along step left s (e :: events) ++ stock ((e :: events).foldl step s) :=
        (List.append_assoc ..).symm

/-- A store that nothing enters. -/
theorem Conserves.drains (h : Conserves step stock (fun _ _ => []) left) (s : σ) (events : List ε) :
    along step left s events ++ stock (events.foldl step s) = stock s := by
  have htotal := h.total s events
  rw [along_eq_nil fun _ _ => rfl, List.append_nil] at htotal
  exact htotal.symm

/-- A store that nothing leaves. -/
theorem Conserves.fills (h : Conserves step stock entered fun _ _ => []) (s : σ) (events : List ε) :
    stock (events.foldl step s) = stock s ++ along step entered s events := by
  have htotal := h.total s events
  rw [along_eq_nil fun _ _ => rfl, List.nil_append] at htotal
  exact htotal.symm

end CoopKernel
