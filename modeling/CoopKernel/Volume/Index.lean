/-!
# Ordered indexes

An index is a list of keys with values in ascending order of the keys, so that equal contents are
equal lists. What it holds is seen through `find?`, and every operation is described by what it does
to that view.
-/

namespace CoopKernel.Index

variable {κ ν : Type} [DecidableEq κ]

/-- The value of a key. -/
def find? (k : κ) : List (κ × ν) → Option ν
  | [] => none
  | (key, value) :: rest => if key = k then some value else find? k rest

/-- Puts a value in the place that its key has in the order, instead of an earlier value of the
key. -/
def insert (before : κ → κ → Bool) (k : κ) (v : ν) : List (κ × ν) → List (κ × ν)
  | [] => [(k, v)]
  | (key, value) :: rest =>
    if key = k then (k, v) :: rest
    else if before k key then (k, v) :: (key, value) :: rest
    else (key, value) :: insert before k v rest

/-- Changes the value of a key, if there is one. -/
def adjust (k : κ) (f : ν → ν) : List (κ × ν) → List (κ × ν)
  | [] => []
  | (key, value) :: rest =>
    if key = k then (key, f value) :: rest else (key, value) :: adjust k f rest

/-- Removes a key. -/
def erase (k : κ) : List (κ × ν) → List (κ × ν)
  | [] => []
  | (key, value) :: rest => if key = k then erase k rest else (key, value) :: erase k rest

/-! ## The view -/

theorem find?_insert (before : κ → κ → Bool) (k : κ) (v : ν) (entries : List (κ × ν)) (q : κ) :
    find? q (insert before k v entries) = if k = q then some v else find? q entries := by
  induction entries with
  | nil => rfl
  | cons entry rest ih =>
    obtain ⟨key, value⟩ := entry
    by_cases hk : key = k
    · subst hk
      simp only [insert, find?, if_true]
      split <;> rfl
    · by_cases hb : before k key
      · simp [insert, find?, hk, hb]
      · by_cases hq : key = q
        · subst hq
          simp [insert, find?, hk, hb, Ne.symm hk]
        · simp [insert, find?, hk, hb, hq, ih]

theorem find?_adjust (k : κ) (f : ν → ν) (entries : List (κ × ν)) (q : κ) :
    find? q (adjust k f entries) = if k = q then (find? q entries).map f else find? q entries := by
  induction entries with
  | nil => simp [adjust, find?]
  | cons entry rest ih =>
    obtain ⟨key, value⟩ := entry
    by_cases hk : key = k
    · subst hk
      by_cases hq : key = q <;> simp [adjust, find?, hq]
    · by_cases hq : key = q
      · subst hq
        simp [adjust, find?, hk, Ne.symm hk]
      · simp [adjust, find?, hk, hq, ih]

theorem find?_erase (k : κ) (entries : List (κ × ν)) (q : κ) :
    find? q (erase k entries) = if k = q then none else find? q entries := by
  induction entries with
  | nil => simp [erase, find?]
  | cons entry rest ih =>
    obtain ⟨key, value⟩ := entry
    by_cases hk : key = k
    · subst hk
      simp only [erase, if_true, ih, find?]
      by_cases hq : key = q <;> simp only [hq, if_true, if_false]
    · by_cases hq : key = q
      · subst hq
        simp [erase, find?, hk, Ne.symm hk]
      · simp [erase, find?, hk, hq, ih]

end CoopKernel.Index
