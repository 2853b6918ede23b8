import Mathlib.Logic.Function.Basic

/-!
# Tables

The tables of a program are functions, into `Option` where a key may have no value, and an
assignment is a `Function.update`. What is found after it was assigned, or was there before. A
table that holds both directions of a relation pairs its keys up.

## Main definitions

* `Semantics.Pairing` — a table that pairs keys up

## Main results

* `update_cases` — what is found after an assignment
* `Pairing.unpair`, `Pairing.pair` — a pair is taken out, and put in
-/

namespace Semantics

section Update

variable {K V : Type*} [DecidableEq K] {k k' : K}

/-- What is found after an assignment was assigned, or is the value of another key. -/
theorem update_cases {t : K → V} {v v' : V} (h : Function.update t k v k' = v') :
    k' = k ∧ v = v' ∨ k' ≠ k ∧ t k' = v' := by
  by_cases hk : k' = k
  · subst hk
    rw [Function.update_self] at h
    exact Or.inl ⟨rfl, h⟩
  · rw [Function.update_of_ne hk] at h
    exact Or.inr ⟨hk, h⟩

/-- What is found after a key was taken out is the value of another one. -/
theorem update_none_eq_some {t : K → Option V} {v : V}
    (h : Function.update t k none k' = some v) : k' ≠ k ∧ t k' = some v := by
  rcases update_cases h with ⟨-, hnone⟩ | hold
  · cases hnone
  · exact hold

end Update

/-! ### Tables that pair keys up -/

section Pairing

variable {K : Type*} [DecidableEq K] {t : K → Option K} {k v : K}

/-- The value of a key has the key for its own value. -/
def Pairing (t : K → Option K) : Prop := ∀ k v, t k = some v → t v = some k

omit [DecidableEq K] in
theorem pairing_empty : Pairing fun _ : K => none := by
  intro k v h
  cases h

omit [DecidableEq K] in
theorem Pairing.iff (h : Pairing t) : t k = some v ↔ t v = some k := ⟨h k v, h v k⟩

omit [DecidableEq K] in
/-- No two keys have one value. -/
theorem Pairing.inj {k' : K} (h : Pairing t) (hk : t k = some v) (hk' : t k' = some v) :
    k = k' :=
  Option.some.inj ((h k v hk).symm.trans (h k' v hk'))

/-- A pair is taken out. -/
theorem Pairing.unpair (h : Pairing t) (hk : t k = some v) :
    Pairing (Function.update (Function.update t v none) k none) := by
  have hv := h k v hk
  intro k' v' hk'
  obtain ⟨hne, hk'⟩ := update_none_eq_some hk'
  obtain ⟨hne', hk'⟩ := update_none_eq_some hk'
  -- the other keys are paired with each other
  have hkv : v' ≠ k := fun heq => hne' (h.inj hk' (hv.trans (congrArg some heq.symm)))
  have hvv : v' ≠ v := fun heq => hne (h.inj hk' (hk.trans (congrArg some heq.symm)))
  rw [Function.update_of_ne hkv, Function.update_of_ne hvv]
  exact h k' v' hk'

/-- Two keys that are free are paired. -/
theorem Pairing.pair (h : Pairing t) (hk : t k = none) (hv : t v = none) (hne : k ≠ v) :
    Pairing (Function.update (Function.update t k (some v)) v (some k)) := by
  intro k' v' hk'
  rcases update_cases hk' with ⟨rfl, hnew⟩ | ⟨-, hk'⟩
  · obtain rfl := Option.some.inj hnew
    rw [Function.update_of_ne hne, Function.update_self]
  rcases update_cases hk' with ⟨rfl, hnew⟩ | ⟨-, hk'⟩
  · obtain rfl := Option.some.inj hnew
    rw [Function.update_self]
  · -- what was paired before has no free key in it
    have hback := h k' v' hk'
    have hvv : v' ≠ v := by
      rintro rfl
      cases hv.symm.trans hback
    have hkv : v' ≠ k := by
      rintro rfl
      cases hk.symm.trans hback
    rw [Function.update_of_ne hvv, Function.update_of_ne hkv]
    exact hback

end Pairing

end Semantics
