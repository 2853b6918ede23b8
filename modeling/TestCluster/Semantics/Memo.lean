import TestCluster.Semantics.Table

/-!
# Tables of what was looked up

A table is filled by lookups: a key that is not in it yet is computed, and what it gives is kept.
The computation may depend on something that changes while the table stays.

Programs that look things up are compared by what they return, in states that are related: the
one has a table, and the other computes every time.

## Main definitions

* `Semantics.Memo`, `Memo.lookup` — a table, and a lookup that fills it
* `Memo.Agrees` — what is in the table is what would be computed
* `Semantics.Alike` — two programs return the same and lead to related states

## Main results

* `Memo.agrees_iff` — a table agrees exactly if all lookups give what is computed
* `Alike.bind` — programs that are alike step by step are alike
-/

namespace Semantics

/-- A table of values that were computed. -/
abbrev Memo (K V : Type*) := K → Option V

namespace Memo

variable {K V : Type*}

/-- The empty table. -/
def empty : Memo K V := fun _ => none

/-- The value of a key: from the table, or else computed and kept. -/
def lookup [DecidableEq K] (m : Memo K V) (f : K → Option V) (k : K) : Option V × Memo K V :=
  match m k with
  | some v => (some v, m)
  | none => (f k, Function.update m k (f k))

/-- Everything in the table is what would be computed. -/
def Agrees (m : Memo K V) (f : K → Option V) : Prop := ∀ k v, m k = some v → f k = some v

theorem agrees_empty (f : K → Option V) : Agrees empty f := by
  intro k v hk
  cases hk

variable [DecidableEq K] {m : Memo K V} {f : K → Option V} {k : K} {v : V}

theorem lookup_of_some (h : m k = some v) : m.lookup f k = (some v, m) := by
  simp only [lookup, h]

theorem lookup_of_none (h : m k = none) : m.lookup f k = (f k, Function.update m k (f k)) := by
  simp only [lookup, h]

namespace Agrees

theorem lookup_fst (h : m.Agrees f) (k : K) : (m.lookup f k).1 = f k := by
  cases hk : m k with
  | some v => rw [lookup_of_some hk, h k v hk]
  | none => rw [lookup_of_none hk]

theorem lookup_snd (h : m.Agrees f) (k : K) : (m.lookup f k).2.Agrees f := by
  cases hk : m k with
  | some v => rwa [lookup_of_some hk]
  | none =>
    rw [lookup_of_none hk]
    intro k' v' hk'
    rcases update_cases hk' with ⟨rfl, hnew⟩ | ⟨-, hold⟩
    · exact hnew
    · exact h k' v' hold

end Agrees

/-- A table agrees with a computation exactly if no lookup tells them apart. -/
theorem agrees_iff : m.Agrees f ↔ ∀ k, (m.lookup f k).1 = f k := by
  constructor
  · exact Agrees.lookup_fst
  · intro h k v hk
    rw [← h k, lookup_of_some hk]

end Memo

/-! ### Programs that look things up -/

section Alike

variable {σ τ ε α β : Type} {R : σ → τ → Prop}

theorem run_bind_ok {x : ExceptT ε (StateM σ) α} {f : α → ExceptT ε (StateM σ) β} {s s' : σ}
    {a : α} (h : x.run.run s = (.ok a, s')) : (x >>= f).run.run s = (f a).run.run s' := by
  have hbind : (x >>= f).run.run s = ((x.run >>= ExceptT.bindCont f).run s) := rfl
  rw [hbind, StateT.run_bind, h]
  rfl

theorem run_bind_error {x : ExceptT ε (StateM σ) α} {f : α → ExceptT ε (StateM σ) β} {s s' : σ}
    {e : ε} (h : x.run.run s = (.error e, s')) : (x >>= f).run.run s = (.error e, s') := by
  have hbind : (x >>= f).run.run s = ((x.run >>= ExceptT.bindCont f).run s) := rfl
  rw [hbind, StateT.run_bind, h]
  rfl

/-- From related states both programs return or raise the same, and end in related states. -/
def Alike (R : σ → τ → Prop) (x : ExceptT ε (StateM σ) α) (y : ExceptT ε (StateM τ) α) : Prop :=
  ∀ s t, R s t → (x.run.run s).1 = (y.run.run t).1 ∧ R (x.run.run s).2 (y.run.run t).2

namespace Alike

theorem pure (a : α) : Alike R (Pure.pure a : ExceptT ε (StateM σ) α) (Pure.pure a) :=
  fun _ _ h => ⟨rfl, h⟩

theorem throw (e : ε) : Alike R (MonadExcept.throw e : ExceptT ε (StateM σ) α)
    (MonadExcept.throw e) :=
  fun _ _ h => ⟨rfl, h⟩

theorem bind {x : ExceptT ε (StateM σ) α} {y : ExceptT ε (StateM τ) α}
    {f : α → ExceptT ε (StateM σ) β} {g : α → ExceptT ε (StateM τ) β} (hx : Alike R x y)
    (hf : ∀ a, Alike R (f a) (g a)) : Alike R (x >>= f) (y >>= g) := by
  intro s t h
  obtain ⟨hfst, hsnd⟩ := hx s t h
  cases hleft : x.run.run s with
  | mk r s' =>
    cases hright : y.run.run t with
    | mk r' t' =>
      rw [hleft, hright] at hfst hsnd
      obtain rfl : r = r' := hfst
      cases r with
      | error e =>
        rw [run_bind_error hleft, run_bind_error hright]
        exact ⟨rfl, hsnd⟩
      | ok a =>
        rw [run_bind_ok hleft, run_bind_ok hright]
        exact hf a s' t' hsnd

theorem lift {x : StateM σ α} {y : StateM τ α}
    (h : ∀ s t, R s t → (x.run s).1 = (y.run t).1 ∧ R (x.run s).2 (y.run t).2) :
    Alike R (liftM x : ExceptT ε (StateM σ) α) (liftM y) := by
  intro s t hst
  obtain ⟨hfst, hsnd⟩ := h s t hst
  exact ⟨congrArg Except.ok hfst, hsnd⟩

theorem of_except (r : Except ε α) :
    Alike R (liftExcept r : ExceptT ε (StateM σ) α) (liftExcept r) := by
  cases r with
  | ok a => exact pure a
  | error e => exact throw e

end Alike

end Alike

end Semantics
