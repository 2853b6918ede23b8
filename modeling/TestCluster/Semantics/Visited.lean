import Mathlib.Data.List.Count
import Mathlib.Logic.Function.Basic

/-!
# Marks on the nodes of a finite graph

A search through a graph marks the nodes that it comes to, and goes no further at a node that has
a mark. Marks stay, so that there are fewer nodes without one each time the search goes on.

## Main definitions

* `Semantics.Extends` — marks that stay
* `Semantics.unmarked` — how many of the first nodes have no mark

## Main results

* `Extends.unmarked_le`, `unmarked_update_lt` — the measure of a search
-/

namespace Semantics

variable {α : Type*}

/-- Marks stay, and there may be more of them. -/
def Extends (m m' : ℕ → Option α) : Prop := ∀ r a, m r = some a → m' r = some a

/-- How many of the nodes below `n` have no mark. -/
def unmarked (n : ℕ) (m : ℕ → Option α) : ℕ := (List.range n).countP fun r => (m r).isNone

variable {m m' m'' : ℕ → Option α} {n r : ℕ} {a : α}

theorem unmarked_le_of_eq_none (h : ∀ r, m' r = none → m r = none) (n : ℕ) :
    unmarked n m' ≤ unmarked n m := by
  refine List.countP_mono_left fun r _ hr => ?_
  rw [Option.isNone_iff_eq_none] at hr ⊢
  exact h r hr

namespace Extends

theorem refl (m : ℕ → Option α) : Extends m m := fun _ _ => id

theorem trans (h : Extends m m') (h' : Extends m' m'') : Extends m m'' := fun r a hr =>
  h' r a (h r a hr)

theorem eq_none (h : Extends m m') (hr : m' r = none) : m r = none := by
  cases hm : m r with
  | none => rfl
  | some a =>
    rw [h r a hm] at hr
    cases hr

theorem update (hr : m r = none) (a : α) : Extends m (Function.update m r (some a)) := by
  intro r' a' hr'
  rwa [Function.update_of_ne]
  rintro rfl
  rw [hr] at hr'
  cases hr'

theorem unmarked_le (h : Extends m m') (n : ℕ) : unmarked n m' ≤ unmarked n m :=
  unmarked_le_of_eq_none (fun _ => h.eq_none) n

end Extends

/-- A new mark is one less to come. -/
theorem unmarked_update_lt (hr : m r = none) (hlt : r < n) (a : α) :
    unmarked n (Function.update m r (some a)) < unmarked n m := by
  obtain ⟨before, after, hsplit⟩ := List.append_of_mem (List.mem_range.mpr hlt)
  have hle (l : List ℕ) : l.countP (fun k => (Function.update m r (some a) k).isNone) ≤
      l.countP fun k => (m k).isNone := by
    refine List.countP_mono_left fun k _ hk => ?_
    rw [Option.isNone_iff_eq_none] at hk ⊢
    exact (Extends.update hr a).eq_none hk
  rw [unmarked, unmarked, hsplit, List.countP_append, List.countP_append,
    List.countP_cons_of_neg (by rw [Function.update_self]; exact Bool.false_ne_true),
    List.countP_cons_of_pos (by rw [hr]; rfl)]
  have hbefore := hle before
  have hafter := hle after
  omega

theorem unmarked_le (n : ℕ) (m : ℕ → Option α) : unmarked n m ≤ n :=
  Nat.le_trans List.countP_le_length (Nat.le_of_eq List.length_range)

theorem unmarked_empty (n : ℕ) : unmarked n (fun _ => (none : Option α)) = n := by
  rw [unmarked, List.countP_eq_length.mpr]
  · exact List.length_range
  · intro r _
    rfl

end Semantics
