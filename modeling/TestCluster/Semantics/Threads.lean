import Mathlib.Data.List.Basic
import Mathlib.Tactic.SplitIfs

/-!
# Threads over a shared state

A pool of threads, each with a program counter of its own, works on one shared state; in every step
one of the threads does its next action. What the threads have together, such as the references or
the tokens in their hands, is counted over the pool, and an action changes the count by what it
does to the one thread.

## Main definitions

* `Semantics.Pool` — the shared state and the program counters of the threads
* `Pool.advance` — one thread does its next action
* `Pool.total` — what the threads have together

## Main results

* `Pool.total_set` — an action changes the total by the change of its thread
* `Pool.eq_of_total_le_one` — what there is once is in the hands of one thread
-/

namespace Semantics

variable {σ α : Type*}

/-- Threads that share a state. -/
structure Pool (σ α : Type*) where
  shared : σ
  threads : List α

namespace Pool

/-- A new thread. -/
def spawn (p : Pool σ α) (a : α) : Pool σ α := { p with threads := p.threads ++ [a] }

/-- The thread with a number does its next action, if there is such a thread; `none` if the action
fails. -/
def advance (act : σ → α → Option (σ × α)) (p : Pool σ α) (i : ℕ) : Option (Pool σ α) :=
  match p.threads[i]? with
  | none => some p
  | some a => (act p.shared a).map fun r => ⟨r.1, p.threads.set i r.2⟩

/-- What the threads have together. -/
def total (threads : List α) (f : α → ℕ) : ℕ :=
  match threads with
  | [] => 0
  | a :: threads => f a + total threads f

@[simp] theorem total_nil (f : α → ℕ) : total [] f = 0 := rfl

@[simp] theorem total_cons (a : α) (threads : List α) (f : α → ℕ) :
    total (a :: threads) f = f a + total threads f := rfl

@[simp] theorem total_concat (threads : List α) (a : α) (f : α → ℕ) :
    total (threads ++ [a]) f = total threads f + f a := by
  induction threads with
  | nil => simp
  | cons b threads ih => rw [List.cons_append, total_cons, total_cons, ih, Nat.add_assoc]

/-- An action changes the total by the change of its thread. -/
theorem total_set {threads : List α} {i : ℕ} {a : α} (h : threads[i]? = some a) (a' : α)
    (f : α → ℕ) : total (threads.set i a') f + f a = total threads f + f a' := by
  induction threads generalizing i with
  | nil => cases h
  | cons b threads ih =>
    cases i with
    | zero =>
      obtain rfl := Option.some.inj h
      rw [List.set_cons_zero, total_cons, total_cons]
      omega
    | succ i =>
      have := ih h
      rw [List.set_cons_succ, total_cons, total_cons]
      omega

theorem le_total {threads : List α} {a : α} (h : a ∈ threads) (f : α → ℕ) :
    f a ≤ total threads f := by
  induction threads with
  | nil => cases h
  | cons b threads ih =>
    rw [total_cons]
    rcases List.mem_cons.mp h with rfl | hmem
    · omega
    · have := ih hmem
      omega

theorem exists_of_total_ne_zero {threads : List α} {f : α → ℕ} (h : total threads f ≠ 0) :
    ∃ a ∈ threads, f a ≠ 0 := by
  induction threads with
  | nil => exact absurd rfl h
  | cons b threads ih =>
    by_cases hb : f b = 0
    · rw [total_cons, hb, Nat.zero_add] at h
      obtain ⟨a, ha, hfa⟩ := ih h
      exact ⟨a, List.mem_cons_of_mem _ ha, hfa⟩
    · exact ⟨b, List.mem_cons_self, hb⟩

theorem total_eq_zero {threads : List α} {f : α → ℕ} (h : ∀ a ∈ threads, f a = 0) :
    total threads f = 0 := by
  by_contra hne
  obtain ⟨a, ha, hfa⟩ := exists_of_total_ne_zero hne
  exact hfa (h a ha)

/-- What there is at most once in the pool is in the hands of one thread. -/
theorem eq_of_total_le_one {threads : List α} {f : α → ℕ} (h : total threads f ≤ 1) {i j : ℕ}
    {a b : α} (hi : threads[i]? = some a) (hj : threads[j]? = some b) (ha : f a ≠ 0)
    (hb : f b ≠ 0) : i = j := by
  by_contra hne
  induction threads generalizing i j with
  | nil => cases hi
  | cons c threads ih =>
    rw [total_cons] at h
    cases i with
    | zero =>
      obtain rfl := Option.some.inj hi
      cases j with
      | zero => exact hne rfl
      | succ j =>
        have := le_total (List.mem_of_getElem? (i := j) hj) f
        omega
    | succ i =>
      cases j with
      | zero =>
        obtain rfl := Option.some.inj hj
        have := le_total (List.mem_of_getElem? (i := i) hi) f
        omega
      | succ j => exact ih (by omega) hi hj (by omega)

/-- What holds of all threads and of the new program counter holds of all threads afterwards. -/
theorem forall_set {P : α → Prop} {threads : List α} (h : ∀ a ∈ threads, P a) {a' : α} (ha' : P a')
    (i : ℕ) : ∀ a ∈ threads.set i a', P a := by
  intro a ha
  rcases List.mem_or_eq_of_mem_set ha with hmem | rfl
  · exact h a hmem
  · exact ha'

end Pool

end Semantics
