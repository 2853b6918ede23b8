import Mathlib.Data.List.Basic
import Mathlib.Data.Nat.ModEq
import Mathlib.Logic.Function.Basic
import Mathlib.Tactic.SplitIfs

/-!
# Ring buffers that grow

A queue in an array: the items stand from the head on, behind the last cell at the first one again,
and one cell is always free, so that the head and the tail are equal for the empty queue only. When
the last free cell is used the items are copied to a larger array.

## Main definitions

* `Semantics.RingBuffer` — the array, with its head and tail inside
* `RingBuffer.toList` — the items, the oldest one first
* `RingBuffer.push`, `RingBuffer.pop`, `RingBuffer.length` — the operations

## Main results

* `toList_push`, `pop_eq` — the operations are those of a queue
* `length_eq_zero_iff` — the queue is empty if and only if head and tail are equal
-/

namespace Semantics

variable {α : Type*}

/-- An array of cells with the positions of the oldest item and of the first free cell. -/
structure RingBuffer (α : Type*) where
  cap : ℕ
  head : ℕ
  tail : ℕ
  cell : ℕ → α
  head_lt : head < cap
  tail_lt : tail < cap

namespace RingBuffer

/-- The empty queue in an array whose cells can be anything. -/
def empty (cap : ℕ) (h : 0 < cap) (cell : ℕ → α) : RingBuffer α := ⟨cap, 0, 0, cell, h, h⟩

/-- The number of items. -/
def length (r : RingBuffer α) : ℕ :=
  if r.head ≤ r.tail then r.tail - r.head else r.tail + r.cap - r.head

/-- The items, the oldest one first. -/
def toList (r : RingBuffer α) : List α :=
  (List.range r.length).map fun i => r.cell ((r.head + i) % r.cap)

/-- The position behind a position. -/
def next (r : RingBuffer α) (i : ℕ) : ℕ := if i + 1 ≥ r.cap then 0 else i + 1

theorem next_lt (r : RingBuffer α) (i : ℕ) : r.next i < r.cap := by
  have := r.head_lt
  rw [next]
  split_ifs <;> omega

/-- The cells copied in order to the start of an array of `newCap` cells. -/
def grown (r : RingBuffer α) (newCap : ℕ) (h : r.cap < newCap) : RingBuffer α where
  cap := newCap
  head := 0
  tail := r.cap
  cell := fun i => r.cell ((r.head + i) % r.cap)
  head_lt := Nat.zero_lt_of_lt h
  tail_lt := h

/-- An item is put behind the others; if no cell is free then, the array grows. -/
def push (grow : ℕ → ℕ) (hgrow : ∀ n, 0 < n → n < grow n) (r : RingBuffer α) (a : α) : RingBuffer α :=
  let r : RingBuffer α :=
    { r with cell := Function.update r.cell r.tail a, tail := r.next r.tail,
             tail_lt := r.next_lt r.tail }
  if r.head = r.tail then r.grown (grow r.cap) (hgrow r.cap (Nat.zero_lt_of_lt r.head_lt)) else r

/-- The oldest item is taken out. -/
def pop (r : RingBuffer α) : Option (α × RingBuffer α) :=
  if r.head ≠ r.tail then
    some (r.cell r.head, { r with head := r.next r.head, head_lt := r.next_lt r.head })
  else none

@[simp] theorem toList_empty (cap : ℕ) (h : 0 < cap) (cell : ℕ → α) :
    (empty cap h cell).toList = [] := by
  simp [toList, length, empty]

@[simp] theorem length_toList (r : RingBuffer α) : r.toList.length = r.length := by
  simp [toList]

theorem length_eq_zero_iff (r : RingBuffer α) : r.length = 0 ↔ r.head = r.tail := by
  have hhead := r.head_lt
  have htail := r.tail_lt
  rw [length]
  split_ifs <;> omega

theorem length_lt (r : RingBuffer α) : r.length < r.cap := by
  have hhead := r.head_lt
  have htail := r.tail_lt
  rw [length]
  split_ifs <;> omega

/-- The first free cell is the one behind the items. -/
theorem tail_eq (r : RingBuffer α) : r.tail = (r.head + r.length) % r.cap := by
  have hhead := r.head_lt
  have htail := r.tail_lt
  rw [length]
  split_ifs with hle
  · rw [Nat.add_sub_cancel' hle, Nat.mod_eq_of_lt htail]
  · have hwrap : r.head + (r.tail + r.cap - r.head) = r.tail + r.cap := by omega
    rw [hwrap, Nat.add_mod_right, Nat.mod_eq_of_lt htail]

theorem next_eq (r : RingBuffer α) {i : ℕ} (h : i < r.cap) : r.next i = (i + 1) % r.cap := by
  rw [next]
  split_ifs with hge
  · have hlast : i + 1 = r.cap := by omega
    rw [hlast, Nat.mod_self]
  · rw [Nat.mod_eq_of_lt (by omega)]

/-- Positions less than the capacity apart are different. -/
theorem index_ne {cap i j : ℕ} (head : ℕ) (hi : i < cap) (hj : j < cap) (hne : i ≠ j) :
    (head + i) % cap ≠ (head + j) % cap := by
  intro heq
  have hmod : i ≡ j [MOD cap] := Nat.ModEq.add_left_cancel' head heq
  exact hne (Nat.ModEq.eq_of_lt_of_lt hmod hi hj)

/-- The items of a queue from which nothing was taken, told by its length. -/
theorem toList_eq_of_length {r : RingBuffer α} {n : ℕ} (h : r.length = n) :
    r.toList = (List.range n).map fun i => r.cell ((r.head + i) % r.cap) := by
  rw [toList, h]

/-- The array grows without a change of the queue. -/
theorem toList_grown (r : RingBuffer α) {newCap : ℕ} (h : r.cap < newCap) :
    (r.grown newCap h).toList =
      (List.range r.cap).map fun i => r.cell ((r.head + i) % r.cap) := by
  have hlength : (r.grown newCap h).length = r.cap := by
    rw [length]
    simp [grown]
  rw [toList_eq_of_length hlength]
  refine List.map_congr_left fun i hi => ?_
  have hlt : i < newCap := lt_trans (List.mem_range.mp hi) h
  simp only [grown, Nat.zero_add, Nat.mod_eq_of_lt hlt]

/-- **Push.** An item comes behind the others, whether the array grows or not. -/
theorem toList_push (grow : ℕ → ℕ) (hgrow : ∀ n, 0 < n → n < grow n) (r : RingBuffer α) (a : α) :
    (r.push grow hgrow a).toList = r.toList ++ [a] := by
  have hlt := r.length_lt
  -- the items before and the new one, in the cells from the head on
  have hcells : (List.range (r.length + 1)).map
      (fun i => Function.update r.cell r.tail a ((r.head + i) % r.cap)) = r.toList ++ [a] := by
    rw [List.range_succ, List.map_append, toList]
    congr 1
    · refine List.map_congr_left fun i hi => ?_
      have hi := List.mem_range.mp hi
      rw [Function.update_of_ne]
      rw [tail_eq]
      exact index_ne r.head (by omega) hlt (by omega)
    · rw [List.map_singleton, ← tail_eq, Function.update_self]
  have hnext : r.next r.tail = (r.head + (r.length + 1)) % r.cap := by
    rw [next_eq r r.tail_lt]
    nth_rewrite 1 [tail_eq]
    rw [Nat.mod_add_mod, Nat.add_assoc]
  rw [push]
  simp only
  split_ifs with hfull
  · -- no cell is free
    have hcap : r.length + 1 = r.cap := by
      by_contra hne
      refine index_ne (i := 0) (j := r.length + 1) r.head (Nat.zero_lt_of_lt hlt) (by omega)
        (by omega) ?_
      rw [← hnext, ← hfull, Nat.add_zero, Nat.mod_eq_of_lt r.head_lt]
    rw [toList_grown, ← hcells, hcap]
  · rw [← hcells]
    refine toList_eq_of_length ?_
    have hhead := r.head_lt
    have htail := r.tail_lt
    simp only [next, length] at hfull ⊢
    split_ifs at hfull ⊢ <;> omega

/-- **Pop.** The oldest item is taken out; there is none if the queue is empty. -/
theorem pop_eq (r : RingBuffer α) :
    (∃ a r', r.pop = some (a, r') ∧ r.toList = a :: r'.toList) ∨ r.pop = none ∧ r.toList = [] := by
  rw [pop]
  by_cases hne : r.head ≠ r.tail
  · refine Or.inl ⟨_, _, if_pos hne, ?_⟩
    have hhead := r.head_lt
    have htail := r.tail_lt
    generalize hr' : ({ r with head := r.next r.head, head_lt := r.next_lt r.head } : RingBuffer α) = r'
    have hnext : r'.head = r.next r.head := by rw [← hr']
    have hlength : r.length = r'.length + 1 := by
      rw [length, length, ← hr']
      simp only [next]
      split_ifs <;> omega
    rw [toList_eq_of_length hlength, List.range_succ_eq_map, List.map_cons, List.map_map, toList,
      Nat.add_zero, Nat.mod_eq_of_lt hhead]
    congr 1
    refine List.map_congr_left fun i _ => ?_
    rw [hnext, next_eq r hhead]
    simp only [← hr', Function.comp_apply, Nat.mod_add_mod, Nat.succ_eq_add_one]
    congr 2
    omega
  · have heq : r.head = r.tail := not_not.mp hne
    refine Or.inr ⟨if_neg hne, ?_⟩
    rw [← List.length_eq_zero_iff, length_toList, length_eq_zero_iff]
    exact heq

end RingBuffer

end Semantics
