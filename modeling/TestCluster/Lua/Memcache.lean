import Mathlib.Algebra.Order.Ring.Int
import Mathlib.Data.Nat.Cast.Order.Ring
import Mathlib.Tactic.SplitIfs
import TestCluster.Semantics.Machine

/-!
# The queue of `memcache`

`lua/common/memcache.lua`: a table with a head and a tail. The head is 0 until the first
object is pushed.

## Main definitions

* `Memcache` — the table
* `Memcache.Holds` — the objects of the table in the order of their pushes
* `Memcache.perform`, `Memcache.performList` — the operations, of the table and of a list

## Main results

* `Holds.size_eq`, `Holds.pushBack`, `Holds.pop`, `Holds.popBack`, `Holds.init` — the operations
  are those of a list
* `results_eq_list` — whatever the operations, in whatever order, they return what those of a
  list return
-/

namespace TestCluster.Lua

open Semantics

/-- A table with the entries of a list and no others, as `table.insert` takes it. -/
structure Sequence (α : Type) where
  entries : ℤ → Option α
  length : ℕ
  entries_ne_none : ∀ k, entries k ≠ none ↔ 1 ≤ k ∧ k ≤ length

namespace Sequence

variable {α : Type}

/-- `{}` -/
def empty (α : Type) : Sequence α where
  entries _ := none
  length := 0
  entries_ne_none k := by
    constructor
    · exact fun h => absurd rfl h
    · rintro ⟨hone, hzero⟩
      exact absurd (hone.trans hzero) (by decide)

/-- The length is what `#t` is, of which the manual says that there is an entry at it, unless it
is 0, and none after it. -/
theorem border_iff (t : Sequence α) {n : ℤ} (hn : 0 ≤ n) :
    ((n = 0 ∨ t.entries n ≠ none) ∧ t.entries (n + 1) = none) ↔ n = t.length := by
  have hlast := t.entries_ne_none n
  have hnext := not_congr (t.entries_ne_none (n + 1))
  rw [not_not] at hnext
  rw [hlast, hnext]
  omega

/-- `table.insert` -/
def insert (t : Sequence α) (v : α) : Sequence α where
  entries := Function.update t.entries (t.length + 1) (some v)
  length := t.length + 1
  entries_ne_none k := by
    by_cases hk : k = t.length + 1
    · subst hk
      rw [Function.update_self]
      exact ⟨fun _ => ⟨by omega, by push_cast; exact le_rfl⟩, fun _ h => by cases h⟩
    · rw [Function.update_of_ne hk, t.entries_ne_none]
      push_cast
      omega

end Sequence

/-- A `memcache`. -/
structure Memcache (α : Type) where
  tail : ℤ
  head : ℤ
  cache : ℤ → Option α

namespace Memcache

variable {α : Type}

/-- `memcache:ctor`. -/
def new (α : Type) : Memcache α := ⟨0, 0, fun _ => none⟩

variable (m : Memcache α)

/-- `memcache:pop`. -/
def pop : Option α × Memcache α :=
  match m.cache m.head with
  | some obj =>
    (some obj, { m with cache := Function.update m.cache m.head none, head := m.head + 1 })
  | none => (none, m)

/-- `memcache:push_back`, of an object that is not `nil`. -/
def pushBack (obj : α) : Memcache α where
  tail := m.tail + 1
  head := if m.head = 0 then 1 else m.head
  cache := Function.update m.cache (m.tail + 1) (some obj)

/-- `memcache:push_back`, of anything. -/
def pushBackValue : Option α → Bool × Memcache α
  | none => (false, m)
  | some obj => (true, m.pushBack obj)

/-- `memcache:pop_back`. -/
def popBack : Option α × Memcache α :=
  match m.cache m.tail with
  | some obj =>
    (some obj, { m with cache := Function.update m.cache m.tail none, tail := m.tail - 1 })
  | none => (none, m)

/-- The loop of `memcache:init`, over the values in the order in which `pairs` has them. -/
def initLoop : List α → ℤ → ℤ → Sequence α → Memcache α
  | [], head, tail, cache => ⟨tail, head, cache.entries⟩
  | v :: objs, _head, tail, cache => initLoop objs 1 (tail + 1) (cache.insert v)

/-- `memcache:init`: what was there before goes with the call of `ctor`. -/
def init (_m : Memcache α) (objs : List α) : Memcache α := initLoop objs 0 0 (.empty α)

/-- `memcache:size`. -/
def size : ℤ := if m.tail = 0 then 0 else m.tail - m.head + 1

/-- Where the first object is, or will be. -/
def first : ℤ := max m.head 1

/-- The table holds the objects of the list. -/
structure Holds (xs : List α) : Prop where
  head_nonneg : 0 ≤ m.head
  unused : m.head = 0 → m.tail = 0
  length : m.tail + 1 = m.first + xs.length
  entries : ∀ k, m.cache k = if m.first ≤ k then xs[(k - m.first).toNat]? else none

variable {m} {xs : List α} {a : α}

theorem holds_new : (new α).Holds [] where
  head_nonneg := le_rfl
  unused _ := rfl
  length := rfl
  entries k := by
    rw [List.getElem?_nil, ite_self]
    rfl

namespace Holds

theorem first_eq (h : m.Holds xs) : m.first = if m.head = 0 then 1 else m.head := by
  have hnonneg := h.head_nonneg
  rw [first]
  split_ifs <;> omega

/-- A table that holds an object was pushed to. -/
theorem first_eq_head (h : m.Holds xs) (htail : m.tail ≠ 0) : m.first = m.head := by
  rw [h.first_eq, if_neg fun hzero => htail (h.unused hzero)]

theorem size_eq (h : m.Holds xs) : m.size = xs.length := by
  have hlength := h.length
  rw [size]
  split_ifs with htail
  · have hfirst : 1 ≤ m.first := le_max_right _ _
    omega
  · rw [h.first_eq_head htail] at hlength
    omega

theorem size_pos_iff (h : m.Holds xs) : 0 < m.size ↔ xs ≠ [] := by
  rw [h.size_eq, Nat.cast_pos, List.length_pos_iff]

theorem getElem?_eq (h : m.Holds xs) (n : ℕ) : xs[n]? = m.cache (m.first + n) := by
  rw [h.entries, if_pos (by omega), show (m.first + (n : ℤ) - m.first).toNat = n by omega]

/-- A table holds one list of objects. -/
theorem unique {ys : List α} (h : m.Holds xs) (h' : m.Holds ys) : xs = ys := by
  apply List.ext_getElem?
  intro n
  rw [h.getElem?_eq, h'.getElem?_eq]

/-- Appending changes one position. -/
theorem getElem?_concat_of_ne {n : ℕ} (hn : n ≠ xs.length) : (xs ++ [a])[n]? = xs[n]? := by
  rw [List.getElem?_append, List.getElem?_singleton]
  split_ifs with hlt hzero
  · rfl
  · omega
  · rw [List.getElem?_eq_none (not_lt.mp hlt)]

theorem pushBack (h : m.Holds xs) : (m.pushBack a).Holds (xs ++ [a]) := by
  -- the first entry is where it was, also for the first push
  have hfirst : (m.pushBack a).first = m.first := by
    rw [h.first_eq]
    show max (if m.head = 0 then (1 : ℤ) else m.head) 1 = _
    have hnonneg := h.head_nonneg
    split_ifs <;> omega
  have hone : 1 ≤ m.first := le_max_right _ _
  have hlength := h.length
  constructor
  · show 0 ≤ if m.head = 0 then (1 : ℤ) else m.head
    have hnonneg := h.head_nonneg
    split_ifs <;> omega
  · intro hzero
    have hhead : (if m.head = 0 then (1 : ℤ) else m.head) = 0 := hzero
    have hnonneg := h.head_nonneg
    split_ifs at hhead <;> omega
  · rw [hfirst, List.length_append, List.length_singleton]
    show m.tail + 1 + 1 = _
    omega
  · intro k
    rw [hfirst]
    show Function.update m.cache (m.tail + 1) (some a) k = _
    by_cases hk : k = m.tail + 1
    · subst hk
      rw [Function.update_self, if_pos (by omega),
        show (m.tail + 1 - m.first).toNat = xs.length by omega, List.getElem?_concat_length]
    · rw [Function.update_of_ne hk, h.entries k]
      split_ifs with hle
      · rw [getElem?_concat_of_ne (by omega)]
      · rfl

/-- The oldest object is taken. -/
theorem pop (h : m.Holds (a :: xs)) : m.pop.1 = some a ∧ m.pop.2.Holds xs := by
  have hlength := h.length
  rw [List.length_cons] at hlength
  have hone : 1 ≤ m.first := le_max_right _ _
  have hfirst : m.first = m.head := h.first_eq_head (by omega)
  have hentry : m.cache m.head = some a := by
    rw [h.entries, hfirst, if_pos le_rfl, sub_self]
    rfl
  -- the head has an entry, so it is taken
  have hpop : m.pop = (some a, { m with
      cache := Function.update m.cache m.head none, head := m.head + 1 }) := by
    rw [Memcache.pop, hentry]
  rw [hpop]
  refine ⟨rfl, ?_⟩
  have hnext : first { m with
      cache := Function.update m.cache m.head none, head := m.head + 1 } = m.head + 1 := by
    show max (m.head + 1) 1 = _
    omega
  constructor
  · show 0 ≤ m.head + 1
    omega
  · intro hzero
    have hhead : m.head + 1 = 0 := hzero
    omega
  · rw [hnext]
    show m.tail + 1 = _
    omega
  · intro k
    rw [hnext]
    show Function.update m.cache m.head none k = _
    by_cases hk : k = m.head
    · subst hk
      rw [Function.update_self, if_neg (by omega)]
    · rw [Function.update_of_ne hk, h.entries k, hfirst]
      by_cases hlt : m.head + 1 ≤ k
      · rw [if_pos hlt, if_pos (by omega),
          show (k - m.head).toNat = (k - (m.head + 1)).toNat + 1 by omega, List.getElem?_cons_succ]
      · rw [if_neg hlt, if_neg (by omega)]

/-- There is nothing to take from the front of an empty table. -/
theorem pop_nil (h : m.Holds []) : m.pop = (none, m) := by
  have hentry : m.cache m.head = none := by
    rw [h.entries, List.getElem?_nil, ite_self]
  rw [Memcache.pop, hentry]

/-- The newest object is taken. -/
theorem popBack (h : m.Holds (xs ++ [a])) : m.popBack.1 = some a ∧ m.popBack.2.Holds xs := by
  have hlength := h.length
  rw [List.length_append, List.length_singleton] at hlength
  have hone : 1 ≤ m.first := le_max_right _ _
  have hfirst : m.first = m.head := h.first_eq_head (by omega)
  have hentry : m.cache m.tail = some a := by
    rw [h.entries, if_pos (by omega), show (m.tail - m.first).toNat = xs.length by omega,
      List.getElem?_concat_length]
  have hpop : m.popBack = (some a, { m with
      cache := Function.update m.cache m.tail none, tail := m.tail - 1 }) := by
    rw [Memcache.popBack, hentry]
  rw [hpop]
  refine ⟨rfl, ?_⟩
  have hsame : first { m with
      cache := Function.update m.cache m.tail none, tail := m.tail - 1 } = m.first := rfl
  constructor
  · exact h.head_nonneg
  · intro hzero
    have hhead : m.head = 0 := hzero
    omega
  · rw [hsame]
    show m.tail - 1 + 1 = _
    omega
  · intro k
    rw [hsame]
    show Function.update m.cache m.tail none k = _
    by_cases hk : k = m.tail
    · subst hk
      rw [Function.update_self, List.getElem?_eq_none (by omega), ite_self]
    · rw [Function.update_of_ne hk, h.entries k]
      split_ifs with hle
      · rw [getElem?_concat_of_ne (by omega)]
      · rfl

/-- There is nothing to take from the back either. -/
theorem popBack_nil (h : m.Holds []) : m.popBack = (none, m) := by
  have hentry : m.cache m.tail = none := by
    rw [h.entries, List.getElem?_nil, ite_self]
  rw [Memcache.popBack, hentry]

/-- The loop of `memcache:init` pushes. -/
theorem initLoop {head tail : ℤ} {cache : Sequence α} (h : Holds ⟨tail, head, cache.entries⟩ xs)
    (hhead : head = if tail = 0 then 0 else 1) (htail : tail = cache.length) (objs : List α) :
    (initLoop objs head tail cache).Holds (xs ++ objs) := by
  induction objs generalizing head tail cache xs with
  | nil =>
    rw [List.append_nil]
    exact h
  | cons v objs ih =>
    have hpush : Memcache.pushBack ⟨tail, head, cache.entries⟩ v =
        ⟨tail + 1, 1, (cache.insert v).entries⟩ := by
      have hone : (if head = 0 then 1 else head) = 1 := by
        rw [hhead]
        split_ifs <;> omega
      rw [Memcache.pushBack]
      congr 1
      rw [htail]
      rfl
    rw [← List.singleton_append, ← List.append_assoc]
    refine ih (hpush ▸ Holds.pushBack h) ?_ ?_
    · rw [if_neg (by omega)]
    · rw [htail]
      rfl

theorem init (objs : List α) : (m.init objs).Holds objs := by
  have hempty : Holds ⟨0, 0, (Sequence.empty α).entries⟩ [] := holds_new
  exact initLoop hempty rfl rfl objs

end Holds

/-! ### All operations -/

/-- A call of a method of the table. -/
inductive Call (α : Type)
  | init (objs : List α)
  | pushBack (obj : Option α)
  | pop
  | popBack
  | size
  deriving DecidableEq, Repr

/-- What a method returns. -/
inductive Result (α : Type)
  | nothing
  | boolean (b : Bool)
  | object (obj : Option α)
  | number (n : ℤ)
  deriving DecidableEq, Repr

/-- What a call returns and makes of the table. -/
def perform (m : Memcache α) : Call α → Result α × Memcache α
  | .init objs => (.nothing, m.init objs)
  | .pushBack obj => ((.boolean (m.pushBackValue obj).1), (m.pushBackValue obj).2)
  | .pop => (.object m.pop.1, m.pop.2)
  | .popBack => (.object m.popBack.1, m.popBack.2)
  | .size => (.number m.size, m)

/-- What a call would return and make of a list. -/
def performList (xs : List α) : Call α → Result α × List α
  | .init objs => (.nothing, objs)
  | .pushBack none => (.boolean false, xs)
  | .pushBack (some obj) => (.boolean true, xs ++ [obj])
  | .pop => (.object xs.head?, xs.tail)
  | .popBack => (.object xs.getLast?, xs.dropLast)
  | .size => (.number xs.length, xs)

/-- A call does to the table what it does to the list in it. -/
theorem Holds.perform (h : m.Holds xs) (call : Call α) :
    (m.perform call).1 = (performList xs call).1 ∧
      (m.perform call).2.Holds (performList xs call).2 := by
  cases call with
  | init objs => exact ⟨rfl, Holds.init (m := m) objs⟩
  | pushBack obj =>
    cases obj with
    | none => exact ⟨rfl, h⟩
    | some obj => exact ⟨rfl, h.pushBack⟩
  | pop =>
    cases xs with
    | nil =>
      rw [Memcache.perform, h.pop_nil]
      exact ⟨rfl, h⟩
    | cons a xs =>
      obtain ⟨hresult, hnext⟩ := h.pop
      exact ⟨congrArg Result.object hresult, hnext⟩
  | popBack =>
    rcases List.eq_nil_or_concat xs with rfl | ⟨ys, a, rfl⟩
    · rw [Memcache.perform, h.popBack_nil]
      exact ⟨rfl, h⟩
    · rw [List.concat_eq_append] at h ⊢
      obtain ⟨hresult, hnext⟩ := h.popBack
      rw [performList, List.getLast?_concat, List.dropLast_concat]
      exact ⟨congrArg Result.object hresult, hnext⟩
  | size => exact ⟨congrArg Result.number h.size_eq, h⟩

/-- **A double-ended queue.** Calls of the methods of a new table return what they would return
for a list, in any order and number. -/
theorem results_eq_list (calls : List (Call α)) :
    results perform (new α) calls = results performList [] calls :=
  results_eq (fun _ _ call h => h.perform call) holds_new calls

end Memcache

end TestCluster.Lua
