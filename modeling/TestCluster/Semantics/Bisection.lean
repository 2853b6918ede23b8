import Mathlib.Data.List.Pairwise
import Mathlib.Logic.Function.Basic
import Mathlib.Order.Lattice
import Mathlib.Order.Nat

/-!
# Sorted lists as finite maps

A list of keys and values, sorted by key, represents a map; a key is found by bisection, and where
it is not found, the window that is left says where it belongs.

## Main definitions

* `Semantics.bisect` — the search in a window
* `Semantics.Window` — the entries before it are smaller, and those behind it are greater
* `Semantics.Represents` — a sorted list has the entries of a map

## Main results

* `bisect_spec` — the search finds the key or the place for it
* `Represents.insert`, `Represents.filter` — entries are put in, and taken out
-/

namespace Semantics

variable {ν β : Type*} [LinearOrder ν]

/-- The search for `x` among the entries from `first` on and before `last`; the number of rounds is
given, and is enough if it is not below the number of entries. -/
def bisect (l : List (ν × β)) (x : ν) : ℕ → ℕ → ℕ → (ν × β) ⊕ ℕ
  | 0, first, _ => .inr first
  | rounds + 1, first, last =>
    if first < last then
      let mid := (first + last - 1) / 2
      match l[mid]? with
      | none => .inr first
      | some e =>
        if e.1 = x then .inl e
        else if e.1 < x then bisect l x rounds (mid + 1) last
        else bisect l x rounds first mid
    else .inr first

/-- An entry with the key `x` is from `first` on and before `last`. -/
structure Window (l : List (ν × β)) (x : ν) (first last : ℕ) : Prop where
  le : first ≤ last
  last_le : last ≤ l.length
  below : ∀ e ∈ l.take first, e.1 < x
  above : ∀ e ∈ l.drop last, x < e.1

/-- The keys ascend. -/
def Ascends (l : List (ν × β)) : Prop := l.Pairwise fun e e' => e.1 < e'.1

variable {l : List (ν × β)} {x : ν} {first last mid : ℕ} {e : ν × β}

theorem window_all (l : List (ν × β)) (x : ν) : Window l x 0 l.length where
  le := Nat.zero_le _
  last_le := le_rfl
  below e he := by cases he
  above e he := by rw [List.drop_length] at he; cases he

omit [LinearOrder ν] in
theorem eq_take_cons_drop (h : l[mid]? = some e) : l = l.take mid ++ e :: l.drop (mid + 1) := by
  obtain ⟨hlt, rfl⟩ := List.getElem?_eq_some_iff.mp h
  rw [← List.drop_eq_getElem_cons hlt, List.take_append_drop]

/-- What comes before an entry and what comes behind it. -/
theorem Ascends.around (h : Ascends l) (hmid : l[mid]? = some e) :
    (∀ e' ∈ l.take mid, e'.1 < e.1) ∧ ∀ e' ∈ l.drop (mid + 1), e.1 < e'.1 := by
  have hsplit := eq_take_cons_drop hmid
  rw [Ascends, hsplit, List.pairwise_append, List.pairwise_cons] at h
  exact ⟨fun e' he' => h.2.2 e' he' e List.mem_cons_self, h.2.1.1⟩

/-- The entry is smaller, so `x` is behind it. -/
theorem Window.right (h : Window l x first last) (hl : Ascends l) (hmid : l[mid]? = some e)
    (hlt : mid < last) (hx : e.1 < x) : Window l x (mid + 1) last where
  le := hlt
  last_le := h.last_le
  below e' he' := by
    rw [List.take_add_one, hmid] at he'
    rcases List.mem_append.mp he' with hbefore | hself
    · exact ((hl.around hmid).1 e' hbefore).trans hx
    · rw [List.mem_singleton.mp hself]
      exact hx
  above := h.above

/-- The entry is greater, so `x` is before it. -/
theorem Window.left (h : Window l x first last) (hl : Ascends l) (hmid : l[mid]? = some e)
    (hle : first ≤ mid) (hx : x < e.1) : Window l x first mid where
  le := hle
  last_le := (List.getElem?_eq_some_iff.mp hmid).1.le
  below := h.below
  above e' he' := by
    obtain ⟨hlt, rfl⟩ := List.getElem?_eq_some_iff.mp hmid
    rw [List.drop_eq_getElem_cons hlt] at he'
    rcases List.mem_cons.mp he' with rfl | hbehind
    · exact hx
    · exact hx.trans ((hl.around hmid).2 e' hbehind)

/-- **Bisection** finds an entry with the key, or the place where it belongs. -/
theorem bisect_spec (hl : Ascends l) {rounds : ℕ} (h : Window l x first last)
    (hrounds : last - first ≤ rounds) :
    (∃ e ∈ l, e.1 = x ∧ bisect l x rounds first last = .inl e) ∨
      ∃ i, bisect l x rounds first last = .inr i ∧ Window l x i i := by
  induction rounds generalizing first last with
  | zero =>
    have hle : last ≤ first := Nat.sub_eq_zero_iff_le.mp (Nat.le_zero.mp hrounds)
    have hsame : last = first := le_antisymm hle h.le
    exact .inr ⟨first, rfl, hsame ▸ h⟩
  | succ rounds ih =>
    rw [bisect]
    by_cases hlt : first < last
    · have hmid : (first + last - 1) / 2 < last := by omega
      have hfirst : first ≤ (first + last - 1) / 2 := by omega
      rw [if_pos hlt]
      generalize (first + last - 1) / 2 = mid at hmid hfirst
      obtain ⟨e, he⟩ : ∃ e, l[mid]? = some e :=
        ⟨_, List.getElem?_eq_getElem (hmid.trans_le h.last_le)⟩
      simp only [he]
      rcases lt_trichotomy e.1 x with hless | heq | hgreater
      · rw [if_neg hless.ne, if_pos hless]
        exact ih (h.right hl he hmid hless) (by omega)
      · rw [if_pos heq]
        exact .inl ⟨e, List.mem_of_getElem? he, heq, rfl⟩
      · rw [if_neg hgreater.ne', if_neg hgreater.le.not_gt]
        exact ih (h.left hl he hfirst hgreater) (by omega)
    · rw [if_neg hlt]
      have hsame : last = first := le_antisymm (not_lt.mp hlt) h.le
      exact .inr ⟨first, rfl, hsame ▸ h⟩

/-- A sorted list has the entries of a map. -/
structure Represents (l : List (ν × β)) (f : ν → Option β) : Prop where
  ascends : Ascends l
  mem : ∀ x v, (x, v) ∈ l ↔ f x = some v

namespace Represents

variable {f : ν → Option β} {i : ℕ} {v : β}

theorem empty : Represents ([] : List (ν × β)) fun _ => none :=
  ⟨.nil, fun _ _ => iff_of_false List.not_mem_nil (Option.some_ne_none _).symm⟩

/-- The search gives the value of the map, or the place for one. -/
theorem bisect (h : Represents l f) (x : ν) :
    (∃ v, f x = some v ∧ Semantics.bisect l x l.length 0 l.length = .inl (x, v)) ∨
      f x = none ∧ ∃ i, Semantics.bisect l x l.length 0 l.length = .inr i ∧ Window l x i i := by
  rcases bisect_spec h.ascends (window_all l x) le_rfl with ⟨e, he, rfl, hfound⟩ | ⟨i, hplace, hi⟩
  · exact .inl ⟨e.2, (h.mem e.1 e.2).mp he, hfound⟩
  · refine .inr ⟨?_, i, hplace, hi⟩
    apply Option.eq_none_iff_forall_ne_some.mpr
    intro v hv
    have hmem := (h.mem x v).mpr hv
    rw [← List.take_append_drop i l] at hmem
    rcases List.mem_append.mp hmem with hbelow | habove
    · exact lt_irrefl x (hi.below _ hbelow)
    · exact lt_irrefl x (hi.above _ habove)

/-- An entry is put where it belongs. -/
theorem insert (h : Represents l f) (hnone : f x = none) (hi : Window l x i i) (v : β) :
    Represents (l.take i ++ (x, v) :: l.drop i) (Function.update f x (some v)) where
  ascends := by
    have hl := h.ascends
    rw [Ascends, ← List.take_append_drop i l, List.pairwise_append] at hl
    rw [Ascends, List.pairwise_append, List.pairwise_cons]
    refine ⟨hl.1, ⟨hi.above, hl.2.1⟩, fun e he e' he' => ?_⟩
    rcases List.mem_cons.mp he' with rfl | hbehind
    · exact hi.below e he
    · exact hl.2.2 e he e' hbehind
  mem y w := by
    have hmem : (y, w) ∈ l.take i ++ (x, v) :: l.drop i ↔ (y, w) = (x, v) ∨ (y, w) ∈ l := by
      conv_rhs => rw [← List.take_append_drop i l]
      rw [List.mem_append, List.mem_append, List.mem_cons]
      exact or_left_comm
    rw [hmem, h.mem]
    by_cases hy : y = x
    · subst hy
      rw [Function.update_self, hnone, Prod.mk.injEq, Option.some.injEq,
        or_iff_left (Option.some_ne_none w).symm]
      exact ⟨fun heq => heq.2.symm, fun heq => ⟨rfl, heq.symm⟩⟩
    · rw [Function.update_of_ne hy, or_iff_right fun heq => hy (Prod.mk.inj heq).1]

/-- The entries with some values are taken out. -/
theorem filter (h : Represents l f) (p : β → Bool) :
    Represents (l.filter fun e => p e.2) fun x => (f x).filter p where
  ascends := h.ascends.filter _
  mem x v := by
    rw [List.mem_filter, h.mem, Option.filter_eq_some_iff]

end Represents

end Semantics
