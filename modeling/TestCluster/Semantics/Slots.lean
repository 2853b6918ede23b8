import Mathlib.Data.List.Basic
import Mathlib.Data.Nat.ModEq
import Mathlib.Tactic.Push
import Mathlib.Tactic.SplitIfs
import TestCluster.Semantics.Table

/-!
# Tables with a slot for each residue

A table has `m` slots, and an element with number `n` is in the slot `n % m`. When all the slots are
taken, the elements move to a table of twice the size, where no two of them meet.

## Main definitions

* `Semantics.Placed` — every element is in the slot of its number
* `Semantics.move`, `Semantics.rehash` — the table of twice the size

## Main results

* `Placed.put`, `Placed.take` — an element comes into a free slot, and leaves it
* `Placed.rehash` — the larger table has the same elements
* `Placed.exists_free` — it is not full
* `exists_slot` — as many numbers in a row as there are slots reach every slot
-/

namespace Semantics

variable {κ : Type*}

/-- Every element is in the slot of its number. -/
def Placed (number : κ → ℕ) (m : ℕ) (slot : ℕ → Option κ) : Prop :=
  ∀ i c, slot i = some c → i < m ∧ number c % m = i

/-- Some slot has the element. -/
def Holds (slot : ℕ → Option κ) (c : κ) : Prop := ∃ i, slot i = some c

/-- The element in the slot `i` is put into a table of twice the size; `none` if the slot is free,
or if two elements meet in a slot. -/
def move (number : κ → ℕ) (m : ℕ) (slot new : ℕ → Option κ) (i : ℕ) : Option (ℕ → Option κ) :=
  (slot i).bind fun c =>
    if new (number c % (m * 2)) = none then
      some (Function.update new (number c % (m * 2)) (some c))
    else none

/-- All elements are put into a table of twice the size. -/
def rehash (number : κ → ℕ) (m : ℕ) (slot : ℕ → Option κ) : Option (ℕ → Option κ) :=
  (List.range m).foldlM (move number m slot) fun _ => none

variable {number : κ → ℕ} {m i : ℕ} {slot : ℕ → Option κ} {c c' : κ}

namespace Placed

theorem empty : Placed number m fun _ => none := by
  intro i c h
  cases h

theorem slot_eq (h : Placed number m slot) (hc : Holds slot c) : slot (number c % m) = some c := by
  obtain ⟨i, hi⟩ := hc
  rwa [(h i c hi).2]

/-- Two elements have different residues. -/
theorem inj (h : Placed number m slot) (hc : Holds slot c) (hc' : Holds slot c')
    (hmod : number c % m = number c' % m) : c = c' := by
  have heq := h.slot_eq hc
  rw [hmod, h.slot_eq hc'] at heq
  exact (Option.some.inj heq).symm

/-- An element comes into a free slot. -/
theorem put (h : Placed number m slot) (hm : 0 < m) :
    Placed number m (Function.update slot (number c % m) (some c)) := by
  intro j d hd
  rcases update_cases hd with ⟨rfl, heq⟩ | ⟨-, hold⟩
  · rw [← Option.some.inj heq]
    exact ⟨Nat.mod_lt _ hm, rfl⟩
  · exact h j d hold

/-- A slot is free again. -/
theorem take (h : Placed number m slot) (i : ℕ) :
    Placed number m (Function.update slot i none) := by
  intro j d hd
  exact h j d (update_none_eq_some hd).2

theorem congr {number' : κ → ℕ} (h : Placed number m slot)
    (heq : ∀ c, Holds slot c → number' c = number c) : Placed number' m slot := by
  intro i c hc
  rw [heq c ⟨i, hc⟩]
  exact h i c hc

end Placed

theorem holds_put (hfree : slot i = none) (d : κ) :
    Holds (Function.update slot i (some c)) d ↔ d = c ∨ Holds slot d := by
  constructor
  · rintro ⟨j, hj⟩
    rcases update_cases hj with ⟨-, heq⟩ | ⟨-, hold⟩
    · exact .inl (Option.some.inj heq).symm
    · exact .inr ⟨j, hold⟩
  · rintro (rfl | ⟨j, hj⟩)
    · exact ⟨i, Function.update_self ..⟩
    · refine ⟨j, ?_⟩
      rw [Function.update_of_ne, hj]
      rintro rfl
      cases hfree.symm.trans hj

/-- An element that leaves its slot is gone, and the others are still there. -/
theorem Placed.holds_take (h : Placed number m slot) (hc : slot i = some c) (d : κ) :
    Holds (Function.update slot i none) d ↔ d ≠ c ∧ Holds slot d := by
  constructor
  · rintro ⟨j, hj⟩
    obtain ⟨hne, hold⟩ := update_none_eq_some hj
    refine ⟨?_, j, hold⟩
    rintro rfl
    exact hne ((h j d hold).2.symm.trans (h i d hc).2)
  · rintro ⟨hne, j, hj⟩
    refine ⟨j, ?_⟩
    rw [Function.update_of_ne, hj]
    rintro rfl
    exact hne (Option.some.inj (hj.symm.trans hc))

/-- **A table of twice the size** has the same elements, each in the slot of its number. -/
theorem Placed.rehash (h : Placed number m slot) (hm : 0 < m) (hfull : ∀ i < m, slot i ≠ none) :
    ∃ new, rehash number m slot = some new ∧ Placed number (m * 2) new ∧
      ∀ c, Holds new c ↔ Holds slot c := by
  -- after `n` slots the new table has their elements
  have hfold (n : ℕ) (hn : n ≤ m) : ∃ new,
      (List.range n).foldlM (move number m slot) (fun _ => none) = some new ∧
      ∀ j c, new j = some c ↔ (∃ i < n, slot i = some c) ∧ number c % (m * 2) = j := by
    induction n with
    | zero =>
      refine ⟨fun _ => none, rfl, fun j c => iff_of_false (Option.some_ne_none c).symm ?_⟩
      rintro ⟨⟨i, hlt, -⟩, -⟩
      exact absurd hlt i.not_lt_zero
    | succ n ih =>
      obtain ⟨new, hnew, hmem⟩ := ih (by omega)
      obtain ⟨c, hc⟩ := Option.ne_none_iff_exists'.mp (hfull n hn)
      have hfree : new (number c % (m * 2)) = none := by
        apply Option.eq_none_iff_forall_ne_some.mpr
        intro c' hc'
        obtain ⟨⟨i, hi, hslot⟩, hmod⟩ := (hmem _ c').mp hc'
        have hmod' : number c' % m = number c % m := by
          rw [← Nat.mod_mul_right_mod (number c') m 2, hmod, Nat.mod_mul_right_mod]
        rw [(h i c' hslot).2, (h n c hc).2] at hmod'
        omega
      refine ⟨Function.update new (number c % (m * 2)) (some c), ?_, fun j d => ?_⟩
      · rw [List.range_succ, List.foldlM_append, hnew]
        simp [move, hc, hfree]
      · constructor
        · intro hd
          rcases update_cases hd with ⟨rfl, heq⟩ | ⟨-, hold⟩
          · obtain rfl := Option.some.inj heq
            exact ⟨⟨n, n.lt_succ_self, hc⟩, rfl⟩
          · obtain ⟨⟨i, hi, hslot⟩, hmod⟩ := (hmem j d).mp hold
            exact ⟨⟨i, by omega, hslot⟩, hmod⟩
        · rintro ⟨⟨i, hi, hslot⟩, rfl⟩
          rcases Nat.lt_succ_iff_lt_or_eq.mp hi with hlt | rfl
          · rw [Function.update_of_ne, (hmem _ d).mpr ⟨⟨i, hlt, hslot⟩, rfl⟩]
            intro heq
            have hd := (hmem _ d).mpr ⟨⟨i, hlt, hslot⟩, rfl⟩
            rw [heq, hfree] at hd
            cases hd
          · obtain rfl := Option.some.inj (hc.symm.trans hslot)
            exact Function.update_self ..
  obtain ⟨new, hnew, hmem⟩ := hfold m le_rfl
  refine ⟨new, hnew, fun j c hc => ?_, fun c => ⟨?_, ?_⟩⟩
  · obtain ⟨-, rfl⟩ := (hmem j c).mp hc
    exact ⟨Nat.mod_lt _ (by omega), rfl⟩
  · rintro ⟨j, hj⟩
    obtain ⟨⟨i, -, hslot⟩, -⟩ := (hmem j c).mp hj
    exact ⟨i, hslot⟩
  · rintro ⟨i, hi⟩
    exact ⟨_, (hmem _ c).mpr ⟨⟨i, (h i c hi).1, hi⟩, rfl⟩⟩

/-- A table of twice the size that has the same elements is not full: of two slots with one residue
only one is taken. -/
theorem Placed.exists_free {new : ℕ → Option κ} (h : Placed number m slot)
    (hnew : Placed number (m * 2) new) (hm : 0 < m) (hholds : ∀ c, Holds new c → Holds slot c) :
    ∃ i < m * 2, new i = none := by
  by_contra hfull
  push Not at hfull
  obtain ⟨c, hc⟩ := Option.ne_none_iff_exists'.mp (hfull 0 (by omega))
  obtain ⟨c', hc'⟩ := Option.ne_none_iff_exists'.mp (hfull m (by omega))
  have hzero := (hnew 0 c hc).2
  have hother := (hnew m c' hc').2
  -- both of them were in the first slot of the smaller table
  have hsame : c = c' := by
    apply h.inj (hholds c ⟨0, hc⟩) (hholds c' ⟨m, hc'⟩)
    rw [← Nat.mod_mul_right_mod (number c) m 2, hzero, ← Nat.mod_mul_right_mod (number c') m 2,
      hother, Nat.zero_mod, Nat.mod_self]
  rw [← hsame, hzero] at hother
  omega

/-- Numbers in a row, as many as there are slots, reach every slot, also where they are reduced by a
multiple of the number of slots. -/
theorem exists_slot {M : ℕ} (hm : 0 < m) (hM : m ∣ M) (start : ℕ) (hi : i < m) :
    ∃ k < m, (k + start) % M % m = i := by
  refine ⟨(i + (m - start % m)) % m, Nat.mod_lt _ hm, ?_⟩
  rw [Nat.mod_mod_of_dvd _ hM, Nat.mod_add_mod, Nat.add_assoc]
  have hstart : (m - start % m + start) % m = 0 := by
    have hlt := Nat.mod_lt start hm
    have hdiv := Nat.div_add_mod start m
    have : m - start % m + start = m * (start / m + 1) := by
      rw [Nat.mul_add, Nat.mul_one]
      omega
    rw [this, Nat.mul_mod_right]
  rw [Nat.add_mod, hstart, Nat.add_zero, Nat.mod_mod, Nat.mod_eq_of_lt hi]

end Semantics
