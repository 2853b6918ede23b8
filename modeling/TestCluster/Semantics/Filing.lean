import Mathlib.Data.List.Basic
import Mathlib.Logic.Function.Basic

/-!
# Items filed in slots

Items are kept in lists, one list for each slot, and a rule says in which slot an item belongs.
A store is in order if every slot has exactly the items that belong there, in the order in which
they came. The rule may change with time; where it changes for the items of one slot only, that
slot is taken out and its items are filed again.

## Main definitions

* `Semantics.Filed` — every slot has the items that belong there, in the order of their arrival
* `Semantics.file`, `Semantics.fileAll` — items are put behind those of their slot

## Main results

* `Filed.file` — an item that arrives is filed
* `Filed.take` — a slot is taken out
* `Filed.refile` — the items of one slot are filed by a new rule
-/

namespace Semantics

variable {α S : Type*} [DecidableEq S] {place place' : α → S} {store : S → List α}
  {items : List α} {s s₀ : S}

/-- Every slot has exactly the items that belong there, in the order in which they came. -/
def Filed (place : α → S) (store : S → List α) (items : List α) : Prop :=
  ∀ s, store s = items.filter fun a => decide (place a = s)

/-- The item is put behind the ones of its slot. -/
def file (place : α → S) (store : S → List α) (a : α) : S → List α :=
  Function.update store (place a) (store (place a) ++ [a])

/-- Items are filed one after the other. -/
def fileAll (place : α → S) (store : S → List α) (as : List α) : S → List α :=
  as.foldl (file place) store

theorem filed_empty (place : α → S) : Filed place (fun _ => []) [] := fun _ => rfl

theorem file_apply (place : α → S) (store : S → List α) (a : α) (s : S) :
    file place store a s = store s ++ [a].filter fun a => decide (place a = s) := by
  rcases eq_or_ne (place a) s with rfl | hne
  · simp [file]
  · simp [file, Function.update_of_ne hne.symm, hne]

theorem fileAll_apply (place : α → S) (store : S → List α) (as : List α) (s : S) :
    fileAll place store as s = store s ++ as.filter fun a => decide (place a = s) := by
  induction as generalizing store with
  | nil => simp [fileAll]
  | cons a as ih =>
    have hcons : (a :: as).filter (fun a => decide (place a = s)) =
        [a].filter (fun a => decide (place a = s)) ++
          as.filter fun a => decide (place a = s) := List.filter_append [a] as
    rw [hcons, ← List.append_assoc, ← file_apply]
    exact ih (file place store a)

theorem fileAll_congr (store : S → List α) {as : List α}
    (heq : ∀ a ∈ as, place' a = place a) : fileAll place' store as = fileAll place store as := by
  funext s
  rw [fileAll_apply, fileAll_apply]
  congr 1
  refine List.filter_congr fun a ha => ?_
  rw [heq a ha]

namespace Filed

theorem mem_iff (h : Filed place store items) {a : α} :
    a ∈ store s ↔ a ∈ items ∧ place a = s := by
  rw [h s, List.mem_filter, decide_eq_true_iff]

/-- An item that arrives is filed. -/
theorem file (h : Filed place store items) (a : α) :
    Filed place (file place store a) (items ++ [a]) := by
  intro s
  rw [file_apply, List.filter_append, h s]

/-- A rule that says the same of all items that are there. -/
theorem congr (h : Filed place store items) (heq : ∀ a ∈ items, place' a = place a) :
    Filed place' store items := by
  intro s
  rw [h s]
  refine List.filter_congr fun a ha => ?_
  rw [heq a ha]

/-- A slot is taken out. -/
theorem take (h : Filed place store items) (s₀ : S) :
    Filed place (Function.update store s₀ []) (items.filter fun a => decide (place a ≠ s₀)) := by
  intro s
  rw [List.filter_filter]
  rcases eq_or_ne s s₀ with rfl | hne
  · rw [Function.update_self, eq_comm, List.filter_eq_nil_iff]
    simp
  · rw [Function.update_of_ne hne, h s]
    refine List.filter_congr fun a _ => ?_
    by_cases ha : place a = s <;> simp [ha, hne]

/-- **Filing again.** The new rule moves the items of one slot only, and each of them to a slot
that is empty: the slot is taken out and its items are filed by the new rule. -/
theorem refile (h : Filed place store items) (place' : α → S) (s₀ : S)
    (hstay : ∀ a ∈ items, place a ≠ s₀ → place' a = place a)
    (hmove : ∀ a ∈ items, place a = s₀ → place' a = s₀ ∨ store (place' a) = []) :
    Filed place' (fileAll place' (Function.update store s₀ []) (store s₀)) items := by
  intro s
  rw [fileAll_apply, h s₀, List.filter_filter]
  rcases eq_or_ne s s₀ with rfl | hne
  · -- only items of the slot itself belong there
    rw [Function.update_self, List.nil_append]
    refine List.filter_congr fun a ha => ?_
    by_cases hs : place a = s
    · simp [hs]
    · have := hstay a ha hs
      simp [hs, this]
  rw [Function.update_of_ne hne]
  by_cases hin : ∃ a ∈ items, place a = s₀ ∧ place' a = s
  · -- an item comes to the slot, so nothing was there
    obtain ⟨a, ha, hold, rfl⟩ := hin
    have hnil : store (place' a) = [] := (hmove a ha hold).resolve_left hne
    rw [hnil, List.nil_append]
    refine List.filter_congr fun b hb => ?_
    by_cases hs : place b = s₀
    · simp [hs]
    · have hb' : place b ≠ place' a := by
        intro heq
        have hmem : b ∈ store (place' a) := h.mem_iff.mpr ⟨hb, heq⟩
        rw [hnil] at hmem
        exact List.not_mem_nil hmem
      have := hstay b hb hs
      simp [hs, this, hb']
  · -- no item comes to the slot
    have hnone : items.filter (fun a => decide (place' a = s) && decide (place a = s₀)) = [] := by
      rw [List.filter_eq_nil_iff]
      intro a ha hboth
      rw [Bool.and_eq_true, decide_eq_true_iff, decide_eq_true_iff] at hboth
      exact hin ⟨a, ha, hboth.2, hboth.1⟩
    rw [hnone, List.append_nil, h s]
    refine List.filter_congr fun a ha => ?_
    by_cases hs : place a = s₀
    · have hs' : place' a ≠ s := fun heq => hin ⟨a, ha, hs, heq⟩
      simp [hs, hs', hne.symm]
    · rw [hstay a ha hs]

end Filed

end Semantics
