import Mathlib.Data.List.Basic

/-!
# Queues with messages that go out of date

A queue that is handled in order, with two kinds of messages that matter: those that say
something, which can go out of date while they wait, and those that announce a change, after
which nothing that was said before them counts any more.

## Main definitions

* `Semantics.Covered` — every message that is out of date has a change behind it

## Main results

* `covered_concat_of_change` — announcing a change covers all that was said before
* `Covered.concat` — what is said now is up to date
-/

namespace Semantics

variable {α : Type*}

/-- Every message of the queue is good, or has a change behind it. -/
def Covered (good change : α → Prop) : List α → Prop
  | [] => True
  | m :: l => (good m ∨ ∃ m' ∈ l, change m') ∧ Covered good change l

variable {good good' change : α → Prop} {m : α} {l : List α}

theorem Covered.tail (h : Covered good change (m :: l)) : Covered good change l := h.2

/-- The first message is good if there is no change behind it. -/
theorem Covered.head (h : Covered good change (m :: l)) : good m ∨ ∃ m' ∈ l, change m' := h.1

/-- What is good in the queue may be so in another sense. -/
theorem Covered.imp (h : Covered good change l) (himp : ∀ m ∈ l, good m → good' m) :
    Covered good' change l := by
  induction l with
  | nil => trivial
  | cons m l ih =>
    obtain ⟨hm, hl⟩ := List.forall_mem_cons.mp himp
    exact ⟨h.1.imp_left hm, ih h.2 hl⟩

theorem Covered.concat (h : Covered good change l) (hm : good m) :
    Covered good change (l ++ [m]) := by
  induction l with
  | nil => exact ⟨.inl hm, trivial⟩
  | cons m' l ih =>
    refine ⟨h.1.imp_right ?_, ih h.2⟩
    rintro ⟨c, hc, hchange⟩
    exact ⟨c, List.mem_append_left _ hc, hchange⟩

/-- Nothing that waits counts any more when a change is announced. -/
theorem covered_concat_of_change (hm : good m) (hchange : change m) (l : List α) :
    Covered good change (l ++ [m]) := by
  induction l with
  | nil => exact ⟨.inl hm, trivial⟩
  | cons m' l ih =>
    have hmem : m ∈ l ++ [m] := List.mem_append_right _ List.mem_cons_self
    exact ⟨.inr ⟨m, hmem, hchange⟩, ih⟩

end Semantics
