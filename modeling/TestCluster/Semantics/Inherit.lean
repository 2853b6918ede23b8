import TestCluster.Semantics.Table
import Mathlib.Data.List.Nodup

/-!
# Inheritance along a chain

A lineage is a node with the one it was derived from, and so on. A node that has no value of its
own has that of the nearest node before it. Each node also keeps a table, into which values are
copied when they are looked up.

## Main definitions

* `Semantics.Lineage`, `Lineage.chain` — a node with those before it, the nearest in front
* `Semantics.walk` — the value of the nearest node of the chain that has one
* `Semantics.Under` — a node has what another one before it has
* `Semantics.Faithful` — all that was copied is what the walk finds

## Main results

* `walk_update_under` — what is inherited from a node that is assigned
* `Faithful.assign_iff` — an assignment leaves the copies faithful exactly if those of the nodes
  that inherit from it have the new value
-/

namespace Semantics

/-- A node, derived from another one or from none. -/
inductive Lineage (ι : Type)
  | root (i : ι)
  | sub (i : ι) (parent : Lineage ι)
  deriving DecidableEq, Repr

variable {ι V : Type}

namespace Lineage

/-- The node that this one was derived from. -/
def parent? : Lineage ι → Option (Lineage ι)
  | root _ => none
  | sub _ p => some p

/-- The node and those before it, up to the root. -/
def chain : Lineage ι → List (Lineage ι)
  | root i => [root i]
  | sub i p => sub i p :: p.chain

theorem mem_chain_self (x : Lineage ι) : x ∈ x.chain := by
  cases x with
  | root i => exact List.mem_singleton_self _
  | sub i p => exact List.mem_cons_self

theorem chain_suffix {x y : Lineage ι} (h : x ∈ y.chain) : x.chain <:+ y.chain := by
  induction y with
  | root i =>
    obtain rfl := List.mem_singleton.mp h
    exact List.suffix_rfl
  | sub i p ih =>
    rcases List.mem_cons.mp h with rfl | hp
    · exact List.suffix_rfl
    · exact (ih hp).trans (List.suffix_cons _ _)

/-- No node is before itself. -/
theorem sub_notMem_chain (i : ι) (p : Lineage ι) : sub i p ∉ p.chain := by
  intro h
  have hlength := (chain_suffix h).length_le
  rw [chain, List.length_cons] at hlength
  omega

theorem chain_nodup (x : Lineage ι) : x.chain.Nodup := by
  induction x with
  | root i => exact List.nodup_singleton _
  | sub i p ih => exact List.nodup_cons.mpr ⟨sub_notMem_chain i p, ih⟩

/-- A set of nodes that has the parent of each has all that is before them. -/
theorem mem_of_mem_chain {S : List (Lineage ι)} (hS : ∀ i p, sub i p ∈ S → p ∈ S)
    {x y : Lineage ι} (hy : y ∈ S) (h : x ∈ y.chain) : x ∈ S := by
  induction y with
  | root i =>
    obtain rfl := List.mem_singleton.mp h
    exact hy
  | sub i p ih =>
    rcases List.mem_cons.mp h with rfl | hp
    · exact hy
    · exact ih (hS i p hy) hp

end Lineage

open Lineage

/-! ### What a node inherits -/

/-- The value of the nearest node of the chain that has one of its own. -/
def walk (own : Lineage ι → Option V) (x : Lineage ι) : Option V := x.chain.findSome? own

/-- What a node has without a value of its own. -/
def inherited (own : Lineage ι → Option V) (x : Lineage ι) : Option V :=
  x.parent?.bind (walk own)

/-- `Under own x y`: `y` and the nodes between it and `x` have no values of their own, so that `y`
has the value of `x`. -/
def Under (own : Lineage ι → Option V) (x : Lineage ι) : Lineage ι → Prop
  | root _ => False
  | sub i p => own (sub i p) = none ∧ (p = x ∨ Under own x p)

variable {own : Lineage ι → Option V} {x y : Lineage ι}

theorem walk_eq (own : Lineage ι → Option V) (x : Lineage ι) :
    walk own x = (own x).or (inherited own x) := by
  cases x with
  | root i =>
    rw [walk, chain, List.findSome?_singleton]
    exact Option.or_none.symm
  | sub i p =>
    rw [walk, chain, List.findSome?_cons]
    cases own (sub i p) with
    | none => rfl
    | some v => rfl

theorem walk_of_none (h : own x = none) : walk own x = inherited own x := by
  rw [walk_eq, h, Option.none_or]

theorem walk_congr {own' : Lineage ι → Option V} (h : ∀ y ∈ x.chain, own y = own' y) :
    walk own x = walk own' x := by
  induction x with
  | root i =>
    rw [walk_eq, walk_eq own', h _ (mem_chain_self _)]
    rfl
  | sub i p ih =>
    have hp : walk own p = walk own' p := ih fun y hy => h y (List.mem_cons_of_mem _ hy)
    rw [walk_eq, walk_eq own', h _ (mem_chain_self _)]
    exact congrArg (Option.or _) hp

theorem Under.mem_chain (h : Under own x y) : x ∈ y.chain := by
  induction y with
  | root i => exact h.elim
  | sub i p ih =>
    rcases h.2 with rfl | hp
    · exact List.mem_cons_of_mem _ (mem_chain_self _)
    · exact List.mem_cons_of_mem _ (ih hp)

theorem Under.ne (h : Under own x y) : y ≠ x := by
  rintro rfl
  cases y with
  | root i => exact h
  | sub i p =>
    rcases h.2 with heq | hp
    · exact sub_notMem_chain i p (heq ▸ mem_chain_self p)
    · exact sub_notMem_chain i p hp.mem_chain

section Update

variable [DecidableEq ι]

instance decidableUnder [DecidableEq V] (own : Lineage ι → Option V) (x : Lineage ι) :
    (y : Lineage ι) → Decidable (Under own x y)
  | root _ => inferInstanceAs (Decidable False)
  | sub i p =>
    have := decidableUnder own x p
    inferInstanceAs (Decidable (own (sub i p) = none ∧ (p = x ∨ Under own x p)))

/-- An assignment does not change what the node inherits itself. -/
theorem inherited_update (v : Option V) :
    inherited (Function.update own x v) x = inherited own x := by
  cases x with
  | root i => rfl
  | sub i p =>
    refine walk_congr fun y hy => ?_
    have hne : y ≠ sub i p := by
      rintro rfl
      exact sub_notMem_chain i p hy
    rw [Function.update_of_ne hne]

theorem walk_update_self (v : Option V) :
    walk (Function.update own x v) x = v.or (inherited own x) := by
  rw [walk_eq, Function.update_self, inherited_update]

/-- What a node inherits from one that is assigned. -/
theorem walk_update_under (v : Option V) (h : Under own x y) :
    walk (Function.update own x v) y = v.or (inherited own x) := by
  induction y with
  | root i => exact h.elim
  | sub i p ih =>
    obtain ⟨hown, hp⟩ := id h
    have hnone : Function.update own x v (sub i p) = none := by
      rwa [Function.update_of_ne h.ne]
    rw [walk_of_none hnone]
    change walk (Function.update own x v) p = _
    rcases hp with rfl | hp
    · exact walk_update_self v
    · exact ih hp

/-- Nodes that inherit nothing from the one that is assigned keep their values. -/
theorem walk_update_of_not_under (v : Option V) (hne : y ≠ x) (h : ¬ Under own x y) :
    walk (Function.update own x v) y = walk own y := by
  induction y with
  | root i =>
    rw [walk_eq, walk_eq own, Function.update_of_ne hne]
    rfl
  | sub i p ih =>
    rw [walk_eq, walk_eq own, Function.update_of_ne hne]
    cases hown : own (sub i p) with
    | some w => rfl
    | none =>
      have hp : ¬ (p = x ∨ Under own x p) := fun hp => h ⟨hown, hp⟩
      rw [not_or] at hp
      exact ih hp.1 hp.2

end Update

/-! ### Copies -/

/-- A table has the values of all nodes that have one, and whatever it has is what the walk
finds. -/
structure Faithful (table own : Lineage ι → Option V) : Prop where
  complete : ∀ x, table x = none → own x = none
  sound : ∀ x v, table x = some v → walk own x = some v

namespace Faithful

variable {table : Lineage ι → Option V}

theorem empty : Faithful (fun _ : Lineage ι => (none : Option V)) fun _ => none where
  complete _ _ := rfl
  sound x v hx := by cases hx

theorem walk_of_none (h : Faithful table own) (hx : table x = none) :
    walk own x = inherited own x :=
  Semantics.walk_of_none (h.complete x hx)

variable [DecidableEq ι]

/-- What a node inherits may be copied. -/
theorem copy (h : Faithful table own) (hx : table x = none) :
    Faithful (Function.update table x (inherited own x)) own where
  complete y hy := by
    rcases update_cases hy with ⟨rfl, -⟩ | ⟨-, hold⟩
    · exact h.complete y hx
    · exact h.complete y hold
  sound y v hy := by
    rcases update_cases hy with ⟨rfl, hcopy⟩ | ⟨-, hold⟩
    · rw [h.walk_of_none hx, hcopy]
    · exact h.sound y v hold

/-- **Assignments and copies.** An assignment leaves what was copied faithful exactly if the
copies of the nodes that inherit from it have the value that they inherit now. -/
theorem assign_iff (h : Faithful table own) (v : Option V) :
    Faithful (Function.update table x v) (Function.update own x v) ↔
      ∀ y, Under own x y → table y = none ∨ table y = v.or (inherited own x) := by
  constructor
  · intro h' y hy
    cases hty : table y with
    | none => exact Or.inl rfl
    | some w =>
      have hcopy : Function.update table x v y = some w := by
        rw [Function.update_of_ne hy.ne, hty]
      exact Or.inr ((h'.sound y w hcopy).symm.trans (walk_update_under v hy))
  · intro hcopies
    constructor
    · intro y hy
      rcases update_cases hy with ⟨rfl, hnone⟩ | ⟨hne, hold⟩
      · rw [Function.update_self, hnone]
      · rw [Function.update_of_ne hne]
        exact h.complete y hold
    · intro y w hy
      rcases update_cases hy with ⟨rfl, hsome⟩ | ⟨hne, hold⟩
      · rw [walk_update_self, hsome, Option.some_or]
      · by_cases hunder : Under own x y
        · rcases hcopies y hunder with hnone | hsame
          · rw [hold] at hnone
            cases hnone
          · rw [walk_update_under v hunder, ← hsame, hold]
        · rw [walk_update_of_not_under v hne hunder]
          exact h.sound y w hold

end Faithful

end Semantics
