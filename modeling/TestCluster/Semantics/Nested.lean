import Mathlib.Data.List.Basic
import Mathlib.Data.List.Induction
import Mathlib.Data.List.Nodup
import Mathlib.Data.List.Pairwise
import Mathlib.Data.List.Perm.Subperm
import Mathlib.Logic.Relation

/-!
# Searches within searches

A search goes along the edges of a graph and comes to every node once. At the nodes there are
edges of another kind, and at the end of each of them a new search begins, which knows nothing of
what was found before.

## Main definitions

* `Semantics.Chain` — the searches in which a node is met, each within the one before
* `Semantics.Search` — the nodes that are visited by a search and by those within it
* `Semantics.Apart` — no two searches meet

## Main results

* `Search.nodup_iff` — nothing is visited twice exactly if each node is met in one way
* `unique_iff_apart` — and that is so exactly if no two searches meet
* `Unique.induction` — searches within searches come to an end then
-/

namespace Semantics

open Relation

variable {V : Type*} {edge start : V → V → Prop}

/-- A node that is met when searches begin at the ends of these edges, one within the other. -/
inductive Chain (edge start : V → V → Prop) : V → List (V × V) → V → Prop
  | here {a x : V} : ReflTransGen edge a x → Chain edge start a [] x
  | there {a u k x : V} {c : List (V × V)} :
      ReflTransGen edge a u → start u k → Chain edge start k c x →
        Chain edge start a ((u, k) :: c) x

/-- Every node is met in one way. -/
def Unique (edge start : V → V → Prop) (a : V) : Prop :=
  ∀ x c c', Chain edge start a c x → Chain edge start a c' x → c = c'

/-- The nodes that a search visits: each one that it comes to, and those of the searches that
begin at its edges. -/
inductive Search (edge start : V → V → Prop) : V → List V → Prop
  | intro {a : V} {visited : List V} (found : List V) (edges : List (V × V))
      (visits : V × V → List V) : found.Nodup → (∀ x, x ∈ found ↔ ReflTransGen edge a x) →
      edges.Nodup → (∀ u k, (u, k) ∈ edges ↔ ReflTransGen edge a u ∧ start u k) →
      (∀ e ∈ edges, Search edge start e.2 (visits e)) →
      visited.Perm (found ++ edges.flatMap visits) → Search edge start a visited

variable {a x : V} {c c' : List (V × V)} {visited : List V}

/-- What is visited is what is met. -/
theorem Search.mem_iff (h : Search edge start a visited) :
    x ∈ visited ↔ ∃ c, Chain edge start a c x := by
  induction h with
  | intro found edges visits _ hfound _ hedges _ hperm ih =>
    rw [hperm.mem_iff, List.mem_append, List.mem_flatMap]
    constructor
    · rintro (hx | ⟨⟨u, k⟩, he, hx⟩)
      · exact ⟨[], .here ((hfound x).mp hx)⟩
      · obtain ⟨c, hc⟩ := (ih _ he).mp hx
        obtain ⟨hu, hk⟩ := (hedges u k).mp he
        exact ⟨_, .there hu hk hc⟩
    · rintro ⟨c, hc⟩
      cases hc with
      | here hx => exact .inl ((hfound x).mpr hx)
      | there hu hk hc =>
        have he := (hedges _ _).mpr ⟨hu, hk⟩
        exact .inr ⟨_, he, (ih _ he).mpr ⟨_, hc⟩⟩

/-- Where nothing is visited twice, every node is met in one way. -/
theorem Search.unique_of_nodup (h : Search edge start a visited) (hnodup : visited.Nodup) :
    Unique edge start a := by
  induction h with
  | @intro a visited found edges visits _ hfound _ hedges hsearch hperm ih =>
    rw [hperm.nodup_iff, List.nodup_append', List.nodup_flatMap] at hnodup
    obtain ⟨-, ⟨hvisits, hapart⟩, hdisjoint⟩ := hnodup
    have hedge {u k : V} (hu : ReflTransGen edge a u) (hk : start u k) : (u, k) ∈ edges :=
      (hedges u k).mpr ⟨hu, hk⟩
    have hvisited {u k x : V} {c : List (V × V)} (he : (u, k) ∈ edges)
        (hc : Chain edge start k c x) : x ∈ visits (u, k) :=
      (hsearch _ he).mem_iff.mpr ⟨c, hc⟩
    -- a node that this search comes to is in no search within it
    have hhere {u k x : V} {c : List (V × V)} (hx : ReflTransGen edge a x)
        (he : (u, k) ∈ edges) (hc : Chain edge start k c x) : False :=
      hdisjoint ((hfound x).mpr hx) (List.mem_flatMap.mpr ⟨_, he, hvisited he hc⟩)
    intro x c c' hc hc'
    cases hc with
    | here hx =>
      cases hc' with
      | here => rfl
      | there hu hk hc' => exact (hhere hx (hedge hu hk) hc').elim
    | @there _ u k _ c hu hk hc =>
      cases hc' with
      | here hx => exact (hhere hx (hedge hu hk) hc).elim
      | @there _ u' k' _ c' hu' hk' hc' =>
        have he := hedge hu hk
        have he' := hedge hu' hk'
        by_cases heq : (u, k) = (u', k')
        · cases heq
          rw [ih _ he (hvisits _ he) x c c' hc hc']
        · have hsymm : Std.Symm (Function.onFun List.Disjoint visits) :=
            ⟨fun _ _ h _ hx hx' => h hx' hx⟩
          exact (hapart.forall he he' heq (hvisited he hc) (hvisited he' hc')).elim

/-- Where every node is met in one way, nothing is visited twice. -/
theorem Search.nodup_of_unique (h : Search edge start a visited)
    (hunique : Unique edge start a) : visited.Nodup := by
  induction h with
  | @intro a visited found edges visits hnodup hfound hedgesNodup hedges hsearch hperm ih =>
    rw [hperm.nodup_iff, List.nodup_append', List.nodup_flatMap]
    have hchain {e : V × V} {x : V} (he : e ∈ edges) (hx : x ∈ visits e) :
        ∃ c, Chain edge start a (e :: c) x := by
      obtain ⟨hu, hk⟩ := (hedges e.1 e.2).mp he
      obtain ⟨c, hc⟩ := (hsearch e he).mem_iff.mp hx
      exact ⟨c, .there hu hk hc⟩
    refine ⟨hnodup, ⟨fun e he => ?_, ?_⟩, ?_⟩
    · obtain ⟨hu, hk⟩ := (hedges e.1 e.2).mp he
      refine ih e he fun x c c' hc hc' => ?_
      exact (List.cons.inj (hunique x _ _ (.there hu hk hc) (.there hu hk hc'))).2
    · refine hedgesNodup.pairwise_of_forall_ne fun e he e' he' hne x hx hx' => hne ?_
      obtain ⟨c, hc⟩ := hchain he hx
      obtain ⟨c', hc'⟩ := hchain he' hx'
      exact (List.cons.inj (hunique x _ _ hc hc')).1
    · intro x hx hx'
      obtain ⟨e, he, hx'⟩ := List.mem_flatMap.mp hx'
      obtain ⟨c, hc⟩ := hchain he hx'
      cases hunique x _ _ (.here ((hfound x).mp hx)) hc

/-- **Once.** Nothing is visited twice exactly if every node is met in one way. -/
theorem Search.nodup_iff (h : Search edge start a visited) :
    visited.Nodup ↔ Unique edge start a :=
  ⟨h.unique_of_nodup, h.nodup_of_unique⟩

/-! ### Chains from their end -/

namespace Chain

theorem trans_edge {x y : V} (h : Chain edge start a c x) (hxy : edge x y) :
    Chain edge start a c y := by
  induction h with
  | here hx => exact .here (hx.tail hxy)
  | there hu hk _ ih => exact .there hu hk (ih hxy)

theorem trans_search {x y : V} (h : Chain edge start a c x) (hxy : ReflTransGen edge x y) :
    Chain edge start a c y := by
  induction hxy with
  | refl => exact h
  | tail _ hstep ih => exact ih.trans_edge hstep

theorem snoc {x k : V} (h : Chain edge start a c x) (hk : start x k) :
    Chain edge start a (c ++ [(x, k)]) k := by
  induction h with
  | here hx => exact .there hx hk (.here .refl)
  | there hu hk' _ ih => exact .there hu hk' (ih hk)

/-- The last search, and where it began. -/
theorem snoc_iff {u k x : V} : Chain edge start a (c ++ [(u, k)]) x ↔
    Chain edge start a c u ∧ start u k ∧ ReflTransGen edge k x := by
  constructor
  · intro h
    induction c generalizing a with
    | nil =>
      cases h with
      | there hu hk h =>
        cases h with
        | here hx => exact ⟨.here hu, hk, hx⟩
    | cons e c ih =>
      cases h with
      | there hu hk h =>
        obtain ⟨hc, hk', hx⟩ := ih h
        exact ⟨.there hu hk hc, hk', hx⟩
  · rintro ⟨hc, hk, hx⟩
    exact (hc.snoc hk).trans_search hx

theorem nil_iff {x : V} : Chain edge start a [] x ↔ ReflTransGen edge a x := by
  constructor
  · rintro (hx | -)
    exact hx
  · exact .here

end Chain

/-! ### Searches come to an end -/

/-- Where the searches of a chain begin. -/
def starts (a : V) (c : List (V × V)) : List V := a :: c.map Prod.snd

theorem starts_snoc (a : V) (c : List (V × V)) (u k : V) :
    starts a (c ++ [(u, k)]) = starts a c ++ [k] := by
  rw [starts, List.map_append, List.map_singleton, starts, List.cons_append]

/-- Each of them is met on the way. -/
theorem Chain.exists_of_mem_starts {x k : V} (h : Chain edge start a c x) (hk : k ∈ starts a c) :
    ∃ c₀, c₀.length ≤ c.length ∧ Chain edge start a c₀ k := by
  induction c using List.reverseRecOn generalizing x with
  | nil =>
    obtain rfl := List.mem_singleton.mp hk
    exact ⟨[], Nat.le_refl _, .here .refl⟩
  | append_singleton c e ih =>
    obtain ⟨u, k'⟩ := e
    obtain ⟨hc, hstart, -⟩ := Chain.snoc_iff.mp h
    rw [starts_snoc, List.mem_append, List.mem_singleton] at hk
    rcases hk with hk | rfl
    · obtain ⟨c₀, hle, hc₀⟩ := ih hc hk
      refine ⟨c₀, Nat.le_trans hle ?_, hc₀⟩
      rw [List.length_append]
      exact Nat.le_add_right _ _
    · exact ⟨c ++ [(u, k)], Nat.le_refl _, hc.snoc hstart⟩

theorem Chain.start_of_mem_starts {x k : V} (h : Chain edge start a c x) (hk : k ∈ starts a c) :
    k = a ∨ ∃ u, start u k := by
  induction c using List.reverseRecOn generalizing x with
  | nil => exact .inl (List.mem_singleton.mp hk)
  | append_singleton c e ih =>
    obtain ⟨u, k'⟩ := e
    obtain ⟨hc, hstart, -⟩ := Chain.snoc_iff.mp h
    rw [starts_snoc, List.mem_append, List.mem_singleton] at hk
    rcases hk with hk | rfl
    · exact ih hc hk
    · exact .inr ⟨u, hstart⟩

namespace Unique

/-- No search begins twice on the way to a node. -/
theorem nodup_starts (hunique : Unique edge start a) (h : Chain edge start a c x) :
    (starts a c).Nodup := by
  induction c using List.reverseRecOn generalizing x with
  | nil => exact List.nodup_singleton a
  | append_singleton c e ih =>
    obtain ⟨u, k⟩ := e
    obtain ⟨hc, hk, -⟩ := Chain.snoc_iff.mp h
    rw [starts_snoc, List.nodup_append']
    refine ⟨ih hc, List.nodup_singleton k, fun k' hmem hk' => ?_⟩
    obtain rfl := List.mem_singleton.mp hk'
    obtain ⟨c₀, hle, hc₀⟩ := hc.exists_of_mem_starts hmem
    rw [hunique _ _ _ hc₀ (hc.snoc hk), List.length_append, List.length_singleton] at hle
    exact absurd hle (Nat.not_succ_le_self _)

/-- **Induction along searches.** Among finitely many nodes, what holds at the start of a search
when it holds at the starts of those within it, holds at the start. -/
theorem induction {a : V} (hunique : Unique edge start a) {nodes : List V}
    (hnodes : ∀ c x, Chain edge start a c x → ∀ k ∈ starts a c, k ∈ nodes) {Q : V → Prop}
    (hstep : ∀ k ∈ nodes, (∀ u k', ReflTransGen edge k u → start u k' → Q k') → Q k) : Q a := by
  suffices hall : ∀ m c k, Chain edge start a c k → k ∈ starts a c →
      nodes.length < m + (starts a c).length → Q k by
    exact hall nodes.length [] a (.here .refl) List.mem_cons_self
      (Nat.lt_add_of_pos_right Nat.one_pos)
  intro m
  induction m with
  | zero =>
    intro c k hc _ hlt
    -- more searches than there are nodes to begin at
    have hle := (List.Nodup.subperm (hunique.nodup_starts hc) (hnodes c k hc)).length_le
    omega
  | succ m ih =>
    intro c k hc hk hlt
    refine hstep k (hnodes c k hc k hk) fun u k' hu hk' => ?_
    refine ih (c ++ [(u, k')]) k' ((hc.trans_search hu).snoc hk') ?_ ?_
    · rw [starts_snoc]
      exact List.mem_append_right _ (List.mem_singleton_self k')
    · rw [starts_snoc, List.length_append, List.length_singleton]
      omega

end Unique

/-! ### Searches that do not meet -/

/-- All nodes that can be met. -/
def Met (edge start : V → V → Prop) (a : V) : V → Prop :=
  ReflTransGen (fun x y => edge x y ∨ start x y) a

theorem Met.of_search (h : ReflTransGen edge a x) : Met edge start a x := by
  induction h with
  | refl => exact .refl
  | tail _ hstep ih => exact ReflTransGen.tail ih (.inl hstep)

theorem met_iff : Met edge start a x ↔ ∃ c, Chain edge start a c x := by
  constructor
  · intro h
    induction h with
    | refl => exact ⟨[], .here .refl⟩
    | tail _ hstep ih =>
      obtain ⟨c, hc⟩ := ih
      rcases hstep with hedge | hstart
      · exact ⟨c, hc.trans_edge hedge⟩
      · exact ⟨_, hc.snoc hstart⟩
  · rintro ⟨c, hc⟩
    induction hc with
    | here hx => exact .of_search hx
    | there hu hk _ ih => exact (ReflTransGen.tail (Met.of_search hu) (.inr hk)).trans ih

/-- No search begins where the first one does, none begins at two edges, and no two meet. -/
structure Apart (edge start : V → V → Prop) (a : V) : Prop where
  root : ∀ u, Met edge start a u → ¬ start u a
  one_edge : ∀ u u' k, Met edge start a u → Met edge start a u' → start u k → start u' k → u = u'
  one_search : ∀ k k' x, (k = a ∨ ∃ u, Met edge start a u ∧ start u k) →
    (k' = a ∨ ∃ u, Met edge start a u ∧ start u k') →
    ReflTransGen edge k x → ReflTransGen edge k' x → k = k'

/-- Where the last search of a chain begins. -/
def lastStart (a : V) (c : List (V × V)) : V := (c.getLast?.map Prod.snd).getD a

theorem exists_chain_of_start {k : V} (hk : k = a ∨ ∃ u, Met edge start a u ∧ start u k)
    (hx : ReflTransGen edge k x) : ∃ c, Chain edge start a c x ∧ lastStart a c = k := by
  rcases hk with rfl | ⟨u, hu, hk⟩
  · exact ⟨[], .here hx, rfl⟩
  · obtain ⟨c, hc⟩ := met_iff.mp hu
    refine ⟨c ++ [(u, k)], (hc.snoc hk).trans_search hx, ?_⟩
    rw [lastStart, List.getLast?_concat, Option.map_some, Option.getD_some]

theorem Unique.apart (hunique : Unique edge start a) : Apart edge start a where
  root u hu hstart := by
    obtain ⟨c, hc⟩ := met_iff.mp hu
    have heq := hunique a _ _ (hc.snoc hstart) (.here .refl)
    exact absurd heq (List.concat_ne_nil _ _)
  one_edge u u' k hu hu' hstart hstart' := by
    obtain ⟨c, hc⟩ := met_iff.mp hu
    obtain ⟨c', hc'⟩ := met_iff.mp hu'
    have heq := hunique k _ _ (hc.snoc hstart) (hc'.snoc hstart')
    exact (Prod.mk.inj (List.append_singleton_inj.mp heq).2).1
  one_search k k' x hk hk' hx hx' := by
    obtain ⟨c, hc, rfl⟩ := exists_chain_of_start hk hx
    obtain ⟨c', hc', rfl⟩ := exists_chain_of_start hk' hx'
    rw [hunique x c c' hc hc']

theorem Apart.unique (h : Apart edge start a) : Unique edge start a := by
  intro x c c' hc hc'
  have hmet {u : V} {c : List (V × V)} (hu : Chain edge start a c u) : Met edge start a u :=
    met_iff.mpr ⟨c, hu⟩
  have hbegin {u k : V} {c : List (V × V)} (hu : Chain edge start a c u) (hk : start u k) :
      k = a ∨ ∃ u, Met edge start a u ∧ start u k := .inr ⟨u, hmet hu, hk⟩
  induction c using List.reverseRecOn generalizing x c' with
  | nil =>
    have hx := Chain.nil_iff.mp hc
    cases c' using List.reverseRecOn with
    | nil => rfl
    | append_singleton c' e =>
      obtain ⟨u, k⟩ := e
      obtain ⟨hu, hk, hx'⟩ := Chain.snoc_iff.mp hc'
      have heq := h.one_search a k x (.inl rfl) (hbegin hu hk) hx hx'
      exact absurd (heq ▸ hk) (h.root u (hmet hu))
  | append_singleton c e ih =>
    obtain ⟨u, k⟩ := e
    obtain ⟨hu, hk, hx⟩ := Chain.snoc_iff.mp hc
    cases c' using List.reverseRecOn with
    | nil =>
      have heq := h.one_search k a x (hbegin hu hk) (.inl rfl) hx (Chain.nil_iff.mp hc')
      exact absurd (heq ▸ hk) (h.root u (hmet hu))
    | append_singleton c' e' =>
      -- the last searches are the same, and so are the edges at which they begin
      obtain ⟨u', k'⟩ := e'
      obtain ⟨hu', hk', hx'⟩ := Chain.snoc_iff.mp hc'
      obtain rfl : k = k' := h.one_search k k' x (hbegin hu hk) (hbegin hu' hk') hx hx'
      obtain rfl : u = u' := h.one_edge u u' k (hmet hu) (hmet hu') hk hk'
      rw [ih u c' hu hu']

/-- Every node is met in one way exactly if no two searches meet. -/
theorem unique_iff_apart : Unique edge start a ↔ Apart edge start a :=
  ⟨Unique.apart, Apart.unique⟩

end Semantics
