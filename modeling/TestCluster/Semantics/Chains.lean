import Mathlib.Data.List.Nodup
import Mathlib.Logic.Function.Basic

/-!
# Tables of chains

A hash table whose entries are in chains, one for each hash value: an entry is put in front of the
chain of its key, and taken out of it when it is found. As long as no key is put in twice, the
table is a partial function of the keys.

## Main definitions

* `Semantics.Chains` — the chains by hash value
* `Chains.find`, `Chains.insert`, `Chains.erase` — the operations
* `Chains.Sound` — every entry is in the chain of its key, and no key has two

## Main results

* `find_insert`, `find_erase` — the operations are those of a partial function
* `Sound.insert`, `Sound.erase` — the operations keep the table sound
-/

namespace Semantics

variable {α ι κ : Type*} [DecidableEq ι] [DecidableEq κ]

/-- The chains by hash value. -/
abbrev Chains (α κ : Type*) := κ → List α

namespace Chains

variable (hash : ι → κ) (key : α → ι)

/-- The first entry with a key. -/
def find (t : Chains α κ) (i : ι) : Option α := (t (hash i)).find? fun a => key a = i

/-- An entry is put in front of its chain. -/
def insert (t : Chains α κ) (a : α) : Chains α κ :=
  Function.update t (hash (key a)) (a :: t (hash (key a)))

/-- The first entry with a key is taken out. -/
def erase (t : Chains α κ) (i : ι) : Chains α κ :=
  Function.update t (hash i) ((t (hash i)).eraseP fun a => key a = i)

/-- Every entry is in the chain of its key, and no key has two entries. -/
structure Sound (t : Chains α κ) : Prop where
  placed : ∀ h, ∀ a ∈ t h, hash (key a) = h
  nodup : ∀ h, ((t h).map key).Nodup

variable {hash key} {t : Chains α κ} {a : α} {i j : ι}

omit [DecidableEq κ] in
@[simp] theorem find_empty (i : ι) : find hash key (fun _ => []) i = none := rfl

omit [DecidableEq ι] [DecidableEq κ] in
theorem sound_empty : Sound hash key fun _ => [] where
  placed := fun _ _ h => absurd h List.not_mem_nil
  nodup := fun _ => List.nodup_nil

omit [DecidableEq κ] in
theorem mem_of_find (h : find hash key t i = some a) : a ∈ t (hash i) ∧ key a = i := by
  refine ⟨List.mem_of_find?_eq_some h, ?_⟩
  simpa using List.find?_some h

theorem find_insert (t : Chains α κ) (a : α) (i : ι) :
    find hash key (insert hash key t a) i = if key a = i then some a else find hash key t i := by
  rw [find, insert]
  by_cases hi : key a = i
  · subst hi
    simp
  · rw [if_neg hi]
    by_cases hh : hash i = hash (key a)
    · rw [hh, Function.update_self, List.find?_cons_of_neg (by simpa using hi), find, hh]
    · rw [Function.update_of_ne hh, find]

/-- A chain out of which the first entry with a key was taken. -/
theorem find?_eraseP {l : List α} (hnodup : (l.map key).Nodup) :
    ((l.eraseP fun a => key a = i).find? fun a => key a = j) =
      if j = i then none else l.find? fun a => key a = j := by
  induction l with
  | nil => simp
  | cons b l ih =>
    rw [List.map_cons, List.nodup_cons] at hnodup
    by_cases hb : key b = i
    · rw [List.eraseP_cons_of_pos (by simpa using hb)]
      split_ifs with hji
      · -- the key is not in the rest of the chain
        rw [List.find?_eq_none]
        intro c hc hkey
        apply hnodup.1
        rw [hb, ← hji]
        exact List.mem_map.mpr ⟨c, hc, by simpa using hkey⟩
      · rw [List.find?_cons_of_neg (by simpa [hb] using Ne.symm hji)]
    · rw [List.eraseP_cons_of_neg (by simpa using hb)]
      by_cases hj : key b = j
      · rw [List.find?_cons_of_pos (by simpa using hj), if_neg (hj ▸ hb),
          List.find?_cons_of_pos (by simpa using hj)]
      · rw [List.find?_cons_of_neg (by simpa using hj), ih hnodup.2,
          List.find?_cons_of_neg (by simpa using hj)]

theorem find_erase (h : Sound hash key t) (i j : ι) :
    find hash key (erase hash key t i) j = if j = i then none else find hash key t j := by
  rw [find, erase]
  by_cases hh : hash j = hash i
  · rw [hh, Function.update_self, find?_eraseP (h.nodup _), find, hh]
  · rw [Function.update_of_ne hh, if_neg (fun hji => hh (congrArg hash hji)), find]

theorem Sound.insert (h : Sound hash key t) (hnone : find hash key t (key a) = none) :
    Sound hash key (insert hash key t a) := by
  constructor
  · intro k b hb
    rw [Chains.insert] at hb
    by_cases hk : k = hash (key a)
    · subst hk
      rw [Function.update_self] at hb
      rcases List.mem_cons.mp hb with rfl | hmem
      · rfl
      · exact h.placed _ b hmem
    · rw [Function.update_of_ne hk] at hb
      exact h.placed k b hb
  · intro k
    rw [Chains.insert]
    by_cases hk : k = hash (key a)
    · subst hk
      rw [Function.update_self, List.map_cons, List.nodup_cons]
      refine ⟨fun hmem => ?_, h.nodup _⟩
      obtain ⟨b, hb, hkey⟩ := List.mem_map.mp hmem
      rw [find, List.find?_eq_none] at hnone
      exact hnone b hb (by simpa using hkey)
    · rw [Function.update_of_ne hk]
      exact h.nodup k

theorem Sound.erase (h : Sound hash key t) (i : ι) : Sound hash key (erase hash key t i) := by
  constructor
  · intro k b hb
    rw [Chains.erase] at hb
    by_cases hk : k = hash i
    · subst hk
      rw [Function.update_self] at hb
      exact h.placed _ b (List.mem_of_mem_eraseP hb)
    · rw [Function.update_of_ne hk] at hb
      exact h.placed k b hb
  · intro k
    rw [Chains.erase]
    by_cases hk : k = hash i
    · subst hk
      rw [Function.update_self]
      exact (h.nodup _).sublist (List.eraseP_sublist.map key)
    · rw [Function.update_of_ne hk]
      exact h.nodup k

omit [DecidableEq κ] in
/-- What holds of all entries holds of what is found. -/
theorem forall_find {P : α → Prop} (h : ∀ k, ∀ b ∈ t k, P b) (hfind : find hash key t i = some a) :
    P a :=
  h _ a (mem_of_find hfind).1

omit [DecidableEq ι] in
theorem forall_insert {P : α → Prop} (h : ∀ k, ∀ b ∈ t k, P b) (ha : P a) :
    ∀ k, ∀ b ∈ Chains.insert hash key t a k, P b := by
  intro k b hb
  rw [Chains.insert] at hb
  by_cases hk : k = hash (key a)
  · subst hk
    rw [Function.update_self] at hb
    rcases List.mem_cons.mp hb with rfl | hmem
    · exact ha
    · exact h _ b hmem
  · rw [Function.update_of_ne hk] at hb
    exact h k b hb

theorem forall_erase {P : α → Prop} (h : ∀ k, ∀ b ∈ t k, P b) (i : ι) :
    ∀ k, ∀ b ∈ Chains.erase hash key t i k, P b := by
  intro k b hb
  rw [Chains.erase] at hb
  by_cases hk : k = hash i
  · subst hk
    rw [Function.update_self] at hb
    exact h _ b (List.mem_of_mem_eraseP hb)
  · rw [Function.update_of_ne hk] at hb
    exact h k b hb

end Chains

end Semantics
