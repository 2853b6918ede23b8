import TestCluster.Lua.Tables
import TestCluster.Semantics.Visited
import Mathlib.Data.Set.Function

/-!
# Copies of tables

`table.copy` of `luaext.lua`. The copy of a table is made before those of its keys and values,
and is looked up where the table is met again. No table has a metatable with `__pairs` or
`__metatable`, so that `pairs` goes through the entries and `getmetatable` returns the metatable.

## Main definitions

* `copyValue`, `copyEntries` — `_copy` and its loop
* `Luaext.copy` — `table.copy`
* `IsCopy` — an isomorphic copy that shares nothing with the original

## Main results

* `copy_isCopy` — the copy of a value is one, whatever refers to what
-/

namespace TestCluster.Lua.Luaext

open Semantics

variable {P : Type}

/-! ### The code -/

/-- The tables, and `lookup_table`. -/
structure Copying (P : Type) where
  heap : Heap P
  lookupTable : Ref → Option Ref

section Code

variable [DecidableEq P]

/-- The loop of `_copy`, in which nothing changes the table that is gone through. -/
def copyEntries (copy : Value P → Copying P → Option (Value P × Copying P)) (newTable : Ref) :
    List (Entry P) → Copying P → Option (Copying P)
  | [], s => some s
  | (key, value) :: entries, s => do
    let (key, s) ← copy key s
    let (value, s) ← copy value s
    copyEntries copy newTable entries
      { s with heap := s.heap.modify newTable fun t => t.rawset key value }

/-- `_copy`, with calls at most so deep. -/
def copyValue : ℕ → Value P → Copying P → Option (Value P × Copying P)
  | _, .other p, s => some (.other p, s)
  | 0, .table _, _ => none
  | depth + 1, .table object, s =>
    match s.lookupTable object with
    | some copied => some (.table copied, s)
    | none => do
      let newTable := s.heap.length
      let t ← s.heap[object]?
      let s ← copyEntries (copyValue depth) newTable t.entries
        ⟨s.heap ++ [.empty], Function.update s.lookupTable object (some newTable)⟩
      let metatable := s.heap[object]?.bind LuaTable.metatable
      some (.table newTable,
        { s with heap := s.heap.modify newTable fun t => t.setmetatable metatable })

/-- `table.copy`: what it returns, and the tables that there are then. -/
def copy (depth : ℕ) (h : Heap P) (object : Value P) : Option (Value P × Heap P) := do
  let (v, s) ← copyValue depth object ⟨h, fun _ => none⟩
  some (v, s.heap)

end Code

/-! ### What a copy is -/

/-- The tables that can be reached from a value have been copied along `f`, and nothing else has
been done. The entries of a copy are in the order in which they were copied. -/
structure IsCopy (h : Heap P) (v : Value P) (h' : Heap P) (v' : Value P) (f : Ref → Ref) :
    Prop where
  unchanged : ∀ (r : Ref) t, h[r]? = some t → h'[r]? = some t
  value_eq : v' = v.map f
  bijOn : Set.BijOn f {r | Reaches h v r} {r | Reaches h' v' r}
  fresh : ∀ r, Reaches h v r → h.length ≤ f r
  entries : ∀ r t, Reaches h v r → h[r]? = some t → ∃ t', h'[f r]? = some t' ∧
    t'.entries = t.entries.map fun e => (e.1.map f, e.2.map f)
  metatable : ∀ r t, Reaches h v r → h[r]? = some t → ∃ t', h'[f r]? = some t' ∧
    t'.metatable = t.metatable

/-! ### Images of values -/

/-- A value under `lookup_table`. -/
def Value.image (m : Ref → Option Ref) : Value P → Option (Value P)
  | .other p => some (.other p)
  | .table r => (m r).map .table

section Image

variable {m m' : Ref → Option Ref} {v w v' : Value P}

theorem Value.image_mono (hext : Extends m m') (h : v.image m = some v') :
    v.image m' = some v' := by
  cases v with
  | other p => exact h
  | table r =>
    obtain ⟨r', hr, rfl⟩ := Option.map_eq_some_iff.mp h
    exact Option.map_eq_some_iff.mpr ⟨r', hext r r' hr, rfl⟩

theorem Value.image_injective (hinj : ∀ r₁ r₂ r', m r₁ = some r' → m r₂ = some r' → r₁ = r₂)
    (hv : v.image m = some v') (hw : w.image m = some v') : v = w := by
  cases v with
  | other p =>
    obtain rfl := Option.some.inj hv
    cases w with
    | other q => exact (Option.some.inj hw).symm
    | table r =>
      obtain ⟨r', -, hr'⟩ := Option.map_eq_some_iff.mp hw
      cases hr'
  | table r =>
    obtain ⟨r', hr, rfl⟩ := Option.map_eq_some_iff.mp hv
    cases w with
    | other q => cases hw
    | table r₂ =>
      obtain ⟨r'', hr₂, heq⟩ := Option.map_eq_some_iff.mp hw
      cases heq
      rw [hinj r r₂ r' hr hr₂]

/-- An entry under `lookup_table`. -/
def EntryImage (m : Ref → Option Ref) (e e' : Entry P) : Prop :=
  e.1.image m = some e'.1 ∧ e.2.image m = some e'.2

theorem EntryImage.mono (hext : Extends m m') {e e' : Entry P} (h : EntryImage m e e') :
    EntryImage m' e e' :=
  ⟨Value.image_mono hext h.1, Value.image_mono hext h.2⟩

theorem exists_entryImage {entries entries' : List (Entry P)}
    (h : List.Forall₂ (EntryImage m) entries entries') {e : Entry P} (he : e ∈ entries) :
    ∃ e', EntryImage m e e' := by
  induction h with
  | nil => cases he
  | cons hentry _ ih =>
    rcases List.mem_cons.mp he with rfl | he
    · exact ⟨_, hentry⟩
    · exact ih he

/-- A key whose image is among those of other keys is one of them. -/
theorem mem_keys_of_image (hinj : ∀ r₁ r₂ r', m r₁ = some r' → m r₂ = some r' → r₁ = r₂)
    {entries entries' : List (Entry P)} (h : List.Forall₂ (EntryImage m) entries entries')
    (hv : v.image m = some v') (hmem : v' ∈ entries'.map Prod.fst) :
    v ∈ entries.map Prod.fst := by
  induction h with
  | nil => cases hmem
  | cons hentry _ ih =>
    rcases List.mem_cons.mp hmem with rfl | hmem
    · rw [Value.image_injective hinj hv hentry.1]
      exact List.mem_cons_self
    · exact List.mem_cons_of_mem _ (ih hmem)

end Image

/-! ### What the copying keeps -/

/-- Nothing has happened to the original, and `lookup_table` leads from it to new tables. -/
structure Copying.Inv (h : Heap P) (s : Copying P) : Prop where
  length_le : h.length ≤ s.heap.length
  original : ∀ (r : Ref) t, h[r]? = some t → s.heap[r]? = some t
  lookup_lt : ∀ r r', s.lookupTable r = some r' → r < h.length ∧ h.length ≤ r' ∧
    r' < s.heap.length
  injective : ∀ r₁ r₂ r', s.lookupTable r₁ = some r' → s.lookupTable r₂ = some r' → r₁ = r₂

theorem inv_init (h : Heap P) : Copying.Inv h ⟨h, fun _ => none⟩ where
  length_le := le_rfl
  original _ _ := id
  lookup_lt r r' hr := by cases hr
  injective r₁ r₂ r' hr := by cases hr

/-- A table has been copied as a whole. -/
def Complete (h : Heap P) (s : Copying P) (r r' : Ref) : Prop :=
  ∃ t t', h[r]? = some t ∧ s.heap[r']? = some t' ∧ t'.metatable = t.metatable ∧
    List.Forall₂ (EntryImage s.lookupTable) t.entries t'.entries

/-- Tables have been copied, and those in `keep` are as they were. -/
structure Grows (h : Heap P) (keep : Ref → Prop) (s s' : Copying P) : Prop where
  lookup : Extends s.lookupTable s'.lookupTable
  length_le : s.heap.length ≤ s'.heap.length
  kept : ∀ r, r < s.heap.length → keep r → s'.heap[r]? = s.heap[r]?
  copied : ∀ r r', s.lookupTable r = none → s'.lookupTable r = some r' →
    s.heap.length ≤ r' ∧ Complete h s' r r'

variable {h : Heap P} {keep : Ref → Prop} {s s₁ s₂ : Copying P} {r r' : Ref}

theorem Complete.mono (hc : Complete h s₁ r r') (hext : Extends s₁.lookupTable s₂.lookupTable)
    (hkept : s₂.heap[r']? = s₁.heap[r']?) : Complete h s₂ r r' := by
  obtain ⟨t, t', ht, ht', hmeta, hentries⟩ := hc
  exact ⟨t, t', ht, hkept.trans ht', hmeta, hentries.imp fun _ _ he => he.mono hext⟩

theorem Complete.lt_length (hc : Complete h s r r') : r' < s.heap.length := by
  obtain ⟨-, t', -, ht', -⟩ := hc
  exact (List.getElem?_eq_some_iff.mp ht').1

namespace Grows

theorem refl (h : Heap P) (keep : Ref → Prop) (s : Copying P) : Grows h keep s s where
  lookup := Extends.refl _
  length_le := le_rfl
  kept _ _ _ := rfl
  copied r r' hnone hsome := by
    rw [hnone] at hsome
    cases hsome

theorem trans (hg : Grows h keep s s₁) (hg' : Grows h keep s₁ s₂)
    (hkeep : ∀ r, s.heap.length ≤ r → keep r) : Grows h keep s s₂ where
  lookup := hg.lookup.trans hg'.lookup
  length_le := hg.length_le.trans hg'.length_le
  kept r hlt hr := (hg'.kept r (hlt.trans_le hg.length_le) hr).trans (hg.kept r hlt hr)
  copied r r' hnone hsome := by
    cases hmid : s₁.lookupTable r with
    | none =>
      obtain ⟨hle, hcomplete⟩ := hg'.copied r r' hmid hsome
      exact ⟨hg.length_le.trans hle, hcomplete⟩
    | some r₁ =>
      -- copied in the first part, and not touched in the second
      have hsame := hg'.lookup r r₁ hmid
      rw [hsome] at hsame
      obtain rfl := Option.some.inj hsame
      obtain ⟨hle, hcomplete⟩ := hg.copied r r' hnone hmid
      exact ⟨hle, hcomplete.mono hg'.lookup
        (hg'.kept r' hcomplete.lt_length (hkeep r' hle))⟩

theorem weaken {keep' : Ref → Prop} (hg : Grows h keep s s₁) (hsub : ∀ r, keep' r → keep r) :
    Grows h keep' s s₁ where
  lookup := hg.lookup
  length_le := hg.length_le
  kept r hlt hr := hg.kept r hlt (hsub r hr)
  copied := hg.copied

end Grows

/-! ### The step of the loop -/

/-- The state with something done to one table. -/
def Copying.modify (s : Copying P) (r : Ref) (f : LuaTable P → LuaTable P) : Copying P :=
  { s with heap := s.heap.modify r f }

theorem Copying.Inv.modify (hinv : s.Inv h) (hr : h.length ≤ r) (f : LuaTable P → LuaTable P) :
    (s.modify r f).Inv h where
  length_le := by
    rw [Copying.modify, List.length_modify]
    exact hinv.length_le
  original r' t ht := by
    have hlt := (List.getElem?_eq_some_iff.mp ht).1
    rw [Copying.modify, List.getElem?_modify_ne _ _ (by omega)]
    exact hinv.original r' t ht
  lookup_lt r₁ r₂ hlookup := by
    rw [Copying.modify, List.length_modify]
    exact hinv.lookup_lt r₁ r₂ hlookup
  injective := hinv.injective

theorem Grows.modify (h : Heap P) (s : Copying P) (r : Ref) (f : LuaTable P → LuaTable P) :
    Grows h (· ≠ r) s (s.modify r f) where
  lookup := Extends.refl _
  length_le := by rw [Copying.modify, List.length_modify]
  kept r' _ hne := List.getElem?_modify_ne _ _ (Ne.symm hne)
  copied r₁ r₂ hnone hsome := by
    have hsame : s.lookupTable r₁ = some r₂ := hsome
    rw [hnone] at hsame
    cases hsame

/-! ### New tables -/

/-- The state with a new table for the copy of one that has none. -/
def Copying.start (s : Copying P) (r : Ref) : Copying P :=
  ⟨s.heap ++ [.empty], Function.update s.lookupTable r (some s.heap.length)⟩

@[simp] theorem Copying.start_heap (s : Copying P) (r : Ref) :
    (s.start r).heap = s.heap ++ [.empty] := rfl

@[simp] theorem Copying.start_lookupTable (s : Copying P) (r : Ref) :
    (s.start r).lookupTable = Function.update s.lookupTable r (some s.heap.length) := rfl

theorem Copying.Inv.start (hinv : s.Inv h) (hr : r < h.length) : (s.start r).Inv h where
  length_le := by
    rw [Copying.start_heap, List.length_append]
    exact hinv.length_le.trans (Nat.le_add_right _ _)
  original r' t ht := by
    have hlt := (List.getElem?_eq_some_iff.mp ht).1
    rw [Copying.start_heap, List.getElem?_append_left (hlt.trans_le hinv.length_le)]
    exact hinv.original r' t ht
  lookup_lt r₁ r₂ hlookup := by
    rw [Copying.start_heap, List.length_append, List.length_singleton]
    rw [Copying.start_lookupTable, Function.update_apply] at hlookup
    split_ifs at hlookup with heq
    · obtain rfl := Option.some.inj hlookup
      exact ⟨heq ▸ hr, hinv.length_le, Nat.lt_succ_self _⟩
    · obtain ⟨hlt, hle, hlt'⟩ := hinv.lookup_lt r₁ r₂ hlookup
      exact ⟨hlt, hle, Nat.lt_succ_of_lt hlt'⟩
  injective r₁ r₂ r' h₁ h₂ := by
    rw [Copying.start_lookupTable, Function.update_apply] at h₁ h₂
    split_ifs at h₁ h₂ with heq₁ heq₂ heq₂
    · rw [heq₁, heq₂]
    · -- what there was is not the new table
      obtain rfl := Option.some.inj h₁
      exact absurd (hinv.lookup_lt r₂ _ h₂).2.2 (lt_irrefl _)
    · obtain rfl := Option.some.inj h₂
      exact absurd (hinv.lookup_lt r₁ _ h₁).2.2 (lt_irrefl _)
    · exact hinv.injective r₁ r₂ r' h₁ h₂

/-- The new table is filled and gets its metatable: then the copy is complete. -/
theorem Grows.of_start {t t' : LuaTable P} (hnone : s.lookupTable r = none)
    (hg : Grows h (· ≠ s.heap.length) (s.start r) s₁) (ht : h[r]? = some t)
    (ht' : s₁.heap[s.heap.length]? = some t')
    (hall : List.Forall₂ (EntryImage s₁.lookupTable) t.entries t'.entries) :
    Grows h (fun _ => True) s
      (s₁.modify s.heap.length fun t' => t'.setmetatable t.metatable) where
  lookup := (Extends.update hnone _).trans hg.lookup
  length_le := by
    rw [Copying.modify, List.length_modify]
    have hle := hg.length_le
    rw [Copying.start_heap, List.length_append] at hle
    exact (Nat.le_add_right _ _).trans hle
  kept r' hlt _ := by
    have hlt' : r' < (s.start r).heap.length := by
      rw [Copying.start_heap, List.length_append]
      exact hlt.trans_le (Nat.le_add_right _ _)
    have hkept := hg.kept r' hlt' (Nat.ne_of_lt hlt)
    rw [Copying.modify, List.getElem?_modify_ne _ _ (by omega), hkept, Copying.start_heap,
      List.getElem?_append_left hlt]
  copied r₁ r₂ hnone₁ hsome := by
    have hsome₁ : s₁.lookupTable r₁ = some r₂ := hsome
    by_cases heq : r₁ = r
    · subst heq
      have hnew := hg.lookup r₁ s.heap.length (Function.update_self ..)
      rw [hsome₁] at hnew
      obtain rfl := Option.some.inj hnew
      refine ⟨le_rfl, t, t'.setmetatable t.metatable, ht, ?_, rfl, hall⟩
      rw [Copying.modify, List.getElem?_modify_eq, ht']
      rfl
    · have hnone' : (s.start r).lookupTable r₁ = none := by
        rw [Copying.start_lookupTable, Function.update_of_ne heq]
        exact hnone₁
      obtain ⟨hle, hcomplete⟩ := hg.copied r₁ r₂ hnone' hsome₁
      rw [Copying.start_heap, List.length_append, List.length_singleton] at hle
      exact ⟨by omega, hcomplete.mono (Extends.refl _)
        (List.getElem?_modify_ne _ _ (by omega))⟩

/-! ### Calls of `_copy` -/

section Calls

variable [DecidableEq P]

/-- What is known of a call that copies, while fewer than `n` tables are to be copied. -/
def Copies (h : Heap P) (n : ℕ) (copy : Value P → Copying P → Option (Value P × Copying P)) :
    Prop :=
  ∀ v s, h.Has v → s.Inv h → unmarked h.length s.lookupTable < n →
    ∃ v' s', copy v s = some (v', s') ∧ s'.Inv h ∧ Grows h (fun _ => True) s s' ∧
      v.image s'.lookupTable = some v'

/-- The loop copies the rest of the entries of a table to a table that has the first ones. -/
theorem copyEntries_spec {n : ℕ} {copy : Value P → Copying P → Option (Value P × Copying P)}
    (hcopy : Copies h n copy) {newTable : Ref} (hnew : h.length ≤ newTable)
    (done : List (Entry P)) {entries : List (Entry P)} {t : LuaTable P}
    (hentries : ∀ e ∈ entries, h.Has e.1 ∧ h.Has e.2)
    (hnodup : ((done ++ entries).map Prod.fst).Nodup) (hinv : s.Inv h)
    (hfew : unmarked h.length s.lookupTable < n) (ht : s.heap[newTable]? = some t)
    (hdone : List.Forall₂ (EntryImage s.lookupTable) done t.entries) :
    ∃ s' t', copyEntries copy newTable entries s = some s' ∧ s'.Inv h ∧
      Grows h (· ≠ newTable) s s' ∧ s'.heap[newTable]? = some t' ∧
      List.Forall₂ (EntryImage s'.lookupTable) (done ++ entries) t'.entries := by
  induction entries generalizing s done t with
  | nil =>
    rw [List.append_nil]
    exact ⟨s, t, rfl, hinv, Grows.refl h _ s, ht, hdone⟩
  | cons e entries ih =>
    obtain ⟨key, value⟩ := e
    obtain ⟨⟨hkey, hvalue⟩, hrest⟩ := List.forall_mem_cons.mp hentries
    -- the key is copied, then the value
    obtain ⟨key', s₁, hcopyKey, hinv₁, hg₁, himage₁⟩ := hcopy key s hkey hinv hfew
    have hfew₁ := (hg₁.lookup.unmarked_le h.length).trans_lt hfew
    obtain ⟨value', s₂, hcopyValue, hinv₂, hg₂, himage₂⟩ := hcopy value s₁ hvalue hinv₁ hfew₁
    have hg : Grows h (fun _ => True) s s₂ := hg₁.trans hg₂ fun _ _ => trivial
    have hlt := (List.getElem?_eq_some_iff.mp ht).1
    have ht₂ : s₂.heap[newTable]? = some t := (hg.kept newTable hlt trivial).trans ht
    have hdone₂ := hdone.imp fun _ _ he => EntryImage.mono hg.lookup he
    have hkey' := Value.image_mono hg₂.lookup himage₁
    -- no entry has the copy of the key yet
    have hnotMem : key' ∉ t.entries.map Prod.fst := by
      intro hmem
      have hkeyMem := mem_keys_of_image hinv₂.injective hdone₂ hkey' hmem
      rw [List.map_append, List.nodup_append] at hnodup
      exact hnodup.2.2 _ hkeyMem _ List.mem_cons_self rfl
    have hset : (t.rawset key' value').entries = t.entries ++ [(key', value')] :=
      LuaTable.assign_of_notMem value' hnotMem
    have hnext := ih (done ++ [(key, value)]) (s := s₂.modify newTable fun t =>
        t.rawset key' value') (t := t.rawset key' value') hrest
      (by rwa [List.append_assoc, List.singleton_append]) (hinv₂.modify hnew _)
      ((hg.lookup.unmarked_le h.length).trans_lt hfew)
      (by rw [Copying.modify, List.getElem?_modify_eq, ht₂]; rfl)
      (by
        rw [hset]
        exact List.rel_append hdone₂ (.cons ⟨hkey', himage₂⟩ .nil))
    obtain ⟨s', t', hloop, hinv', hg', ht', hall⟩ := hnext
    rw [List.append_assoc, List.singleton_append] at hall
    refine ⟨s', t', ?_, hinv', ?_, ht', hall⟩
    · simp only [copyEntries, hcopyKey, hcopyValue, Option.bind_eq_bind, Option.bind_some]
      exact hloop
    · have hkeep : ∀ r, s.heap.length ≤ r → r ≠ newTable := fun r hr => by omega
      exact ((hg.weaken fun _ _ => trivial).trans (Grows.modify h s₂ newTable _) hkeep).trans hg'
        hkeep

/-- A call that may go as deep as there are tables to copy copies its value. -/
theorem copyValue_spec (hclosed : h.Closed) (depth : ℕ) :
    Copies h depth (copyValue depth) := by
  induction depth with
  | zero => exact fun _ _ _ _ hfew => absurd hfew (Nat.not_lt_zero _)
  | succ depth ih =>
    intro v s hv hinv hfew
    cases v with
    | other p => exact ⟨_, s, rfl, hinv, Grows.refl h _ s, rfl⟩
    | table r =>
      cases hlookup : s.lookupTable r with
      | some copied =>
        refine ⟨.table copied, s, ?_, hinv, Grows.refl h _ s, ?_⟩
        · simp only [copyValue, hlookup]
        · rw [Value.image, hlookup, Option.map_some]
      | none =>
        have hr := hv r rfl
        have ht : h[r]? = some h[r] := List.getElem?_eq_getElem hr
        have hmem : h[r] ∈ h := List.getElem_mem hr
        have hfew' : unmarked h.length (s.start r).lookupTable < depth :=
          lt_of_lt_of_le (unmarked_update_lt hlookup hr _) (Nat.le_of_lt_succ hfew)
        have hnew : (s.start r).heap[s.heap.length]? = some LuaTable.empty := by
          rw [Copying.start_heap, List.getElem?_concat_length]
        obtain ⟨s₁, t', hloop, hinv₁, hg, ht', hall⟩ := copyEntries_spec ih hinv.length_le []
          (hclosed _ hmem) h[r].nodup (hinv.start hr) hfew' hnew .nil
        have ht₁ : s₁.heap[r]? = some h[r] := hinv₁.original r _ ht
        have hgrows := hg.of_start hlookup ht ht' hall
        refine ⟨.table s.heap.length, _, ?_, hinv₁.modify hinv.length_le _, hgrows, ?_⟩
        · have hstart : copyEntries (copyValue depth) s.heap.length h[r].entries
              ⟨s.heap ++ [.empty], Function.update s.lookupTable r (some s.heap.length)⟩ =
                some s₁ := hloop
          simp only [copyValue, hlookup, hinv.original r _ ht, Option.bind_eq_bind,
            Option.bind_some, hstart, ht₁]
          rfl
        · have hcopied := hg.lookup r s.heap.length (Function.update_self ..)
          rw [Value.image, Copying.modify, hcopied, Option.map_some]

end Calls

/-! ### Copies are isomorphic -/

/-- Where a reference is copied to. -/
def Copying.target (s : Copying P) (r : Ref) : Ref := (s.lookupTable r).getD 0

theorem Value.eq_map_of_image {v v' : Value P} (hv : v.image s.lookupTable = some v') :
    v' = v.map s.target := by
  cases v with
  | other p => exact (Option.some.inj hv).symm
  | table r =>
    obtain ⟨r', hr, rfl⟩ := Option.map_eq_some_iff.mp hv
    rw [Value.map, Copying.target, hr, Option.getD_some]

theorem entries_eq_map {entries entries' : List (Entry P)}
    (hall : List.Forall₂ (EntryImage s.lookupTable) entries entries') :
    entries' = entries.map fun e => (e.1.map s.target, e.2.map s.target) := by
  induction hall with
  | nil => rfl
  | cons he _ ih =>
    rw [List.map_cons, ← ih, ← Value.eq_map_of_image he.1, ← Value.eq_map_of_image he.2]

/-- All that can be reached from a value with an image has one. -/
theorem exists_image_of_reaches {v v' : Value P} (hv : v.image s.lookupTable = some v')
    (hcomplete : ∀ r r', s.lookupTable r = some r' → Complete h s r r') (hr : Reaches h v r) :
    ∃ r', s.lookupTable r = some r' := by
  -- the entries of a table that was copied have images
  have hentry {r r' : Ref} {t : LuaTable P} {e : Entry P} (hr : s.lookupTable r = some r')
      (ht : h[r]? = some t) (he : e ∈ t.entries) :
      ∃ e', EntryImage s.lookupTable e e' := by
    obtain ⟨t₁, t', ht₁, -, -, hall⟩ := hcomplete r r' hr
    rw [ht] at ht₁
    obtain rfl := Option.some.inj ht₁
    exact exists_entryImage hall he
  induction hr with
  | root hroot =>
    rw [hroot] at hv
    obtain ⟨r', hr', -⟩ := Option.map_eq_some_iff.mp hv
    exact ⟨r', hr'⟩
  | key _ ht he heq ih =>
    obtain ⟨r', hr'⟩ := ih
    obtain ⟨e', hkey, -⟩ := hentry hr' ht he
    rw [heq] at hkey
    obtain ⟨k, hk, -⟩ := Option.map_eq_some_iff.mp hkey
    exact ⟨k, hk⟩
  | value _ ht he heq ih =>
    obtain ⟨r', hr'⟩ := ih
    obtain ⟨e', -, hvalue⟩ := hentry hr' ht he
    rw [heq] at hvalue
    obtain ⟨k, hk, -⟩ := Option.map_eq_some_iff.mp hvalue
    exact ⟨k, hk⟩

/-- What the tables that are reached look like in two heaps, one of which is the other along
`f`. -/
def EntriesAlong (h : Heap P) (v : Value P) (h' : Heap P) (f : Ref → Ref) : Prop :=
  ∀ r, Reaches h v r → ∃ t t', h[r]? = some t ∧ h'[f r]? = some t' ∧
    t'.metatable = t.metatable ∧ t'.entries = t.entries.map fun e => (e.1.map f, e.2.map f)

namespace EntriesAlong

variable {v v' : Value P} {h' : Heap P} {f : Ref → Ref}

theorem of_getElem? (hf : EntriesAlong h v h' f) {t : LuaTable P} (hr : Reaches h v r)
    (ht : h[r]? = some t) : ∃ t', h'[f r]? = some t' ∧ t'.metatable = t.metatable ∧
      t'.entries = t.entries.map fun e => (e.1.map f, e.2.map f) := by
  obtain ⟨t₁, t', ht₁, ht', hmeta, hmap⟩ := hf r hr
  rw [ht] at ht₁
  obtain rfl := Option.some.inj ht₁
  exact ⟨t', ht', hmeta, hmap⟩

theorem exists_entry (hf : EntriesAlong h v h' f) {t' : LuaTable P} {e' : Entry P}
    (hr : Reaches h v r) (ht' : h'[f r]? = some t') (he' : e' ∈ t'.entries) :
    ∃ t e, h[r]? = some t ∧ e ∈ t.entries ∧ e' = (e.1.map f, e.2.map f) := by
  obtain ⟨t, t₁, ht, ht₁, -, hmap⟩ := hf r hr
  rw [ht'] at ht₁
  obtain rfl := Option.some.inj ht₁
  rw [hmap] at he'
  obtain ⟨e, he, rfl⟩ := List.mem_map.mp he'
  exact ⟨t, e, ht, he, rfl⟩

/-- What is reached from the copy is the copy of something. -/
theorem reaches_source (hf : EntriesAlong h v h' f) (hr' : Reaches h' (v.map f) r') :
    ∃ r, Reaches h v r ∧ f r = r' := by
  have htable {w : Value P} {r' : Ref} (hw : w.map f = .table r') :
      ∃ r, w = .table r ∧ f r = r' := by
    cases w with
    | other p => cases hw
    | table r =>
      cases hw
      exact ⟨r, rfl, rfl⟩
  induction hr' with
  | root hroot =>
    obtain ⟨r, rfl, hfr⟩ := htable hroot
    exact ⟨r, .root rfl, hfr⟩
  | key _ ht' he' heq ih =>
    obtain ⟨r, hr, rfl⟩ := ih
    obtain ⟨t, e, ht, he, rfl⟩ := hf.exists_entry hr ht' he'
    obtain ⟨k, hk, hfk⟩ := htable heq
    exact ⟨k, .key hr ht he hk, hfk⟩
  | value _ ht' he' heq ih =>
    obtain ⟨r, hr, rfl⟩ := ih
    obtain ⟨t, e, ht, he, rfl⟩ := hf.exists_entry hr ht' he'
    obtain ⟨k, hk, hfk⟩ := htable heq
    exact ⟨k, .value hr ht he hk, hfk⟩

/-- The copy of something that is reached is reached from the copy. -/
theorem reaches_target (hf : EntriesAlong h v h' f) (hr : Reaches h v r) :
    Reaches h' (v.map f) (f r) := by
  have hentry {r : Ref} {t : LuaTable P} {e : Entry P} (hr : Reaches h v r)
      (ht : h[r]? = some t) (he : e ∈ t.entries) :
      ∃ t', h'[f r]? = some t' ∧ (e.1.map f, e.2.map f) ∈ t'.entries := by
    obtain ⟨t', ht', -, hmap⟩ := hf.of_getElem? hr ht
    refine ⟨t', ht', ?_⟩
    rw [hmap]
    exact List.mem_map_of_mem he
  induction hr with
  | root hroot =>
    rw [hroot]
    exact .root rfl
  | key hr ht he heq ih =>
    obtain ⟨t', ht', he'⟩ := hentry hr ht he
    refine .key ih ht' he' ?_
    rw [heq]
    rfl
  | value hr ht he heq ih =>
    obtain ⟨t', ht', he'⟩ := hentry hr ht he
    refine .value ih ht' he' ?_
    rw [heq]
    rfl

end EntriesAlong

/-- **Copies.** `table.copy` returns for every value, if calls may go as deep as there are
tables, and what it returns is an isomorphic copy that shares nothing with the original. -/
theorem copy_isCopy [DecidableEq P] (h : Heap P) (v : Value P) (hclosed : h.Closed)
    (hv : h.Has v) (depth : ℕ) (hdepth : h.length < depth) :
    ∃ v' h', copy depth h v = some (v', h') ∧ ∃ f, IsCopy h v h' v' f := by
  have hfew : unmarked h.length (fun _ => (none : Option Ref)) < depth := by
    rwa [unmarked_empty]
  obtain ⟨v', s, hcopy, hinv', hgrows, himage⟩ :=
    copyValue_spec hclosed depth v ⟨h, fun _ => none⟩ hv (inv_init h) hfew
  have hcomplete : ∀ r r', s.lookupTable r = some r' → Complete h s r r' :=
    fun r r' hr => (hgrows.copied r r' rfl hr).2
  have hlookup {r : Ref} (hr : Reaches h v r) : s.lookupTable r = some (s.target r) := by
    obtain ⟨r', hr'⟩ := exists_image_of_reaches himage hcomplete hr
    rw [Copying.target, hr', Option.getD_some]
  have halong : EntriesAlong h v s.heap s.target := by
    intro r hr
    obtain ⟨t, t', ht, ht', hmeta, hall⟩ := hcomplete r _ (hlookup hr)
    exact ⟨t, t', ht, ht', hmeta, entries_eq_map hall⟩
  obtain rfl := Value.eq_map_of_image himage
  refine ⟨v.map s.target, s.heap, ?_, s.target, ?_⟩
  · rw [copy, hcopy]
    rfl
  · constructor
    · exact hinv'.original
    · rfl
    · refine ⟨fun r hr => halong.reaches_target hr, ?_, fun r' hr' => halong.reaches_source hr'⟩
      intro r₁ hr₁ r₂ hr₂ heq
      have h₁ := hlookup hr₁
      rw [heq] at h₁
      exact hinv'.injective r₁ r₂ _ h₁ (hlookup hr₂)
    · exact fun r hr => (hinv'.lookup_lt r _ (hlookup hr)).2.1
    · intro r t hr ht
      obtain ⟨t', ht', -, hmap⟩ := halong.of_getElem? hr ht
      exact ⟨t', ht', hmap⟩
    · intro r t hr ht
      obtain ⟨t', ht', hmeta, -⟩ := halong.of_getElem? hr ht
      exact ⟨t', ht', hmeta⟩

/-- A table that is its own key, its own value and its own metatable. -/
def selfTable : LuaTable ℕ := ⟨[(.table 0, .table 0)], some 0, List.nodup_singleton _⟩

/-- It is copied. -/
theorem copy_isCopy_self : ∃ v' h', copy 2 [selfTable] (.table 0) = some (v', h') ∧
    ∃ f, IsCopy [selfTable] (.table 0) h' v' f :=
  copy_isCopy [selfTable] (.table 0) (by decide) (by decide) 2 (by decide)

end TestCluster.Lua.Luaext
