import TestCluster.Lua.Dispatcher
import TestCluster.Lua.Tables
import TestCluster.Semantics.Nested
import TestCluster.Semantics.Visited

/-!
# Texts of tables

`tostring` as `luaext.lua` has it: the text of a table shows its entries, and those of its values
in it. A table that was shown before is named by its path, and not shown again. The text of a key
is made by `tostring` itself, which knows nothing of the paths.

## Main definitions

* `innerDump`, `dumpEntries`, `dump`, `tostring` — `_dump` with its loop, `dump` and `tostring`
* `KeysApart` — the tables that are shown for keys are not shown elsewhere

## Main results

* `tostring_once_iff` — there is a text of a table, and no table is shown twice in it, exactly if
  the keys are apart
-/

namespace TestCluster.Lua.Luaext

open Semantics

/-! ### The code -/

/-- What a call of `dump` has: `cache`, and the tables whose entries were shown so far. -/
structure Dumping where
  cache : Ref → Option Bytes
  shown : List Ref

/-- What is shown of values other than tables, and which of them is `false`. -/
structure Primitives (P : Type) where
  tostring : P → Bytes
  isFalse : P → Bool

variable {P : Type}

section Code

variable (prim : Primitives P)

/-- `next(t, k)` as a condition, for the entries behind `k`. -/
def nextTruthy : List (Entry P) → Bool
  | [] => false
  | (.other p, _) :: _ => !prim.isFalse p
  | (.table _, _) :: _ => true

section Entries

variable (tostring : Value P → Option (Bytes × List Ref))
  (inner : Ref → Bytes → Bytes → Dumping → Option (Bytes × Dumping)) (space name : Bytes)

/-- One round of the loop of `_dump`, with what `tostring` and `_dump` do: the line that is
inserted into `temp`. -/
def dumpEntry (e : Entry P) (rest : List (Entry P)) (s : Dumping) :
    Option (Bytes × Dumping) := do
  let (key, shown) ← tostring e.1
  let s := { s with shown := s.shown ++ shown }
  match e.2 with
  | .table r =>
    match s.cache r with
    | some path => some (literal " +" ++ key ++ literal " \x7b" ++ path ++ literal "\x7d", s)
    | none => do
      let newKey := name ++ literal "." ++ key
      let bar := if nextTruthy prim rest then literal " |" else literal " "
      let (text, s) ← inner r (space ++ bar ++ List.replicate key.length 32) newKey
        { s with cache := Function.update s.cache r (some newKey) }
      some (literal " +" ++ key ++ text, s)
  | .other p => do
    let (value, shown) ← tostring (.other p)
    some (literal " " ++ key ++ literal " [" ++ value ++ literal "]",
      { s with shown := s.shown ++ shown })

/-- The loop of `_dump`. -/
def dumpEntries : List (Entry P) → Dumping → Option (List Bytes × Dumping)
  | [], s => some ([], s)
  | e :: entries, s => do
    let (line, s) ← dumpEntry prim tostring inner space name e entries s
    let (temp, s) ← dumpEntries entries s
    some (line :: temp, s)

end Entries

/-- `dump`, with what `_dump` does. -/
def dump (inner : Ref → Bytes → Bytes → Dumping → Option (Bytes × Dumping)) (root : Ref) :
    Option (Bytes × List Ref) := do
  let (text, s) ← inner root [] [] ⟨Function.update (fun _ => none) root (some (literal ".")), []⟩
  some (literal "\n" ++ text, s.shown)

/-- `tostring`, with what `_dump` does: the text, and the tables shown. -/
def tostring (inner : Ref → Bytes → Bytes → Dumping → Option (Bytes × Dumping)) :
    Value P → Option (Bytes × List Ref)
  | .other p => some (prim.tostring p, [])
  | .table root => dump inner root

/-- `_dump`, with calls at most so deep. -/
def innerDump (h : Heap P) : ℕ → Ref → Bytes → Bytes → Dumping → Option (Bytes × Dumping)
  | 0, _, _, _, _ => none
  | depth + 1, t, space, name, s => do
    let table ← h[t]?
    let (temp, s) ← dumpEntries prim (tostring prim (innerDump h depth)) (innerDump h depth)
      space name table.entries { s with shown := s.shown ++ [t] }
    some ((literal "\n" ++ space).intercalate temp, s)

end Code

/-! ### The graph -/

/-- A table is a value of another one. -/
def ValueEdge (h : Heap P) (u w : Ref) : Prop :=
  ∃ t e, h[u]? = some t ∧ e ∈ t.entries ∧ e.2 = .table w

/-- A table is a key of another one. -/
def KeyEdge (h : Heap P) (u k : Ref) : Prop :=
  ∃ t e, h[u]? = some t ∧ e ∈ t.entries ∧ e.1 = .table k

/-- Tables that are shown for keys are shown nowhere else: of those that can be reached none is a
key in two tables, the root is a key in none, and no table is reached through values from two of
them, the root and the keys. -/
def KeysApart (h : Heap P) (root : Ref) : Prop := Apart (ValueEdge h) (KeyEdge h) root

/-- The tables among the keys. -/
def tableKeys : List (Entry P) → List Ref
  | [] => []
  | (.other _, _) :: entries => tableKeys entries
  | (.table k, _) :: entries => k :: tableKeys entries

/-- The keys of a table that are tables. -/
def keysOf (h : Heap P) (u : Ref) : List Ref := (h[u]?.map fun t => tableKeys t.entries).getD []

theorem mem_tableKeys {k : Ref} {entries : List (Entry P)} :
    k ∈ tableKeys entries ↔ ∃ e ∈ entries, e.1 = .table k := by
  induction entries with
  | nil => simp [tableKeys]
  | cons e entries ih =>
    obtain ⟨key, v⟩ := e
    cases key with
    | other p => simp [tableKeys, ih]
    | table k' => simp [tableKeys, ih, eq_comm]

theorem mem_keysOf {h : Heap P} {u k : Ref} : k ∈ keysOf h u ↔ KeyEdge h u k := by
  rw [keysOf, KeyEdge]
  cases hu : h[u]? with
  | none => simp
  | some t => simp [mem_tableKeys]

theorem nodup_tableKeys {entries : List (Entry P)} (h : (entries.map Prod.fst).Nodup) :
    (tableKeys entries).Nodup := by
  induction entries with
  | nil => exact List.nodup_nil
  | cons e entries ih =>
    obtain ⟨key, v⟩ := e
    obtain ⟨hnotMem, hnodup⟩ := List.nodup_cons.mp h
    cases key with
    | other p => exact ih hnodup
    | table k =>
      refine List.nodup_cons.mpr ⟨fun hmem => hnotMem ?_, ih hnodup⟩
      obtain ⟨e, he, heq⟩ := mem_tableKeys.mp hmem
      exact List.mem_map.mpr ⟨e, he, heq⟩

theorem nodup_keysOf (h : Heap P) (u : Ref) : (keysOf h u).Nodup := by
  rw [keysOf]
  cases h[u]? with
  | none => exact List.nodup_nil
  | some t => exact nodup_tableKeys t.nodup

/-! ### More depth -/

section Code

variable {prim : Primitives P} {ts ts' : Value P → Option (Bytes × List Ref)}
  {inner inner' : Ref → Bytes → Bytes → Dumping → Option (Bytes × Dumping)}
  {space name : Bytes}

/-- One round, whatever is shown. -/
theorem dumpEntry_cases {e : Entry P} {rest : List (Entry P)} {s s' : Dumping} {line : Bytes}
    (h : dumpEntry prim ts inner space name e rest s = some (line, s')) :
    ∃ key l, ts e.1 = some (key, l) ∧
      ((∃ r path, e.2 = .table r ∧ s.cache r = some path ∧ s' = ⟨s.cache, s.shown ++ l⟩) ∨
        (∃ r space' name' text, e.2 = .table r ∧ s.cache r = none ∧
          inner r space' name' ⟨Function.update s.cache r (some name'), s.shown ++ l⟩ =
            some (text, s')) ∨
        ∃ p value l', e.2 = .other p ∧ ts (.other p) = some (value, l') ∧
          s' = ⟨s.cache, s.shown ++ l ++ l'⟩) := by
  simp only [dumpEntry, Option.bind_eq_bind] at h
  obtain ⟨⟨key, l⟩, hkey, h⟩ := Option.bind_eq_some_iff.mp h
  refine ⟨key, l, hkey, ?_⟩
  cases hvalue : e.2 with
  | table r =>
    rw [hvalue] at h
    cases hcache : s.cache r with
    | some path =>
      simp only [hcache] at h
      cases h
      exact .inl ⟨r, path, rfl, hcache, rfl⟩
    | none =>
      simp only [hcache] at h
      obtain ⟨⟨text, s₁⟩, hinner, h⟩ := Option.bind_eq_some_iff.mp h
      cases h
      exact .inr (.inl ⟨r, _, _, text, rfl, hcache, hinner⟩)
  | other p =>
    rw [hvalue] at h
    simp only at h
    obtain ⟨⟨value, l'⟩, hother, h⟩ := Option.bind_eq_some_iff.mp h
    cases h
    exact .inr (.inr ⟨p, value, l', rfl, hother, rfl⟩)

/-- More depth changes nothing where there was a result. -/
theorem dumpEntry_mono (hts : ∀ v x, ts v = some x → ts' v = some x)
    (hinner : ∀ r space name s x, inner r space name s = some x →
      inner' r space name s = some x) {e : Entry P} {rest : List (Entry P)} {s : Dumping}
    {x : Bytes × Dumping} (h : dumpEntry prim ts inner space name e rest s = some x) :
    dumpEntry prim ts' inner' space name e rest s = some x := by
  simp only [dumpEntry, Option.bind_eq_bind] at h ⊢
  obtain ⟨⟨key, l⟩, hkey, h⟩ := Option.bind_eq_some_iff.mp h
  refine Option.bind_eq_some_iff.mpr ⟨(key, l), hts _ _ hkey, ?_⟩
  cases hvalue : e.2 with
  | table r =>
    rw [hvalue] at h
    cases hcache : s.cache r with
    | some path => simpa only [hcache] using h
    | none =>
      simp only [hcache] at h ⊢
      obtain ⟨⟨text, s₁⟩, htext, h⟩ := Option.bind_eq_some_iff.mp h
      exact Option.bind_eq_some_iff.mpr ⟨(text, s₁), hinner _ _ _ _ _ htext, h⟩
  | other p =>
    rw [hvalue] at h
    simp only at h ⊢
    obtain ⟨⟨value, l'⟩, hother, h⟩ := Option.bind_eq_some_iff.mp h
    exact Option.bind_eq_some_iff.mpr ⟨(value, l'), hts _ _ hother, h⟩

theorem dumpEntries_cons {e : Entry P} {entries : List (Entry P)} {s : Dumping}
    {x : List Bytes × Dumping} :
    dumpEntries prim ts inner space name (e :: entries) s = some x ↔
      ∃ line s₁ temp s₂, dumpEntry prim ts inner space name e entries s = some (line, s₁) ∧
        dumpEntries prim ts inner space name entries s₁ = some (temp, s₂) ∧
        (line :: temp, s₂) = x := by
  rw [dumpEntries, Option.bind_eq_bind, Option.bind_eq_some_iff]
  constructor
  · rintro ⟨⟨line, s₁⟩, hentry, h⟩
    obtain ⟨⟨temp, s₂⟩, hrest, h⟩ := Option.bind_eq_some_iff.mp h
    exact ⟨line, s₁, temp, s₂, hentry, hrest, Option.some.inj h⟩
  · rintro ⟨line, s₁, temp, s₂, hentry, hrest, rfl⟩
    exact ⟨(line, s₁), hentry, Option.bind_eq_some_iff.mpr ⟨(temp, s₂), hrest, rfl⟩⟩

theorem dumpEntries_mono (hts : ∀ v x, ts v = some x → ts' v = some x)
    (hinner : ∀ r space name s x, inner r space name s = some x →
      inner' r space name s = some x) {entries : List (Entry P)} {s : Dumping}
    {x : List Bytes × Dumping} (h : dumpEntries prim ts inner space name entries s = some x) :
    dumpEntries prim ts' inner' space name entries s = some x := by
  induction entries generalizing s x with
  | nil => exact h
  | cons e entries ih =>
    obtain ⟨line, s₁, temp, s₂, hentry, hrest, hx⟩ := dumpEntries_cons.mp h
    exact dumpEntries_cons.mpr
      ⟨line, s₁, temp, s₂, dumpEntry_mono hts hinner hentry, ih hrest, hx⟩

theorem dump_iff {r : Ref} {text : Bytes} {l : List Ref} : dump inner r = some (text, l) ↔
    ∃ text' s, inner r [] [] ⟨Function.update (fun _ => none) r (some (literal ".")), []⟩ =
      some (text', s) ∧ text = literal "\n" ++ text' ∧ l = s.shown := by
  rw [dump, Option.bind_eq_bind, Option.bind_eq_some_iff]
  constructor
  · rintro ⟨⟨text', s⟩, hinner, h⟩
    cases h
    exact ⟨text', s, hinner, rfl, rfl⟩
  · rintro ⟨text', s, hinner, rfl, rfl⟩
    exact ⟨(text', s), hinner, rfl⟩

theorem tostring_mono
    (hinner : ∀ r space name s x, inner r space name s = some x →
      inner' r space name s = some x) {v : Value P} {x : Bytes × List Ref}
    (h : tostring prim inner v = some x) : tostring prim inner' v = some x := by
  cases v with
  | other p => exact h
  | table r =>
    obtain ⟨text, l⟩ := x
    obtain ⟨text', s, hr, htext, hl⟩ := dump_iff.mp h
    exact dump_iff.mpr ⟨text', s, hinner _ _ _ _ _ hr, htext, hl⟩

theorem innerDump_succ {h : Heap P} {depth : ℕ} {r : Ref} {s : Dumping} {x : Bytes × Dumping} :
    innerDump prim h (depth + 1) r space name s = some x ↔
      ∃ t temp s₁, h[r]? = some t ∧
        dumpEntries prim (tostring prim (innerDump prim h depth)) (innerDump prim h depth) space
          name t.entries ⟨s.cache, s.shown ++ [r]⟩ = some (temp, s₁) ∧
        ((literal "\n" ++ space).intercalate temp, s₁) = x := by
  rw [innerDump, Option.bind_eq_bind, Option.bind_eq_some_iff]
  constructor
  · rintro ⟨t, ht, h⟩
    obtain ⟨⟨temp, s₁⟩, hentries, h⟩ := Option.bind_eq_some_iff.mp h
    exact ⟨t, temp, s₁, ht, hentries, Option.some.inj h⟩
  · rintro ⟨t, temp, s₁, ht, hentries, rfl⟩
    exact ⟨t, ht, Option.bind_eq_some_iff.mpr ⟨(temp, s₁), hentries, rfl⟩⟩

theorem innerDump_mono {h : Heap P} {depth depth' : ℕ} (hle : depth ≤ depth') {r : Ref}
    {s : Dumping} {x : Bytes × Dumping} (hx : innerDump prim h depth r space name s = some x) :
    innerDump prim h depth' r space name s = some x := by
  induction depth generalizing depth' r space name s x with
  | zero => cases hx
  | succ depth ih =>
    obtain ⟨depth', rfl⟩ := Nat.exists_eq_add_of_le' hle
    have hle' : depth ≤ depth' + depth := Nat.le_add_left _ _
    obtain ⟨t, temp, s₁, ht, hentries, hx⟩ := innerDump_succ.mp hx
    refine innerDump_succ.mpr ⟨t, temp, s₁, ht, dumpEntries_mono ?_ ?_ hentries, hx⟩
    · exact fun v x hv => tostring_mono (fun r space name s x hr => ih hle' hr) hv
    · exact fun r space name s x hr => ih hle' hr

theorem dump_mono {h : Heap P} {depth depth' : ℕ} (hle : depth ≤ depth') {r : Ref}
    {x : Bytes × List Ref} (hx : dump (innerDump prim h depth) r = some x) :
    dump (innerDump prim h depth') r = some x := by
  have htable : tostring prim (innerDump prim h depth) (.table r) = some x := hx
  exact tostring_mono (fun _ _ _ _ _ hr => innerDump_mono hle hr) htable

end Code

/-! ### What is shown -/

section Shown

open Relation

variable (prim : Primitives P) (h : Heap P)

open Classical in
/-- The tables that are shown in the text of a table, where there is one. -/
noncomputable def shownFor (k : Ref) : List Ref :=
  if hl : ∃ l depth text, dump (innerDump prim h depth) k = some (text, l) then hl.choose else []

/-- The tables are shown that a search visits. -/
def Rendered (k : Ref) : Prop := Search (ValueEdge h) (KeyEdge h) k (shownFor prim h k)

/-- The edges from tables to their keys. -/
def keyEdges (us : List Ref) : List (Ref × Ref) :=
  us.flatMap fun u => (keysOf h u).map (Prod.mk u)

/-- Tables, and what is shown for their keys. -/
noncomputable def visits (us : List Ref) : List Ref :=
  us ++ us.flatMap fun u => (keysOf h u).flatMap (shownFor prim h)

/-- Entries have been shown: values that were not in `cache` were found, with what can be reached
from them. -/
structure Shows (entries : List (Entry P)) (s s' : Dumping) (found : List Ref) : Prop where
  nodup : found.Nodup
  cached : ∀ r, s'.cache r ≠ none ↔ s.cache r ≠ none ∨ r ∈ found
  new : ∀ r ∈ found, s.cache r = none
  closed : ∀ u ∈ found, ∀ w, ValueEdge h u w → s'.cache w ≠ none
  reached : ∀ u ∈ found, ∃ e ∈ entries, ∃ r, e.2 = .table r ∧ ReflTransGen (ValueEdge h) r u
  values : ∀ e ∈ entries, ∀ r, e.2 = .table r → s'.cache r ≠ none
  rendered : ∀ u ∈ found, ∀ k ∈ keysOf h u, Rendered prim h k
  keys : ∀ k ∈ tableKeys entries, Rendered prim h k
  count : ∀ x, s'.shown.count x = s.shown.count x +
    ((tableKeys entries).flatMap (shownFor prim h)).count x + (visits prim h found).count x

/-- A table has been shown that was not in `cache`, and the others with it that can be reached. -/
structure ShowsTable (r : Ref) (cache : Ref → Option Bytes) (shown : List Ref) (s' : Dumping)
    (found : List Ref) : Prop where
  nodup : (r :: found).Nodup
  cached : ∀ w, s'.cache w ≠ none ↔ cache w ≠ none ∨ w ∈ r :: found
  new : ∀ w ∈ found, cache w = none
  closed : ∀ u ∈ r :: found, ∀ w, ValueEdge h u w → s'.cache w ≠ none
  reached : ∀ u ∈ r :: found, ReflTransGen (ValueEdge h) r u
  rendered : ∀ u ∈ r :: found, ∀ k ∈ keysOf h u, Rendered prim h k
  count : ∀ x, s'.shown.count x = shown.count x + (visits prim h (r :: found)).count x

/-- What is known of calls of `_dump`. -/
def InnerShows (inner : Ref → Bytes → Bytes → Dumping → Option (Bytes × Dumping)) : Prop :=
  ∀ r space name s text s', inner r space name s = some (text, s') →
    ∃ t found, h[r]? = some t ∧ Shows prim h t.entries ⟨s.cache, s.shown ++ [r]⟩ s' found

/-- What is known of calls of `tostring`. -/
structure TostringShows (ts : Value P → Option (Bytes × List Ref)) : Prop where
  other : ∀ p text l, ts (.other p) = some (text, l) → l = []
  table : ∀ k text l, ts (.table k) = some (text, l) → l = shownFor prim h k ∧ Rendered prim h k

variable {prim h}

theorem shownFor_eq {depth : ℕ} {k : Ref} {text : Bytes} {l : List Ref}
    (hl : dump (innerDump prim h depth) k = some (text, l)) : shownFor prim h k = l := by
  have hex : ∃ l depth text, dump (innerDump prim h depth) k = some (text, l) :=
    ⟨l, depth, text, hl⟩
  rw [shownFor, dif_pos hex]
  obtain ⟨depth', text', hl'⟩ := hex.choose_spec
  -- both depths give what the greater one gives
  have hmax := dump_mono (le_max_left depth depth') hl
  have hmax' := dump_mono (le_max_right depth depth') hl'
  rw [hmax] at hmax'
  exact (Prod.mk.inj (Option.some.inj hmax')).2.symm

theorem count_visits_append (us us' : List Ref) (x : Ref) :
    (visits prim h (us ++ us')).count x =
      (visits prim h us).count x + (visits prim h us').count x := by
  simp only [visits, List.flatMap_append, List.count_append]
  omega

theorem count_visits_cons (u : Ref) (us : List Ref) (x : Ref) :
    (visits prim h (u :: us)).count x = [u].count x +
      ((keysOf h u).flatMap (shownFor prim h)).count x + (visits prim h us).count x := by
  rw [← List.singleton_append, count_visits_append, visits, List.count_append,
    List.flatMap_singleton]

theorem tableKeys_append (entries entries' : List (Entry P)) :
    tableKeys (entries ++ entries') = tableKeys entries ++ tableKeys entries' := by
  induction entries with
  | nil => rfl
  | cons e entries ih =>
    obtain ⟨key, v⟩ := e
    cases key with
    | other p => exact ih
    | table k => exact congrArg (k :: ·) ih

theorem nodup_keyEdges {us : List Ref} (hus : us.Nodup) : (keyEdges h us).Nodup := by
  rw [keyEdges, List.nodup_flatMap]
  refine ⟨fun u _ => (nodup_keysOf h u).map fun k k' heq => (Prod.mk.inj heq).2, ?_⟩
  refine hus.pairwise_of_forall_ne fun u _ u' _ hne e he he' => ?_
  obtain ⟨k, -, rfl⟩ := List.mem_map.mp he
  obtain ⟨k', -, heq⟩ := List.mem_map.mp he'
  exact hne (Prod.mk.inj heq).1.symm

theorem mem_keyEdges {us : List Ref} {u k : Ref} :
    (u, k) ∈ keyEdges h us ↔ u ∈ us ∧ KeyEdge h u k := by
  rw [keyEdges, List.mem_flatMap, ← mem_keysOf]
  constructor
  · rintro ⟨u', hu', he⟩
    obtain ⟨k', hk', heq⟩ := List.mem_map.mp he
    cases heq
    exact ⟨hu', hk'⟩
  · rintro ⟨hu, hk⟩
    exact ⟨u, hu, List.mem_map.mpr ⟨k, hk, rfl⟩⟩

theorem flatMap_keyEdges (us : List Ref) (f : Ref → List Ref) :
    (keyEdges h us).flatMap (fun e => f e.2) = us.flatMap fun u => (keysOf h u).flatMap f := by
  rw [keyEdges, List.flatMap_assoc]
  simp only [List.flatMap_map]

theorem keysOf_eq {r : Ref} {t : LuaTable P} (ht : h[r]? = some t) :
    keysOf h r = tableKeys t.entries := by
  rw [keysOf, ht]
  rfl

namespace Shows

variable {entries entries' : List (Entry P)} {s s₁ s₂ : Dumping} {found found' : List Ref}

theorem nil (s : Dumping) : Shows prim h [] s s [] where
  nodup := List.nodup_nil
  cached r := by rw [or_iff_left List.not_mem_nil]
  new r hr := by cases hr
  closed u hu := by cases hu
  reached u hu := by cases hu
  values e he := by cases he
  rendered u hu := by cases hu
  keys k hk := by cases hk
  count x := rfl

/-- Entries that are shown after others. -/
theorem append (hs : Shows prim h entries s s₁ found) (hs' : Shows prim h entries' s₁ s₂ found') :
    Shows prim h (entries ++ entries') s s₂ (found ++ found') where
  nodup := by
    refine List.nodup_append'.mpr ⟨hs.nodup, hs'.nodup, fun r hr hr' => ?_⟩
    exact (hs.cached r).mpr (.inr hr) (hs'.new r hr')
  cached r := by
    rw [hs'.cached, hs.cached, List.mem_append, or_assoc]
  new r hr := by
    rcases List.mem_append.mp hr with hr | hr
    · exact hs.new r hr
    · by_contra hne
      exact (hs.cached r).mpr (.inl hne) (hs'.new r hr)
  closed u hu w hw := by
    rcases List.mem_append.mp hu with hu | hu
    · exact (hs'.cached w).mpr (.inl (hs.closed u hu w hw))
    · exact hs'.closed u hu w hw
  reached u hu := by
    rcases List.mem_append.mp hu with hu | hu
    · obtain ⟨e, he, hr⟩ := hs.reached u hu
      exact ⟨e, List.mem_append_left _ he, hr⟩
    · obtain ⟨e, he, hr⟩ := hs'.reached u hu
      exact ⟨e, List.mem_append_right _ he, hr⟩
  values e he r hr := by
    rcases List.mem_append.mp he with he | he
    · exact (hs'.cached r).mpr (.inl (hs.values e he r hr))
    · exact hs'.values e he r hr
  rendered u hu := by
    rcases List.mem_append.mp hu with hu | hu
    · exact hs.rendered u hu
    · exact hs'.rendered u hu
  keys k hk := by
    rw [tableKeys_append] at hk
    rcases List.mem_append.mp hk with hk | hk
    · exact hs.keys k hk
    · exact hs'.keys k hk
  count x := by
    rw [hs'.count, hs.count, count_visits_append, tableKeys_append, List.flatMap_append,
      List.count_append]
    omega

/-- An entry without a new table in it. -/
theorem single {e : Entry P} {l : List Ref} (hvalue : ∀ r, e.2 = .table r → s.cache r ≠ none)
    (hkeys : ∀ k ∈ tableKeys [e], Rendered prim h k)
    (hl : l = (tableKeys [e]).flatMap (shownFor prim h)) :
    Shows prim h [e] s ⟨s.cache, s.shown ++ l⟩ [] where
  nodup := List.nodup_nil
  cached r := by rw [or_iff_left List.not_mem_nil]
  new r hr := by cases hr
  closed u hu := by cases hu
  reached u hu := by cases hu
  values e' he' r hr := hvalue r (List.mem_singleton.mp he' ▸ hr)
  rendered u hu := by cases hu
  keys := hkeys
  count x := by
    rw [List.count_append, hl]
    rfl

/-- A table that was put into `cache`, whose entries are shown. -/
theorem table {cache : Ref → Option Bytes} {shown : List Ref} {r : Ref} {path : Bytes}
    {t : LuaTable P} (ht : h[r]? = some t)
    (hs : Shows prim h t.entries ⟨Function.update cache r (some path), shown ++ [r]⟩ s₁ found) :
    ShowsTable prim h r cache shown s₁ found := by
  generalize hs₀ : Dumping.mk (Function.update cache r (some path)) (shown ++ [r]) = s₀ at hs
  have hself : s₀.cache r = some path := hs₀ ▸ Function.update_self ..
  have hother {w : Ref} (hw : w ≠ r) : s₀.cache w = cache w := hs₀ ▸ Function.update_of_ne hw ..
  have hshown : s₀.shown = shown ++ [r] := hs₀ ▸ rfl
  have hnotMem : r ∉ found := by
    intro hmem
    have hnone := hs.new r hmem
    rw [hself] at hnone
    cases hnone
  constructor
  · exact List.nodup_cons.mpr ⟨hnotMem, hs.nodup⟩
  · intro w
    rw [hs.cached, List.mem_cons]
    by_cases hw : w = r
    · subst hw
      rw [hself]
      exact ⟨fun _ => .inr (.inl rfl), fun _ => .inl (Option.some_ne_none path)⟩
    · rw [hother hw, or_iff_right hw]
  · intro w hmem
    have hnone := hs.new w hmem
    rwa [hother] at hnone
    rintro rfl
    exact hnotMem hmem
  · intro u hu w hedge
    rcases List.mem_cons.mp hu with rfl | hu
    · obtain ⟨t', e', ht', he', hw⟩ := hedge
      rw [ht] at ht'
      obtain rfl := Option.some.inj ht'
      exact hs.values e' he' w hw
    · exact hs.closed u hu w hedge
  · intro u hu
    rcases List.mem_cons.mp hu with rfl | hu
    · exact .refl
    · obtain ⟨e', he', w, hw, hreach⟩ := hs.reached u hu
      exact .head ⟨t, e', ht, he', hw⟩ hreach
  · intro u hu
    rcases List.mem_cons.mp hu with rfl | hu
    · rw [keysOf_eq ht]
      exact hs.keys
    · exact hs.rendered u hu
  · intro x
    rw [hs.count, hshown, count_visits_cons, keysOf_eq ht, List.count_append]
    omega

/-- An entry with a new table in it. -/
theorem found_table {e : Entry P} {l : List Ref} {r : Ref} (hvalue : e.2 = .table r)
    (hnew : s.cache r = none) (hs : ShowsTable prim h r s.cache (s.shown ++ l) s₁ found)
    (hkeys : ∀ k ∈ tableKeys [e], Rendered prim h k)
    (hl : l = (tableKeys [e]).flatMap (shownFor prim h)) :
    Shows prim h [e] s s₁ (r :: found) where
  nodup := hs.nodup
  cached := hs.cached
  new w hw := by
    rcases List.mem_cons.mp hw with rfl | hw
    · exact hnew
    · exact hs.new w hw
  closed := hs.closed
  reached u hu := ⟨e, List.mem_singleton_self e, r, hvalue, hs.reached u hu⟩
  values e' he' w hw := by
    rw [List.mem_singleton.mp he', hvalue] at hw
    cases hw
    exact (hs.cached r).mpr (.inr List.mem_cons_self)
  rendered := hs.rendered
  keys := hkeys
  count x := by rw [hs.count, ← hl, List.count_append]

end Shows

variable {ts : Value P → Option (Bytes × List Ref)}
  {inner : Ref → Bytes → Bytes → Dumping → Option (Bytes × Dumping)} {space name : Bytes}

/-- What is shown for a key. -/
theorem TostringShows.key (hts : TostringShows prim h ts) {e : Entry P} {key : Bytes}
    {l : List Ref} (hkey : ts e.1 = some (key, l)) :
    (∀ k ∈ tableKeys [e], Rendered prim h k) ∧
      l = (tableKeys [e]).flatMap (shownFor prim h) := by
  obtain ⟨k, v⟩ := e
  cases k with
  | other p => exact ⟨fun k hk => absurd hk List.not_mem_nil, hts.other p key l hkey⟩
  | table k =>
    obtain ⟨hl, hrendered⟩ := hts.table k key l hkey
    refine ⟨fun k' hk' => List.mem_singleton.mp hk' ▸ hrendered, ?_⟩
    rw [hl, tableKeys, tableKeys, List.flatMap_singleton]

theorem dumpEntry_shows (hts : TostringShows prim h ts) (hinner : InnerShows prim h inner)
    {e : Entry P} {rest : List (Entry P)} {s s' : Dumping} {line : Bytes}
    (hentry : dumpEntry prim ts inner space name e rest s = some (line, s')) :
    ∃ found, Shows prim h [e] s s' found := by
  obtain ⟨key, l, hkey, hcases⟩ := dumpEntry_cases hentry
  obtain ⟨hkeys, hl⟩ := hts.key hkey
  rcases hcases with ⟨r, path, hvalue, hcache, rfl⟩ | ⟨r, space', name', text, hvalue, hcache, hr⟩ |
    ⟨p, value, l', hvalue, hother, rfl⟩
  · refine ⟨[], .single (fun r' hr' => ?_) hkeys hl⟩
    rw [hvalue] at hr'
    cases hr'
    rw [hcache]
    exact Option.some_ne_none path
  · obtain ⟨t, found, ht, hs⟩ := hinner _ _ _ _ _ _ hr
    exact ⟨r :: found, .found_table hvalue hcache (hs.table ht) hkeys hl⟩
  · rw [hts.other p value l' hother, List.append_nil]
    refine ⟨[], .single (fun r' hr' => ?_) hkeys hl⟩
    rw [hvalue] at hr'
    cases hr'

theorem dumpEntries_shows (hts : TostringShows prim h ts) (hinner : InnerShows prim h inner)
    {entries : List (Entry P)} {s s' : Dumping} {temp : List Bytes}
    (hentries : dumpEntries prim ts inner space name entries s = some (temp, s')) :
    ∃ found, Shows prim h entries s s' found := by
  induction entries generalizing s temp with
  | nil =>
    cases hentries
    exact ⟨[], .nil _⟩
  | cons e entries ih =>
    obtain ⟨line, s₁, temp', s₂, hentry, hrest, hx⟩ := dumpEntries_cons.mp hentries
    cases hx
    obtain ⟨found, hs⟩ := dumpEntry_shows hts hinner hentry
    obtain ⟨found', hs'⟩ := ih hrest
    exact ⟨found ++ found', hs.append hs'⟩

/-- What a search has found when it starts with an empty `cache`. -/
theorem ShowsTable.mem_iff {root : Ref} {found : List Ref} {s : Dumping}
    (hs : ShowsTable prim h root (fun _ => none) [] s found) (x : Ref) :
    x ∈ root :: found ↔ ReflTransGen (ValueEdge h) root x := by
  constructor
  · exact hs.reached x
  · intro hx
    induction hx with
    | refl => exact List.mem_cons_self
    | tail _ hedge ih =>
      rcases (hs.cached _).mp (hs.closed _ ih _ hedge) with hnone | hmem
      · exact absurd rfl hnone
      · exact hmem

/-- The text of a table shows what a search visits. -/
theorem InnerShows.search (hinner : InnerShows prim h inner) {root : Ref} {text : Bytes}
    {l : List Ref} (hdump : dump inner root = some (text, l)) :
    Search (ValueEdge h) (KeyEdge h) root l := by
  obtain ⟨text', s, hr, -, rfl⟩ := dump_iff.mp hdump
  obtain ⟨t, found, ht, hentries⟩ := hinner _ _ _ _ _ _ hr
  have hs : ShowsTable prim h root (fun _ => none) [] s found := hentries.table ht
  -- the edges at which `tostring` is called again
  refine .intro (root :: found) (keyEdges h (root :: found)) (fun e => shownFor prim h e.2)
    hs.nodup hs.mem_iff (nodup_keyEdges hs.nodup) (fun u k => ?_) (fun e he => ?_) ?_
  · rw [mem_keyEdges, hs.mem_iff]
  · obtain ⟨hu, hk⟩ := mem_keyEdges.mp he
    exact hs.rendered e.1 hu e.2 (mem_keysOf.mpr hk)
  · rw [List.perm_iff_count]
    intro x
    rw [flatMap_keyEdges, hs.count, List.count_nil, Nat.zero_add]
    rfl

theorem tostring_shows {depth : ℕ} (hinner : InnerShows prim h (innerDump prim h depth)) :
    TostringShows prim h (tostring prim (innerDump prim h depth)) where
  other p text l hp := by
    cases hp
    rfl
  table k text l hk := by
    have heq := shownFor_eq hk
    refine ⟨heq.symm, ?_⟩
    rw [Rendered, heq]
    exact hinner.search hk

/-- What is shown at any depth. -/
theorem innerDump_shows (depth : ℕ) : InnerShows prim h (innerDump prim h depth) := by
  induction depth with
  | zero =>
    intro r space name s text s' hr
    cases hr
  | succ depth ih =>
    intro r space name s text s' hr
    obtain ⟨t, temp, s₁, ht, hentries, hx⟩ := innerDump_succ.mp hr
    cases hx
    obtain ⟨found, hs⟩ := dumpEntries_shows (tostring_shows ih) ih hentries
    exact ⟨t, found, ht, hs⟩

end Shown

/-! ### There is a text -/

section Text

open Relation

variable {prim : Primitives P} {h : Heap P} {ts : Value P → Option (Bytes × List Ref)}
  {inner : Ref → Bytes → Bytes → Dumping → Option (Bytes × Dumping)} {space name : Bytes}

theorem exists_dumpEntry {e : Entry P} {rest : List (Entry P)} {s : Dumping}
    (hkey : ∃ x, ts e.1 = some x) (hother : ∀ p, ∃ x, ts (.other p) = some x)
    (hinner : ∀ r, e.2 = .table r → s.cache r = none → ∀ space name shown,
      ∃ x, inner r space name ⟨Function.update s.cache r (some name), shown⟩ = some x) :
    ∃ x, dumpEntry prim ts inner space name e rest s = some x := by
  obtain ⟨⟨key, l⟩, hkey⟩ := hkey
  simp only [dumpEntry, hkey, Option.bind_eq_bind, Option.bind_some]
  cases hvalue : e.2 with
  | table r =>
    cases hcache : s.cache r with
    | some path =>
      simp only [hcache]
      exact ⟨_, rfl⟩
    | none =>
      obtain ⟨⟨text, s'⟩, hr⟩ := hinner r hvalue hcache
        (space ++ (if nextTruthy prim rest then literal " |" else literal " ") ++
          List.replicate key.length 32) (name ++ literal "." ++ key) (s.shown ++ l)
      simp only [hcache, hr, Option.bind_some]
      exact ⟨_, rfl⟩
  | other p =>
    obtain ⟨⟨value, l'⟩, hp⟩ := hother p
    simp only [hp, Option.bind_some]
    exact ⟨_, rfl⟩

/-- The entries are shown if their keys are, and their values while there are few tables left. -/
theorem exists_dumpEntries {n m : ℕ} (hts : TostringShows prim h ts)
    (hinner : InnerShows prim h inner) (hother : ∀ p, ∃ x, ts (.other p) = some x)
    {entries : List (Entry P)} (hkeys : ∀ e ∈ entries, ∃ x, ts e.1 = some x)
    (hvalues : ∀ e ∈ entries, ∀ r, e.2 = .table r → r < n ∧ ∀ space name s,
      unmarked n s.cache < m → ∃ x, inner r space name s = some x) {s : Dumping}
    (hfew : unmarked n s.cache ≤ m) :
    ∃ x, dumpEntries prim ts inner space name entries s = some x := by
  induction entries generalizing s with
  | nil => exact ⟨_, rfl⟩
  | cons e entries ih =>
    obtain ⟨hkey, hkeys⟩ := List.forall_mem_cons.mp hkeys
    obtain ⟨hvalue, hvalues⟩ := List.forall_mem_cons.mp hvalues
    have hentry : ∃ x, dumpEntry prim ts inner space name e entries s = some x := by
      refine exists_dumpEntry hkey hother fun r hr hnone space name shown => ?_
      obtain ⟨hlt, hshown⟩ := hvalue r hr
      exact hshown space name _ (lt_of_lt_of_le (unmarked_update_lt hnone hlt name) hfew)
    obtain ⟨⟨line, s₁⟩, hentry⟩ := hentry
    obtain ⟨found, hs⟩ := dumpEntry_shows hts hinner hentry
    have hle : unmarked n s₁.cache ≤ unmarked n s.cache := by
      refine unmarked_le_of_eq_none (fun r hr => ?_) n
      by_contra hne
      exact (hs.cached r).mpr (.inl hne) hr
    obtain ⟨⟨temp, s₂⟩, hrest⟩ := ih hkeys hvalues (hle.trans hfew)
    exact ⟨_, dumpEntries_cons.mpr ⟨line, s₁, temp, s₂, hentry, hrest, rfl⟩⟩

/-- A table is shown if all the keys are that can be reached through values. -/
theorem exists_innerDump (hclosed : h.Closed) {root : Ref} {depth : ℕ}
    (hkeys : ∀ u, ReflTransGen (ValueEdge h) root u → ∀ k, KeyEdge h u k →
      ∃ x, dump (innerDump prim h depth) k = some x) (m : ℕ) {r : Ref} {s : Dumping}
    (hr : ReflTransGen (ValueEdge h) root r) (hlt : r < h.length)
    (hfew : unmarked h.length s.cache < m) :
    ∃ x, innerDump prim h (depth + m) r space name s = some x := by
  induction m generalizing r s space name with
  | zero => exact absurd hfew (Nat.not_lt_zero _)
  | succ m ih =>
    have ht : h[r]? = some h[r] := List.getElem?_eq_getElem hlt
    have hshows : InnerShows prim h (innerDump prim h (depth + m)) := innerDump_shows _
    suffices hentries : ∃ x, dumpEntries prim (tostring prim (innerDump prim h (depth + m)))
        (innerDump prim h (depth + m)) space name h[r].entries ⟨s.cache, s.shown ++ [r]⟩ =
          some x by
      obtain ⟨⟨temp, s₁⟩, hentries⟩ := hentries
      exact ⟨_, innerDump_succ.mpr ⟨h[r], temp, s₁, ht, hentries, rfl⟩⟩
    refine exists_dumpEntries (tostring_shows hshows) hshows (fun p => ⟨_, rfl⟩) ?_ ?_
      (Nat.le_of_lt_succ hfew)
    · intro e he
      cases hkey : e.1 with
      | other p => exact ⟨_, rfl⟩
      | table k =>
        obtain ⟨x, hx⟩ := hkeys r hr k ⟨h[r], e, ht, he, hkey⟩
        exact ⟨x, dump_mono (Nat.le_add_right _ _) hx⟩
    · intro e he r' hvalue
      have hlt' := (hclosed h[r] (List.getElem_mem hlt) e he).2 r' hvalue
      exact ⟨hlt', fun space name s hfew =>
        ih (hr.tail ⟨h[r], e, ht, he, hvalue⟩) hlt' hfew⟩

theorem exists_depth {C : ℕ → Prop} {Q : ℕ → ℕ → Prop}
    (hmono : ∀ k d d', d ≤ d' → Q k d → Q k d') (n : ℕ) (hQ : ∀ k, k < n → C k → ∃ d, Q k d) :
    ∃ d, ∀ k, k < n → C k → Q k d := by
  induction n with
  | zero => exact ⟨0, fun k hk => absurd hk (Nat.not_lt_zero k)⟩
  | succ n ih =>
    obtain ⟨d, hd⟩ := ih fun k hk => hQ k (Nat.lt_succ_of_lt hk)
    by_cases hn : C n
    · obtain ⟨d', hd'⟩ := hQ n (Nat.lt_succ_self n) hn
      refine ⟨max d d', fun k hk hC => ?_⟩
      rcases Nat.lt_succ_iff_lt_or_eq.mp hk with hlt | rfl
      · exact hmono k d _ (le_max_left d d') (hd k hlt hC)
      · exact hmono k d' _ (le_max_right d d') hd'
    · refine ⟨d, fun k hk hC => ?_⟩
      rcases Nat.lt_succ_iff_lt_or_eq.mp hk with hlt | rfl
      · exact hd k hlt hC
      · exact absurd hC hn

theorem lt_length_of_keyEdge (hclosed : h.Closed) {u k : Ref} (hk : KeyEdge h u k) :
    k < h.length := by
  obtain ⟨t, e, ht, he, hkey⟩ := hk
  exact (hclosed t (List.mem_of_getElem? ht) e he).1 k hkey

theorem exists_dump (hclosed : h.Closed) {root : Ref} (hroot : root < h.length)
    (hkeys : ∀ u k, ReflTransGen (ValueEdge h) root u → KeyEdge h u k →
      ∃ depth x, dump (innerDump prim h depth) k = some x) :
    ∃ depth x, dump (innerDump prim h depth) root = some x := by
  obtain ⟨depth, hdepth⟩ := exists_depth (n := h.length)
    (C := fun k => ∃ u, ReflTransGen (ValueEdge h) root u ∧ KeyEdge h u k)
    (Q := fun k d => ∃ x, dump (innerDump prim h d) k = some x)
    (fun k d d' hle ⟨x, hx⟩ => ⟨x, dump_mono hle hx⟩)
    (fun k _ ⟨u, hu, hk⟩ => hkeys u k hu hk)
  have hinner : ∃ x, innerDump prim h (depth + (h.length + 1)) root [] []
      ⟨Function.update (fun _ => none) root (some (literal ".")), []⟩ = some x := by
    refine exists_innerDump hclosed (fun u hu k hk => ?_) _ .refl hroot ?_
    · exact hdepth k (lt_length_of_keyEdge hclosed hk) ⟨u, hu, hk⟩
    · exact Nat.lt_succ_of_le (unmarked_le _ _)
  obtain ⟨⟨text, s⟩, hr⟩ := hinner
  exact ⟨_, _, dump_iff.mpr ⟨text, s, hr, rfl, rfl⟩⟩

end Text

/-- **Texts.** There is a text of a table, in which no table is shown twice, exactly if the tables
that are shown for keys are shown nowhere else. -/
theorem tostring_once_iff (prim : Primitives P) (h : Heap P) (hclosed : h.Closed) (root : Ref)
    (hroot : root < h.length) :
    (∃ depth text shown, tostring prim (innerDump prim h depth) (.table root) =
      some (text, shown) ∧ shown.Nodup) ↔ KeysApart h root := by
  rw [KeysApart, ← unique_iff_apart]
  constructor
  · rintro ⟨depth, text, shown, hdump, hnodup⟩
    exact ((innerDump_shows depth).search hdump).nodup_iff.mp hnodup
  · intro hunique
    have hnodes : ∀ c x, Chain (ValueEdge h) (KeyEdge h) root c x → ∀ k ∈ starts root c,
        k ∈ List.range h.length := by
      intro c x hc k hk
      rw [List.mem_range]
      rcases hc.start_of_mem_starts hk with rfl | ⟨u, hu⟩
      · exact hroot
      · exact lt_length_of_keyEdge hclosed hu
    obtain ⟨depth, ⟨text, shown⟩, hdump⟩ := hunique.induction hnodes
      (Q := fun k => ∃ depth x, dump (innerDump prim h depth) k = some x)
      fun k hk hkeys => exists_dump hclosed (List.mem_range.mp hk) hkeys
    exact ⟨depth, text, shown, hdump,
      ((innerDump_shows depth).search hdump).nodup_iff.mpr hunique⟩

/-- What is shown of a number is left out. -/
def noPrimitives : Primitives ℕ := ⟨fun _ => [], fun _ => false⟩

/-- A table that refers to itself, with another one as a key. -/
def keyedTables : Heap ℕ :=
  [⟨[(.other 1, .table 0), (.table 1, .other 2)], none, by decide⟩, .empty]

/-- Its keys are apart: both tables are shown once. -/
theorem tostring_once_iff_keyed : KeysApart keyedTables 0 :=
  (tostring_once_iff noPrimitives keyedTables (by decide) 0 (by decide)).mp
    ⟨3, _, [0, 1], rfl, by decide⟩

/-- A table that is its own key. -/
def selfKeyed : Heap ℕ := [⟨[(.table 0, .other 1)], none, by decide⟩]

/-- An empty table, as a key and as a value of another one. -/
def sharedKey : Heap ℕ :=
  [⟨[(.table 1, .other 1), (.other 1, .table 1)], none, by decide⟩, .empty]

/-- Each call for the table starts another one for its key. -/
theorem innerDump_selfKeyed (prim : Primitives ℕ) (depth : ℕ) (s : Dumping) :
    innerDump prim selfKeyed depth 0 [] [] s = none := by
  induction depth generalizing s with
  | zero => rfl
  | succ depth ih =>
    have hkey : tostring prim (innerDump prim selfKeyed depth) (.table 0) = none := by
      rw [tostring, dump, ih]
      rfl
    have hentries : dumpEntries prim (tostring prim (innerDump prim selfKeyed depth))
        (innerDump prim selfKeyed depth) [] [] [(.table 0, .other 1)]
          ⟨s.cache, s.shown ++ [0]⟩ = none := by
      rw [dumpEntries, dumpEntry, hkey]
      rfl
    rw [innerDump]
    show (dumpEntries prim (tostring prim (innerDump prim selfKeyed depth))
      (innerDump prim selfKeyed depth) [] [] [(.table 0, .other 1)]
        ⟨s.cache, s.shown ++ [0]⟩).bind _ = none
    rw [hentries, Option.bind_none]

/-- There is no text of the one at any depth, and in that of the other a table is shown twice. -/
theorem tostring_repeats :
    (∀ depth, tostring noPrimitives (innerDump noPrimitives selfKeyed depth) (.table 0) = none) ∧
      (tostring noPrimitives (innerDump noPrimitives sharedKey 2) (.table 0)).map Prod.snd =
        some [0, 1, 1] := by
  refine ⟨fun depth => ?_, rfl⟩
  rw [tostring, dump, innerDump_selfKeyed]
  rfl

end TestCluster.Lua.Luaext
