import Mathlib.Data.List.Nodup

/-!
# Tables of Lua

Tables refer to each other in any way: a table may be reached in two ways, from itself, and
through the keys of a table as well as through its values.

Lua leaves it open in which order `pairs` goes through a table. Here it is the order in which the keys
were added, and that of an original and of its copy are the same; up to the order, the entries are
those of Lua.

## Main definitions

* `Value` — a table, by reference, or something else
* `LuaTable` — a table, with `LuaTable.rawset`
* `Heap`, `Heap.Closed` — the tables that there are
* `Reaches` — the tables that can be reached from a value
-/

namespace TestCluster.Lua.Luaext

/-- A reference to a table: its place among the tables. -/
abbrev Ref := ℕ

/-- A value: a table, or anything else. -/
inductive Value (P : Type)
  | other (p : P)
  | table (r : Ref)
  deriving DecidableEq, Repr

/-- The value with another reference in it. -/
def Value.map {P : Type} (f : Ref → Ref) : Value P → Value P
  | .other p => .other p
  | .table r => .table (f r)

/-- A key and its value. -/
abbrev Entry (P : Type) := Value P × Value P

/-- A table: its entries in the order in which `pairs` goes through them, and its metatable. -/
structure LuaTable (P : Type) where
  entries : List (Entry P)
  metatable : Option Ref
  nodup : (entries.map Prod.fst).Nodup

variable {P : Type}

namespace LuaTable

/-- `{}` -/
def empty : LuaTable P := ⟨[], none, List.nodup_nil⟩

/-- `setmetatable` -/
def setmetatable (t : LuaTable P) (metatable : Option Ref) : LuaTable P :=
  { t with metatable := metatable }

variable [DecidableEq P]

/-- The entries after an assignment of something that is not `nil`. -/
def assign (k v : Value P) : List (Entry P) → List (Entry P)
  | [] => [(k, v)]
  | e :: entries => if e.1 = k then (k, v) :: entries else e :: assign k v entries

theorem mem_keys_assign {k v k' : Value P} {entries : List (Entry P)}
    (h : k' ∈ (assign k v entries).map Prod.fst) : k' = k ∨ k' ∈ entries.map Prod.fst := by
  induction entries with
  | nil => exact .inl (List.mem_singleton.mp h)
  | cons e entries ih =>
    rw [assign] at h
    split_ifs at h with he
    · rcases List.mem_cons.mp h with rfl | h
      · exact .inl rfl
      · exact .inr (List.mem_cons_of_mem _ h)
    · rcases List.mem_cons.mp h with rfl | h
      · exact .inr List.mem_cons_self
      · exact (ih h).imp_right (List.mem_cons_of_mem _)

theorem nodup_assign {entries : List (Entry P)} (h : (entries.map Prod.fst).Nodup)
    (k v : Value P) : ((assign k v entries).map Prod.fst).Nodup := by
  induction entries with
  | nil => exact List.nodup_singleton _
  | cons e entries ih =>
    obtain ⟨hnotMem, hnodup⟩ := List.nodup_cons.mp h
    rw [assign]
    split_ifs with he
    · exact List.nodup_cons.mpr ⟨he ▸ hnotMem, hnodup⟩
    · refine List.nodup_cons.mpr ⟨fun hmem => ?_, ih hnodup⟩
      rcases mem_keys_assign hmem with heq | hmem
      · exact he heq
      · exact hnotMem hmem

/-- A key that is not there is added. -/
theorem assign_of_notMem {k : Value P} (v : Value P) {entries : List (Entry P)}
    (h : k ∉ entries.map Prod.fst) : assign k v entries = entries ++ [(k, v)] := by
  induction entries with
  | nil => rfl
  | cons e entries ih =>
    rw [List.map_cons, List.mem_cons, not_or] at h
    rw [assign, if_neg (Ne.symm h.1), ih h.2, List.cons_append]

/-- `t[k] = v`, for a table without a metatable. -/
def rawset (t : LuaTable P) (k v : Value P) : LuaTable P :=
  ⟨assign k v t.entries, t.metatable, nodup_assign t.nodup k v⟩

end LuaTable

/-- All tables. -/
abbrev Heap (P : Type) := List (LuaTable P)

/-- A value refers to a table that there is. -/
def Heap.Has (h : Heap P) (v : Value P) : Prop := ∀ r, v = .table r → r < h.length

/-- Tables refer to tables that there are. -/
def Heap.Closed (h : Heap P) : Prop := ∀ t ∈ h, ∀ e ∈ t.entries, h.Has e.1 ∧ h.Has e.2

instance (h : Heap P) : (v : Value P) → Decidable (h.Has v)
  | .other _ => isTrue fun _ hr => by cases hr
  | .table r =>
    decidable_of_iff (r < h.length) ⟨fun hlt _ hr => by cases hr; exact hlt, fun hr => hr r rfl⟩

instance (h : Heap P) : Decidable h.Closed :=
  inferInstanceAs (Decidable (∀ t ∈ h, ∀ e ∈ t.entries, h.Has e.1 ∧ h.Has e.2))

/-- The tables that can be reached from a value, through keys and values. -/
inductive Reaches (h : Heap P) (v : Value P) : Ref → Prop
  | root {r : Ref} : v = .table r → Reaches h v r
  | key {r r' : Ref} {t : LuaTable P} {e : Entry P} :
      Reaches h v r → h[r]? = some t → e ∈ t.entries → e.1 = .table r' → Reaches h v r'
  | value {r r' : Ref} {t : LuaTable P} {e : Entry P} :
      Reaches h v r → h[r]? = some t → e ∈ t.entries → e.2 = .table r' → Reaches h v r'

end TestCluster.Lua.Luaext
