import Mathlib.Data.List.Nodup
import TestCluster.Semantics.Blocks
import TestCluster.Semantics.ByteOrder

/-!
# Packing Lua values

`skynet.pack` (`lua-seri.c`) writes Lua values into a chain of blocks and copies these into one
buffer. A value is a byte with its type and a cookie, and what the cookie says follows. Tables are
references into a heap, so a table can be in several places and can hold itself; more than 32 tables
in each other are an error.

## Main definitions

* `SeriValue`, `SeriTable`, `SeriHeap` — Lua values, and what the API says about a table
* `wbInteger`, `wbString`, `packOne`, `pack` — `wb_integer`, `wb_string`, `pack_one`, `luaseri_pack`
* `SeriHeap.Within` — a value that is found in another through so many tables

## Main results

* `pack_of_lt` — the buffer is all that was pushed, if that is within an `int`
* `packs_iff` — which values can be packed
* `SeriTable.entries_perm` — every entry of a table is written once
-/

namespace TestCluster.Skynet

open Semantics

/-- A Lua value; floats and pointers are their 64 bits. What a table reference stands for is in the
heap. -/
inductive SeriValue
  | nil
  | boolean (b : Bool)
  | integer (v : Int64)
  | real (bits : UInt64)
  | pointer (bits : UInt64)
  | string (s : Bytes)
  | table (ref : ℕ)
  | other (typename : String) (ref : ℕ)
deriving DecidableEq

/-- The double with these bits is not a number. -/
def isNaN (bits : UInt64) : Bool := bits >>> 52 &&& 0x7ff == 0x7ff && bits &&& 0xfffffffffffff != 0

namespace SeriValue

/-- What can be a key of a table. -/
def IsKey : SeriValue → Prop
  | nil => False
  | real bits => isNaN bits = false
  | _ => True

/-- The types that `pack_one` knows. -/
def Supported : SeriValue → Prop
  | other _ _ => False
  | _ => True

end SeriValue

/-- The conversion to `int`. -/
def cInt (n : ℤ) : ℤ := n.bmod (2 ^ 32)

theorem cInt_of_lt {n : ℕ} (h : n < 2 ^ 31) : cInt n = n := by
  apply Int.bmod_eq_of_le <;> omega

theorem cInt_lt (n : ℤ) : cInt n < 2 ^ 31 := Int.bmod_lt (by decide)

theorem cInt_toNat_le (n : ℕ) : (cInt n).toNat ≤ n := by
  have hmod : (n : ℤ) % (2 ^ 32 : ℕ) ≤ n := by exact_mod_cast Nat.mod_le n (2 ^ 32)
  rw [cInt, Int.bmod_def]
  split <;> omega

/-- A table: `lua_rawlen`, the pairs in the order of `lua_next`, and what the iteration by a
`__pairs` metamethod gives if it has one. -/
structure SeriTable where
  rawlen : ℕ
  pairs : List (SeriValue × SeriValue)
  metapairs : Option (List (SeriValue × SeriValue))
  nodup : (pairs.map Prod.fst).Nodup
  keys : ∀ p ∈ pairs, p.1.IsKey
  values : ∀ p ∈ pairs, p.2 ≠ .nil
  metakeys : ∀ ps ∈ metapairs, ∀ p ∈ ps, p.1 ≠ .nil

namespace SeriTable

/-- `lua_rawgeti` -/
def rawgeti (t : SeriTable) (i : Int64) : SeriValue := (t.pairs.lookup (.integer i)).getD .nil

/-- `array_size` -/
def arraySize (t : SeriTable) : ℤ := cInt t.rawlen

/-- What the loop of `wb_table_array` gets. -/
def array (t : SeriTable) : List SeriValue :=
  (List.range t.arraySize.toNat).map fun i => t.rawgeti (Int64.ofNat (i + 1))

/-- The keys that `wb_table_hash` leaves out. -/
def inArray (t : SeriTable) : SeriValue → Bool
  | .integer x => decide (0 < x.toInt ∧ x.toInt ≤ t.arraySize)
  | _ => false

/-- What the loop of `wb_table_hash` packs. -/
def hash (t : SeriTable) : List (SeriValue × SeriValue) :=
  t.pairs.filter fun p => !t.inArray p.1

/-- What is written as the elements of the table, and what as its pairs. -/
def contents (t : SeriTable) : List SeriValue × List (SeriValue × SeriValue) :=
  match t.metapairs with
  | some pairs => ([], pairs)
  | none => (t.array, t.hash)

/-- A value is an element, a key or the value of a key. -/
def Holds (t : SeriTable) (v : SeriValue) : Prop :=
  v ∈ t.contents.1 ∨ ∃ p ∈ t.contents.2, v = p.1 ∨ v = p.2

end SeriTable

/-- The tables of the Lua state. -/
abbrev SeriHeap := ℕ → SeriTable

/-! ### Writing -/

def blockSize : ℕ := 128

/-- `MAX_COOKIE` -/
def maxCookie : ℕ := 32

/-- `MAX_DEPTH` -/
def maxDepth : ℕ := 32

/-- `COMBINE_TYPE` -/
def combineType (type : UInt8) (v : ℤ) : UInt8 := type ||| UInt8.ofInt v <<< 3

/-- The `width` bytes of an integer. -/
def twosComplement (width : ℕ) (v : ℤ) : Bytes := leBytes width (v % 256 ^ width).toNat

/-- What `wb_nil` pushes. The definitions that follow give the arguments of `wb_push`. -/
def wbNil : List Bytes := [[0]]

/-- `wb_boolean` -/
def wbBoolean (b : Bool) : List Bytes := [[combineType 1 (if b then 1 else 0)]]

/-- `wb_integer` -/
def wbInteger (v : Int64) : List Bytes :=
  let i := v.toInt
  if i = 0 then [[combineType 2 0]]
  else if i ≠ cInt i then [[combineType 2 6], twosComplement 8 i]
  else if i < 0 then [[combineType 2 4], twosComplement 4 i]
  else if i < 0x100 then [[combineType 2 1], twosComplement 1 i]
  else if i < 0x10000 then [[combineType 2 2], twosComplement 2 i]
  else [[combineType 2 4], twosComplement 4 i]

/-- `wb_real` -/
def wbReal (bits : UInt64) : List Bytes := [[combineType 2 8], leBytes 8 bits.toNat]

/-- `wb_pointer` -/
def wbPointer (bits : UInt64) : List Bytes := [[3], leBytes 8 bits.toNat]

/-- `wb_string`, which is given the size as an `int`. -/
def wbString (str : Bytes) : List Bytes :=
  let len := cInt str.length
  if len < maxCookie then
    [combineType 4 len] :: if len > 0 then [str.take len.toNat] else []
  else if len < 0x10000 then
    [[combineType 5 2], leBytes 2 len.toNat, str.take len.toNat]
  else
    [[combineType 5 4], leBytes 4 len.toNat, str.take len.toNat]

/-- The part of `wb_table_array` that writes the size. -/
def wbArraySize (arraySize : ℤ) : List Bytes :=
  if arraySize ≥ maxCookie - 1 then
    [combineType 6 (maxCookie - 1)] :: wbInteger (Int64.ofInt arraySize)
  else [[combineType 6 arraySize]]

/-- The errors of `pack_one`; an allocation in `seri` that fails, and a read behind its blocks. -/
inductive PackError
  | tooDeep
  | unsupported (typename : String)
  | noMemory
  | outside
deriving DecidableEq

section Tables

variable (pack : SeriValue → Except PackError (List Bytes))

/-- Values are packed in order. -/
def packAll : List SeriValue → Except PackError (List Bytes)
  | [] => .ok []
  | v :: vs => do
    let first ← pack v
    let rest ← packAll vs
    .ok (first ++ rest)

/-- Pairs are packed in order, the key first. -/
def packPairs : List (SeriValue × SeriValue) → Except PackError (List Bytes)
  | [] => .ok []
  | p :: ps => do
    let key ← pack p.1
    let value ← pack p.2
    let rest ← packPairs ps
    .ok (key ++ value ++ rest)

/-- `wb_table_array` -/
def wbTableArray (t : SeriTable) : Except PackError (List Bytes) := do
  let elements ← packAll pack t.array
  .ok (wbArraySize t.arraySize ++ elements)

/-- `wb_table_hash` -/
def wbTableHash (t : SeriTable) : Except PackError (List Bytes) := do
  let pairs ← packPairs pack t.hash
  .ok (pairs ++ wbNil)

/-- `wb_table_metapairs` -/
def wbTableMetapairs (metapairs : List (SeriValue × SeriValue)) :
    Except PackError (List Bytes) := do
  let pairs ← packPairs pack metapairs
  .ok ([combineType 6 0] :: (pairs ++ wbNil))

/-- `wb_table` -/
def wbTable (t : SeriTable) : Except PackError (List Bytes) :=
  match t.metapairs with
  | some metapairs => wbTableMetapairs pack metapairs
  | none => do
    let array ← wbTableArray pack t
    let hash ← wbTableHash pack t
    .ok (array ++ hash)

end Tables

/-- `pack_one`, with the number of levels that are left: none at a depth above `MAX_DEPTH`. -/
def packOne (heap : SeriHeap) : ℕ → SeriValue → Except PackError (List Bytes)
  | 0, _ => .error .tooDeep
  | levels + 1, v =>
    match v with
    | .nil => .ok wbNil
    | .boolean b => .ok (wbBoolean b)
    | .integer v => .ok (wbInteger v)
    | .real bits => .ok (wbReal bits)
    | .pointer bits => .ok (wbPointer bits)
    | .string s => .ok (wbString s)
    | .table ref => wbTable (packOne heap levels) (heap ref)
    | .other typename _ => .error (.unsupported typename)

/-- `pack_from` -/
def packFrom (heap : SeriHeap) (vs : List SeriValue) : Except PackError (List Bytes) :=
  packAll (packOne heap (maxDepth + 1)) vs

theorem blockSize_pos : 0 < blockSize := by decide

/-- `wb_push` -/
def wbPush : Blocks UInt8 blockSize → Bytes → Blocks UInt8 blockSize := Blocks.push blockSize_pos

/-- `seri`. The bytes are counted by an `int`, and a negative size is more than there is memory. -/
def seri (wb : Blocks UInt8 blockSize) : Except PackError Bytes :=
  let len := cInt wb.len
  if len < 0 then .error .noMemory
  else match Blocks.collect blockSize len.toNat (wb.full ++ [wb.current]) with
    | some buffer => .ok buffer
    | none => .error .outside

/-- `luaseri_pack` -/
def pack (heap : SeriHeap) (vs : List SeriValue) : Except PackError Bytes := do
  let pushes ← packFrom heap vs
  seri (pushes.foldl wbPush .empty)

/-- As much as the `int` says is copied from the blocks. -/
theorem seri_eq (wb : Blocks UInt8 blockSize) :
    seri wb = if cInt wb.toList.length < 0 then .error .noMemory
      else .ok (wb.toList.take (cInt wb.toList.length).toNat) := by
  rw [Blocks.length_toList, seri, Blocks.collect_eq wb (cInt_toNat_le wb.len)]

theorem toList_pushes (pushes : List Bytes) :
    (pushes.foldl wbPush .empty).toList = pushes.flatten := by
  have hall := Blocks.toList_foldl_push blockSize_pos .empty pushes
  rwa [Blocks.toList_empty, List.nil_append] at hall

/-- The buffer is what was pushed, as far as the `int` says. -/
theorem pack_eq {heap : SeriHeap} {vs : List SeriValue} {pushes : List Bytes}
    (h : packFrom heap vs = .ok pushes) :
    pack heap vs = if cInt pushes.flatten.length < 0 then .error .noMemory
      else .ok (pushes.flatten.take (cInt pushes.flatten.length).toNat) := by
  simp only [pack, h, bind, Except.bind]
  rw [seri_eq, toList_pushes]

/-- The buffer is all that was pushed, if that is within an `int`. -/
theorem pack_of_lt {heap : SeriHeap} {vs : List SeriValue} {pushes : List Bytes}
    (h : packFrom heap vs = .ok pushes) (hlen : pushes.flatten.length < 2 ^ 31) :
    pack heap vs = .ok pushes.flatten := by
  rw [pack_eq h, cInt_of_lt hlen, if_neg (by omega), Int.toNat_natCast, List.take_length]

/-- A buffer is all that was pushed only if that is within an `int`. -/
theorem length_lt_of_pack {heap : SeriHeap} {vs : List SeriValue} {pushes : List Bytes}
    (h : packFrom heap vs = .ok pushes) (hpack : pack heap vs = .ok pushes.flatten) :
    pushes.flatten.length < 2 ^ 31 := by
  have hlt := cInt_lt pushes.flatten.length
  rw [pack_eq h] at hpack
  split at hpack
  · cases hpack
  · have hlen := congrArg List.length (Except.ok.inj hpack)
    rw [List.length_take] at hlen
    omega

/-! ### What can be packed -/

/-- A value is found in another through this many tables. -/
inductive SeriHeap.Within (heap : SeriHeap) : ℕ → SeriValue → SeriValue → Prop
  | refl (v : SeriValue) : Within heap 0 v v
  | step {k ref : ℕ} {v w : SeriValue} (hold : (heap ref).Holds v) (h : Within heap k v w) :
      Within heap (k + 1) (.table ref) w

section Packs

variable {one : SeriValue → Except PackError (List Bytes)} {heap : SeriHeap}

theorem packAll_ok_iff {vs : List SeriValue} :
    (∃ out, packAll one vs = .ok out) ↔ ∀ v ∈ vs, ∃ out, one v = .ok out := by
  induction vs with
  | nil => simp [packAll]
  | cons v vs ih =>
    rw [List.forall_mem_cons, ← ih]
    simp only [packAll]
    cases one v with
    | error e => simp [bind, Except.bind]
    | ok first =>
      cases packAll one vs with
      | error e => simp [bind, Except.bind]
      | ok rest => simp [bind, Except.bind]

theorem packPairs_ok_iff {ps : List (SeriValue × SeriValue)} :
    (∃ out, packPairs one ps = .ok out) ↔
      ∀ p ∈ ps, (∃ out, one p.1 = .ok out) ∧ ∃ out, one p.2 = .ok out := by
  induction ps with
  | nil => simp [packPairs]
  | cons p ps ih =>
    rw [List.forall_mem_cons, ← ih]
    simp only [packPairs]
    cases one p.1 with
    | error e => simp [bind, Except.bind]
    | ok key =>
      cases one p.2 with
      | error e => simp [bind, Except.bind]
      | ok value =>
        cases packPairs one ps with
        | error e => simp [bind, Except.bind]
        | ok rest => simp [bind, Except.bind]

/-- What is written in front of the elements of a table. -/
def tableHead (t : SeriTable) : List Bytes :=
  match t.metapairs with
  | some _ => [[combineType 6 0]]
  | none => wbArraySize t.arraySize

/-- A table is its head, its elements, its pairs and a nil. -/
theorem wbTable_eq_ok_iff {t : SeriTable} {out : List Bytes} :
    wbTable one t = .ok out ↔ ∃ elements pairs, packAll one t.contents.1 = .ok elements ∧
      packPairs one t.contents.2 = .ok pairs ∧
        out = tableHead t ++ (elements ++ (pairs ++ wbNil)) := by
  unfold wbTable SeriTable.contents tableHead
  cases t.metapairs with
  | some metapairs =>
    simp only [wbTableMetapairs, packAll]
    cases packPairs one metapairs with
    | error e => simp [bind, Except.bind]
    | ok pairs => simp [bind, Except.bind, eq_comm]
  | none =>
    simp only [wbTableArray, wbTableHash]
    cases packAll one t.array with
    | error e => simp [bind, Except.bind]
    | ok elements =>
      cases packPairs one t.hash with
      | error e => simp [bind, Except.bind]
      | ok pairs => simp [bind, Except.bind, eq_comm]

theorem wbTable_ok_iff {t : SeriTable} :
    (∃ out, wbTable one t = .ok out) ↔ ∀ v, t.Holds v → ∃ out, one v = .ok out := by
  constructor
  · rintro ⟨out, hout⟩ v hv
    obtain ⟨elements, pairs, helements, hpairs, -⟩ := wbTable_eq_ok_iff.mp hout
    rcases hv with hv | ⟨p, hp, rfl | rfl⟩
    · exact packAll_ok_iff.mp ⟨elements, helements⟩ v hv
    · exact (packPairs_ok_iff.mp ⟨pairs, hpairs⟩ p hp).1
    · exact (packPairs_ok_iff.mp ⟨pairs, hpairs⟩ p hp).2
  · intro h
    obtain ⟨elements, helements⟩ := packAll_ok_iff.mpr fun v hv => h v (.inl hv)
    obtain ⟨pairs, hpairs⟩ := packPairs_ok_iff.mpr fun p hp =>
      ⟨h p.1 (.inr ⟨p, hp, .inl rfl⟩), h p.2 (.inr ⟨p, hp, .inr rfl⟩)⟩
    exact ⟨_, wbTable_eq_ok_iff.mpr ⟨elements, pairs, helements, hpairs, rfl⟩⟩

/-- With so many levels left, a value is written if all that is found in it is on one of these and
has a type that is supported. -/
theorem packOne_ok_iff {levels : ℕ} {v : SeriValue} :
    (∃ out, packOne heap levels v = .ok out) ↔
      ∀ k w, heap.Within k v w → k < levels ∧ w.Supported := by
  -- a table takes a level, and what is found in it is found one level deeper
  induction levels generalizing v with
  | zero =>
    constructor
    · rintro ⟨out, hout⟩
      cases hout
    · intro h
      exact absurd (h 0 v (.refl v)).1 (Nat.lt_irrefl 0)
  | succ levels ih =>
    cases v with
    | table ref =>
      simp only [packOne, wbTable_ok_iff, ih]
      constructor
      · intro h k w hw
        cases hw with
        | refl => exact ⟨Nat.succ_pos _, trivial⟩
        | step hold hw =>
          obtain ⟨hk, hsupported⟩ := h _ hold _ w hw
          exact ⟨Nat.succ_lt_succ hk, hsupported⟩
      · intro h v hold k w hw
        obtain ⟨hk, hsupported⟩ := h (k + 1) w (.step hold hw)
        exact ⟨Nat.lt_of_succ_lt_succ hk, hsupported⟩
    | other typename ref =>
      simp only [packOne, reduceCtorEq, exists_false, false_iff]
      intro h
      exact (h 0 _ (.refl _)).2
    | _ =>
      simp only [packOne, Except.ok.injEq, exists_eq', true_iff]
      rintro k w (_ | _)
      exact ⟨Nat.succ_pos _, trivial⟩

theorem packFrom_ok_iff {vs : List SeriValue} :
    (∃ pushes, packFrom heap vs = .ok pushes) ↔
      ∀ v ∈ vs, ∀ k w, heap.Within k v w → k ≤ maxDepth ∧ w.Supported := by
  rw [packFrom, packAll_ok_iff]
  simp only [packOne_ok_iff, Nat.lt_succ_iff]

/-- **Values that can be packed.** All that is pushed for them is in the buffer just if nothing in them
is inside more than 32 tables, nothing is a function, a thread or a full userdata, and what is pushed
is within an `int`. -/
theorem packs_iff (heap : SeriHeap) (vs : List SeriValue) :
    (∃ pushes, packFrom heap vs = .ok pushes ∧ pack heap vs = .ok pushes.flatten) ↔
      (∀ v ∈ vs, ∀ k w, heap.Within k v w → k ≤ maxDepth ∧ w.Supported) ∧
        ∀ pushes, packFrom heap vs = .ok pushes → pushes.flatten.length < 2 ^ 31 := by
  rw [← packFrom_ok_iff]
  constructor
  · rintro ⟨pushes, hpushes, hpack⟩
    refine ⟨⟨pushes, hpushes⟩, fun pushes' hpushes' => ?_⟩
    obtain rfl := Except.ok.inj (hpushes.symm.trans hpushes')
    exact length_lt_of_pack hpushes hpack
  · rintro ⟨⟨pushes, hpushes⟩, hlen⟩
    exact ⟨pushes, hpushes, pack_of_lt hpushes (hlen pushes hpushes)⟩

theorem SeriHeap.Within.trans {j k : ℕ} {u v w : SeriValue} (h : heap.Within j u v)
    (h' : heap.Within k v w) : heap.Within (j + k) u w := by
  induction h with
  | refl => rwa [Nat.zero_add]
  | step hold _ ih =>
    rw [Nat.add_right_comm]
    exact .step hold (ih h')

/-- A table that is found in itself is found in itself at any depth. -/
theorem SeriHeap.Within.cycle {k : ℕ} {v : SeriValue} (h : heap.Within (k + 1) v v) (n : ℕ) :
    ∃ j, n ≤ j ∧ heap.Within j v v := by
  induction n with
  | zero => exact ⟨0, Nat.le_refl 0, .refl v⟩
  | succ n ih =>
    obtain ⟨j, hj, hv⟩ := ih
    exact ⟨k + 1 + j, by omega, h.trans hv⟩

/-- A value that is found in itself cannot be packed. -/
theorem not_packs_of_cycle {k : ℕ} {v : SeriValue} {vs : List SeriValue}
    (h : heap.Within (k + 1) v v) (hv : v ∈ vs) (buffer : Bytes) : pack heap vs ≠ .ok buffer := by
  intro hpack
  obtain ⟨j, hj, hcycle⟩ := h.cycle (maxDepth + 1)
  cases hpushes : packFrom heap vs with
  | error e =>
    rw [pack, hpushes] at hpack
    cases hpack
  | ok pushes =>
    have hdepth := (packFrom_ok_iff.mp ⟨pushes, hpushes⟩ v hv j v hcycle).1
    omega

end Packs

/-! ### The entries of a table -/

theorem lookup_eq_some_iff_mem {α β : Type*} [DecidableEq α] {ps : List (α × β)} {k : α} {v : β}
    (h : (ps.map Prod.fst).Nodup) : ps.lookup k = some v ↔ (k, v) ∈ ps := by
  induction ps with
  | nil => simp
  | cons p ps ih =>
    obtain ⟨k', w⟩ := p
    rw [List.map_cons, List.nodup_cons] at h
    rw [List.lookup_cons, List.mem_cons]
    by_cases hk : k = k'
    · subst hk
      have hnot : (k, v) ∉ ps := fun hv => h.1 (List.mem_map.mpr ⟨_, hv, rfl⟩)
      have heq : (k == k) = true := beq_self_eq_true k
      simp only [heq, Option.some.injEq, Prod.mk.injEq, true_and, hnot, or_false, eq_comm]
    · have hne : (k == k') = false := beq_eq_false_iff_ne.mpr hk
      simp only [hne, ih h.2, Prod.mk.injEq, hk, false_and, false_or]

namespace SeriTable

variable {t : SeriTable}

/-- The keys of the elements. -/
def index (i : ℕ) : SeriValue := .integer (Int64.ofNat (i + 1))

/-- What an unpacked table is given: its elements that are not nil, and its pairs. -/
def entries (t : SeriTable) : List (SeriValue × SeriValue) :=
  ((List.range t.arraySize.toNat).map fun i =>
    (index i, t.rawgeti (Int64.ofNat (i + 1)))).filter (·.2 ≠ .nil) ++ t.hash

theorem toInt_index {i : ℕ} (h : i < 2 ^ 31) : (Int64.ofNat (i + 1)).toInt = i + 1 := by
  rw [Int64.toInt_ofNat_of_lt (by omega)]
  rfl

theorem index_inj {i j : ℕ} (hi : i < 2 ^ 31) (hj : j < 2 ^ 31) (h : index i = index j) :
    i = j := by
  have h := congrArg Int64.toInt (SeriValue.integer.inj h)
  rw [toInt_index hi, toInt_index hj] at h
  omega

theorem rawgeti_eq_iff {x : Int64} {v : SeriValue} (hv : v ≠ .nil) :
    t.rawgeti x = v ↔ (.integer x, v) ∈ t.pairs := by
  rw [← lookup_eq_some_iff_mem t.nodup, rawgeti]
  cases t.pairs.lookup (.integer x) with
  | none => simp [hv.symm]
  | some w => simp

/-- A key that is left out of the hash part is the index of an element. -/
theorem inArray_iff (h : t.rawlen < 2 ^ 31) {k : SeriValue} :
    t.inArray k = true ↔ ∃ i < t.rawlen, k = index i := by
  have hsize : t.arraySize = t.rawlen := cInt_of_lt h
  constructor
  · intro hk
    cases k with
    | integer x =>
      rw [inArray, decide_eq_true_iff, hsize] at hk
      refine ⟨x.toInt.toNat - 1, by omega, ?_⟩
      apply congrArg SeriValue.integer
      apply Int64.toInt_inj.mp
      rw [toInt_index (by omega)]
      omega
    | _ => cases hk
  · rintro ⟨i, hi, rfl⟩
    rw [index, inArray, decide_eq_true_iff, toInt_index (by omega), hsize]
    omega

/-- **Every entry of a table is written once**: the elements that are not nil and the pairs are the
entries of the table. -/
theorem entries_perm (h : t.rawlen < 2 ^ 31) : t.entries.Perm t.pairs := by
  have hsize : t.arraySize.toNat = t.rawlen := by
    rw [arraySize, cInt_of_lt h, Int.toNat_natCast]
  unfold entries
  rw [hsize]
  refine .trans (.append_right _ ?_) (List.filter_append_perm (fun p => t.inArray p.1) t.pairs)
  have hpairs : t.pairs.Nodup := .of_map _ t.nodup
  apply (List.perm_ext_iff_of_nodup (.filter _ (.map_on ?_ List.nodup_range)) (hpairs.filter _)).mpr
  · rintro ⟨k, v⟩
    simp only [List.mem_filter, List.mem_map, List.mem_range, Prod.mk.injEq, inArray_iff h,
      decide_eq_true_eq]
    constructor
    · rintro ⟨⟨i, hi, rfl, hv⟩, hne⟩
      exact ⟨(rawgeti_eq_iff hne).mp hv, i, hi, rfl⟩
    · rintro ⟨hmem, i, hi, rfl⟩
      have hne : v ≠ .nil := t.values _ hmem
      exact ⟨⟨i, hi, rfl, (rawgeti_eq_iff hne).mpr hmem⟩, hne⟩
  · intro i hi j hj hij
    rw [List.mem_range] at hi hj
    exact index_inj (by omega) (by omega) (Prod.mk.inj hij).1

end SeriTable

/-- A table that holds another in two places. -/
def sharedHeap : SeriHeap
  | 0 => ⟨1, [(.integer 1, .table 1), (.string [120], .table 1)], none, by decide,
      by simp [SeriValue.IsKey], by decide, nofun⟩
  | _ => ⟨0, [], none, by decide, by simp, by simp, nofun⟩

theorem entries_perm_shared : (sharedHeap 0).entries.Perm (sharedHeap 0).pairs :=
  SeriTable.entries_perm (by decide : 1 < 2 ^ 31)

end TestCluster.Skynet
