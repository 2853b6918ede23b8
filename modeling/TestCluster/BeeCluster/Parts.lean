import TestCluster.Skynet.Malloc
import TestCluster.BeeCluster.Request

/-!
# Joining the parts of a message

`lappend` and `lconcat` of `lua-beecluster.c`. A message in several parts is collected
in a Lua table: the announced size first, then one string for each part. `lconcat`
copies the parts into one block and accepts the table when they fill it exactly.

## Main definitions

* `lappend` — one more element of the table
* `lconcat` — the block with all parts, or nothing when the sizes disagree

## Main results

* `lconcat_eq` — a table whose parts have the announced size is joined
-/

namespace TestCluster.BeeCluster

open Semantics

/-- `lappend`: the announced size when there is no block, else the block as a string. -/
def lappend (req : List LuaValue) (msg : Option Bytes) (sz : ℤ) : Except Fault (List LuaValue) :=
  match msg with
  | none => .ok (req ++ [.number sz])
  | some buffer => do
    let str ← readAt buffer 0 (toSizeT (toInt32 sz))
    return req ++ [.string str]

/-- The copying loop of `lconcat`. It stops at the first element that is not a string;
`none` when a part does not fit. The comparison is between `size_t` values. -/
def concatLoop (sz : ℤ) : List LuaValue → Buffer → (offset : ℤ) →
    Except Fault (Option (Buffer × ℤ))
  | .string str :: rest, buff, offset =>
    let s := str.length
    if (s + toSizeT offset) % 2 ^ 64 > toSizeT sz then
      .ok none
    else do
      let buff ← buff.write (toSizeT offset) str
      concatLoop sz rest buff (toInt32 (offset + s))
  | _, buff, offset => .ok (some (buff, offset))

/-- `lconcat`. -/
def lconcat : List LuaValue → Except Fault (Option Bytes)
  | .number sz :: parts => do
    let sz := toInt32 sz
    let buff ← skynetMalloc (toSizeT sz)
    match ← concatLoop sz parts buff 0 with
    | none => return none
    | some (buff, offset) =>
      if offset ≠ sz then
        return none
      else
        return some (← buff.read 0 (toSizeT sz))
  | _ => .ok none

/-- `lisname`. -/
def lisname : LuaValue → Bool
  | .string name => name.head? = some 0x40
  | _ => false

/-! ### Tables built by appending -/

section Append

variable {req : List LuaValue} {chunk : Bytes}

/-- A received block is appended as a whole. -/
theorem lappend_part (req : List LuaValue) (h : chunk.length < 2 ^ 31) :
    lappend req (some chunk) chunk.length = .ok (req ++ [.string chunk]) := by
  have hsz : toSizeT (toInt32 chunk.length) = chunk.length := by
    rw [toInt32_of_lt (by omega) (by omega), toSizeT_of_lt (by omega) (by omega)]
    simp
  rw [lappend, hsz, readAt_zero]
  rfl

end Append

/-! ### The copying loop -/

section Loop

variable {sz : ℕ} {buff : Buffer} {copied : Bytes}

/-- The comparison of the loop, for a buffer that has been filled up to its offset. -/
private theorem fits_iff (hsz : sz < 2 ^ 31) (hfilled : buff.Filled sz copied) {str : Bytes}
    (hstr : str.length < 2 ^ 63) :
    (str.length + toSizeT copied.length) % 2 ^ 64 > toSizeT sz ↔
      sz < copied.length + str.length := by
  have hle : copied.length ≤ sz := hfilled.length_le
  have hoff : toSizeT copied.length = copied.length := by
    rw [toSizeT_of_lt (by omega) (by omega), Int.toNat_natCast]
  have hsize : toSizeT sz = sz := by
    rw [toSizeT_of_lt (by omega) (by omega), Int.toNat_natCast]
  rw [hoff, hsize]
  omega

/-- A part that fits is copied behind the others. -/
private theorem concatLoop_cons (hsz : sz < 2 ^ 31) (hfilled : buff.Filled sz copied)
    {str : Bytes} (hfit : copied.length + str.length ≤ sz) (rest : List LuaValue) :
    ∃ buff', concatLoop sz (.string str :: rest) buff copied.length =
        concatLoop sz rest buff' (copied ++ str).length ∧
      buff'.Filled sz (copied ++ str) := by
  have hoff : toSizeT copied.length = copied.length := by
    rw [toSizeT_of_lt (by omega) (by omega), Int.toNat_natCast]
  have hnext : toInt32 (copied.length + str.length) = ((copied ++ str).length : ℤ) := by
    rw [toInt32_of_lt (by omega) (by omega), List.length_append, Nat.cast_add]
  have hcheck := mt (@fits_iff _ _ _ hsz hfilled str (by omega)).mp (by omega)
  obtain ⟨buff', hwrite, hfilled'⟩ := hfilled.write copied.length str rfl hfit
  refine ⟨buff', ?_, hfilled'⟩
  rw [concatLoop, if_neg hcheck, hoff, hwrite, ok_bind, hnext]

/-- Parts that together fit are copied one behind the other. -/
theorem concatLoop_of_le (hsz : sz < 2 ^ 31) (hfilled : buff.Filled sz copied)
    (parts : List Bytes) (hfit : copied.length + parts.flatten.length ≤ sz) :
    ∃ buff', concatLoop sz (parts.map .string) buff copied.length =
        .ok (some (buff', (copied ++ parts.flatten).length)) ∧
      buff'.Filled sz (copied ++ parts.flatten) := by
  induction parts generalizing buff copied with
  | nil => exact ⟨buff, by simp [concatLoop], by simpa using hfilled⟩
  | cons str parts ih =>
    rw [List.flatten_cons, List.length_append] at hfit
    obtain ⟨buff₁, hstep, hfilled₁⟩ := @concatLoop_cons _ _ _ hsz hfilled str (by omega)
      (parts.map .string)
    obtain ⟨buff', hloop, hfilled'⟩ := ih hfilled₁ (by rw [List.length_append]; omega)
    rw [List.append_assoc, ← List.flatten_cons] at hloop hfilled'
    exact ⟨buff', by rw [List.map_cons, hstep, hloop], hfilled'⟩

/-- Parts that together do not fit are refused before the buffer is left. The length of a
Lua string is below `2 ^ 63`. -/
theorem concatLoop_of_gt (hsz : sz < 2 ^ 31) (hfilled : buff.Filled sz copied)
    {parts : List Bytes} (hparts : ∀ str ∈ parts, str.length < 2 ^ 63)
    (hover : sz < copied.length + parts.flatten.length) :
    concatLoop sz (parts.map .string) buff copied.length = .ok none := by
  induction parts generalizing buff copied with
  | nil =>
    have hle : copied.length ≤ sz := hfilled.length_le
    simp only [List.flatten_nil, List.length_nil] at hover
    omega
  | cons str parts ih =>
    obtain ⟨hstr, hparts⟩ := List.forall_mem_cons.mp hparts
    rw [List.flatten_cons, List.length_append] at hover
    rcases le_or_gt (copied.length + str.length) sz with hfit | hgt
    · obtain ⟨buff', hstep, hfilled'⟩ := concatLoop_cons hsz hfilled hfit (parts.map .string)
      rw [List.map_cons, hstep]
      exact ih hfilled' hparts (by rw [List.length_append]; omega)
    · rw [List.map_cons, concatLoop, if_pos ((fits_iff hsz hfilled hstr).mpr hgt)]

end Loop

/-! ### Tables whose sizes agree -/

/-- **A consistent table is joined.** When the parts together have the announced size,
`lconcat` returns them one behind the other. -/
theorem lconcat_eq {parts : List Bytes} {payload : Bytes} (h : parts.flatten = payload)
    (hlen : payload.length < 2 ^ 31) :
    lconcat (.number payload.length :: parts.map .string) = .ok (some payload) := by
  have hsz : toInt32 payload.length = payload.length := toInt32_of_lt (by omega) (by omega)
  have hsize : toSizeT payload.length = payload.length := by
    rw [toSizeT_of_lt (by omega) (by omega), Int.toNat_natCast]
  obtain ⟨buff, hloop, hfilled⟩ := concatLoop_of_le hlen (Buffer.Filled.alloc payload.length) parts
    (by rw [h, List.length_nil, Nat.zero_add])
  rw [List.nil_append, h] at hloop hfilled
  have hloop' : concatLoop payload.length (parts.map .string) (Buffer.alloc payload.length) 0 =
      .ok (some (buff, payload.length)) := hloop
  simp only [lconcat, hsz, hsize, skynetMalloc_of_lt (show payload.length < 2 ^ 62 by omega),
    ok_bind, hloop', ne_eq, not_true_eq_false, if_false,
    hfilled.read payload.length rfl, pure_eq_ok]

end TestCluster.BeeCluster
