import TestCluster.Semantics.Memory
import Mathlib.Data.List.TakeWhile

/-!
# Decimal numerals

Numbers as they are written in a string, and the number in front of a string. Reading stops at
the first character that is no digit.

## Main definitions

* `Semantics.decimal` — a number as it is written
* `Semantics.leadingNat`, `Semantics.leadingInt` — the number in front of a string
* `Semantics.atoll`, `Semantics.atoi`, `Semantics.strtoul` — the number in a C string

## Main results

* `leadingInt_decimal` — a written number is read back
* `length_decimal_lt_iff` — how long a written number is
* `atoi_decimal`, `strtoul_decimal` — a written number of 32 bits is read back from a C string
-/

namespace Semantics

/-- The digits of a number, as it is written in a string. -/
def decimal (n : ℤ) : Bytes :=
  let digits := (Nat.toDigits 10 n.natAbs).map fun c => UInt8.ofNat c.toNat
  if n < 0 then 45 :: digits else digits

/-- The decimal number in front of a string. -/
def leadingNat (s : Bytes) : ℕ :=
  (s.takeWhile fun c => 48 ≤ c ∧ c ≤ 57).foldl (fun n c => 10 * n + (c.toNat - 48)) 0

/-- The number in front of a string, with its sign. -/
def leadingInt : Bytes → ℤ
  | 45 :: s => -leadingNat s
  | 43 :: s => leadingNat s
  | s => leadingNat s

/-- The digits of a number that has no sign. -/
def digits (n : ℕ) : Bytes := (Nat.toDigits 10 n).map fun c => UInt8.ofNat c.toNat

theorem decimal_eq (n : ℤ) :
    decimal n = if n < 0 then 45 :: digits n.natAbs else digits n.natAbs := rfl

/-- One digit, as the byte that stands for it. -/
theorem digitChar_byte {d : ℕ} (h : d < 10) :
    (UInt8.ofNat (Nat.digitChar d).toNat).toNat = 48 + d := by
  revert d
  decide

theorem digits_of_lt {n : ℕ} (h : n < 10) : digits n = [UInt8.ofNat (Nat.digitChar n).toNat] := by
  rw [digits, Nat.toDigits_of_lt_base h, List.map_singleton]

theorem digits_of_ge {n : ℕ} (h : 10 ≤ n) :
    digits n = digits (n / 10) ++ [UInt8.ofNat (Nat.digitChar (n % 10)).toNat] := by
  rw [digits, Nat.toDigits_of_base_le (by decide) h, List.map_append, List.map_singleton]
  rfl

/-- The bytes of a numeral are digits. -/
theorem mem_digits {n : ℕ} {c : UInt8} (h : c ∈ digits n) : 48 ≤ c ∧ c ≤ 57 := by
  induction n using Nat.strong_induction_on with
  | _ n ih =>
    have hdigit : ∀ {d : ℕ}, d < 10 → c = UInt8.ofNat (Nat.digitChar d).toNat →
        48 ≤ c ∧ c ≤ 57 := by
      rintro d hd rfl
      rw [UInt8.le_iff_toNat_le, UInt8.le_iff_toNat_le, digitChar_byte hd]
      exact ⟨Nat.le_add_right .., Nat.add_le_add_left (Nat.le_of_lt_succ hd) 48⟩
    rcases lt_or_ge n 10 with hlt | hge
    · rw [digits_of_lt hlt, List.mem_singleton] at h
      exact hdigit hlt h
    · rw [digits_of_ge hge, List.mem_append, List.mem_singleton] at h
      rcases h with h | h
      · exact ih (n / 10) (by omega) h
      · exact hdigit (Nat.mod_lt _ (by decide)) h

theorem foldl_digits (n : ℕ) :
    (digits n).foldl (fun n c => 10 * n + (c.toNat - 48)) 0 = n := by
  induction n using Nat.strong_induction_on with
  | _ n ih =>
    rcases lt_or_ge n 10 with hlt | hge
    · rw [digits_of_lt hlt, List.foldl_cons, List.foldl_nil, digitChar_byte hlt]
      omega
    · rw [digits_of_ge hge, List.foldl_append, ih (n / 10) (by omega), List.foldl_cons,
        List.foldl_nil, digitChar_byte (Nat.mod_lt _ (by decide))]
      omega

theorem leadingNat_digits (n : ℕ) : leadingNat (digits n) = n := by
  have hall : (digits n).takeWhile (fun c => decide (48 ≤ c ∧ c ≤ 57)) = digits n :=
    List.takeWhile_eq_self_iff.mpr fun c hc => decide_eq_true (mem_digits hc)
  rw [leadingNat, hall, foldl_digits]

/-- A text that starts with no sign is a natural number. -/
theorem leadingInt_of_digit {c : UInt8} (h : 48 ≤ c) (s : Bytes) :
    leadingInt (c :: s) = leadingNat (c :: s) := by
  unfold leadingInt
  split
  · next heq =>
    obtain ⟨rfl, -⟩ := List.cons.inj heq
    exact absurd h (by decide)
  · next heq =>
    obtain ⟨rfl, -⟩ := List.cons.inj heq
    exact absurd h (by decide)
  · rfl

theorem digits_ne_nil (n : ℕ) : digits n ≠ [] := by
  rw [digits, ne_eq, List.map_eq_nil_iff]
  exact Nat.toDigits_ne_nil

/-- **A written number is read back.** -/
theorem leadingInt_decimal (n : ℤ) : leadingInt (decimal n) = n := by
  rw [decimal_eq]
  split_ifs with hneg
  · rw [leadingInt, leadingNat_digits]
    omega
  · obtain ⟨c, s, hcons⟩ := List.exists_cons_of_ne_nil (digits_ne_nil n.natAbs)
    have hdigit : 48 ≤ c := (mem_digits (hcons ▸ List.mem_cons_self)).1
    rw [hcons, leadingInt_of_digit hdigit, ← hcons, leadingNat_digits]
    omega

theorem length_digits_lt_iff {n k : ℕ} (hk : 1 < k) :
    (digits n).length < k ↔ n < 10 ^ (k - 1) := by
  obtain ⟨k, rfl⟩ : ∃ k', k = k' + 1 := ⟨k - 1, by omega⟩
  rw [Nat.lt_succ_iff, digits, List.length_map, Nat.length_toDigits_le_iff (by decide) (by omega),
    Nat.add_sub_cancel]

/-- A negative number has one character more, for its sign. -/
theorem length_decimal_lt_iff {n : ℤ} {k : ℕ} (hk : 2 < k) :
    (decimal n).length < k ↔ -10 ^ (k - 2) < n ∧ n < 10 ^ (k - 1) := by
  have hcast : ∀ m : ℕ, ((10 ^ m : ℕ) : ℤ) = 10 ^ m := fun m => by push_cast; rfl
  rw [decimal_eq, ← hcast, ← hcast]
  have hpos := Nat.pow_pos (n := k - 1) (show 0 < 10 by decide)
  split_ifs with hneg
  · have hshort := length_digits_lt_iff (n := n.natAbs) (show 1 < k - 1 by omega)
    rw [show k - 1 - 1 = k - 2 by omega] at hshort
    rw [List.length_cons]
    omega
  · have hlong := length_digits_lt_iff (n := n.natAbs) (show 1 < k by omega)
    have hpos' := Nat.pow_pos (n := k - 2) (show 0 < 10 by decide)
    omega

/-- The characters of a number are its sign and its digits. -/
theorem mem_decimal {n : ℤ} {c : UInt8} (h : c ∈ decimal n) : c = 45 ∨ 48 ≤ c ∧ c ≤ 57 := by
  rw [decimal_eq] at h
  split_ifs at h
  · exact (List.mem_cons.mp h).imp_right mem_digits
  · exact .inr (mem_digits h)

/-! ### Numbers in C strings -/

/-- `atoll` of a C string: white space is skipped, and a number that does not fit is replaced
by the nearest one that does. -/
def atoll (s : Bytes) : Int64 :=
  let digits := (s.takeWhile (· ≠ 0)).dropWhile fun c => c = 32 ∨ 9 ≤ c ∧ c ≤ 13
  Int64.ofInt (max (-2 ^ 63) (min (leadingInt digits) (2 ^ 63 - 1)))

/-- `atoi` of a C string: the low half of what `atoll` returns. -/
def atoi (s : Bytes) : ℤ := toInt32 (atoll s).toInt

/-- `strtoul` of a C string, in base 10: a sign is applied to the unsigned number, and a number
that does not fit is replaced by the largest one. -/
def strtoul (s : Bytes) : ℕ :=
  let digits := (s.takeWhile (· ≠ 0)).dropWhile fun c => c = 32 ∨ 9 ≤ c ∧ c ≤ 13
  let n := leadingInt digits
  if n.natAbs < 2 ^ 64 then toSizeT n else 2 ^ 64 - 1

/-- A written number has no terminator, and no white space in front. -/
theorem skipSpace_decimal (n : ℤ) :
    ((decimal n).takeWhile (· ≠ 0)).dropWhile (fun c => c = 32 ∨ 9 ≤ c ∧ c ≤ 13) = decimal n := by
  have hvisible : ∀ c ∈ decimal n, 45 ≤ c.toNat := by
    intro c hc
    rcases mem_decimal hc with rfl | ⟨hlow, -⟩
    · exact le_rfl
    · exact le_trans (by decide) (UInt8.le_iff_toNat_le.mp hlow)
  have hterm : (decimal n).takeWhile (· ≠ 0) = decimal n := by
    refine List.takeWhile_eq_self_iff.mpr fun c hc => decide_eq_true ?_
    rintro rfl
    exact absurd (hvisible _ hc) (by decide)
  rw [hterm]
  cases hcons : decimal n with
  | nil => rfl
  | cons c s =>
    have hlow := hvisible c (hcons ▸ List.mem_cons_self)
    refine List.dropWhile_cons_of_neg ?_
    rw [decide_eq_true_eq, UInt8.le_iff_toNat_le, UInt8.le_iff_toNat_le]
    rintro (rfl | ⟨-, hhigh⟩)
    · exact absurd hlow (by decide)
    · exact absurd (hlow.trans hhigh) (by decide)

theorem atoll_decimal {n : ℤ} (h : -2 ^ 63 ≤ n ∧ n < 2 ^ 63) :
    (atoll (decimal n)).toInt = n := by
  rw [atoll, skipSpace_decimal, leadingInt_decimal, min_eq_left (by omega), max_eq_right h.1]
  exact Int64.toInt_ofInt_of_le h.1 h.2

/-- A written number of 32 bits is read back. -/
theorem atoi_decimal {n : ℤ} (h : -2 ^ 31 ≤ n ∧ n < 2 ^ 31) : atoi (decimal n) = n := by
  rw [atoi, atoll_decimal (by omega)]
  refine Int.bmod_eq_of_le ?_ ?_ <;> omega

theorem strtoul_decimal {n : ℕ} (h : n < 2 ^ 32) : strtoul (decimal n) = n := by
  rw [strtoul, skipSpace_decimal, leadingInt_decimal, Int.natAbs_natCast, if_pos (by omega),
    toSizeT_of_lt (by omega) (by omega), Int.toNat_natCast]

end Semantics
