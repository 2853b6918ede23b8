import Mathlib.Data.List.Basic
import Mathlib.Tactic.Ring

/-!
# Byte order

Fixed-width naturals as byte strings, in both byte orders. The width is a
parameter: encoding keeps the value modulo `256 ^ width`, and decoding a string is
the inverse of encoding at its length.

## Main definitions

* `Semantics.leBytes` / `Semantics.leNat` — least significant byte first
* `Semantics.beBytes` / `Semantics.beNat` — most significant byte first

## Main results

* `leNat_leBytes`, `beNat_beBytes` — decoding an encoded number
* `leBytes_leNat` — encoding a decoded string
-/

namespace Semantics

/-- A byte string. -/
abbrev Bytes := List UInt8

/-- The `width` low bytes of `n`, least significant first. -/
def leBytes : (width : ℕ) → ℕ → Bytes
  | 0, _ => []
  | width + 1, n => UInt8.ofNat n :: leBytes width (n / 256)

/-- The number whose bytes these are, least significant first. -/
def leNat : Bytes → ℕ
  | [] => 0
  | b :: bs => b.toNat + 256 * leNat bs

@[simp] theorem length_leBytes (width n : ℕ) : (leBytes width n).length = width := by
  induction width generalizing n with
  | zero => rfl
  | succ width ih => simp [leBytes, ih]

theorem leNat_lt (bs : Bytes) : leNat bs < 256 ^ bs.length := by
  induction bs with
  | nil => simp [leNat]
  | cons b bs ih =>
    have hb : b.toNat < 256 := b.toNat_lt
    rw [leNat, List.length_cons, pow_succ]
    omega

theorem leNat_leBytes (width n : ℕ) : leNat (leBytes width n) = n % 256 ^ width := by
  induction width generalizing n with
  | zero => simp [leBytes, leNat, Nat.mod_one]
  | succ width ih =>
    have hlow : (UInt8.ofNat n).toNat = n % 256 := by simp
    rw [leBytes, leNat, ih, hlow, pow_succ', Nat.mod_mul]

theorem leNat_leBytes_of_lt {width n : ℕ} (h : n < 256 ^ width) :
    leNat (leBytes width n) = n := by
  rw [leNat_leBytes, Nat.mod_eq_of_lt h]

theorem leBytes_leNat (bs : Bytes) : leBytes bs.length (leNat bs) = bs := by
  induction bs with
  | nil => rfl
  | cons b bs ih =>
    have hb : b.toNat < 256 := b.toNat_lt
    have hlow : UInt8.ofNat (b.toNat + 256 * leNat bs) = b := by
      apply UInt8.toNat_inj.mp
      rw [UInt8.toNat_ofNat']
      omega
    have hhigh : (b.toNat + 256 * leNat bs) / 256 = leNat bs := by omega
    rw [List.length_cons, leNat, leBytes, hlow, hhigh, ih]

/-- The `width` low bytes of `n`, most significant first. -/
def beBytes (width n : ℕ) : Bytes := (leBytes width n).reverse

/-- The number whose bytes these are, most significant first. -/
def beNat (bs : Bytes) : ℕ := leNat bs.reverse

@[simp] theorem length_beBytes (width n : ℕ) : (beBytes width n).length = width := by
  simp [beBytes]

theorem beNat_lt (bs : Bytes) : beNat bs < 256 ^ bs.length := by
  simpa [beNat] using leNat_lt bs.reverse

theorem beNat_beBytes (width n : ℕ) : beNat (beBytes width n) = n % 256 ^ width := by
  simp [beNat, beBytes, leNat_leBytes]

theorem beNat_beBytes_of_lt {width n : ℕ} (h : n < 256 ^ width) :
    beNat (beBytes width n) = n := by
  rw [beNat_beBytes, Nat.mod_eq_of_lt h]

end Semantics
