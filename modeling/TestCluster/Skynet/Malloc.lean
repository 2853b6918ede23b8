import Mathlib.Data.Nat.Log
import TestCluster.Semantics.Memory

/-!
# Allocation

`skynet_malloc` of skynet's `malloc_hook.c`, through which the native modules allocate
the blocks they hand to other services, over the size classes of jemalloc.
-/

namespace TestCluster

open Semantics

/-- `s2u_compute`: the size of the block that jemalloc makes for a request of some bytes, with a
quantum of 16 bytes and four size classes in each doubling. -/
def s2uCompute (size : ℕ) : ℕ :=
  if size ≤ 2 ^ 3 then 2 ^ 3
  else
    let x := Nat.log 2 (size * 2 - 1)
    let lgDelta := if x < 2 + 4 + 1 then 4 else x - 2 - 1
    (size + (2 ^ lgDelta - 1)) / 2 ^ lgDelta * 2 ^ lgDelta

/-- `je_malloc_usable_size` of the block that `je_malloc` makes, which takes 0 for 1. -/
def jeUsableSize (size : ℕ) : ℕ := s2uCompute (if size = 0 then 1 else size)

/-- A block has what was requested. -/
theorem le_jeUsableSize (size : ℕ) : size ≤ jeUsableSize size := by
  have hround (n delta : ℕ) (h : 0 < delta) : n ≤ (n + (delta - 1)) / delta * delta := by
    have hmod := Nat.mod_add_div (n + (delta - 1)) delta
    have hlt := Nat.mod_lt (n + (delta - 1)) h
    rw [Nat.mul_comm] at hmod
    omega
  have hcompute (n : ℕ) : n ≤ s2uCompute n := by
    unfold s2uCompute
    split_ifs with hsmall
    · exact hsmall
    · exact hround _ _ (Nat.two_pow_pos _)
  unfold jeUsableSize
  split_ifs with hzero
  · rw [hzero]
    exact Nat.zero_le _
  · exact hcompute size

/-- `skynet_malloc`. The requested size and the four bytes of the handle, which is kept at the end
of the block, are added as `size_t`; a request beyond the address space aborts. The bytes that
were requested can be used, as far as the block has them. -/
def skynetMalloc (size : ℕ) : Except Fault Buffer :=
  let total := (size + 4) % 2 ^ 64
  if total < 2 ^ 63 then .ok (Buffer.alloc (min size (jeUsableSize total)))
  else .error .outOfMemory

theorem skynetMalloc_of_lt {size : ℕ} (h : size < 2 ^ 62) :
    skynetMalloc size = .ok (Buffer.alloc size) := by
  have htotal : (size + 4) % 2 ^ 64 = size + 4 := by omega
  have hfits : size ≤ jeUsableSize (size + 4) := (Nat.le_add_right _ _).trans (le_jeUsableSize _)
  rw [skynetMalloc, htotal, if_pos (by omega), min_eq_left hfits]

/-- A block that was allocated has less than `2 ^ 63` bytes that can be used. -/
theorem size_of_skynetMalloc {size : ℕ} {buff : Buffer} (hsize : size < 2 ^ 64)
    (h : skynetMalloc size = .ok buff) : buff.size < 2 ^ 63 := by
  simp only [skynetMalloc] at h
  split_ifs at h with htotal
  cases h
  rw [Buffer.size_alloc]
  rcases Nat.lt_or_ge (size + 4) (2 ^ 64) with hlt | hge
  · have hle : min size (jeUsableSize ((size + 4) % 2 ^ 64)) ≤ size := min_le_left _ _
    omega
  · -- the sum has wrapped: the block is one of the smallest
    have hsmall : jeUsableSize ((size + 4) % 2 ^ 64) = 2 ^ 3 := by
      unfold jeUsableSize s2uCompute
      split_ifs <;> omega
    have hle : min size (jeUsableSize ((size + 4) % 2 ^ 64)) ≤ 2 ^ 3 := hsmall ▸ min_le_right _ _
    omega

end TestCluster
