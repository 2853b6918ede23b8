import Mathlib.Data.List.Basic

/-!
# A buffer of blocks

Something is written piece by piece into a chain of blocks of a fixed size; a piece that does not
fit into the current block is split. What is collected from the chain in the end is what was
written, whatever the pieces were.

## Main definitions

* `Semantics.Blocks` — the blocks that are full, the current one, and how much was written
* `Blocks.push`, `Blocks.collect` — writing a piece, and copying the blocks together

## Main results

* `Blocks.toList_push`, `Blocks.toList_foldl_push` — writing appends
* `Blocks.collect_eq` — what is collected are the first items that were written
-/

namespace Semantics

variable {α : Type*} {size : ℕ}

/-- A chain of blocks: all but the last are full. -/
structure Blocks (α : Type*) (size : ℕ) where
  full : List (List α)
  current : List α
  len : ℕ
  full_length : ∀ b ∈ full, b.length = size
  current_length : current.length ≤ size
  len_eq : len = full.length * size + current.length

namespace Blocks

/-- What was written. -/
def toList (b : Blocks α size) : List α := b.full.flatten ++ b.current

/-- One empty block. -/
def empty : Blocks α size := ⟨[], [], 0, by simp, by simp, by simp⟩

/-- The current block is full, and a fresh one follows it. -/
def next (b : Blocks α size) (h : b.current.length = size) : Blocks α size where
  full := b.full ++ [b.current]
  current := []
  len := b.len
  full_length := by
    intro c hc
    rcases List.mem_append.mp hc with hc | hc
    · exact b.full_length c hc
    · rw [List.mem_singleton.mp hc, h]
  current_length := Nat.zero_le _
  len_eq := by
    rw [b.len_eq, h, List.length_append, List.length_singleton, Nat.add_mul, Nat.one_mul]
    rfl

/-- Items that fit into the current block. -/
def write (b : Blocks α size) (items : List α) (h : b.current.length + items.length ≤ size) :
    Blocks α size where
  full := b.full
  current := b.current ++ items
  len := b.len + items.length
  full_length := b.full_length
  current_length := by rwa [List.length_append]
  len_eq := by rw [b.len_eq, List.length_append, Nat.add_assoc]

/-- The current block, or a fresh one if that is full. -/
def roomy (b : Blocks α size) : Blocks α size :=
  if h : b.current.length = size then b.next h else b

theorem roomy_lt (hsize : 0 < size) (b : Blocks α size) : b.roomy.current.length < size := by
  unfold roomy
  split
  · exact hsize
  · next h => exact Nat.lt_of_le_of_ne b.current_length h

/-- A piece is written; what does not fit goes into the blocks that follow. -/
def push (hsize : 0 < size) (b : Blocks α size) (items : List α) : Blocks α size :=
  if h : b.roomy.current.length + items.length ≤ size then b.roomy.write items h
  else
    let copy := size - b.roomy.current.length
    push hsize
      (b.roomy.write (items.take copy) (by
        have hlt := roomy_lt hsize b
        rw [List.length_take]
        omega))
      (items.drop copy)
termination_by items.length
decreasing_by
  have hlt := roomy_lt hsize b
  rw [List.length_drop]
  omega

/-- So many items are copied from the first block on. There is `none` where that is more than the
blocks. -/
def collect (size : ℕ) : ℕ → List (List α) → Option (List α)
  | len, [] => if len = 0 then some [] else none
  | len, b :: bs =>
    if size ≤ len then (collect size (len - size) bs).map (b ++ ·) else some (b.take len)

@[simp] theorem toList_empty : (empty : Blocks α size).toList = [] := rfl

@[simp] theorem toList_next (b : Blocks α size) (h : b.current.length = size) :
    (b.next h).toList = b.toList := by
  simp [toList, next]

@[simp] theorem toList_write (b : Blocks α size) (items : List α)
    (h : b.current.length + items.length ≤ size) :
    (b.write items h).toList = b.toList ++ items := by
  simp [toList, write]

@[simp] theorem toList_roomy (b : Blocks α size) : b.roomy.toList = b.toList := by
  unfold roomy
  split
  · exact toList_next b _
  · rfl

/-- Writing a piece appends it. -/
theorem toList_push (hsize : 0 < size) (b : Blocks α size) (items : List α) :
    (b.push hsize items).toList = b.toList ++ items := by
  induction b, items using push.induct hsize with
  | case1 b items h =>
    rw [push, dif_pos h, toList_write, toList_roomy]
  | case2 b items h copy ih =>
    rw [push, dif_neg h, ih, toList_write, toList_roomy, List.append_assoc,
      List.take_append_drop]

/-- Writing pieces one after the other. -/
theorem toList_foldl_push (hsize : 0 < size) (b : Blocks α size) (pieces : List (List α)) :
    (pieces.foldl (push hsize) b).toList = b.toList ++ pieces.flatten := by
  induction pieces generalizing b with
  | nil => simp
  | cons piece pieces ih =>
    rw [List.foldl_cons, ih, toList_push, List.append_assoc, List.flatten_cons]

/-- From a chain of full blocks and a last one the first items are copied. -/
theorem collect_full {n : ℕ} (full : List (List α)) (current : List α)
    (hfull : ∀ b ∈ full, b.length = size) (hcurrent : current.length ≤ size)
    (hn : n ≤ full.length * size + current.length) :
    collect size n (full ++ [current]) = some ((full.flatten ++ current).take n) := by
  induction full generalizing n with
  | nil =>
    simp only [List.length_nil, Nat.zero_mul, Nat.zero_add] at hn
    simp only [List.nil_append, List.flatten_nil]
    rw [collect]
    split
    · have hzero : n - size = 0 := by omega
      have hall : current.take n = current := List.take_of_length_le (by omega)
      simp [collect, hzero, hall]
    · rfl
  | cons block full ih =>
    have hblock : block.length = size := hfull block List.mem_cons_self
    rw [List.length_cons, Nat.add_mul, Nat.one_mul] at hn
    rw [List.cons_append, collect, List.flatten_cons, List.append_assoc, List.take_append, hblock]
    split
    · next hsize =>
      have hall : block.take n = block := List.take_of_length_le (by omega)
      rw [ih (fun c hc => hfull c (List.mem_cons_of_mem _ hc)) (by omega), hall]
      rfl
    · next hsize =>
      have hzero : n - size = 0 := by omega
      rw [hzero, List.take_zero, List.append_nil]

/-- What is collected are the first items that were written. -/
theorem collect_eq (b : Blocks α size) {n : ℕ} (hn : n ≤ b.len) :
    collect size n (b.full ++ [b.current]) = some (b.toList.take n) := by
  rw [b.len_eq] at hn
  exact collect_full _ _ b.full_length b.current_length hn

theorem length_toList (b : Blocks α size) : b.toList.length = b.len := by
  have hflatten : b.full.flatten.length = b.full.length * size := by
    rw [List.length_flatten, List.map_congr_left b.full_length, List.map_const',
      List.sum_replicate_nat]
  rw [toList, List.length_append, hflatten, b.len_eq]

end Blocks

end Semantics
