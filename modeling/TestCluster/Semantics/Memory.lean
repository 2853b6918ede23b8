import TestCluster.Semantics.ByteOrder

/-!
# Native memory and machine integers

What a C function can do to memory, with every access checked: a buffer knows its
size and which of its bytes have been written, so that an access outside it and a
read of an unwritten byte are faults and not silently harmless.

## Main definitions

* `Semantics.Fault` — the ways a native call can fail
* `Semantics.Buffer` — a block of memory, with `Buffer.write` and `Buffer.read`
* `Semantics.readAt` — a checked read of a received byte string
* `Semantics.toUInt32`, `Semantics.toInt32`, `Semantics.toSizeT` — conversions
  between integer types

## Main results

* `Buffer.write_eq_ok` — a write inside the buffer succeeds
* `Buffer.Holds.set_same`, `Buffer.Holds.set_of_disjoint` — what a buffer holds
  after a write
* `Buffer.read_of_holds` — reading back what a buffer holds
-/

namespace Semantics

/-- The ways a native call fails. `raised` is an error raised in the calling
language; the others are faults of the native code. -/
inductive Fault
  | outOfBounds
  | uninitialized
  | outOfMemory
  | assertion
  | raised (message : String)
  deriving DecidableEq, Repr

@[simp] theorem ok_bind {ε α β : Type} (a : α) (f : α → Except ε β) :
    (Except.ok a >>= f) = f a := rfl

@[simp] theorem error_bind {ε α β : Type} (e : ε) (f : α → Except ε β) :
    (Except.error e >>= f) = Except.error e := rfl

@[simp] theorem pure_eq_ok {ε α : Type} (a : α) : (pure a : Except ε α) = .ok a := rfl

/-- The two parts of a computation that succeeds. -/
theorem bind_ok {ε α β : Type} {x : Except ε α} {f : α → Except ε β} {b : β}
    (h : (x >>= f) = .ok b) : ∃ a, x = .ok a ∧ f a = .ok b := by
  cases x with
  | error e => cases h
  | ok a => exact ⟨a, rfl, h⟩

/-! ### Integer conversions -/

/-- Conversion to `uint32_t`. -/
def toUInt32 (n : ℤ) : ℕ := (n % 2 ^ 32).toNat

/-- Conversion to a 32-bit `int`. -/
def toInt32 (n : ℤ) : ℤ := n.bmod (2 ^ 32)

/-- Conversion to a 64-bit `size_t`. -/
def toSizeT (n : ℤ) : ℕ := (n % 2 ^ 64).toNat

theorem toUInt32_lt (n : ℤ) : toUInt32 n < 2 ^ 32 := by
  unfold toUInt32; omega

theorem toUInt32_of_lt {n : ℤ} (h0 : 0 ≤ n) (h : n < 2 ^ 32) : toUInt32 n = n.toNat := by
  unfold toUInt32; omega

@[simp] theorem toUInt32_natCast {n : ℕ} (h : n < 2 ^ 32) : toUInt32 n = n := by
  unfold toUInt32; omega

theorem toInt32_of_lt {n : ℤ} (h0 : 0 ≤ n) (h : n < 2 ^ 31) : toInt32 n = n := by
  refine Int.bmod_eq_of_le ?_ ?_ <;> omega

/-- The upper half of the unsigned numbers becomes negative. -/
theorem toInt32_of_ge {n : ℤ} (h : 2 ^ 31 ≤ n) (h' : n < 2 ^ 32) : toInt32 n = n - 2 ^ 32 := by
  have hwrap : n = (n - 2 ^ 32) + (2 ^ 32 : ℕ) := by norm_num
  rw [toInt32, hwrap, Int.add_bmod_right, Int.bmod_eq_of_le (by omega) (by omega)]
  norm_num

theorem toInt32_range (n : ℤ) : -2 ^ 31 ≤ toInt32 n ∧ toInt32 n < 2 ^ 31 :=
  ⟨Int.le_bmod (by decide), Int.bmod_lt (by decide)⟩

/-- A length that is cut to an `int` does not grow. -/
theorem toInt32_natCast_le (n : ℕ) : toInt32 n ≤ n := by
  have hrange := toInt32_range n
  rcases lt_or_ge n (2 ^ 31) with hlt | hge
  · rw [toInt32_of_lt (by omega) (by omega)]
  · omega

theorem toSizeT_of_lt {n : ℤ} (h0 : 0 ≤ n) (h : n < 2 ^ 64) : toSizeT n = n.toNat := by
  unfold toSizeT; omega

/-! ### Received bytes -/

/-- The `len` bytes at offset `off` of a received message. -/
def readAt (bytes : Bytes) (off len : ℕ) : Except Fault Bytes :=
  if off + len ≤ bytes.length then .ok ((bytes.drop off).take len) else .error .outOfBounds

/-- Reading one field of a message whose layout is known. Offset and length are
hypotheses, so that a reader's own arithmetic need not be rewritten. -/
theorem readAt_eq_ok {bytes mid : Bytes} {off len : ℕ} (pre post : Bytes)
    (h : bytes = pre ++ (mid ++ post)) (hoff : pre.length = off) (hlen : mid.length = len) :
    readAt bytes off len = .ok mid := by
  subst h hoff hlen
  have hfit : pre.length + mid.length ≤ (pre ++ (mid ++ post)).length := by
    simp only [List.length_append]; omega
  rw [readAt, if_pos hfit, List.drop_left, List.take_left]

theorem readAt_zero (msg : Bytes) : readAt msg 0 msg.length = .ok msg := by
  simp [readAt]

/-- The `len` bytes at offset `off`, or what there is of them. -/
def slice (bytes : Bytes) (off len : ℕ) : Bytes := (bytes.drop off).take len

theorem readAt_of_le {bytes : Bytes} {off len : ℕ} (h : off + len ≤ bytes.length) :
    readAt bytes off len = .ok (slice bytes off len) := if_pos h

theorem length_slice {bytes : Bytes} {off len : ℕ} (h : off + len ≤ bytes.length) :
    (slice bytes off len).length = len := by
  rw [slice, List.length_take, List.length_drop]
  omega

/-- What was read is the slice, and lies in the message. -/
theorem readAt_ok_iff {bytes out : Bytes} {off len : ℕ} :
    readAt bytes off len = .ok out ↔ off + len ≤ bytes.length ∧ slice bytes off len = out := by
  constructor
  · intro h
    rw [readAt] at h
    split_ifs at h with hle
    exact ⟨hle, Except.ok.inj h⟩
  · rintro ⟨hle, rfl⟩
    exact readAt_of_le hle

theorem length_of_readAt {bytes out : Bytes} {off len : ℕ} (h : readAt bytes off len = .ok out) :
    out.length = len := by
  obtain ⟨hle, rfl⟩ := readAt_ok_iff.mp h
  exact length_slice hle

/-- Adjoining slices make one. -/
theorem slice_append_slice (bytes : Bytes) {off off' : ℕ} (len len' : ℕ) (h : off' = off + len) :
    slice bytes off len ++ slice bytes off' len' = slice bytes off (len + len') := by
  subst h
  rw [slice, slice, slice, List.take_add, List.drop_drop]

/-- The slice of one field of bytes whose layout is known. -/
theorem slice_eq {bytes mid : Bytes} {off len : ℕ} (pre post : Bytes)
    (h : bytes = pre ++ (mid ++ post)) (hoff : pre.length = off) (hlen : mid.length = len) :
    slice bytes off len = mid := by
  subst h hoff hlen
  rw [slice, List.drop_left, List.take_left]

/-- A slice of a fixed width that is read as a number and written again. -/
theorem leBytes_leNat_slice {bytes : Bytes} {off width : ℕ} (h : off + width ≤ bytes.length) :
    leBytes width (leNat (slice bytes off width)) = slice bytes off width := by
  have hwritten := leBytes_leNat (slice bytes off width)
  rwa [length_slice h] at hwritten

/-! ### Buffers -/

/-- A block of memory; a byte that has not been written is `none`. -/
structure Buffer where
  size : ℕ
  byte : ℕ → Option UInt8

namespace Buffer

/-- A fresh block, nothing of which has been written. -/
def alloc (size : ℕ) : Buffer := ⟨size, fun _ => none⟩

/-- The buffer with `bytes` put at offset `off`. -/
def set (b : Buffer) (off : ℕ) (bytes : Bytes) : Buffer :=
  { b with byte := fun i => if off ≤ i then (bytes[i - off]?).or (b.byte i) else b.byte i }

/-- Write `bytes` at offset `off`, inside the buffer. -/
def write (b : Buffer) (off : ℕ) (bytes : Bytes) : Except Fault Buffer :=
  if off + bytes.length ≤ b.size then .ok (b.set off bytes) else .error .outOfBounds

/-- Read `len` bytes at offset `off`, inside the buffer. -/
def read (b : Buffer) (off len : ℕ) : Except Fault Bytes :=
  if off + len ≤ b.size then
    match ((List.range len).map fun i => b.byte (off + i)).mapM id with
    | some bytes => .ok bytes
    | none => .error .uninitialized
  else .error .outOfBounds

@[simp] theorem size_alloc (size : ℕ) : (alloc size).size = size := rfl

@[simp] theorem size_set (b : Buffer) (off : ℕ) (bytes : Bytes) :
    (b.set off bytes).size = b.size := rfl

theorem write_eq_ok {b : Buffer} {off : ℕ} {bytes : Bytes} (h : off + bytes.length ≤ b.size) :
    b.write off bytes = .ok (b.set off bytes) := if_pos h

/-- A write keeps the size of the buffer. -/
theorem size_of_write {b b' : Buffer} {off : ℕ} {bytes : Bytes} (h : b.write off bytes = .ok b') :
    b'.size = b.size := by
  rw [write] at h
  split_ifs at h
  cases h
  rfl

/-- A write either leaves the buffer, or what follows it does. -/
theorem write_bind_outOfBounds {α : Type} {b : Buffer} {off : ℕ} {bytes : Bytes}
    {f : Buffer → Except Fault α}
    (h : ∀ b' : Buffer, b'.size = b.size → f b' = .error .outOfBounds) :
    (b.write off bytes >>= f) = .error .outOfBounds := by
  by_cases hfit : off + bytes.length ≤ b.size
  · rw [write_eq_ok hfit, ok_bind]
    exact h _ (size_set b off bytes)
  · rw [write, if_neg hfit, error_bind]

/-- A read stays inside the buffer. -/
theorem le_size_of_read {b : Buffer} {off len : ℕ} {bytes : Bytes}
    (h : b.read off len = .ok bytes) : off + len ≤ b.size := by
  rw [read] at h
  split_ifs at h with hfit
  exact hfit

/-- The buffer holds `bytes` at offset `off`. -/
def Holds (b : Buffer) (off : ℕ) (bytes : Bytes) : Prop :=
  ∀ i (h : i < bytes.length), b.byte (off + i) = some bytes[i]

namespace Holds

variable {b : Buffer} {off off' : ℕ} {bytes bytes' : Bytes}

theorem set_same (b : Buffer) (off : ℕ) (bytes : Bytes) :
    (b.set off bytes).Holds off bytes := by
  intro i h
  simp [set, h]

theorem set_of_disjoint (h : b.Holds off bytes)
    (hdisj : off + bytes.length ≤ off' ∨ off' + bytes'.length ≤ off) :
    (b.set off' bytes').Holds off bytes := by
  intro i hi
  have hb := h i hi
  simp only [set]
  split_ifs with hle
  · have hbeyond : bytes'.length ≤ off + i - off' := by omega
    rw [List.getElem?_eq_none hbeyond, Option.none_or, hb]
  · exact hb

theorem append (h : b.Holds off bytes) (h' : b.Holds (off + bytes.length) bytes') :
    b.Holds off (bytes ++ bytes') := by
  intro i hi
  by_cases hlt : i < bytes.length
  · rw [List.getElem_append_left hlt]
    exact h i hlt
  · have hi' : i - bytes.length < bytes'.length := by
      rw [List.length_append] at hi; omega
    rw [List.getElem_append_right (by omega), ← h' _ hi']
    congr 1
    omega

end Holds

private theorem mapM_id_map_some {α : Type*} (l : List α) :
    (l.map some).mapM id = some l := by
  induction l with
  | nil => rfl
  | cons a l ih => simp [ih]

private theorem length_of_mapM_id {α : Type*} {l : List (Option α)} {l' : List α}
    (h : l.mapM id = some l') : l'.length = l.length := by
  induction l generalizing l' with
  | nil =>
    obtain rfl : [] = l' := Option.some.inj h
    rfl
  | cons a l ih =>
    rw [List.mapM_cons] at h
    obtain ⟨b, -, h⟩ := Option.bind_eq_some_iff.mp h
    obtain ⟨bs, hbs, h⟩ := Option.bind_eq_some_iff.mp h
    obtain rfl : b :: bs = l' := Option.some.inj h
    rw [List.length_cons, List.length_cons, ih hbs]

/-- As many bytes are read as were asked for. -/
theorem length_of_read {b : Buffer} {off len : ℕ} {bytes : Bytes}
    (h : b.read off len = .ok bytes) : bytes.length = len := by
  rw [read] at h
  split_ifs at h
  split at h
  · next hread =>
    cases h
    rw [length_of_mapM_id hread, List.length_map, List.length_range]
  · cases h

/-- What a buffer holds is what is read from it. -/
theorem read_of_holds {b : Buffer} {off : ℕ} {bytes : Bytes} (h : b.Holds off bytes)
    (hsize : off + bytes.length ≤ b.size) : b.read off bytes.length = .ok bytes := by
  have hslice : ((List.range bytes.length).map fun i => b.byte (off + i)) = bytes.map some := by
    apply List.ext_getElem
    · simp
    · intro i hi _
      have hlt : i < bytes.length := by simpa using hi
      simpa using h i hlt
  rw [read, if_pos hsize, hslice, mapM_id_map_some]

/-! ### Filling a buffer from its start -/

/-- A buffer of `size` bytes whose first bytes are known. -/
structure Filled (b : Buffer) (size : ℕ) (bytes : Bytes) : Prop where
  size_eq : b.size = size
  length_le : bytes.length ≤ size
  holds : b.Holds 0 bytes

namespace Filled

variable {b : Buffer} {size : ℕ} {bytes : Bytes}

theorem alloc (size : ℕ) : Filled (Buffer.alloc size) size [] :=
  ⟨rfl, Nat.zero_le _, fun _ h => absurd h (Nat.not_lt_zero _)⟩

/-- Writing right behind the known bytes. -/
theorem write (h : Filled b size bytes) (off : ℕ) (bytes' : Bytes) (hoff : bytes.length = off)
    (hfit : off + bytes'.length ≤ size) :
    ∃ b', b.write off bytes' = .ok b' ∧ Filled b' size (bytes ++ bytes') := by
  have hfit' : off + bytes'.length ≤ b.size := h.size_eq ▸ hfit
  refine ⟨_, write_eq_ok hfit', h.size_eq, ?_, ?_⟩
  · rw [List.length_append]; omega
  · refine (h.holds.set_of_disjoint (by omega)).append ?_
    rw [Nat.zero_add, hoff]
    exact Holds.set_same b off bytes'

/-- Writing ahead into a fresh buffer leaves a gap in front. -/
theorem write_ahead (size back : ℕ) (tail : Bytes) (hfit : back + tail.length ≤ size) :
    ∃ b, (Buffer.alloc size).write back tail = .ok b ∧ Filled b size [] ∧ b.Holds back tail :=
  ⟨_, write_eq_ok hfit, ⟨rfl, Nat.zero_le _, fun _ h => absurd h (Nat.not_lt_zero _)⟩,
    Holds.set_same _ back tail⟩

/-- Writing into the gap in front of what is already there. -/
theorem write_below (h : Filled b size bytes) (off : ℕ) (bytes' : Bytes) {back : ℕ} {tail : Bytes}
    (htail : b.Holds back tail) (hoff : bytes.length = off) (hfit : off + bytes'.length ≤ back)
    (hback : back ≤ size) :
    ∃ b', b.write off bytes' = .ok b' ∧ Filled b' size (bytes ++ bytes') ∧ b'.Holds back tail := by
  obtain ⟨b', hwrite, hfilled⟩ := h.write off bytes' hoff (hfit.trans hback)
  refine ⟨b', hwrite, hfilled, ?_⟩
  have hin : off + bytes'.length ≤ b.size := h.size_eq ▸ hfit.trans hback
  rw [write_eq_ok hin] at hwrite
  rw [← Except.ok.inj hwrite]
  exact htail.set_of_disjoint (Or.inr hfit)

/-- The gap is closed. -/
theorem join (h : Filled b size bytes) {back : ℕ} {tail : Bytes} (htail : b.Holds back tail)
    (hback : bytes.length = back) (hfit : back + tail.length ≤ size) :
    Filled b size (bytes ++ tail) := by
  subst hback
  refine ⟨h.size_eq, ?_, h.holds.append (by rwa [Nat.zero_add])⟩
  rw [List.length_append]
  exact hfit

/-- Nothing is known of a buffer but its size. -/
theorem of_size (h : b.size = size) : Filled b size [] :=
  ⟨h, Nat.zero_le _, fun _ hi => absurd hi (Nat.not_lt_zero _)⟩

/-- Writing at the start again. -/
theorem rewrite (h : b.size = size) (hfit : bytes.length ≤ size) :
    ∃ b', b.write 0 bytes = .ok b' ∧ Filled b' size bytes :=
  (of_size h).write 0 bytes rfl (by omega)

/-- Reading the last of the known bytes. -/
theorem read_drop (h : Filled b size bytes) (off len : ℕ) (hlen : off + len = bytes.length) :
    b.read off len = .ok (bytes.drop off) := by
  have hdrop : (bytes.drop off).length = len := by
    rw [List.length_drop]
    omega
  rw [← hdrop]
  refine read_of_holds (fun i hi => ?_) ?_
  · rw [List.getElem_drop, ← h.holds (off + i) (by omega), Nat.zero_add]
  · rw [hdrop, hlen, h.size_eq]
    exact h.length_le

/-- Reading the known bytes. -/
theorem read (h : Filled b size bytes) (len : ℕ) (hlen : bytes.length = len) :
    b.read 0 len = .ok bytes := by
  subst hlen
  exact read_of_holds h.holds (by rw [h.size_eq, Nat.zero_add]; exact h.length_le)

end Filled

end Buffer

end Semantics
