import TestCluster.BeeCluster.UnpackRequest

/-!
# What an accepted request frame leaves unread

Each type of request frame has a layout, in the comment on the request package of
`lua-beecluster.c`. Writing what `lunpackrequest` returns in the layout of the frame's type
gives back the bytes that were read.

## Main definitions

* `FrameKind`, `frameKind` — the types of request frames
* `FrameKind.write` — the layouts
* `FrameKind.Accepts`, `FrameKind.consumed` — the lengths a type accepts, and how many bytes
  of them are read
* `Canonical` — a frame is refused, or written back byte for byte

## Main results

* `lunpackrequest_cases` — a frame is refused with an error, or the bytes that its type
  consumes are written back
* `canonical_iff` — a frame is canonical when its type consumes all of it
-/

namespace TestCluster.BeeCluster

open Semantics

/-- The types of request frames. -/
inductive FrameKind
  | number
  | multiNumber (isPush : Bool)
  | part (last : Bool)
  | trace
  | name
  | multiName (isPush : Bool)
  deriving DecidableEq, Repr

/-- The type that the first byte stands for. -/
def frameKind : UInt8 → Option FrameKind
  | 0 => some .number
  | 1 => some (.multiNumber false)
  | 0x41 => some (.multiNumber true)
  | 2 => some (.part false)
  | 3 => some (.part true)
  | 4 => some .trace
  | 0x80 => some .name
  | 0x81 => some (.multiName false)
  | 0xc1 => some (.multiName true)
  | _ => none

namespace Unpacked

variable (u : Unpacked)

/-- The address, as a double word or a string. -/
def addrBytes : Bytes :=
  match u.addr with
  | .number n => leBytes 4 n.toNat
  | .string name => name
  | _ => []

/-- The session, as a double word. -/
def sessionBytes : Bytes := u.session.elim [] (leBytes 4)

/-- The size, as a double word. -/
def sizeBytes : Bytes := leBytes 4 u.sz.toNat

/-- The payload. -/
def msgBytes : Bytes := u.msg.getD []

end Unpacked

namespace FrameKind

/-- The layout of a frame, without the length in front. -/
def write (u : Unpacked) : FrameKind → Bytes
  | number => 0 :: (u.addrBytes ++ (u.sessionBytes ++ u.msgBytes))
  | multiNumber isPush =>
    (if isPush then 0x41 else 1) :: (u.addrBytes ++ (u.sessionBytes ++ u.sizeBytes))
  | part last => (if last then 3 else 2) :: (u.sessionBytes ++ u.msgBytes)
  | trace => 4 :: u.addrBytes
  | name => 0x80 :: UInt8.ofNat u.addrBytes.length ::
      (u.addrBytes ++ (u.sessionBytes ++ u.msgBytes))
  | multiName isPush => (if isPush then 0xc1 else 0x81) :: UInt8.ofNat u.addrBytes.length ::
      (u.addrBytes ++ (u.sessionBytes ++ u.sizeBytes))

/-- The function for a type. -/
def unpack (msg : Bytes) (sz : ℤ) : FrameKind → Except Fault Unpacked
  | number => unpackreqNumber msg sz
  | multiNumber isPush => unpackmreqNumber msg sz isPush
  | part _ => unpackmreqPart msg sz
  | trace => unpacktrace msg sz
  | name => unpackreqString msg sz
  | multiName isPush => unpackmreqString msg sz isPush

/-- The length of the name, in the second byte. -/
def namelen (msg : Bytes) : ℕ := (msg.getD 1 0).toNat

/-- The lengths that pass the checks of a type. -/
def Accepts (msg : Bytes) (sz : ℤ) : FrameKind → Prop
  | number => 9 ≤ sz
  | multiNumber _ => sz = 13
  | part _ => 5 ≤ sz
  | trace => 1 ≤ sz
  | name => namelen msg + 6 ≤ sz
  | multiName _ => namelen msg + 10 ≤ sz

instance (msg : Bytes) (sz : ℤ) : (kind : FrameKind) → Decidable (kind.Accepts msg sz)
  | number => inferInstanceAs (Decidable (9 ≤ sz))
  | multiNumber _ => inferInstanceAs (Decidable (sz = 13))
  | part _ => inferInstanceAs (Decidable (5 ≤ sz))
  | trace => inferInstanceAs (Decidable (1 ≤ sz))
  | name => inferInstanceAs (Decidable (namelen msg + 6 ≤ sz))
  | multiName _ => inferInstanceAs (Decidable (namelen msg + 10 ≤ sz))

/-- The bytes that are read of a frame of a length that is accepted. -/
def consumed (msg : Bytes) (sz : ℤ) : FrameKind → ℕ
  | multiName _ => namelen msg + 10
  | _ => sz.toNat

end FrameKind

/-- The length of a frame, as an `int`. -/
def intLength (msg : Bytes) : ℤ := toInt32 msg.length

/-- The dispatch of `lunpackrequest` is that on the types. -/
theorem lunpackrequest_eq {msg : Bytes} (h : intLength msg ≠ 0) {kind : FrameKind}
    (hkind : frameKind (msg.headD 0) = some kind) :
    lunpackrequest msg = kind.unpack msg (intLength msg) := by
  rw [intLength] at h ⊢
  simp only [lunpackrequest, if_neg h]
  unfold frameKind at hkind
  split at hkind <;> cases hkind <;> simp_all [FrameKind.unpack]

/-- A length that is zero as an `int` is refused. -/
theorem lunpackrequest_eq_of_zero {msg : Bytes} (h : intLength msg = 0) :
    ∃ message, lunpackrequest msg = .error (.raised message) := by
  rw [intLength] at h
  refine ⟨"Invalid req package. size == 0", ?_⟩
  rw [lunpackrequest, h, if_pos rfl]

/-- Any other first byte is refused. -/
theorem lunpackrequest_eq_of_none {msg : Bytes} (h : intLength msg ≠ 0)
    (hkind : frameKind (msg.headD 0) = none) :
    ∃ message, lunpackrequest msg = .error (.raised message) := by
  rw [intLength] at h
  simp only [lunpackrequest, if_neg h]
  -- the last branch is left: the others are types
  split
  case h_10 => exact ⟨_, rfl⟩
  all_goals
    next hbyte =>
      rw [hbyte] at hkind
      cases hkind

namespace FrameKind

/-- The first byte of a type. -/
def type : FrameKind → UInt8
  | number => 0
  | multiNumber isPush => if isPush then 0x41 else 1
  | part last => if last then 3 else 2
  | trace => 4
  | name => 0x80
  | multiName isPush => if isPush then 0xc1 else 0x81

theorem type_of_frameKind {type : UInt8} {kind : FrameKind} (h : frameKind type = some kind) :
    kind.type = type := by
  unfold frameKind at h
  split at h <;> cases h <;> rfl

/-! ### Lengths that are accepted -/

section Accepts

variable {msg : Bytes} {n : ℕ}

private theorem unpackUint32_of_le {off : ℕ} (h : off + 4 ≤ msg.length) :
    unpackUint32 msg off = .ok (leNat (slice msg off 4)) := by
  rw [unpackUint32, readAt_of_le h, ok_bind, pure_eq_ok]

private theorem returnBuffer_of_le {off len : ℕ} {sz : ℤ} (hsz : sz = len) (hlen : len < 2 ^ 31)
    (h : off + len ≤ msg.length) : returnBuffer msg off sz = .ok (slice msg off len) := by
  subst hsz
  rw [returnBuffer, toSizeT_of_lt (by omega) (by omega), Int.toNat_natCast, readAt_of_le h]

/-- The length of the name is the second byte. -/
private theorem readAt_namelen (h : 2 ≤ msg.length) :
    readAt msg 1 1 = .ok [UInt8.ofNat (namelen msg)] := by
  rw [readAt_of_le (by omega)]
  obtain ⟨type, len, rest, rfl⟩ : ∃ type len rest, msg = type :: len :: rest := by
    rcases msg with _ | ⟨type, _ | ⟨len, rest⟩⟩
    · simp at h
    · simp at h
    · exact ⟨type, len, rest, rfl⟩
  simp [slice, namelen]

private theorem unpack_number (hle : n ≤ msg.length) (hlt : n < 2 ^ 31) (h : 9 ≤ n) :
    ∃ u, unpackreqNumber msg n = .ok u ∧ number.write u = 0 :: slice msg 1 (n - 1) := by
  have hmsg : returnBuffer msg 9 ((n : ℤ) - 9) = .ok (slice msg 9 (n - 9)) :=
    returnBuffer_of_le (by omega) (by omega) (by omega)
  refine ⟨⟨.number (leNat (slice msg 1 4)), some (leNat (slice msg 5 4)),
    some (slice msg 9 (n - 9)), n - 9, false, decide (leNat (slice msg 5 4) = 0)⟩, ?_, ?_⟩
  · rw [unpackreqNumber, if_neg (by omega), unpackUint32_of_le (by omega),
      unpackUint32_of_le (by omega), hmsg]
    simp only [ok_bind, pure_eq_ok]
  · simp only [write, Unpacked.addrBytes, Unpacked.sessionBytes, Unpacked.msgBytes,
      Int.toNat_natCast, Option.elim_some, Option.getD_some]
    rw [leBytes_leNat_slice (by omega), leBytes_leNat_slice (by omega),
      slice_append_slice msg 4 _ rfl, slice_append_slice msg 4 _ rfl]
    congr 2
    omega

private theorem unpack_multiNumber (isPush : Bool) (hle : 13 ≤ msg.length) :
    ∃ u, unpackmreqNumber msg 13 isPush = .ok u ∧
      (multiNumber isPush).write u = (multiNumber isPush).type :: slice msg 1 12 := by
  refine ⟨⟨.number (leNat (slice msg 1 4)), some (leNat (slice msg 5 4)), none,
    leNat (slice msg 9 4), true, isPush⟩, ?_, ?_⟩
  · rw [unpackmreqNumber, if_neg (by decide), unpackUint32_of_le (by omega),
      unpackUint32_of_le (by omega), unpackUint32_of_le (by omega)]
    simp only [ok_bind, pure_eq_ok]
  · simp only [write, type, Unpacked.addrBytes, Unpacked.sessionBytes, Unpacked.sizeBytes,
      Int.toNat_natCast, Option.elim_some]
    rw [leBytes_leNat_slice (by omega), leBytes_leNat_slice (by omega),
      leBytes_leNat_slice (by omega), slice_append_slice msg 4 _ rfl,
      slice_append_slice msg 4 _ rfl]

private theorem unpack_part (last : Bool) (hle : n ≤ msg.length) (hlt : n < 2 ^ 31) (h : 5 ≤ n) :
    ∃ u, unpackmreqPart msg n = .ok u ∧
      (part last).write u = (part last).type :: slice msg 1 (n - 1) := by
  have hmsg : returnBuffer msg 5 ((n : ℤ) - 5) = .ok (slice msg 5 (n - 5)) :=
    returnBuffer_of_le (by omega) (by omega) (by omega)
  refine ⟨⟨.boolean false, some (leNat (slice msg 1 4)), some (slice msg 5 (n - 5)), n - 5,
    decide (slice msg 0 1 = [2]), false⟩, ?_, ?_⟩
  · rw [unpackmreqPart, if_neg (by omega), readAt_of_le (by omega),
      unpackUint32_of_le (by omega), hmsg]
    simp only [ok_bind, pure_eq_ok]
  · simp only [write, type, Unpacked.sessionBytes, Unpacked.msgBytes, Option.elim_some,
      Option.getD_some]
    rw [leBytes_leNat_slice (by omega), slice_append_slice msg 4 _ rfl]
    congr 2
    omega

private theorem unpack_trace (hle : n ≤ msg.length) (hlt : n < 2 ^ 31) (h : 1 ≤ n) :
    ∃ u, unpacktrace msg n = .ok u ∧ trace.write u = 4 :: slice msg 1 (n - 1) := by
  have hsz : toSizeT ((n : ℤ) - 1) = n - 1 := by
    rw [toSizeT_of_lt (by omega) (by omega)]
    omega
  refine ⟨⟨.string (slice msg 1 (n - 1)), none, none, 0, false, false⟩, ?_, rfl⟩
  rw [unpacktrace, hsz, pushlstring, if_neg (by omega), readAt_of_le (by omega)]
  simp only [ok_bind, pure_eq_ok]

/-- The length of the name, the name and the session, one behind the other. -/
private theorem namelen_cons (hname : namelen msg + 6 ≤ msg.length) (rest : Bytes) :
    UInt8.ofNat (slice msg 2 (namelen msg)).length :: (slice msg 2 (namelen msg) ++
        (leBytes 4 (leNat (slice msg (namelen msg + 2) 4)) ++ rest)) =
      slice msg 1 (namelen msg + 5) ++ rest := by
  have hlen : [UInt8.ofNat (namelen msg)] = slice msg 1 1 := by
    have hread := (readAt_of_le (by omega)).symm.trans (@readAt_namelen msg (by omega))
    exact (Except.ok.inj hread).symm
  rw [length_slice (by omega), leBytes_leNat_slice (by omega), ← List.singleton_append, hlen,
    ← List.append_assoc, ← List.append_assoc, slice_append_slice msg 1 _ rfl,
    slice_append_slice msg _ 4 (by omega)]
  congr 2
  omega

private theorem unpack_name (hle : n ≤ msg.length) (hlt : n < 2 ^ 31)
    (h : namelen msg + 6 ≤ n) :
    ∃ u, unpackreqString msg n = .ok u ∧ name.write u = 0x80 :: slice msg 1 (n - 1) := by
  have hname : leNat [UInt8.ofNat (namelen msg)] = namelen msg := by
    simp [leNat, namelen]
  have hfit : ¬ toSizeT n < namelen msg + 6 := by
    rw [toSizeT_of_lt (by omega) (by omega)]
    omega
  have hsize : toInt32 (toSizeT ((n : ℤ) - namelen msg - 6)) = (n - namelen msg - 6 : ℕ) := by
    rw [toSizeT_of_lt (by omega) (by omega), toInt32_of_lt (by omega) (by omega)]
    omega
  have hmsg : returnBuffer msg (2 + namelen msg + 4) (n - namelen msg - 6 : ℕ) =
      .ok (slice msg (namelen msg + 6) (n - namelen msg - 6)) := by
    rw [show 2 + namelen msg + 4 = namelen msg + 6 by omega]
    exact returnBuffer_of_le rfl (by omega) (by omega)
  refine ⟨⟨.string (slice msg 2 (namelen msg)), some (leNat (slice msg (namelen msg + 2) 4)),
    some (slice msg (namelen msg + 6) (n - namelen msg - 6)), (n - namelen msg - 6 : ℕ), false,
    decide (leNat (slice msg (namelen msg + 2) 4) = 0)⟩, ?_, ?_⟩
  · simp only [unpackreqString, if_neg (show ¬ (n : ℤ) < 2 by omega),
      readAt_namelen (show 2 ≤ msg.length by omega), ok_bind, hname, if_neg hfit,
      readAt_of_le (show 2 + namelen msg ≤ msg.length by omega),
      unpackUint32_of_le (show namelen msg + 2 + 4 ≤ msg.length by omega), hsize, hmsg, pure_eq_ok]
  · simp only [write, Unpacked.addrBytes, Unpacked.sessionBytes, Unpacked.msgBytes,
      Option.elim_some, Option.getD_some]
    rw [namelen_cons (show namelen msg + 6 ≤ msg.length by omega),
      slice_append_slice msg _ _ (show namelen msg + 6 = 1 + (namelen msg + 5) by omega),
      show namelen msg + 5 + (n - namelen msg - 6) = n - 1 by omega]

private theorem unpack_multiName (isPush : Bool) (hle : n ≤ msg.length) (hlt : n < 2 ^ 31)
    (h : namelen msg + 10 ≤ n) :
    ∃ u, unpackmreqString msg n isPush = .ok u ∧
      (multiName isPush).write u =
        (multiName isPush).type :: slice msg 1 (namelen msg + 9) := by
  have hname : leNat [UInt8.ofNat (namelen msg)] = namelen msg := by
    simp [leNat, namelen]
  have hfit : ¬ toSizeT n < namelen msg + 10 := by
    rw [toSizeT_of_lt (by omega) (by omega)]
    omega
  refine ⟨⟨.string (slice msg 2 (namelen msg)), some (leNat (slice msg (namelen msg + 2) 4)),
    none, leNat (slice msg (namelen msg + 6) 4), true, isPush⟩, ?_, ?_⟩
  · simp only [unpackmreqString, if_neg (show ¬ (n : ℤ) < 2 by omega),
      readAt_namelen (show 2 ≤ msg.length by omega), ok_bind, hname, if_neg hfit,
      readAt_of_le (show 2 + namelen msg ≤ msg.length by omega),
      unpackUint32_of_le (show namelen msg + 2 + 4 ≤ msg.length by omega),
      unpackUint32_of_le (show namelen msg + 6 + 4 ≤ msg.length by omega), pure_eq_ok]
  · simp only [write, type, Unpacked.addrBytes, Unpacked.sessionBytes, Unpacked.sizeBytes,
      Option.elim_some, Int.toNat_natCast]
    rw [leBytes_leNat_slice (show namelen msg + 6 + 4 ≤ msg.length by omega),
      namelen_cons (show namelen msg + 6 ≤ msg.length by omega),
      slice_append_slice msg _ _ (show namelen msg + 6 = 1 + (namelen msg + 5) by omega)]

/-- What is returned for a length that is accepted, written in the layout of the type, is what
was read. -/
theorem unpack_of_accepts {kind : FrameKind} (hle : n ≤ msg.length) (hlt : n < 2 ^ 31)
    (h : kind.Accepts msg n) :
    ∃ u, kind.unpack msg n = .ok u ∧
      kind.write u = kind.type :: slice msg 1 (kind.consumed msg n - 1) := by
  cases kind with
  | number => exact unpack_number hle hlt (by simp only [Accepts] at h; omega)
  | multiNumber isPush =>
    obtain rfl : n = 13 := by simp only [Accepts] at h; omega
    exact unpack_multiNumber isPush hle
  | part last => exact unpack_part last hle hlt (by simp only [Accepts] at h; omega)
  | trace => exact unpack_trace hle hlt (by simp only [Accepts] at h; omega)
  | name => exact unpack_name hle hlt (by simp only [Accepts] at h; omega)
  | multiName isPush =>
    exact unpack_multiName isPush hle hlt (by simp only [Accepts] at h; omega)

/-- Any other length is refused with an error. -/
theorem unpack_of_not_accepts {kind : FrameKind} {sz : ℤ} (hle : sz ≤ msg.length)
    (hrange : -2 ^ 31 ≤ sz ∧ sz < 2 ^ 31) (h : ¬ kind.Accepts msg sz) :
    ∃ message, kind.unpack msg sz = .error (.raised message) := by
  -- a name is only looked for in a frame of two bytes
  have hname : leNat [UInt8.ofNat (namelen msg)] = namelen msg := by
    simp [leNat, namelen]
  simp only [Accepts] at h
  cases kind with
  | number => exact ⟨_, if_pos (by simpa using h)⟩
  | multiNumber isPush => exact ⟨_, if_pos h⟩
  | part last => exact ⟨_, if_pos (by simpa using h)⟩
  | trace =>
    have hhuge : 2 ^ 63 ≤ toSizeT (sz - 1) := by
      unfold toSizeT
      simp only at h
      omega
    refine ⟨"memory allocation error: block too big", ?_⟩
    rw [unpack, unpacktrace, pushlstring, if_pos hhuge, error_bind]
  | name =>
    rcases lt_or_ge sz 2 with hlt | hge
    · exact ⟨_, if_pos hlt⟩
    · have hshort : toSizeT sz < namelen msg + 6 := by
        rw [toSizeT_of_lt (by omega) (by omega)]
        simp only at h
        omega
      refine ⟨s!"Invalid cluster message (size={sz})", ?_⟩
      simp only [unpack, unpackreqString, if_neg (show ¬ sz < 2 by omega),
        readAt_namelen (show 2 ≤ msg.length by omega), ok_bind, hname, if_pos hshort]
  | multiName isPush =>
    rcases lt_or_ge sz 2 with hlt | hge
    · exact ⟨_, if_pos hlt⟩
    · have hshort : toSizeT sz < namelen msg + 10 := by
        rw [toSizeT_of_lt (by omega) (by omega)]
        simp only at h
        omega
      refine ⟨s!"Invalid cluster message (size={sz})", ?_⟩
      simp only [unpack, unpackmreqString, if_neg (show ¬ sz < 2 by omega),
        readAt_namelen (show 2 ≤ msg.length by omega), ok_bind, hname, if_pos hshort]

end Accepts

end FrameKind

/-! ### Canonical frames -/

/-- **What becomes of a frame.** It is refused with an error, unless its first byte is a type
that accepts its length; then what is returned, written in the layout of the type, are the
bytes that the type consumes. -/
theorem lunpackrequest_cases {msg : Bytes} (h : msg ≠ []) :
    (∃ message, lunpackrequest msg = .error (.raised message)) ∧
        (∀ kind, frameKind (msg.headD 0) = some kind → ¬ kind.Accepts msg (intLength msg)) ∨
      ∃ kind u, frameKind (msg.headD 0) = some kind ∧ kind.Accepts msg (intLength msg) ∧
        lunpackrequest msg = .ok u ∧
        kind.write u = msg.take (kind.consumed msg (intLength msg)) := by
  have hrange : -2 ^ 31 ≤ intLength msg ∧ intLength msg < 2 ^ 31 := toInt32_range _
  have hle : intLength msg ≤ msg.length := toInt32_natCast_le msg.length
  by_cases hzero : intLength msg = 0
  · refine Or.inl ⟨lunpackrequest_eq_of_zero hzero, fun kind _ => ?_⟩
    rw [hzero]
    cases kind <;> simp only [FrameKind.Accepts] <;> omega
  · cases hkind : frameKind (msg.headD 0) with
    | none => exact Or.inl ⟨lunpackrequest_eq_of_none hzero hkind, by simp⟩
    | some kind =>
      rw [lunpackrequest_eq hzero hkind]
      by_cases haccepts : kind.Accepts msg (intLength msg)
      · right
        have hpos : 1 ≤ intLength msg := by
          cases kind <;> simp only [FrameKind.Accepts] at haccepts <;> omega
        obtain ⟨n, hn⟩ : ∃ n : ℕ, intLength msg = n := ⟨_, (Int.toNat_of_nonneg (by omega)).symm⟩
        rw [hn] at haccepts hle hrange
        obtain ⟨u, hunpack, hwrite⟩ := FrameKind.unpack_of_accepts (by omega) (by omega) haccepts
        rw [hn]
        refine ⟨kind, u, rfl, haccepts, hunpack, ?_⟩
        -- the first byte is that of the type
        have hconsumed : 1 ≤ kind.consumed msg n := by
          cases kind <;> simp only [FrameKind.consumed] <;> omega
        rw [hwrite, FrameKind.type_of_frameKind hkind]
        obtain ⟨type, rest, rfl⟩ := List.exists_cons_of_ne_nil h
        obtain ⟨k, hk⟩ := Nat.exists_eq_add_of_le' hconsumed
        rw [hk, List.take_succ_cons]
        rfl
      · left
        refine ⟨FrameKind.unpack_of_not_accepts hle hrange haccepts, fun kind' hkind' => ?_⟩
        rwa [← Option.some.inj hkind']

/-- A frame is refused with an error, or it is read inside its bounds and what is returned,
written in the layout of its type, is the frame. -/
structure Canonical (msg : Bytes) : Prop where
  inside : ∀ fault, lunpackrequest msg = .error fault → ∃ message, fault = .raised message
  written : ∀ u, lunpackrequest msg = .ok u →
    ∃ kind, frameKind (msg.headD 0) = some kind ∧ kind.write u = msg

/-- A length that the type of the frame accepts is consumed as a whole: it is below `2 ^ 31`,
and a header with a name ends with its size. -/
def Whole (msg : Bytes) : Prop :=
  ∀ kind, frameKind (msg.headD 0) = some kind → kind.Accepts msg (intLength msg) →
    kind.consumed msg (intLength msg) = msg.length

section Canonical

variable {msg : Bytes}

theorem canonical_of_raised {message : String}
    (h : lunpackrequest msg = .error (.raised message)) : Canonical msg := by
  constructor
  · intro fault hfault
    rw [h] at hfault
    exact ⟨message, (Except.error.inj hfault).symm⟩
  · intro u hu
    rw [h] at hu
    cases hu

theorem canonical_iff_of_ok {u : Unpacked} {kind : FrameKind} (h : lunpackrequest msg = .ok u)
    (hkind : frameKind (msg.headD 0) = some kind) : Canonical msg ↔ kind.write u = msg := by
  constructor
  · intro hcanonical
    obtain ⟨kind', hkind', hwrite⟩ := hcanonical.written u h
    obtain rfl : kind = kind' := Option.some.inj (hkind.symm.trans hkind')
    exact hwrite
  · intro hwrite
    constructor
    · intro fault hfault
      rw [h] at hfault
      cases hfault
    · intro u' hu'
      obtain rfl : u = u' := Except.ok.inj (h.symm.trans hu')
      exact ⟨kind, hkind, hwrite⟩

private theorem take_eq_self_iff {k : ℕ} (h : k ≤ msg.length) :
    msg.take k = msg ↔ k = msg.length := by
  constructor
  · intro htake
    have hlength := congrArg List.length htake
    rw [List.length_take] at hlength
    omega
  · rintro rfl
    exact List.take_length

/-- **Canonical frames.** A frame that is not empty is canonical exactly if it is consumed as
a whole where its length is accepted. -/
theorem canonical_iff (h : msg ≠ []) : Canonical msg ↔ Whole msg := by
  rcases lunpackrequest_cases h with ⟨⟨message, hrefused⟩, hnone⟩ |
    ⟨kind, u, hkind, haccepts, hunpack, hwrite⟩
  · exact iff_of_true (canonical_of_raised hrefused)
      fun kind hkind haccepts => absurd haccepts (hnone kind hkind)
  · have hle : kind.consumed msg (intLength msg) ≤ msg.length := by
      have hlength : intLength msg ≤ msg.length := toInt32_natCast_le msg.length
      cases kind <;> simp only [FrameKind.consumed, FrameKind.Accepts] at haccepts ⊢ <;> omega
    rw [canonical_iff_of_ok hunpack hkind, hwrite, take_eq_self_iff hle]
    constructor
    · intro hwhole kind' hkind' _
      obtain rfl : kind = kind' := Option.some.inj (hkind.symm.trans hkind')
      exact hwhole
    · exact fun hall => hall kind hkind haccepts

/-- A part of two bytes. -/
theorem canonical_iff_part : Canonical [3, 1, 0, 0, 0, 7, 8] ↔ Whole [3, 1, 0, 0, 0, 7, 8] :=
  canonical_iff (by decide)

/-- A header with the name `a` and one byte behind its size: the byte is ignored, and the
frame is not canonical. The header with a number refuses it. -/
theorem trailing_byte_ignored :
    lunpackrequest [0x81, 1, 0x61, 1, 0, 0, 0, 2, 0, 0, 0, 9] =
      lunpackrequest [0x81, 1, 0x61, 1, 0, 0, 0, 2, 0, 0, 0] ∧
    ¬ Canonical [0x81, 1, 0x61, 1, 0, 0, 0, 2, 0, 0, 0, 9] ∧
    lunpackrequest [1, 5, 0, 0, 0, 1, 0, 0, 0, 2, 0, 0, 0, 9] =
      .error (.raised "Invalid cluster message size 14 (multi req must be 13)") := by
  refine ⟨by decide, ?_, by decide⟩
  rintro ⟨-, hwritten⟩
  obtain ⟨kind, hkind, hwrite⟩ :=
    hwritten ⟨.string [0x61], some 1, none, 2, true, false⟩ (by decide)
  -- the name, the session and the size are written back, the last byte is not
  obtain rfl : FrameKind.multiName false = kind := Option.some.inj hkind
  exact absurd hwrite (by decide)

end Canonical

end TestCluster.BeeCluster
