import TestCluster.Common.Compress

/-!
# When packing fails

The functions that pack a message ignore whether the fields of the encoder could be filled,
and pack what is there. A packet is therefore emitted for a message that does not serialize
or compress, with an empty name, and for a packet whose length does not match.

## Main definitions

* `Encoder`, `Encoder.emit`, `Encoder.packet` — the packers, and the layouts of their packets
* `Rejected` — nothing is packed
* `Sealed`, `RowSealed` — nothing is packed when packing fails, and what has the compress bit
  is compressed

## Main results

* `Encoder.emit_of_lt`, `Encoder.emit_of_ge` — a packet is emitted when its size fits 32 bits
* `sealed_iff` — when the five functions are sealed
-/

namespace TestCluster.Common

open Semantics

namespace OutPack

variable {o : OutPack} {buf : Buffer} {off : ℕ} {roomid : Int32}

/-- A block that is too small is overrun. -/
theorem fillBody_overflow (h : buf.size < off + (6 + o.typeName.length + o.pbData.length)) :
    o.fillBody buf off roomid = .error .outOfBounds := by
  refine Buffer.write_bind_outOfBounds fun b₁ h₁ => ?_
  refine Buffer.write_bind_outOfBounds fun b₂ h₂ => ?_
  refine Buffer.write_bind_outOfBounds fun b₃ h₃ => ?_
  -- the data is what does not fit at last
  exact if_neg (by rw [h₃, h₂, h₁, kTypeNameLen, kRoomidLen]; omega)

end OutPack

/-- The ways to pack a message. -/
inductive Encoder
  | client (subType : UInt32)
  | inner (uid : UInt64)
  | innerType (uid : UInt64) (type : UInt32)
  deriving DecidableEq, Repr

namespace Encoder

/-- What is emitted of a message with its fields filled in. -/
def emit (o : OutPack) (roomid : Int32) : Encoder → Except Fault (Option Bytes)
  | client subType => o.newOutpack subType roomid
  | inner uid => some <$> o.newInnerpack uid roomid
  | innerType uid type => some <$> o.newInnerpackType uid type roomid

/-- The bytes in front of a body of `len` bytes; `none` when nothing is packed. -/
def head (len : ℕ) : Encoder → Option Bytes
  | client subType =>
    if subType = 0 then some (beBytes 4 len)
    else if subType = subtypeAgent then some (beBytes 4 subtypeAgent.toNat ++ beBytes 4 len)
    else none
  | inner uid => some (beBytes 8 uid.toNat)
  | innerType uid type => some (beBytes 4 type.toNat ++ beBytes 8 uid.toNat)

/-- Nothing is packed for a client with an unknown `sub_type`. -/
def Packs : Encoder → Prop
  | client subType => subType = 0 ∨ subType = subtypeAgent
  | _ => True

/-- The length of what is in front of the body. -/
def headLength : Encoder → ℕ
  | client subType => if subType = 0 then 4 else 8
  | inner _ => 8
  | innerType _ _ => 12

/-- The layout of a packet. -/
def packet (e : Encoder) (o : OutPack) (roomid : Int32) : Option Bytes :=
  (e.head (o.packBody roomid).length).map (· ++ o.packBody roomid)

variable {e : Encoder} {o : OutPack} {roomid : Int32}

theorem emit_of_not_packs (h : ¬ e.Packs) : e.emit o roomid = .ok none := by
  cases e with
  | client subType =>
    obtain ⟨hzero, hagent⟩ := not_or.mp h
    rw [emit, OutPack.newOutpack, if_neg hzero, if_neg hagent]
  | inner uid => exact absurd trivial h
  | innerType uid type => exact absurd trivial h

/-- A packet whose size fits 32 bits is emitted. -/
theorem emit_of_lt (hpacks : e.Packs)
    (h : e.headLength + (6 + o.typeName.length + o.pbData.length) < 2 ^ 32) :
    ∃ bytes, e.packet o roomid = some bytes ∧ e.emit o roomid = .ok (some bytes) := by
  cases e with
  | client subType =>
    rcases hpacks with rfl | rfl
    · have hlt : 4 + (6 + o.typeName.length + o.pbData.length) < 2 ^ 32 := h
      exact ⟨_, rfl, OutPack.newOutpack_eq roomid (by omega)⟩
    · have hlt : 8 + (6 + o.typeName.length + o.pbData.length) < 2 ^ 32 := h
      refine ⟨_, rfl, ?_⟩
      rw [emit, OutPack.newOutpack_agent_eq roomid (by omega), ← List.append_assoc]
  | inner uid =>
    have hlt : 8 + (6 + o.typeName.length + o.pbData.length) < 2 ^ 32 := h
    refine ⟨_, rfl, ?_⟩
    rw [emit, OutPack.newInnerpack_eq uid roomid (by omega)]
    rfl
  | innerType uid type =>
    have hlt : 12 + (6 + o.typeName.length + o.pbData.length) < 2 ^ 32 := h
    refine ⟨_, rfl, ?_⟩
    rw [emit, OutPack.newInnerpackType_eq uid type roomid (by omega), OutPack.innerBody,
      ← List.append_assoc]
    rfl

/-- A packet whose size does not fit is written past its block. -/
theorem emit_of_ge (hpacks : e.Packs)
    (h : 2 ^ 32 ≤ e.headLength + (6 + o.typeName.length + o.pbData.length)) :
    e.emit o roomid = .error .outOfBounds := by
  -- the size wraps around, and the block is smaller than what is written
  have hwrap : ∀ n k : ℕ, toUInt32 (toInt32 n + k) = (n + k) % 2 ^ 32 := by
    intro n k
    simp only [toUInt32, toInt32, Int.bmod]
    split_ifs <;> omega
  have hwrap' : ∀ n : ℕ, toUInt32 (toInt32 n) = n % 2 ^ 32 := fun n => by simpa using hwrap n 0
  have hsize : ∀ n, n % 2 ^ 32 < 2 ^ 62 := fun n =>
    lt_trans (Nat.mod_lt n (by decide)) (by decide)
  cases e with
  | client subType =>
    rcases hpacks with rfl | rfl
    · have hge : 2 ^ 32 ≤ 4 + (6 + o.typeName.length + o.pbData.length) := h
      rw [emit, OutPack.newOutpack, if_pos rfl]
      simp only [kMessageLen, hwrap, skynetMalloc_of_lt (hsize _), ok_bind]
      refine Buffer.write_bind_outOfBounds fun b hb => ?_
      rw [OutPack.fillBody_overflow, error_bind]
      rw [hb, Buffer.size_alloc, kTypeNameLen, kRoomidLen]
      omega
    · have hge : 2 ^ 32 ≤ 8 + (6 + o.typeName.length + o.pbData.length) := h
      have hagent : ∀ n : ℕ, toUInt32 (toInt32 n + 4 + (4 : ℕ)) = (n + 8) % 2 ^ 32 := by
        intro n
        rw [Int.add_assoc]
        exact hwrap n 8
      rw [emit, OutPack.newOutpack, if_neg (by decide), if_pos rfl]
      simp only [kMessageLen, hagent, skynetMalloc_of_lt (hsize _), ok_bind]
      refine Buffer.write_bind_outOfBounds fun b₁ h₁ => ?_
      refine Buffer.write_bind_outOfBounds fun b₂ h₂ => ?_
      rw [OutPack.fillBody_overflow, error_bind]
      rw [h₂, h₁, Buffer.size_alloc, kTypeNameLen, kRoomidLen]
      omega
  | inner uid =>
    have hge : 2 ^ 32 ≤ 8 + (6 + o.typeName.length + o.pbData.length) := h
    rw [emit, OutPack.newInnerpack]
    simp only [hwrap', skynetMalloc_of_lt (hsize _), ok_bind]
    rw [Buffer.write_bind_outOfBounds fun b hb => ?_]
    · rfl
    · rw [OutPack.fillBody_overflow, error_bind]
      rw [hb, Buffer.size_alloc, kTypeNameLen, kRoomidLen]
      omega
  | innerType uid type =>
    have hge : 2 ^ 32 ≤ 12 + (6 + o.typeName.length + o.pbData.length) := h
    rw [emit, OutPack.newInnerpackType]
    simp only [hwrap', skynetMalloc_of_lt (hsize _), ok_bind]
    rw [Buffer.write_bind_outOfBounds fun b₁ h₁ => ?_]
    · rfl
    · refine Buffer.write_bind_outOfBounds fun b₂ h₂ => ?_
      rw [OutPack.fillBody_overflow, error_bind]
      rw [h₂, h₁, Buffer.size_alloc, kTypeNameLen, kRoomidLen]
      omega

/-- A packet that is emitted has its layout. -/
theorem packet_of_emit {bytes : Bytes} (h : e.emit o roomid = .ok (some bytes)) :
    e.packet o roomid = some bytes := by
  by_cases hpacks : e.Packs
  · rcases lt_or_ge (e.headLength + (6 + o.typeName.length + o.pbData.length)) (2 ^ 32) with
      hlt | hge
    · obtain ⟨bytes', hpacket, hemit⟩ := @emit_of_lt e o roomid hpacks hlt
      rw [hemit] at h
      rw [hpacket, Option.some.inj (Except.ok.inj h)]
    · rw [emit_of_ge hpacks hge] at h
      cases h
  · rw [emit_of_not_packs hpacks] at h
    cases h

private theorem head_of_packs (hpacks : e.Packs) (len : ℕ) :
    ∃ bytes, e.head len = some bytes ∧ bytes.length = e.headLength := by
  cases e with
  | client subType =>
    rcases hpacks with rfl | rfl
    · exact ⟨beBytes 4 len, rfl, length_beBytes 4 len⟩
    · exact ⟨beBytes 4 subtypeAgent.toNat ++ beBytes 4 len, rfl, by simp [headLength, subtypeAgent]⟩
  | inner uid => exact ⟨beBytes 8 uid.toNat, rfl, length_beBytes 8 _⟩
  | innerType uid type =>
    exact ⟨beBytes 4 type.toNat ++ beBytes 8 uid.toNat, rfl, by simp [headLength]⟩

/-- The layout keeps the data. -/
theorem packet_inj {typeName data data' : Bytes} (hpacks : e.Packs)
    (h : e.packet ⟨typeName, data⟩ roomid = e.packet ⟨typeName, data'⟩ roomid) : data = data' := by
  obtain ⟨head, hhead, hlen⟩ :=
    head_of_packs hpacks (OutPack.packBody ⟨typeName, data⟩ roomid).length
  obtain ⟨head', hhead', hlen'⟩ :=
    head_of_packs hpacks (OutPack.packBody ⟨typeName, data'⟩ roomid).length
  rw [packet, packet, hhead, hhead', Option.map_some, Option.map_some, Option.some.injEq] at h
  have hbody := (List.append_inj h (by rw [hlen, hlen'])).2
  simp only [OutPack.packBody, List.append_cancel_left_eq] at hbody
  exact hbody

end Encoder

/-- Nothing is packed: no packet is made, or an exception is thrown. Leaving a buffer is no
rejection. -/
def Rejected (emitted : Except Fault (Option Bytes)) : Prop :=
  emitted = .ok none ∨ ∃ message, emitted = .error (.raised message)

theorem not_rejected_some (packet : Bytes) : ¬ Rejected (.ok (some packet)) := by
  rintro (h | ⟨message, h⟩)
  · cases h
  · cases h

theorem not_rejected_outOfBounds : ¬ Rejected (.error .outOfBounds) := by
  rintro (h | ⟨message, h⟩)
  · cases h
  · cases h

namespace Encoder

variable {e : Encoder} {o : OutPack} {roomid : Int32}

/-- Packing itself rejects nothing. -/
theorem rejected_emit_iff : Rejected (e.emit o roomid) ↔ ¬ e.Packs := by
  constructor
  · intro hrejected hpacks
    rcases lt_or_ge (e.headLength + (6 + o.typeName.length + o.pbData.length)) (2 ^ 32) with
      hlt | hge
    · obtain ⟨bytes, -, hemit⟩ := @emit_of_lt e o roomid hpacks hlt
      rw [hemit] at hrejected
      exact not_rejected_some bytes hrejected
    · rw [emit_of_ge hpacks hge] at hrejected
      exact not_rejected_outOfBounds hrejected
  · exact fun hpacks => Or.inl (emit_of_not_packs hpacks)

end Encoder

/-! ### Messages -/

/-- The compress bit of a room. -/
def compressBit (roomid : Int32) : Bool := roomid.toBitVec.getLsbD 31

/-- What is emitted of a message: nothing when it does not serialize, or when it is to be
compressed and that fails; and a packet with the compress bit has the compressed message and
its type name. -/
structure Sealed (zlib : Bytes → Option Bytes) (msg : Message) (compress : Bool) (e : Encoder)
    (roomid : Int32) (emitted : Except Fault (Option Bytes)) : Prop where
  serialized : msg.serialized = none → Rejected emitted
  compressed : ∀ data, msg.serialized = some data → compress = true → zlib data = none →
    Rejected emitted
  carries : ∀ packet, emitted = .ok (some packet) → compressBit roomid = true →
    ∃ data output, msg.serialized = some data ∧ zlib data = some output ∧
      e.packet ⟨msg.typeName, output⟩ roomid = some packet

/-- Nothing can be packed, or the message serializes; and then the compress bit is not set,
the message is its own compression or no packet has room for it. -/
def Plain (zlib : Bytes → Option Bytes) (msg : Message) (e : Encoder) (roomid : Int32) : Prop :=
  ¬ e.Packs ∨ ∃ data, msg.serialized = some data ∧
    (compressBit roomid = false ∨ zlib data = some data ∨
      2 ^ 32 ≤ e.headLength + (6 + msg.typeName.length + data.length))

/-- The message serializes and compresses. -/
def Compresses (zlib : Bytes → Option Bytes) (msg : Message) : Prop :=
  ∃ data output, msg.serialized = some data ∧ zlib data = some output

section Messages

variable {zlib : Bytes → Option Bytes} {msg : Message} {e : Encoder} {roomid : Int32}

/-- A message that serializes and is packed without compression. -/
theorem sealed_iff_of_serialized {data : Bytes} (hpacks : e.Packs)
    (hserialized : msg.serialized = some data) :
    Sealed zlib msg false e roomid (e.emit ⟨msg.typeName, data⟩ roomid) ↔
      compressBit roomid = false ∨ zlib data = some data ∨
        2 ^ 32 ≤ e.headLength + (6 + msg.typeName.length + data.length) := by
  constructor
  · intro h
    by_contra hfails
    obtain ⟨hbit, hself, hfit⟩ : compressBit roomid = true ∧ ¬ zlib data = some data ∧
        e.headLength + (6 + msg.typeName.length + data.length) < 2 ^ 32 := by
      simpa [not_or] using hfails
    -- a packet is emitted whose data is not compressed
    obtain ⟨bytes, hpacket, hemit⟩ :=
      @Encoder.emit_of_lt e ⟨msg.typeName, data⟩ roomid hpacks hfit
    obtain ⟨data', output, hdata', hz, hcarried⟩ := h.carries bytes hemit hbit
    obtain rfl : data = data' := Option.some.inj (hserialized.symm.trans hdata')
    have hsame : data = output := Encoder.packet_inj hpacks (hpacket.trans hcarried.symm)
    exact hself (hsame ▸ hz)
  · intro h
    refine ⟨fun hnone => ?_, fun _ _ h => absurd h Bool.false_ne_true, fun packet hemit hbit => ?_⟩
    · rw [hserialized] at hnone
      cases hnone
    · rcases h with hclear | hself | hfull
      · rw [hclear] at hbit
        cases hbit
      · exact ⟨data, data, hserialized, hself, Encoder.packet_of_emit hemit⟩
      · rw [Encoder.emit_of_ge hpacks hfull] at hemit
        cases hemit

/-- A message without compression, in any of the layouts. -/
theorem sealed_plain_iff :
    Sealed zlib msg false e roomid (e.emit (OutPack.new.reset msg).1 roomid) ↔
      Plain zlib msg e roomid := by
  by_cases hpacks : e.Packs
  · cases hserialized : msg.serialized with
    | none =>
      refine iff_of_false (fun h => ?_) ?_
      · exact (Encoder.rejected_emit_iff.mp (h.serialized hserialized)) hpacks
      · rintro (h | ⟨data, hdata, -⟩)
        · exact h hpacks
        · rw [hserialized] at hdata
          cases hdata
    | some data =>
      have hreset : (OutPack.new.reset msg).1 = ⟨msg.typeName, data⟩ := by
        rw [OutPack.reset, hserialized]
      rw [hreset, sealed_iff_of_serialized hpacks hserialized]
      constructor
      · exact fun h => Or.inr ⟨data, hserialized, h⟩
      · rintro (h | ⟨data', hdata', h⟩)
        · exact absurd hpacks h
        · obtain rfl : data = data' := Option.some.inj (hserialized.symm.trans hdata')
          exact h
  · have hnone := @Encoder.emit_of_not_packs e (OutPack.new.reset msg).1 roomid hpacks
    refine iff_of_true ⟨fun _ => Or.inl hnone, fun _ _ h => absurd h Bool.false_ne_true,
      fun packet h => ?_⟩ (Or.inl hpacks)
    rw [hnone] at h
    cases h

/-- A message with compression. -/
theorem sealed_compress_iff :
    Sealed zlib msg true (.client 0) (compressRoomid roomid)
        (serializeMsgWithCompress zlib msg roomid) ↔ Compresses zlib msg := by
  have hpacks : (Encoder.client 0).Packs := Or.inl rfl
  -- whatever the fields of the encoder are, something is emitted
  have hemitted : ¬ Rejected (serializeMsgWithCompress zlib msg roomid) := by
    have hiff := @Encoder.rejected_emit_iff (.client 0) (OutPack.new.zipReset zlib msg).1
      (compressRoomid roomid)
    rw [Encoder.emit, ← serializeMsgWithCompress] at hiff
    exact fun hrejected => hiff.mp hrejected hpacks
  constructor
  · intro h
    cases hserialized : msg.serialized with
    | none => exact absurd (h.serialized hserialized) hemitted
    | some data =>
      cases hz : zlib data with
      | none => exact absurd (h.compressed data hserialized rfl hz) hemitted
      | some output => exact ⟨data, output, hserialized, hz⟩
  · rintro ⟨data, output, hserialized, hz⟩
    refine ⟨fun hnone => ?_, fun data' hdata' _ hnone => ?_, fun packet hemit _ => ?_⟩
    · rw [hserialized] at hnone
      cases hnone
    · obtain rfl : data = data' := Option.some.inj (hserialized.symm.trans hdata')
      rw [hz] at hnone
      cases hnone
    · rw [serializeMsgWithCompress_eq hserialized hz] at hemit
      exact ⟨data, output, hserialized, hz, @Encoder.packet_of_emit (.client 0) _ _ _ hemit⟩

end Messages

/-! ### Packets that are compressed -/

/-- The length of the packet is the declared one, and the name and the room end inside. -/
def Consistent (row : Bytes) : Prop :=
  row.length = 4 + rowLength row ∧ 10 + rowNameLength row ≤ row.length

/-- The data of a packet. -/
def rowData (row : Bytes) : Bytes := row.drop (10 + rowNameLength row)

/-- What is emitted of a packet: nothing when it is not consistent or its data does not
compress; else its compressed data, with its type name. -/
structure RowSealed (zlib : Bytes → Option Bytes) (row : Bytes)
    (emitted : Except Fault (Option Bytes)) : Prop where
  failed : (Consistent row → zlib (rowData row) = none) → Rejected emitted
  carries : ∀ packet, emitted = .ok (some packet) →
    ∃ output, zlib (rowData row) = some output ∧
      (Encoder.client 0).packet ⟨rowName row, output⟩ (compressRoomid (rowRoomid row)) =
        some packet

/-- The packet is consistent and its data compresses. -/
def RowCompresses (zlib : Bytes → Option Bytes) (row : Bytes) : Prop :=
  Consistent row ∧ ∃ output, zlib (rowData row) = some output

/-- The packet has its name and its room, and the length that is left for its data is
negative. -/
def Negative (row : Bytes) : Prop :=
  10 + rowNameLength row ≤ row.length + 1 ∧ rowDataLength row < 0

section Rows

variable {zlib : Bytes → Option Bytes} {row : Bytes}

/-- A packet whose name or room runs past its end is read out of bounds. -/
theorem zipResetRow_short {o : OutPack} (h : row.length + 1 < 10 + rowNameLength row) :
    o.zipResetRow zlib row = .error .outOfBounds := by
  have hlen : (row ++ [0]).length = row.length + 1 := by simp
  have hfail : ∀ {off len : ℕ}, row.length + 1 < off + len →
      readAt (row ++ [0]) off len = .error .outOfBounds := by
    intro off len hlt
    rw [readAt, if_neg (by omega)]
  -- for any length of the name, the name or the room ends outside
  have hrest : ∀ (n : ℕ) (k : Bytes → Bytes → Except Fault (OutPack × Int32 × Bool)), n < 2 ^ 62 →
      row.length + 1 < 10 + n →
      (do
        let typeName ← copyName (← readAt (row ++ [0]) (kMessageLen + kTypeNameLen) n)
        let room ← readAt (row ++ [0]) (kMessageLen + kTypeNameLen + n) 4
        k typeName room) = .error .outOfBounds := by
    intro n k hn hlt
    rw [kMessageLen, kTypeNameLen]
    by_cases hname : 4 + 2 + n ≤ (row ++ [0]).length
    · rw [readAt_of_le hname, ok_bind, OutPack.copyName_eq (by rw [length_slice hname]; exact hn),
        ok_bind, hfail (by omega), error_bind]
    · rw [hfail (by omega), error_bind]
  rw [OutPack.zipResetRow]
  by_cases hfour : row.length < 5
  · by_cases hfirst : 0 + 4 ≤ (row ++ [0]).length
    · simp -implicitDefEqProofs only [readAt_of_le hfirst, ok_bind,
        hfail (show row.length + 1 < kMessageLen + 2 by rw [kMessageLen]; omega), error_bind]
    · simp -implicitDefEqProofs only [hfail (show row.length + 1 < 0 + 4 by omega), error_bind]
  · have hfirst : 0 + 4 ≤ (row ++ [0]).length := by omega
    have hsecond : kMessageLen + 2 ≤ (row ++ [0]).length := by rw [kMessageLen]; omega
    have hbound : htons (leNat (slice (row ++ [0]) kMessageLen 2)) < 2 ^ 16 := by
      have hlt := leNat_lt (beBytes 2 (leNat (slice (row ++ [0]) kMessageLen 2)))
      rwa [length_beBytes] at hlt
    simp -implicitDefEqProofs only [readAt_of_le hfirst, readAt_of_le hsecond, ok_bind]
    refine hrest _ _ (by omega) ?_
    by_cases hfive : row.length = 5
    · omega
    · rw [OutPack.htons_rowNameLength (by omega)]
      exact h

/-- The data of a consistent packet is what is left of it. -/
theorem rowDataLength_of_consistent (h : Consistent row) (hpos : 0 ≤ rowDataLength row) :
    rowDataLength row = (row.length - (10 + rowNameLength row) : ℕ) := by
  obtain ⟨hlen, hin⟩ := h
  have hlt := beNat_lt (slice row 0 4)
  rw [length_slice (by omega)] at hlt
  have hdeclared : rowLength row < 2 ^ 32 := hlt
  have hdiff : ((rowLength row : ℤ) - (6 + rowNameLength row : ℕ)) =
      (row.length - (10 + rowNameLength row) : ℕ) := by omega
  rw [rowDataLength, hdiff, toUInt32_natCast (by omega)] at hpos ⊢
  have hsmall : row.length - (10 + rowNameLength row) < 2 ^ 31 := by
    by_contra hbig
    rw [toInt32_of_ge (by omega) (by omega)] at hpos
    omega
  rw [toInt32_of_lt (by omega) (by omega)]

/-- What follows from the data that is found. -/
theorem compressRowMsg_of_error {fault : Fault} (h : 10 + rowNameLength row ≤ row.length + 1)
    (hread : stdString (row ++ [0]) (10 + rowNameLength row) (rowDataLength row) = .error fault) :
    compressRowMsg zlib row = .error fault := by
  rw [compressRowMsg, OutPack.zipResetRow_eq h, hread, error_bind, error_bind]

/-- Data that was found is compressed and packed; without a compression, nothing is packed as
its data. -/
theorem compressRowMsg_of_ok {input : Bytes} (h : 10 + rowNameLength row ≤ row.length + 1)
    (hread : stdString (row ++ [0]) (10 + rowNameLength row) (rowDataLength row) = .ok input) :
    compressRowMsg zlib row = (Encoder.client 0).emit ⟨rowName row, (zlib input).getD []⟩
      (compressRoomid (rowRoomid row)) := by
  rw [compressRowMsg, OutPack.zipResetRow_eq h, hread, ok_bind]
  cases zlib input with
  | none =>
    simp -implicitDefEqProofs only [pure_eq_ok, ok_bind, Option.getD_none, Encoder.emit,
      OutPack.new]
  | some output =>
    simp -implicitDefEqProofs only [pure_eq_ok, ok_bind, Option.getD_some, Encoder.emit]

/-- The data of a consistent packet ends where the packet does. -/
theorem rowData_of_consistent {len : ℕ} (h : Consistent row) (hlen : rowDataLength row = len) :
    10 + rowNameLength row + len = row.length ∧
      slice (row ++ [0]) (10 + rowNameLength row) len = rowData row := by
  have hdata := rowDataLength_of_consistent h (by omega)
  have hin := h.2
  have hwhole : 10 + rowNameLength row + len = row.length := by omega
  refine ⟨hwhole, slice_eq (row.take (10 + rowNameLength row)) [0] ?_ ?_ ?_⟩
  · rw [rowData, ← List.append_assoc, List.take_append_drop]
  · rw [List.length_take]
    omega
  · rw [rowData, List.length_drop]
    omega

/-- A packet that is read out of bounds is not sealed: it was not consistent, and nothing was
rejected. -/
theorem not_rowSealed_of_outOfBounds (hfault : compressRowMsg zlib row = .error .outOfBounds)
    (h : ¬ Consistent row) : ¬ RowSealed zlib row (compressRowMsg zlib row) := by
  intro hsealed
  rw [hfault] at hsealed
  exact not_rejected_outOfBounds (hsealed.failed fun hconsistent => absurd hconsistent h)

/-- A packet whose data is found is sealed exactly if it is consistent and its data
compresses. -/
theorem rowSealed_iff_of_read {len : ℕ} (hlong : 10 + rowNameLength row ≤ row.length + 1)
    (hlen : rowDataLength row = len)
    (hread : stdString (row ++ [0]) (10 + rowNameLength row) (rowDataLength row) =
      .ok (slice (row ++ [0]) (10 + rowNameLength row) len)) :
    RowSealed zlib row (compressRowMsg zlib row) ↔ RowCompresses zlib row := by
  have hemit := @compressRowMsg_of_ok zlib row _ hlong hread
  -- something is emitted, so the packet has to be consistent and to compress
  have hemitted : ¬ Rejected (compressRowMsg zlib row) := by
    rw [hemit]
    exact fun h => Encoder.rejected_emit_iff.mp h (Or.inl rfl)
  constructor
  · intro h
    refine by_contra fun hnot => hemitted (h.failed fun hc => ?_)
    cases hz : zlib (rowData row) with
    | none => rfl
    | some output => exact absurd ⟨hc, output, hz⟩ hnot
  · rintro ⟨hc, output, hz⟩
    refine ⟨fun hfails => ?_, fun packet hpacket => ?_⟩
    · rw [hfails hc] at hz
      cases hz
    · rw [hemit, (rowData_of_consistent hc hlen).2, hz] at hpacket
      exact ⟨output, hz, Encoder.packet_of_emit hpacket⟩

/-- **Packets that are compressed.** What is emitted of a packet is as it should be exactly if
the packet is consistent and its data compresses, or a negative length is left for its data. -/
theorem rowSealed_iff :
    RowSealed zlib row (compressRowMsg zlib row) ↔ RowCompresses zlib row ∨ Negative row := by
  rcases lt_or_ge (row.length + 1) (10 + rowNameLength row) with hshort | hlong
  · -- the name or the room runs past the end
    have hfault : compressRowMsg zlib row = .error .outOfBounds := by
      rw [compressRowMsg, zipResetRow_short hshort, error_bind]
    have hinconsistent : ¬ Consistent row := fun h => absurd h.2 (by omega)
    refine iff_of_false (not_rowSealed_of_outOfBounds hfault hinconsistent) ?_
    rintro (⟨hconsistent, -⟩ | ⟨hin, -⟩)
    · exact hinconsistent hconsistent
    · omega
  rcases lt_or_ge (rowDataLength row) 0 with hneg | hpos
  · -- the constructor of the string throws
    have hraised := @compressRowMsg_of_error zlib row _ hlong
      (OutPack.stdString_of_neg hneg (OutPack.rowDataLength_range row).1)
    refine iff_of_true ⟨fun _ => Or.inr ⟨_, hraised⟩, fun packet h => ?_⟩ (Or.inr ⟨hlong, hneg⟩)
    rw [hraised] at h
    cases h
  obtain ⟨len, hlen⟩ : ∃ len : ℕ, rowDataLength row = len :=
    ⟨_, (Int.toNat_of_nonneg hpos).symm⟩
  have hnegative : ¬ Negative row := fun h => absurd h.2 (by omega)
  have hstring : stdString (row ++ [0]) (10 + rowNameLength row) (rowDataLength row) =
      readAt (row ++ [0]) (10 + rowNameLength row) len := by
    have hrange := (OutPack.rowDataLength_range row).2
    rw [hlen, OutPack.stdString_natCast (by omega)]
  have hrowlen : (row ++ [0]).length = row.length + 1 := by simp
  rcases lt_or_ge (row.length + 1) (10 + rowNameLength row + len) with hover | hin
  · -- the data runs past the end
    have hread : readAt (row ++ [0]) (10 + rowNameLength row) len = .error .outOfBounds :=
      if_neg (by omega)
    have hfault := @compressRowMsg_of_error zlib row _ hlong (hstring.trans hread)
    have hinconsistent : ¬ Consistent row := by
      intro h
      have hwhole := (rowData_of_consistent h hlen).1
      omega
    refine iff_of_false (not_rowSealed_of_outOfBounds hfault hinconsistent) ?_
    rintro (⟨hconsistent, -⟩ | h)
    · exact hinconsistent hconsistent
    · exact hnegative h
  · have hread := @readAt_of_le (row ++ [0]) (10 + rowNameLength row) len (by omega)
    rw [rowSealed_iff_of_read hlong hlen (hstring.trans hread), or_iff_left hnegative]

end Rows

/-! ### The five functions -/

/-- **When packing is sealed.** A message that is packed without compression has to serialize
and to leave the compress bit alone; with compression, it has to serialize and to compress; a
packet that is compressed has to be consistent and to compress, unless its declared length
makes the constructor of a string throw. -/
theorem sealed_iff (zlib : Bytes → Option Bytes) :
    (∀ msg subType roomid, Sealed zlib msg false (.client subType) roomid
      (serializeMsg msg subType roomid) ↔ Plain zlib msg (.client subType) roomid) ∧
    (∀ msg roomid, Sealed zlib msg true (.client 0) (compressRoomid roomid)
      (serializeMsgWithCompress zlib msg roomid) ↔ Compresses zlib msg) ∧
    (∀ row, RowSealed zlib row (compressRowMsg zlib row) ↔
      RowCompresses zlib row ∨ Negative row) ∧
    (∀ msg uid roomid, Sealed zlib msg false (.inner uid) roomid
      (serializeImsg msg uid roomid) ↔ Plain zlib msg (.inner uid) roomid) ∧
    (∀ msg uid subType roomid, Sealed zlib msg false (.innerType uid subType) roomid
      (serializeImsgType msg uid subType roomid) ↔
        Plain zlib msg (.innerType uid subType) roomid) :=
  ⟨fun _ _ _ => sealed_plain_iff, fun _ _ => sealed_compress_iff, fun _ => rowSealed_iff,
    fun _ _ _ => sealed_plain_iff, fun _ _ _ _ => sealed_plain_iff⟩

private theorem length_lt_of_none (data : Bytes) (h : none = some data) : data.length < 2 ^ 31 := by
  cases h

/-- A message named `a` that misses a required field. -/
def incomplete : Message := ⟨[0x61], none, length_lt_of_none⟩

/-- It is packed without a name; a message that does not compress is packed without a name and
with the compress bit; and so is a packet that ends before its data does. -/
theorem failures_packed :
    serializeMsg incomplete 0 7 = .ok (some [0, 0, 0, 6, 0, 0, 0, 0, 0, 7]) ∧
    ¬ Sealed (fun _ => none) incomplete false (.client 0) 7 (serializeMsg incomplete 0 7) ∧
    serializeMsgWithCompress (fun _ => none) emptyMessage 7 =
      .ok (some [0, 0, 0, 6, 0, 0, 0x80, 0, 0, 7]) ∧
    compressRowMsg some [0, 0, 0, 9, 0, 1, 0x61, 0, 0, 0, 7, 5] =
      .ok (some [0, 0, 0, 9, 0, 1, 0x61, 0x80, 0, 0, 7, 5, 0]) := by
  refine ⟨by decide, fun h => ?_, by decide, by decide⟩
  rcases h.serialized rfl with hnone | ⟨message, hraised⟩
  · exact absurd hnone (by decide)
  · have hemit : serializeMsg incomplete 0 7 = .ok (some [0, 0, 0, 6, 0, 0, 0, 0, 0, 7]) := by
      decide
    rw [hemit] at hraised
    cases hraised

end TestCluster.Common
