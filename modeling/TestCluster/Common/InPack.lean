import TestCluster.Common.OutPack

/-!
# Unpacking messages

`InPack` of `cpp/common/Pack.cpp`: the fields of a received packet are found by their
offsets. A packet whose type name is longer than `kMaxTypeNameLen`, or longer than the
packet, is rejected.

## Main definitions

* `InPack` — what a decoded packet refers to
* `InPack.outReset`, `InPack.innerReset` — the decoders
* `InPack.Carries` — a decoded packet has the fields of a packed message

## Main results

* `InPack.innerReset_received` — what any received bytes are decoded to
* `InPack.decodeStream_packBody`, `InPack.decodeStream_reject` — a packed body is
  decoded, or rejected for its name
* `InPack.reset_of_outPack` — what the packers emit is decoded to the same fields
-/

namespace TestCluster.Common

open Semantics

/-- A decoded packet. `pbData` and `pbDataLen` point into the received bytes. -/
structure InPack where
  dataLen : ℕ
  typeName : Bytes
  roomid : Int32
  pbData : ℕ
  pbDataLen : ℕ
  uid : Int64
  deriving DecidableEq

/-- `strlen`, of a string that has to end inside the received bytes. -/
def strlen (buf : Bytes) : Except Fault ℕ :=
  if 0 ∈ buf then .ok (buf.takeWhile (· ≠ 0)).length else .error .outOfBounds

namespace InPack

/-- A packet before anything was decoded. -/
def new : InPack := ⟨0, [], 0, 0, 0, 0⟩

variable (p : InPack) (buf : Bytes)

/-- `decode_stream`, on the `size` bytes at offset `data`. -/
def decodeStream (data size : ℕ) : Except Fault (InPack × Bool) := do
  let typeNameLen := htons (leNat (← readAt buf data 2))
  let totalHeadSize := kTypeNameLen + typeNameLen + kRoomidLen
  if totalHeadSize > size ∨ typeNameLen > kMaxTypeNameLen then
    return (p, false)
  else
    let typeName ← readAt buf (data + kTypeNameLen) typeNameLen
    let roomid := leNat (← readAt buf (data + kTypeNameLen + typeNameLen) 4)
    return ({ p with
      typeName := typeName
      roomid := (UInt32.ofNat (htonl roomid)).toInt32
      pbData := data + kTypeNameLen + typeNameLen + kRoomidLen
      pbDataLen := size - kTypeNameLen - typeNameLen - kRoomidLen }, true)

/-- The size a decoder works with; 0 stands for the length of a C string. -/
def sizeOrStrlen (size : ℕ) : Except Fault ℕ :=
  if size = 0 then do return toUInt32 (← strlen buf) else .ok size

/-- `reset`, of a packet without a user. -/
def reset (size : ℕ) : Except Fault (InPack × Bool) := do
  let size ← sizeOrStrlen buf size
  decodeStream { p with dataLen := size } buf 0 size

/-- `out_reset`, of a packet with the length in front; the length is read and not used. -/
def outReset (size : ℕ) : Except Fault (InPack × Bool) := do
  let size ← sizeOrStrlen buf size
  let _packHead := htonl (leNat (← readAt buf 0 4))
  decodeStream { p with dataLen := size } buf 4 (toUInt32 (size - 4))

/-- `inner_reset`, of a packet with the user in front. -/
def innerReset (size : ℕ) : Except Fault (InPack × Bool) := do
  let size ← sizeOrStrlen buf size
  let uid := leNat (← readAt buf 0 8)
  decodeStream { p with dataLen := size, uid := (UInt64.ofNat (ntoh64 uid)).toInt64 } buf 8
    (toUInt32 (size - 8))

/-- `uid`. -/
def getUid : UInt64 := p.uid.toUInt64

/-- The serialized data, from which `create_message` parses. -/
def payload : Except Fault Bytes := readAt buf p.pbData p.pbDataLen

/-- The packet decoded from `buf` has the type name, the room and the data of a packed
message. -/
structure Carries (o : OutPack) (roomid : Int32) : Prop where
  typeName : p.typeName = o.typeName
  roomid : p.roomid = roomid
  payload : p.payload buf = .ok o.pbData

/-! ### Received bytes -/

section Received

variable {buf} {data size : ℕ}

/-- The type name length that a body starts with. -/
def nameLen (body : Bytes) : ℕ := beNat (body.take kTypeNameLen)

theorem readAt_nat {width : ℕ} (h : data + width ≤ buf.length) :
    ∃ bs, readAt buf data width = .ok bs ∧ bs = (buf.drop data).take width ∧
      swapBytes width (leNat bs) = beNat bs := by
  refine ⟨_, if_pos h, rfl, ?_⟩
  have hlen : ((buf.drop data).take width).length = width := by
    rw [List.length_take, List.length_drop]
    omega
  have hswap := swapBytes_leNat ((buf.drop data).take width)
  rwa [hlen] at hswap

/-- What `decode_stream` makes of the last `size` bytes of a message. -/
theorem decodeStream_eq (p : InPack) (hsize : data + size = buf.length) (htwo : 2 ≤ size) :
    ∃ roomid, decodeStream p buf data size =
      if 6 + nameLen (buf.drop data) ≤ size ∧ nameLen (buf.drop data) ≤ 50 then
        .ok ({ p with
          typeName := (buf.drop (data + 2)).take (nameLen (buf.drop data))
          roomid := roomid
          pbData := data + 6 + nameLen (buf.drop data)
          pbDataLen := size - 6 - nameLen (buf.drop data) }, true)
      else .ok (p, false) := by
  obtain ⟨bs, hread, hbs, hswap⟩ := @readAt_nat buf data 2 (by omega)
  have hname : htons (leNat bs) = nameLen (buf.drop data) := by
    rw [htons, hswap, hbs]
    rfl
  generalize nameLen (buf.drop data) = n at hname ⊢
  by_cases haccept : 6 + n ≤ size ∧ n ≤ 50
  · -- the name is short enough, and it and the room are there
    have hkeep : ¬ (kTypeNameLen + n + kRoomidLen > size ∨ n > kMaxTypeNameLen) := by
      rw [kTypeNameLen, kRoomidLen, kMaxTypeNameLen]
      omega
    have htypeName : readAt buf (data + kTypeNameLen) n = .ok ((buf.drop (data + 2)).take n) :=
      if_pos (by rw [kTypeNameLen]; omega)
    obtain ⟨room, hroom, -, -⟩ := @readAt_nat buf (data + kTypeNameLen + n) 4 (by
      rw [kTypeNameLen]; omega)
    have hoff : data + kTypeNameLen + n + kRoomidLen = data + 6 + n := by
      rw [kTypeNameLen, kRoomidLen]; omega
    have hlen : size - kTypeNameLen - n - kRoomidLen = size - 6 - n := by
      rw [kTypeNameLen, kRoomidLen]; omega
    refine ⟨(UInt32.ofNat (htonl (leNat room))).toInt32, ?_⟩
    simp only [decodeStream, hread, hname, if_neg hkeep, if_pos haccept, htypeName, hroom, ok_bind,
      hoff, hlen]
    rfl
  · have hreject : kTypeNameLen + n + kRoomidLen > size ∨ n > kMaxTypeNameLen := by
      rw [kTypeNameLen, kRoomidLen, kMaxTypeNameLen]
      omega
    refine ⟨0, ?_⟩
    simp only [decodeStream, hread, hname, if_pos hreject, if_neg haccept, ok_bind]
    rfl

/-- What `inner_reset` makes of a message with a user in front. -/
theorem innerReset_received (p : InPack) (h : 10 ≤ buf.length) (hlt : buf.length < 2 ^ 32) :
    ∃ roomid, innerReset p buf buf.length =
      let n := nameLen (buf.drop 8)
      let q : InPack := { p with
        dataLen := buf.length
        uid := (UInt64.ofNat (beNat (buf.take 8))).toInt64 }
      if 14 + n ≤ buf.length ∧ n ≤ 50 then
        .ok ({ q with
          typeName := (buf.drop 10).take n
          roomid := roomid
          pbData := 14 + n
          pbDataLen := buf.length - 14 - n }, true)
      else .ok (q, false) := by
  obtain ⟨bs, hread, hbs, hswap⟩ := @readAt_nat buf 0 8 (by omega)
  -- the size does not wrap around, since there are ten bytes
  have hsize : toUInt32 (buf.length - 8) = buf.length - 8 := by
    rw [toUInt32_of_lt] <;> omega
  have hpositive : ¬ buf.length = 0 := by omega
  have huid : ntoh64 (leNat bs) = beNat (buf.take 8) := hswap.trans (congrArg beNat hbs)
  obtain ⟨roomid, hdecode⟩ := @decodeStream_eq buf 8 (buf.length - 8) { p with
    dataLen := buf.length
    uid := (UInt64.ofNat (beNat (buf.take 8))).toInt64 } (by omega) (by omega)
  refine ⟨roomid, ?_⟩
  simp only [innerReset, sizeOrStrlen, if_neg hpositive, hread, ok_bind, hsize, huid, hdecode]
  generalize nameLen (buf.drop 8) = n
  have hiff : 6 + n ≤ buf.length - 8 ↔ 14 + n ≤ buf.length := by omega
  have hlen : buf.length - 8 - 6 - n = buf.length - 14 - n := by omega
  simp only [hiff, hlen]

end Received

/-! ### Bodies that were packed -/

variable {p} {buf} {o : OutPack} {roomid : Int32}

/-- A number in network byte order is read back. -/
private theorem swapBytes_beBytes {width n : ℕ} (h : n < 256 ^ width) :
    swapBytes width (leNat (beBytes width n)) = n := by
  have hswap := swapBytes_leNat (beBytes width n)
  rwa [length_beBytes, beNat_beBytes_of_lt h] at hswap

private theorem readAt_nameLen (pre : Bytes) (h : buf = pre ++ o.packBody roomid)
    (hname : o.typeName.length < 2 ^ 16) :
    ∃ bs, readAt buf pre.length 2 = .ok bs ∧ htons (leNat bs) = o.typeName.length := by
  refine ⟨beBytes 2 o.typeName.length, readAt_eq_ok pre _ h rfl (by simp), ?_⟩
  exact swapBytes_beBytes (lt_of_lt_of_le hname (by decide))

/-- A packed body is decoded when its name is not too long. -/
theorem decodeStream_packBody (p : InPack) (pre : Bytes) (h : buf = pre ++ o.packBody roomid)
    (hname : o.typeName.length ≤ kMaxTypeNameLen) {size : ℕ}
    (hsize : size = (o.packBody roomid).length) :
    ∃ p', decodeStream p buf pre.length size = .ok (p', true) ∧ p'.Carries buf o roomid ∧
      p'.uid = p.uid := by
  rw [OutPack.length_packBody] at hsize
  have hle : o.typeName.length ≤ 50 := hname
  obtain ⟨bs, hnameLen, hlen⟩ := readAt_nameLen pre h (lt_of_le_of_lt hle (by decide))
  -- the encoder writes a name that the decoder accepts
  have haccept : ¬ (kTypeNameLen + o.typeName.length + kRoomidLen > size ∨
      o.typeName.length > kMaxTypeNameLen) := by
    rw [kTypeNameLen, kRoomidLen, kMaxTypeNameLen]; omega
  have htypeName : readAt buf (pre.length + kTypeNameLen) o.typeName.length = .ok o.typeName :=
    readAt_eq_ok (pre ++ beBytes 2 o.typeName.length) _
      (by rw [h, OutPack.packBody, List.append_assoc]) (by simp [kTypeNameLen]) rfl
  have hroomid : readAt buf (pre.length + kTypeNameLen + o.typeName.length) 4 =
      .ok (beBytes 4 roomid.toUInt32.toNat) :=
    readAt_eq_ok (pre ++ (beBytes 2 o.typeName.length ++ o.typeName)) o.pbData
      (by simp [h, OutPack.packBody]) (by simp [kTypeNameLen]; omega) (by simp)
  have hroom : (UInt32.ofNat (htonl (leNat (beBytes 4 roomid.toUInt32.toNat)))).toInt32 =
      roomid := by
    rw [htonl, swapBytes_beBytes (lt_of_lt_of_le roomid.toUInt32.toNat_lt (by decide)),
      UInt32.ofNat_toNat, Int32.toInt32_toUInt32]
  have hpbData : o.pbData.length = size - kTypeNameLen - o.typeName.length - kRoomidLen := by
    rw [hsize, kTypeNameLen, kRoomidLen]; omega
  refine ⟨{ p with
    typeName := o.typeName
    roomid := roomid
    pbData := pre.length + kTypeNameLen + o.typeName.length + kRoomidLen
    pbDataLen := size - kTypeNameLen - o.typeName.length - kRoomidLen }, ?_, ⟨rfl, rfl, ?_⟩, rfl⟩
  · simp only [decodeStream, hnameLen, hlen, if_neg haccept, htypeName, hroomid, ok_bind, hroom]
    rfl
  · exact readAt_eq_ok (pre ++ (beBytes 2 o.typeName.length ++ (o.typeName ++
      beBytes 4 roomid.toUInt32.toNat))) [] (by simp [h, OutPack.packBody])
      (by simp [kTypeNameLen, kRoomidLen]; omega) hpbData

/-- A packed body is rejected when its name is too long. -/
theorem decodeStream_reject (p : InPack) (pre : Bytes) (h : buf = pre ++ o.packBody roomid)
    (hlong : kMaxTypeNameLen < o.typeName.length) (hname : o.typeName.length < 2 ^ 16) (size : ℕ) :
    decodeStream p buf pre.length size = .ok (p, false) := by
  obtain ⟨bs, hnameLen, hlen⟩ := readAt_nameLen pre h hname
  have hreject : kTypeNameLen + o.typeName.length + kRoomidLen > size ∨
      o.typeName.length > kMaxTypeNameLen := Or.inr hlong
  simp only [decodeStream, hnameLen, ok_bind, hlen, if_pos hreject]
  rfl

section Packets

variable (o) (roomid) (uid : UInt64)

private theorem uid_roundtrip :
    (UInt64.ofNat (ntoh64 (leNat (beBytes 8 uid.toNat)))).toInt64.toUInt64 = uid := by
  rw [ntoh64, swapBytes_beBytes (lt_of_lt_of_le uid.toNat_lt (by decide)), UInt64.ofNat_toNat,
    UInt64.toUInt64_toInt64]

/-- A packet for another service, from its user on. -/
private theorem innerReset_eq (p : InPack) (h : (o.innerBody uid roomid).length < 2 ^ 32) :
    ∃ p' : InPack, p'.getUid = uid ∧
      innerReset p (o.innerBody uid roomid) (o.innerBody uid roomid).length =
        decodeStream p' (o.innerBody uid roomid) 8 (o.packBody roomid).length := by
  have hlen := o.length_innerBody uid roomid
  have hpositive : ¬ (o.innerBody uid roomid).length = 0 := by omega
  have hread : readAt (o.innerBody uid roomid) 0 8 = .ok (beBytes 8 uid.toNat) :=
    readAt_eq_ok [] (o.packBody roomid) rfl rfl (by simp)
  have hsize : toUInt32 ((o.innerBody uid roomid).length - 8) = (o.packBody roomid).length := by
    rw [hlen, OutPack.length_packBody, toUInt32_of_lt] <;> omega
  refine ⟨{ p with
    dataLen := (o.innerBody uid roomid).length
    uid := (UInt64.ofNat (ntoh64 (leNat (beBytes 8 uid.toNat)))).toInt64 },
    uid_roundtrip uid, ?_⟩
  simp only [innerReset, sizeOrStrlen, if_neg hpositive, hread, ok_bind, hsize]

/-- A packet for another service is decoded to the same fields. -/
theorem innerReset_innerBody (p : InPack)
    (hname : o.typeName.length ≤ kMaxTypeNameLen)
    (h : (o.innerBody uid roomid).length < 2 ^ 32) :
    ∃ p', innerReset p (o.innerBody uid roomid) (o.innerBody uid roomid).length = .ok (p', true) ∧
      p'.getUid = uid ∧ p'.Carries (o.innerBody uid roomid) o roomid := by
  obtain ⟨p₁, huid, hreset⟩ := innerReset_eq o roomid uid p h
  obtain ⟨p', hdecode, hcarries, hsame⟩ := decodeStream_packBody p₁ (beBytes 8 uid.toNat) rfl hname
    rfl
  rw [length_beBytes] at hdecode
  refine ⟨p', hreset.trans hdecode, ?_, hcarries⟩
  rw [getUid, hsame]
  exact huid

/-- A packet for a client is decoded to the same fields. -/
theorem outReset_packBody (p : InPack) (head : Bytes) (hhead : head.length = 4)
    (hname : o.typeName.length ≤ kMaxTypeNameLen)
    (h : (head ++ o.packBody roomid).length < 2 ^ 32) :
    ∃ p', outReset p (head ++ o.packBody roomid) (head ++ o.packBody roomid).length =
        .ok (p', true) ∧ p'.Carries (head ++ o.packBody roomid) o roomid := by
  have hlen : (head ++ o.packBody roomid).length = 4 + (o.packBody roomid).length := by
    rw [List.length_append, hhead]
  have hpositive : ¬ (head ++ o.packBody roomid).length = 0 := by omega
  have hread : readAt (head ++ o.packBody roomid) 0 4 = .ok head :=
    readAt_eq_ok [] (o.packBody roomid) rfl rfl hhead
  have hsize : toUInt32 ((head ++ o.packBody roomid).length - 4) = (o.packBody roomid).length := by
    rw [hlen, toUInt32_of_lt] <;> omega
  obtain ⟨p', hdecode, hcarries, -⟩ := decodeStream_packBody
    { p with dataLen := (head ++ o.packBody roomid).length } head rfl hname rfl
  rw [hhead] at hdecode
  refine ⟨p', ?_, hcarries⟩
  simp only [outReset, sizeOrStrlen, if_neg hpositive, hread, ok_bind, hsize, hdecode]

end Packets

/-- **Packed messages are decoded to the same fields**, when the type name has at most
`kMaxTypeNameLen` bytes and the packet fits its 32-bit size: (a) a packet for another
service, with or without the `sub_type` in front, to its user, type name, room and
data; (b) a packet for a client to its type name, room and data, with the number of
the remaining bytes in front. -/
theorem reset_of_outPack (p : InPack) (o : OutPack) (uid : UInt64) (type : UInt32)
    (roomid : Int32) (hname : o.typeName.length ≤ kMaxTypeNameLen) :
    (18 + o.typeName.length + o.pbData.length < 2 ^ 32 →
      ∃ buf p', o.newInnerpackType uid type roomid = .ok buf ∧
        innerReset p (buf.drop 4) (buf.length - 4) = .ok (p', true) ∧
        p'.getUid = uid ∧ p'.Carries (buf.drop 4) o roomid) ∧
    (14 + o.typeName.length + o.pbData.length < 2 ^ 32 →
      ∃ buf p', o.newInnerpack uid roomid = .ok buf ∧
        innerReset p buf buf.length = .ok (p', true) ∧
        p'.getUid = uid ∧ p'.Carries buf o roomid) ∧
    (10 + o.typeName.length + o.pbData.length < 2 ^ 32 →
      ∃ buf p', o.newOutpack 0 roomid = .ok (some buf) ∧
        outReset p buf buf.length = .ok (p', true) ∧ p'.Carries buf o roomid ∧
        beNat (buf.take 4) = buf.length - 4) := by
  refine ⟨fun h => ?_, fun h => ?_, fun h => ?_⟩
  · have hdrop : (beBytes 4 type.toNat ++ o.innerBody uid roomid).drop 4 = o.innerBody uid roomid :=
      List.drop_left' (by simp)
    have hlen : (beBytes 4 type.toNat ++ o.innerBody uid roomid).length - 4 =
        (o.innerBody uid roomid).length := by simp
    obtain ⟨p', hreset⟩ := innerReset_innerBody o roomid uid p hname
      (show (o.innerBody uid roomid).length < 2 ^ 32 by rw [OutPack.length_innerBody]; omega)
    refine ⟨_, p', OutPack.newInnerpackType_eq uid type roomid h, ?_⟩
    rw [hdrop, hlen]
    exact hreset
  · obtain ⟨p', hreset⟩ := innerReset_innerBody o roomid uid p hname
      (show (o.innerBody uid roomid).length < 2 ^ 32 by rw [OutPack.length_innerBody]; omega)
    exact ⟨_, p', OutPack.newInnerpack_eq uid roomid h, hreset⟩
  · have hbody := o.length_packBody roomid
    obtain ⟨p', hreset, hcarries⟩ := outReset_packBody o roomid p
      (beBytes 4 (o.packBody roomid).length) (length_beBytes 4 _) hname
      (by rw [List.length_append, length_beBytes, hbody]; omega)
    refine ⟨_, p', OutPack.newOutpack_eq roomid h, hreset, hcarries, ?_⟩
    rw [List.take_left' (length_beBytes 4 _), beNat_beBytes_of_lt (by rw [hbody]; omega)]
    simp

/-- A short message, packed in the three ways and decoded. -/
theorem reset_of_outPack_small :
    (∃ buf p', (⟨[0x61], [1, 2]⟩ : OutPack).newInnerpackType 7 3 (-1) = .ok buf ∧
      innerReset .new (buf.drop 4) (buf.length - 4) = .ok (p', true) ∧
      p'.getUid = 7 ∧ p'.Carries (buf.drop 4) ⟨[0x61], [1, 2]⟩ (-1)) ∧
    (∃ buf p', (⟨[0x61], [1, 2]⟩ : OutPack).newInnerpack 7 (-1) = .ok buf ∧
      innerReset .new buf buf.length = .ok (p', true) ∧
      p'.getUid = 7 ∧ p'.Carries buf ⟨[0x61], [1, 2]⟩ (-1)) ∧
    (∃ buf p', (⟨[0x61], [1, 2]⟩ : OutPack).newOutpack 0 (-1) = .ok (some buf) ∧
      outReset .new buf buf.length = .ok (p', true) ∧ p'.Carries buf ⟨[0x61], [1, 2]⟩ (-1) ∧
      beNat (buf.take 4) = buf.length - 4) := by
  obtain ⟨htype, hinner, hout⟩ := reset_of_outPack .new ⟨[0x61], [1, 2]⟩ 7 3 (-1) (by decide)
  exact ⟨htype (by decide), hinner (by decide), hout (by decide)⟩

private theorem exists_length_eq (n : ℕ) : ∃ bs : Bytes, bs.length = n :=
  ⟨List.replicate n 0, List.length_replicate⟩

/-- A name of 51 bytes is packed and not decoded; a payload that makes the size of the
packet 2^32 is written into an empty block. -/
theorem reset_of_outPack_limits :
    (∃ buf p', (⟨List.replicate 51 0x61, []⟩ : OutPack).newInnerpack 0 0 = .ok buf ∧
      innerReset .new buf buf.length = .ok (p', false)) ∧
    ∃ pbData : Bytes, pbData.length = 2 ^ 32 - 14 ∧
      (⟨[], pbData⟩ : OutPack).newInnerpack 0 0 = .error .outOfBounds := by
  constructor
  · obtain ⟨p₁, -, hreset⟩ := innerReset_eq ⟨List.replicate 51 0x61, []⟩ 0 0 .new
      (by decide)
    refine ⟨_, p₁, OutPack.newInnerpack_eq 0 0 (by decide), hreset.trans ?_⟩
    exact decodeStream_reject p₁ (beBytes 8 0) rfl (by decide) (by decide) _
  · obtain ⟨pbData, hlen⟩ := exists_length_eq (2 ^ 32 - 14)
    have htotal : 14 + ([] : Bytes).length + pbData.length = 2 ^ 32 := by
      rw [List.length_nil]; omega
    exact ⟨pbData, hlen, OutPack.newInnerpack_overflow 0 0 htotal⟩

end InPack

end TestCluster.Common
