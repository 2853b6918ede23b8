import TestCluster.Common.InPack

/-!
# Delivering a message to a service

`Service::service_poll` of `cpp/common/Service.cpp` and what it reads of a message: the
`sub_type`, the user, and the packet through `InPack`. Every read is checked against the
delivered bytes, and every size that is computed from another one against zero.

## Main definitions

* `Breach` — an access outside the message, or a size below zero
* `Checked.innerReset`, `Checked.reset` — the decoders of `InPack` with their accesses checked
* `servicePoll` — what a delivered message comes to
* `Polled.Inside` — what is handed on lies inside the message
* `LongEnough` — the messages that are long enough for their fields

## Main results

* `Checked.innerReset_ok` — a checked decoder does what `InPack` does
* `servicePoll_inside_iff` — exactly the messages that are long enough are parsed inside
  their bytes
-/

namespace TestCluster.Common

open Semantics

/-! ### Checked accesses -/

/-- The bytes `off` to `off + len` are not all there, or `n` is more than the size it is
taken from. -/
inductive Breach
  | outside (off len : ℕ)
  | belowZero (size n : ℕ)
  deriving DecidableEq, Repr

namespace Checked

/-- A read of `len` bytes at the offset `off`. -/
def read (buf : Bytes) (off len : ℕ) : Except Breach Bytes :=
  if off + len ≤ buf.length then .ok ((buf.drop off).take len) else .error (.outside off len)

/-- The size that remains behind `n` bytes. -/
def remaining (size n : ℕ) : Except Breach ℕ :=
  if n ≤ size then .ok (size - n) else .error (.belowZero size n)

/-- `strlen`: the byte that ends the string has to be there. -/
def strlen (buf : Bytes) : Except Breach ℕ :=
  if 0 ∈ buf then .ok (buf.takeWhile (· ≠ 0)).length else .error (.outside buf.length 1)

variable (p : InPack) (buf : Bytes)

/-- `InPack::decode_stream`. -/
def decodeStream (data size : ℕ) : Except Breach (InPack × Bool) := do
  let typeNameLen := htons (leNat (← read buf data 2))
  let totalHeadSize := kTypeNameLen + typeNameLen + kRoomidLen
  if totalHeadSize > size ∨ typeNameLen > kMaxTypeNameLen then
    -- the size that is logged
    let _datasize ← remaining size kTypeNameLen
    return (p, false)
  else
    let typeName ← read buf (data + kTypeNameLen) typeNameLen
    let roomid := leNat (← read buf (data + kTypeNameLen + typeNameLen) 4)
    let pbDataLen ← remaining (← remaining (← remaining size kTypeNameLen) typeNameLen) kRoomidLen
    return ({ p with
      typeName := typeName
      roomid := (UInt32.ofNat (htonl roomid)).toInt32
      pbData := data + kTypeNameLen + typeNameLen + kRoomidLen
      pbDataLen := pbDataLen }, true)

/-- A size of 0 stands for the length of a C string. -/
def sizeOrStrlen (size : ℕ) : Except Breach ℕ :=
  if size = 0 then do return toUInt32 (← strlen buf) else .ok size

/-- `InPack::reset`. -/
def reset (size : ℕ) : Except Breach (InPack × Bool) := do
  let size ← sizeOrStrlen buf size
  decodeStream { p with dataLen := size } buf 0 size

/-- `InPack::inner_reset`. -/
def innerReset (size : ℕ) : Except Breach (InPack × Bool) := do
  let size ← sizeOrStrlen buf size
  let uid := leNat (← read buf 0 8)
  let rest ← remaining size 8
  decodeStream { p with dataLen := size, uid := (UInt64.ofNat (ntoh64 uid)).toInt64 } buf 8 rest

/-- `get_uid_from_stream`. -/
def getUidFromStream : Except Breach UInt64 := do
  return UInt64.ofNat (ntoh64 (leNat (← read buf 0 8)))

end Checked

/-! ### Delivery -/

/-- `PTYPE_TEXT`. -/
def ptypeText : ℕ := 0

/-- `PTYPE_RESPONSE`. -/
def ptypeResponse : ℕ := 1

/-- `PTYPE_CLIENT`. -/
def ptypeClient : ℕ := 3

/-- `SUBTYPE_PROTOBUF`. -/
def subtypeProtobuf : ℕ := 16

/-- `SUBTYPE_RPC_CLIENT`. -/
def subtypeRpcClient : ℕ := 17

/-- `SUBTYPE_RPC_SERVER`. -/
def subtypeRpcServer : ℕ := 18

/-- `SUBTYPE_PLAIN_TEXT`. -/
def subtypePlainText : ℕ := 19

/-- `SUBTYPE_SYSTEM`. -/
def subtypeSystem : ℕ := 21

/-- An entry of `m_rpc`: `RPC_NULL_FUNC`, or a function. -/
inductive RpcCallback (F : Type)
  | null
  | func (f : F)
  deriving DecidableEq, Repr

/-- What a service looks at when a message is delivered: the calls it waits for and the
names it has registered with `service_callback`. -/
structure Service (F : Type) where
  rpc : ℤ → Option (RpcCallback F)
  dsp : Bytes → Bool

/-- What a delivered message comes to: `text_message` and `message` get a part of it, a timer
runs out, or a packet was decoded, or not, for a dispatcher. A packet lies behind the
`sub_type`, and `uid` is the user that is being processed. -/
inductive Polled (F : Type)
  | nothing
  | text (off len : ℕ)
  | message (off : ℕ) (len : ℤ)
  | timer (session : ℤ)
  | proto (uid : UInt64) (pack : InPack × Bool)
  | rpcServer (uid : UInt64) (pack : InPack × Bool)
  | rpcClient (uid : UInt64) (f : F) (pack : InPack × Bool)

variable {F : Type}

/-- `Service::proto`. A packet whose name is not registered is decoded again for the log. -/
def proto (service : Service F) (data : Bytes) (size : ℕ) : Except Breach (Polled F) := do
  let uid ← Checked.getUidFromStream data
  let pack ← Checked.innerReset .new data size
  if pack.2 ∧ ¬ service.dsp pack.1.typeName then
    let _pack ← Checked.innerReset .new data size
    return .proto uid pack
  else
    return .proto uid pack

/-- `RpcServer::rpc_event_server`, up to the dispatch. -/
def rpcEventServer (uid : UInt64) (data : Bytes) (size : ℕ) : Except Breach (Polled F) := do
  let pack ← Checked.innerReset .new data size
  return .rpcServer uid pack

/-- `RpcClient::rpc_event_client`, up to the dispatch. -/
def rpcEventClient (service : Service F) (uid : UInt64) (data : Bytes) (size : ℕ)
    (session : ℤ) : Except Breach (Polled F) :=
  match service.rpc session with
  | none => .ok .nothing
  | some .null => .ok .nothing
  | some (.func f) => do
    let pack ← Checked.innerReset .new data size
    return .rpcClient uid f pack

/-- `Service::service_poll`. -/
def servicePoll (service : Service F) (data : Bytes) (source : ℕ) (session : ℤ) (type : ℕ) :
    Except Breach (Polled F) := do
  let size := data.length
  let _msgData ← Checked.read data 0 size
  if type = ptypeText then
    let subType := htonl (leNat (← Checked.read data 0 4))
    let size ← Checked.remaining size 4
    let data := data.drop 4
    if subType = subtypeProtobuf ∨ subType = subtypeSystem then
      proto service data size
    else if subType = subtypeRpcServer then
      let uid ← Checked.getUidFromStream data
      rpcEventServer uid data size
    else if subType = subtypePlainText then
      return .text 4 size
    else
      return .nothing
  else if type = ptypeClient then
    return .message 0 (toInt32 size)
  else if type = ptypeResponse then
    if source = 0 then
      return .timer session
    else
      let subType := htonl (leNat (← Checked.read data 0 4))
      let size ← Checked.remaining size 4
      let data := data.drop 4
      if subType = subtypeRpcClient then
        let uid ← Checked.getUidFromStream data
        rpcEventClient service uid data size session
      else
        return .nothing
  else
    return .nothing

/-- The data of a packet behind the `sub_type`, if it was decoded, begin inside a message of
`n` bytes and fill it to its end. -/
def Fills (n : ℕ) (pack : InPack × Bool) : Prop :=
  pack.2 = true → 4 + pack.1.pbData ≤ n ∧ 4 + pack.1.pbData + pack.1.pbDataLen = n

/-- What is handed on lies inside a message of `n` bytes. -/
def Polled.Inside (n : ℕ) : Polled F → Prop
  | text off len => off + len ≤ n
  | message off len => 0 ≤ len ∧ off + len ≤ n
  | proto _ pack => Fills n pack
  | rpcServer _ pack => Fills n pack
  | rpcClient _ _ pack => Fills n pack
  | _ => True

/-- The `sub_type` in front of a message. -/
def subTypeOf (data : Bytes) : ℕ := beNat (data.take 4)

/-- The message is long enough for the fields that its kind has in front of the name, and
not too long for an `int32_t` where it is handed on with one. -/
def LongEnough (service : Service F) (data : Bytes) (source : ℕ) (session : ℤ) (type : ℕ) :
    Prop :=
  if type = ptypeText then
    4 ≤ data.length ∧
      (subTypeOf data ∈ [subtypeProtobuf, subtypeSystem, subtypeRpcServer] → 14 ≤ data.length)
  else if type = ptypeClient then data.length < 2 ^ 31
  else if type = ptypeResponse then
    source = 0 ∨ 4 ≤ data.length ∧ (subTypeOf data = subtypeRpcClient →
      12 ≤ data.length ∧ ((∃ f, service.rpc session = some (.func f)) → 14 ≤ data.length))
  else True

/-! ### Checked decoders -/

namespace Checked

variable {p : InPack} {buf bs : Bytes} {off len data size : ℕ} {r : InPack × Bool}

theorem read_ok (h : off + len ≤ buf.length) :
    read buf off len = .ok ((buf.drop off).take len) := if_pos h

theorem read_short (h : buf.length < off + len) : read buf off len = .error (.outside off len) :=
  if_neg (Nat.not_le.mpr h)

theorem remaining_ok {n : ℕ} (h : n ≤ size) : remaining size n = .ok (size - n) := if_pos h

/-- A checked read is a read. -/
theorem readAt_of_read (h : read buf off len = .ok bs) : readAt buf off len = .ok bs := by
  unfold read at h
  split_ifs at h with hfits
  rw [readAt, if_pos hfits, ← Except.ok.inj h]

/-- A checked size is the difference. -/
theorem remaining_eq {n rest : ℕ} (h : remaining size n = .ok rest) :
    n ≤ size ∧ rest = size - n := by
  unfold remaining at h
  split_ifs at h with hle
  exact ⟨hle, (Except.ok.inj h).symm⟩

theorem strlen_sound {n : ℕ} (h : strlen buf = .ok n) : Common.strlen buf = .ok n := by
  unfold strlen at h
  split_ifs at h with hzero
  rw [Common.strlen, if_pos hzero, ← Except.ok.inj h]

theorem decodeStream_sound (h : decodeStream p buf data size = .ok r) :
    p.decodeStream buf data size = .ok r := by
  obtain ⟨bs, hname, h⟩ := bind_ok h
  rw [InPack.decodeStream, readAt_of_read hname, ok_bind]
  simp only at h ⊢
  split_ifs at h ⊢ with hreject
  · obtain ⟨_, _, h⟩ := bind_ok h
    rw [pure_eq_ok, ← Except.ok.inj h]
  · obtain ⟨typeName, htypeName, h⟩ := bind_ok h
    obtain ⟨room, hroom, h⟩ := bind_ok h
    obtain ⟨rest₁, hrest₁, h⟩ := bind_ok h
    obtain ⟨rest₂, hrest₂, h⟩ := bind_ok h
    obtain ⟨rest₃, hrest₃, h⟩ := bind_ok h
    rw [readAt_of_read htypeName, ok_bind, readAt_of_read hroom, ok_bind, pure_eq_ok,
      ← Except.ok.inj h, (remaining_eq hrest₃).2, (remaining_eq hrest₂).2, (remaining_eq hrest₁).2]

theorem sizeOrStrlen_sound {n : ℕ} (h : sizeOrStrlen buf size = .ok n) :
    InPack.sizeOrStrlen buf size = .ok n := by
  unfold sizeOrStrlen at h
  unfold InPack.sizeOrStrlen
  split_ifs at h ⊢
  · obtain ⟨len, hlen, h⟩ := bind_ok h
    rw [strlen_sound hlen, ok_bind, pure_eq_ok, ← Except.ok.inj h]
  · rw [← Except.ok.inj h]

/-- **A checked decoder does what `InPack` does**, on a size of 32 bits. -/
theorem innerReset_sound (hlt : size < 2 ^ 32) (h : innerReset p buf size = .ok r) :
    p.innerReset buf size = .ok r := by
  obtain ⟨n, hn, h⟩ := bind_ok h
  obtain ⟨bs, hbs, h⟩ := bind_ok h
  obtain ⟨rest, hrest, h⟩ := bind_ok h
  -- also what `strlen` returns is kept in 32 bits
  have hnlt : n < 2 ^ 32 := by
    unfold sizeOrStrlen at hn
    split_ifs at hn
    · obtain ⟨len, _, hlen⟩ := bind_ok hn
      rw [← Except.ok.inj hlen]
      exact toUInt32_lt len
    · rwa [← Except.ok.inj hn]
  obtain ⟨hle, rfl⟩ := remaining_eq hrest
  have hsize : toUInt32 (n - 8) = n - 8 := by
    rw [toUInt32_of_lt] <;> omega
  rw [InPack.innerReset, sizeOrStrlen_sound hn, ok_bind, readAt_of_read hbs, ok_bind, hsize]
  exact decodeStream_sound h

theorem reset_sound (h : reset p buf size = .ok r) : p.reset buf size = .ok r := by
  obtain ⟨n, hn, h⟩ := bind_ok h
  rw [InPack.reset, sizeOrStrlen_sound hn, ok_bind]
  exact decodeStream_sound h

/-- What is read behind the length of the name is there once the name is not rejected. -/
theorem decodeStream_ok (p : InPack) (hsize : data + size = buf.length) (htwo : 2 ≤ size) :
    ∃ r, decodeStream p buf data size = .ok r := by
  rw [decodeStream, read_ok (by omega), ok_bind]
  generalize htons (leNat ((buf.drop data).take 2)) = n
  simp only
  split_ifs with hreject
  · rw [remaining_ok (show kTypeNameLen ≤ size from htwo), ok_bind]
    exact ⟨_, rfl⟩
  · -- the name was accepted, so it and the room fit
    simp only [kTypeNameLen, kRoomidLen, not_or, not_lt, gt_iff_lt] at hreject ⊢
    rw [read_ok (by omega), ok_bind, read_ok (by omega), ok_bind, remaining_ok htwo, ok_bind,
      remaining_ok (by omega), ok_bind, remaining_ok (by omega), ok_bind]
    exact ⟨_, rfl⟩

theorem sizeOrStrlen_length (h : buf ≠ []) : sizeOrStrlen buf buf.length = .ok buf.length :=
  if_neg fun hzero => h (List.length_eq_zero_iff.mp hzero)

/-- A packet with ten bytes is decoded, or rejected, inside its bytes; the data of a decoded
packet fill it to its end. -/
theorem innerReset_ok (p : InPack) (h : 10 ≤ buf.length) (hlt : buf.length < 2 ^ 32) :
    ∃ r, innerReset p buf buf.length = .ok r ∧ (r.2 = true →
      r.1.pbData ≤ buf.length ∧ r.1.pbData + r.1.pbDataLen = buf.length) := by
  have hne : buf ≠ [] := by
    rintro rfl
    exact nomatch h
  obtain ⟨r, hr⟩ : ∃ r, innerReset p buf buf.length = .ok r := by
    rw [innerReset, sizeOrStrlen_length hne, ok_bind, read_ok (by omega), ok_bind,
      remaining_ok (by omega), ok_bind]
    exact decodeStream_ok _ (by omega) (by omega)
  obtain ⟨roomid, hreset⟩ := InPack.innerReset_received p h hlt
  rw [innerReset_sound hlt hr] at hreset
  refine ⟨r, hr, fun htrue => ?_⟩
  simp only at hreset
  split_ifs at hreset with haccept
  · obtain rfl := Except.ok.inj hreset
    simp only
    omega
  · obtain rfl := Except.ok.inj hreset
    exact nomatch htrue

/-- A shorter packet is not decoded inside its bytes. -/
theorem innerReset_short (p : InPack) (h : buf.length < 10) :
    ∃ e, innerReset p buf buf.length = .error e := by
  rcases eq_or_ne buf [] with rfl | hne
  · exact ⟨_, rfl⟩
  · rw [innerReset, sizeOrStrlen_length hne, ok_bind]
    -- the length of the name is missing, or already the user is
    by_cases height : 8 ≤ buf.length
    · rw [read_ok (by omega), ok_bind, remaining_ok height, ok_bind, decodeStream,
        read_short (by omega)]
      exact ⟨_, rfl⟩
    · rw [read_short (by omega)]
      exact ⟨_, rfl⟩

/-- A packet without a user is decoded, or rejected, inside its bytes when it has two of
them. -/
theorem reset_inside_iff (p : InPack) :
    (∃ r, reset p buf buf.length = .ok r ∧ (r.2 = true →
      r.1.pbData ≤ buf.length ∧ r.1.pbData + r.1.pbDataLen = buf.length)) ↔ 2 ≤ buf.length := by
  rcases eq_or_ne buf [] with rfl | hne
  · refine iff_of_false ?_ (by decide)
    rintro ⟨r, hr, -⟩
    exact nomatch hr
  · -- a size that is not 0 is not replaced by `strlen`
    have hreset : reset p buf buf.length =
        decodeStream { p with dataLen := buf.length } buf 0 buf.length := by
      rw [reset, sizeOrStrlen_length hne, ok_bind]
    by_cases htwo : 2 ≤ buf.length
    · refine iff_of_true ?_ htwo
      obtain ⟨r, hr⟩ := @decodeStream_ok buf 0 buf.length { p with dataLen := buf.length }
        (Nat.zero_add _) htwo
      obtain ⟨roomid, heq⟩ := @InPack.decodeStream_eq buf 0 buf.length { p with
        dataLen := buf.length } (Nat.zero_add _) htwo
      rw [decodeStream_sound hr] at heq
      refine ⟨r, hreset.trans hr, fun htrue => ?_⟩
      split_ifs at heq with haccept
      · obtain rfl := Except.ok.inj heq
        simp only
        omega
      · obtain rfl := Except.ok.inj heq
        exact nomatch htrue
    · refine iff_of_false ?_ htwo
      rintro ⟨r, hr, -⟩
      rw [hreset, decodeStream, read_short (by omega)] at hr
      exact nomatch hr

theorem getUidFromStream_ok (h : 8 ≤ buf.length) :
    getUidFromStream buf = .ok (UInt64.ofNat (ntoh64 (leNat ((buf.drop 0).take 8)))) := by
  rw [getUidFromStream, read_ok (by omega), ok_bind, pure_eq_ok]

theorem getUidFromStream_short (h : buf.length < 8) :
    getUidFromStream buf = .error (.outside 0 8) := by
  rw [getUidFromStream, read_short (by omega), error_bind]

theorem decodeStream_uid (h : decodeStream p buf data size = .ok r) : r.1.uid = p.uid := by
  obtain ⟨bs, _, h⟩ := bind_ok h
  simp only at h
  split_ifs at h
  · obtain ⟨_, _, h⟩ := bind_ok h
    rw [← Except.ok.inj h]
  · obtain ⟨_, _, h⟩ := bind_ok h
    obtain ⟨_, _, h⟩ := bind_ok h
    obtain ⟨_, _, h⟩ := bind_ok h
    obtain ⟨_, _, h⟩ := bind_ok h
    obtain ⟨_, _, h⟩ := bind_ok h
    rw [← Except.ok.inj h]

/-- The user that is processed is the one of the packet. -/
theorem innerReset_uid {uid : UInt64} (huid : getUidFromStream buf = .ok uid)
    (h : innerReset p buf size = .ok r) : r.1.uid = uid.toInt64 := by
  obtain ⟨bs, hbs, huid⟩ := bind_ok huid
  obtain ⟨n, _, h⟩ := bind_ok h
  obtain ⟨bs', hbs', h⟩ := bind_ok h
  obtain ⟨rest, _, h⟩ := bind_ok h
  obtain rfl := Except.ok.inj (hbs.symm.trans hbs')
  rw [decodeStream_uid h, ← Except.ok.inj huid]

end Checked

/-! ### Messages that are long enough -/

section Inside

variable {service : Service F} {data : Bytes} {source : ℕ} {session : ℤ} {type : ℕ}

/-- Nothing outside the message is read or handed on, and no size falls below zero. -/
def ParsedInside (n : ℕ) (polled : Except Breach (Polled F)) : Prop :=
  ∃ r, polled = .ok r ∧ r.Inside n

theorem not_parsedInside_error {n : ℕ} {e : Breach} :
    ¬ ParsedInside n (.error e : Except Breach (Polled F)) := by
  rintro ⟨r, hr, -⟩
  exact nomatch hr

theorem parsedInside_ok {n : ℕ} {r : Polled F} : ParsedInside n (.ok r) ↔ r.Inside n := by
  constructor
  · rintro ⟨r', hr, hinside⟩
    rwa [Except.ok.inj hr]
  · exact fun h => ⟨r, rfl, h⟩

/-- The packet behind the `sub_type` of a message. -/
private theorem packet_ok (h : 14 ≤ data.length) (hlt : data.length < 2 ^ 32) :
    ∃ pack, Checked.innerReset .new (data.drop 4) (data.length - 4) = .ok pack ∧
      Fills data.length pack := by
  have hlen : (data.drop 4).length = data.length - 4 := List.length_drop
  obtain ⟨pack, hpack, hfill⟩ := @Checked.innerReset_ok (data.drop 4) .new (by omega) (by omega)
  rw [hlen] at hpack hfill
  refine ⟨pack, hpack, fun htrue => ?_⟩
  have hfilled := hfill htrue
  omega

private theorem packet_short (h : data.length < 14) (hfour : 4 ≤ data.length) :
    ∃ e, Checked.innerReset .new (data.drop 4) (data.length - 4) = .error e := by
  have hlen : (data.drop 4).length = data.length - 4 := List.length_drop
  have hshort := @Checked.innerReset_short (data.drop 4) .new (by omega)
  rwa [hlen] at hshort

private theorem uid_ok (h : 12 ≤ data.length) :
    ∃ uid, Checked.getUidFromStream (data.drop 4) = .ok uid :=
  ⟨_, Checked.getUidFromStream_ok (by rw [List.length_drop]; omega)⟩

private theorem uid_short (h : data.length < 12) :
    Checked.getUidFromStream (data.drop 4) = .error (.outside 0 8) :=
  Checked.getUidFromStream_short (by rw [List.length_drop]; omega)

/-- A dispatcher that decodes the packet behind the user needs fourteen bytes. -/
private theorem packet_inside_iff (h : 4 ≤ data.length) (hlt : data.length < 2 ^ 32)
    {polled : UInt64 → InPack × Bool → Except Breach (Polled F)}
    (hpolled : ∀ uid pack,
      Checked.innerReset .new (data.drop 4) (data.length - 4) = .ok pack →
      Fills data.length pack → ParsedInside data.length (polled uid pack)) :
    ParsedInside data.length (do
      let uid ← Checked.getUidFromStream (data.drop 4)
      let pack ← Checked.innerReset .new (data.drop 4) (data.length - 4)
      polled uid pack) ↔ 14 ≤ data.length := by
  by_cases hlong : 14 ≤ data.length
  · refine iff_of_true ?_ hlong
    obtain ⟨uid, huid⟩ := @uid_ok data (by omega)
    obtain ⟨pack, hpack, hfills⟩ := packet_ok hlong hlt
    rw [huid, ok_bind, hpack, ok_bind]
    exact hpolled uid pack hpack hfills
  · refine iff_of_false ?_ hlong
    -- the user can be read, but not the packet behind it, or the user cannot
    by_cases htwelve : 12 ≤ data.length
    · obtain ⟨uid, huid⟩ := uid_ok htwelve
      obtain ⟨e, hpack⟩ := packet_short (Nat.not_le.mp hlong) h
      rw [huid, ok_bind, hpack, error_bind]
      exact not_parsedInside_error
    · rw [uid_short (Nat.not_le.mp htwelve), error_bind]
      exact not_parsedInside_error

private theorem proto_inside_iff (h : 4 ≤ data.length) (hlt : data.length < 2 ^ 32) :
    ParsedInside data.length (proto service (data.drop 4) (data.length - 4)) ↔
      14 ≤ data.length := by
  apply packet_inside_iff h hlt
  intro uid pack hpack hfills
  split_ifs
  · -- decoded once more, with the same result
    rw [hpack, ok_bind]
    exact parsedInside_ok.mpr hfills
  · exact parsedInside_ok.mpr hfills

private theorem rpcEventServer_inside_iff (h : 4 ≤ data.length) (hlt : data.length < 2 ^ 32) :
    ParsedInside data.length (do
      let uid ← Checked.getUidFromStream (data.drop 4)
      rpcEventServer (F := F) uid (data.drop 4) (data.length - 4)) ↔ 14 ≤ data.length := by
  apply packet_inside_iff h hlt
  intro uid pack _ hfills
  exact parsedInside_ok.mpr hfills

/-- The packet of a response is decoded only where a call waits for it. -/
private theorem rpcEventClient_inside_iff (h : 4 ≤ data.length) (hlt : data.length < 2 ^ 32) :
    ParsedInside data.length (do
      let uid ← Checked.getUidFromStream (data.drop 4)
      rpcEventClient service uid (data.drop 4) (data.length - 4) session) ↔
      12 ≤ data.length ∧ ((∃ f, service.rpc session = some (.func f)) → 14 ≤ data.length) := by
  by_cases hcalled : ∃ f, service.rpc session = some (.func f)
  · obtain ⟨f, hf⟩ := hcalled
    have hiff : 12 ≤ data.length ∧ ((∃ f, service.rpc session = some (.func f)) →
        14 ≤ data.length) ↔ 14 ≤ data.length :=
      ⟨fun hlong => hlong.2 ⟨f, hf⟩, fun hlong => ⟨by omega, fun _ => hlong⟩⟩
    rw [hiff]
    simp only [rpcEventClient, hf]
    apply packet_inside_iff h hlt
    intro uid pack _ hfills
    exact parsedInside_ok.mpr hfills
  · -- without a function the packet is not decoded, only the user is read
    have hnothing : ∀ uid, rpcEventClient service uid (data.drop 4) (data.length - 4) session =
        .ok .nothing := by
      intro uid
      rw [rpcEventClient]
      split
      · rfl
      · rfl
      next f hf => exact absurd ⟨f, hf⟩ hcalled
    by_cases htwelve : 12 ≤ data.length
    · obtain ⟨uid, huid⟩ := uid_ok htwelve
      rw [huid, ok_bind, hnothing]
      exact iff_of_true (parsedInside_ok.mpr trivial) ⟨htwelve, fun hf => absurd hf hcalled⟩
    · rw [uid_short (Nat.not_le.mp htwelve), error_bind]
      exact iff_of_false not_parsedInside_error fun hlong => htwelve hlong.1

/-- The `sub_type` is read in network byte order. -/
private theorem subType_eq (h : 4 ≤ data.length) :
    htonl (leNat ((data.drop 0).take 4)) = subTypeOf data := by
  have hswap := swapBytes_leNat (data.take 4)
  rwa [List.length_take, min_eq_left h] at hswap

/-- A text message, whose `sub_type` tells what follows. -/
private theorem text_inside_iff (h : 4 ≤ data.length) (hlt : data.length < 2 ^ 32) :
    ParsedInside data.length (
      if subTypeOf data = subtypeProtobuf ∨ subTypeOf data = subtypeSystem then
        proto service (data.drop 4) (data.length - 4)
      else if subTypeOf data = subtypeRpcServer then do
        let uid ← Checked.getUidFromStream (data.drop 4)
        rpcEventServer uid (data.drop 4) (data.length - 4)
      else if subTypeOf data = subtypePlainText then
        return .text 4 (data.length - 4)
      else
        return .nothing) ↔
      (subTypeOf data ∈ [subtypeProtobuf, subtypeSystem, subtypeRpcServer] →
        14 ≤ data.length) := by
  simp only [List.mem_cons, List.not_mem_nil, or_false]
  -- each `sub_type` has its dispatcher; plain text is handed on as it is
  split_ifs with hproto hserver hplain
  · rw [proto_inside_iff h hlt]
    exact ⟨fun hlong _ => hlong, fun himp => himp (by tauto)⟩
  · rw [rpcEventServer_inside_iff h hlt]
    exact ⟨fun hlong _ => hlong, fun himp => himp (by tauto)⟩
  · refine iff_of_true (parsedInside_ok.mpr ?_) fun hmem => ?_
    · change 4 + (data.length - 4) ≤ data.length
      omega
    · rw [hplain] at hmem
      exact absurd hmem (by decide)
  · exact iff_of_true (parsedInside_ok.mpr trivial) fun hmem => by tauto

/-- The size that `message` gets is negative from 2^31 on. -/
private theorem message_inside_iff (hlt : data.length < 2 ^ 32) :
    (Polled.message (F := F) 0 (toInt32 data.length)).Inside data.length ↔
      data.length < 2 ^ 31 := by
  by_cases hlong : data.length < 2 ^ 31
  · refine iff_of_true ?_ hlong
    rw [toInt32_of_lt (by omega) (by omega)]
    constructor <;> omega
  · refine iff_of_false ?_ hlong
    rintro ⟨hpositive, -⟩
    rw [toInt32, Int.bmod] at hpositive
    omega

private theorem polled_inside_iff (hlt : data.length < 2 ^ 32) :
    ParsedInside data.length (servicePoll service data source session type) ↔
      LongEnough service data source session type := by
  have hall : Checked.read data 0 data.length = .ok ((data.drop 0).take data.length) :=
    Checked.read_ok (by omega)
  rw [servicePoll, LongEnough]
  simp only [hall, ok_bind]
  split_ifs with htext hclient hresponse hsource
  · by_cases hfour : 4 ≤ data.length
    · rw [Checked.read_ok (by omega), ok_bind, subType_eq hfour, Checked.remaining_ok hfour,
        ok_bind, and_iff_right hfour]
      exact text_inside_iff hfour hlt
    · rw [Checked.read_short (by omega), error_bind]
      exact iff_of_false not_parsedInside_error fun hlong => hfour hlong.1
  · exact parsedInside_ok.trans (message_inside_iff hlt)
  · exact iff_of_true (parsedInside_ok.mpr trivial) (Or.inl hsource)
  · rw [or_iff_right hsource]
    by_cases hfour : 4 ≤ data.length
    · rw [Checked.read_ok (by omega), ok_bind, subType_eq hfour, Checked.remaining_ok hfour,
        ok_bind, and_iff_right hfour]
      split_ifs with hclient
      · rw [rpcEventClient_inside_iff hfour hlt]
        exact ⟨fun hlong _ => hlong, fun himp => himp hclient⟩
      · exact iff_of_true (parsedInside_ok.mpr trivial) fun heq => absurd heq hclient
    · rw [Checked.read_short (by omega), error_bind]
      exact iff_of_false not_parsedInside_error fun hlong => hfour hlong.1
  · exact iff_of_true (parsedInside_ok.mpr trivial) trivial

/-- **Exactly the messages that are long enough are parsed inside their bytes**, and of the
packets that `InPack::reset` gets those with two bytes. -/
theorem servicePoll_inside_iff (hlt : data.length < 2 ^ 32) :
    (ParsedInside data.length (servicePoll service data source session type) ↔
      LongEnough service data source session type) ∧
    ∀ p, (∃ r, Checked.reset p data data.length = .ok r ∧ (r.2 = true →
      r.1.pbData ≤ data.length ∧ r.1.pbData + r.1.pbDataLen = data.length)) ↔ 2 ≤ data.length :=
  ⟨polled_inside_iff hlt, Checked.reset_inside_iff⟩

end Inside

/-! ### Packets of calls -/

section Dispatch

variable {service : Service F} {data : Bytes} {source : ℕ} {session : ℤ} {type : ℕ}
  {uid : UInt64} {pack : InPack × Bool}

/-- The packet belongs to a call. -/
private def Polled.isCall : Polled F → Bool
  | .rpcServer _ _ => true
  | .rpcClient _ _ _ => true
  | _ => false

/-- What `servicePoll` may come to, with the user and the packet that it read. -/
private inductive Dispatched (service : Service F) (data : Bytes) (session : ℤ) (type : ℕ) :
    Polled F → Prop
  | rpcServer {uid : UInt64} {pack : InPack × Bool} (htype : type = ptypeText)
      (huid : Checked.getUidFromStream (data.drop 4) = .ok uid)
      (hpack : Checked.innerReset .new (data.drop 4) (data.length - 4) = .ok pack) :
      Dispatched service data session type (.rpcServer uid pack)
  | rpcClient {uid : UInt64} {f : F} {pack : InPack × Bool} (htype : type = ptypeResponse)
      (hf : service.rpc session = some (.func f))
      (huid : Checked.getUidFromStream (data.drop 4) = .ok uid)
      (hpack : Checked.innerReset .new (data.drop 4) (data.length - 4) = .ok pack) :
      Dispatched service data session type (.rpcClient uid f pack)
  | other {polled : Polled F} (hcall : polled.isCall = false) :
      Dispatched service data session type polled

private theorem dispatched {polled : Polled F}
    (h : servicePoll service data source session type = .ok polled) :
    Dispatched service data session type polled := by
  obtain ⟨_, _, h⟩ := bind_ok h
  simp only at h
  split_ifs at h with htext hclient hresponse hsource
  · -- a text message
    obtain ⟨_, _, h⟩ := bind_ok h
    obtain ⟨size, hsize, h⟩ := bind_ok h
    obtain ⟨-, rfl⟩ := Checked.remaining_eq hsize
    split_ifs at h
    · -- `proto`
      obtain ⟨uid, huid, h⟩ := bind_ok h
      obtain ⟨pack, hpack, h⟩ := bind_ok h
      split_ifs at h
      · obtain ⟨_, _, h⟩ := bind_ok h
        rw [← Except.ok.inj h]
        exact .other rfl
      · rw [← Except.ok.inj h]
        exact .other rfl
    · obtain ⟨uid, huid, h⟩ := bind_ok h
      obtain ⟨pack, hpack, h⟩ := bind_ok h
      rw [← Except.ok.inj h]
      exact .rpcServer htext huid hpack
    · rw [← Except.ok.inj h]
      exact .other rfl
    · rw [← Except.ok.inj h]
      exact .other rfl
  · rw [← Except.ok.inj h]
    exact .other rfl
  · rw [← Except.ok.inj h]
    exact .other rfl
  · -- a response
    obtain ⟨_, _, h⟩ := bind_ok h
    obtain ⟨size, hsize, h⟩ := bind_ok h
    obtain ⟨-, rfl⟩ := Checked.remaining_eq hsize
    split_ifs at h
    · obtain ⟨uid, huid, h⟩ := bind_ok h
      rw [rpcEventClient] at h
      split at h
      · rw [← Except.ok.inj h]
        exact .other rfl
      · rw [← Except.ok.inj h]
        exact .other rfl
      next f hf =>
        obtain ⟨pack, hpack, h⟩ := bind_ok h
        rw [← Except.ok.inj h]
        exact .rpcClient hresponse hf huid hpack
    · rw [← Except.ok.inj h]
      exact .other rfl
  · rw [← Except.ok.inj h]
    exact .other rfl

/-- A request comes as a text message. -/
theorem servicePoll_rpcServer
    (h : servicePoll service data source session type = .ok (.rpcServer uid pack)) :
    type = ptypeText ∧ Checked.getUidFromStream (data.drop 4) = .ok uid ∧
      Checked.innerReset .new (data.drop 4) (data.length - 4) = .ok pack := by
  cases dispatched h with
  | rpcServer htype huid hpack => exact ⟨htype, huid, hpack⟩
  | other hcall => exact nomatch hcall

/-- A response comes for a call that waits for it. -/
theorem servicePoll_rpcClient {f : F}
    (h : servicePoll service data source session type = .ok (.rpcClient uid f pack)) :
    type = ptypeResponse ∧ service.rpc session = some (.func f) ∧
      Checked.getUidFromStream (data.drop 4) = .ok uid ∧
      Checked.innerReset .new (data.drop 4) (data.length - 4) = .ok pack := by
  cases dispatched h with
  | rpcClient htype hf huid hpack => exact ⟨htype, hf, huid, hpack⟩
  | other hcall => exact nomatch hcall

end Dispatch

/-- A service that waits for no call and has registered no name. -/
def Service.idle : Service Unit := ⟨fun _ => none, fun _ => false⟩

/-- A message that has the length of its name, and no more. -/
theorem servicePoll_inside_iff_fourteen :
    (ParsedInside 14 (servicePoll .idle [0, 0, 0, 16, 0, 0, 0, 0, 0, 0, 0, 7, 0, 0] 7 0 ptypeText) ↔
      LongEnough .idle [0, 0, 0, 16, 0, 0, 0, 0, 0, 0, 0, 7, 0, 0] 7 0 ptypeText) ∧
    ∀ p, (∃ r, Checked.reset p [0, 0, 0, 16, 0, 0, 0, 0, 0, 0, 0, 7, 0, 0] 14 = .ok r ∧
      (r.2 = true → r.1.pbData ≤ 14 ∧ r.1.pbData + r.1.pbDataLen = 14)) ↔ 2 ≤ 14 :=
  @servicePoll_inside_iff _ _ [0, 0, 0, 16, 0, 0, 0, 0, 0, 0, 0, 7, 0, 0] _ _ _ (by decide)

/-- A message that ends behind its `sub_type`: the user is read outside it. A message of
three bytes: the `sub_type` is. -/
theorem servicePoll_outside :
    servicePoll Service.idle [0, 0, 0, 16] 7 0 ptypeText = .error (.outside 0 8) ∧
      ¬ ParsedInside 4 (servicePoll Service.idle [0, 0, 0, 16] 7 0 ptypeText) ∧
      servicePoll Service.idle [0, 0, 16] 7 0 ptypeText = .error (.outside 0 4) := by
  refine ⟨rfl, ?_, rfl⟩
  exact not_parsedInside_error

end TestCluster.Common
