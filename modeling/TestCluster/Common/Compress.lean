import TestCluster.Common.InPack
import TestCluster.Common.Zlib

/-!
# Packing compressed messages

The functions of `cpp/common/Pack.cpp` that serialize a message and pack it, with or without
compression, and the one that compresses a packet that was already packed. A compressed
packet has the top bit of its `roomid` set. `zlib_compress` is given as the function of its input
that it computes (`Zlib.Computes`).

## Main definitions

* `Message` — a protobuf message, as the packer sees it
* `OutPack.reset`, `OutPack.zipReset`, `OutPack.zipResetRow` — the fields of the encoder
* `serializeMsg`, `serializeMsgWithCompress`, `compressRowMsg`, `serializeImsg`,
  `serializeImsgType` — the packers

## Main results

* `OutPack.zipResetRow_eq` — what is read from a packet
* `compressed_sends_agree` — compressing a packet gives the same as compressing the message
-/

namespace TestCluster.Common

open Semantics

/-- A protobuf message: `GetTypeName` and `SerializeToString`, which fails when a required
field is missing. A serialized message has less than 2 GiB. -/
structure Message where
  typeName : Bytes
  serialized : Option Bytes
  length_lt : ∀ data, serialized = some data → data.length < 2 ^ 31

/-- `std::string(ptr, n)`. The length is a `size_t`; one that no string can have throws. -/
def stdString (buf : Bytes) (off : ℕ) (n : ℤ) : Except Fault Bytes :=
  if 2 ^ 63 ≤ toSizeT n then
    .error (.raised "basic_string::_M_create")
  else
    readAt buf off (toSizeT n)

/-- `char buf[n] = {0}`. -/
def zeroed (n : ℕ) : Buffer := ⟨n, fun _ => some 0⟩

/-- A type name, copied through a buffer on the stack, or on the heap when it is long. -/
def copyName (name : Bytes) : Except Fault Bytes :=
  let namelen := name.length
  if namelen ≥ 1024 then do
    let namebuf ← skynetMalloc namelen
    let namebuf ← namebuf.write 0 name
    namebuf.read 0 namelen
  else do
    let namebuf ← (zeroed 1024).write 0 name
    namebuf.read 0 namelen

/-- `(1<<31) | roomid`. -/
def compressRoomid (roomid : Int32) : Int32 := (1 : Int32) <<< 31 ||| roomid

namespace OutPack

/-- `OutPack()`. -/
def new : OutPack := ⟨[], []⟩

variable (zlib : Bytes → Option Bytes) (o : OutPack)

/-- `reset`. A failed serialization leaves the data empty. -/
def reset (msg : Message) : OutPack × Bool :=
  match msg.serialized with
  | none => ({ o with pbData := [] }, false)
  | some data => (⟨msg.typeName, data⟩, true)

/-- `zip_reset`, of a message. -/
def zipReset (msg : Message) : OutPack × Bool :=
  match msg.serialized with
  | none => ({ o with pbData := [] }, false)
  | some data =>
    match zlib data with
    | none => ({ o with pbData := data }, false)
    | some output => (⟨msg.typeName, output⟩, true)

/-- `zip_reset`, of a packet for a client. The bytes of a `std::string` are followed by a NUL.
A declared length that is not that of the packet is logged. -/
def zipResetRow (msg : Bytes) : Except Fault (OutPack × Int32 × Bool) := do
  let data := msg ++ [0]
  let msglen := htonl (leNat (← readAt data 0 4))
  let namelen := htons (leNat (← readAt data kMessageLen 2))
  let typeName ← copyName (← readAt data (kMessageLen + kTypeNameLen) namelen)
  let roomid := leNat (← readAt data (kMessageLen + kTypeNameLen + namelen) 4)
  let roomid := (UInt32.ofNat (htonl roomid)).toInt32
  let rowmsg := kMessageLen + kTypeNameLen + namelen + kRoomidLen
  let rowMsgLen := toInt32 (toUInt32 (msglen - (kTypeNameLen + namelen + kRoomidLen : ℕ)))
  let input ← stdString data rowmsg rowMsgLen
  match zlib input with
  | none => return ({ o with typeName := typeName }, roomid, false)
  | some output => return (⟨typeName, output⟩, roomid, true)

end OutPack

/-! ### The packers -/

section Packers

variable (zlib : Bytes → Option Bytes) (msg : Message)

/-- `serialize_msg`. -/
def serializeMsg (subType : UInt32) (roomid : Int32) : Except Fault (Option Bytes) :=
  (OutPack.new.reset msg).1.newOutpack subType roomid

/-- `serialize_msg_with_compress`. -/
def serializeMsgWithCompress (roomid : Int32) : Except Fault (Option Bytes) :=
  (OutPack.new.zipReset zlib msg).1.newOutpack 0 (compressRoomid roomid)

/-- `compress_row_msg`. -/
def compressRowMsg (row : Bytes) : Except Fault (Option Bytes) := do
  let (opack, roomid, _) ← OutPack.new.zipResetRow zlib row
  opack.newOutpack 0 (compressRoomid roomid)

/-- `serialize_imsg`. -/
def serializeImsg (uid : UInt64) (roomid : Int32) : Except Fault (Option Bytes) :=
  some <$> (OutPack.new.reset msg).1.newInnerpack uid roomid

/-- `serialize_imsg_type`. -/
def serializeImsgType (uid : UInt64) (subType : UInt32) (roomid : Int32) :
    Except Fault (Option Bytes) :=
  some <$> (OutPack.new.reset msg).1.newInnerpackType uid subType roomid

end Packers

/-! ### Reading a packet -/

/-- The length that a packet declares. -/
def rowLength (row : Bytes) : ℕ := beNat (slice row 0 4)

/-- The length of its type name. -/
def rowNameLength (row : Bytes) : ℕ := beNat (slice row 4 2)

/-- Its type name. -/
def rowName (row : Bytes) : Bytes := slice row 6 (rowNameLength row)

/-- Its room. -/
def rowRoomid (row : Bytes) : Int32 :=
  (UInt32.ofNat (beNat (slice (row ++ [0]) (6 + rowNameLength row) 4))).toInt32

/-- The length of its data, as it is computed from the declared one. -/
def rowDataLength (row : Bytes) : ℤ :=
  toInt32 (toUInt32 (rowLength row - (6 + rowNameLength row : ℕ)))

namespace OutPack

section Row

variable {zlib : Bytes → Option Bytes} {o : OutPack} {row : Bytes}

private theorem slice_append_nul {off len : ℕ} (h : off + len ≤ row.length) :
    slice (row ++ [0]) off len = slice row off len := by
  rw [slice, slice, List.drop_append_of_le_length (by omega),
    List.take_append_of_le_length (by rw [List.length_drop]; omega)]

/-- The buffer is large enough for the name. -/
theorem copyName_eq {name : Bytes} (h : name.length < 2 ^ 62) : copyName name = .ok name := by
  have hcopy : ∀ {namebuf : Buffer} {size : ℕ}, namebuf.Filled size [] → name.length ≤ size →
      (do let namebuf ← namebuf.write 0 name; namebuf.read 0 name.length) = .ok name := by
    intro namebuf size hfilled hfit
    obtain ⟨b, hwrite, hfilled'⟩ := hfilled.write 0 name rfl (by omega)
    rw [hwrite, ok_bind]
    exact hfilled'.read name.length rfl
  simp only [copyName]
  split_ifs with hlong
  · rw [skynetMalloc_of_lt h, ok_bind]
    exact hcopy (Buffer.Filled.alloc _) le_rfl
  · have hstack : (zeroed 1024).Filled 1024 [] :=
      ⟨rfl, Nat.zero_le _, fun _ hi => absurd hi (Nat.not_lt_zero _)⟩
    exact hcopy hstack (by omega)

/-- A number in network byte order, read from the bytes of a string. -/
private theorem readAt_number {off width : ℕ} (h : off + width ≤ row.length) :
    ∃ bs, readAt (row ++ [0]) off width = .ok bs ∧
      swapBytes width (leNat bs) = beNat (slice row off width) := by
  have hin : off + width ≤ (row ++ [0]).length := by
    rw [List.length_append]
    omega
  refine ⟨_, readAt_of_le hin, ?_⟩
  have hswap := swapBytes_leNat (slice row off width)
  rw [length_slice h] at hswap
  rw [slice_append_nul h, hswap]

/-- The length of the name, as it is read. -/
theorem htons_rowNameLength (h : 6 ≤ row.length) :
    htons (leNat (slice (row ++ [0]) kMessageLen 2)) = rowNameLength row := by
  have hfield : slice (row ++ [0]) kMessageLen 2 = slice row 4 2 :=
    slice_append_nul (show 4 + 2 ≤ row.length by omega)
  have hswap := swapBytes_leNat (slice row 4 2)
  rw [length_slice (by omega)] at hswap
  rw [hfield, htons, hswap, rowNameLength]

theorem rowNameLength_lt (h : 6 ≤ row.length) : rowNameLength row < 2 ^ 16 := by
  have hlt := beNat_lt (slice row 4 2)
  rw [length_slice h] at hlt
  exact hlt

/-- What is read from a packet that has its name and its room. -/
theorem zipResetRow_eq (h : 10 + rowNameLength row ≤ row.length + 1) :
    o.zipResetRow zlib row = do
      let input ← stdString (row ++ [0]) (10 + rowNameLength row) (rowDataLength row)
      match zlib input with
      | none => return ({ o with typeName := rowName row }, rowRoomid row, false)
      | some output => return (⟨rowName row, output⟩, rowRoomid row, true) := by
  obtain ⟨bs, hlength, hmsglen⟩ := @readAt_number row 0 4 (by omega)
  obtain ⟨bs', hnameLength, hnamelen⟩ := @readAt_number row 4 2 (by omega)
  change htonl (leNat bs) = rowLength row at hmsglen
  change readAt (row ++ [0]) kMessageLen 2 = .ok bs' at hnameLength
  change htons (leNat bs') = rowNameLength row at hnamelen
  -- the name is inside the packet, the room may end with the NUL behind it
  have hname : readAt (row ++ [0]) (kMessageLen + kTypeNameLen) (rowNameLength row) =
      .ok (rowName row) := by
    rw [readAt_of_le (by rw [List.length_append, kMessageLen, kTypeNameLen]; omega)]
    exact congrArg Except.ok (slice_append_nul (by rw [kMessageLen, kTypeNameLen]; omega))
  have hcopy : copyName (rowName row) = .ok (rowName row) := by
    have hlen : (rowName row).length = rowNameLength row := length_slice (by omega)
    have hlt := @rowNameLength_lt row (by omega)
    exact copyName_eq (by omega)
  have hin : 6 + rowNameLength row + 4 ≤ (row ++ [0]).length := by
    rw [List.length_append, List.length_singleton]
    omega
  have hroom : readAt (row ++ [0]) (kMessageLen + kTypeNameLen + rowNameLength row) 4 =
      .ok (slice (row ++ [0]) (6 + rowNameLength row) 4) := readAt_of_le hin
  have hroomid : htonl (leNat (slice (row ++ [0]) (6 + rowNameLength row) 4)) =
      beNat (slice (row ++ [0]) (6 + rowNameLength row) 4) := by
    have hswap := swapBytes_leNat (slice (row ++ [0]) (6 + rowNameLength row) 4)
    rwa [length_slice hin] at hswap
  have hrowmsg : kMessageLen + kTypeNameLen + rowNameLength row + kRoomidLen =
      10 + rowNameLength row := by
    rw [kMessageLen, kTypeNameLen, kRoomidLen]
    omega
  have hhead : kTypeNameLen + rowNameLength row + kRoomidLen = 6 + rowNameLength row := by
    rw [kTypeNameLen, kRoomidLen]
    omega
  simp -implicitDefEqProofs only [zipResetRow, hlength, ok_bind, hmsglen, hnameLength, hnamelen,
    hname, hcopy, hroom, hroomid, hrowmsg, hhead, rowDataLength, rowRoomid]

/-- A length that is not negative is that of the string. -/
theorem stdString_natCast {buf : Bytes} {off len : ℕ} (hlt : len < 2 ^ 31) :
    stdString buf off len = readAt buf off len := by
  have hsize : toSizeT len = len := by
    rw [toSizeT_of_lt (by omega) (by omega), Int.toNat_natCast]
  rw [stdString, hsize, if_neg (by omega)]

/-- A negative length throws. -/
theorem stdString_of_neg {buf : Bytes} {off : ℕ} {n : ℤ} (hneg : n < 0) (hge : -2 ^ 31 ≤ n) :
    stdString buf off n = .error (.raised "basic_string::_M_create") := by
  have hhuge : 2 ^ 63 ≤ toSizeT n := by
    unfold toSizeT
    omega
  rw [stdString, if_pos hhuge]

theorem rowDataLength_range (row : Bytes) :
    -2 ^ 31 ≤ rowDataLength row ∧ rowDataLength row < 2 ^ 31 := toInt32_range _

end Row

/-! ### A packet that was packed -/

section Packed

/-- A packet for a client. -/
def packed (o : OutPack) (roomid : Int32) : Bytes :=
  beBytes 4 (o.packBody roomid).length ++ o.packBody roomid

variable {o : OutPack} {roomid : Int32}

theorem length_packed (o : OutPack) (roomid : Int32) :
    (o.packed roomid).length = 10 + o.typeName.length + o.pbData.length := by
  rw [packed, List.length_append, length_beBytes, length_packBody]
  omega

private theorem packed_eq (o : OutPack) (roomid : Int32) :
    o.packed roomid = beBytes 4 (o.packBody roomid).length ++ (beBytes 2 o.typeName.length ++
      (o.typeName ++ (beBytes 4 roomid.toUInt32.toNat ++ o.pbData))) := rfl

theorem rowLength_packed (h : 6 + o.typeName.length + o.pbData.length < 2 ^ 32) :
    rowLength (o.packed roomid) = 6 + o.typeName.length + o.pbData.length := by
  have hfield : slice (o.packed roomid) 0 4 = beBytes 4 (o.packBody roomid).length :=
    slice_eq [] _ rfl rfl (length_beBytes 4 _)
  rw [rowLength, hfield, length_packBody, beNat_beBytes_of_lt (by omega)]

theorem rowNameLength_packed (hname : o.typeName.length < 2 ^ 16) :
    rowNameLength (o.packed roomid) = o.typeName.length := by
  have hfield : slice (o.packed roomid) 4 2 = beBytes 2 o.typeName.length :=
    slice_eq _ _ (packed_eq o roomid) (length_beBytes 4 _) (length_beBytes 2 _)
  rw [rowNameLength, hfield, beNat_beBytes_of_lt (by omega)]

theorem rowName_packed (hname : o.typeName.length < 2 ^ 16) :
    rowName (o.packed roomid) = o.typeName := by
  rw [rowName, rowNameLength_packed hname]
  exact slice_eq (beBytes 4 (o.packBody roomid).length ++ beBytes 2 o.typeName.length)
    (beBytes 4 roomid.toUInt32.toNat ++ o.pbData) (by rw [packed_eq, List.append_assoc]) (by simp)
    rfl

theorem rowRoomid_packed (hname : o.typeName.length < 2 ^ 16) :
    rowRoomid (o.packed roomid) = roomid := by
  have hfield : slice (o.packed roomid ++ [0]) (6 + o.typeName.length) 4 =
      beBytes 4 roomid.toUInt32.toNat :=
    slice_eq (beBytes 4 (o.packBody roomid).length ++ (beBytes 2 o.typeName.length ++ o.typeName))
      (o.pbData ++ [0]) (by rw [packed_eq]; simp) (by simp; omega) (length_beBytes 4 _)
  rw [rowRoomid, rowNameLength_packed hname, hfield,
    beNat_beBytes_of_lt (lt_of_lt_of_le roomid.toUInt32.toNat_lt (by decide)), UInt32.ofNat_toNat,
    Int32.toInt32_toUInt32]

theorem rowDataLength_packed (hname : o.typeName.length < 2 ^ 16)
    (hdata : o.pbData.length < 2 ^ 31) : rowDataLength (o.packed roomid) = o.pbData.length := by
  have hdiff : ((6 + o.typeName.length + o.pbData.length : ℕ) : ℤ) -
      ((6 + o.typeName.length : ℕ) : ℤ) = o.pbData.length := by
    push_cast
    omega
  rw [rowDataLength, rowLength_packed (by omega), rowNameLength_packed hname, hdiff,
    toUInt32_natCast (by omega), toInt32_of_lt (by omega) (by omega)]

/-- A packet that was packed is read back, and its data compressed. -/
theorem zipResetRow_packed (zlib : Bytes → Option Bytes) (o' : OutPack)
    (hname : o.typeName.length < 2 ^ 16) (hdata : o.pbData.length < 2 ^ 31) :
    o'.zipResetRow zlib (o.packed roomid) =
      match zlib o.pbData with
      | none => .ok ({ o' with typeName := o.typeName }, roomid, false)
      | some output => .ok (⟨o.typeName, output⟩, roomid, true) := by
  have hlen := length_packed o roomid
  have hinput : stdString (o.packed roomid ++ [0]) (10 + o.typeName.length) o.pbData.length =
      .ok o.pbData := by
    rw [stdString_natCast hdata,
      readAt_of_le (by rw [List.length_append, hlen, List.length_singleton]; omega)]
    exact congrArg Except.ok (slice_eq (beBytes 4 (o.packBody roomid).length ++
      (beBytes 2 o.typeName.length ++ (o.typeName ++ beBytes 4 roomid.toUInt32.toNat))) [0]
      (by rw [packed_eq]; simp) (by simp; omega) rfl)
  rw [zipResetRow_eq (by rw [rowNameLength_packed hname, hlen]; omega),
    rowNameLength_packed hname, rowDataLength_packed hname hdata, hinput, ok_bind,
    rowName_packed hname, rowRoomid_packed hname]
  rfl

end Packed

end OutPack

/-! ### Two ways to send a compressed message -/

/-- The longest output of zlib for `n` bytes. -/
def compressBound (n : ℕ) : ℕ := n + n / 2 ^ 12 + n / 2 ^ 14 + n / 2 ^ 25 + 13

/-- The top bit is set, the others are those of the room. -/
theorem compressRoomid_bit (roomid : Int32) (i : ℕ) :
    (compressRoomid roomid).toBitVec.getLsbD i =
      (decide (i = 31) || roomid.toBitVec.getLsbD i) := by
  have htop : ((1 : Int32) <<< 31).toBitVec.getLsbD i = decide (i = 31) := by
    rw [show ((1 : Int32) <<< 31).toBitVec = BitVec.twoPow 32 31 by decide, BitVec.getLsbD_twoPow]
    by_cases h : i = 31
    · simp [h]
    · simp [h, Ne.symm h]
  rw [compressRoomid, Int32.toBitVec_or, BitVec.getLsbD_or, htop]

section Send

variable {zlib : Bytes → Option Bytes} {msg : Message} {data output : Bytes}

open OutPack

theorem serializeMsg_eq (h : msg.serialized = some data) (hname : msg.typeName.length < 2 ^ 16)
    (roomid : Int32) :
    serializeMsg msg 0 roomid = .ok (some (packed ⟨msg.typeName, data⟩ roomid)) := by
  have hdata := msg.length_lt data h
  have hreset : OutPack.new.reset msg = (⟨msg.typeName, data⟩, true) := by rw [reset, h]
  have hfit : 10 + msg.typeName.length + data.length < 2 ^ 32 := by omega
  have hpacked := @newOutpack_eq ⟨msg.typeName, data⟩ roomid hfit
  rw [serializeMsg, hreset, hpacked, packed]

theorem serializeMsgWithCompress_eq (h : msg.serialized = some data) (hz : zlib data = some output)
    (roomid : Int32) : serializeMsgWithCompress zlib msg roomid =
      newOutpack ⟨msg.typeName, output⟩ 0 (compressRoomid roomid) := by
  have hreset : OutPack.new.zipReset zlib msg = (⟨msg.typeName, output⟩, true) := by
    simp only [zipReset, h, hz]
  rw [serializeMsgWithCompress, hreset]

theorem compressRowMsg_packed {o : OutPack} (hname : o.typeName.length < 2 ^ 16)
    (hdata : o.pbData.length < 2 ^ 31) (hz : zlib o.pbData = some output) (roomid : Int32) :
    compressRowMsg zlib (o.packed roomid) =
      newOutpack ⟨o.typeName, output⟩ 0 (compressRoomid roomid) := by
  have hreset : OutPack.new.zipResetRow zlib (o.packed roomid) =
      .ok (⟨o.typeName, output⟩, roomid, true) := by
    rw [zipResetRow_packed zlib OutPack.new hname hdata, hz]
  rw [compressRowMsg, hreset, ok_bind]

/-- What `out_reset` makes of a packet: the type name, the room and the data, or a rejection
when the name is longer than `kMaxTypeNameLen`. -/
theorem outReset_packed (o : OutPack) (roomid : Int32) (p : InPack)
    (hname : o.typeName.length < 2 ^ 16)
    (h : 10 + o.typeName.length + o.pbData.length < 2 ^ 32) :
    (o.typeName.length ≤ kMaxTypeNameLen →
      ∃ p', InPack.outReset p (o.packed roomid) (o.packed roomid).length = .ok (p', true) ∧
        p'.Carries (o.packed roomid) o roomid) ∧
    (kMaxTypeNameLen < o.typeName.length →
      ∃ p', InPack.outReset p (o.packed roomid) (o.packed roomid).length = .ok (p', false)) := by
  have hlen := length_packed o roomid
  refine ⟨fun hshort => ?_, fun hlong => ?_⟩
  · exact InPack.outReset_packBody o roomid p (beBytes 4 (o.packBody roomid).length)
      (length_beBytes 4 _) hshort (by rw [packed] at hlen; omega)
  · have hpositive : ¬ (o.packed roomid).length = 0 := by omega
    have hread : readAt (o.packed roomid) 0 4 = .ok (beBytes 4 (o.packBody roomid).length) :=
      readAt_eq_ok [] (o.packBody roomid) rfl rfl (length_beBytes 4 _)
    have hreject := InPack.decodeStream_reject { p with dataLen := (o.packed roomid).length }
      (beBytes 4 (o.packBody roomid).length) (show o.packed roomid = _ ++ _ from rfl) hlong hname
      (toUInt32 ((o.packed roomid).length - 4))
    rw [length_beBytes] at hreject
    refine ⟨{ p with dataLen := (o.packed roomid).length }, ?_⟩
    simp only [InPack.outReset, InPack.sizeOrStrlen, if_neg hpositive, hread, ok_bind, hreject]

/-- **The two compressed sends agree.** For a message that serializes and whose type name fits
16 bits, compressing its packet gives the same as packing it compressed. When the compressed
data is as short as zlib promises, that is a packet with the type name, the compressed data
and the room with its top bit set; the decoder accepts it exactly if the name has at most
`kMaxTypeNameLen` bytes, and then finds these fields. -/
theorem compressed_sends_agree (hserialized : msg.serialized = some data)
    (hname : msg.typeName.length < 2 ^ 16) (hz : zlib data = some output) (roomid : Int32) :
    (∃ row, serializeMsg msg 0 roomid = .ok (some row) ∧
      compressRowMsg zlib row = serializeMsgWithCompress zlib msg roomid) ∧
    (∀ i < 31, (compressRoomid roomid).toBitVec.getLsbD i = roomid.toBitVec.getLsbD i) ∧
    (compressRoomid roomid).toBitVec.getLsbD 31 = true ∧
    (output.length ≤ compressBound data.length →
      ∃ packet, serializeMsgWithCompress zlib msg roomid = .ok (some packet) ∧
        rowName packet = msg.typeName ∧ rowRoomid packet = compressRoomid roomid ∧
        packet.drop (10 + msg.typeName.length) = output ∧
        (msg.typeName.length ≤ kMaxTypeNameLen →
          ∃ p', InPack.outReset .new packet packet.length = .ok (p', true) ∧
            p'.typeName = msg.typeName ∧ p'.roomid = compressRoomid roomid ∧
            p'.payload packet = .ok output) ∧
        (kMaxTypeNameLen < msg.typeName.length →
          ∃ p', InPack.outReset .new packet packet.length = .ok (p', false))) := by
  have hdata := msg.length_lt data hserialized
  have hcompressed := serializeMsgWithCompress_eq hserialized hz roomid
  refine ⟨⟨_, serializeMsg_eq hserialized hname roomid, ?_⟩, fun i hi => ?_, ?_, fun hbound => ?_⟩
  · have hrow := @compressRowMsg_packed zlib output ⟨msg.typeName, data⟩ hname hdata hz roomid
    rw [hrow, hcompressed]
  · rw [compressRoomid_bit, decide_eq_false (by omega), Bool.false_or]
  · rw [compressRoomid_bit, decide_eq_true rfl, Bool.true_or]
  · have hfit : 10 + msg.typeName.length + output.length < 2 ^ 32 := by
      unfold compressBound at hbound
      omega
    set o : OutPack := ⟨msg.typeName, output⟩ with ho
    have hpacked := @newOutpack_eq o (compressRoomid roomid) hfit
    obtain ⟨haccept, hreject⟩ := outReset_packed o (compressRoomid roomid) .new hname hfit
    refine ⟨o.packed (compressRoomid roomid), hcompressed.trans hpacked, rowName_packed hname,
      rowRoomid_packed hname, ?_, fun hshort => ?_, hreject⟩
    · have hsplit : o.packed (compressRoomid roomid) = (beBytes 4 (o.packBody
          (compressRoomid roomid)).length ++ (beBytes 2 o.typeName.length ++ (o.typeName ++
            beBytes 4 (compressRoomid roomid).toUInt32.toNat))) ++ output := by
        simp [packed, packBody, ho]
      rw [hsplit]
      exact List.drop_left' (by simp [ho]; omega)
    · obtain ⟨p', hreset, hcarries⟩ := haccept hshort
      exact ⟨p', hreset, hcarries.typeName, hcarries.roomid, hcarries.payload⟩

private theorem length_lt_of_empty (data : Bytes) (h : some [] = some data) :
    data.length < 2 ^ 31 := by
  rw [← Option.some.inj h]
  decide

/-- A message of no bytes, named `a`. -/
def emptyMessage : Message := ⟨[0x61], some [], length_lt_of_empty⟩

/-- What zlib makes of the empty string at its best compression. -/
def emptyOutput : Bytes := [0x78, 0xda, 3, 0, 0, 0, 0, 1]

/-- zlib, for the empty string. -/
def zlibEmpty (data : Bytes) : Option Bytes := if data = [] then some emptyOutput else none

private theorem length_lt_of_flag (data : Bytes) (h : some [8, 1] = some data) :
    data.length < 2 ^ 31 := by
  rw [← Option.some.inj h]
  decide

/-- A message whose first field is 1, named `a`. -/
def flagMessage : Message := ⟨[0x61], some [8, 1], length_lt_of_flag⟩

/-- What zlib makes of its bytes at its best compression. -/
def flagOutput : Bytes := [0x78, 0xda, 0xe3, 0x60, 4, 0, 0, 0x13, 0, 0xa]

/-- A message of two bytes, with a library whose output is what zlib makes of them. -/
theorem compressed_sends_agree_flag :
    ∃ zlib row packet, (Zlib.keeping flagOutput).Computes zlib ∧
      serializeMsg flagMessage 0 (-1) = .ok (some row) ∧
      compressRowMsg zlib row = .ok (some packet) ∧
      serializeMsgWithCompress zlib flagMessage (-1) = .ok (some packet) ∧
      ∃ p', InPack.outReset .new packet packet.length = .ok (p', true) ∧
        p'.typeName = flagMessage.typeName ∧ p'.roomid = compressRoomid (-1) ∧
        p'.payload packet = .ok flagOutput := by
  obtain ⟨⟨row, hrow, hagree⟩, -, -, hdecode⟩ := @compressed_sends_agree
    (fun _ => some flagOutput) flagMessage [8, 1] flagOutput rfl (by decide) rfl (-1)
  obtain ⟨packet, hpacket, -, -, -, haccept, -⟩ := hdecode (by decide)
  exact ⟨_, row, packet, Zlib.keeping_computes flagOutput, hrow, hagree.trans hpacket, hpacket,
    haccept (by decide)⟩

/-- A message whose name has 51 bytes. -/
def longNamed : Message := ⟨List.replicate 51 0x61, some [], length_lt_of_empty⟩

/-- Its compressed packet is sent, and the decoder rejects it. -/
theorem longNamed_rejected :
    ∃ packet, serializeMsgWithCompress zlibEmpty longNamed 0 = .ok (some packet) ∧
      ∃ p', InPack.outReset .new packet packet.length = .ok (p', false) := by
  have hcompressed : serializeMsgWithCompress zlibEmpty longNamed 0 =
      newOutpack ⟨longNamed.typeName, emptyOutput⟩ 0 (compressRoomid 0) :=
    @serializeMsgWithCompress_eq zlibEmpty longNamed [] emptyOutput rfl rfl 0
  have hpacked := @newOutpack_eq ⟨longNamed.typeName, emptyOutput⟩ (compressRoomid 0) (by decide)
  obtain ⟨-, hreject⟩ := outReset_packed ⟨longNamed.typeName, emptyOutput⟩
    (compressRoomid 0) .new (by decide) (by decide)
  exact ⟨_, hcompressed.trans hpacked, hreject (by decide)⟩

end Send

end TestCluster.Common
