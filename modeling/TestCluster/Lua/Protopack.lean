import TestCluster.Lua.StringPack
import TestCluster.Common.InPack

/-!
# Protocol packets in Lua

`protopack.lua`: the packets of `Pack.cpp` written and read by format strings that are put
together at run time. The serialized message is given by `protobuf.encode`, and
`protobuf.decode` gets what was extracted.

## Main definitions

* `packRaw`, `packAgent`, `pack` — the encoders
* `unpackRaw`, `unpackAgent` — the decoders

## Main results

* `pack_eq_outPack` — the encoders write the bytes that `OutPack` writes
* `unpack_eq_inPack` — the decoders extract what `InPack` extracts
-/

namespace TestCluster.Lua

open Semantics Common

/-! ### Encoders -/

section Encode

variable {M : Type} (encode : Bytes → M → Bytes)

/-- `M.pack_raw`. -/
def packRaw (type uid : Int64) (name : Bytes) (msg : M) (roomid : Option Int64) :
    Except Fault Bytes :=
  let pbstr := encode name msg
  let pblen := pbstr.length
  let namelen := name.length
  let headRoomid := roomid.getD 0
  let fmt := format ">I L H c%d I c%d".toList [namelen, pblen]
  strPack fmt [.integer type, .integer uid, .integer (Int64.ofNat namelen), .string name,
    .integer headRoomid, .string pbstr]

/-- `M.pack_agent`. -/
def packAgent (type : Int64) (name : Bytes) (msg : M) (roomid : Option Int64) :
    Except Fault Bytes :=
  let pbstr := encode name msg
  let pblen := pbstr.length
  let namelen := name.length
  let datalen := 2 + namelen + 4 + pblen
  let headRoomid := roomid.getD 0
  let fmt := format "> I I H c%d I c%d".toList [namelen, pblen]
  strPack fmt [.integer type, .integer (Int64.ofNat datalen), .integer (Int64.ofNat namelen),
    .string name, .integer headRoomid, .string pbstr]

/-- `M.pack`. -/
def pack (name : Bytes) (msg : M) (roomid : Option Int64) : Except Fault Bytes :=
  let pbstr := encode name msg
  let pblen := pbstr.length
  let namelen := name.length
  let datalen := 2 + namelen + 4 + pblen
  let headRoomid := roomid.getD 0
  let fmt := format "> I H c%d I c%d".toList [namelen, pblen]
  strPack fmt [.integer (Int64.ofNat datalen), .integer (Int64.ofNat namelen), .string name,
    .integer headRoomid, .string pbstr]

end Encode

/-! ### Decoders -/

/-- The first result of `string.unpack`, where it is a number. -/
def unpackNumber (fmt : List Char) (str : Bytes) (init : ℕ) : Except Fault Int64 := do
  match ← strUnpack fmt str init with
  | .integer n :: _ => return n
  | _ => .error (.raised "number expected")

/-- What the decoders extract behind a head of so many bytes: the user, the type name and
the serialized message. -/
def fields (head : ℕ) (str : Bytes) : Except Fault (Int64 × Bytes × Bytes) := do
  let datalen : ℤ := (str.length : ℤ) - head - 8 - 2 - 4
  let uid ← unpackNumber "> L".toList str (head + 1)
  let namelen ← unpackNumber "> H".toList str (head + 9)
  let pblen := datalen - namelen.toInt
  let fmt := format "> c%d I c%d".toList [namelen.toInt, pblen]
  match ← strUnpack fmt str (head + 11) with
  | [.string name, .integer _roomid, .string pbstr] => return (uid, name, pbstr)
  | _ => .error (.raised "string expected")

variable {M : Type} (decode : Bytes → Bytes → Option M)

/-- `M.unpack_raw`: the fields stand behind the `sub_type`. -/
def unpackRaw (str : Bytes) : Except Fault (Int64 × Bytes × Option M) := do
  let (uid, name, pbstr) ← fields 4 str
  return (uid, name, decode name pbstr)

/-- `M.unpack_agent`. -/
def unpackAgent (str : Bytes) : Except Fault (Int64 × Bytes × Option M) := do
  let (uid, name, pbstr) ← fields 0 str
  return (uid, name, decode name pbstr)

/-! ### What the encoders write -/

section Pack

variable {b : Bytes} {args : List Value} {fmt : List Char}

private theorem pack_space (islittle : Bool) :
    scan packItem (' ' :: fmt).length islittle (' ' :: fmt) (b, args) =
      scan packItem fmt.length islittle fmt (b, args) := by
  rw [scan_option rfl, packItem, ok_bind]

private theorem pack_big (islittle : Bool) :
    scan packItem ('>' :: fmt).length islittle ('>' :: fmt) (b, args) =
      scan packItem fmt.length false fmt (b, args) := by
  rw [scan_option rfl, packItem, ok_bind]

/-- An unsigned number takes its bytes, the most significant first. -/
private theorem pack_uint {opt : Char} {n size : ℕ} {x : Int64} (hx : x.toUInt64.toNat = n)
    (hopt : getoption false opt fmt = .ok (.uint, size, false, fmt)) (hsize : size ≤ szInt)
    (h : n < 256 ^ size) :
    scan packItem (opt :: fmt).length false (opt :: fmt) (b, .integer x :: args) =
      scan packItem fmt.length false fmt (b ++ beBytes size n, args) := by
  rw [scan_option hopt, packItem_uint b x args hx hsize h, ok_bind]

/-- A string takes its own bytes, where its length can be read from the format. -/
private theorem pack_char {str : Bytes} (h : str.length ≤ maxSize - 8)
    (hfmt : ∀ c ∈ fmt.head?, digit c = false) :
    scan packItem ('c' :: (formatInteger str.length ++ fmt)).length false
        ('c' :: (formatInteger str.length ++ fmt)) (b, .string str :: args) =
      scan packItem fmt.length false fmt (b ++ str, args) := by
  rw [scan_option (getoption_char false h hfmt), packItem_char, ok_bind]

end Pack

/-- The part of the formats that every packet has. -/
def bodyFormat (namelen pblen : ℕ) : List Char :=
  format " H c%d I c%d".toList [namelen, pblen]

theorem bodyFormat_head (namelen pblen : ℕ) :
    ∀ c ∈ (bodyFormat namelen pblen).head?, digit c = false :=
  head_not_digit rfl _

theorem toUInt64_ofNat {n : ℕ} (h : n < 2 ^ 64) : (Int64.ofNat n).toUInt64.toNat = n :=
  (UInt64.toNat_ofNat' (n := n)).trans (Nat.mod_eq_of_lt h)

theorem toUInt32_ofNat {n : ℕ} (h : n < 2 ^ 31) : (Int32.ofNat n).toUInt32.toNat = n :=
  (UInt32.toNat_ofNat' (n := n)).trans (Nat.mod_eq_of_lt (by omega))

private theorem nil_not_digit : ∀ c ∈ ([] : List Char).head?, digit c = false :=
  fun _ hc => nomatch hc

/-- The part that every packet has is packed as `OutPack` fills it in. -/
private theorem pack_body {o : OutPack} {roomid : ℕ} (hname : o.typeName.length < 2 ^ 16)
    (hdata : o.pbData.length ≤ maxSize - 8) (hroom : roomid < 2 ^ 31) (b : Bytes) :
    scan packItem (bodyFormat o.typeName.length o.pbData.length).length false
        (bodyFormat o.typeName.length o.pbData.length)
        (b, [.integer (Int64.ofNat o.typeName.length), .string o.typeName,
          .integer (Int64.ofNat roomid), .string o.pbData]) =
      .ok (b ++ o.packBody (Int32.ofNat roomid), []) := by
  have hfmt : bodyFormat o.typeName.length o.pbData.length = ' ' :: 'H' :: ' ' :: 'c' ::
      (formatInteger o.typeName.length ++ (' ' :: 'I' :: ' ' :: 'c' ::
        (formatInteger o.pbData.length ++ []))) := rfl
  have hlen : o.typeName.length ≤ maxSize - 8 := by
    rw [maxSize]
    omega
  -- one option after the other, each behind a space
  rw [hfmt, pack_space, pack_uint (toUInt64_ofNat (by omega)) rfl (by decide)
    (lt_of_lt_of_le hname (by decide)), pack_space, pack_char hlen (head_not_digit rfl _),
    pack_space,
    pack_uint (toUInt64_ofNat (by omega)) (getoption_uint false (head_not_digit rfl _)) (by decide)
    (lt_of_lt_of_le hroom (by decide)), pack_space, pack_char hdata nil_not_digit]
  rw [OutPack.packBody, toUInt32_ofNat hroom]
  simp [scan]

/-- What stands in front of the part that every packet has. -/
private theorem strPack_eq {o : OutPack} {roomid : ℕ} (hname : o.typeName.length < 2 ^ 16)
    (hdata : o.pbData.length ≤ maxSize - 8) (hroom : roomid < 2 ^ 31) {fmt : List Char}
    {args : List Value} {head : Bytes}
    (h : scan packItem fmt.length true fmt ([], args) =
      scan packItem (bodyFormat o.typeName.length o.pbData.length).length false
        (bodyFormat o.typeName.length o.pbData.length)
        (head, [.integer (Int64.ofNat o.typeName.length), .string o.typeName,
          .integer (Int64.ofNat roomid), .string o.pbData])) :
    strPack fmt args = .ok (head ++ o.packBody (Int32.ofNat roomid)) := by
  rw [strPack, h, pack_body hname hdata hroom]
  rfl

section Encoders

variable {M : Type} (encode : Bytes → M → Bytes) (name : Bytes) (msg : M)

/-- The message as `OutPack::reset` takes it. -/
def outPackOf : OutPack := ⟨name, encode name msg⟩

variable {encode} {name} {msg}

/-- The number that the encoders write in front of the body is its length. -/
theorem length_body (roomid : Int32) : ((outPackOf encode name msg).packBody roomid).length =
    2 + name.length + 4 + (encode name msg).length := by
  rw [OutPack.length_packBody]
  change 6 + name.length + (encode name msg).length = _
  omega

variable {roomid : ℕ} (hname : name.length ≤ 65535)
  (hdata : (encode name msg).length ≤ 2147483639) (hroom : roomid < 2 ^ 31)

include hname hdata hroom

theorem packRaw_eq (type : UInt32) (uid : Int64) :
    packRaw encode (Int64.ofNat type.toNat) uid name msg (some (Int64.ofNat roomid)) =
      .ok (beBytes 4 type.toNat ++
        (outPackOf encode name msg).innerBody uid.toUInt64 (Int32.ofNat roomid)) := by
  have htype : type.toNat < 2 ^ 32 := type.toNat_lt
  have huid : uid.toUInt64.toNat < 256 ^ 8 := uid.toUInt64.toNat_lt
  have hlt : (outPackOf encode name msg).typeName.length < 2 ^ 16 := Nat.lt_succ_of_le hname
  rw [OutPack.innerBody, ← List.append_assoc]
  apply strPack_eq hlt hdata hroom
  change scan packItem ('>' :: 'I' :: ' ' :: 'L' :: bodyFormat _ _).length true
    ('>' :: 'I' :: ' ' :: 'L' :: bodyFormat _ _) _ = _
  rw [pack_big, pack_uint (toUInt64_ofNat (by omega)) (getoption_uint false (head_not_digit rfl _))
    (by decide) htype, pack_space, pack_uint rfl rfl (by decide) huid, List.nil_append]
  rfl

theorem packAgent_eq (type : UInt32) :
    packAgent encode (Int64.ofNat type.toNat) name msg (some (Int64.ofNat roomid)) =
      .ok (beBytes 4 type.toNat ++
        (beBytes 4 ((outPackOf encode name msg).packBody (Int32.ofNat roomid)).length ++
          (outPackOf encode name msg).packBody (Int32.ofNat roomid))) := by
  have htype : type.toNat < 2 ^ 32 := type.toNat_lt
  have hlt : (outPackOf encode name msg).typeName.length < 2 ^ 16 := Nat.lt_succ_of_le hname
  rw [← List.append_assoc, length_body]
  apply strPack_eq hlt hdata hroom
  change scan packItem ('>' :: ' ' :: 'I' :: ' ' :: 'I' :: bodyFormat _ _).length true
    ('>' :: ' ' :: 'I' :: ' ' :: 'I' :: bodyFormat _ _) _ = _
  rw [pack_big, pack_space,
    pack_uint (toUInt64_ofNat (by omega)) (getoption_uint false (head_not_digit rfl _))
      (by decide) htype, pack_space,
    pack_uint (toUInt64_ofNat (by omega)) (getoption_uint false (bodyFormat_head _ _))
      (by decide) (by omega), List.nil_append]
  rfl

theorem pack_eq :
    pack encode name msg (some (Int64.ofNat roomid)) =
      .ok (beBytes 4 ((outPackOf encode name msg).packBody (Int32.ofNat roomid)).length ++
        (outPackOf encode name msg).packBody (Int32.ofNat roomid)) := by
  have hlt : (outPackOf encode name msg).typeName.length < 2 ^ 16 := Nat.lt_succ_of_le hname
  rw [length_body]
  apply strPack_eq hlt hdata hroom
  change scan packItem ('>' :: ' ' :: 'I' :: bodyFormat _ _).length true
    ('>' :: ' ' :: 'I' :: bodyFormat _ _) _ = _
  rw [pack_big, pack_space,
    pack_uint (toUInt64_ofNat (by omega)) (getoption_uint false (bodyFormat_head _ _))
      (by decide) (by omega), List.nil_append]
  rfl

/-- **The encoders write the same bytes**, as long as the serialized message has at most
2147483639 bytes: (a) for another service, with the `sub_type` in front; (b) for an agent;
(c) for a client. -/
theorem pack_eq_outPack (type : UInt32) (uid : Int64) :
    packRaw encode (Int64.ofNat type.toNat) uid name msg (some (Int64.ofNat roomid)) =
        (outPackOf encode name msg).newInnerpackType uid.toUInt64 type (Int32.ofNat roomid) ∧
      (packAgent encode (Int64.ofNat subtypeAgent.toNat) name msg
          (some (Int64.ofNat roomid))).map some =
        (outPackOf encode name msg).newOutpack subtypeAgent (Int32.ofNat roomid) ∧
      (pack encode name msg (some (Int64.ofNat roomid))).map some =
        (outPackOf encode name msg).newOutpack 0 (Int32.ofNat roomid) := by
  have hsize : (outPackOf encode name msg).typeName.length +
      (outPackOf encode name msg).pbData.length ≤ 65535 + 2147483639 :=
    Nat.add_le_add hname hdata
  rw [packRaw_eq hname hdata hroom, packAgent_eq hname hdata hroom, pack_eq hname hdata hroom,
    OutPack.newInnerpackType_eq _ _ _ (by omega), OutPack.newOutpack_agent_eq _ (by omega),
    OutPack.newOutpack_eq _ (by omega)]
  exact ⟨rfl, rfl, rfl⟩

end Encoders

/-- A message of two bytes, from the user -7 in the room 5, of the type `a`. -/
theorem pack_eq_outPack_small :
    packRaw (fun _ msg => msg) 18 (-7) [0x61] [1, 2] (some 5) =
        (outPackOf (fun _ msg => msg) [0x61] [1, 2]).newInnerpackType (-7) 18 5 ∧
      (packAgent (fun _ msg => msg) 20 [0x61] [1, 2] (some 5)).map some =
        (outPackOf (fun _ msg => msg) [0x61] [1, 2]).newOutpack subtypeAgent 5 ∧
      (pack (fun _ msg => msg) [0x61] [1, 2] (some 5)).map some =
        (outPackOf (fun _ msg => msg) [0x61] [1, 2]).newOutpack 0 5 :=
  @pack_eq_outPack _ (fun _ msg => msg) [0x61] [1, 2] 5 (by decide) (by decide) (by decide) 18 (-7)

/-- `getnum` stops before the last digit of 2147483640, and the digit is no option. -/
private theorem pack_char_too_long (b pbstr : Bytes) {fmt : List Char}
    (hfmt : fmt = formatInteger (2147483640 : ℕ)) :
    scan packItem ('c' :: fmt).length false ('c' :: fmt) (b, [.string pbstr]) =
      .error (.raised "invalid format option") := by
  have hopt : getoption false 'c' fmt = .ok (.char, 214748364, false, ['0']) := by
    rw [hfmt]
    decide
  rw [scan_option hopt]
  generalize 214748364 = size
  simp only [packItem, ok_bind]
  exact scan_error rfl

private theorem packRaw_too_long {pbstr : Bytes} (h : pbstr.length = 2147483640) :
    packRaw (fun _ msg => msg) 18 0 [] pbstr (some 0) =
      .error (.raised "invalid format option") := by
  have hfmt : format ">I L H c%d I c%d".toList [([] : Bytes).length, pbstr.length] =
      '>' :: 'I' :: ' ' :: 'L' :: ' ' :: 'H' :: ' ' :: 'c' :: (formatInteger ([] : Bytes).length ++
        (' ' :: 'I' :: ' ' :: 'c' :: (formatInteger pbstr.length ++ []))) := rfl
  rw [packRaw, strPack, hfmt, pack_big,
    pack_uint rfl (getoption_uint false (head_not_digit rfl _)) (by decide) (by decide), pack_space,
    pack_uint rfl rfl (by decide) (by decide), pack_space,
    pack_uint (toUInt64_ofNat (by decide)) rfl (by decide) (by decide), pack_space,
    pack_char (by decide) (head_not_digit rfl _), pack_space,
    pack_uint rfl (getoption_uint false (head_not_digit rfl _)) (by decide) (by decide), pack_space,
    pack_char_too_long _ _ (by rw [h, List.append_nil])]
  rfl

private theorem exists_replicate (n : ℕ) : ∃ bs : Bytes, bs.length = n :=
  ⟨List.replicate n 0, List.length_replicate⟩

/-- A serialized message of 2147483640 bytes is packed by `OutPack` and not in Lua. -/
theorem pack_too_long :
    ∃ pbstr : Bytes, pbstr.length = 2147483640 ∧
      packRaw (fun _ msg => msg) 18 0 [] pbstr (some 0) =
        .error (.raised "invalid format option") ∧
      ∃ data, (outPackOf (fun _ msg => msg) [] pbstr).newInnerpackType 0 18 0 = .ok data := by
  obtain ⟨pbstr, hlen⟩ := exists_replicate 2147483640
  refine ⟨pbstr, hlen, packRaw_too_long hlen, _, OutPack.newInnerpackType_eq 0 18 0 ?_⟩
  change 18 + 0 + pbstr.length < 2 ^ 32
  omega

/-! ### What the decoders read -/

section Unpack

variable {data : Bytes} {pos : ℕ} {results : List Value} {fmt : List Char}

private theorem unpack_nop {islittle islittle' : Bool} {opt : Char}
    (hopt : getoption islittle opt fmt = .ok (.nop, 0, islittle', fmt)) (h : pos ≤ data.length) :
    scan (unpackItem data) (opt :: fmt).length islittle (opt :: fmt) (pos, results) =
      scan (unpackItem data) fmt.length islittle' fmt (pos, results) := by
  rw [scan_option hopt, unpackItem_nop h, ok_bind]

private theorem unpack_uint {opt : Char} {size : ℕ}
    (hopt : getoption false opt fmt = .ok (.uint, size, false, fmt)) (hsize : size ≤ szInt)
    (h : pos + size ≤ data.length) :
    scan (unpackItem data) (opt :: fmt).length false (opt :: fmt) (pos, results) =
      scan (unpackItem data) fmt.length false fmt (pos + size,
        results ++ [.integer (UInt64.ofNat (beNat ((data.drop pos).take size))).toInt64]) := by
  rw [scan_option hopt, unpackItem_uint h hsize, ok_bind]

private theorem unpack_char {n : ℕ} (hn : n ≤ maxSize - 8)
    (hfmt : ∀ c ∈ fmt.head?, digit c = false) (h : pos + n ≤ data.length) :
    scan (unpackItem data) ('c' :: (formatInteger n ++ fmt)).length false
        ('c' :: (formatInteger n ++ fmt)) (pos, results) =
      scan (unpackItem data) fmt.length false fmt
        (pos + n, results ++ [.string ((data.drop pos).take n)]) := by
  rw [scan_option (getoption_char false hn hfmt), unpackItem_char h, ok_bind]

/-- A field that runs past the end. -/
private theorem unpack_short {islittle islittle' : Bool} {opt : Char} {option : KOption}
    {size : ℕ} {rest : List Char}
    (hopt : getoption islittle opt fmt = .ok (option, size, islittle', rest))
    (h : data.length < pos + size) :
    scan (unpackItem data) (opt :: fmt).length islittle (opt :: fmt) (pos, results) =
      .error (.raised "data string too short") := by
  rw [scan_option hopt, unpackItem, if_pos h, error_bind]

private theorem unpackNumber_eq {opt : Char} {size : ℕ}
    (hopt : getoption false opt [] = .ok (.uint, size, false, [])) (hsize : size ≤ szInt)
    (h : pos + size ≤ data.length) :
    unpackNumber ['>', ' ', opt] data (pos + 1) =
      .ok (UInt64.ofNat (beNat ((data.drop pos).take size))).toInt64 := by
  have hpos : ¬ pos + 1 - 1 > data.length := by omega
  rw [unpackNumber, strUnpack, if_neg hpos, Nat.add_sub_cancel, unpack_nop rfl (by omega),
    unpack_nop rfl (by omega), unpack_uint hopt hsize h]
  rfl

end Unpack

section Fields

variable {head : ℕ} {str : Bytes}

/-- The user that stands behind the head. -/
def uidAt (head : ℕ) (str : Bytes) : Int64 :=
  (UInt64.ofNat (beNat ((str.drop head).take 8))).toInt64

theorem nameLen_lt (body : Bytes) : InPack.nameLen body < 2 ^ 16 := by
  have hlt := beNat_lt (body.take kTypeNameLen)
  apply hlt.trans_le
  exact Nat.pow_le_pow_right (Nat.succ_pos 255) (List.length_take_le _ _)

/-- The user and the length of the name are read, and the rest by a format made of them. -/
private theorem fields_format (h : head + 14 ≤ str.length) :
    fields head str = (do
      match ← strUnpack (format "> c%d I c%d".toList
        [InPack.nameLen (str.drop (head + 8)),
          (str.length : ℤ) - head - 8 - 2 - 4 - InPack.nameLen (str.drop (head + 8))]) str
        (head + 11) with
      | [.string name, .integer _roomid, .string pbstr] => return (uidAt head str, name, pbstr)
      | _ => .error (.raised "string expected")) := by
  have hnamelen : (UInt64.ofNat (beNat ((str.drop (head + 8)).take 2))).toInt64.toInt =
      InPack.nameLen (str.drop (head + 8)) :=
    Int64.toInt_ofNat_of_lt ((nameLen_lt _).trans (by decide))
  have huid : unpackNumber "> L".toList str (head + 1) = .ok (uidAt head str) :=
    unpackNumber_eq rfl (by decide) (by omega)
  have hname : unpackNumber "> H".toList str (head + 9) =
      .ok (UInt64.ofNat (beNat ((str.drop (head + 8)).take 2))).toInt64 :=
    @unpackNumber_eq _ (head + 8) _ _ rfl (by decide) (by omega)
  rw [fields, huid, hname]
  simp only [ok_bind, hnamelen]

/-- A name and a message that fit are extracted, where the length of the message can be read
from the format. -/
theorem fields_eq (h : head + 14 + InPack.nameLen (str.drop (head + 8)) ≤ str.length)
    (hshort : str.length - (head + 14 + InPack.nameLen (str.drop (head + 8))) ≤ maxSize - 8) :
    fields head str = .ok (uidAt head str,
      (str.drop (head + 10)).take (InPack.nameLen (str.drop (head + 8))),
      str.drop (head + 14 + InPack.nameLen (str.drop (head + 8)))) := by
  rw [fields_format (by omega)]
  have hnamelen := nameLen_lt (str.drop (head + 8))
  generalize InPack.nameLen (str.drop (head + 8)) = n at h hshort hnamelen ⊢
  obtain ⟨pblen, hpblen⟩ : ∃ pblen, pblen = str.length - (head + 14 + n) := ⟨_, rfl⟩
  -- the length that the code computes from signed integers
  have hcast : (str.length : ℤ) - head - 8 - 2 - 4 - n = pblen := by omega
  have hn : n ≤ maxSize - 8 := by
    rw [maxSize]
    omega
  have hfmt : format "> c%d I c%d".toList [(n : ℤ), (pblen : ℤ)] = '>' :: ' ' :: 'c' ::
      (formatInteger n ++ (' ' :: 'I' :: ' ' :: 'c' :: (formatInteger pblen ++ []))) := rfl
  have hpos : ¬ head + 11 - 1 > str.length := by omega
  have hpb : (str.drop (head + 10 + n + 4)).take pblen = str.drop (head + 14 + n) := by
    have hoff : head + 10 + n + 4 = head + 14 + n := by omega
    rw [hoff, hpblen, ← List.length_drop, List.take_length]
  rw [hcast, hfmt, strUnpack, if_neg hpos, Nat.add_sub_cancel (n := head + 10) (m := 1),
    unpack_nop rfl (by omega), unpack_nop rfl (by omega),
    unpack_char hn (head_not_digit rfl _) (by omega), unpack_nop rfl (by omega),
    unpack_uint (getoption_uint false (head_not_digit rfl _)) (by decide) (by omega),
    unpack_nop rfl (by omega), unpack_char (by omega) (by simp) (by omega), hpb]
  rfl

/-- A name that runs past the end is rejected. -/
theorem fields_reject (h : head + 14 ≤ str.length)
    (hlong : str.length < head + 14 + InPack.nameLen (str.drop (head + 8))) :
    ∃ e, fields head str = .error e := by
  rw [fields_format h]
  have hnamelen := nameLen_lt (str.drop (head + 8))
  generalize InPack.nameLen (str.drop (head + 8)) = n at hlong hnamelen ⊢
  obtain ⟨pblen, hpblen⟩ : ∃ pblen, pblen = (str.length : ℤ) - head - 8 - 2 - 4 - n := ⟨_, rfl⟩
  have hnegative : pblen < 0 := by omega
  have hn : n ≤ maxSize - 8 := by
    rw [maxSize]
    omega
  have hfmt : format "> c%d I c%d".toList [(n : ℤ), pblen] = '>' :: ' ' :: 'c' ::
      (formatInteger n ++ (' ' :: 'I' :: ' ' :: 'c' :: (formatInteger pblen ++ []))) := rfl
  have hpos : ¬ head + 11 - 1 > str.length := by omega
  rw [← hpblen, hfmt, strUnpack, if_neg hpos, Nat.add_sub_cancel (n := head + 10) (m := 1),
    unpack_nop rfl (by omega), unpack_nop rfl (by omega)]
  -- either the name does not fit, or the room does not, or nothing is left for the data
  have hname := getoption_char false hn (head_not_digit (c := ' ') rfl
    ('I' :: ' ' :: 'c' :: (formatInteger pblen ++ [])))
  by_cases hfits : head + 10 + n ≤ str.length
  · rw [unpack_char hn (head_not_digit rfl _) hfits, unpack_nop rfl hfits]
    have hroomid := getoption_uint false
      (head_not_digit (c := ' ') rfl ('c' :: (formatInteger pblen ++ [])))
    by_cases hroom : head + 10 + n + 4 ≤ str.length
    · -- the name and the room fit, and what is left has a negative length
      rw [unpack_uint hroomid (by decide) hroom, unpack_nop rfl hroom,
        scan_error (getoption_char_negative false hnegative [])]
      exact ⟨_, rfl⟩
    · rw [unpack_short hroomid (by omega)]
      exact ⟨_, rfl⟩
  · rw [unpack_short hname (by omega)]
    exact ⟨_, rfl⟩

end Fields

/-- The same fields of a message: the user, the type name and the data. -/
structure Same (p : InPack) (buf : Bytes) (uid : Int64) (name pbstr : Bytes) : Prop where
  uid : p.uid = uid
  typeName : p.typeName = name
  payload : p.payload buf = .ok pbstr

/-- Both decoders reject, or both extract the same fields, which fill the message. The data
are what `protobuf.decode` gets. -/
def Agree (unpack : Bytes → Except Fault (Int64 × Bytes × Option M)) (p : InPack) (head : ℕ)
    (str : Bytes) : Prop :=
  ((∃ e, unpack str = .error e) ∧
      ∃ q, p.innerReset (str.drop head) (str.length - head) = .ok (q, false)) ∨
    ∃ uid name pbstr q, unpack str = .ok (uid, name, decode name pbstr) ∧
      p.innerReset (str.drop head) (str.length - head) = .ok (q, true) ∧
      Same q (str.drop head) uid name pbstr ∧
      head + 14 + name.length + pbstr.length = str.length

/-- What a decoder makes of the fields. -/
private def decoded (r : Int64 × Bytes × Bytes) : Int64 × Bytes × Option M :=
  (r.1, r.2.1, decode r.2.1 r.2.2)

private theorem unpackRaw_eq (str : Bytes) :
    unpackRaw decode str = (fields 4 str).map (decoded decode) := by
  rw [unpackRaw]
  cases fields 4 str <;> rfl

private theorem unpackAgent_eq (str : Bytes) :
    unpackAgent decode str = (fields 0 str).map (decoded decode) := by
  rw [unpackAgent]
  cases fields 0 str <;> rfl

private theorem agree {unpack : Bytes → Except Fault (Int64 × Bytes × Option M)} {head : ℕ}
    {str : Bytes} (hunpack : unpack str = (fields head str).map (decoded decode)) (p : InPack)
    (hlen : head + 14 ≤ str.length) (hname : InPack.nameLen (str.drop (head + 8)) ≤ 50)
    (hshort : str.length ≤ head + 14 + InPack.nameLen (str.drop (head + 8)) + 2147483639) :
    Agree decode unpack p head str := by
  rw [Agree, hunpack]
  have hbuf : (str.drop head).length = str.length - head := List.length_drop
  obtain ⟨roomid, hreset⟩ := @InPack.innerReset_received (str.drop head) p (by omega) (by omega)
  rw [hbuf] at hreset
  simp only [List.drop_drop] at hreset
  -- both decoders accept exactly where the name and the room fit
  by_cases hfits : head + 14 + InPack.nameLen (str.drop (head + 8)) ≤ str.length
  · have haccept : 14 + InPack.nameLen (str.drop (head + 8)) ≤ str.length - head ∧
        InPack.nameLen (str.drop (head + 8)) ≤ 50 := ⟨by omega, hname⟩
    have hfields := fields_eq hfits (by rw [maxSize]; omega)
    rw [if_pos haccept] at hreset
    rw [hfields]
    generalize InPack.nameLen (str.drop (head + 8)) = n at hfits hreset
    refine Or.inr ⟨_, _, _, _, rfl, hreset, ⟨rfl, rfl, ?_⟩, ?_⟩
    · have hdrop : (str.drop head).drop (14 + n) = str.drop (head + 14 + n) := by
        rw [List.drop_drop, Nat.add_assoc]
      have hlast : str.length - head - 14 - n = (str.drop (head + 14 + n)).length := by
        rw [List.length_drop]
        omega
      refine (if_pos ?_).trans ?_
      · change 14 + n + (str.length - head - 14 - n) ≤ _
        omega
      · change Except.ok (((str.drop head).drop (14 + n)).take (str.length - head - 14 - n)) = _
        rw [hdrop, hlast, List.take_length]
    · rw [List.length_take, List.length_drop, List.length_drop]
      omega
  · have hreject : ¬ (14 + InPack.nameLen (str.drop (head + 8)) ≤ str.length - head ∧
        InPack.nameLen (str.drop (head + 8)) ≤ 50) := by omega
    rw [if_neg hreject] at hreset
    obtain ⟨e, herror⟩ := fields_reject hlen (Nat.not_le.mp hfits)
    rw [herror]
    exact Or.inl ⟨⟨e, rfl⟩, _, hreset⟩

/-- **The decoders agree** on messages whose type name has at most 50 bytes and whose data
has at most 2147483639: (a) on a message for another service, of which `InPack` gets what is
behind the `sub_type`; (b) on a message from an agent. -/
theorem unpack_eq_inPack (p : InPack) (str : Bytes) :
    (18 ≤ str.length → InPack.nameLen (str.drop 12) ≤ 50 →
      str.length ≤ 18 + InPack.nameLen (str.drop 12) + 2147483639 →
      Agree decode (unpackRaw decode) p 4 str) ∧
    (14 ≤ str.length → InPack.nameLen (str.drop 8) ≤ 50 →
      str.length ≤ 14 + InPack.nameLen (str.drop 8) + 2147483639 →
      Agree decode (unpackAgent decode) p 0 str) := by
  constructor
  · intro hlen hname hshort
    exact agree decode (unpackRaw_eq decode str) p hlen hname hshort
  · intro hlen hname hshort
    apply agree decode (unpackAgent_eq decode str)
    all_goals simpa only [Nat.zero_add]

/-- Every serialized message is one. -/
def anyMessage (_name pbstr : Bytes) : Option Bytes := some pbstr

/-- A message with the name `a` and the data 1, 2 behind the room, and its part for an
agent. -/
theorem unpack_eq_inPack_small :
    Agree anyMessage (unpackRaw anyMessage) .new 4
        [0, 0, 0, 18, 0, 0, 0, 0, 0, 0, 0, 7, 0, 1, 0x61, 0, 0, 0, 5, 1, 2] ∧
      Agree anyMessage (unpackAgent anyMessage) .new 0
        [0, 0, 0, 0, 0, 0, 0, 7, 0, 1, 0x61, 0, 0, 0, 5, 1, 2] :=
  ⟨(unpack_eq_inPack _ .new _).1 (by decide) (by decide) (by decide),
    (unpack_eq_inPack _ .new _).2 (by decide) (by decide) (by decide)⟩

/-- With a length of 2147483640 the last digit is left over, and is no option. -/
private theorem fields_too_long {str : Bytes} (hlen : str.length = 18 + 2147483640)
    (hname : InPack.nameLen (str.drop 12) = 0) : ∃ e, fields 4 str = .error e := by
  rw [@fields_format 4 str (by omega), hname]
  have hcast : (str.length : ℤ) - (4 : ℕ) - 8 - 2 - 4 - (0 : ℕ) = (2147483640 : ℕ) := by omega
  have hfmt : format "> c%d I c%d".toList [((0 : ℕ) : ℤ), ((2147483640 : ℕ) : ℤ)] =
      '>' :: ' ' :: 'c' :: (formatInteger (0 : ℕ) ++
        (' ' :: 'I' :: ' ' :: 'c' :: '2' :: "147483640".toList)) := by decide
  have hpos : ¬ 4 + 11 - 1 > str.length := by omega
  have hchar : getoption false 'c' ('2' :: "147483640".toList) =
      .ok (.char, 214748364, false, ['0']) := by decide
  rw [hcast, hfmt, strUnpack, if_neg hpos, unpack_nop rfl (by omega), unpack_nop rfl (by omega),
    unpack_char (by decide) (head_not_digit rfl _) (by omega), unpack_nop rfl (by omega),
    unpack_uint (getoption_uint false (head_not_digit rfl _)) (by decide) (by omega),
    unpack_nop rfl (by omega), scan_option hchar]
  have hfits : 14 + 0 + 4 + 214748364 ≤ str.length := by omega
  generalize 214748364 = size at hfits
  rw [unpackItem_char hfits, ok_bind, scan_error rfl]
  exact ⟨_, rfl⟩

private theorem nameLen_replicate {n : ℕ} (h : 14 ≤ n) :
    InPack.nameLen ((List.replicate n (0 : UInt8)).drop 12) = 0 := by
  have htake : ((List.replicate n (0 : UInt8)).drop 12).take kTypeNameLen = [0, 0] := by
    rw [List.drop_replicate, List.take_replicate, min_eq_left (by rw [kTypeNameLen]; omega)]
    rfl
  rw [InPack.nameLen, htake]
  rfl

private theorem exists_zeros {n : ℕ} (h : 14 ≤ n) :
    ∃ str : Bytes, str.length = n ∧ InPack.nameLen (str.drop 12) = 0 :=
  ⟨_, List.length_replicate, nameLen_replicate h⟩

/-- Data of 2147483640 bytes are accepted by `InPack` and rejected in Lua. -/
theorem unpack_too_long :
    ∃ str : Bytes, str.length = 18 + 2147483640 ∧ InPack.nameLen (str.drop 12) = 0 ∧
      (∃ e, unpackRaw anyMessage str = .error e) ∧
      (∃ q, InPack.new.innerReset (str.drop 4) (str.length - 4) = .ok (q, true)) ∧
      ¬ Agree anyMessage (unpackRaw anyMessage) .new 4 str := by
  obtain ⟨str, hlen, hname⟩ := @exists_zeros (18 + 2147483640) (by omega)
  obtain ⟨e, hfields⟩ := fields_too_long hlen hname
  have herror : unpackRaw anyMessage str = .error e := by
    rw [unpackRaw_eq, hfields]
    rfl
  have hbuf : (str.drop 4).length = str.length - 4 := List.length_drop
  obtain ⟨roomid, hreset⟩ := @InPack.innerReset_received (str.drop 4) .new (by omega) (by omega)
  have haccept : 14 + InPack.nameLen ((str.drop 4).drop 8) ≤ (str.drop 4).length ∧
      InPack.nameLen ((str.drop 4).drop 8) ≤ 50 := by
    rw [List.drop_drop, hname]
    omega
  rw [if_pos haccept, hbuf] at hreset
  refine ⟨str, hlen, hname, ⟨e, herror⟩, ⟨_, hreset⟩, ?_⟩
  rintro (⟨-, q, hreject⟩ | ⟨uid, name, pbstr, q, hunpack, -⟩)
  · exact nomatch congrArg Prod.snd (Except.ok.inj (hreset.symm.trans hreject))
  · exact nomatch herror.symm.trans hunpack

end TestCluster.Lua
