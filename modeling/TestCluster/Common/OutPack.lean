import TestCluster.Skynet.Malloc

/-!
# Packing messages

`OutPack` of `cpp/common/Pack.cpp`: a serialized message and its type name are written
behind a header into a freshly allocated block. Numbers are in network byte order; the
host stores them least significant byte first.

## Main definitions

* `OutPack` — a message to be packed
* `OutPack.newOutpack`, `OutPack.newInnerpack`, `OutPack.newInnerpackType` — the packers
* `packBody`, `innerBody` — the documented layouts

## Main results

* `OutPack.newOutpack_eq`, `OutPack.newInnerpack_eq`, `OutPack.newInnerpackType_eq` — the
  packers emit the documented layouts
-/

namespace TestCluster.Common

open Semantics

/-! ### Network byte order -/

/-- A number of `width` bytes with its bytes in the other order. -/
def swapBytes (width n : ℕ) : ℕ := leNat (beBytes width n)

/-- `htons` and `ntohs`. -/
def htons (n : ℕ) : ℕ := swapBytes 2 n

/-- `htonl` and `ntohl`. -/
def htonl (n : ℕ) : ℕ := swapBytes 4 n

/-- `hton64` and `ntoh64`. -/
def ntoh64 (n : ℕ) : ℕ := swapBytes 8 n

/-- A swapped number in memory: most significant byte first. -/
theorem leBytes_swapBytes (width n : ℕ) : leBytes width (swapBytes width n) = beBytes width n := by
  have h := leBytes_leNat (beBytes width n)
  rwa [length_beBytes] at h

/-- Swapping a number read from memory reads it most significant byte first. -/
theorem swapBytes_leNat (bs : Bytes) : swapBytes bs.length (leNat bs) = beNat bs := by
  rw [swapBytes, beBytes, leBytes_leNat, beNat]

/-! ### The packers -/

/-- `kMessageLen`. -/
def kMessageLen : ℕ := 4

/-- `kTypeNameLen`. -/
def kTypeNameLen : ℕ := 2

/-- `kRoomidLen`. -/
def kRoomidLen : ℕ := 4

/-- `kMaxTypeNameLen`. -/
def kMaxTypeNameLen : ℕ := 50

/-- `SUBTYPE_AGENT`. -/
def subtypeAgent : UInt32 := 20

/-- A message to be packed: its type name and its serialized data. -/
structure OutPack where
  typeName : Bytes
  pbData : Bytes
  deriving DecidableEq, Repr

namespace OutPack

variable (o : OutPack)

/-- The fields every packer ends with: type name length, type name, `roomid` and data. -/
def fillBody (buf : Buffer) (off : ℕ) (roomid : Int32) : Except Fault Buffer := do
  let buf ← buf.write off (leBytes 2 (htons o.typeName.length))
  let buf ← buf.write (off + kTypeNameLen) o.typeName
  let buf ← buf.write (off + kTypeNameLen + o.typeName.length)
    (leBytes 4 (htonl roomid.toUInt32.toNat))
  buf.write (off + kTypeNameLen + o.typeName.length + kRoomidLen) o.pbData

/-- `new_outpack`, for a client; another `sub_type` sets no result. -/
def newOutpack (subType : UInt32) (roomid : Int32) : Except Fault (Option Bytes) :=
  if subType = 0 then do
    let dataLen := toInt32 (o.pbData.length + kTypeNameLen + o.typeName.length + kRoomidLen : ℕ)
    let size := toUInt32 (dataLen + kMessageLen)
    let data ← skynetMalloc size
    let data ← data.write 0 (leBytes 4 (htonl (toUInt32 dataLen)))
    let data ← o.fillBody data kMessageLen roomid
    return some (← data.read 0 size)
  else if subType = subtypeAgent then do
    let dataLen := toInt32 (kTypeNameLen + o.typeName.length + o.pbData.length + kRoomidLen : ℕ)
    let size := toUInt32 (dataLen + 4 + kMessageLen)
    let data ← skynetMalloc size
    let data ← data.write 0 (leBytes 4 (htonl subtypeAgent.toNat))
    let data ← data.write 4 (leBytes 4 (htonl (toUInt32 dataLen)))
    let data ← o.fillBody data (4 + kMessageLen) roomid
    return some (← data.read 0 size)
  else
    .ok none

/-- `new_innerpack`, for another service. -/
def newInnerpack (uid : UInt64) (roomid : Int32) : Except Fault Bytes := do
  let dataLen := toInt32 (8 + kTypeNameLen + o.typeName.length + o.pbData.length + kRoomidLen : ℕ)
  let size := toUInt32 dataLen
  let data ← skynetMalloc size
  let data ← data.write 0 (leBytes 8 (ntoh64 uid.toNat))
  let data ← o.fillBody data 8 roomid
  data.read 0 size

/-- `new_innerpack_type`, with the `sub_type` in front. -/
def newInnerpackType (uid : UInt64) (type : UInt32) (roomid : Int32) : Except Fault Bytes := do
  let dataLen :=
    toInt32 (4 + 8 + kTypeNameLen + o.typeName.length + o.pbData.length + kRoomidLen : ℕ)
  let size := toUInt32 dataLen
  let data ← skynetMalloc size
  let data ← data.write 0 (leBytes 4 (htonl type.toNat))
  let data ← data.write 4 (leBytes 8 (ntoh64 uid.toNat))
  let data ← o.fillBody data 12 roomid
  data.read 0 size

/-! ### Layouts -/

/-- The body of a packet: what `decode_stream` reads. -/
def packBody (roomid : Int32) : Bytes :=
  beBytes 2 o.typeName.length ++
    (o.typeName ++ (beBytes 4 roomid.toUInt32.toNat ++ o.pbData))

/-- A packet for another service. -/
def innerBody (uid : UInt64) (roomid : Int32) : Bytes :=
  beBytes 8 uid.toNat ++ o.packBody roomid

theorem length_packBody (roomid : Int32) :
    (o.packBody roomid).length = 6 + o.typeName.length + o.pbData.length := by
  simp [packBody]; omega

theorem length_innerBody (uid : UInt64) (roomid : Int32) :
    (o.innerBody uid roomid).length = 14 + o.typeName.length + o.pbData.length := by
  simp [innerBody, length_packBody]; omega

/-- A size that fits 32 bits survives the detour through `int`. -/
theorem toUInt32_toInt32_add (n k : ℕ) (h : n + k < 2 ^ 32) :
    toUInt32 (toInt32 n + k) = n + k := by
  simp only [toUInt32, toInt32, Int.bmod]
  split_ifs <;> omega

theorem toUInt32_toInt32 (n : ℕ) (h : n < 2 ^ 32) : toUInt32 (toInt32 n) = n := by
  simpa using toUInt32_toInt32_add n 0 h

/-- Filling in the body behind the header completes the block. -/
private theorem fillBody_eq {buf : Buffer} {head : Bytes} {size : ℕ} (off : ℕ) (roomid : Int32)
    (h : buf.Filled size head) (hoff : head.length = off)
    (hsize : off + (6 + o.typeName.length + o.pbData.length) = size) :
    ∃ buf', o.fillBody buf off roomid = .ok buf' ∧
      buf'.read 0 size = .ok (head ++ o.packBody roomid) := by
  have htwo : leBytes 2 (htons o.typeName.length) = beBytes 2 o.typeName.length :=
    leBytes_swapBytes 2 _
  have hfour : leBytes 4 (htonl roomid.toUInt32.toNat) = beBytes 4 roomid.toUInt32.toNat :=
    leBytes_swapBytes 4 _
  -- the length of the name, the name, the room and the data, each behind the other
  obtain ⟨b₁, h₁, f₁⟩ := h.write off (beBytes 2 o.typeName.length) hoff
    (by rw [length_beBytes]; omega)
  obtain ⟨b₂, h₂, f₂⟩ := f₁.write (off + kTypeNameLen) o.typeName (by simp [hoff, kTypeNameLen])
    (by rw [kTypeNameLen]; omega)
  obtain ⟨b₃, h₃, f₃⟩ := f₂.write (off + kTypeNameLen + o.typeName.length)
    (beBytes 4 roomid.toUInt32.toNat) (by simp [hoff, kTypeNameLen]; omega)
    (by rw [length_beBytes, kTypeNameLen]; omega)
  obtain ⟨b₄, h₄, f₄⟩ := f₃.write (off + kTypeNameLen + o.typeName.length + kRoomidLen)
    o.pbData (by simp [hoff, kTypeNameLen, kRoomidLen]; omega)
    (by rw [kTypeNameLen, kRoomidLen]; omega)
  refine ⟨b₄, ?_, ?_⟩
  · simp only [fillBody, htwo, hfour, h₁, h₂, h₃, h₄, ok_bind]
  · have hread := f₄.read size (by simp; omega)
    simpa [packBody] using hread

section Layout

variable {o} (uid : UInt64) (type : UInt32) (roomid : Int32)

/-- A packet for a client: the length of its body, then the body. -/
theorem newOutpack_eq (h : 10 + o.typeName.length + o.pbData.length < 2 ^ 32) :
    o.newOutpack 0 roomid =
      .ok (some (beBytes 4 (o.packBody roomid).length ++ o.packBody roomid)) := by
  set len := (o.packBody roomid).length with hlen
  rw [length_packBody] at hlen
  have hsum : o.pbData.length + kTypeNameLen + o.typeName.length + kRoomidLen = len := by
    rw [hlen, kTypeNameLen, kRoomidLen]; omega
  have hsize : toUInt32 (toInt32 len + (4 : ℕ)) = len + 4 :=
    toUInt32_toInt32_add len 4 (by omega)
  have hhead : leBytes 4 (htonl (toUInt32 (toInt32 len))) = beBytes 4 len := by
    rw [toUInt32_toInt32 len (by omega), htonl, leBytes_swapBytes]
  obtain ⟨b₁, h₁, f₁⟩ := (Buffer.Filled.alloc (len + 4)).write 0 (beBytes 4 len) rfl (by simp)
  obtain ⟨b₂, h₂, hread⟩ := fillBody_eq o 4 roomid f₁ (by simp) (by omega)
  simp only [newOutpack, if_true, hsum, hsize, hhead, skynetMalloc_of_lt (show len + 4 < 2 ^ 62 by
    omega), h₁, h₂, kMessageLen, hread, ok_bind, pure_eq_ok, List.nil_append]

/-- A packet for an agent: the same behind the `sub_type`. -/
theorem newOutpack_agent_eq (h : 14 + o.typeName.length + o.pbData.length < 2 ^ 32) :
    o.newOutpack subtypeAgent roomid = .ok (some (beBytes 4 subtypeAgent.toNat ++
      (beBytes 4 (o.packBody roomid).length ++ o.packBody roomid))) := by
  set len := (o.packBody roomid).length with hlen
  rw [length_packBody] at hlen
  have hsum : kTypeNameLen + o.typeName.length + o.pbData.length + kRoomidLen = len := by
    rw [hlen, kTypeNameLen, kRoomidLen]; omega
  have hsize : toUInt32 (toInt32 len + 4 + (4 : ℕ)) = len + 8 := by
    rw [Int.add_assoc]
    exact toUInt32_toInt32_add len 8 (by omega)
  have htype : leBytes 4 (htonl subtypeAgent.toNat) = beBytes 4 subtypeAgent.toNat :=
    leBytes_swapBytes 4 _
  have hhead : leBytes 4 (htonl (toUInt32 (toInt32 len))) = beBytes 4 len := by
    rw [toUInt32_toInt32 len (by omega), htonl, leBytes_swapBytes]
  obtain ⟨b₁, h₁, f₁⟩ := (Buffer.Filled.alloc (len + 8)).write 0 (beBytes 4 subtypeAgent.toNat) rfl
    (by simp)
  obtain ⟨b₂, h₂, f₂⟩ := f₁.write 4 (beBytes 4 len) (by simp) (by simp)
  obtain ⟨b₃, h₃, hread⟩ := fillBody_eq o 8 roomid f₂ (by simp) (by omega)
  simp only [newOutpack, if_neg (show ¬ subtypeAgent = 0 by decide), if_true, hsum, hsize, htype,
    hhead, skynetMalloc_of_lt (show len + 8 < 2 ^ 62 by omega), h₁, h₂, h₃, kMessageLen, hread,
    ok_bind, pure_eq_ok, List.nil_append, List.append_assoc]

/-- A packet for another service. -/
theorem newInnerpack_eq (h : 14 + o.typeName.length + o.pbData.length < 2 ^ 32) :
    o.newInnerpack uid roomid = .ok (o.innerBody uid roomid) := by
  set len := (o.innerBody uid roomid).length with hlen
  rw [length_innerBody] at hlen
  have hsum : 8 + kTypeNameLen + o.typeName.length + o.pbData.length + kRoomidLen = len := by
    rw [hlen, kTypeNameLen, kRoomidLen]; omega
  have huid : leBytes 8 (ntoh64 uid.toNat) = beBytes 8 uid.toNat := leBytes_swapBytes 8 _
  obtain ⟨b₁, h₁, f₁⟩ := (Buffer.Filled.alloc len).write 0 (beBytes 8 uid.toNat) rfl
    (by simp; omega)
  obtain ⟨b₂, h₂, hread⟩ := fillBody_eq o 8 roomid f₁ (by simp) (by omega)
  simp only [newInnerpack, hsum, toUInt32_toInt32 len (by omega),
    skynetMalloc_of_lt (show len < 2 ^ 62 by omega), huid, h₁, h₂, hread, ok_bind,
    List.nil_append, innerBody]

/-- A packet whose size wraps around to 0 is written into an empty block. -/
theorem newInnerpack_overflow (h : 14 + o.typeName.length + o.pbData.length = 2 ^ 32) :
    o.newInnerpack uid roomid = .error .outOfBounds := by
  have hsum : 8 + kTypeNameLen + o.typeName.length + o.pbData.length + kRoomidLen = 2 ^ 32 := by
    rw [kTypeNameLen, kRoomidLen]; omega
  have hsize : toUInt32 (toInt32 (2 ^ 32 : ℕ)) = 0 := by decide
  have hwrite : (Buffer.alloc 0).write 0 (leBytes 8 (ntoh64 uid.toNat)) = .error .outOfBounds :=
    if_neg (by simp)
  simp only [newInnerpack, hsum, hsize, skynetMalloc_of_lt (show 0 < 2 ^ 62 by decide), ok_bind,
    hwrite, error_bind]

/-- The same with the `sub_type` in front. -/
theorem newInnerpackType_eq (h : 18 + o.typeName.length + o.pbData.length < 2 ^ 32) :
    o.newInnerpackType uid type roomid =
      .ok (beBytes 4 type.toNat ++ o.innerBody uid roomid) := by
  set len := 4 + (o.innerBody uid roomid).length with hlen
  rw [length_innerBody] at hlen
  have hsum : 4 + 8 + kTypeNameLen + o.typeName.length + o.pbData.length + kRoomidLen = len := by
    rw [hlen, kTypeNameLen, kRoomidLen]; omega
  have htype : leBytes 4 (htonl type.toNat) = beBytes 4 type.toNat := leBytes_swapBytes 4 _
  have huid : leBytes 8 (ntoh64 uid.toNat) = beBytes 8 uid.toNat := leBytes_swapBytes 8 _
  obtain ⟨b₁, h₁, f₁⟩ := (Buffer.Filled.alloc len).write 0 (beBytes 4 type.toNat) rfl
    (by simp; omega)
  obtain ⟨b₂, h₂, f₂⟩ := f₁.write 4 (beBytes 8 uid.toNat) (by simp) (by simp; omega)
  obtain ⟨b₃, h₃, hread⟩ := fillBody_eq o 12 roomid f₂ (by simp) (by omega)
  simp only [newInnerpackType, hsum, toUInt32_toInt32 len (by omega),
    skynetMalloc_of_lt (show len < 2 ^ 62 by omega), htype, huid, h₁, h₂, h₃, hread, ok_bind,
    List.nil_append, innerBody, List.append_assoc]

end Layout

end OutPack

end TestCluster.Common
