import TestCluster.BeeCluster.Request

/-!
# Unpacking cluster requests

`lunpackrequest` of `lua-beecluster.c`: a frame without its length header is taken
apart by its first byte. Every read is checked against the bytes received.

## Main definitions

* `Unpacked` — the values returned to `dispatch_request`
* `lunpackrequest` — the dispatch on the frame type

## Main results

* `lunpackrequest_number`, `lunpackrequest_name` — a request or small push in one frame
* `lunpackrequest_multiNumber`, `lunpackrequest_multiName` — the header of a message
  in several parts
* `lunpackrequest_part` — a part frame
-/

namespace TestCluster.BeeCluster

open Semantics

/-- What `unpackrequest` returns. A missing or `nil` last value reads as false. -/
structure Unpacked where
  addr : LuaValue
  session : Option ℕ
  msg : Option Bytes
  sz : ℤ
  padding : Bool
  isPush : Bool
  deriving DecidableEq, Repr

/-- `unpack_uint32`. -/
def unpackUint32 (buf : Bytes) (off : ℕ) : Except Fault ℕ := do
  return leNat (← readAt buf off 4)

/-- `return_buffer`: a copy of `sz` bytes. -/
def returnBuffer (buf : Bytes) (off : ℕ) (sz : ℤ) : Except Fault Bytes :=
  readAt buf off (toSizeT sz)

/-- `unpackreq_number`. -/
def unpackreqNumber (buf : Bytes) (sz : ℤ) : Except Fault Unpacked :=
  if sz < 9 then
    .error (.raised s!"Invalid cluster message (size={sz})")
  else do
    let address ← unpackUint32 buf 1
    let session ← unpackUint32 buf 5
    let msg ← returnBuffer buf 9 (sz - 9)
    -- session 0: is_push, no response
    return ⟨.number address, some session, some msg, sz - 9, false, decide (session = 0)⟩

/-- `unpackmreq_number`. -/
def unpackmreqNumber (buf : Bytes) (sz : ℤ) (isPush : Bool) : Except Fault Unpacked :=
  if sz ≠ 13 then
    .error (.raised s!"Invalid cluster message size {sz} (multi req must be 13)")
  else do
    let address ← unpackUint32 buf 1
    let session ← unpackUint32 buf 5
    let size ← unpackUint32 buf 9
    return ⟨.number address, some session, none, size, true, isPush⟩

/-- `unpackmreq_part`. -/
def unpackmreqPart (buf : Bytes) (sz : ℤ) : Except Fault Unpacked :=
  if sz < 5 then
    .error (.raised "Invalid cluster multi part message")
  else do
    let padding := decide ((← readAt buf 0 1) = [2])
    let session ← unpackUint32 buf 1
    let msg ← returnBuffer buf 5 (sz - 5)
    return ⟨.boolean false, some session, some msg, sz - 5, padding, false⟩

/-- `lua_pushlstring`. Lua refuses a length that no block can have. -/
def pushlstring (buf : Bytes) (off len : ℕ) : Except Fault Bytes :=
  if 2 ^ 63 ≤ len then
    .error (.raised "memory allocation error: block too big")
  else
    readAt buf off len

/-- `unpacktrace`: the tag, and no session. -/
def unpacktrace (buf : Bytes) (sz : ℤ) : Except Fault Unpacked := do
  let tag ← pushlstring buf 1 (toSizeT (sz - 1))
  return ⟨.string tag, none, none, 0, false, false⟩

/-- `unpackreq_string`. The length comparison is between `size_t` values. -/
def unpackreqString (buf : Bytes) (sz : ℤ) : Except Fault Unpacked :=
  if sz < 2 then
    .error (.raised s!"Invalid cluster message (size={sz})")
  else do
    let namesz := leNat (← readAt buf 1 1)
    if toSizeT sz < namesz + 6 then
      .error (.raised s!"Invalid cluster message (size={sz})")
    else
      let name ← readAt buf 2 namesz
      let session ← unpackUint32 buf (namesz + 2)
      let size := toInt32 (toSizeT (sz - namesz - 6))
      let msg ← returnBuffer buf (2 + namesz + 4) size
      return ⟨.string name, some session, some msg, size, false, decide (session = 0)⟩

/-- `unpackmreq_string`. -/
def unpackmreqString (buf : Bytes) (sz : ℤ) (isPush : Bool) : Except Fault Unpacked :=
  if sz < 2 then
    .error (.raised s!"Invalid cluster message (size={sz})")
  else do
    let namesz := leNat (← readAt buf 1 1)
    if toSizeT sz < namesz + 10 then
      .error (.raised s!"Invalid cluster message (size={sz})")
    else
      let name ← readAt buf 2 namesz
      let session ← unpackUint32 buf (namesz + 2)
      let size ← unpackUint32 buf (namesz + 6)
      return ⟨.string name, some session, none, size, true, isPush⟩

/-- `lunpackrequest`. The length becomes an `int`, the frame type a signed `char`. -/
def lunpackrequest (msg : Bytes) : Except Fault Unpacked :=
  let sz := toInt32 msg.length
  if sz = 0 then
    .error (.raised "Invalid req package. size == 0")
  else
    match msg.headD 0 with
    | 0 => unpackreqNumber msg sz
    | 1 => unpackmreqNumber msg sz false
    | 0x41 => unpackmreqNumber msg sz true
    | 2 => unpackmreqPart msg sz
    | 3 => unpackmreqPart msg sz
    | 4 => unpacktrace msg sz
    | 0x80 => unpackreqString msg sz
    | 0x81 => unpackmreqString msg sz false
    | 0xc1 => unpackmreqString msg sz true
    | type =>
      let code := (type.toNat : ℤ).bmod 256
      .error (.raised s!"Invalid req package type {code}")

/-! ### Frames read back -/

section ReadBack

variable {n session size : ℕ} {name payload : Bytes}

private theorem unpackUint32_eq {buf : Bytes} {off n : ℕ} (pre post : Bytes)
    (h : buf = pre ++ (leBytes 4 n ++ post)) (hoff : pre.length = off) (hn : n < 2 ^ 32) :
    unpackUint32 buf off = .ok n := by
  have hread : readAt buf off 4 = .ok (leBytes 4 n) :=
    readAt_eq_ok pre post h hoff (length_leBytes 4 n)
  rw [unpackUint32, hread, ok_bind, leNat_leBytes_of_lt (by omega), pure_eq_ok]

private theorem returnBuffer_eq {buf msg : Bytes} {off : ℕ} {sz : ℤ} (pre : Bytes)
    (h : buf = pre ++ msg) (hoff : pre.length = off) (hsz : sz = msg.length)
    (hlt : msg.length < 2 ^ 16) : returnBuffer buf off sz = .ok msg := by
  have hlen : msg.length = toSizeT sz := by
    rw [hsz, toSizeT_of_lt] <;> omega
  exact readAt_eq_ok pre [] (by simpa using h) hoff hlen

/-- A request or small push to a number. -/
theorem lunpackrequest_number (hn : n < 2 ^ 32) (hs : session < 2 ^ 32)
    (hlen : payload.length < 2 ^ 16) :
    lunpackrequest (0 :: (leBytes 4 n ++ (leBytes 4 session ++ payload))) =
      .ok ⟨.number n, some session, some payload, payload.length, false,
        decide (session = 0)⟩ := by
  set buf : Bytes := 0 :: (leBytes 4 n ++ (leBytes 4 session ++ payload)) with hbuf
  have hsz : toInt32 buf.length = payload.length + 9 := by
    rw [toInt32_of_lt] <;> simp [hbuf] <;> omega
  have haddr : unpackUint32 buf 1 = .ok n :=
    unpackUint32_eq [0] (leBytes 4 session ++ payload) rfl rfl hn
  have hsession : unpackUint32 buf 5 = .ok session :=
    unpackUint32_eq (0 :: leBytes 4 n) payload (by simp [hbuf]) (by simp) hs
  have hmsg : returnBuffer buf 9 (payload.length + 9 - 9) = .ok payload :=
    returnBuffer_eq (0 :: (leBytes 4 n ++ leBytes 4 session)) (by simp [hbuf]) (by simp)
      (by omega) hlen
  have hne : ¬ (payload.length + 9 : ℤ) = 0 := by omega
  have hge : ¬ (payload.length + 9 : ℤ) < 9 := by omega
  rw [lunpackrequest, hsz, if_neg hne]
  change unpackreqNumber buf (payload.length + 9) = _
  rw [unpackreqNumber, if_neg hge, haddr, hsession, hmsg]
  simp

private theorem unpackmreqNumber_eq (tag : UInt8) (isPush : Bool) (hn : n < 2 ^ 32)
    (hs : session < 2 ^ 32) (hsize : size < 2 ^ 32) :
    unpackmreqNumber (tag :: (leBytes 4 n ++ (leBytes 4 session ++ leBytes 4 size))) 13 isPush =
      .ok ⟨.number n, some session, none, size, true, isPush⟩ := by
  set buf : Bytes := tag :: (leBytes 4 n ++ (leBytes 4 session ++ leBytes 4 size)) with hbuf
  have haddr : unpackUint32 buf 1 = .ok n :=
    unpackUint32_eq [tag] (leBytes 4 session ++ leBytes 4 size) rfl rfl hn
  have hsession : unpackUint32 buf 5 = .ok session :=
    unpackUint32_eq (tag :: leBytes 4 n) (leBytes 4 size) (by simp [hbuf]) (by simp) hs
  have hsz : unpackUint32 buf 9 = .ok size :=
    unpackUint32_eq (tag :: (leBytes 4 n ++ leBytes 4 session)) [] (by simp [hbuf]) (by simp)
      hsize
  rw [unpackmreqNumber, if_neg (by decide), haddr, hsession, hsz]
  simp

/-- The header of a message in several parts to a number. -/
theorem lunpackrequest_multiNumber (isPush : Bool) (hn : n < 2 ^ 32) (hs : session < 2 ^ 32)
    (hsize : size < 2 ^ 32) :
    lunpackrequest ((if isPush then 0x41 else 1) ::
        (leBytes 4 n ++ (leBytes 4 session ++ leBytes 4 size))) =
      .ok ⟨.number n, some session, none, size, true, isPush⟩ := by
  have hsz (tag : UInt8) : toInt32
      (tag :: (leBytes 4 n ++ (leBytes 4 session ++ leBytes 4 size))).length = 13 := by
    simp [toInt32]
  rw [lunpackrequest, hsz, if_neg (by decide)]
  cases isPush with
  | false => exact unpackmreqNumber_eq 1 false hn hs hsize
  | true => exact unpackmreqNumber_eq 0x41 true hn hs hsize

/-- A part frame. -/
theorem lunpackrequest_part (last : Bool) (hs : session < 2 ^ 32)
    (hlen : payload.length < 2 ^ 16) :
    lunpackrequest (partBody session last payload) =
      .ok ⟨.boolean false, some session, some payload, payload.length, !last, false⟩ := by
  set buf : Bytes := partBody session last payload with hbuf
  have hsz : toInt32 buf.length = payload.length + 5 := by
    rw [toInt32_of_lt] <;> simp [hbuf, partBody] <;> omega
  have htype : readAt buf 0 1 = .ok [if last then 3 else 2] :=
    readAt_eq_ok [] (leBytes 4 session ++ payload) rfl rfl rfl
  have hsession : unpackUint32 buf 1 = .ok session :=
    unpackUint32_eq [if last then 3 else 2] payload (by simp [hbuf, partBody]) rfl hs
  have hmsg : returnBuffer buf 5 (payload.length + 5 - 5) = .ok payload :=
    returnBuffer_eq ((if last then 3 else 2) :: leBytes 4 session) (by simp [hbuf, partBody])
      (by simp) (by omega) hlen
  have hne : ¬ (payload.length + 5 : ℤ) = 0 := by omega
  have hge : ¬ (payload.length + 5 : ℤ) < 5 := by omega
  -- both part types have the same decoder
  have hpart : lunpackrequest buf = unpackmreqPart buf (payload.length + 5) := by
    rw [lunpackrequest, hsz, if_neg hne]
    cases last <;> rfl
  rw [hpart, unpackmreqPart, if_neg hge, htype, hsession, hmsg]
  cases last <;> simp

/-! ### Named addresses -/

private theorem namesz_eq {buf : Bytes} {tag : UInt8} {post : Bytes} (hname : name.length ≤ 255)
    (h : buf = tag :: UInt8.ofNat name.length :: post) :
    ∃ b, readAt buf 1 1 = .ok [b] ∧ leNat [b] = name.length := by
  refine ⟨UInt8.ofNat name.length, readAt_eq_ok [tag] post (by simpa using h) rfl rfl, ?_⟩
  simp [leNat]
  omega

/-- A request or small push to a name. -/
theorem lunpackrequest_name (hname : name.length ≤ 255) (hs : session < 2 ^ 32)
    (hlen : payload.length < 2 ^ 16) :
    lunpackrequest (0x80 :: UInt8.ofNat name.length ::
        (name ++ (leBytes 4 session ++ payload))) =
      .ok ⟨.string name, some session, some payload, payload.length, false,
        decide (session = 0)⟩ := by
  set buf : Bytes := 0x80 :: UInt8.ofNat name.length ::
    (name ++ (leBytes 4 session ++ payload)) with hbuf
  have hsz : toInt32 buf.length = name.length + payload.length + 6 := by
    rw [toInt32_of_lt] <;> simp [hbuf] <;> omega
  -- the length of the name is one byte
  obtain ⟨b, hnamesz, hb⟩ := namesz_eq hname hbuf
  have hsession : unpackUint32 buf (name.length + 2) = .ok session :=
    unpackUint32_eq (0x80 :: UInt8.ofNat name.length :: name) payload (by simp [hbuf]) (by simp) hs
  have hread : readAt buf 2 name.length = .ok name :=
    readAt_eq_ok [0x80, UInt8.ofNat name.length] (leBytes 4 session ++ payload) rfl rfl rfl
  have hsize : toInt32 (toSizeT (name.length + payload.length + 6 - name.length - 6)) =
      payload.length := by
    rw [toSizeT_of_lt (by omega) (by omega), toInt32_of_lt] <;> omega
  have hmsg : returnBuffer buf (2 + name.length + 4) payload.length = .ok payload :=
    returnBuffer_eq (0x80 :: UInt8.ofNat name.length :: (name ++ leBytes 4 session))
      (by simp [hbuf]) (by simp; omega) rfl hlen
  have hne : ¬ (name.length + payload.length + 6 : ℤ) = 0 := by omega
  have hge : ¬ (name.length + payload.length + 6 : ℤ) < 2 := by omega
  -- the frame has room for the name and the session
  have hfit : ¬ toSizeT (name.length + payload.length + 6) < name.length + 6 := by
    rw [toSizeT_of_lt] <;> omega
  rw [lunpackrequest, hsz, if_neg hne]
  change unpackreqString buf (name.length + payload.length + 6) = _
  simp only [unpackreqString, if_neg hge, hnamesz, ok_bind, hb, if_neg hfit, hread, hsession,
    hsize, hmsg, pure_eq_ok]

private theorem unpackmreqString_eq (tag : UInt8) (isPush : Bool) (hname : name.length ≤ 255)
    (hs : session < 2 ^ 32) (hsize : size < 2 ^ 32) :
    unpackmreqString (tag :: UInt8.ofNat name.length ::
        (name ++ (leBytes 4 session ++ leBytes 4 size))) (name.length + 10) isPush =
      .ok ⟨.string name, some session, none, size, true, isPush⟩ := by
  set buf : Bytes := tag :: UInt8.ofNat name.length ::
    (name ++ (leBytes 4 session ++ leBytes 4 size)) with hbuf
  obtain ⟨b, hnamesz, hb⟩ := namesz_eq hname hbuf
  have hread : readAt buf 2 name.length = .ok name :=
    readAt_eq_ok [tag, UInt8.ofNat name.length] (leBytes 4 session ++ leBytes 4 size) rfl rfl rfl
  have hsession : unpackUint32 buf (name.length + 2) = .ok session :=
    unpackUint32_eq (tag :: UInt8.ofNat name.length :: name) (leBytes 4 size) (by simp [hbuf])
      (by simp) hs
  have hsz : unpackUint32 buf (name.length + 6) = .ok size :=
    unpackUint32_eq (tag :: UInt8.ofNat name.length :: (name ++ leBytes 4 session)) []
      (by simp [hbuf]) (by simp) hsize
  have hge : ¬ (name.length + 10 : ℤ) < 2 := by omega
  have hfit : ¬ toSizeT (name.length + 10) < name.length + 10 := by
    rw [toSizeT_of_lt] <;> omega
  simp only [unpackmreqString, if_neg hge, hnamesz, ok_bind, hb, if_neg hfit, hread, hsession,
    hsz, pure_eq_ok]

/-- The header of a message in several parts to a name. -/
theorem lunpackrequest_multiName (isPush : Bool) (hname : name.length ≤ 255)
    (hs : session < 2 ^ 32) (hsize : size < 2 ^ 32) :
    lunpackrequest ((if isPush then 0xc1 else 0x81) :: UInt8.ofNat name.length ::
        (name ++ (leBytes 4 session ++ leBytes 4 size))) =
      .ok ⟨.string name, some session, none, size, true, isPush⟩ := by
  have hsz (tag : UInt8) : toInt32 (tag :: UInt8.ofNat name.length ::
      (name ++ (leBytes 4 session ++ leBytes 4 size))).length = name.length + 10 := by
    rw [toInt32_of_lt] <;> simp <;> omega
  have hne : ¬ (name.length + 10 : ℤ) = 0 := by omega
  rw [lunpackrequest, hsz, if_neg hne]
  cases isPush with
  | false => exact unpackmreqString_eq 0x81 false hname hs hsize
  | true => exact unpackmreqString_eq 0xc1 true hname hs hsize

end ReadBack

end TestCluster.BeeCluster
