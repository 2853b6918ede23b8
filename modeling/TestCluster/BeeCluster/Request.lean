import TestCluster.Semantics.Memory
import TestCluster.BeeCluster.LuaValue

/-!
# Packing cluster requests

`packrequest` and `packpush` of `lua-beecluster.c`. A message shorter than
`MULTI_PART` becomes one frame; a longer one becomes a header frame and a table of
part frames. Every frame starts with the big-endian length of what follows it; the
numbers inside are little-endian.

Each packer fills a fixed buffer by offset. The theorems say which bytes come out:
the frames of the format comment in the source.

## Main definitions

* `packreqNumber`, `packreqString`, `packreqMulti`, `packrequest` — the packers
* `frame` — a frame around its body
* `partBody` — the body of a part frame
* `Cut` — a payload cut into full chunks and a last one

## Main results

* `packreqNumber_of_lt`, `packreqNumber_of_le`, `packreqString_of_lt`,
  `packreqString_of_le` — the packers emit the documented frames
* `packreqMulti_eq` — the part frames are the payload cut into chunks
-/

namespace TestCluster.BeeCluster

open Semantics

/-- `TEMP_LENGTH`: the size of the frame buffer. -/
def tempLength : ℕ := 0x8200

/-- `MULTI_PART`: the longest part of a message in one frame. -/
def multiPart : ℕ := 0x8000

/-- `fill_uint32`: four bytes, least significant first. -/
def fillUint32 (buf : Buffer) (off n : ℕ) : Except Fault Buffer :=
  buf.write off (leBytes 4 n)

/-- `fill_header`: the length of the frame, most significant byte first. -/
def fillHeader (buf : Buffer) (sz : ℕ) : Except Fault Buffer :=
  if sz < 0x10000 then buf.write 0 (beBytes 2 sz) else .error .assertion

/-- `packreq_number`: the request string, and the number of parts that follow it. -/
def packreqNumber (addr session : ℤ) (msg : Bytes) (sz : ℕ) (isPush : Bool) :
    Except Fault (Bytes × ℕ) := do
  let addr := toUInt32 addr
  let buf := Buffer.alloc tempLength
  if sz < multiPart then
    let buf ← fillHeader buf (sz + 9)
    let buf ← buf.write 2 [0]
    let buf ← fillUint32 buf 3 addr
    let buf ← fillUint32 buf 7 (if isPush then 0 else toUInt32 session)
    let buf ← buf.write 11 (← readAt msg 0 sz)
    return (← buf.read 0 (sz + 11), 0)
  else
    let part := (sz - 1) / multiPart + 1
    let buf ← fillHeader buf 13
    let buf ← buf.write 2 [if isPush then 0x41 else 1]
    let buf ← fillUint32 buf 3 addr
    let buf ← fillUint32 buf 7 (toUInt32 session)
    let buf ← fillUint32 buf 11 sz
    return (← buf.read 0 15, part)

/-- `packreq_string`: the same for a named address. -/
def packreqString (addr : LuaValue) (session : ℤ) (msg : Bytes) (sz : ℕ) (isPush : Bool) :
    Except Fault (Bytes × ℕ) :=
  match addr with
  | .string name =>
    let namelen := name.length
    if namelen < 1 ∨ namelen > 255 then
      .error (.raised ("name is too long " ++ cString name))
    else do
      let buf := Buffer.alloc tempLength
      if sz < multiPart then
        let buf ← fillHeader buf (sz + 6 + namelen)
        let buf ← buf.write 2 [0x80]
        let buf ← buf.write 3 [UInt8.ofNat namelen]
        let buf ← buf.write 4 name
        let buf ← fillUint32 buf (4 + namelen) (if isPush then 0 else toUInt32 session)
        let buf ← buf.write (8 + namelen) (← readAt msg 0 sz)
        return (← buf.read 0 (sz + 8 + namelen), 0)
      else
        let part := (sz - 1) / multiPart + 1
        let buf ← fillHeader buf (10 + namelen)
        let buf ← buf.write 2 [if isPush then 0xc1 else 0x81]
        let buf ← buf.write 3 [UInt8.ofNat namelen]
        let buf ← buf.write 4 name
        let buf ← fillUint32 buf (4 + namelen) (toUInt32 session)
        let buf ← fillUint32 buf (8 + namelen) sz
        return (← buf.read 0 (12 + namelen), part)
  | other => .error (.raised ("name is not a string, it's a " ++ other.typename))

/-- The splitting loop of `packreq_multi`, from offset `ptr` with `sz` bytes left:
`part` more frames. `lpackresponse` runs the same loop with frames of its own. -/
def splitLoop (emit : (last : Bool) → (chunk : Bytes) → Except Fault Bytes) (msg : Bytes) :
    (part ptr sz : ℕ) → Except Fault (List Bytes)
  | 0, _, _ => .ok []
  | part + 1, ptr, sz => do
    let s := if sz > multiPart then multiPart else sz
    let frame ← emit (decide (sz ≤ multiPart)) (← readAt msg ptr s)
    let frames ← splitLoop emit msg part (ptr + s) (sz - s)
    return frame :: frames

/-- One part frame of `packreq_multi`. -/
def packPart (session : ℤ) (last : Bool) (chunk : Bytes) : Except Fault Bytes := do
  -- 2: multipart, 3: the last multi part
  let buf ← (Buffer.alloc tempLength).write 2 [if last then 3 else 2]
  let buf ← fillHeader buf (chunk.length + 5)
  let buf ← fillUint32 buf 3 (toUInt32 session)
  let buf ← buf.write 7 chunk
  buf.read 0 (chunk.length + 7)

/-- `packreq_multi`: the part frames of the message. -/
def packreqMulti (session : ℤ) (msg : Bytes) (sz : ℕ) : Except Fault (List Bytes) :=
  splitLoop (packPart session) msg ((sz - 1) / multiPart + 1) 0 sz

/-- What `packrequest` returns: the request string, the next session, and the table of
part frames of a message in several parts. -/
structure Packed where
  request : Bytes
  newSession : ℕ
  padding : Option (List Bytes)
  deriving DecidableEq, Repr

/-- `packrequest`. The message is a pointer (`none` when null) to a block of bytes,
with the size the caller says it has. -/
def packrequest (addr : LuaValue) (session : ℤ) (msg : Option Bytes) (sz : ℤ) (isPush : Bool) :
    Except Fault Packed :=
  match msg with
  | none => .error (.raised "Invalid request message")
  | some msg => do
    let sz := toUInt32 sz
    let session := toInt32 session
    if session ≤ 0 then
      .error (.raised ("Invalid request session " ++ toString session))
    else
      let (request, multipak) ← match addr with
        | .number addr => packreqNumber addr session msg sz isPush
        | addr => packreqString addr session msg sz isPush
      let newSession := toUInt32 session + 1
      let newSession := if newSession > 2 ^ 31 - 1 then 1 else newSession
      if multipak ≠ 0 then
        let padding ← packreqMulti session msg sz
        return ⟨request, newSession, some padding⟩
      else
        return ⟨request, newSession, none⟩

/-- `lpackrequest`. -/
def lpackrequest (addr : LuaValue) (session : ℤ) (msg : Option Bytes) (sz : ℤ) :=
  packrequest addr session msg sz false

/-- `lpackpush`. -/
def lpackpush (addr : LuaValue) (session : ℤ) (msg : Option Bytes) (sz : ℤ) :=
  packrequest addr session msg sz true

/-- `lpacktrace`. -/
def lpacktrace (tag : Bytes) : Except Fault Bytes :=
  let sz := tag.length
  if sz > 0x8000 then
    .error (.raised ("trace tag is too long : " ++ toString sz))
  else do
    let buf ← (Buffer.alloc tempLength).write 2 [4]
    let buf ← fillHeader buf (sz + 1)
    let buf ← buf.write 3 tag
    buf.read 0 (sz + 3)

/-! ### The emitted frames -/

/-- A frame: the length of its body, then the body. -/
def frame (body : Bytes) : Bytes := beBytes 2 body.length ++ body

@[simp] theorem frame_drop (body : Bytes) : (frame body).drop 2 = body :=
  List.drop_left' (length_beBytes 2 _)

theorem frame_eq {body : Bytes} (sz : ℕ) (h : body.length = sz) :
    frame body = beBytes 2 sz ++ body := by
  rw [frame, h]

section Number

variable (addr session : ℤ) {msg : Bytes} (isPush : Bool)

/-- A short message to a number: one frame with the payload in it. -/
theorem packreqNumber_of_lt (h : msg.length < multiPart) :
    packreqNumber addr session msg msg.length isPush =
      .ok (frame (0 :: (leBytes 4 (toUInt32 addr) ++
        (leBytes 4 (if isPush then 0 else toUInt32 session) ++ msg))), 0) := by
  have hlen : msg.length < 32768 := h
  have hheader : msg.length + 9 < 0x10000 := by omega
  -- the buffer is filled from its start, field by field
  obtain ⟨b₁, h₁, f₁⟩ := (Buffer.Filled.alloc tempLength).write 0
    (beBytes 2 (msg.length + 9)) rfl (by simp [tempLength])
  obtain ⟨b₂, h₂, f₂⟩ := f₁.write 2 [0] (by simp) (by simp [tempLength])
  obtain ⟨b₃, h₃, f₃⟩ := f₂.write 3 (leBytes 4 (toUInt32 addr)) (by simp) (by simp [tempLength])
  obtain ⟨b₄, h₄, f₄⟩ := f₃.write 7 (leBytes 4 (if isPush then 0 else toUInt32 session))
    (by simp) (by simp [tempLength])
  obtain ⟨b₅, h₅, f₅⟩ := f₄.write 11 msg (by simp) (by simp only [tempLength]; omega)
  have hread := f₅.read (msg.length + 11) (by simp; omega)
  simp only [packreqNumber, if_pos h, fillHeader, if_pos hheader, fillUint32, h₁, h₂, h₃, h₄, h₅,
    readAt_zero, hread, ok_bind, pure_eq_ok]
  rw [frame_eq (msg.length + 9) (by simp; omega)]
  simp

/-- A long message to a number: a header frame with the total size. -/
theorem packreqNumber_of_le (h : multiPart ≤ msg.length) :
    packreqNumber addr session msg msg.length isPush =
      .ok (frame ((if isPush then 0x41 else 1) :: (leBytes 4 (toUInt32 addr) ++
        (leBytes 4 (toUInt32 session) ++ leBytes 4 msg.length))),
        (msg.length - 1) / multiPart + 1) := by
  obtain ⟨b₁, h₁, f₁⟩ := (Buffer.Filled.alloc tempLength).write 0
    (beBytes 2 13) rfl (by simp [tempLength])
  obtain ⟨b₂, h₂, f₂⟩ := f₁.write 2 [if isPush then 0x41 else 1] (by simp) (by simp [tempLength])
  obtain ⟨b₃, h₃, f₃⟩ := f₂.write 3 (leBytes 4 (toUInt32 addr)) (by simp) (by simp [tempLength])
  obtain ⟨b₄, h₄, f₄⟩ := f₃.write 7 (leBytes 4 (toUInt32 session)) (by simp) (by simp [tempLength])
  obtain ⟨b₅, h₅, f₅⟩ := f₄.write 11 (leBytes 4 msg.length) (by simp) (by simp [tempLength])
  have hread := f₅.read 15 (by simp)
  simp only [packreqNumber, if_neg (not_lt.mpr h), fillHeader, Nat.reduceLT, ↓reduceIte,
    fillUint32, h₁, h₂, h₃, h₄, h₅, hread, ok_bind, pure_eq_ok]
  rw [frame_eq 13 (by simp)]
  simp

end Number

section Named

variable {name : Bytes} (session : ℤ) {msg : Bytes} (isPush : Bool)

/-- A short message to a name. -/
theorem packreqString_of_lt (hname : 1 ≤ name.length ∧ name.length ≤ 255)
    (h : msg.length < multiPart) :
    packreqString (.string name) session msg msg.length isPush =
      .ok (frame (0x80 :: UInt8.ofNat name.length :: (name ++
        (leBytes 4 (if isPush then 0 else toUInt32 session) ++ msg))), 0) := by
  have hlen : msg.length < 32768 := h
  have hheader : msg.length + 6 + name.length < 0x10000 := by omega
  have haccept : ¬ (name.length < 1 ∨ name.length > 255) := by omega
  obtain ⟨b₁, h₁, f₁⟩ := (Buffer.Filled.alloc tempLength).write 0
    (beBytes 2 (msg.length + 6 + name.length)) rfl (by simp [tempLength])
  obtain ⟨b₂, h₂, f₂⟩ := f₁.write 2 [0x80] (by simp) (by simp [tempLength])
  obtain ⟨b₃, h₃, f₃⟩ := f₂.write 3 [UInt8.ofNat name.length] (by simp) (by simp [tempLength])
  obtain ⟨b₄, h₄, f₄⟩ := f₃.write 4 name (by simp) (by simp only [tempLength]; omega)
  obtain ⟨b₅, h₅, f₅⟩ := f₄.write (4 + name.length)
    (leBytes 4 (if isPush then 0 else toUInt32 session)) (by simp; omega)
    (by simp only [tempLength, length_leBytes]; omega)
  obtain ⟨b₆, h₆, f₆⟩ := f₅.write (8 + name.length) msg (by simp; omega)
    (by simp only [tempLength]; omega)
  have hread := f₆.read (msg.length + 8 + name.length) (by simp; omega)
  simp only [packreqString, if_neg haccept, if_pos h, fillHeader, if_pos hheader, fillUint32,
    h₁, h₂, h₃, h₄, h₅, h₆, readAt_zero, hread, ok_bind, pure_eq_ok]
  rw [frame_eq (msg.length + 6 + name.length) (by simp; omega)]
  simp

/-- A long message to a name. -/
theorem packreqString_of_le (hname : 1 ≤ name.length ∧ name.length ≤ 255)
    (h : multiPart ≤ msg.length) :
    packreqString (.string name) session msg msg.length isPush =
      .ok (frame ((if isPush then 0xc1 else 0x81) :: UInt8.ofNat name.length :: (name ++
        (leBytes 4 (toUInt32 session) ++ leBytes 4 msg.length))),
        (msg.length - 1) / multiPart + 1) := by
  have hheader : 10 + name.length < 0x10000 := by omega
  have haccept : ¬ (name.length < 1 ∨ name.length > 255) := by omega
  obtain ⟨b₁, h₁, f₁⟩ := (Buffer.Filled.alloc tempLength).write 0
    (beBytes 2 (10 + name.length)) rfl (by simp [tempLength])
  obtain ⟨b₂, h₂, f₂⟩ := f₁.write 2 [if isPush then 0xc1 else 0x81] (by simp) (by simp [tempLength])
  obtain ⟨b₃, h₃, f₃⟩ := f₂.write 3 [UInt8.ofNat name.length] (by simp) (by simp [tempLength])
  obtain ⟨b₄, h₄, f₄⟩ := f₃.write 4 name (by simp) (by simp only [tempLength]; omega)
  obtain ⟨b₅, h₅, f₅⟩ := f₄.write (4 + name.length) (leBytes 4 (toUInt32 session))
    (by simp; omega) (by simp only [tempLength, length_leBytes]; omega)
  obtain ⟨b₆, h₆, f₆⟩ := f₅.write (8 + name.length) (leBytes 4 msg.length) (by simp; omega)
    (by simp only [tempLength, length_leBytes]; omega)
  have hread := f₆.read (12 + name.length) (by simp; omega)
  simp only [packreqString, if_neg haccept, if_neg (not_lt.mpr h), fillHeader, if_pos hheader,
    fillUint32, h₁, h₂, h₃, h₄, h₅, h₆, hread, ok_bind, pure_eq_ok]
  rw [frame_eq (10 + name.length) (by simp; omega)]
  simp

end Named

/-! ### Messages in several parts -/

/-- A payload cut into full chunks and a last, non-empty one. -/
structure Cut (payload : Bytes) (chunks : List Bytes) (last : Bytes) : Prop where
  payload_eq : payload = chunks.flatten ++ last
  full : ∀ chunk ∈ chunks, chunk.length = multiPart
  last_pos : 0 < last.length
  last_le : last.length ≤ multiPart

theorem Cut.cons {payload : Bytes} {chunks : List Bytes} {last chunk : Bytes}
    (h : Cut payload chunks last) (hchunk : chunk.length = multiPart) :
    Cut (chunk ++ payload) (chunk :: chunks) last where
  payload_eq := by rw [h.payload_eq, List.flatten_cons, List.append_assoc]
  full := by
    rintro c (_ | ⟨_, hc⟩)
    · exact hchunk
    · exact h.full c hc
  last_pos := h.last_pos
  last_le := h.last_le

section Split

variable {emit : Bool → Bytes → Except Fault Bytes} {f : Bool → Bytes → Bytes}

private theorem splitLoop_eq (hemit : ∀ last chunk, chunk.length ≤ multiPart →
    emit last chunk = .ok (f last chunk)) (part : ℕ) (pre rest : Bytes)
    (hlow : part * multiPart < rest.length) (hhigh : rest.length ≤ (part + 1) * multiPart) :
    ∃ chunks last, Cut rest chunks last ∧ chunks.length = part ∧
      splitLoop emit (pre ++ rest) (part + 1) pre.length rest.length =
        .ok (chunks.map (f false) ++ [f true last]) := by
  induction part generalizing pre rest with
  | zero =>
    have hle : rest.length ≤ multiPart := by omega
    have hread : readAt (pre ++ rest) pre.length rest.length = .ok rest :=
      readAt_eq_ok pre [] (by simp) rfl rfl
    refine ⟨[], rest, ⟨by simp, by simp, by omega, hle⟩, rfl, ?_⟩
    simp [splitLoop, not_lt.mpr hle, hle, hread, hemit true rest hle]
  | succ part ih =>
    -- the first chunk is a full one; the loop goes on behind it
    have hgt : multiPart < rest.length := by
      rw [Nat.succ_mul] at hlow; omega
    obtain ⟨chunk, rest', rfl, hchunk⟩ : ∃ chunk rest', rest = chunk ++ rest' ∧
        chunk.length = multiPart :=
      ⟨rest.take multiPart, rest.drop multiPart, (List.take_append_drop _ _).symm, by
        rw [List.length_take]; omega⟩
    have hlen : (chunk ++ rest').length = multiPart + rest'.length := by
      rw [List.length_append, hchunk]
    rw [hlen] at hlow hhigh hgt
    obtain ⟨chunks, last, hcut, hcount, hloop⟩ := ih (pre ++ chunk) rest'
      (by rw [Nat.succ_mul] at hlow; omega) (by rw [Nat.succ_mul] at hhigh; omega)
    have hread : readAt (pre ++ (chunk ++ rest')) pre.length multiPart = .ok chunk :=
      readAt_eq_ok pre rest' rfl rfl hchunk
    rw [List.append_assoc, List.length_append, hchunk] at hloop
    refine ⟨chunk :: chunks, last, hcut.cons hchunk, by rw [List.length_cons, hcount], ?_⟩
    rw [splitLoop, hlen, if_pos hgt, hread, decide_eq_false (by omega)]
    simp [hemit false chunk hchunk.le, hloop]

/-- The loop emits one frame for each chunk of the payload, the last one marked. -/
theorem splitLoop_of_pos (hemit : ∀ last chunk, chunk.length ≤ multiPart →
    emit last chunk = .ok (f last chunk)) {msg : Bytes} (hpos : 0 < msg.length) :
    ∃ chunks last, Cut msg chunks last ∧ chunks.length = (msg.length - 1) / multiPart ∧
      splitLoop emit msg ((msg.length - 1) / multiPart + 1) 0 msg.length =
        .ok (chunks.map (f false) ++ [f true last]) := by
  have hlow := Nat.div_mul_le_self (msg.length - 1) multiPart
  have hhigh := Nat.lt_mul_div_succ (msg.length - 1) (show 0 < multiPart by decide)
  exact splitLoop_eq hemit _ [] msg (by omega) (by rw [mul_comm]; omega)

end Split

/-- The body of a part frame. -/
def partBody (session : ℕ) (last : Bool) (chunk : Bytes) : Bytes :=
  (if last then 3 else 2) :: (leBytes 4 session ++ chunk)

theorem packPart_eq (session : ℤ) (last : Bool) {chunk : Bytes} (h : chunk.length ≤ multiPart) :
    packPart session last chunk = .ok (frame (partBody (toUInt32 session) last chunk)) := by
  have hlen : chunk.length ≤ 32768 := h
  have hheader : chunk.length + 5 < 0x10000 := by omega
  obtain ⟨b₁, h₁, f₁, t₁⟩ := Buffer.Filled.write_ahead tempLength 2 [if last then 3 else 2]
    (by simp [tempLength])
  obtain ⟨b₂, h₂, g₂, t₂⟩ := f₁.write_below 0 (beBytes 2 (chunk.length + 5)) t₁ rfl (by simp)
    (by simp [tempLength])
  have f₂ := g₂.join t₂ (by simp) (by simp [tempLength])
  obtain ⟨b₃, h₃, f₃⟩ := f₂.write 3 (leBytes 4 (toUInt32 session)) (by simp) (by simp [tempLength])
  obtain ⟨b₄, h₄, f₄⟩ := f₃.write 7 chunk (by simp) (by simp only [tempLength]; omega)
  have hread := f₄.read (chunk.length + 7) (by simp; omega)
  simp only [packPart, fillHeader, if_pos hheader, fillUint32, h₁, h₂, h₃, h₄, hread, ok_bind]
  rw [frame_eq (chunk.length + 5) (by simp [partBody]; omega)]
  simp [partBody]

/-- The part frames of a message: its payload cut into chunks, in order. -/
theorem packreqMulti_eq (session : ℤ) {msg : Bytes} (hpos : 0 < msg.length) :
    ∃ chunks last, Cut msg chunks last ∧ chunks.length = (msg.length - 1) / multiPart ∧
      packreqMulti session msg msg.length =
        .ok (chunks.map (fun c => frame (partBody (toUInt32 session) false c)) ++
          [frame (partBody (toUInt32 session) true last)]) :=
  splitLoop_of_pos (fun last _ h => packPart_eq session last h) hpos

end TestCluster.BeeCluster
