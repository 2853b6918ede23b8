import TestCluster.BeeCluster.Request

/-!
# Packing and unpacking cluster responses

`lpackresponse` and `lunpackresponse` of `lua-beecluster.c`. An answer of at most
`MULTI_PART` bytes is one frame, a longer one a group: a frame with the size and a
frame for each part. An error message is cut to fit one frame.

## Main definitions

* `lpackresponse`, `PackedResponse.frames` — the frames of a response
* `lunpackresponse` — one frame taken apart
* `responseBody` — the body of a response frame

## Main results

* `lpackresponse_error`, `lpackresponse_of_le`, `lpackresponse_of_lt` — the frames
  that are packed
* `lunpackresponse_single`, `lunpackresponse_begin`, `lunpackresponse_part` — a frame
  read back
-/

namespace TestCluster.BeeCluster

open Semantics

/-- What `packresponse` returns: a string, or a table of strings. -/
inductive PackedResponse
  | string (frame : Bytes)
  | table (frames : List Bytes)
  deriving DecidableEq, Repr

/-- The frames of a packed response, in order. -/
def PackedResponse.frames : PackedResponse → List Bytes
  | .string frame => [frame]
  | .table frames => frames

/-- One frame of `lpackresponse` that is filled from its start. -/
def packResponseFrame (session : ℤ) (type : UInt8) (msg : Bytes) (sz : ℕ) : Except Fault Bytes := do
  let buf ← fillHeader (Buffer.alloc tempLength) (sz + 5)
  let buf ← fillUint32 buf 2 (toUInt32 session)
  let buf ← buf.write 6 [type]
  let buf ← buf.write 7 (← readAt msg 0 sz)
  buf.read 0 (sz + 7)

/-- One part frame of `lpackresponse`. -/
def packResponsePart (session : ℤ) (last : Bool) (chunk : Bytes) : Except Fault Bytes := do
  let buf ← (Buffer.alloc tempLength).write 6 [if last then 4 else 3]
  let buf ← fillHeader buf (chunk.length + 5)
  let buf ← fillUint32 buf 2 (toUInt32 session)
  let buf ← buf.write 7 chunk
  buf.read 0 (chunk.length + 7)

/-- `lpackresponse`. The message is a string or a block, with its size. -/
def lpackresponse (session : ℤ) (ok : Bool) (msg : Bytes) (sz : ℕ) :
    Except Fault PackedResponse :=
  if ok = false then do
    -- truncate the error msg if too long
    let sz := if sz > multiPart then multiPart else sz
    return .string (← packResponseFrame session 0 msg sz)
  else if sz > multiPart then do
    let part := toInt32 ((sz - 1) / multiPart + 1 : ℕ)
    -- multi part begin
    let begin ← packResponseFrame session 2 (leBytes 4 sz) 4
    let frames ← splitLoop (packResponsePart session) msg part.toNat 0 sz
    return .table (begin :: frames)
  else do
    return .string (← packResponseFrame session 1 msg sz)

/-- What `unpackresponse` returns: the results handed to the channel. -/
structure UnpackedResponse where
  session : ℕ
  ok : Bool
  data : LuaValue
  padding : Bool
  deriving DecidableEq, Repr

/-- `lunpackresponse`; `none` when it returns nothing. -/
def lunpackresponse (buf : Bytes) : Except Fault (Option UnpackedResponse) :=
  let sz := buf.length
  if sz < 5 then
    .ok none
  else do
    let session := leNat (← readAt buf 0 4)
    let type ← readAt buf 4 1
    match type.headD 0 with
    | 0 => return some ⟨session, false, .string (← readAt buf 5 (sz - 5)), false⟩
    | 1 => return some ⟨session, true, .string (← readAt buf 5 (sz - 5)), false⟩
    | 4 => return some ⟨session, true, .string (← readAt buf 5 (sz - 5)), false⟩
    | 2 =>
      if sz ≠ 9 then
        return none
      else
        let size := leNat (← readAt buf 5 4)
        return some ⟨session, true, .number size, true⟩
    | 3 => return some ⟨session, true, .string (← readAt buf 5 (sz - 5)), true⟩
    | _ => return none

/-! ### The emitted frames -/

/-- The body of a response frame. -/
def responseBody (session : ℕ) (type : UInt8) (msg : Bytes) : Bytes :=
  leBytes 4 session ++ type :: msg

theorem packResponseFrame_eq (session : ℤ) (type : UInt8) (msg : Bytes) (sz : ℕ)
    (hsz : sz ≤ msg.length) (h : sz ≤ multiPart) :
    packResponseFrame session type msg sz =
      .ok (frame (responseBody (toUInt32 session) type (msg.take sz))) := by
  have hle : sz ≤ 32768 := h
  have hheader : sz + 5 < 0x10000 := by omega
  have htake : (msg.take sz).length = sz := by rw [List.length_take, min_eq_left hsz]
  have hread : readAt msg 0 sz = .ok (msg.take sz) := by
    rw [readAt, if_pos (by omega), List.drop_zero]
  obtain ⟨b₁, h₁, f₁⟩ := (Buffer.Filled.alloc tempLength).write 0
    (beBytes 2 (sz + 5)) rfl (by simp [tempLength])
  obtain ⟨b₂, h₂, f₂⟩ := f₁.write 2 (leBytes 4 (toUInt32 session)) (by simp) (by simp [tempLength])
  obtain ⟨b₃, h₃, f₃⟩ := f₂.write 6 [type] (by simp) (by simp [tempLength])
  obtain ⟨b₄, h₄, f₄⟩ := f₃.write 7 (msg.take sz) (by simp) (by rw [htake, tempLength]; omega)
  have hout := f₄.read (sz + 7) (by simp [htake]; omega)
  simp only [packResponseFrame, fillHeader, if_pos hheader, fillUint32, h₁, h₂, h₃, hread, h₄,
    hout, ok_bind]
  rw [frame_eq (sz + 5) (by simp [responseBody, htake]; omega)]
  simp [responseBody]

theorem packResponsePart_eq (session : ℤ) (last : Bool) {chunk : Bytes}
    (h : chunk.length ≤ multiPart) :
    packResponsePart session last chunk =
      .ok (frame (responseBody (toUInt32 session) (if last then 4 else 3) chunk)) := by
  have hle : chunk.length ≤ 32768 := h
  have hheader : chunk.length + 5 < 0x10000 := by omega
  -- the type byte is written first, in front of which header and session are filled in
  obtain ⟨b₁, h₁, f₁, t₁⟩ := Buffer.Filled.write_ahead tempLength 6 [if last then 4 else 3]
    (by simp [tempLength])
  obtain ⟨b₂, h₂, f₂, t₂⟩ := f₁.write_below 0 (beBytes 2 (chunk.length + 5)) t₁ rfl (by simp)
    (by simp [tempLength])
  obtain ⟨b₃, h₃, g₃, t₃⟩ := f₂.write_below 2 (leBytes 4 (toUInt32 session)) t₂ (by simp) (by simp)
    (by simp [tempLength])
  have f₃ := g₃.join t₃ (by simp) (by simp [tempLength])
  obtain ⟨b₄, h₄, f₄⟩ := f₃.write 7 chunk (by simp) (by simp only [tempLength]; omega)
  have hout := f₄.read (chunk.length + 7) (by simp; omega)
  simp only [packResponsePart, fillHeader, if_pos hheader, fillUint32, h₁, h₂, h₃, h₄, hout,
    ok_bind]
  rw [frame_eq (chunk.length + 5) (by simp [responseBody]; omega)]
  simp [responseBody]

section Packed

variable (session : ℤ) {msg : Bytes}

/-- An error is one frame, with at most `MULTI_PART` bytes of its message. -/
theorem lpackresponse_error (msg : Bytes) :
    lpackresponse session false msg msg.length =
      .ok (.string (frame (responseBody (toUInt32 session) 0 (msg.take multiPart)))) := by
  have hsz : (if msg.length > multiPart then multiPart else msg.length) =
      min multiPart msg.length := by
    split_ifs <;> omega
  have hframe := packResponseFrame_eq session 0 _ _ (min_le_right multiPart msg.length)
    (min_le_left multiPart msg.length)
  rw [← List.take_eq_take_min] at hframe
  simp only [lpackresponse, if_true, hsz, hframe, ok_bind, pure_eq_ok]

/-- A short answer is one frame. -/
theorem lpackresponse_of_le (h : msg.length ≤ multiPart) :
    lpackresponse session true msg msg.length =
      .ok (.string (frame (responseBody (toUInt32 session) 1 msg))) := by
  rw [lpackresponse, if_neg (by decide), if_neg (not_lt.mpr h),
    packResponseFrame_eq session 1 _ _ le_rfl h, List.take_length]
  rfl

private theorem part_toNat {sz : ℕ} (h : sz < 2 ^ 45) :
    (toInt32 ((sz - 1) / multiPart + 1 : ℕ)).toNat = (sz - 1) / multiPart + 1 := by
  have hquot : (sz - 1) / multiPart < 2 ^ 30 := by
    rw [Nat.div_lt_iff_lt_mul (by decide)]
    exact lt_of_le_of_lt (Nat.sub_le _ _) (lt_of_lt_of_le h (by decide))
  generalize (sz - 1) / multiPart = q at hquot
  rw [toInt32_of_lt (by omega) (by omega), Int.toNat_natCast]

/-- A long answer is a group: its size, then its payload cut into chunks. The part
counter is an `int`. -/
theorem lpackresponse_of_lt (h : multiPart < msg.length) (hlen : msg.length < 2 ^ 45) :
    ∃ chunks last, Cut msg chunks last ∧
      lpackresponse session true msg msg.length =
        .ok (.table (frame (responseBody (toUInt32 session) 2 (leBytes 4 msg.length)) ::
          (chunks.map (fun c => frame (responseBody (toUInt32 session) 3 c)) ++
            [frame (responseBody (toUInt32 session) 4 last)]))) := by
  -- the payload is cut into chunks, of which the last one has its own type
  obtain ⟨chunks, last, hcut, -, hloop⟩ :=
    splitLoop_of_pos (fun last _ h => packResponsePart_eq session last h)
      (lt_of_le_of_lt (Nat.zero_le _) h)
  have hbegin := packResponseFrame_eq session 2 (leBytes 4 msg.length) 4
    (by simp) (by decide)
  have htake : (leBytes 4 msg.length).take 4 = leBytes 4 msg.length :=
    List.take_of_length_le (by simp)
  refine ⟨chunks, last, hcut, ?_⟩
  simp only [lpackresponse, Bool.true_eq_false, if_false, if_pos h, part_toNat hlen, hbegin,
    htake, ok_bind]
  rw [hloop]
  rfl

end Packed

/-! ### Frames read back -/

section ReadBack

variable {session : ℕ} {chunk : Bytes}

private theorem response_fields {buf : Bytes} (type : UInt8) (chunk : Bytes) (hs : session < 2 ^ 32)
    (hbuf : buf = responseBody session type chunk) :
    ¬ buf.length < 5 ∧ readAt buf 0 4 = .ok (leBytes 4 session) ∧ readAt buf 4 1 = .ok [type] ∧
      readAt buf 5 (buf.length - 5) = .ok chunk ∧ leNat (leBytes 4 session) = session := by
  refine ⟨?_, ?_, ?_, ?_, leNat_leBytes_of_lt (lt_of_lt_of_le hs (by decide))⟩
  · simp [hbuf, responseBody]; omega
  · exact readAt_eq_ok [] (type :: chunk) hbuf rfl (length_leBytes 4 _)
  · exact readAt_eq_ok (leBytes 4 session) chunk (by simp [hbuf, responseBody]) (by simp) rfl
  · exact readAt_eq_ok (leBytes 4 session ++ [type]) [] (by simp [hbuf, responseBody]) (by simp)
      (by simp [hbuf, responseBody]; omega)

/-- A single frame, error or answer. -/
theorem lunpackresponse_single (ok : Bool) (hs : session < 2 ^ 32) :
    lunpackresponse (responseBody session (if ok then 1 else 0) chunk) =
      .ok (some ⟨session, ok, .string chunk, false⟩) := by
  obtain ⟨hlen, hsession, htype, hdata, hnat⟩ := response_fields (if ok then 1 else 0)
    chunk hs rfl
  simp only [lunpackresponse, if_neg hlen, hsession, htype, hdata, hnat, ok_bind]
  cases ok <;> rfl

/-- A part frame, and the last one. -/
theorem lunpackresponse_part (last : Bool) (hs : session < 2 ^ 32) :
    lunpackresponse (responseBody session (if last then 4 else 3) chunk) =
      .ok (some ⟨session, true, .string chunk, !last⟩) := by
  obtain ⟨hlen, hsession, htype, hdata, hnat⟩ := response_fields (if last then 4 else 3)
    chunk hs rfl
  simp only [lunpackresponse, if_neg hlen, hsession, htype, hdata, hnat, ok_bind]
  cases last <;> rfl

/-- The frame that announces the size of a group. -/
theorem lunpackresponse_begin {size : ℕ} (hs : session < 2 ^ 32) (hsize : size < 2 ^ 32) :
    lunpackresponse (responseBody session 2 (leBytes 4 size)) =
      .ok (some ⟨session, true, .number size, true⟩) := by
  obtain ⟨hlen, hsession, htype, hdata, hnat⟩ := response_fields 2
    (leBytes 4 size) hs rfl
  have hnine : (responseBody session 2 (leBytes 4 size)).length = 9 := by simp [responseBody]
  have hsz : leNat (leBytes 4 size) = size :=
    leNat_leBytes_of_lt (lt_of_lt_of_le hsize (by decide))
  rw [hnine] at hdata
  simp only [lunpackresponse, if_neg hlen, hsession, htype, hnat, ok_bind]
  simp only [List.headD_cons, hnine, ne_eq, not_true_eq_false, if_false, hdata, ok_bind, hsz,
    pure_eq_ok]

end ReadBack

end TestCluster.BeeCluster
