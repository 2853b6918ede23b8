import TestCluster.BeeCluster.Response

/-!
# The frames that are emitted

Every packer of `lua-beecluster.c` fills a buffer of `TEMP_LENGTH` bytes, writes the length of
what follows into a header of 16 bits, and announces how many part frames there will be. Here
frames are looked at as bytes, at the offsets at which a receiver looks at them.

## Main definitions

* `Emitted` — a frame that fits the buffer and says how long it is
* `PartFrames` — frames with the parts of a payload, of which the last one is marked
* `RequestFits`, `ResponseFits`, `TraceFits` — what is packed fits

## Main results

* `frames_fit` — all that is packed fits, whatever the address, the payload and the tag
-/

namespace TestCluster.BeeCluster

open Semantics

/-! ### Frames as bytes -/

/-- A frame: it fits the buffer, and its header says how many bytes follow. -/
structure Emitted (f : Bytes) : Prop where
  fits : f.length ≤ tempLength
  header : 2 ≤ f.length
  length_eq : beNat (f.take 2) = f.length - 2

/-- A body that fits the buffer is shorter than a header can say. -/
theorem emitted_frame {body : Bytes} (h : body.length + 2 ≤ tempLength) :
    Emitted (frame body) := by
  have hle : body.length + 2 ≤ 33280 := h
  have hlength : (frame body).length = 2 + body.length := by
    rw [frame, List.length_append, length_beBytes]
  constructor
  · rw [hlength, add_comm]
    exact h
  · rw [hlength]
    exact Nat.le_add_right _ _
  · rw [hlength, Nat.add_sub_cancel_left, frame, List.take_left' (length_beBytes 2 _),
      beNat_beBytes_of_lt]
    exact lt_of_le_of_lt (show body.length ≤ 33278 by omega) (by decide)

/-- The payload stands behind all that comes before it in the frames of parts. -/
def partOf (f : Bytes) : Bytes := f.drop 7

/-- Part frames: the byte at `mark` is `last` in the last one and `more` in all others. -/
structure PartFrames (mark : ℕ) (more last : UInt8) (payload : Bytes) (frames : List Bytes) :
    Prop where
  emitted : ∀ f ∈ frames, Emitted f
  marked : ∀ i f, frames[i]? = some f →
    f[mark]? = some (if i + 1 = frames.length then last else more)
  nonempty : ∀ f ∈ frames, 0 < (partOf f).length
  bounded : ∀ f ∈ frames, (partOf f).length ≤ multiPart
  payload_eq : (frames.map partOf).flatten = payload

/-- There is one full chunk for each time the payload goes on behind one. -/
theorem Cut.count {payload : Bytes} {chunks : List Bytes} {last : Bytes}
    (h : Cut payload chunks last) : chunks.length = (payload.length - 1) / multiPart := by
  have hsum : (chunks.map List.length).sum = chunks.length * multiPart := by
    rw [List.map_congr_left h.full, List.map_const', List.sum_replicate_nat]
  have hlength : payload.length = chunks.length * multiPart + last.length := by
    rw [h.payload_eq, List.length_append, List.length_flatten, hsum]
  have hpos := h.last_pos
  have hle := h.last_le
  rw [hlength]
  refine (Nat.div_eq_of_lt_le ?_ ?_).symm
  · omega
  · rw [Nat.succ_mul]
    omega

/-- Frames made of the chunks of a payload are part frames if each one is. -/
theorem Cut.partFrames {payload : Bytes} {chunks : List Bytes} {last : Bytes}
    (h : Cut payload chunks last) {f : Bool → Bytes → Bytes} {mark : ℕ} {moreMark lastMark : UInt8}
    (hemitted : ∀ b chunk, chunk.length ≤ multiPart → Emitted (f b chunk))
    (hmark : ∀ b chunk, (f b chunk)[mark]? = some (if b then lastMark else moreMark))
    (hpart : ∀ b chunk, partOf (f b chunk) = chunk) :
    PartFrames mark moreMark lastMark payload (chunks.map (f false) ++ [f true last]) := by
  have hmem : ∀ g ∈ chunks.map (f false) ++ [f true last],
      ∃ b chunk, g = f b chunk ∧ 0 < chunk.length ∧ chunk.length ≤ multiPart := by
    intro g hg
    rcases List.mem_append.mp hg with hg | hg
    · obtain ⟨chunk, hchunk, rfl⟩ := List.mem_map.mp hg
      have hfull := h.full chunk hchunk
      exact ⟨false, chunk, rfl, hfull ▸ by decide, hfull.le⟩
    · exact ⟨true, last, List.mem_singleton.mp hg, h.last_pos, h.last_le⟩
  constructor
  · intro g hg
    obtain ⟨b, chunk, rfl, -, hle⟩ := hmem g hg
    exact hemitted b chunk hle
  · intro i g hg
    rw [List.length_append, List.length_map, List.length_singleton]
    rw [List.getElem?_append] at hg
    split_ifs at hg with hi
    · -- a chunk that is not the last one
      rw [List.length_map] at hi
      obtain ⟨chunk, -, rfl⟩ := List.mem_map.mp (List.mem_of_getElem? hg)
      rw [hmark, if_neg (by decide), if_neg (by omega)]
    · rw [List.length_map] at hi hg
      have hlast : i - chunks.length = 0 := by
        by_contra hne
        rw [List.getElem?_eq_none (by rw [List.length_singleton]; omega)] at hg
        cases hg
      rw [hlast] at hg
      obtain rfl : f true last = g := Option.some.inj hg
      rw [hmark, if_pos rfl, if_pos (by omega)]
  · intro g hg
    obtain ⟨b, chunk, rfl, hpos, -⟩ := hmem g hg
    rwa [hpart]
  · intro g hg
    obtain ⟨b, chunk, rfl, -, hle⟩ := hmem g hg
    rwa [hpart]
  · rw [List.map_append, List.map_map, List.map_singleton, hpart, h.payload_eq,
      List.flatten_append, List.flatten_singleton]
    have hsame : partOf ∘ f false = id := funext fun chunk => hpart false chunk
    rw [hsame, List.map_id]

/-! ### Requests -/

/-- The addresses that are accepted. -/
def Addressed : LuaValue → Prop
  | .number _ => True
  | .string name => 1 ≤ name.length ∧ name.length ≤ 255
  | _ => False

/-- The packer that `packrequest` calls. The number it returns is `multipak`, for which
`lua_createtable` makes room. -/
def packreq (addr : LuaValue) (session : ℤ) (msg : Bytes) (sz : ℕ) (isPush : Bool) :
    Except Fault (Bytes × ℕ) :=
  match addr with
  | .number addr => packreqNumber addr session msg sz isPush
  | addr => packreqString addr session msg sz isPush

/-- A request, or a push, is packed: the request string is a frame, with the message at its end
or with part frames for it, as many as are announced. -/
def RequestFits (addr : LuaValue) (session : ℤ) (msg : Bytes) (isPush : Bool) : Prop :=
  ∃ packed multipak, packrequest addr session (some msg) msg.length isPush = .ok packed ∧
    packreq addr (toInt32 session) msg msg.length isPush = .ok (packed.request, multipak) ∧
    Emitted packed.request ∧
    match packed.padding with
    | none => multipak = 0 ∧ msg <:+ packed.request
    | some frames => frames.length = multipak ∧ PartFrames 2 2 3 msg frames

section Request

variable {addr : LuaValue} (session : ℤ) {msg : Bytes} (isPush : Bool)

/-- A short message is in the frame of its request. -/
theorem packreq_of_lt (haddr : Addressed addr) (h : msg.length < multiPart) :
    ∃ body, packreq addr session msg msg.length isPush = .ok (frame body, 0) ∧
      body.length + 2 ≤ tempLength ∧ msg <:+ body := by
  have hlt : msg.length < 32768 := h
  cases addr with
  | number n =>
    refine ⟨_, packreqNumber_of_lt n session isPush h, ?_, ?_⟩
    · rw [tempLength, List.length_cons, List.length_append, List.length_append, length_leBytes,
        length_leBytes]
      omega
    · rw [← List.append_assoc]
      exact (List.suffix_append _ msg).trans (List.suffix_cons _ _)
  | string name =>
    obtain ⟨hpos, hle⟩ := haddr
    refine ⟨_, packreqString_of_lt session isPush ⟨hpos, hle⟩ h, ?_, ?_⟩
    · rw [tempLength, List.length_cons, List.length_cons, List.length_append, List.length_append,
        length_leBytes]
      omega
    · rw [← List.append_assoc]
      exact ((List.suffix_append _ msg).trans (List.suffix_cons _ _)).trans (List.suffix_cons _ _)
  | nil => cases haddr
  | boolean b => cases haddr
  | object typename => cases haddr

/-- A long one is not. -/
theorem packreq_of_le (haddr : Addressed addr) (h : multiPart ≤ msg.length) :
    ∃ body, packreq addr session msg msg.length isPush =
        .ok (frame body, (msg.length - 1) / multiPart + 1) ∧ body.length + 2 ≤ tempLength := by
  cases addr with
  | number n =>
    refine ⟨_, packreqNumber_of_le n session isPush h, ?_⟩
    rw [List.length_cons, List.length_append, List.length_append, length_leBytes, length_leBytes,
      length_leBytes]
    decide
  | string name =>
    obtain ⟨hpos, hle⟩ := haddr
    refine ⟨_, packreqString_of_le session isPush ⟨hpos, hle⟩ h, ?_⟩
    rw [tempLength, List.length_cons, List.length_cons, List.length_append, List.length_append,
      length_leBytes, length_leBytes]
    omega
  | nil => cases haddr
  | boolean b => cases haddr
  | object typename => cases haddr

theorem packrequest_of_packreq {sz : ℕ} (hsession : 0 < toInt32 session) (hsz : sz < 2 ^ 32)
    {request : Bytes} {multipak : ℕ}
    (h : packreq addr (toInt32 session) msg sz isPush = .ok (request, multipak)) :
    ∃ newSession, packrequest addr session (some msg) sz isPush =
      if multipak ≠ 0 then
        packreqMulti (toInt32 session) msg sz >>= fun padding =>
          .ok ⟨request, newSession, some padding⟩
      else .ok ⟨request, newSession, none⟩ := by
  refine ⟨if toUInt32 (toInt32 session) + 1 > 2 ^ 31 - 1 then 1
    else toUInt32 (toInt32 session) + 1, ?_⟩
  have hcall : packrequest addr session (some msg) sz isPush =
      packreq addr (toInt32 session) msg sz isPush >>= fun packed =>
        let newSession := toUInt32 (toInt32 session) + 1
        let newSession := if newSession > 2 ^ 31 - 1 then 1 else newSession
        if packed.2 ≠ 0 then
          packreqMulti (toInt32 session) msg sz >>= fun padding =>
            .ok ⟨packed.1, newSession, some padding⟩
        else .ok ⟨packed.1, newSession, none⟩ := by
    simp only [packrequest, toUInt32_natCast hsz, if_neg (not_le.mpr hsession)]
    cases addr <;> rfl
  rw [hcall, h, ok_bind]

theorem partFrame_mark (session : ℕ) (last : Bool) (chunk : Bytes) :
    (frame (partBody session last chunk))[2]? = some (if last then 3 else 2) := by
  rw [frame, List.getElem?_append_right (by rw [length_beBytes]), length_beBytes, partBody,
    List.getElem?_cons_zero]

theorem partFrame_part (session : ℕ) (last : Bool) (chunk : Bytes) :
    partOf (frame (partBody session last chunk)) = chunk := by
  rw [partOf, show 7 = 2 + 5 from rfl, ← List.drop_drop, frame_drop, partBody, List.drop_succ_cons,
    List.drop_left' (length_leBytes 4 _)]

/-- Requests and pushes fit. -/
theorem request_fits (haddr : Addressed addr) (hsession : 0 < toInt32 session)
    (hlen : msg.length < 2 ^ 32) : RequestFits addr session msg isPush := by
  rcases lt_or_ge msg.length multiPart with h | h
  · obtain ⟨body, hreq, hfits, hsuffix⟩ := packreq_of_lt (toInt32 session) isPush haddr h
    obtain ⟨newSession, hpacked⟩ := packrequest_of_packreq session isPush hsession hlen hreq
    refine ⟨⟨frame body, newSession, none⟩, 0, hpacked, hreq, emitted_frame hfits, rfl, ?_⟩
    exact hsuffix.trans (List.suffix_append _ body)
  · obtain ⟨body, hreq, hfits⟩ := packreq_of_le (toInt32 session) isPush haddr h
    obtain ⟨newSession, hpacked⟩ := packrequest_of_packreq session isPush hsession hlen hreq
    have hpos : 0 < msg.length := lt_of_lt_of_le (by decide) h
    obtain ⟨chunks, last, hcut, hcount, hmulti⟩ := packreqMulti_eq (toInt32 session) hpos
    rw [if_pos (Nat.succ_ne_zero _), hmulti, ok_bind] at hpacked
    refine ⟨_, _, hpacked, hreq, emitted_frame hfits, ?_, ?_⟩
    · rw [List.length_append, List.length_map, List.length_singleton, hcount]
    · refine hcut.partFrames (f := fun b chunk =>
        frame (partBody (toUInt32 (toInt32 session)) b chunk)) ?_ ?_ ?_
      · intro b chunk hchunk
        have hle : chunk.length ≤ 32768 := hchunk
        refine emitted_frame ?_
        rw [tempLength, partBody, List.length_cons, List.length_append, length_leBytes]
        omega
      · exact partFrame_mark _
      · exact partFrame_part _

end Request

/-! ### Responses -/

/-- What `lua_createtable` makes room for: `part + 1`, with the frame that begins the group. -/
def responseTable (sz : ℕ) : ℤ := toInt32 ((sz - 1) / multiPart + 1 : ℕ) + 1

/-- A response is packed: in one frame, which for an error has the start of the message in it,
or in a group of as many frames as are announced. -/
def ResponseFits (session : ℤ) (ok : Bool) (msg : Bytes) : Prop :=
  ∃ response, lpackresponse session ok msg msg.length = .ok response ∧
    match response with
    | .string f =>
      Emitted f ∧ (partOf f).length ≤ multiPart ∧
        partOf f = if ok then msg else msg.take multiPart
    | .table frames =>
      ok = true ∧ (frames.length : ℤ) = responseTable msg.length ∧
        (∀ f ∈ frames.head?, Emitted f) ∧ PartFrames 6 3 4 msg frames.tail

section Response

variable (session : ℤ) {msg : Bytes}

theorem responseFrame_mark (session : ℕ) (type : UInt8) (chunk : Bytes) :
    (frame (responseBody session type chunk))[6]? = some type := by
  rw [frame, List.getElem?_append_right (by rw [length_beBytes]; decide), length_beBytes,
    responseBody, List.getElem?_append_right (by rw [length_leBytes]), length_leBytes,
    List.getElem?_cons_zero]

theorem responseFrame_part (session : ℕ) (type : UInt8) (chunk : Bytes) :
    partOf (frame (responseBody session type chunk)) = chunk := by
  rw [partOf, show 7 = 2 + 5 from rfl, ← List.drop_drop, frame_drop, responseBody,
    show 5 = 4 + 1 from rfl, ← List.drop_drop, List.drop_left' (length_leBytes 4 _),
    List.drop_one, List.tail_cons]

theorem emitted_response (session : ℕ) (type : UInt8) {chunk : Bytes}
    (h : chunk.length ≤ multiPart) : Emitted (frame (responseBody session type chunk)) := by
  have hle : chunk.length ≤ 32768 := h
  refine emitted_frame ?_
  rw [tempLength, responseBody, List.length_append, List.length_cons, length_leBytes]
  omega

/-- Responses fit. -/
theorem response_fits (ok : Bool) (hlen : msg.length < 2 ^ 32) : ResponseFits session ok msg := by
  cases ok with
  | false =>
    have htake : (msg.take multiPart).length ≤ multiPart := List.length_take_le _ _
    refine ⟨_, lpackresponse_error session msg, emitted_response _ _ htake, ?_, ?_⟩
    · rwa [responseFrame_part]
    · rw [responseFrame_part]
      rfl
  | true =>
    rcases le_or_gt msg.length multiPart with h | h
    · refine ⟨_, lpackresponse_of_le session h, emitted_response _ _ h, ?_, ?_⟩
      · rwa [responseFrame_part]
      · rw [responseFrame_part]
        rfl
    · obtain ⟨chunks, last, hcut, hpacked⟩ := lpackresponse_of_lt session h (by omega)
      refine ⟨_, hpacked, rfl, ?_, ?_, ?_⟩
      · have hcount := hcut.count
        have hquot : (msg.length - 1) / multiPart < 2 ^ 30 := by
          rw [Nat.div_lt_iff_lt_mul (by decide)]
          exact lt_of_le_of_lt (Nat.sub_le _ _) (lt_of_lt_of_le hlen (by decide))
        rw [← hcount] at hquot
        rw [responseTable, ← hcount, toInt32_of_lt (by omega) (by omega), List.length_cons,
          List.length_append, List.length_map, List.length_singleton]
        push_cast
        rfl
      · intro f hf
        obtain rfl := Option.some.inj hf
        exact emitted_response _ _ (by rw [length_leBytes]; decide)
      · refine hcut.partFrames (f := fun b chunk =>
          frame (responseBody (toUInt32 session) (if b then 4 else 3) chunk)) ?_ ?_ ?_
        · exact fun b chunk hchunk => emitted_response _ _ hchunk
        · exact fun b chunk => responseFrame_mark _ _ chunk
        · exact fun b chunk => responseFrame_part _ _ chunk

end Response

/-! ### Trace tags -/

/-- A trace tag is packed: its frame ends with it. -/
def TraceFits (tag : Bytes) : Prop :=
  ∃ f, lpacktrace tag = .ok f ∧ Emitted f ∧ f.drop 3 = tag

/-- Tags that are not too long fit. -/
theorem trace_fits {tag : Bytes} (h : tag.length ≤ 0x8000) : TraceFits tag := by
  have hheader : tag.length + 1 < 0x10000 := by omega
  obtain ⟨b₁, h₁, f₁, t₁⟩ := Buffer.Filled.write_ahead tempLength 2 [4] (by decide)
  obtain ⟨b₂, h₂, g₂, t₂⟩ := f₁.write_below 0 (beBytes 2 (tag.length + 1)) t₁ rfl (by simp)
    (by simp [tempLength])
  have f₂ := g₂.join t₂ (by simp) (by simp [tempLength])
  obtain ⟨b₃, h₃, f₃⟩ := f₂.write 3 tag (by simp) (by simp only [tempLength]; omega)
  have hread := f₃.read (tag.length + 3) (by simp; omega)
  have hframe : lpacktrace tag = .ok (frame (4 :: tag)) := by
    simp only [lpacktrace, if_neg (not_lt.mpr h), fillHeader, if_pos hheader, h₁, h₂, h₃, hread,
      ok_bind]
    rw [frame_eq (tag.length + 1) rfl]
    simp
  refine ⟨_, hframe, emitted_frame ?_, ?_⟩
  · rw [tempLength, List.length_cons]
    omega
  · rw [show 3 = 2 + 1 from rfl, ← List.drop_drop, frame_drop, List.drop_one, List.tail_cons]

/-- **Frames fit.** Whatever is packed that is accepted, no write is outside the buffer, no
assertion fails, and the frames are as they are announced. -/
theorem frames_fit :
    (∀ addr session msg isPush, Addressed addr → 0 < toInt32 session → msg.length < 2 ^ 32 →
      RequestFits addr session msg isPush) ∧
    (∀ session ok msg, msg.length < 2 ^ 32 → ResponseFits session ok msg) ∧
    (∀ tag : Bytes, tag.length ≤ 0x8000 → TraceFits tag) :=
  ⟨fun _ session _ isPush haddr hsession hlen => request_fits session isPush haddr hsession hlen,
    fun session ok _ hlen => response_fits session ok hlen, fun _ h => trace_fits h⟩

/-- A push of one byte to a name, an error and an empty tag; a request and an answer in two parts. -/
theorem frames_fit_parts :
    RequestFits (.string [97]) 7 [1] true ∧
      RequestFits (.string [97]) 7 (List.replicate 0x8001 1) false ∧
        ResponseFits 7 false [1] ∧ ResponseFits 7 true (List.replicate 0x8001 1) ∧ TraceFits [] := by
  have hlong : (List.replicate 0x8001 (1 : UInt8)).length < 2 ^ 32 := by
    rw [List.length_replicate]
    decide
  exact ⟨frames_fit.1 (.string [97]) 7 [1] true ⟨by decide, by decide⟩ (by decide) (by decide),
    frames_fit.1 (.string [97]) 7 _ false ⟨by decide, by decide⟩ (by decide) hlong,
    frames_fit.2.1 7 false [1] (by decide), frames_fit.2.1 7 true _ hlong,
    frames_fit.2.2 [] (by decide)⟩

end TestCluster.BeeCluster
