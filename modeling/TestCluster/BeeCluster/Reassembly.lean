import TestCluster.Semantics.Interleaving
import TestCluster.BeeCluster.Parts
import TestCluster.BeeCluster.UnpackRequest

/-!
# Reassembly of requests in the agent

The part of `dispatch_request` in `bee_clusteragent.lua` up to the dispatch point: the
frames of a connection are unpacked one by one, and the parts of a message are
collected in `large_request` under the session the frames carry.

## Main definitions

* `Message` — what a sender packs: an address, a flag, a session and a payload
* `Message.pack` — its frames
* `dispatchRequest`, `dispatchFrame` — one frame at the agent
* `Arrival` — what a frame leads to

## Main results

* `Message.reactAll_frames` — the frames of one message alone
* `dispatchAll_interleaved` — the frames of many messages, interleaved
-/

namespace TestCluster.BeeCluster

open Semantics

/-! ### Messages and their frames -/

/-- The address of a message: a number or a name, as `packrequest` accepts them. -/
inductive Address
  | number (n : ℕ) (lt : n < 2 ^ 32)
  | name (s : Bytes) (pos : 1 ≤ s.length) (le : s.length ≤ 255)

/-- The address as a Lua value. -/
def Address.toLua : Address → LuaValue
  | .number n _ => .number n
  | .name s _ _ => .string s

/-- A message to be sent. -/
structure Message where
  addr : Address
  isPush : Bool
  session : ℕ
  payload : Bytes
  session_pos : 0 < session
  session_lt : session < 2 ^ 31
  length_lt : payload.length < 2 ^ 31

namespace Message

/-- The frames of a message: the request string, then the part frames. -/
def pack (m : Message) : Except Fault (List Bytes) := do
  let packed ← packrequest m.addr.toLua m.session (some m.payload) m.payload.length m.isPush
  return packed.request :: packed.padding.getD []

/-- The session in the frames: a push in one frame carries 0. -/
def wireSession (m : Message) : ℕ :=
  if m.isPush && decide (m.payload.length < multiPart) then 0 else m.session

/-- The body of the request string. -/
def head (m : Message) : Bytes :=
  match m.addr with
  | .number n _ =>
    if m.payload.length < multiPart then
      0 :: (leBytes 4 n ++ (leBytes 4 m.wireSession ++ m.payload))
    else
      (if m.isPush then 0x41 else 1) ::
        (leBytes 4 n ++ (leBytes 4 m.wireSession ++ leBytes 4 m.payload.length))
  | .name s _ _ =>
    if m.payload.length < multiPart then
      0x80 :: UInt8.ofNat s.length :: (s ++ (leBytes 4 m.wireSession ++ m.payload))
    else
      (if m.isPush then 0xc1 else 0x81) :: UInt8.ofNat s.length ::
        (s ++ (leBytes 4 m.wireSession ++ leBytes 4 m.payload.length))

theorem wireSession_of_lt {m : Message} (h : m.payload.length < multiPart) :
    m.wireSession = if m.isPush then 0 else m.session := by
  simp [wireSession, h]

theorem wireSession_of_le {m : Message} (h : multiPart ≤ m.payload.length) :
    m.wireSession = m.session := by
  simp [wireSession, not_lt.mpr h]

theorem wireSession_lt (m : Message) : m.wireSession < 2 ^ 31 := by
  have := m.session_lt
  unfold wireSession
  split_ifs <;> omega

private theorem toInt32_session (m : Message) : toInt32 m.session = m.session :=
  toInt32_of_lt (by omega) (by have := m.session_lt; omega)

private theorem toUInt32_session (m : Message) : toUInt32 m.session = m.session :=
  toUInt32_natCast (by have := m.session_lt; omega)

/-- The call of a packer that `packrequest` makes for the message. -/
private def packHead (m : Message) : Except Fault (Bytes × ℕ) :=
  match m.addr with
  | .number n _ => packreqNumber n m.session m.payload m.payload.length m.isPush
  | .name s _ _ => packreqString (.string s) m.session m.payload m.payload.length m.isPush

private theorem packHead_eq (m : Message) :
    m.packHead = .ok (frame m.head,
      if m.payload.length < multiPart then 0 else (m.payload.length - 1) / multiPart + 1) := by
  unfold packHead head
  cases haddr : m.addr with
  | number n lt =>
    by_cases h : m.payload.length < multiPart
    · simp only [packreqNumber_of_lt _ _ _ h, if_pos h, wireSession_of_lt h, toUInt32_session,
        toUInt32_natCast lt]
    · have hle := not_lt.mp h
      simp only [packreqNumber_of_le _ _ _ hle, if_neg h, wireSession_of_le hle, toUInt32_session,
        toUInt32_natCast lt]
  | name s pos le =>
    by_cases h : m.payload.length < multiPart
    · simp only [packreqString_of_lt _ _ ⟨pos, le⟩ h, if_pos h, wireSession_of_lt h,
        toUInt32_session]
    · have hle := not_lt.mp h
      simp only [packreqString_of_le _ _ ⟨pos, le⟩ hle, if_neg h, wireSession_of_le hle,
        toUInt32_session]

private theorem packrequest_eq (m : Message) :
    packrequest m.addr.toLua m.session (some m.payload) m.payload.length m.isPush = do
      let (request, multipak) ← m.packHead
      let newSession := if m.session + 1 > 2 ^ 31 - 1 then 1 else m.session + 1
      if multipak ≠ 0 then
        let padding ← packreqMulti m.session m.payload m.payload.length
        return ⟨request, newSession, some padding⟩
      else
        return ⟨request, newSession, none⟩ := by
  have hpos : ¬ (m.session : ℤ) ≤ 0 := by have := m.session_pos; omega
  have hsz : toUInt32 m.payload.length = m.payload.length :=
    toUInt32_natCast (by have := m.length_lt; omega)
  unfold packrequest packHead
  simp only [hsz, toInt32_session, toUInt32_session, if_neg hpos]
  cases m.addr <;> rfl

/-- A short message is packed into one frame. -/
theorem pack_of_lt {m : Message} (h : m.payload.length < multiPart) :
    m.pack = .ok [frame m.head] := by
  simp [pack, packrequest_eq, packHead_eq, h]

/-- A long message is packed into its header and one frame for each chunk. -/
theorem pack_of_le {m : Message} (h : multiPart ≤ m.payload.length) :
    ∃ chunks last, Cut m.payload chunks last ∧
      m.pack = .ok (frame m.head ::
        (chunks.map (fun c => frame (partBody m.session false c)) ++
          [frame (partBody m.session true last)])) := by
  have hpos : 0 < m.payload.length := lt_of_lt_of_le (by decide) h
  obtain ⟨chunks, last, hcut, -, hmulti⟩ := packreqMulti_eq m.session hpos
  refine ⟨chunks, last, hcut, ?_⟩
  rw [toUInt32_session] at hmulti
  simp [pack, packrequest_eq, packHead_eq, not_lt.mpr h, hmulti]

/-- Packing a message never fails. -/
theorem exists_pack (m : Message) : ∃ frames, m.pack = .ok frames := by
  rcases lt_or_ge m.payload.length multiPart with h | h
  · exact ⟨_, pack_of_lt h⟩
  · obtain ⟨chunks, last, -, hpack⟩ := pack_of_le h
    exact ⟨_, hpack⟩

end Message

/-! ### The agent -/

/-- An entry of `large_request`: where the message goes, and the table of its parts. -/
structure LargeRequest where
  addr : LuaValue
  isPush : Bool
  parts : List LuaValue
  deriving DecidableEq, Repr

/-- What a frame leads to: a complete message at the dispatch point, the report of a
message that cannot be reassembled, or an error raised in the handler. -/
inductive Arrival
  | dispatched (addr : LuaValue) (session : ℕ) (msg : Bytes) (isPush : Bool)
  | invalidLargeReq (session : ℕ)
  | raised (fault : Fault)
  deriving DecidableEq, Repr

/-- `dispatch_request` up to the dispatch point, on the entry `large_request[session]`. -/
def dispatchRequest (session : ℕ) (entry : Option LargeRequest) (u : Unpacked) :
    Option LargeRequest × List Arrival :=
  if u.padding then
    let req := entry.getD ⟨u.addr, u.isPush, []⟩
    match lappend req.parts u.msg u.sz with
    | .error fault => (some req, [.raised fault])
    | .ok parts => (some { req with parts }, [])
  else
    match entry with
    | some req =>
      match lappend req.parts u.msg u.sz >>= lconcat with
      | .error fault => (none, [.raised fault])
      | .ok none => (none, [.invalidLargeReq session])
      | .ok (some msg) => (none, [.dispatched req.addr session msg req.isPush])
    | none =>
      match u.msg with
      | none => (none, [.invalidLargeReq session])
      | some msg => (none, [.dispatched u.addr session msg u.isPush])

/-- The handler of one frame, given what `unpackrequest` returned or raised. A trace
frame has no session and is ignored. -/
def dispatchUnpacked (largeRequest : ℕ → Option LargeRequest) :
    Except Fault Unpacked → (ℕ → Option LargeRequest) × List Arrival
  | .error fault => (largeRequest, [.raised fault])
  | .ok u =>
    match u.session with
    | none => (largeRequest, [])
    | some session =>
      let r := dispatchRequest session (largeRequest session) u
      (Function.update largeRequest session r.1, r.2)

/-- One frame, its length header removed. -/
def dispatchFrame (largeRequest : ℕ → Option LargeRequest) (msg : Bytes) :
    (ℕ → Option LargeRequest) × List Arrival :=
  dispatchUnpacked largeRequest (lunpackrequest msg)

/-- The frames of a connection, in the order in which they arrive. -/
def dispatchAll (largeRequest : ℕ → Option LargeRequest) :
    List Bytes → (ℕ → Option LargeRequest) × List Arrival
  | [] => (largeRequest, [])
  | msg :: msgs =>
    let r := dispatchFrame largeRequest msg
    let r' := dispatchAll r.1 msgs
    (r'.1, r.2 ++ r'.2)

/-! ### What one frame does -/

section Request

variable {session : ℕ} {entry : Option LargeRequest} {req : LargeRequest} {u : Unpacked}
  {parts : List LuaValue}

/-- A frame that announces more is appended to its entry, a new one if need be. -/
theorem dispatchRequest_of_padding (hpad : u.padding = true)
    (happend : lappend (entry.getD ⟨u.addr, u.isPush, []⟩).parts u.msg u.sz = .ok parts) :
    dispatchRequest session entry u =
      (some { entry.getD ⟨u.addr, u.isPush, []⟩ with parts }, []) := by
  simp only [dispatchRequest, hpad, if_true, happend]

/-- The last frame of a message in several parts. -/
theorem dispatchRequest_of_last {payload : Bytes} (hpad : u.padding = false)
    (happend : lappend req.parts u.msg u.sz = .ok parts)
    (hconcat : lconcat parts = .ok (some payload)) :
    dispatchRequest session (some req) u =
      (none, [.dispatched req.addr session payload req.isPush]) := by
  simp only [dispatchRequest, hpad, Bool.false_eq_true, if_false, happend, ok_bind, hconcat]

end Request

/-! ### The agent as a demultiplexer -/

/-- The entry of `large_request` that a frame touches. -/
def unpackedSession : Except Fault Unpacked → ℕ
  | .error _ => 0
  | .ok u => u.session.getD 0

/-- What a frame does to the entry it touches. -/
def reassembleUnpacked (entry : Option LargeRequest) :
    Except Fault Unpacked → Option LargeRequest × List Arrival
  | .error fault => (entry, [.raised fault])
  | .ok u =>
    match u.session with
    | none => (entry, [])
    | some session => dispatchRequest session entry u

/-- `unpackedSession` of a received frame. -/
def sessionOf (msg : Bytes) : ℕ := unpackedSession (lunpackrequest msg)

/-- `reassembleUnpacked` of a received frame. -/
def reassemble (entry : Option LargeRequest) (msg : Bytes) : Option LargeRequest × List Arrival :=
  reassembleUnpacked entry (lunpackrequest msg)

theorem reassembleUnpacked_ok {entry : Option LargeRequest} {u : Unpacked} {session : ℕ}
    (h : u.session = some session) :
    reassembleUnpacked entry (.ok u) = dispatchRequest session entry u := by
  simp only [reassembleUnpacked, h]

theorem dispatchUnpacked_eq (largeRequest : ℕ → Option LargeRequest) (r : Except Fault Unpacked) :
    dispatchUnpacked largeRequest r =
      deliver unpackedSession reassembleUnpacked largeRequest r := by
  cases r with
  | error fault => simp [dispatchUnpacked, deliver, reassembleUnpacked]
  | ok u =>
    obtain ⟨addr, session, msg, sz, padding, isPush⟩ := u
    cases session <;> simp [dispatchUnpacked, deliver, unpackedSession, reassembleUnpacked]

theorem dispatchFrame_eq (largeRequest : ℕ → Option LargeRequest) (msg : Bytes) :
    dispatchFrame largeRequest msg = deliver sessionOf reassemble largeRequest msg := by
  rw [dispatchFrame, dispatchUnpacked_eq]
  simp only [deliver, sessionOf, reassemble]

theorem dispatchAll_eq (largeRequest : ℕ → Option LargeRequest) (msgs : List Bytes) :
    dispatchAll largeRequest msgs = deliverAll sessionOf reassemble largeRequest msgs := by
  induction msgs generalizing largeRequest with
  | nil => rfl
  | cons msg msgs ih => simp only [dispatchAll, deliverAll, dispatchFrame_eq, ih]

namespace Message

variable (m : Message)

/-- What the message is at the dispatch point. -/
def arrival : Arrival := .dispatched m.addr.toLua m.wireSession m.payload m.isPush

theorem decide_wireSession (h : m.payload.length < multiPart) :
    decide (m.wireSession = 0) = m.isPush := by
  have hpos := m.session_pos
  rw [wireSession_of_lt h]
  cases m.isPush
  · simp; omega
  · rfl

/-- A request keeps its session on the wire. -/
theorem wireSession_of_request {m : Message} (h : m.isPush = false) :
    m.wireSession = m.session := by
  simp [wireSession, h]

theorem lunpackrequest_head_of_lt (h : m.payload.length < multiPart) :
    lunpackrequest m.head =
      .ok ⟨m.addr.toLua, some m.wireSession, some m.payload, m.payload.length, false,
        m.isPush⟩ := by
  have hs : m.wireSession < 2 ^ 32 := lt_trans m.wireSession_lt (by decide)
  have hlen : m.payload.length < 2 ^ 16 := lt_trans h (by decide)
  rw [← m.decide_wireSession h]
  unfold head
  cases m.addr with
  | number n lt => simp only [if_pos h, lunpackrequest_number lt hs hlen, Address.toLua]
  | name s pos le => simp only [if_pos h, lunpackrequest_name le hs hlen, Address.toLua]

theorem lunpackrequest_head_of_le (h : multiPart ≤ m.payload.length) :
    lunpackrequest m.head =
      .ok ⟨m.addr.toLua, some m.session, none, m.payload.length, true, m.isPush⟩ := by
  have hs : m.session < 2 ^ 32 := lt_trans m.session_lt (by decide)
  have hsize : m.payload.length < 2 ^ 32 := lt_trans m.length_lt (by decide)
  have hlong : ¬ m.payload.length < multiPart := not_lt.mpr h
  unfold head
  cases m.addr with
  | number n lt =>
    simp only [if_neg hlong, wireSession_of_le h, lunpackrequest_multiNumber _ lt hs hsize,
      Address.toLua]
  | name s pos le =>
    simp only [if_neg hlong, wireSession_of_le h, lunpackrequest_multiName _ le hs hsize,
      Address.toLua]

/-- A short message alone: its frame leaves no entry behind. -/
theorem reassemble_of_lt (h : m.payload.length < multiPart) :
    reassemble none m.head = (none, [m.arrival]) := by
  rw [reassemble, m.lunpackrequest_head_of_lt h]
  rfl

theorem reassemble_of_le (h : multiPart ≤ m.payload.length) :
    reassemble none m.head =
      (some ⟨m.addr.toLua, m.isPush, [.number m.payload.length]⟩, []) := by
  rw [reassemble, m.lunpackrequest_head_of_le h]
  rfl

end Message

section PartFrames

variable {session : ℕ} {req : LargeRequest} {chunk : Bytes}

/-- A part frame that is not the last one is appended to its entry. -/
theorem reassemble_part (hs : session < 2 ^ 31) (hlen : chunk.length ≤ multiPart) :
    reassemble (some req) (partBody session false chunk) =
      (some { req with parts := req.parts ++ [.string chunk] }, []) := by
  have happend := lappend_part req.parts (lt_of_le_of_lt hlen (by decide))
  rw [reassemble, lunpackrequest_part false (lt_trans hs (by decide))
    (lt_of_le_of_lt hlen (by decide)), reassembleUnpacked_ok rfl]
  exact dispatchRequest_of_padding rfl happend

theorem reassemble_parts (hs : session < 2 ^ 31) {chunks : List Bytes}
    (hlen : ∀ chunk ∈ chunks, chunk.length ≤ multiPart) :
    reactAll reassemble (some req) (chunks.map (partBody session false)) =
      (some { req with parts := req.parts ++ chunks.map .string }, []) := by
  induction chunks generalizing req with
  | nil => simp
  | cons chunk chunks ih =>
    rw [List.map_cons, reactAll_cons, reassemble_part hs (hlen chunk List.mem_cons_self),
      ih fun c hc => hlen c (List.mem_cons_of_mem _ hc)]
    simp

/-- The last part frame completes the message, if the sizes agree. -/
theorem reassemble_last (hs : session < 2 ^ 31) {payload last : Bytes}
    (hlen : last.length ≤ multiPart)
    (hconcat : lconcat (req.parts ++ [.string last]) = .ok (some payload)) :
    reassemble (some req) (partBody session true last) =
      (none, [.dispatched req.addr session payload req.isPush]) := by
  have happend := lappend_part req.parts (lt_of_le_of_lt hlen (by decide))
  rw [reassemble, lunpackrequest_part true (lt_trans hs (by decide))
    (lt_of_le_of_lt hlen (by decide)), reassembleUnpacked_ok rfl]
  exact dispatchRequest_of_last rfl happend hconcat

end PartFrames

/-! ### Whole messages -/

namespace Message

variable {m : Message} {frames : List Bytes}

/-- The frames of a message alone lead to the message, once, and leave no entry. -/
theorem reactAll_frames (hpack : m.pack = .ok frames) :
    reactAll reassemble none (frames.map fun f => f.drop 2) = (none, [m.arrival]) := by
  rcases lt_or_ge m.payload.length multiPart with h | h
  · obtain rfl := Except.ok.inj ((pack_of_lt h).symm.trans hpack)
    simp [reactAll_cons, m.reassemble_of_lt h]
  · obtain ⟨chunks, last, hcut, hpack'⟩ := pack_of_le h
    obtain rfl := Except.ok.inj (hpack'.symm.trans hpack)
    set req : LargeRequest := ⟨m.addr.toLua, m.isPush, [.number m.payload.length]⟩ with hreq
    set req' : LargeRequest := { req with parts := req.parts ++ chunks.map .string } with hreq'
    -- the header opens the entry, the parts are collected, the last one ends it
    have hmiddle : reactAll reassemble (some req) (chunks.map (partBody m.session false)) =
        (some req', []) :=
      reassemble_parts m.session_lt fun c hc => (hcut.full c hc).le
    have hparts : req'.parts ++ [.string last] =
        .number m.payload.length :: (chunks ++ [last]).map .string := by
      simp [hreq', hreq]
    have hconcat : lconcat (req'.parts ++ [.string last]) = .ok (some m.payload) := by
      rw [hparts]
      exact lconcat_eq (by simp [hcut.payload_eq]) m.length_lt
    have hlast : reassemble (some req') (partBody m.session true last) = (none, [m.arrival]) := by
      rw [reassemble_last m.session_lt hcut.last_le hconcat, arrival, wireSession_of_le h]
    have hbodies : (frame m.head :: (chunks.map (fun c => frame (partBody m.session false c)) ++
        [frame (partBody m.session true last)])).map (fun f => f.drop 2) =
        m.head :: (chunks.map (partBody m.session false) ++ [partBody m.session true last]) := by
      simp [Function.comp_def]
    have hhead : reassemble none m.head = (some req, []) := m.reassemble_of_le h
    rw [hbodies, reactAll_cons, hhead, reactAll_append, hmiddle, reactAll_cons, hlast]
    rfl

/-- All frames of a message touch one entry. -/
theorem sessionOf_frame (hpack : m.pack = .ok frames) {f : Bytes} (hf : f ∈ frames) :
    sessionOf (f.drop 2) = m.wireSession := by
  rcases lt_or_ge m.payload.length multiPart with h | h
  · obtain rfl := Except.ok.inj ((pack_of_lt h).symm.trans hpack)
    obtain rfl := List.mem_singleton.mp hf
    rw [frame_drop, sessionOf, m.lunpackrequest_head_of_lt h]
    rfl
  · obtain ⟨chunks, last, hcut, hpack'⟩ := pack_of_le h
    obtain rfl := Except.ok.inj (hpack'.symm.trans hpack)
    have hs : m.session < 2 ^ 32 := lt_trans m.session_lt (by decide)
    -- every part has the session behind its type byte
    have hpart : ∀ (b : Bool) (c : Bytes), c.length ≤ multiPart →
        sessionOf ((frame (partBody m.session b c)).drop 2) = m.session := by
      intro b c hc
      rw [frame_drop, sessionOf, lunpackrequest_part b hs (lt_of_le_of_lt hc (by decide))]
      rfl
    rw [wireSession_of_le h]
    simp only [List.mem_cons, List.mem_append, List.mem_map, List.not_mem_nil, or_false] at hf
    rcases hf with rfl | ⟨c, hc, rfl⟩ | rfl
    · rw [frame_drop, sessionOf, m.lunpackrequest_head_of_le h]
      rfl
    · exact hpart false c (hcut.full c hc).le
    · exact hpart true last hcut.last_le

/-- A message in more than one frame carries its session. -/
theorem wireSession_of_two_le (hpack : m.pack = .ok frames) (h : 2 ≤ frames.length) :
    m.wireSession = m.session := by
  rcases lt_or_ge m.payload.length multiPart with hlt | hge
  · obtain rfl := Except.ok.inj ((pack_of_lt hlt).symm.trans hpack)
    exact absurd h (by simp)
  · exact wireSession_of_le hge

end Message

section Interleaved

variable {ι : Type*} [DecidableEq ι] {m : ι → Message} {frames : ι → List Bytes}
  {tr : List (ι × Bytes)}

/-- Messages in flight together are kept apart by the sessions in their frames. -/
theorem wireSession_ne (hpack : ∀ i, (m i).pack = .ok (frames i)) (htr : Interleaves tr frames)
    {i j : ι} (hbetween : Between tr i j) (hsession : (m i).session ≠ (m j).session) :
    (m i).wireSession ≠ (m j).wireSession := by
  have htwo : 2 ≤ (frames i).length := htr i ▸ hbetween.two_le_length
  have hpos := (m i).session_pos
  rw [Message.wireSession_of_two_le (hpack i) htwo]
  unfold Message.wireSession
  split_ifs
  · omega
  · exact hsession

/-- The frames of many messages, interleaved: each message arrives once. -/
theorem dispatchAll_arrivals (hpack : ∀ i, (m i).pack = .ok (frames i))
    (htr : Interleaves tr frames)
    (hsession : ∀ i j, i ≠ j → Between tr i j → (m i).session ≠ (m j).session) :
    ∃ outs : List (ι × Arrival),
      dispatchAll (fun _ => none) (tr.map fun e => e.2.drop 2) =
        (fun _ => none, outs.map Prod.snd) ∧
      Interleaves outs (fun i => [(m i).arrival]) := by
  obtain ⟨outs, hrun, houts⟩ := deliverAll_interleaves sessionOf reassemble
    (fun i => (m i).wireSession) (fun i => [(m i).arrival]) (htr.map fun _ f => f.drop 2)
    (by
      intro i a ha
      obtain ⟨f, hf, rfl⟩ := List.mem_map.mp ha
      exact Message.sessionOf_frame (hpack i) hf)
    (fun i => Message.reactAll_frames (hpack i))
    (fun i j hij hbetween =>
      have hbetween := (between_map fun _ f => List.drop 2 f).mp hbetween
      wireSession_ne hpack htr hbetween (hsession i j hij hbetween))
  rw [List.map_map] at hrun
  exact ⟨outs, (dispatchAll_eq _ _).trans hrun, houts⟩

/-- **Reassembly is exact under interleaving.** Every message can be packed. However
the frames of the messages are interleaved, as long as messages in flight together
have different sessions, each message reaches the dispatch point exactly once, as it
was sent, nothing else does, and no entry of `large_request` is left. -/
theorem dispatchAll_interleaved (m : ι → Message) :
    ∃ frames : ι → List Bytes, (∀ i, (m i).pack = .ok (frames i)) ∧
      ∀ tr : List (ι × Bytes), Interleaves tr frames →
        (∀ i j, i ≠ j → Between tr i j → (m i).session ≠ (m j).session) →
        ∃ outs : List (ι × Arrival),
          dispatchAll (fun _ => none) (tr.map fun e => e.2.drop 2) =
            (fun _ => none, outs.map Prod.snd) ∧
          Interleaves outs (fun i =>
            [.dispatched (m i).addr.toLua (m i).wireSession (m i).payload (m i).isPush]) ∧
          ∀ i, (m i).isPush = false → (m i).wireSession = (m i).session := by
  choose frames hpack using fun i => (m i).exists_pack
  refine ⟨frames, hpack, fun tr htr hsession => ?_⟩
  obtain ⟨outs, hrun, houts⟩ := dispatchAll_arrivals hpack htr hsession
  exact ⟨outs, hrun, houts, fun i => Message.wireSession_of_request⟩

/-- The handle 9. -/
def Address.nine : Address := .number 9 (by decide)

/-- The name `@a`. -/
def Address.atA : Address := .name [0x40, 0x61] (by decide) (by decide)

private theorem length_twoParts : (List.replicate 40000 (1 : UInt8)).length < 2 ^ 31 := by
  rw [List.length_replicate]
  decide

private theorem length_threeBytes : [(1 : UInt8), 2, 3].length < 2 ^ 31 := by
  decide

/-- A push in two parts to a number, and a request in one frame to a name. -/
def pushAndRequest : Bool → Message
  | false => ⟨.nine, true, 5, List.replicate 40000 1, by decide, by decide, length_twoParts⟩
  | true => ⟨.atA, false, 6, [1, 2, 3], by decide, by decide, length_threeBytes⟩

/-- The request arrives between the parts of the push. -/
theorem dispatchAll_interleaved_pushAndRequest :
    ∃ (tr : List (Bool × Bytes)) (outs : List (Bool × Arrival)), Between tr false true ∧
      dispatchAll (fun _ => none) (tr.map fun e => e.2.drop 2) =
        (fun _ => none, outs.map Prod.snd) ∧
      Interleaves outs (fun i => [.dispatched (pushAndRequest i).addr.toLua
        (pushAndRequest i).wireSession (pushAndRequest i).payload (pushAndRequest i).isPush]) := by
  obtain ⟨frames, hpack, hrun⟩ := dispatchAll_interleaved pushAndRequest
  have hlong : multiPart ≤ (pushAndRequest false).payload.length := by
    rw [show (pushAndRequest false).payload = List.replicate 40000 1 from rfl,
      List.length_replicate]
    decide
  obtain ⟨chunks, last, -, hpush⟩ := Message.pack_of_le hlong
  have hrequest := Message.pack_of_lt (m := pushAndRequest true) (by decide)
  have hpush' := Except.ok.inj ((hpack false).symm.trans hpush)
  have hrequest' := Except.ok.inj ((hpack true).symm.trans hrequest)
  set head := frame (pushAndRequest false).head
  set rest := chunks.map (fun c => frame (partBody (pushAndRequest false).session false c))
  set tail := frame (partBody (pushAndRequest false).session true last)
  set request := frame (pushAndRequest true).head
  have hbetween : Between ((false, head) :: (true, request) ::
      (rest ++ [tail]).map (Prod.mk false)) false true := by
    refine .cons_cons false (.cons_cons true (List.singleton_sublist.mpr ?_))
    simp
  obtain ⟨outs, hdispatch, houts, -⟩ := hrun ((false, head) :: (true, request) ::
      (rest ++ [tail]).map (Prod.mk false))
    (by
      intro i
      cases i with
      | false =>
        rw [proj_cons_self, proj_cons_of_ne (by decide), proj_tagged, if_pos rfl, hpush']
      | true =>
        rw [proj_cons_of_ne (by decide), proj_cons_self, proj_tagged, if_neg (by decide),
          hrequest'])
    (by
      intro i j hij _
      cases i <;> cases j <;> first | exact absurd rfl hij | decide)
  exact ⟨_, outs, hbetween, hdispatch, houts⟩

end Interleaved

end TestCluster.BeeCluster
