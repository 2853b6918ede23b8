import TestCluster.BeeCluster.Concat
import TestCluster.BeeCluster.Delivery
import TestCluster.Skynet.SocketRead

/-!
# From the agents to the callers

The answers of a node come back over the socket of the sender, in chunks that end anywhere. The
dispatch thread of the channel reads a header and as many bytes as that says, again and again,
and hands the frame to the coroutine that waits for its session.

A step is `none` where the source violates an assertion or the buffer is read outside its nodes.

## Main definitions

* `DispatchThread` — the socket, the channel, and where the thread is
* `DispatchThread.receive` — a message of the socket thread

## Main results

* `answers_arrive` — from the packers of one node to the coroutines of the other
-/

namespace TestCluster.BeeCluster

open Semantics TestCluster.Skynet

/-- `lheader`, for a string of one to four bytes. -/
def lheader (s : Bytes) : ℕ := s.foldl (fun sz b => sz <<< 8 ||| b.toNat) 0

/-- What the dispatch thread reads next: the two reads of `read_response`, or nothing as its loop
has ended. -/
inductive NextRead
  | header
  | body (sz : ℕ)
  | ended
deriving DecidableEq

/-- The number of bytes that are read next. -/
def NextRead.size : NextRead → Option ℕ
  | header => some 2
  | body sz => some sz
  | ended => none

/-- The dispatch thread of a channel that is connected, with what the channel did so far. -/
structure DispatchThread (κ : Type*) where
  socket : Socket
  channel : Channel κ
  next : NextRead
  log : List (ChannelEvent κ)

namespace DispatchThread

variable {κ : Type*} [DecidableEq κ]

/-- A frame was read, or none could be: one round of `dispatch_by_session`. -/
def dispatch (st : DispatchThread κ) (r : Except Fault (Option UnpackedResponse)) : DispatchThread κ :=
  let (channel, events) := st.channel.dispatchBySession r
  { st with
    channel := channel
    log := st.log ++ events
    next := if channel.sock then .header else .ended }

/-- The read returns to `read_response`. Where it returns false, `channel_socket.read` raises an
error, for which an answer that is not understood stands here. -/
def handle (st : DispatchThread κ) (result : ReadResult) : DispatchThread κ :=
  match st.next, result with
  | .header, .ok ret => { st with next := .body (lheader ret) }
  | .body _, .ok msg => st.dispatch (lunpackresponse msg)
  | .ended, _ => st
  | _, _ => st.dispatch (.ok none)

/-- The dispatch thread reads until it has to wait, with a bound on its reads. -/
def proceed : ℕ → DispatchThread κ → Option (DispatchThread κ)
  | 0, _ => none
  | reads + 1, st =>
    match st.next.size with
    | none => some st
    | some sz =>
      (st.socket.call (.size sz)).bind fun (socket, result) =>
        match result with
        | none => some { st with socket := socket }
        | some result => proceed reads ({ st with socket := socket }.handle result)

/-- The thread after the channel has connected. -/
def start (channel : Channel κ) : Option (DispatchThread κ) :=
  proceed 1 ⟨.opened none, channel, .header, []⟩

/-- A message of the socket thread. The dispatch thread goes on if it is woken. -/
def receive (st : DispatchThread κ) (msg : Bytes) : Option (DispatchThread κ) :=
  (st.socket.data msg).bind fun (socket, taken) =>
    let st := { st with socket := socket }
    match taken with
    | [.read _ result _] => (st.handle result).proceed (socket.buffer.size + 1)
    | _ => some st

end DispatchThread

theorem lheader_eq {s : Bytes} (h : s.length = 2) : lheader s = beNat s := by
  obtain ⟨high, low, rfl⟩ := List.length_eq_two.mp h
  have hhigh : (0 <<< 8 ||| high.toNat) = high.toNat := by simp
  show (0 <<< 8 ||| high.toNat) <<< 8 ||| low.toNat = _
  rw [hhigh]
  exact readSize_eq high low

namespace Channel

variable {κ : Type*} [DecidableEq κ] {ch : Channel κ}

theorem dispatchFrames_append (msgs msgs' : List Bytes) :
    ch.dispatchFrames (msgs ++ msgs') =
      (((ch.dispatchFrames msgs).1.dispatchFrames msgs').1,
        (ch.dispatchFrames msgs).2 ++ ((ch.dispatchFrames msgs).1.dispatchFrames msgs').2) := by
  induction msgs generalizing ch with
  | nil => rfl
  | cons msg msgs ih => simp only [List.cons_append, dispatchFrames, ih, List.append_assoc]

/-- A channel whose loop has ended takes no frames. -/
theorem dispatchFrames_of_closed (h : ch.sock = false) (msgs : List Bytes) :
    ch.dispatchFrames msgs = (ch, []) := by
  induction msgs with
  | nil => rfl
  | cons msg msgs ih =>
    have hstep : ∀ r, ch.dispatchBySession r = (ch, []) := fun r =>
      if_neg (by rw [h]; exact Bool.false_ne_true)
    simp only [dispatchFrames, hstep, ih, List.nil_append]

end Channel

namespace DispatchThread

variable {κ : Type*} [DecidableEq κ] {ch : Channel κ} {received : Bytes} {st : DispatchThread κ}

/-- Where the thread is in the bytes: the frames of the first of them were dispatched, and it has
read no more of the others than a header. -/
def Stands (st : DispatchThread κ) (consumed received : Bytes) : Prop :=
  match st.next with
  | .header => st.channel.sock = true ∧ received = consumed ++ st.socket.buffer.contents
  | .body sz => st.channel.sock = true ∧ ∃ header : Bytes, header.length = 2 ∧ beNat header = sz ∧
      received = consumed ++ (header ++ st.socket.buffer.contents)
  | .ended => st.channel.sock = false ∧ ∃ more, received = consumed ++ more

/-- The frames in the bytes that came were dispatched, in order. -/
def Progress (ch : Channel κ) (received : Bytes) (st : DispatchThread κ) : Prop :=
  ∃ frames consumed, Cuts 2 beNat consumed frames [] ∧
    ch.dispatchFrames frames = (st.channel, st.log) ∧ st.Stands consumed received

/-- The socket is connected, and the thread waits for what it reads next. -/
structure Waits (st : DispatchThread κ) : Prop where
  socket : st.socket.Inv
  connected : st.socket.connected = true
  co : st.socket.co = st.next.size.map .size

theorem socket_handle (result : ReadResult) : (st.handle result).socket = st.socket := by
  unfold DispatchThread.handle
  split <;> rfl

theorem Progress.socket (h : Progress ch received st) {s : Socket}
    (hs : s.buffer = st.socket.buffer) : Progress ch received { st with socket := s } := by
  obtain ⟨frames, consumed, hcuts, hdispatch, hstands⟩ := h
  refine ⟨frames, consumed, hcuts, hdispatch, ?_⟩
  simpa only [Stands, hs] using hstands

/-- A read has returned the bytes that were asked for. -/
theorem Progress.handle (h : Progress ch received st) {s : Socket} {sz : ℕ} {ret : Bytes}
    (hsize : st.next.size = some sz) (hret : ret.length = sz)
    (hcontents : st.socket.buffer.contents = ret ++ s.buffer.contents) :
    Progress ch received ({ st with socket := s }.handle (.ok ret)) := by
  obtain ⟨frames, consumed, hcuts, hdispatch, hstands⟩ := h
  cases hnext : st.next with
  | ended =>
    rw [hnext] at hsize
    cases hsize
  | header =>
    obtain rfl : 2 = sz := by
      rw [hnext] at hsize
      exact Option.some.inj hsize
    simp only [Stands, hnext] at hstands
    refine ⟨frames, consumed, hcuts, ?_, ?_⟩
    · simpa only [DispatchThread.handle, hnext] using hdispatch
    · simp only [DispatchThread.handle, Stands]
      refine ⟨hstands.1, ret, hret, (lheader_eq hret).symm, ?_⟩
      rw [← hcontents]
      exact hstands.2
  | body sz' =>
    obtain rfl : sz' = sz := by
      rw [hnext] at hsize
      exact Option.some.inj hsize
    simp only [Stands, hnext] at hstands
    -- the frame is complete, and the channel gets it
    obtain ⟨hopen, header, hheader, hbody, hreceived⟩ := hstands
    have hframe : Cuts 2 beNat ([] ++ (header ++ (ret ++ []))) [ret] [] :=
      .frame hheader (hret.trans hbody.symm) (.rest (.inl Nat.two_pos))
    have hbytes : received = consumed ++ (header ++ (ret ++ [])) ++ s.buffer.contents := by
      rw [hreceived, hcontents, List.append_nil]
      simp only [List.append_assoc]
    refine ⟨frames ++ [ret], _, hcuts.append hframe, ?_, ?_⟩
    · rw [Channel.dispatchFrames_append, hdispatch]
      simp only [DispatchThread.handle, dispatch, Channel.dispatchFrames, List.append_nil]
    · rw [hbytes]
      simp only [DispatchThread.handle, dispatch, Stands]
      cases hsock : (st.channel.dispatchBySession (lunpackresponse ret)).1.sock with
      | true => exact ⟨rfl, trivial⟩
      | false => exact ⟨rfl, _, rfl⟩

/-- A call returns the bytes that are asked for, or the thread waits for them. -/
theorem call_size {s : Socket} (h : s.Inv) (hconnected : s.connected = true) (hco : s.co = none)
    (sz : ℕ) :
    (∃ buffer : SocketBuffer, s.call (.size sz) =
        some ({ s with buffer := buffer }, some (.ok (s.buffer.contents.take sz))) ∧ buffer.Ok ∧
          buffer.contents = s.buffer.contents.drop sz ∧ 0 < sz ∧ sz ≤ s.buffer.contents.length) ∨
      ∃ s', s.call (.size sz) = some (s', none) ∧ s'.Inv ∧ s'.connected = true ∧
        s'.co = some (.size sz) ∧ s'.buffer = s.buffer := by
  rcases lpopbuffer_spec h.buffer sz with ⟨hpop, hfew⟩ | ⟨buffer, hpop, hok⟩
  · refine .inr ⟨{ s with readRequired := .size sz, co := some (.size sz) }, ?_, ?_, hconnected,
      rfl, rfl⟩
    · rw [Socket.call, hpop, Option.bind_some]
      dsimp only
      rw [if_pos hconnected]
      exact Socket.await_eq (h.idle hco hconnected) hco
    · refine ⟨h.buffer, fun hnone => absurd hnone (Option.some_ne_none _), fun r hr => ?_⟩
      obtain rfl := Option.some.inj hr
      exact ⟨hconnected, rfl, hfew, Request.proper_size sz⟩
  · exact .inl ⟨buffer, by rw [Socket.call, hpop]; rfl, hok⟩

/-- The thread reads what is there, and comes to a point where it waits. -/
theorem proceed_spec {reads : ℕ} (h : Progress ch received st) (hinv : st.socket.Inv)
    (hconnected : st.socket.connected = true) (hco : st.socket.co = none)
    (hreads : st.socket.buffer.contents.length < reads) :
    ∃ st', proceed reads st = some st' ∧ Progress ch received st' ∧ st'.Waits := by
  -- every read that returns takes a byte at least, so the reads are enough
  induction reads generalizing st with
  | zero => exact absurd hreads (Nat.not_lt_zero _)
  | succ reads ih =>
    rw [proceed]
    cases hsize : st.next.size with
    | none => exact ⟨st, rfl, h, hinv, hconnected, by rw [hsize, hco]; rfl⟩
    | some sz =>
      dsimp only
      rcases call_size hinv hconnected hco sz with
        ⟨buffer, hcall, hok, hcontents, hpos, hle⟩ | ⟨s', hcall, hinv', hconnected', hco', hsame⟩
      · rw [hcall, Option.bind_some]
        have hread : Progress ch received ({ st with socket := { st.socket with buffer } }.handle
            (.ok (st.socket.buffer.contents.take sz))) := by
          apply h.handle hsize (List.length_take_of_le hle)
          rw [hcontents, List.take_append_drop]
        apply ih hread
        · rw [socket_handle]
          exact hinv.change hok fun r hr => absurd (hco.symm.trans hr) nofun
        · rwa [socket_handle]
        · rwa [socket_handle]
        · rw [socket_handle]
          show buffer.contents.length < reads
          rw [hcontents, List.length_drop]
          omega
      · refine ⟨{ st with socket := s' }, by rw [hcall]; rfl, h.socket hsame, hinv', hconnected', ?_⟩
        show s'.co = st.next.size.map .size
        rw [hco', hsize]
        rfl

/-- The thread after it has started. -/
theorem start_spec (hopen : ch.sock = true) :
    ∃ st, start ch = some st ∧ Progress ch [] st ∧ st.Waits :=
  proceed_spec ⟨[], [], .rest (.inl Nat.two_pos), rfl, hopen, rfl⟩
    ⟨SocketBuffer.ok_empty, fun _ _ => rfl, nofun⟩ rfl rfl Nat.one_pos

/-- More bytes came, and the thread has to wait on. -/
theorem Progress.more (h : Progress ch received st) {s : Socket} {msg : Bytes}
    (hcontents : s.buffer.contents = st.socket.buffer.contents ++ msg) :
    Progress ch (received ++ msg) { st with socket := s } := by
  obtain ⟨frames, consumed, hcuts, hdispatch, hstands⟩ := h
  refine ⟨frames, consumed, hcuts, hdispatch, ?_⟩
  unfold Stands at hstands ⊢
  dsimp only at hstands ⊢
  cases hnext : st.next with
  | header =>
    rw [hnext] at hstands
    rw [hcontents, hstands.2, List.append_assoc]
    exact ⟨hstands.1, rfl⟩
  | body sz =>
    rw [hnext] at hstands
    obtain ⟨hopen, header, hheader, hbody, rfl⟩ := hstands
    refine ⟨hopen, header, hheader, hbody, ?_⟩
    rw [hcontents, List.append_assoc, List.append_assoc]
  | ended =>
    rw [hnext] at hstands
    obtain ⟨hclosed, more, rfl⟩ := hstands
    exact ⟨hclosed, more ++ msg, List.append_assoc _ _ _⟩

/-- The thread that has ended leaves the bytes where they are. -/
theorem Progress.ended (h : Progress ch received st) (hnext : st.next = .ended) (s : Socket)
    (msg : Bytes) : Progress ch (received ++ msg) { st with socket := s } := by
  obtain ⟨frames, consumed, hcuts, hdispatch, hstands⟩ := h
  refine ⟨frames, consumed, hcuts, hdispatch, ?_⟩
  simp only [Stands, hnext] at hstands ⊢
  obtain ⟨hclosed, more, rfl⟩ := hstands
  exact ⟨hclosed, more ++ msg, List.append_assoc _ _ _⟩

theorem NextRead.eq_ended {next : NextRead} (h : next.size = none) : next = .ended := by
  cases next <;> first | rfl | cases h

theorem NextRead.size_pos {next : NextRead} {sz : ℕ} (h : next.size = some sz)
    (hpos : next ≠ .body 0) : 0 < sz := by
  cases next with
  | header =>
    obtain rfl : 2 = sz := Option.some.inj h
    exact Nat.two_pos
  | body sz' =>
    obtain rfl : sz' = sz := Option.some.inj h
    exact Nat.pos_of_ne_zero fun hzero => hpos (congrArg _ hzero)
  | ended => cases h

/-- The thread is not woken. -/
theorem receive_of_data {msg : Bytes} {s : Socket} {taken : List Taken}
    (hdata : st.socket.data msg = some (s, taken))
    (htaken : ∀ r result s, taken ≠ [.read r result s]) :
    st.receive msg = some { st with socket := s } := by
  rw [receive, hdata, Option.bind_some]
  dsimp only
  split
  · exact absurd rfl (htaken _ _ _)
  · rfl

/-- The thread is woken, and its read returns. -/
theorem receive_of_read {msg : Bytes} {s : Socket} {r : Request} {result : ReadResult}
    (hdata : st.socket.data msg = some (s, [.read r result s])) :
    st.receive msg = ({ st with socket := s }.handle result).proceed (s.buffer.size + 1) := by
  rw [receive, hdata]
  rfl

/-- A message for a thread that has ended. -/
theorem receive_ended (h : Progress ch received st) (hwaits : st.Waits) {msg : Bytes}
    (hmsg : msg ≠ []) (hnext : st.next = .ended) :
    ∃ st', st.receive msg = some st' ∧ Progress ch (received ++ msg) st' ∧ st'.Waits := by
  have hok := hwaits.socket.buffer.push hmsg
  have hco : st.socket.co = none := by rw [hwaits.co, hnext]; rfl
  have hnot : ∀ r, st.socket.co ≠ some r := by
    intro r hr
    cases hco.symm.trans hr
  -- nothing is read, whatever becomes of the buffer
  have hdone : ∀ s taken, st.socket.data msg = some (s, taken) →
      (∀ r result s, taken ≠ [.read r result s]) → s.Inv → s.connected = true → s.co = none →
        ∃ st', st.receive msg = some st' ∧ Progress ch (received ++ msg) st' ∧ st'.Waits :=
    fun s taken hdata htaken hinv hconnected hs =>
      ⟨{ st with socket := s }, receive_of_data hdata htaken, h.ended hnext s msg, hinv,
        hconnected, by rw [hs, hnext]; rfl⟩
  rcases Socket.handled_data hwaits.socket hmsg with ⟨hdata, -⟩ | ⟨hdata, -⟩ | ⟨hdata, -⟩
  · rw [Socket.wakeup, hco] at hdata
    refine hdone _ _ hdata Taken.nil_ne_read ?_ hwaits.connected rfl
    exact ⟨hok, fun _ _ => rfl, fun r hr => absurd hr.symm (Option.some_ne_none r)⟩
  · refine hdone _ _ hdata Taken.nil_ne_read ?_ hwaits.connected hco
    exact hwaits.socket.change hok fun r hr => absurd hr (hnot r)
  · refine hdone _ _ hdata Taken.cleared_ne_read ?_ hwaits.connected hco
    exact hwaits.socket.change SocketBuffer.ok_empty fun r hr => absurd hr (hnot r)

/-- A message for a thread that waits for some bytes: it goes on reading, or waits on. -/
theorem receive_waiting (h : Progress ch received st) (hwaits : st.Waits) {msg : Bytes} {sz : ℕ}
    (hmsg : msg ≠ []) (hsize : st.next.size = some sz) (hpos : 0 < sz) :
    ∃ st', st.receive msg = some st' ∧ Progress ch (received ++ msg) st' ∧ st'.Waits := by
  have hok := hwaits.socket.buffer.push hmsg
  have hmore := h.more (s := { st.socket with buffer := lpushbuffer st.socket.buffer msg })
    (contents_lpushbuffer hwaits.socket.buffer)
  have hco : st.socket.co = some (.size sz) := by rw [hwaits.co, hsize]; rfl
  obtain ⟨-, hrequired, -⟩ := hwaits.socket.waits _ hco
  have hdata := Socket.data_of_size msg hrequired
  split_ifs at hdata with hle
  · rw [hok.size] at hle
    rcases lpopbuffer_spec hok sz with ⟨-, hfew⟩ | ⟨buffer, hpop, hok', hcontents, -, -⟩
    · -- the bytes that were required are there
      omega
    · -- the coroutine is woken, takes them and goes on
      have hread : st.socket.data msg = some
          ({ st.socket with buffer := buffer, readRequired := .no, co := none },
            [.read (.size sz) (.ok ((lpushbuffer st.socket.buffer msg).contents.take sz))
              { st.socket with buffer := buffer, readRequired := .no, co := none }]) := by
        rw [hdata, Socket.wakeup, hco]
        simp only [Socket.resume, hpop, Option.map_some]
      rw [receive_of_read hread]
      apply proceed_spec
      · apply hmore.handle hsize (List.length_take_of_le hle)
        exact (List.take_append_drop sz _).symm.trans (congrArg _ hcontents.symm)
      · rw [socket_handle]
        exact ⟨hok', fun _ _ => rfl, fun r hr => absurd hr.symm (Option.some_ne_none r)⟩
      · rw [socket_handle]
        exact hwaits.connected
      · rw [socket_handle]
      · rw [socket_handle]
        show buffer.contents.length < buffer.size + 1
        rw [hok'.size]
        exact Nat.lt_succ_self _
  · refine ⟨_, receive_of_data hdata Taken.nil_ne_read, hmore, ?_,
      hwaits.connected, hwaits.co⟩
    -- not enough yet: it waits on
    apply hwaits.socket.change hok
    intro r hr
    obtain rfl := Option.some.inj (hco.symm.trans hr)
    rw [hok.size] at hle
    exact .inl (Nat.lt_of_not_le hle)

/-- No frame in the bytes is empty. -/
def NoEmptyFrame (bytes : Bytes) : Prop :=
  ∀ bodies rest, Cuts 2 beNat bytes bodies rest → [] ∉ bodies

theorem NoEmptyFrame.of_append {bytes more : Bytes} (h : NoEmptyFrame (bytes ++ more)) :
    NoEmptyFrame bytes := by
  intro bodies rest hcuts hmem
  obtain ⟨bodies', rest', hcuts'⟩ := Cuts.exists_cuts Nat.two_pos beNat (bytes ++ more)
  exact h _ _ hcuts' (hcuts.subset_of_append Nat.two_pos hcuts' hmem)

/-- The thread does not wait for a frame without a byte. -/
theorem Progress.next_ne (h : Progress ch received st) (hframes : NoEmptyFrame received) :
    st.next ≠ .body 0 := by
  intro hnext
  obtain ⟨frames, consumed, hcuts, -, hstands⟩ := h
  simp only [Stands, hnext] at hstands
  obtain ⟨-, header, hheader, hbody, rfl⟩ := hstands
  rw [← List.append_assoc] at hframes
  have hempty : Cuts 2 beNat ([] ++ (header ++ ([] ++ []))) [[]] [] :=
    .frame hheader (by rw [hbody]; rfl) (.rest (.inl Nat.two_pos))
  have hcuts' := hcuts.append hempty
  rw [List.append_nil, List.append_nil] at hcuts'
  exact hframes.of_append _ _ hcuts' (List.mem_append_right _ List.mem_cons_self)

/-- The chunks of a stream. -/
theorem run_receive {chunks : List Bytes} (h : Progress ch received st) (hwaits : st.Waits)
    (hchunks : ∀ c ∈ chunks, c ≠ []) (hframes : NoEmptyFrame (received ++ chunks.flatten)) :
    ∃ st', run receive st chunks = some st' ∧ Progress ch (received ++ chunks.flatten) st' ∧
      st'.Waits := by
  induction chunks generalizing received st with
  | nil =>
    rw [List.flatten_nil, List.append_nil]
    exact ⟨st, rfl, h, hwaits⟩
  | cons c chunks ih =>
    obtain ⟨hc, hchunks⟩ := List.forall_mem_cons.mp hchunks
    rw [List.flatten_cons, ← List.append_assoc] at hframes ⊢
    have hpos : st.next ≠ .body 0 := h.next_ne hframes.of_append.of_append
    -- the thread has ended, or waits for some bytes
    obtain ⟨st₁, hreceive, h₁, hwaits₁⟩ : ∃ st₁, st.receive c = some st₁ ∧
        Progress ch (received ++ c) st₁ ∧ st₁.Waits := by
      cases hsize : st.next.size with
      | none => exact receive_ended h hwaits hc (NextRead.eq_ended hsize)
      | some sz =>
        exact receive_waiting h hwaits hc hsize (NextRead.size_pos hsize hpos)
    obtain ⟨st', hrun, h'⟩ := ih h₁ hwaits₁ hchunks hframes
    exact ⟨st', by rw [run_cons, hreceive]; exact hrun, h'⟩

/-- While the thread waits, it has dispatched all that is complete. -/
theorem Progress.dispatched (h : Progress ch received st) (hwaits : st.Waits)
    (hpos : st.next ≠ .body 0) {bodies : List Bytes} {rest : Bytes}
    (hcuts : Cuts 2 beNat received bodies rest) :
    ch.dispatchFrames bodies = (st.channel, st.log) := by
  obtain ⟨frames, consumed, hconsumed, hdispatch, hstands⟩ := h
  cases hnext : st.next with
  | header =>
    simp only [Stands, hnext] at hstands
    obtain ⟨-, rfl⟩ := hstands
    have hco : st.socket.co = some (.size 2) := by rw [hwaits.co, hnext]; rfl
    -- half a size is no frame
    have hfew := (hwaits.socket.waits _ hco).2.2.1.resolve_right two_ne_zero
    obtain ⟨rfl, -⟩ := (hconsumed.append (.rest (.inl hfew))).unique hcuts
    rwa [List.append_nil]
  | body sz =>
    simp only [Stands, hnext] at hstands
    obtain ⟨-, header, hheader, hbody, rfl⟩ := hstands
    have hco : st.socket.co = some (.size sz) := by rw [hwaits.co, hnext]; rfl
    have hfew := (hwaits.socket.waits _ hco).2.2.1.resolve_right fun hsz =>
      hpos (by rw [hnext, hsz])
    -- nor is a size with fewer bytes behind it
    have hrest : Cuts 2 beNat ([] ++ (header ++ st.socket.buffer.contents)) []
        ([] ++ (header ++ st.socket.buffer.contents)) := by
      refine .rest (.inr ?_)
      rw [List.nil_append, List.take_left' hheader, hbody, List.length_append]
      omega
    obtain ⟨rfl, -⟩ := (hconsumed.append hrest).unique hcuts
    rwa [List.append_nil]
  | ended =>
    simp only [Stands, hnext] at hstands
    obtain ⟨hclosed, more, rfl⟩ := hstands
    -- a channel that was closed takes no more frames
    obtain ⟨bodies', rest', hmore⟩ := Cuts.exists_cuts Nat.two_pos beNat more
    obtain ⟨rfl, -⟩ := (hconsumed.append (by rwa [List.nil_append])).unique hcuts
    rw [Channel.dispatchFrames_append, hdispatch, Channel.dispatchFrames_of_closed hclosed,
      List.append_nil]

/-- **The frames of a stream are dispatched, in order.** However a stream without an empty frame
comes from the socket, in chunks of any sizes, the thread fails nowhere, and the channel was given
just the complete frames. -/
theorem frames_dispatched (hopen : ch.sock = true) {chunks : List Bytes}
    (hchunks : ∀ c ∈ chunks, c ≠ []) {bodies : List Bytes} {rest : Bytes}
    (hcuts : Cuts 2 beNat chunks.flatten bodies rest) (hframes : [] ∉ bodies) :
    ∃ st₀ st, start ch = some st₀ ∧ run receive st₀ chunks = some st ∧
      ch.dispatchFrames bodies = (st.channel, st.log) := by
  obtain ⟨st₀, hstart, h₀, hwaits₀⟩ := start_spec hopen
  have hnoempty : NoEmptyFrame ([] ++ chunks.flatten) := by
    intro bodies' rest' hcuts'
    rwa [← (hcuts.unique hcuts').1]
  obtain ⟨st, hrun, h, hwaits⟩ := run_receive h₀ hwaits₀ hchunks hnoempty
  exact ⟨st₀, st, hstart, hrun, h.dispatched hwaits (h.next_ne hnoempty) hcuts⟩

end DispatchThread

section Answers

variable {ι : Type*} [DecidableEq ι] {session : ι → ℕ} {answer : ι → Answer}
  {frames : ι → List Bytes} {tr : List (ι × Bytes)}

open Channel

/-- The frames of an answer say how long they are. -/
theorem Answer.emitted_of_pack {s : ℕ} {a : Answer} {frames : List Bytes}
    (hpack : a.pack s = .ok frames) : ∀ f ∈ frames, Emitted f := by
  obtain ⟨response, hresponse, hfits⟩ :=
    response_fits s a.ok (a.length_lt.trans (by decide : 2 ^ 31 < 2 ^ 32))
  rw [Answer.pack, hresponse] at hpack
  obtain rfl := Except.ok.inj hpack
  cases response with
  | string f =>
    intro f' hf'
    rw [List.mem_singleton.mp hf']
    exact hfits.1
  | table frames =>
    obtain ⟨-, -, hhead, hparts⟩ := hfits
    intro f hf
    cases frames with
    | nil => cases hf
    | cons first frames =>
      rcases List.mem_cons.mp hf with rfl | hf
      · exact hhead f rfl
      · exact hparts.emitted f hf

omit [DecidableEq ι] in
/-- The channel at the start: each request is in progress, with nothing collected. -/
theorem Channel.Waiting.inProgress {ch : Channel ι} (hch : ch.Waiting session)
    (hinj : Function.Injective session) :
    InProgress session (fun i => some (i, none)) ch.entries := by
  refine ⟨fun i _ => ?_, fun s hs => ?_, fun i j hij _ _ h => hij (hinj h)⟩
  · simp [entries, (hch.thread (session i) i).mpr rfl, hch.resultData]
  · cases hthread : ch.thread s with
    | none => exact absurd (by simp [entries, hthread]) hs
    | some i => exact ⟨i, by simp, (hch.thread s i).mp hthread⟩

/-- The frames of answers, interleaved, are given to their callers. -/
theorem dispatchFrames_answers (hlt : ∀ i, session i < 2 ^ 32) (hinj : Function.Injective session)
    (hpack : ∀ i, (answer i).pack (session i) = .ok (frames i)) (htr : Interleaves tr frames)
    {ch : Channel ι} (hch : ch.Waiting session) :
    (∃ outs : List (ι × Reply),
      (ch.dispatchFrames (tr.map fun e => e.2.drop 2)).2 =
        outs.map (fun e => .completed e.1 e.2) ∧
      Interleaves outs (fun i => [(answer i).reply])) ∧
        [] ∉ tr.map fun e => e.2.drop 2 := by
  -- each answer by itself completes its caller
  have halone : ∀ i, ∃ rs : List UnpackedResponse,
      (frames i).map (fun f => lunpackresponse (f.drop 2)) = rs.map (fun r => .ok (some r)) ∧
        (∀ r ∈ rs, r.session = session i) ∧
          reactAll collect (some (i, none)) rs = (none, [.completed i (answer i).reply]) := by
    intro i
    obtain ⟨frames', rs, hpack', h⟩ := (answer i).exists_pack (hlt i) i
    obtain rfl := Except.ok.inj ((hpack i).symm.trans hpack')
    exact ⟨rs, h⟩
  choose rs hdecode hsession hcollect using halone
  obtain ⟨rtr, hrtr, hrinter⟩ := htr.transfer hdecode
  have hdecoded : (tr.map fun e => e.2.drop 2).map lunpackresponse =
      (rtr.map Prod.snd).map fun r => .ok (some r) := by
    simpa [Function.comp_def] using congrArg (List.map Prod.snd) hrtr
  -- a frame is for the one caller that waits for its session
  have hdistinct : ch.Distinct := by
    intro s s' i hs hs'
    rw [← (hch.thread s i).mp hs, ← (hch.thread s' i).mp hs']
  constructor
  · obtain ⟨outs, hrun, houts⟩ := deliverAll_of_inProgress UnpackedResponse.session collect session
      (fun i => [ChannelEvent.completed i (answer i).reply])
      (fun e he => hsession e.1 e.2 (hrinter e.1 ▸ mem_proj_of_mem he))
      (fun i => by rw [hrinter i]; exact hcollect i)
      (hch.inProgress hinj) (fun i j hij _ _ h => hij (hinj h)) (fun i j hij _ h => hij (hinj h))
    have hevents := congrArg Prod.snd ((dispatchFrames_eq hch.sock hdistinct hdecoded).trans hrun)
    refine ⟨outs.map fun e => (e.1, (answer e.1).reply), ?_, fun i => ?_⟩
    · rw [List.map_map]
      refine hevents.trans (List.map_congr_left fun e he => ?_)
      have hmem : e.2 ∈ proj e.1 outs := mem_proj_of_mem he
      rw [houts e.1] at hmem
      exact List.mem_singleton.mp hmem
    · rw [proj_map (fun i _ => (answer i).reply), houts i]
      rfl
  · -- an empty frame has no session
    intro hnil
    have hmem := List.mem_map_of_mem (f := lunpackresponse) hnil
    rw [hdecoded] at hmem
    obtain ⟨r, -, hr⟩ := List.mem_map.mp hmem
    cases hr

/-- The frames of answers come to the sender, in chunks of any sizes. -/
theorem completions_of_bytes (hlt : ∀ i, session i < 2 ^ 32) (hinj : Function.Injective session)
    {frames : ι → List Bytes} (hpack : ∀ i, (answer i).pack (session i) = .ok (frames i))
    {tr : List (ι × Bytes)} (htr : Interleaves tr frames) {ch : Channel ι}
    (hch : ch.Waiting session) {chunks : List Bytes} (hchunks : ∀ c ∈ chunks, c ≠ [])
    (hbytes : chunks.flatten = (tr.map Prod.snd).flatten) :
    ∃ st₀ st outs, DispatchThread.start ch = some st₀ ∧
      run DispatchThread.receive st₀ chunks = some st ∧
      st.log = outs.map (fun e => .completed e.1 e.2) ∧
      Interleaves outs (fun i => [(answer i).reply]) := by
  obtain ⟨⟨outs, hevents, houts⟩, hnil⟩ := dispatchFrames_answers hlt hinj hpack htr hch
  have hemitted : ∀ f ∈ tr.map Prod.snd, Emitted f := by
    intro f hf
    obtain ⟨⟨i, f⟩, he, rfl⟩ := List.mem_map.mp hf
    apply Answer.emitted_of_pack (hpack i)
    rw [← htr i]
    exact mem_proj_of_mem he
  have hcuts := cuts_emitted hemitted
  rw [← hbytes, List.map_map] at hcuts
  obtain ⟨st₀, st, hstart, hrun, hdispatch⟩ :=
    DispatchThread.frames_dispatched hch.sock hchunks hcuts hnil
  refine ⟨st₀, st, outs, hstart, hrun, ?_, houts⟩
  rw [← hevents]
  exact (congrArg Prod.snd hdispatch).symm

/-- **Answers arrive.** Any number of callers wait on the channel of a sender, and the frames of
their answers are written to the socket, each answer in its order and all mixed in any way. However
the bytes come to the sender, in chunks of any sizes, every caller is completed once, with its own
answer. -/
theorem answers_arrive (session : ι → ℕ) (answer : ι → Answer) (hlt : ∀ i, session i < 2 ^ 32)
    (hinj : Function.Injective session) :
    ∃ frames : ι → List Bytes, (∀ i, (answer i).pack (session i) = .ok (frames i)) ∧
      ∀ (tr : List (ι × Bytes)) (ch : Channel ι) (chunks : List Bytes),
        Interleaves tr frames → ch.Waiting session → (∀ c ∈ chunks, c ≠ []) →
        chunks.flatten = (tr.map Prod.snd).flatten →
        ∃ st₀ st outs, DispatchThread.start ch = some st₀ ∧
          run DispatchThread.receive st₀ chunks = some st ∧
          st.log = outs.map (fun e => .completed e.1 e.2) ∧
          Interleaves outs (fun i => [(answer i).reply]) := by
  have hpacks : ∀ i, ∃ frames, (answer i).pack (session i) = .ok frames := fun i =>
    let ⟨frames, _, hpack, _⟩ := (answer i).exists_pack (hlt i) i
    ⟨frames, hpack⟩
  choose frames hpack using hpacks
  exact ⟨frames, hpack, fun _ _ _ htr hch hchunks hbytes =>
    completions_of_bytes hlt hinj hpack htr hch hchunks hbytes⟩

end Answers

theorem length_fives_lt : (List.replicate 40000 (5 : UInt8)).length < 2 ^ 31 := by
  rw [List.length_replicate]
  decide

/-- An answer of one byte on session 1, and a long one on session 2. -/
def twoAnswers : Bool → Answer
  | true => ⟨true, List.replicate 40000 5, length_fives_lt⟩
  | false => ⟨true, [7], Nat.one_lt_two_pow (Nat.succ_ne_zero 30)⟩

/-- The callers that wait for them. -/
def twoWaiting : Channel Bool where
  sock := true
  thread s := if s = 2 then some true else if s = 1 then some false else none
  resultData _ := none

/-- The short answer comes between the frames of the long one, and the first chunk is one byte. -/
theorem answers_arrive_two : ∃ (begin : Bytes) (parts : List Bytes) (short : Bytes), parts ≠ [] ∧
    (twoAnswers true).pack 2 = .ok (begin :: parts) ∧ (twoAnswers false).pack 1 = .ok [short] ∧
      ∃ st₀ st outs, DispatchThread.start twoWaiting = some st₀ ∧
        run DispatchThread.receive st₀ [(begin :: short :: parts).flatten.take 1,
          (begin :: short :: parts).flatten.drop 1] = some st ∧
        st.log = (outs : List (Bool × Reply)).map (fun e => .completed e.1 e.2) ∧
        Interleaves outs (fun long => [(twoAnswers long).reply]) := by
  obtain ⟨frames, hpack, harrive⟩ := answers_arrive (fun long => if long then 2 else 1) twoAnswers
    (by decide) (by decide)
  have hlong : multiPart < (twoAnswers true).payload.length := by
    show multiPart < (List.replicate 40000 (5 : UInt8)).length
    rw [List.length_replicate]
    decide
  have hshort : (twoAnswers false).pack 1 = .ok [[0, 6, 1, 0, 0, 0, 1, 7]] := by decide
  -- the long answer has a frame for its size, and the parts
  obtain ⟨chunks, last, -, hresponse⟩ := lpackresponse_of_lt 2 hlong
    ((twoAnswers true).length_lt.trans (by decide))
  have hframes := hpack true
  rw [if_pos rfl, Answer.pack, Nat.cast_ofNat, show (twoAnswers true).ok = true from rfl, hresponse]
    at hframes
  obtain ⟨begin, parts, hsplit, hne⟩ : ∃ begin parts, frames true = begin :: parts ∧ parts ≠ [] :=
    ⟨_, _, (Except.ok.inj hframes).symm, List.append_ne_nil_of_right_ne_nil _ (List.cons_ne_nil _ _)⟩
  have hone : frames false = [[0, 6, 1, 0, 0, 0, 1, 7]] :=
    Except.ok.inj ((hpack false).symm.trans hshort)
  have hemitted : Emitted begin :=
    Answer.emitted_of_pack (hpack true) begin (by rw [hsplit]; exact List.mem_cons_self)
  have hlen : 2 ≤ begin.length := hemitted.header
  refine ⟨begin, parts, _, hne, (hpack true).trans (by rw [hsplit]), hshort, ?_⟩
  refine harrive ((true, begin) :: (false, [0, 6, 1, 0, 0, 0, 1, 7]) :: parts.map (Prod.mk true))
    twoWaiting _ ?_ ⟨rfl, fun s long => ?_, fun _ => rfl⟩ ?_ ?_
  · intro long
    cases long with
    | true => simp [hsplit, proj_cons_of_ne, proj_tagged]
    | false => simp [hone, proj_cons_of_ne, proj_tagged]
  · cases long <;> simp only [twoWaiting] <;> split_ifs <;> simp_all [eq_comm]
  · intro c hc
    simp only [List.mem_cons, List.not_mem_nil, or_false] at hc
    rcases hc with rfl | rfl
    · apply List.ne_nil_of_length_pos
      rw [List.length_take, List.flatten_cons, List.length_append]
      omega
    · apply List.ne_nil_of_length_pos
      rw [List.length_drop, List.flatten_cons, List.length_append]
      omega
  · rw [List.flatten_cons, List.flatten_singleton, List.take_append_drop]
    simp only [List.map_cons, List.map_map, Function.comp_def, List.map_id']

end TestCluster.BeeCluster
