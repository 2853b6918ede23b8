import TestCluster.BeeCluster.Agent
import TestCluster.BeeCluster.Answers
import TestCluster.Skynet.SendBuffer

/-!
# From call to return

The senders and the agents of two nodes write frames to their sockets, those of a large message with
the low priority and the others with the high one. The socket threads write them in an order that
depends on the priorities and on the kernel, and the bytes come to the gate of the one node and to
the channels of the other in chunks that end anywhere.

## Main definitions

* `Transmitted` — frames are sent to a socket, which writes them all

## Main results

* `written_requests_arrive` — from the packers of one node, through the socket threads, to the
  dispatch point of the other
* `calls_return` — the same, and back again: every caller gets what the service answered it
-/

namespace TestCluster.BeeCluster

open Semantics TestCluster.Skynet

variable {ι : Type*} [DecidableEq ι]

/-- The frames are sent to a socket, with one priority for each message, and the socket is still open
when all of them are written; the kernel has got `wire`. -/
structure Transmitted (tr : List (ι × Bytes)) (wire : Bytes) : Prop where
  sent : ∃ (priority : ι → Priority) (s₀ s : SendSocket) (es : List SendSocket.Event),
    packagesTo s₀ es = tr.map (fun e => (priority e.1, e.2)) ∧ Started s₀ ∧
      run SendSocket.step s₀ es = some s ∧ s.type = .connected ∧ s.writeEvent = false ∧
        s.wire = wire

/-- The frames of each message are written in their order. -/
theorem Transmitted.interleaves {tr : List (ι × Bytes)} {wire : Bytes} (h : Transmitted tr wire)
    {frames : ι → List Bytes} (htr : Interleaves tr frames) :
    ∃ tr' : List (ι × Bytes), Interleaves tr' frames ∧ wire = (tr'.map Prod.snd).flatten := by
  obtain ⟨priority, s₀, s, es, hpackages, hstarted, hrun, htype, hevent, rfl⟩ := h.sent
  obtain ⟨s', hrun', hinv⟩ := hstarted.run es
  obtain rfl := Option.some.inj (hrun.symm.trans hrun')
  obtain ⟨left, hleft⟩ := hinv.settled.sending
  have hne : s.type ≠ .invalid := by rw [htype]; nofun
  -- nothing waits
  have hnone : left = [] := by
    rcases hinv.settled.waits hevent with hinvalid | ⟨hnone, -⟩
    · exact absurd hinvalid hne
    · rw [hleft.live hne, hnone]
  subst hnone
  have horder := hleft.order
  rw [List.map_nil, List.append_nil, hinv.all (.inr htype), hpackages] at horder
  obtain ⟨tr', hwritten, hinter⟩ := htr.of_lanes horder
  refine ⟨tr', hinter, ?_⟩
  rw [hleft.wire, firstPart, List.append_nil, hwritten, List.map_map]
  rfl

/-- **Requests arrive, whatever the socket thread does.** The frames of any number of requests and
pushes with different sessions are sent to a socket, each message in its order and with one priority,
and mixed in any way. Whatever the kernel takes at a time, and however the bytes come to the gate of
the other node, the agent that the socket was forwarded to gets frames from which it puts together
every message, once and as it was sent. A push in one frame carries no session, so that any will do
for it. -/
theorem written_requests_arrive (m : ι → Message) (hsession : ∀ i j, i ≠ j →
    (m i).session ≠ (m j).session) : ∃ frames : ι → List Bytes,
    (∀ i, (m i).pack = .ok (frames i)) ∧
      ∀ (tr : List (ι × Bytes)) (wire : Bytes) (socket maxclient fd agent client : ℕ)
        (es : List GateEvent),
        Interleaves tr frames → Transmitted tr wire → (∀ e ∈ es, e.Proper) →
        Forwarded socket maxclient fd agent client es → bytesOf fd es = wire →
        ∃ g outs, run Gate.step (Gate.opened socket maxclient) es = some g ∧
          dispatchAll (fun _ => none) (agentMsgsOf fd agent client g.log) =
            (fun _ => none, outs.map Prod.snd) ∧
          Interleaves outs (fun i => [(m i).arrival]) := by
  choose frames hpack using fun i => (m i).exists_pack
  refine ⟨frames, hpack, fun tr wire socket maxclient fd agent client es htr hsent hproper hforwarded
    hbytes => ?_⟩
  obtain ⟨tr', htr', rfl⟩ := hsent.interleaves htr
  exact arrivals_of_bytes hpack htr' (fun i j hij _ => hsession i j hij) hproper hforwarded hbytes

/-- The frame of a request to `@a` is sent while the kernel takes two bytes, and then all. -/
def atAInParts : List SendSocket.Event := [.send .high atAFrame (.wrote 2), .writable [.wrote 100],
  .writable []]

theorem transmitted_atA : Transmitted [((), atAFrame)] atAFrame := by
  refine ⟨fun _ => .high, .connected, _, atAInParts, rfl, .connected, rfl, ?_, ?_, ?_⟩
  · decide
  · decide
  · decide

theorem written_requests_arrive_atA : ∃ g outs,
    run Gate.step (Gate.opened 1 16) inTwoChunks = some g ∧
      dispatchAll (fun _ => none) (agentMsgsOf 7 9 0 g.log) =
        (fun _ => none, (outs : List (Unit × Arrival)).map Prod.snd) ∧
      Interleaves outs (fun _ => [(pushAndRequest true).arrival]) := by
  obtain ⟨frames, hpack, harrive⟩ := written_requests_arrive (fun _ : Unit => pushAndRequest true)
    fun _ _ hij => absurd rfl hij
  have hframes : frames () = [atAFrame] :=
    Except.ok.inj ((hpack ()).symm.trans (Message.pack_of_lt (by decide)))
  exact harrive [((), atAFrame)] atAFrame 1 16 7 9 0 inTwoChunks (fun _ => by rw [hframes]; rfl)
    transmitted_atA inTwoChunks_proper inTwoChunks_forwarded (by decide)

/-- What a handler that responds writes is the answer, in frames. -/
theorem written_of_respond {m : Message} {sv : Services} {answer : Answer} {frames : List Bytes}
    (hcall : m.isPush = false)
    (hserve : dispatchTarget sv m.addr.toLua m.payload false = .respond answer.ok answer.payload)
    (hpack : answer.pack m.session = .ok frames) : (handleArrival sv m.arrival).written = frames := by
  rw [Message.arrival, handleArrival, Message.wireSession_of_request hcall, hcall, hserve, perform]
  rw [Answer.pack] at hpack
  cases hresponse : lpackresponse m.session answer.ok answer.payload answer.payload.length with
  | error fault => rw [hresponse] at hpack; cases hpack
  | ok response =>
    rw [hresponse] at hpack
    exact Except.ok.inj hpack

/-- **Calls return.** Any number of callers on one node send requests, with different sessions, to
services that answer them. The frames are sent to the socket mixed in any way and written as the
kernel takes them; the gate of the other node gets the bytes in chunks of any sizes, among the
messages of other sockets, and has forwarded the socket to an agent, whose handlers end in any order;
and their frames come back in the same way. Then every caller is completed once, with what the
service answered it. -/
theorem calls_return (m : ι → Message) (sv : ι → Services) (answer : ι → Answer)
    (hcall : ∀ i, (m i).isPush = false) (hinj : Function.Injective fun i => (m i).session)
    (hserve : ∀ i, dispatchTarget (sv i) (m i).addr.toLua (m i).payload false =
      .respond (answer i).ok (answer i).payload) :
    ∃ frames : ι → List Bytes, (∀ i, (m i).pack = .ok (frames i)) ∧
      ∀ (tr : List (ι × Bytes)) (wire : Bytes) (socket maxclient fd agent client : ℕ)
        (es : List GateEvent),
        Interleaves tr frames → Transmitted tr wire → (∀ e ∈ es, e.Proper) →
        Forwarded socket maxclient fd agent client es → bytesOf fd es = wire →
        ∃ g arrivals, run Gate.step (Gate.opened socket maxclient) es = some g ∧
          dispatchAll (fun _ => none) (agentMsgsOf fd agent client g.log) =
            (fun _ => none, arrivals.map Prod.snd) ∧
          Interleaves arrivals (fun i => [(m i).arrival]) ∧
          ∀ (order : List (ι × Arrival)) (back : Bytes) (ch : Channel ι) (chunks : List Bytes),
            order.Perm arrivals → Transmitted (socketWrites sv order) back →
            ch.Waiting (fun i => (m i).session) → (∀ c ∈ chunks, c ≠ []) → chunks.flatten = back →
            ∃ st₀ st outs, DispatchThread.start ch = some st₀ ∧
              run DispatchThread.receive st₀ chunks = some st ∧
              st.log = outs.map (fun e => .completed e.1 e.2) ∧
              Interleaves outs (fun i => [(answer i).reply]) := by
  choose frames hpack using fun i => (m i).exists_pack
  have hlt : ∀ i, (m i).session < 2 ^ 32 := fun i => (m i).session_lt.trans (by decide)
  have hanswers : ∀ i, ∃ frames, (answer i).pack (m i).session = .ok frames := fun i =>
    let ⟨frames, _, hpack, _⟩ := (answer i).exists_pack (hlt i) i
    ⟨frames, hpack⟩
  choose answers hpacked using hanswers
  refine ⟨frames, hpack, fun tr wire socket maxclient fd agent client es htr hsent hproper hforwarded
    hbytes => ?_⟩
  obtain ⟨there, hthere, rfl⟩ := hsent.interleaves htr
  obtain ⟨g, arrivals, hrun, hdispatch, harrivals⟩ := arrivals_of_bytes hpack hthere
    (fun i j hij _ h => hij (hinj h)) hproper hforwarded hbytes
  refine ⟨g, arrivals, hrun, hdispatch, harrivals, fun order back ch chunks horder hback hch hchunks
    hflat => ?_⟩
  -- each request is answered once, in whatever order the handlers end
  have hwrites : Interleaves (socketWrites sv order) answers := by
    intro i
    have hone := proj_perm horder i
    rw [harrivals i] at hone
    rw [socketWrites, proj_flatMap (fun i a => (handleArrival (sv i) a).written),
      List.perm_singleton.mp hone, List.flatMap_singleton]
    exact written_of_respond (hcall i) (hserve i) (hpacked i)
  obtain ⟨return', hreturn, rfl⟩ := hback.interleaves hwrites
  exact completions_of_bytes hlt hinj hpacked hreturn hch hchunks hflat

/-- The request to the service 9. -/
def nineFrame : Bytes := frame (requestAndPush false).head

/-- What the service answers, in a frame. -/
def fiveFrame : Bytes := [0, 6, 1, 0, 0, 0, 1, 5]

/-- The agent 9 has the socket forwarded to it, and the frame comes to the gate at once. -/
def inOneChunk : List GateEvent :=
  [.socket (.accept 1 7 []), .forward 9 7 none none, .socket (.data 7 nineFrame)]

theorem inOneChunk_proper : ∀ e ∈ inOneChunk, e.Proper := by
  intro e he
  simp only [inOneChunk, List.mem_cons, List.not_mem_nil, or_false] at he
  rcases he with rfl | rfl | rfl
  · trivial
  · trivial
  · exact List.cons_ne_nil _ _

theorem inOneChunk_forwarded : Forwarded 1 16 7 9 0 inOneChunk := by
  refine ⟨[.socket (.accept 1 7 [])], _, 9, none, none, _, rfl, rfl, rfl, rfl, rfl, rfl, ?_⟩
  intro e he
  rw [List.mem_singleton.mp he]
  trivial

/-- A frame that the kernel takes at once. -/
theorem transmitted_of_wrote (f : Bytes) : Transmitted [((), f)] f := by
  refine ⟨fun _ => .high, .connected,
    { SendSocket.connected with requests := [(.high, f)], written := [(.high, f)], wire := f },
    [.send .high f (.wrote f.length)], rfl, .connected, ?_, rfl, rfl, rfl⟩
  simp [SendSocket.step, SendSocket.handle, SendSocket.sendSocket, SendSocket.writeDirect,
    SendSocket.connected, SendSocket.bufferEmpty]

theorem proj_unit {α : Type*} (tr : List (Unit × α)) : proj () tr = tr.map Prod.snd := by
  induction tr with
  | nil => rfl
  | cons e tr ih => rw [show e = ((), e.2) from rfl, proj_cons_self, ih, List.map_cons]

theorem calls_return_nine : ∃ g, run Gate.step (Gate.opened 1 16) inOneChunk = some g ∧
    ∃ st₀ st outs, DispatchThread.start oneWaiting = some st₀ ∧
      run DispatchThread.receive st₀ [fiveFrame.take 3, fiveFrame.drop 3] = some st ∧
      st.log = (outs : List (Unit × Reply)).map (fun e => .completed e.1 e.2) ∧
      Interleaves outs (fun _ => [Reply.ret (.string [5])]) := by
  let answer : Answer := ⟨true, [5], by decide⟩
  obtain ⟨frames, hpack, hreturn⟩ := calls_return (fun _ : Unit => requestAndPush false)
    (fun _ => oneByteServices) (fun _ => answer) (fun _ => rfl) (fun _ _ _ => rfl) (fun _ => by decide)
  have hframes : frames () = [nineFrame] :=
    Except.ok.inj ((hpack ()).symm.trans (Message.pack_of_lt (by decide)))
  obtain ⟨g, arrivals, hrun, -, harrivals, hback⟩ := hreturn [((), nineFrame)] nineFrame 1 16 7 9 0
    inOneChunk (fun _ => by rw [hframes]; rfl) (transmitted_of_wrote nineFrame) inOneChunk_proper
    inOneChunk_forwarded (by decide)
  refine ⟨g, hrun, hback arrivals fiveFrame oneWaiting _ (.refl _) ?_ ?_ (by decide) rfl⟩
  · -- there is one arrival
    have hone : arrivals.map Prod.snd = [(requestAndPush false).arrival] := by
      rw [← proj_unit, harrivals ()]
    obtain ⟨⟨⟨⟩, a⟩, rfl, rfl⟩ := List.map_eq_singleton_iff.mp hone
    have hwrites : socketWrites (fun _ : Unit => oneByteServices)
        [((), (requestAndPush false).arrival)] = [((), fiveFrame)] := by
      decide
    rw [hwrites]
    exact transmitted_of_wrote fiveFrame
  · refine ⟨rfl, fun s _ => ?_, fun _ => rfl⟩
    simp [oneWaiting, requestAndPush, eq_comm]

end TestCluster.BeeCluster
