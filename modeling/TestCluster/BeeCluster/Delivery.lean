import TestCluster.BeeCluster.Emitted
import TestCluster.BeeCluster.Reassembly
import TestCluster.Skynet.Forwarding

/-!
# From the sockets to the agent

The requests of a node come to the gate of another one over a socket, as a stream that is cut into
chunks anywhere, with the chunks of other sockets between them. The gate cuts the frames off and
passes them to the agent that the socket is forwarded to, which puts the messages together.

## Main results

* `requests_arrive` — from the packers of one node to the dispatch point of the other
-/

namespace TestCluster.BeeCluster

open Semantics TestCluster.Skynet

/-- A frame that says how long it is, by what follows its header. -/
theorem Emitted.eq_frame {f : Bytes} (h : Emitted f) : frame (f.drop 2) = f := by
  have htake : (f.take 2).length = 2 := List.length_take_of_le h.header
  have hheader : beBytes 2 (f.length - 2) = f.take 2 := by
    have hle := leBytes_leNat (f.take 2).reverse
    rw [List.length_reverse, htake] at hle
    rw [← h.length_eq, beBytes, beNat, hle, List.reverse_reverse]
  rw [frame, List.length_drop, hheader, List.take_append_drop]

/-- What follows the header of a frame has the length that the header says. -/
theorem Emitted.drop_length {f : Bytes} (h : Emitted f) : (f.drop 2).length < 256 ^ 2 := by
  have := h.fits
  rw [tempLength] at this
  rw [List.length_drop]
  omega

/-- The frames of a message say how long they are. -/
theorem Message.emitted_of_pack {m : Message} {frames : List Bytes} (hpack : m.pack = .ok frames) :
    ∀ f ∈ frames, Emitted f := by
  have haddr : Addressed m.addr.toLua := by
    cases m.addr with
    | number n lt => trivial
    | name s pos le => exact ⟨pos, le⟩
  have hsession : 0 < toInt32 (m.session : ℤ) := by
    rw [toInt32_of_lt (by omega) (by have := m.session_lt; omega)]
    exact_mod_cast m.session_pos
  have hlen : m.payload.length < 2 ^ 32 := m.length_lt.trans (by decide)
  obtain ⟨packed, multipak, hpacked, -, hrequest, hpadding⟩ :=
    request_fits m.session m.isPush haddr hsession hlen
  rw [Message.pack, hpacked] at hpack
  obtain rfl := Except.ok.inj hpack
  intro f hf
  rcases List.mem_cons.mp hf with rfl | hmem
  · exact hrequest
  · cases hpad : packed.padding with
    | none =>
      rw [hpad] at hmem
      cases hmem
    | some parts =>
      rw [hpad] at hmem hpadding
      exact hpadding.2.emitted f hmem

/-- A stream of frames is cut into what follows their headers. -/
theorem cuts_emitted {fs : List Bytes} (h : ∀ f ∈ fs, Emitted f) :
    Cuts 2 beNat fs.flatten (fs.map fun f => f.drop 2) [] := by
  have hframes : fs = (fs.map fun f => f.drop 2).map frame := by
    rw [List.map_map]
    refine (List.map_id fs).symm.trans (List.map_congr_left fun f hf => ?_)
    exact (h f hf).eq_frame.symm
  nth_rewrite 1 [hframes]
  refine Cuts.flatten_of_framed Nat.zero_lt_two fun b hb => ?_
  obtain ⟨f, hf, rfl⟩ := List.mem_map.mp hb
  refine ⟨_, rfl, length_beBytes 2 _, ?_⟩
  rw [beNat_beBytes_of_lt (h f hf).drop_length]

section Requests

variable {ι : Type*} [DecidableEq ι]

/-- The frames of messages come to the gate, in chunks of any sizes, and from there to the agent. -/
theorem arrivals_of_bytes {m : ι → Message} {frames : ι → List Bytes}
    (hpack : ∀ i, (m i).pack = .ok (frames i)) {tr : List (ι × Bytes)} (htr : Interleaves tr frames)
    (hsession : ∀ i j, i ≠ j → Between tr i j → (m i).session ≠ (m j).session)
    {socket maxclient fd agent client : ℕ} {es : List GateEvent} (hproper : ∀ e ∈ es, e.Proper)
    (hforwarded : Forwarded socket maxclient fd agent client es)
    (hbytes : bytesOf fd es = (tr.map Prod.snd).flatten) :
    ∃ g outs, run Gate.step (Gate.opened socket maxclient) es = some g ∧
      dispatchAll (fun _ => none) (agentMsgsOf fd agent client g.log) =
        (fun _ => none, outs.map Prod.snd) ∧
      Interleaves outs (fun i => [(m i).arrival]) := by
  obtain ⟨g, hrun, hinv⟩ := (GateInv.opened socket maxclient).run hproper
  obtain ⟨outs, hdispatch, houts⟩ := dispatchAll_arrivals hpack htr hsession
  refine ⟨g, outs, hrun, ?_, houts⟩
  have hemitted : ∀ f ∈ tr.map Prod.snd, Emitted f := by
    intro f hf
    obtain ⟨⟨i, f⟩, he, rfl⟩ := List.mem_map.mp hf
    apply Message.emitted_of_pack (hpack i)
    rw [← htr i]
    exact mem_proj_of_mem he
  have hcuts := hinv.cuts fd
  rw [show es.foldl (trackBytes fd) [] = bytesOf fd es from rfl, hbytes] at hcuts
  obtain ⟨hmsgs, -⟩ := hcuts.unique (cuts_emitted hemitted)
  rw [hforwarded.agentMsgsOf_eq hproper hrun, hmsgs, List.map_map]
  exact hdispatch

/-- **Requests arrive.** The frames of any number of requests and pushes are written to a socket, each
message in its order and all mixed in any way in which messages in flight together have different
sessions. The gate of the other node has forwarded the socket to an agent before the first byte.
However the bytes come to the gate, in chunks of any sizes, between the chunks, the openings and the
ends of other sockets and the commands for them, the agent gets frames from which it puts together
every message, once and as it was sent. -/
theorem requests_arrive (m : ι → Message) : ∃ frames : ι → List Bytes,
    (∀ i, (m i).pack = .ok (frames i)) ∧
      ∀ (tr : List (ι × Bytes)) (socket maxclient fd agent client : ℕ) (es : List GateEvent),
        Interleaves tr frames →
        (∀ i j, i ≠ j → Between tr i j → (m i).session ≠ (m j).session) →
        (∀ e ∈ es, e.Proper) → Forwarded socket maxclient fd agent client es →
        bytesOf fd es = (tr.map Prod.snd).flatten →
        ∃ g outs, run Gate.step (Gate.opened socket maxclient) es = some g ∧
          dispatchAll (fun _ => none) (agentMsgsOf fd agent client g.log) =
            (fun _ => none, outs.map Prod.snd) ∧
          Interleaves outs (fun i => [(m i).arrival]) := by
  choose frames hpack using fun i => (m i).exists_pack
  exact ⟨frames, hpack, fun _ _ _ _ _ _ _ htr hsession hproper hforwarded hbytes =>
    arrivals_of_bytes hpack htr hsession hproper hforwarded hbytes⟩

end Requests

/-- The frame of a request to `@a` with three bytes. -/
def atAFrame : Bytes := frame (pushAndRequest true).head

/-- The agent 9 has the socket forwarded to it; the frame comes in two chunks, the first of which ends
in the header, and another socket has a package between them. -/
def inTwoChunks : List GateEvent :=
  [.socket (.accept 1 7 []), .forward 9 7 none none, .socket (.data 7 (atAFrame.take 1)),
    .socket (.data 8 [0, 1, 20]), .socket (.data 7 (atAFrame.drop 1))]

theorem inTwoChunks_proper : ∀ e ∈ inTwoChunks, e.Proper := by
  intro e he
  simp only [inTwoChunks, List.mem_cons, List.not_mem_nil, or_false] at he
  rcases he with rfl | rfl | rfl | rfl | rfl
  · trivial
  · trivial
  · exact List.cons_ne_nil _ _
  · exact List.cons_ne_nil _ _
  · exact List.cons_ne_nil _ _

theorem inTwoChunks_forwarded : Forwarded 1 16 7 9 0 inTwoChunks := by
  refine ⟨[.socket (.accept 1 7 [])], _, 9, none, none, _, rfl, rfl, rfl, rfl, rfl, rfl, ?_⟩
  intro e he
  simp only [List.mem_cons, List.not_mem_nil, or_false] at he
  rcases he with rfl | rfl | rfl <;> trivial

theorem requests_arrive_atA : ∃ g outs,
    run Gate.step (Gate.opened 1 16) inTwoChunks = some g ∧
      dispatchAll (fun _ => none) (agentMsgsOf 7 9 0 g.log) =
        (fun _ => none, (outs : List (Unit × Arrival)).map Prod.snd) ∧
      Interleaves outs (fun _ => [(pushAndRequest true).arrival]) := by
  obtain ⟨frames, hpack, harrive⟩ := requests_arrive fun _ : Unit => pushAndRequest true
  have hframes : frames () = [atAFrame] :=
    Except.ok.inj ((hpack ()).symm.trans (Message.pack_of_lt (by decide)))
  refine harrive [((), atAFrame)] 1 16 7 9 0 inTwoChunks ?_ ?_ inTwoChunks_proper
    inTwoChunks_forwarded (by decide)
  · intro i
    rw [hframes]
    rfl
  · intro i j hij
    exact absurd rfl hij

end TestCluster.BeeCluster
