import TestCluster.BeeCluster.Reassembly
import TestCluster.BeeCluster.Response

/-!
# Dispatch in the agent

`dispatch_request` of `bee_clusteragent.lua` from the dispatch point on: a name query,
a push or a request to a service, and the response written to the socket. What the
services around the agent do is a parameter.

## Main definitions

* `Services` — the answers the handler gets while it runs
* `dispatchTarget`, `handleArrival` — the handler
* `CompleteResponse` — a single frame, or a whole group
* `Message.Answerable` — the messages that are answered as they should be

## Main results

* `Message.written_iff` — one message: a response for a request and nothing for a push,
  exactly when it is answerable
* `socket_iff_answerable` — the same for interleaved messages whose handlers end in any order
-/

namespace TestCluster.BeeCluster

open Semantics

/-- The bytes of a literal string. -/
def luaString (s : String) : Bytes := s.toList.map fun c => UInt8.ofNat c.toNat

/-- What a service can answer. The bound is what the `int` part counter of
`packresponse` can count. -/
abbrev Block := { msg : Bytes // msg.length < 2 ^ 45 }

/-- The answers a handler gets while it runs: the first value of `skynet.unpack`, the
address it finds under `register_name["@..."]`, and what `skynet.rawcall` returns or
the error it raises. -/
structure Services where
  unpack : Bytes → Except Fault LuaValue
  registerName : Bytes → Option ℤ
  rawcall : LuaValue → Bytes → Except Bytes Block

/-- `"@" .. name`. -/
def atName : LuaValue → Except Fault Bytes
  | .string name => .ok (0x40 :: name)
  | .number n => .ok (0x40 :: luaString (toString n))
  | other => .error (.raised ("attempt to concatenate a " ++ other.typename ++ " value"))

/-- `skynet.packstring` of an integer: `wb_integer` of `lua-seri.c`. -/
def packInteger (v : ℤ) : Bytes :=
  let type : ℕ := 2
  if v = 0 then
    [UInt8.ofNat type]
  else if v ≠ toInt32 v then
    UInt8.ofNat (type + 8 * 6) :: leBytes 8 (toSizeT v)
  else if v < 0 then
    UInt8.ofNat (type + 8 * 4) :: leBytes 4 (toUInt32 v)
  else if v < 0x100 then
    UInt8.ofNat (type + 8 * 1) :: leBytes 1 v.toNat
  else if v < 0x10000 then
    UInt8.ofNat (type + 8 * 2) :: leBytes 2 v.toNat
  else
    UInt8.ofNat (type + 8 * 4) :: leBytes 4 (toUInt32 v)

/-- How the handler ends: with a response to be packed, with a message sent on, or with
an error that nothing catches. -/
inductive Outcome
  | respond (ok : Bool) (msg : Bytes)
  | rawsend (addr : LuaValue) (msg : Bytes)
  | raised (fault : Fault)
  deriving DecidableEq, Repr

section Handler

variable (sv : Services)

/-- The address behind a name, `nil` when there is none. -/
def resolve : LuaValue → LuaValue
  | .string name => ((sv.registerName name).map LuaValue.number).getD .nil
  | _ => .nil

/-- `dispatch_request` from the dispatch point up to the response. -/
def dispatchTarget (addr : LuaValue) (msg : Bytes) (isPush : Bool) : Outcome :=
  if addr = .number 0 then
    -- the query of a name, which nothing protects from errors
    match sv.unpack msg >>= atName with
    | .error fault => .raised fault
    | .ok name =>
      match sv.registerName name with
      | some addr => .respond true (packInteger addr)
      | none => .respond false (luaString "name not found")
  else
    let addr := if lisname addr then resolve sv addr else addr
    if addr.truthy then
      -- the only place that looks at `is_push`
      if isPush then
        .rawsend addr msg
      else
        -- `pcall` turns an error into a response
        match sv.rawcall addr msg with
        | .ok reply => .respond true reply
        | .error message => .respond false message
    else
      .respond false (luaString "Invalid name")

/-- What a handler has done when it ends. -/
structure Effects where
  written : List Bytes
  sent : Option (LuaValue × Bytes)
  raised : Option Fault
  deriving DecidableEq, Repr

/-- The end of the handler: the response is packed and written. -/
def perform (session : ℕ) : Outcome → Effects
  | .respond ok msg =>
    match lpackresponse session ok msg msg.length with
    | .ok response => ⟨response.frames, none, none⟩
    | .error fault => ⟨[], none, some fault⟩
  | .rawsend addr msg => ⟨[], some (addr, msg), none⟩
  | .raised fault => ⟨[], none, some fault⟩

/-- The handler, from what its frame led to. -/
def handleArrival : Arrival → Effects
  | .dispatched addr session msg isPush => perform session (dispatchTarget sv addr msg isPush)
  | .invalidLargeReq session => perform session (.respond false (luaString "Invalid large req"))
  | .raised fault => ⟨[], none, some fault⟩

end Handler

/-! ### Complete responses -/

/-- One complete response of a session: a single frame, or a group whose parts are all
there. -/
inductive CompleteResponse (session : ℕ) : List Bytes → Prop
  | single (ok : Bool) (msg : Bytes) :
      CompleteResponse session [frame (responseBody session (if ok then 1 else 0) msg)]
  | group (parts : List Bytes) (last : Bytes) :
      CompleteResponse session
        (frame (responseBody session 2 (leBytes 4 (parts.flatten ++ last).length)) ::
          (parts.map (fun c => frame (responseBody session 3 c)) ++
            [frame (responseBody session 4 last)]))

theorem CompleteResponse.ne_nil {session : ℕ} {frames : List Bytes}
    (h : CompleteResponse session frames) : frames ≠ [] := by
  cases h <;> simp

/-- Responding writes one complete response. -/
theorem perform_respond {session : ℕ} (hs : session < 2 ^ 32) {ok : Bool} {msg : Bytes}
    (hlen : ok = true → msg.length < 2 ^ 45) :
    CompleteResponse session (perform session (.respond ok msg)).written := by
  have hsession : toUInt32 session = session := toUInt32_natCast hs
  cases ok with
  | false =>
    simp only [perform, lpackresponse_error, hsession, PackedResponse.frames]
    exact .single false _
  | true =>
    rcases le_or_gt msg.length multiPart with hle | hgt
    · simp only [perform, lpackresponse_of_le _ hle, hsession, PackedResponse.frames]
      exact .single true msg
    · obtain ⟨chunks, last, hcut, hpack⟩ := lpackresponse_of_lt session hgt (hlen rfl)
      simp only [perform, hpack, hsession, PackedResponse.frames]
      rw [hcut.payload_eq]
      exact .group chunks last

/-! ### Which messages are answered as they should be -/

namespace Message

variable (sv : Services) (m : Message)

/-- A name query is a request with a name in it, and a message to a name that is not
registered is a request. -/
def Answerable : Prop :=
  match m.addr with
  | .number n _ =>
    n = 0 → (m.isPush = false ↔ ∃ name, sv.unpack m.payload >>= atName = .ok name)
  | .name s _ _ =>
    lisname (.string s) = true → sv.registerName s = none → m.isPush = false

/-- The response of a request and no response of a push. -/
def RespondedOnce (written : List Bytes) : Prop :=
  if m.isPush then written = [] else CompleteResponse m.session written

variable {sv m}

private theorem length_packInteger (v : ℤ) : (packInteger v).length < 2 ^ 45 := by
  unfold packInteger
  split_ifs <;> simp

/-- A handler that responds answers a request and not a push. -/
private theorem respondedOnce_respond {ok : Bool} {msg : Bytes}
    (hlen : ok = true → msg.length < 2 ^ 45) :
    m.RespondedOnce (perform m.wireSession (.respond ok msg)).written ↔ m.isPush = false := by
  have hresponse := perform_respond (lt_trans m.wireSession_lt (by decide)) hlen
  cases hpush : m.isPush with
  | false =>
    rw [wireSession_of_request hpush] at hresponse ⊢
    simpa [RespondedOnce, hpush] using hresponse
  | true => simpa [RespondedOnce, hpush] using hresponse.ne_nil

/-- A handler that writes nothing is right for a push only. -/
private theorem respondedOnce_nil : m.RespondedOnce [] ↔ m.isPush = true := by
  cases hpush : m.isPush with
  | false => simpa [RespondedOnce, hpush] using fun h => CompleteResponse.ne_nil h rfl
  | true => simp [RespondedOnce, hpush]

/-- A name query that carries a name is responded to. -/
private theorem dispatchTarget_query {msg name : Bytes} (isPush : Bool)
    (hname : sv.unpack msg >>= atName = .ok name) :
    ∃ ok reply, dispatchTarget sv (.number 0) msg isPush = .respond ok reply ∧
      (ok = true → reply.length < 2 ^ 45) := by
  unfold dispatchTarget
  rw [if_pos rfl, hname]
  cases haddr : sv.registerName name with
  | none => exact ⟨false, luaString "name not found", by simp only [haddr], by simp⟩
  | some addr =>
    exact ⟨true, packInteger addr, by simp only [haddr], fun _ => length_packInteger addr⟩

/-- A name query. -/
private theorem written_query :
    m.RespondedOnce (perform m.wireSession
        (dispatchTarget sv (.number 0) m.payload m.isPush)).written ↔
      (m.isPush = false ↔ ∃ name, sv.unpack m.payload >>= atName = .ok name) := by
  cases hname : sv.unpack m.payload >>= atName with
  | error fault =>
    have hraised : dispatchTarget sv (.number 0) m.payload m.isPush = .raised fault := by
      simp only [dispatchTarget, if_true, hname]
    rw [hraised, perform, respondedOnce_nil]
    simp
  | ok name =>
    obtain ⟨ok, reply, htarget, hlen⟩ := dispatchTarget_query m.isPush hname
    rw [htarget, respondedOnce_respond hlen]
    simp

/-- A message to a service that was found. -/
private theorem written_service {addr : LuaValue} (hzero : addr ≠ .number 0)
    (htruthy : (if lisname addr then resolve sv addr else addr).truthy = true) :
    m.RespondedOnce (perform m.wireSession
      (dispatchTarget sv addr m.payload m.isPush)).written := by
  simp only [dispatchTarget, if_neg hzero, htruthy, if_true]
  cases hpush : m.isPush with
  | true => simpa [perform] using respondedOnce_nil.mpr hpush
  | false =>
    simp only [Bool.false_eq_true, if_false]
    cases sv.rawcall (if lisname addr then resolve sv addr else addr) m.payload with
    | ok reply => exact (respondedOnce_respond fun _ => reply.2).mpr hpush
    | error message => exact (respondedOnce_respond (by simp)).mpr hpush

/-- One message: its handler responds once to a request and not at all to a push,
exactly when the message is answerable. -/
theorem written_iff : m.RespondedOnce (handleArrival sv m.arrival).written ↔ m.Answerable sv := by
  unfold Answerable arrival handleArrival
  cases m.addr with
  | number n lt =>
    -- the address 0 asks for a name
    by_cases hn : n = 0
    · subst hn
      simpa [Address.toLua] using written_query
    · simp only [hn, false_implies, iff_true]
      exact written_service (by simpa [Address.toLua] using hn) rfl
  | name s pos le =>
    change m.RespondedOnce (perform m.wireSession
      (dispatchTarget sv (.string s) m.payload m.isPush)).written ↔
        (lisname (.string s) = true → sv.registerName s = none → m.isPush = false)
    have hzero : LuaValue.string s ≠ .number 0 := by simp
    cases hisname : lisname (.string s) with
    | false =>
      have htarget : (if lisname (.string s) then resolve sv (.string s)
          else .string s).truthy = true := by rw [hisname]; rfl
      exact iff_of_true (written_service hzero htarget) (fun h => absurd h Bool.false_ne_true)
    | true =>
      cases hreg : sv.registerName s with
      | some addr =>
        have htarget : (if lisname (.string s) then resolve sv (.string s)
            else .string s).truthy = true := by rw [hisname, if_pos rfl, resolve, hreg]; rfl
        exact iff_of_true (written_service hzero htarget) (fun _ h => by cases h)
      | none =>
        -- the name is not registered: an error is written, for a push as well
        have hinvalid : dispatchTarget sv (.string s) m.payload m.isPush =
            .respond false (luaString "Invalid name") := by
          simp only [dispatchTarget, if_neg hzero, hisname, if_true, resolve, hreg]
          rfl
        have hresponded : m.RespondedOnce (perform m.wireSession
            (.respond false (luaString "Invalid name"))).written ↔ m.isPush = false :=
          respondedOnce_respond fun h => by cases h
        rw [hinvalid, hresponded]
        simp

end Message

/-! ### The socket -/

/-- What the handlers write to the socket. No handler yields while it writes, so each
leaves one block; the handlers end in the given order. -/
def socketWrites {ι : Type*} (sv : ι → Services) (order : List (ι × Arrival)) : List (ι × Bytes) :=
  order.flatMap fun e => (handleArrival (sv e.1) e.2).written.map (Prod.mk e.1)

/-- **One response per request, none per push, exactly for answerable messages.** The
frames of the messages are interleaved in any way and the handlers end in any order:
every request gets one complete response and no push gets any, if and only if every
message is answerable. -/
theorem socket_iff_answerable {ι : Type*} [DecidableEq ι] (m : ι → Message) (sv : ι → Services) :
    ∃ frames : ι → List Bytes, (∀ i, (m i).pack = .ok (frames i)) ∧
      ∀ tr : List (ι × Bytes), Interleaves tr frames →
        (∀ i j, i ≠ j → Between tr i j → (m i).session ≠ (m j).session) →
        ∃ arrivals : List (ι × Arrival),
          dispatchAll (fun _ => none) (tr.map fun e => e.2.drop 2) =
            (fun _ => none, arrivals.map Prod.snd) ∧
          ∀ order : List (ι × Arrival), order.Perm arrivals →
            ((∀ i, (m i).RespondedOnce (proj i (socketWrites sv order))) ↔
              ∀ i, (m i).Answerable (sv i)) := by
  choose frames hpack using fun i => (m i).exists_pack
  refine ⟨frames, hpack, fun tr htr hsession => ?_⟩
  obtain ⟨arrivals, hrun, harrivals⟩ := dispatchAll_arrivals hpack htr hsession
  refine ⟨arrivals, hrun, fun order horder => forall_congr' fun i => ?_⟩
  -- each message arrives once, in whatever order its handler ends
  have hone : proj i order = [(m i).arrival] := by
    have hperm := proj_perm horder i
    rw [harrivals i] at hperm
    exact List.perm_singleton.mp hperm
  have hwrites : proj i (socketWrites sv order) = (handleArrival (sv i) (m i).arrival).written := by
    rw [socketWrites, proj_flatMap (fun i a => (handleArrival (sv i) a).written), hone]
    simp
  rw [hwrites, Message.written_iff]

/-- A request and a push, both to the service 9. -/
def requestAndPush : Bool → Message
  | false => ⟨.nine, false, 1, [1, 2], by decide, by decide, by decide⟩
  | true => ⟨.nine, true, 2, [3], by decide, by decide, by decide⟩

/-- Services that answer every request with one byte. -/
def oneByteServices : Services where
  unpack _ := .ok .nil
  registerName _ := none
  rawcall _ _ := .ok ⟨[5], by decide⟩

/-- The handlers end in the reverse order; the request is answered and the push is not. -/
theorem socket_requestAndPush :
    ∃ (tr : List (Bool × Bytes)) (arrivals : List (Bool × Arrival)),
      dispatchAll (fun _ => none) (tr.map fun e => e.2.drop 2) =
        (fun _ => none, arrivals.map Prod.snd) ∧
      ∀ i, (requestAndPush i).RespondedOnce
        (proj i (socketWrites (fun _ => oneByteServices) arrivals.reverse)) := by
  obtain ⟨frames, -, hrun⟩ := socket_iff_answerable requestAndPush (fun _ => oneByteServices)
  have hanswerable : ∀ i, (requestAndPush i).Answerable oneByteServices := by
    intro i
    cases i <;> exact fun h => absurd h (by decide)
  obtain ⟨arrivals, hdispatch, hsocket⟩ := hrun
    ((frames false).map (Prod.mk false) ++ (frames true).map (Prod.mk true))
    (by
      intro i
      rw [proj_append, proj_tagged, proj_tagged]
      cases i <;> simp)
    (by
      intro i j hij _
      cases i <;> cases j <;> first | exact absurd rfl hij | decide)
  exact ⟨_, arrivals, hdispatch, (hsocket _ arrivals.reverse_perm).mpr hanswerable⟩

/-! ### A push that is answered -/

/-- Services among which nothing is registered and nothing exists. -/
def noServices : Services where
  unpack _ := .ok .nil
  registerName _ := none
  rawcall _ _ := .error (luaString "call to invalid address")

/-- A push of one byte to the name `@a`. -/
def pushToName : Message :=
  ⟨.atA, true, 1, [7], by decide, by decide, by decide⟩

/-- The push, in its one frame, arrives; its handler ends and a response is written. -/
theorem pushToName_responded :
    ∃ f, pushToName.pack = .ok [f] ∧ pushToName.isPush = true ∧
      (dispatchAll (fun _ => none) [f.drop 2]).2 = [pushToName.arrival] ∧
      (∃ response, (handleArrival noServices pushToName.arrival).written = [response]) ∧
      ¬ pushToName.RespondedOnce (handleArrival noServices pushToName.arrival).written := by
  have hshort : pushToName.payload.length < multiPart := by decide
  have htarget : dispatchTarget noServices (.string [0x40, 0x61]) [7] true =
      .respond false (luaString "Invalid name") := by decide
  have hwritten : (handleArrival noServices pushToName.arrival).written =
      [frame (responseBody 0 0 ((luaString "Invalid name").take multiPart))] := by
    change (perform 0 (dispatchTarget noServices (.string [0x40, 0x61]) [7] true)).written = _
    rw [htarget, perform, lpackresponse_error]
    rfl
  refine ⟨frame pushToName.head, Message.pack_of_lt hshort, rfl, ?_, ⟨_, hwritten⟩, ?_⟩
  · rw [frame_drop, dispatchAll_eq]
    simp only [deliverAll, deliver, Message.reassemble_of_lt _ hshort, List.append_nil]
  · rw [hwritten]
    simp [Message.RespondedOnce, pushToName]

end TestCluster.BeeCluster
