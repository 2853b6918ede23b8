import TestCluster.Common.RpcClient

/-!
# Calls between services

Services that are `RpcClient` and `RpcServer` of `cpp/common/RPC.cpp`, with the messages
between them. A request and a response are packets of bytes; what correlates them is the
session, the source and the user that they carry. The server keeps the three of the request
that it works on in member fields, and a responder captures them by value.

A log records what happens; no service reads it, nor the number of the call that packets and
responders carry along.

## Main definitions

* `Protobuf` — the messages
* `RpcNet` — the services, the packets and the responders
* `RpcNet.step` — something that a service does, or the delivery of a packet
* `RpcNet.fresh` — a session that is not outstanding
* `Sound` — every answer in the log reached its own caller
-/

namespace TestCluster.Common

open Semantics

/-- The messages of the services. Parsing undoes serializing, a type name has at most
`kMaxTypeNameLen` bytes, and a serialized message has less than 2 GiB. -/
structure Protobuf (M : Type) where
  typeName : M → Bytes
  serialize : M → Bytes
  parse : Bytes → Bytes → Option M
  parse_serialize : ∀ msg, parse (typeName msg) (serialize msg) = some msg
  typeName_length : ∀ msg, (typeName msg).length ≤ kMaxTypeNameLen
  serialize_length : ∀ msg, (serialize msg).length < 2 ^ 31

/-- A message between two services, and the call that it belongs to. -/
structure Packet where
  source : ℕ
  dest : ℕ
  type : ℕ
  session : ℤ
  data : Bytes
  call : ℕ
  deriving DecidableEq, Repr

/-- The service that waits for the answer. -/
def Packet.caller (p : Packet) : ℕ := if p.type = ptypeText then p.source else p.dest

/-- What `get_response` returns: `response` with the correlation of one request. -/
structure Responder where
  server : ℕ
  source : ℕ
  session : ℤ
  uid : Int64
  call : ℕ
  deriving DecidableEq, Repr

/-- What is recorded: a call was made for a user, its session was cancelled, the server
produced an answer for it, its function ran with a message while a user was processed. -/
inductive Entry (M : Type)
  | called (call client : ℕ) (session : ℤ) (uid : Int64)
  | cancelled (call : ℕ)
  | produced (call : ℕ) (msg : M)
  | ran (call : ℕ) (msg : M) (uid : Int64)
  deriving DecidableEq, Repr

/-- The services. The fields from `source` to `uid` are `m_source`, `m_session` and `m_uid`
of each, and `current` is the call of the request that set them; `latest` is the call that a
service last made in a session. The log has its newest entry in front. -/
structure RpcNet (M : Type) where
  rpc : ℕ → ℤ → Option (RpcCallback ℕ)
  source : ℕ → ℕ
  session : ℕ → ℤ
  uid : ℕ → Int64
  current : ℕ → ℕ
  packets : List Packet
  responders : List Responder
  latest : ℕ → ℤ → Option ℕ
  log : List (Entry M)
  nextCall : ℕ

/-- What a service does. A `null` call has `RPC_NULL_FUNC` for its function. -/
inductive RpcOp (M : Type)
  | call (dest : ℕ) (session : ℤ) (msg : M) (uid : Int64) (null : Bool)
  | cancel (session : ℤ)
  | getResponse
  | respond (responder : ℕ) (msg : M)
  | drop (responder : ℕ)
  deriving DecidableEq, Repr

/-- A service does something by itself, or a packet is delivered; the callback that it
reaches does `ops`, and a server's callback returns `rsp`. -/
inductive RpcEvent (M : Type)
  | op (service : ℕ) (o : RpcOp M)
  | deliver (packet : ℕ) (ops : List (RpcOp M)) (rsp : Option M)
  deriving DecidableEq, Repr

/-- A table with another value for one service and session. -/
def update₂ {α : Type} (f : ℕ → ℤ → α) (service : ℕ) (session : ℤ) (a : α) : ℕ → ℤ → α :=
  fun service' session' =>
    if service' = service ∧ session' = session then a else f service' session'

namespace RpcNet

variable {M : Type} (pb : Protobuf M) (registered : ℕ → Bytes → Bool)

/-- No call was made. -/
def init (M : Type) : RpcNet M where
  rpc _ _ := none
  source _ := 0
  session _ := 0
  uid _ := 0
  current _ := 0
  packets := []
  responders := []
  latest _ _ := none
  log := []
  nextCall := 0

/-- `serialize_imsg_type`, with the room 0. -/
def serializeImsgType (msg : M) (uid : Int64) (type : UInt32) : Option Bytes :=
  ((OutPack.mk (pb.typeName msg) (pb.serialize msg)).newInnerpackType uid.toUInt64 type 0).toOption

variable (s : RpcNet M)

/-- `skynet_send_noleak`. -/
def send (p : Packet) : RpcNet M :=
  -- the message is freed, and -1 returned
  if p.dest = 0 then s else { s with packets := s.packets ++ [p] }

/-- The session is not outstanding: no call waits for it in the table, and no request, no
responder and no response is left that carries it. -/
def fresh (client : ℕ) (session : ℤ) : Prop :=
  (∀ call, s.rpc client session ≠ some (.func call)) ∧
    (∀ p ∈ s.packets, ¬ (p.caller = client ∧ p.session = session)) ∧
    ∀ r ∈ s.responders, ¬ (r.source = client ∧ r.session = session)

instance (client : ℕ) (session : ℤ) : Decidable (s.fresh client session) :=
  have _htable : Decidable (∀ call, s.rpc client session ≠ some (.func call)) :=
    match _hentry : s.rpc client session with
    | some (.func call) => isFalse fun h => h call rfl
    | some .null => isTrue fun _ h => nomatch h
    | none => isTrue fun _ h => nomatch h
  inferInstanceAs (Decidable (_ ∧ _ ∧ _))

/-- A call waits in the table, in the given session. -/
def called (client : ℕ) (session : ℤ) (uid : Int64) (null : Bool) : RpcNet M :=
  { s with
    rpc := update₂ s.rpc client session (some (if null then .null else .func s.nextCall))
    latest := update₂ s.latest client session (some s.nextCall)
    log := .called s.nextCall client session uid :: s.log
    nextCall := s.nextCall + 1 }

/-- `rpc_call`, in a session that is not outstanding. -/
def rpcCall (client dest : ℕ) (session : ℤ) (msg : M) (uid : Int64) (null : Bool) :
    Option (RpcNet M) :=
  if s.fresh client session then
    (serializeImsgType pb msg uid (UInt32.ofNat subtypeRpcServer)).map fun data =>
      (s.send ⟨client, dest, ptypeText, session, data, s.nextCall⟩).called client session uid null
  else none

/-- `m_rpc.erase`. -/
def erase (client : ℕ) (session : ℤ) : RpcNet M :=
  { s with rpc := update₂ s.rpc client session none }

/-- `rpc_cancel`. -/
def rpcCancel (client : ℕ) (session : ℤ) : RpcNet M :=
  let s' := s.erase client session
  match s.latest client session with
  | some call => { s' with log := .cancelled call :: s'.log }
  | none => s'

/-- `get_response`. -/
def getResponse (server : ℕ) : RpcNet M :=
  { s with
    responders := s.responders ++
      [⟨server, s.source server, s.session server, s.uid server, s.current server⟩] }

/-- `response`. -/
def response (msg : M) (r : Responder) : Option (RpcNet M) :=
  (serializeImsgType pb msg r.uid (UInt32.ofNat subtypeRpcClient)).map fun data =>
    let s' := s.send ⟨r.server, r.source, ptypeResponse, r.session, data, r.call⟩
    { s' with log := .produced r.call msg :: s'.log }

/-- One thing that a service does; only the callback of a request gets a responder. -/
def perform (service : ℕ) (inCallback : Bool) (s : RpcNet M) : RpcOp M → Option (RpcNet M)
  | .call dest session msg uid null => s.rpcCall pb service dest session msg uid null
  | .cancel session => some (s.rpcCancel service session)
  | .getResponse => if inCallback then some (s.getResponse service) else none
  | .respond i msg =>
    match s.responders[i]? with
    -- a responder belongs to the service that got it
    | some r => if r.server = service then s.response pb msg r else none
    | none => none
  | .drop i => some { s with responders := s.responders.eraseIdx i }

/-- One after the other. -/
def performAll (service : ℕ) (inCallback : Bool) : RpcNet M → List (RpcOp M) → Option (RpcNet M)
  | s, [] => some s
  | s, o :: ops =>
    match perform pb service inCallback s o with
    | none => none
    | some s' => performAll service inCallback s' ops

/-- The packet has been worked on. -/
def remove (i : ℕ) : RpcNet M := { s with packets := s.packets.eraseIdx i }

/-- The member fields are set from a request. -/
def received (p : Packet) (uid : Int64) : RpcNet M :=
  { s with
    source := Function.update s.source p.dest p.source
    session := Function.update s.session p.dest p.session
    uid := Function.update s.uid p.dest uid
    current := Function.update s.current p.dest p.call }

/-- The dispatch of `rpc_event_server`: the member fields are set, the callback runs, and what
it returns is the answer. -/
def dispatchRequest (p : Packet) (pack : InPack) (ops : List (RpcOp M)) (rsp : Option M) :
    Option (RpcNet M) :=
  match performAll pb p.dest true (s.received p pack.uid) ops with
  | none => none
  | some s' =>
    match rsp with
    | none => some s'
    | some msg => s'.response pb msg ⟨p.dest, p.source, p.session, pack.uid, p.call⟩

/-- The end of `rpc_event_client`: the function of the call runs, and its entry is erased. -/
def dispatchResponse (p : Packet) (uid : UInt64) (call : ℕ) (msg : M) (ops : List (RpcOp M)) :
    Option (RpcNet M) :=
  let s' := { s with log := .ran call msg uid.toInt64 :: s.log }
  match performAll pb p.dest false s' ops with
  | none => none
  | some s' => some (s'.erase p.dest p.session)

/-- What `service_poll` makes of a packet. -/
def poll (p : Packet) (ops : List (RpcOp M)) (rsp : Option M) : Option (RpcNet M) :=
  match servicePoll ⟨s.rpc p.dest, fun _ => false⟩ p.data p.source p.session p.type with
  | .error _ => none
  | .ok (.rpcServer _ (pack, true)) =>
    if registered p.dest pack.typeName then
      match createMessage pb.parse (p.data.drop 4) pack with
      -- the message does not parse
      | none => some s
      | some _ => s.dispatchRequest pb p pack ops rsp
    else some s
  | .ok (.rpcClient uid call (pack, true)) =>
    match createMessage pb.parse (p.data.drop 4) pack with
    | none => some s
    | some msg => s.dispatchResponse pb p uid call msg ops
  | .ok _ => some s

/-- One event. -/
def step (s : RpcNet M) : RpcEvent M → Option (RpcNet M)
  | .op service o => s.perform pb service false o
  | .deliver i ops rsp =>
    match s.packets[i]? with
    | none => none
    | some p => (s.poll pb registered p ops rsp).map fun s' => s'.remove i

end RpcNet

/-- Every function that ran was the one of a call for the user that was processed, whose
session had not been cancelled; it had not run before, and it got a message that the server
had produced for its call. -/
def Sound {M : Type} : List (Entry M) → Prop
  | [] => True
  | .ran call msg uid :: log =>
    ((∃ client session, .called call client session uid ∈ log) ∧ .cancelled call ∉ log ∧
      (∀ msg' uid', .ran call msg' uid' ∉ log) ∧ .produced call msg ∈ log) ∧ Sound log
  | _ :: log => Sound log

end TestCluster.Common
