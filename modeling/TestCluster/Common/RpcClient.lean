import TestCluster.Common.ServicePoll
import TestCluster.Semantics.Machine

/-!
# The table of calls

`RpcClient` of `cpp/common/RPC.cpp`: `rpc_call` enters a call into `m_rpc`, `rpc_cancel` takes
it out, and `rpc_event_client` runs its function when the response comes. A function that
runs may call and cancel in turn.

## Main definitions

* `RpcClient` — the table, with the calls that are really outstanding
* `RpcClient.step` — one call, one cancellation or one response
* `Answerable` — the steps that leave only outstanding calls in the table

## Main results

* `RpcClient.rpc_outstanding` — the table holds only outstanding calls
-/

namespace TestCluster.Common

open Semantics

/-- `RpcClient`. A session is outstanding when its request was handed to `skynet_send` and
no response was delivered since. -/
structure RpcClient (F : Type) where
  rpc : ℤ → Option (RpcCallback F)
  outstanding : ℤ → Bool

/-- What a service, or a function that runs in it, does with the table. The session of a call
is the one that `skynet_context_newsession` returns. -/
inductive ClientOp (F : Type)
  | call (session : ℤ) (dest : UInt32) (func : RpcCallback F)
  | cancel (id : ℤ)
  deriving DecidableEq, Repr

/-- An operation, or a response with what its function is going to do. -/
inductive ClientEvent (F : Type)
  | op (o : ClientOp F)
  | response (session : ℤ) (data : Bytes) (ops : List (ClientOp F))
  deriving DecidableEq, Repr

/-- `skynet_send_noleak`: whether the message is handed to `skynet_send`. -/
def skynetSendNoleak (destination : UInt32) : Bool :=
  if destination = 0 then false else true

variable {F M : Type} (parse : Bytes → Bytes → Option M)

/-- `create_message`, of a packet that was decoded from the data. -/
def createMessage (data : Bytes) (pack : InPack) : Option M :=
  parse pack.typeName ((data.drop pack.pbData).take pack.pbDataLen)

namespace RpcClient

/-- No call was made. -/
def init (F : Type) : RpcClient F := ⟨fun _ => none, fun _ => false⟩

variable (c : RpcClient F)

/-- `rpc_call`: the request is sent, and the call is entered. -/
def rpcCall (session : ℤ) (dest : UInt32) (func : RpcCallback F) : RpcClient F where
  outstanding := Function.update c.outstanding session (skynetSendNoleak dest)
  rpc := Function.update c.rpc session (some func)

/-- `m_rpc.erase`. -/
def erase (session : ℤ) : RpcClient F := { c with rpc := Function.update c.rpc session none }

/-- One operation. -/
def perform (c : RpcClient F) : ClientOp F → RpcClient F
  | .call session dest func => c.rpcCall session dest func
  | .cancel id => c.erase id

/-- A response is delivered, whatever becomes of it. -/
def answered (session : ℤ) : RpcClient F :=
  { c with outstanding := Function.update c.outstanding session false }

/-- `rpc_event_client`. A packet that is too short for its fields has no next state. -/
def rpcEventClient (session : ℤ) (data : Bytes) (ops : List (ClientOp F)) :
    Option (RpcClient F) :=
  match Common.rpcEventClient ⟨c.rpc, fun _ => false⟩ 0 data data.length session with
  | .error _ => none
  | .ok (.rpcClient _ _ (pack, true)) =>
    match createMessage parse data pack with
    -- the message does not parse: the entry stays
    | none => some c
    | some _ => some ((ops.foldl perform c).erase session)
  -- no entry, `RPC_NULL_FUNC`, or a packet that does not decode
  | .ok _ => some c

/-- One event. -/
def step (c : RpcClient F) : ClientEvent F → Option (RpcClient F)
  | .op o => some (c.perform o)
  | .response session data ops => (c.answered session).rpcEventClient parse session data ops

end RpcClient

/-- A call is sent. -/
def ClientOp.Sent : ClientOp F → Prop
  | call _ dest _ => dest ≠ 0
  | cancel _ => True

/-- The packet is decoded, and its message parsed. -/
def Readable (data : Bytes) : Prop :=
  ∃ pack, Checked.innerReset .new data data.length = .ok (pack, true) ∧
    (createMessage parse data pack).isSome

/-- Calls are sent, and where a response is delivered for an entry, the entry has a function
and the response can be read. -/
def Answerable (c : RpcClient F) : ClientEvent F → Prop
  | .op o => o.Sent
  | .response session data ops =>
    (∀ o ∈ ops, o.Sent) ∧ ∀ entry, c.rpc session = some entry →
      (∃ f, entry = .func f) ∧ Readable parse data

namespace RpcClient

variable {parse} {c c' : RpcClient F}

@[simp] theorem rpcCall_rpc (session : ℤ) (dest : UInt32) (func : RpcCallback F) :
    (c.rpcCall session dest func).rpc = Function.update c.rpc session (some func) := rfl

@[simp] theorem rpcCall_outstanding (session : ℤ) (dest : UInt32) (func : RpcCallback F) :
    (c.rpcCall session dest func).outstanding =
      Function.update c.outstanding session (skynetSendNoleak dest) := rfl

@[simp] theorem erase_rpc (session : ℤ) :
    (c.erase session).rpc = Function.update c.rpc session none := rfl

@[simp] theorem answered_outstanding (session : ℤ) :
    (c.answered session).outstanding = Function.update c.outstanding session false := rfl

/-- The entries of the table are outstanding, except for the one whose function runs. -/
def OutstandingBut (busy : Option ℤ) (c : RpcClient F) : Prop :=
  ∀ session, busy ≠ some session → c.rpc session ≠ none → c.outstanding session = true

/-- The entries of the table are outstanding. -/
abbrev Outstanding (c : RpcClient F) : Prop := c.OutstandingBut none

theorem erase_ne_none {session session' : ℤ} (h : (c.erase session).rpc session' ≠ none) :
    session' ≠ session ∧ c.rpc session' ≠ none := by
  rw [erase_rpc] at h
  have hne : session' ≠ session := by
    rintro rfl
    exact h (Function.update_self ..)
  rw [Function.update_of_ne hne] at h
  exact ⟨hne, h⟩

/-- An operation that is sent keeps the table. -/
theorem OutstandingBut.perform {busy : Option ℤ} (h : c.OutstandingBut busy) {o : ClientOp F}
    (ho : o.Sent) : (c.perform o).OutstandingBut busy := by
  intro session hbusy hsession
  cases o with
  | call id dest func =>
    rw [RpcClient.perform, rpcCall_outstanding]
    rw [RpcClient.perform, rpcCall_rpc] at hsession
    by_cases hid : session = id
    · rw [hid, Function.update_self]
      exact if_neg ho
    · rw [Function.update_of_ne hid] at hsession ⊢
      exact h session hbusy hsession
  | cancel id =>
    obtain ⟨-, hentry⟩ := erase_ne_none hsession
    exact h session hbusy hentry

theorem OutstandingBut.foldl {busy : Option ℤ} {ops : List (ClientOp F)}
    (hops : ∀ o ∈ ops, o.Sent) (h : c.OutstandingBut busy) :
    (ops.foldl RpcClient.perform c).OutstandingBut busy := by
  induction ops generalizing c with
  | nil => exact h
  | cons o ops ih =>
    obtain ⟨ho, hops⟩ := List.forall_mem_cons.mp hops
    exact ih hops (h.perform ho)

/-- Once the entry is taken out there is no exception. -/
theorem OutstandingBut.erase {session : ℤ} (h : c.OutstandingBut (some session)) :
    (c.erase session).Outstanding := by
  intro session' _ hentry
  obtain ⟨hne, hentry⟩ := erase_ne_none hentry
  apply h session' _ hentry
  intro heq
  exact hne (Option.some.inj heq).symm

/-- A response settles its own session only. -/
theorem Outstanding.answered (h : c.Outstanding) (session : ℤ) :
    (c.answered session).OutstandingBut (some session) := by
  intro session' hbusy hentry
  rw [answered_outstanding, Function.update_of_ne fun heq => hbusy (congrArg some heq.symm)]
  exact h session' (fun hnone => nomatch hnone) hentry

/-- What a response leads to: its session has no entry, or it has one with a function that
runs and is taken out. -/
theorem rpcEventClient_cases {session : ℤ} {data : Bytes} {ops : List (ClientOp F)}
    (hentry : ∀ entry, c.rpc session = some entry →
      (∃ f, entry = .func f) ∧ Readable parse data)
    (h : c.rpcEventClient parse session data ops = some c') :
    (c.rpc session = none ∧ c' = c) ∨ c' = (ops.foldl perform c).erase session := by
  cases hrpc : c.rpc session with
  | none =>
    have hnothing : Common.rpcEventClient ⟨c.rpc, fun _ => false⟩ 0 data data.length session =
        .ok .nothing := by
      simp only [Common.rpcEventClient, hrpc]
    rw [rpcEventClient, hnothing] at h
    exact Or.inl ⟨rfl, (Option.some.inj h).symm⟩
  | some entry =>
    -- the entry is a function, and the packet decodes and parses
    obtain ⟨⟨f, rfl⟩, pack, hpack, hmsg⟩ := hentry entry hrpc
    have hfunc : Common.rpcEventClient ⟨c.rpc, fun _ => false⟩ 0 data data.length session =
        .ok (.rpcClient 0 f (pack, true)) := by
      simp only [Common.rpcEventClient, hrpc, hpack, ok_bind, pure_eq_ok]
    obtain ⟨msg, hmsg⟩ := Option.isSome_iff_exists.mp hmsg
    rw [rpcEventClient, hfunc] at h
    simp only [hmsg] at h
    exact Or.inr (Option.some.inj h).symm

/-- A step that leaves only outstanding calls in the table. -/
theorem Outstanding.step (h : c.Outstanding) {e : ClientEvent F} (he : Answerable parse c e)
    (hs : step parse c e = some c') : c'.Outstanding := by
  cases e with
  | op o =>
    rw [← Option.some.inj hs]
    exact h.perform he
  | response session data ops =>
    obtain ⟨hops, hentry⟩ := he
    have hanswered := Outstanding.answered h session
    rcases rpcEventClient_cases (c := c.answered session) hentry hs with ⟨hnone, rfl⟩ | rfl
    · -- nothing waits for the response, so its session needs no exception
      intro session' _ hsession'
      apply hanswered session' _ hsession'
      intro heq
      rw [Option.some.inj heq] at hnone
      exact hsession' hnone
    · exact (hanswered.foldl hops).erase

/-- After a response its session has no entry. -/
theorem step_response {session : ℤ} {data : Bytes} {ops : List (ClientOp F)}
    (he : Answerable parse c (.response session data ops))
    (hs : step parse c (.response session data ops) = some c') : c'.rpc session = none := by
  rcases rpcEventClient_cases (c := c.answered session) he.2 hs with ⟨hnone, rfl⟩ | rfl
  · exact hnone
  · exact Function.update_self ..

/-- **The table holds only outstanding calls**, in every run in which calls are sent and
responses can be read where something waits for them; and after such a response its session
has no entry. -/
theorem rpc_outstanding (h : Reachable (step parse) (Answerable parse) (init F) c) :
    (∀ session, c.rpc session ≠ none → c.outstanding session = true) ∧
      ∀ session data ops c', Answerable parse c (.response session data ops) →
        step parse c (.response session data ops) = some c' → c'.rpc session = none := by
  have hall : c.Outstanding := by
    apply h.invariant
    · intro session _ hentry
      exact absurd rfl hentry
    · intro c e c' hc he hs
      exact Outstanding.step hc he hs
  refine ⟨fun session hentry => hall session (fun hnone => nomatch hnone) hentry, ?_⟩
  intro session data ops c' he hs
  exact step_response he hs

/-- A packet for the name `a` with the data 1 that is parsed. -/
def packetOfA : Bytes := [0, 0, 0, 0, 0, 0, 0, 7, 0, 1, 0x61, 0, 0, 0, 0, 1]

/-- Two calls are made, and one of them is answered. -/
theorem rpc_outstanding_two :
    ∃ c, run (step fun _ bs => some bs) (init Unit)
        [.op (.call 1 9 (.func ())), .op (.call 2 9 (.func ())), .response 1 packetOfA []] =
          some c ∧
      ((∀ session, c.rpc session ≠ none → c.outstanding session = true) ∧
        ∀ session data ops c', Answerable (fun _ bs => some bs) c (.response session data ops) →
          step (fun _ bs => some bs) c (.response session data ops) = some c' →
          c'.rpc session = none) := by
  refine ⟨_, rfl, rpc_outstanding ?_⟩
  refine .next (e := .response 1 packetOfA []) (.next (e := .op (.call 2 9 (.func ())))
    (.next (e := .op (.call 1 9 (.func ()))) .start ?_ rfl) ?_ rfl) ?_ rfl
  · exact (by decide : (9 : UInt32) ≠ 0)
  · exact (by decide : (9 : UInt32) ≠ 0)
  · refine ⟨fun o ho => (nomatch ho), fun entry hentry => ⟨⟨(), ?_⟩, _, rfl, rfl⟩⟩
    exact (Option.some.inj hentry).symm

/-- A call to the destination 0 is entered and not sent. A response whose packet is rejected
leaves its call in the table. -/
theorem rpc_not_outstanding :
    (∃ c, run (step fun _ bs => some bs) (init Unit) [.op (.call 1 0 (.func ()))] = some c ∧
      c.rpc 1 = some (.func ()) ∧ c.outstanding 1 = false) ∧
    ∃ c, run (step fun _ bs => some bs) (init Unit)
        [.op (.call 1 9 (.func ())), .response 1 [0, 0, 0, 0, 0, 0, 0, 7, 0, 1] []] = some c ∧
      c.rpc 1 = some (.func ()) ∧ c.outstanding 1 = false :=
  ⟨⟨_, rfl, rfl, rfl⟩, ⟨_, rfl, rfl, rfl⟩⟩

end RpcClient

end TestCluster.Common
