import TestCluster.Common.RpcClient
import TestCluster.Semantics.Decimal
import TestCluster.Semantics.Table

/-!
# The user that a message is processed for

`m_process_uid` of a `Service`: every branch of `service_poll` that runs a handler for a user
sets it before, and clears it after. A timer keeps the user of the handler that starts it and
is run for the same user, in a later message. Timers and answers share the sessions of
`skynet_context_newsession`; what tells them apart is the source.

A handler does what it likes with the timers, the calls and the callbacks of its service, but
does not assign `m_process_uid`. A log records it, and no function of the service reads the
log or the number that a timer gets in it.

## Main definitions

* `ActingService` — the service, with its timers and its tables
* `ActingService.servicePoll` — the delivery of a message
* `ActingService.step` — an operation of the service, or a delivered message
* `Justified` — what is recorded agrees with what was recorded before

## Main results

* `ActingService.servicePoll_ok` — messages that are long enough are delivered
* `ActingService.acting_uid` — every handler runs for its own user, and every timer at most once
-/

namespace TestCluster.Common

open Semantics

/-! ### Plain text -/

/-- `divide_string`. -/
def divideString (source : Bytes) (gap : UInt8) : Bytes × Bytes :=
  (source.takeWhile (· ≠ gap), (source.dropWhile (· ≠ gap)).tail)

/-- `"php"`. -/
def php : Bytes := [112, 104, 112]

/-- The user that a plain text names, `none` where it does not name one. -/
def textUid (text : Bytes) : Option Int64 :=
  let (sender, stream) := divideString text 32
  if stream ≠ [] ∧ sender = php then
    let (uid, stream) := divideString stream 32
    if stream ≠ [] then some (atoll uid) else none
  else
    none

/-! ### The service -/

/-- `TimerInfo`. The function is told by the number of the `start_timer` that it was given
to. -/
structure TimerInfo where
  func : ℕ
  uid : Int64
  deriving DecidableEq, Repr

/-- What runs: the callback that a packet is for, the callback of a timer, or `text_message`
and `message`. -/
inductive Handler
  | packet (data : Bytes)
  | timer (func : ℕ)
  | plain
  deriving DecidableEq, Repr

/-- What is recorded: the timer `func` is started with `m_process_uid` at `uid`, an id is
stopped, the function of a timer is called, a handler has `m_process_uid` at `uid`. -/
inductive Record
  | started (func : ℕ) (id : ℤ) (uid : Int64)
  | stopped (id : ℤ)
  | ran (func : ℕ)
  | acting (handler : Handler) (uid : Int64)
  deriving DecidableEq, Repr

/-- `RpcServer`. Its `m_source` and `m_session` are not the ones of `Service`. -/
structure RpcServer where
  callback : Bytes → Bool
  source : ℕ
  session : ℤ
  uid : Int64

/-- `Service`, with `Timer`, `RpcClient` and `RpcServer`. `started` is the number of timers
that were started, and the log has its newest record in front. -/
structure ActingService (F : Type) where
  service : Service F
  server : RpcServer
  timers : ℤ → Option TimerInfo
  source : ℕ
  session : ℤ
  msgType : ℕ
  msgData : Bytes
  processUid : Int64
  started : ℕ
  log : List Record

/-- What a handler does. The sessions are the ones that `skynet_context_newsession`
returns. -/
inductive ServiceOp (F : Type)
  | startTimer (session : ℤ)
  | stopTimer (id : ℤ)
  | rpcCall (session : ℤ) (func : RpcCallback F)
  | rpcCancel (id : ℤ)
  | serviceCallback (name : Bytes)
  | rpcRegester (name : Bytes)
  deriving DecidableEq, Repr

/-- The service does something outside of a message, or a message is delivered and the handler
that it reaches does `ops`. -/
inductive ServiceEvent (F : Type)
  | op (o : ServiceOp F)
  | poll (data : Bytes) (source : ℕ) (session : ℤ) (type : ℕ) (ops : List (ServiceOp F))
  deriving DecidableEq, Repr

/-- `DispatcherStatus`. -/
inductive DispatcherStatus
  | success
  | packError
  | pbError
  | callbackError
  | forbidden
  deriving DecidableEq, Repr

namespace ActingService

variable {F M : Type} (parse : Bytes → Bytes → Option M)

/-- The service after `service_init`. -/
def init (F : Type) : ActingService F where
  service := ⟨fun _ => none, fun _ => false⟩
  server := ⟨fun _ => false, 0, 0, 0⟩
  timers _ := none
  source := 0
  session := 0
  msgType := 0
  msgData := []
  processUid := 0
  started := 0
  log := []

variable (s : ActingService F)

/-- A record is added to the log. -/
def record (r : Record) : ActingService F := { s with log := r :: s.log }

/-- An assignment to `m_process_uid`. -/
def setUid (uid : Int64) : ActingService F := { s with processUid := uid }

/-- `start_timer`. -/
def startTimer (session : ℤ) : ActingService F :=
  { s with
    timers := Function.update s.timers session (some ⟨s.started, s.processUid⟩)
    started := s.started + 1
    log := .started s.started session s.processUid :: s.log }

/-- `m_t.erase`. -/
def eraseTimer (id : ℤ) : ActingService F := { s with timers := Function.update s.timers id none }

/-- `stop_timer`. -/
def stopTimer (id : ℤ) : ActingService F := (s.eraseTimer id).record (.stopped id)

/-- The table `m_rpc` with another entry. -/
def setRpc (session : ℤ) (entry : Option (RpcCallback F)) : ActingService F :=
  { s with service := { s.service with rpc := Function.update s.service.rpc session entry } }

/-- `service_callback`. -/
def serviceCallback (name : Bytes) : ActingService F :=
  { s with service := { s.service with dsp := Function.update s.service.dsp name true } }

/-- `rpc_regester`. -/
def rpcRegester (name : Bytes) : ActingService F :=
  { s with server := { s.server with callback := Function.update s.server.callback name true } }

/-- One operation. -/
def perform (s : ActingService F) : ServiceOp F → ActingService F
  | .startTimer session => s.startTimer session
  | .stopTimer id => s.stopTimer id
  | .rpcCall session func => s.setRpc session (some func)
  | .rpcCancel id => s.setRpc id none
  | .serviceCallback name => s.serviceCallback name
  | .rpcRegester name => s.rpcRegester name

/-- The user that the handler runs for is recorded. -/
def note (handler : Handler) : ActingService F := s.record (.acting handler s.processUid)

/-- A handler runs: the user is recorded in front, and behind each thing that it does. -/
def handle (handler : Handler) (ops : List (ServiceOp F)) : ActingService F :=
  ops.foldl (fun s o => (s.perform o).note handler) (s.note handler)

/-- A packet is dispatched: it is decoded, a callback for its type is looked up, and its
message is parsed before the callback runs. -/
def dispatchPack (callback : Bytes → Bool) (run : InPack → ActingService F) (data : Bytes)
    (size : ℕ) : Except Breach (ActingService F × DispatcherStatus) := do
  let pack ← Checked.innerReset .new data size
  if ¬ pack.2 then
    return (s, .packError)
  else if callback pack.1.typeName then
    match createMessage parse data pack.1 with
    | none => return (s, .pbError)
    | some _ => return (run pack.1, .success)
  else
    return (s, .callbackError)

/-- `DispatcherT::dispatch_message`. -/
def dispatchMessage (data : Bytes) (size : ℕ) (ops : List (ServiceOp F)) :
    Except Breach (ActingService F × DispatcherStatus) :=
  s.dispatchPack parse s.service.dsp (fun _ => s.handle (.packet data) ops) data size

/-- `Service::proto`. -/
def proto (data : Bytes) (size : ℕ) (ops : List (ServiceOp F)) :
    Except Breach (ActingService F) := do
  let uid ← Checked.getUidFromStream data
  let r ← (s.setUid uid.toInt64).dispatchMessage parse data size ops
  if r.2 = .callbackError then
    -- decoded again for the log
    let _pack ← Checked.innerReset .new data size
    return r.1.setUid 0
  else
    return r.1.setUid 0

/-- `RpcServer::rpc_event_server`. -/
def rpcEventServer (data : Bytes) (size : ℕ) (source : ℕ) (session : ℤ)
    (ops : List (ServiceOp F)) : Except Breach (ActingService F × DispatcherStatus) :=
  s.dispatchPack parse s.server.callback (fun pack =>
    let server := { s.server with source := source, session := session, uid := pack.uid }
    ({ s with server := server }).handle (.packet data) ops) data size

/-- `RpcClient::rpc_event_client`. -/
def rpcEventClient (data : Bytes) (size : ℕ) (session : ℤ) (ops : List (ServiceOp F)) :
    Except Breach (ActingService F) :=
  match s.service.rpc session with
  | none => .ok s
  | some .null => .ok s
  | some (.func _) => do
    let pack ← Checked.innerReset .new data size
    if ¬ pack.2 then
      return s
    else
      match createMessage parse data pack.1 with
      | none => return s
      | some _ => return (s.handle (.packet data) ops).setRpc session none

/-- `Timer::timer_timeout`. -/
def timerTimeout (id : ℤ) (ops : List (ServiceOp F)) : ActingService F :=
  match s.timers id with
  | none => s
  | some info =>
    ((((s.setUid info.uid).record (.ran info.func)).handle (.timer info.func) ops).setUid
      0).eraseTimer id

/-- The branch `SUBTYPE_PLAIN_TEXT`. -/
def plainText (text : Bytes) (ops : List (ServiceOp F)) : ActingService F :=
  let s := match textUid text with
    | none => s
    | some uid => s.setUid uid
  (s.handle .plain ops).setUid 0

/-- The branch `PTYPE_TEXT`. -/
def pollText (data : Bytes) (source : ℕ) (session : ℤ) (ops : List (ServiceOp F)) :
    Except Breach (ActingService F) := do
  let subType := htonl (leNat (← Checked.read data 0 4))
  let size ← Checked.remaining data.length 4
  let data := data.drop 4
  if subType = subtypeProtobuf ∨ subType = subtypeSystem then
    s.proto parse data size ops
  else if subType = subtypeRpcServer then
    let uid ← Checked.getUidFromStream data
    let r ← (s.setUid uid.toInt64).rpcEventServer parse data size source session ops
    return r.1.setUid 0
  else if subType = subtypePlainText then
    return s.plainText data ops
  else
    return s

/-- The branch `PTYPE_RESPONSE`. -/
def pollResponse (data : Bytes) (source : ℕ) (session : ℤ) (ops : List (ServiceOp F)) :
    Except Breach (ActingService F) :=
  if source = 0 then
    return s.timerTimeout session ops
  else do
    let subType := htonl (leNat (← Checked.read data 0 4))
    let size ← Checked.remaining data.length 4
    let data := data.drop 4
    if subType = subtypeRpcClient then
      let uid ← Checked.getUidFromStream data
      let s ← (s.setUid uid.toInt64).rpcEventClient parse data size session ops
      return s.setUid 0
    else
      return s

/-- The `switch` of `service_poll`. -/
def pollType (data : Bytes) (source : ℕ) (session : ℤ) (type : ℕ) (ops : List (ServiceOp F)) :
    Except Breach (ActingService F) :=
  if type = ptypeText then s.pollText parse data source session ops
  else if type = ptypeClient then return s.handle .plain ops
  else if type = ptypeResponse then s.pollResponse parse data source session ops
  else return s

/-- `Service::service_poll`. -/
def servicePoll (data : Bytes) (source : ℕ) (session : ℤ) (type : ℕ)
    (ops : List (ServiceOp F)) : Except Breach (ActingService F) := do
  let msgData ← Checked.read data 0 data.length
  let s := { s with source := source, session := session, msgType := type, msgData := msgData }
  let s ← s.pollType parse data source session type ops
  return { s with source := 0, session := 0 }

/-- One event. A message that is too short for its fields has no next state. -/
def step (s : ActingService F) : ServiceEvent F → Option (ActingService F)
  | .op o => some (s.perform o)
  | .poll data source session type ops =>
    (s.servicePoll parse data source session type ops).toOption

end ActingService

/-! ### What is recorded -/

/-- The user of a packet: eight bytes, the most significant one first. -/
def packetUid (data : Bytes) : Int64 := (UInt64.ofNat (beNat (data.take 8))).toInt64

/-- The user is the right one for the handler: that of its packet, or the one that its timer
was started for. -/
def Acts (log : List Record) : Handler → Int64 → Prop
  | .packet data, uid => uid = packetUid data
  | .timer func, uid => ∃ id, .started func id uid ∈ log
  | .plain, _ => True

/-- The timer `func` was started with the id, which was not stopped since, and its function
was not called. -/
def Waiting (log : List Record) (func : ℕ) (id : ℤ) (uid : Int64) : Prop :=
  .ran func ∉ log ∧
    ∃ newer older, log = newer ++ .started func id uid :: older ∧ .stopped id ∉ newer

/-- The record agrees with the older ones. -/
def Justified (older : List Record) : Record → Prop
  | .started func _ _ => ∀ id uid, .started func id uid ∉ older
  | .stopped _ => True
  | .ran func => ∃ id uid, Waiting older func id uid
  | .acting handler uid => Acts older handler uid

/-- Every record agrees with the ones before it. -/
def Right (log : List Record) : Prop :=
  ∀ newer r older, log = newer ++ r :: older → Justified older r

section Log

variable {log log' newer older newer' older' : List Record} {func : ℕ} {id id' : ℤ}
  {uid uid' : Int64} {r : Record}

theorem right_nil : Right [] := by
  intro newer r older h
  exact absurd h.symm (List.append_ne_nil_of_right_ne_nil _ (List.cons_ne_nil _ _))

theorem Right.cons (h : Right log) (hr : Justified log r) : Right (r :: log) := by
  intro newer r' older heq
  cases newer with
  | nil =>
    obtain ⟨rfl, rfl⟩ := List.cons.inj heq
    exact hr
  | cons _ newer => exact h newer r' older (List.cons.inj heq).2

theorem Acts.mono {handler : Handler} (h : Acts log handler uid) (hsub : log ⊆ log') :
    Acts log' handler uid := by
  cases handler with
  | packet data => exact h
  | timer func =>
    obtain ⟨id, hid⟩ := h
    exact ⟨id, hsub hid⟩
  | plain => trivial

theorem Waiting.started (h : Waiting log func id uid) : .started func id uid ∈ log := by
  obtain ⟨-, newer, older, rfl, -⟩ := h
  exact List.mem_append_right _ List.mem_cons_self

/-- A record that neither calls the function nor stops the id leaves the timer waiting. -/
theorem Waiting.cons (h : Waiting log func id uid) (hran : r ≠ .ran func)
    (hstopped : r ≠ .stopped id) : Waiting (r :: log) func id uid := by
  obtain ⟨hnot, newer, older, rfl, hnewer⟩ := h
  refine ⟨List.not_mem_cons_of_ne_of_not_mem hran.symm hnot, r :: newer, older, rfl, ?_⟩
  exact List.not_mem_cons_of_ne_of_not_mem hstopped.symm hnewer

/-- Nothing lies between a record of a timer and one behind it, if none is among the older ones. -/
private theorem started_between {between : List Record}
    (hnot : ∀ id' uid', .started func id' uid' ∉ older)
    (htail : .started func id uid :: older = between ++ .started func id' uid' :: older') :
    between = [] ∧ id = id' ∧ uid = uid' ∧ older = older' := by
  cases between with
  | nil =>
    obtain ⟨hhead, rfl⟩ := List.cons.inj htail
    obtain ⟨-, rfl, rfl⟩ := Record.started.inj hhead
    exact ⟨rfl, rfl, rfl, rfl⟩
  | cons r between =>
    -- the second record would be older than the first one
    obtain ⟨-, rfl⟩ := List.cons.inj htail
    exact absurd (List.mem_append_right _ List.mem_cons_self) (hnot id' uid')

/-- A timer is started once: two records of it are at one place of the log. -/
theorem Right.started_unique (h : Right log)
    (heq : log = newer ++ .started func id uid :: older)
    (heq' : log = newer' ++ .started func id' uid' :: older') :
    newer = newer' ∧ id = id' ∧ uid = uid' ∧ older = older' := by
  have hfirst := h newer _ older heq
  have hsecond := h newer' _ older' heq'
  rcases List.append_eq_append_iff.mp (heq.symm.trans heq') with
    ⟨between, rfl, htail⟩ | ⟨between, rfl, htail⟩
  · obtain ⟨rfl, rfl, rfl, rfl⟩ := started_between hfirst htail
    exact ⟨(List.append_nil newer).symm, rfl, rfl, rfl⟩
  · obtain ⟨rfl, rfl, rfl, rfl⟩ := started_between hsecond htail
    exact ⟨List.append_nil newer', rfl, rfl, rfl⟩

/-- The user and the id of a timer are told by its number. -/
theorem Right.started_eq (h : Right log) (hfirst : .started func id uid ∈ log)
    (hsecond : .started func id' uid' ∈ log) : id = id' ∧ uid = uid' := by
  obtain ⟨newer, older, heq⟩ := List.append_of_mem hfirst
  obtain ⟨newer', older', heq'⟩ := List.append_of_mem hsecond
  obtain ⟨-, hid, huid, -⟩ := h.started_unique heq heq'
  exact ⟨hid, huid⟩

theorem Right.started_of_ran (h : Right log) (hran : .ran func ∈ log) :
    ∃ id uid, .started func id uid ∈ log := by
  obtain ⟨newer, older, rfl⟩ := List.append_of_mem hran
  obtain ⟨id, uid, hwaiting⟩ := h newer _ older rfl
  exact ⟨id, uid, List.mem_append_right _ (List.mem_cons_of_mem _ hwaiting.started)⟩

end Log

namespace ActingService

variable {F M : Type} {parse : Bytes → Bytes → Option M} {s s' : ActingService F}
  {busy : Option ℤ} {handler : Handler} {o : ServiceOp F} {ops : List (ServiceOp F)}

/-! ### The invariant -/

/-- The log is right, and the timers of the table are waiting, except for the one whose
function runs. -/
structure Inv (busy : Option ℤ) (s : ActingService F) : Prop where
  right : Right s.log
  bound : ∀ func id uid, .started func id uid ∈ s.log → func < s.started
  waiting : ∀ id info, s.timers id = some info → busy ≠ some id →
    Waiting s.log info.func id info.uid

theorem inv_init : Inv none (init F) where
  right := right_nil
  bound _ _ _ h := nomatch h
  waiting _ _ h := nomatch h

theorem Inv.setUid (h : s.Inv busy) (uid : Int64) : (s.setUid uid).Inv busy :=
  ⟨h.right, h.bound, h.waiting⟩

theorem Inv.setRpc (h : s.Inv busy) (session : ℤ) (entry : Option (RpcCallback F)) :
    (s.setRpc session entry).Inv busy := ⟨h.right, h.bound, h.waiting⟩

/-- A handler that runs for the right user is recorded. -/
theorem Inv.note (h : s.Inv busy) (hacts : Acts s.log handler s.processUid) :
    (s.note handler).Inv busy where
  right := h.right.cons hacts
  bound func id uid hmem := h.bound func id uid (List.mem_of_ne_of_mem (by simp) hmem)
  waiting id info hinfo hbusy := (h.waiting id info hinfo hbusy).cons (by simp) (by simp)

/-- A timer that is started waits, with a number that no timer had before. -/
theorem Inv.startTimer (h : s.Inv busy) (session : ℤ) : (s.startTimer session).Inv busy := by
  have hfresh : ∀ id uid, .started s.started id uid ∉ s.log := by
    intro id uid hmem
    exact absurd (h.bound _ _ _ hmem) (lt_irrefl _)
  refine ⟨h.right.cons hfresh, ?_, ?_⟩
  · intro func id uid hmem
    rcases List.mem_cons.mp hmem with heq | hmem
    · obtain ⟨rfl, -, -⟩ := Record.started.inj heq
      exact Nat.lt_succ_self _
    · exact Nat.lt_succ_of_lt (h.bound func id uid hmem)
  · intro id info hinfo hbusy
    rcases update_cases hinfo with ⟨rfl, hnew⟩ | ⟨-, hinfo⟩
    · obtain rfl := Option.some.inj hnew
      refine ⟨?_, [], s.log, rfl, List.not_mem_nil⟩
      -- what was called was started before, and has a smaller number
      apply List.not_mem_cons_of_ne_of_not_mem (by simp)
      intro hran
      obtain ⟨id', uid', hstarted⟩ := h.right.started_of_ran hran
      exact hfresh id' uid' hstarted
    · exact (h.waiting id info hinfo hbusy).cons (by simp) (by simp)

theorem Inv.stopTimer (h : s.Inv busy) (id : ℤ) : (s.stopTimer id).Inv busy where
  right := h.right.cons trivial
  bound func id' uid hmem := h.bound func id' uid (List.mem_of_ne_of_mem (by simp) hmem)
  waiting id' info hinfo hbusy := by
    -- the timers with another id are left
    obtain ⟨hne, hinfo⟩ := update_none_eq_some hinfo
    exact (h.waiting id' info hinfo hbusy).cons (by simp) (by simp [hne.symm])

/-- **An operation keeps the invariant.** -/
theorem Inv.perform (h : s.Inv busy) (o : ServiceOp F) : (s.perform o).Inv busy := by
  cases o with
  | startTimer session => exact h.startTimer session
  | stopTimer id => exact h.stopTimer id
  | rpcCall session func => exact h.setRpc session (some func)
  | rpcCancel id => exact h.setRpc id none
  | serviceCallback name => exact ⟨h.right, h.bound, h.waiting⟩
  | rpcRegester name => exact ⟨h.right, h.bound, h.waiting⟩

/-! ### Handlers -/

@[simp] theorem setUid_processUid (uid : Int64) : (s.setUid uid).processUid = uid := rfl

@[simp] theorem note_processUid : (s.note handler).processUid = s.processUid := rfl

/-- No operation assigns `m_process_uid`. -/
@[simp] theorem perform_processUid (s : ActingService F) (o : ServiceOp F) :
    (s.perform o).processUid = s.processUid := by
  cases o <;> rfl

theorem perform_source (s : ActingService F) (o : ServiceOp F) :
    (s.perform o).source = s.source ∧ (s.perform o).session = s.session := by
  cases o <;> exact ⟨rfl, rfl⟩

/-- An operation only adds to the log. -/
theorem log_subset_perform (s : ActingService F) (o : ServiceOp F) :
    s.log ⊆ (s.perform o).log := by
  intro r hr
  cases o with
  | startTimer session => exact List.mem_cons_of_mem _ hr
  | stopTimer id => exact List.mem_cons_of_mem _ hr
  | _ => exact hr

/-- What a handler does, and the records of its user, keep the invariant and the user. -/
theorem Inv.foldl (h : s.Inv busy) (hacts : Acts s.log handler s.processUid) :
    (ops.foldl (fun s o => (s.perform o).note handler) s).Inv busy ∧
      (ops.foldl (fun s o => (s.perform o).note handler) s).processUid = s.processUid := by
  induction ops generalizing s with
  | nil => exact ⟨h, rfl⟩
  | cons o ops ih =>
    have hperform : Acts (s.perform o).log handler (s.perform o).processUid := by
      rw [perform_processUid]
      exact hacts.mono (log_subset_perform s o)
    obtain ⟨hinv, huid⟩ := ih ((h.perform o).note hperform)
      (hperform.mono (List.subset_cons_self _ _))
    exact ⟨hinv, huid.trans (perform_processUid s o)⟩

/-- **A handler that runs for the right user keeps the invariant**, and runs for this user to
its end. -/
theorem Inv.handle (h : s.Inv busy) (hacts : Acts s.log handler s.processUid) :
    (s.handle handler ops).Inv busy ∧ (s.handle handler ops).processUid = s.processUid :=
  (h.note hacts).foldl (hacts.mono (List.subset_cons_self _ _))

/-! ### The branches of `service_poll` -/

section Branches

variable {data : Bytes} {size source : ℕ} {session : ℤ} {uid : UInt64}

/-- Between two messages the invariant holds, and no user is processed. -/
structure Cleared (s : ActingService F) : Prop where
  inv : s.Inv none
  uid : s.processUid = 0

theorem Inv.cleared (h : s.Inv none) : (s.setUid 0).Cleared := ⟨h.setUid 0, rfl⟩

theorem packetUid_eq (h : Checked.getUidFromStream data = .ok uid) :
    uid.toInt64 = packetUid data := by
  obtain ⟨bs, hbs, h⟩ := bind_ok h
  unfold Checked.read at hbs
  split_ifs at hbs with hlen
  have hswap := swapBytes_leNat (data.take 8)
  rw [List.length_take, min_eq_left (by omega)] at hswap
  rw [← Except.ok.inj h, ← Except.ok.inj hbs, List.drop_zero, ntoh64, hswap, packetUid]

/-- A packet that is dispatched runs its callback, or nothing. -/
theorem dispatchPack_cases {callback : Bytes → Bool} {run : InPack → ActingService F}
    {r : ActingService F × DispatcherStatus}
    (h : s.dispatchPack parse callback run data size = .ok r) :
    r.1 = s ∨ ∃ pack, r.1 = run pack := by
  obtain ⟨pack, -, h⟩ := bind_ok h
  split_ifs at h with hpack hcallback
  · split at h
    · rw [← Except.ok.inj h]
      exact Or.inl rfl
    · rw [← Except.ok.inj h]
      exact Or.inr ⟨pack.1, rfl⟩
  · rw [← Except.ok.inj h]
    exact Or.inl rfl
  · rw [← Except.ok.inj h]
    exact Or.inl rfl

/-- A response runs the function of its call, or nothing. -/
theorem rpcEventClient_cases (h : s.rpcEventClient parse data size session ops = .ok s') :
    s' = s ∨ s' = (s.handle (.packet data) ops).setRpc session none := by
  rw [rpcEventClient] at h
  split at h
  · exact Or.inl (Except.ok.inj h).symm
  · exact Or.inl (Except.ok.inj h).symm
  · obtain ⟨pack, -, h⟩ := bind_ok h
    split_ifs at h with hpack
    · split at h
      · exact Or.inl (Except.ok.inj h).symm
      · exact Or.inr (Except.ok.inj h).symm
    · exact Or.inl (Except.ok.inj h).symm

/-- The handler of a packet runs for the user that was read from it. -/
theorem Inv.handle_packet (h : s.Inv none) (huid : Checked.getUidFromStream data = .ok uid)
    (hs : s.processUid = uid.toInt64) : (s.handle (.packet data) ops).Inv none := by
  have hacts : Acts s.log (.packet data) s.processUid := hs.trans (packetUid_eq huid)
  exact (h.handle hacts).1

theorem Inv.proto (h : s.Inv none) (hs : s.proto parse data size ops = .ok s') :
    s'.Cleared := by
  obtain ⟨uid, huid, hs⟩ := bind_ok hs
  obtain ⟨r, hr, hs⟩ := bind_ok hs
  have hinv : r.1.Inv none := by
    rcases dispatchPack_cases hr with heq | ⟨pack, heq⟩
    · rw [heq]
      exact h.setUid _
    · rw [heq]
      exact (h.setUid _).handle_packet huid rfl
  split_ifs at hs
  · obtain ⟨_, -, hs⟩ := bind_ok hs
    rw [← Except.ok.inj hs]
    exact hinv.cleared
  · rw [← Except.ok.inj hs]
    exact hinv.cleared

theorem Inv.rpcEventServer {r : ActingService F × DispatcherStatus} (h : s.Inv none)
    (huid : Checked.getUidFromStream data = .ok uid)
    (hr : (s.setUid uid.toInt64).rpcEventServer parse data size source session ops = .ok r) :
    r.1.Inv none := by
  rcases dispatchPack_cases hr with heq | ⟨pack, heq⟩
  · rw [heq]
    exact h.setUid _
  · rw [heq]
    have hserver : ∀ server, ({ s.setUid uid.toInt64 with server := server }).Inv none :=
      fun _ => ⟨h.right, h.bound, h.waiting⟩
    exact (hserver _).handle_packet huid rfl

theorem Inv.rpcEventClient (h : s.Inv none) (huid : Checked.getUidFromStream data = .ok uid)
    (hs : (s.setUid uid.toInt64).rpcEventClient parse data size session ops = .ok s') :
    s'.Inv none := by
  rcases rpcEventClient_cases hs with rfl | rfl
  · exact h.setUid _
  · exact ((h.setUid _).handle_packet huid rfl).setRpc session none

/-- `text_message` and `message` run for any user. -/
theorem Inv.handle_plain (h : s.Inv none) (ops : List (ServiceOp F)) :
    (s.handle .plain ops).Inv none ∧ (s.handle .plain ops).processUid = s.processUid :=
  have hacts : Acts s.log .plain s.processUid := trivial
  h.handle hacts

/-- A timer runs its function for the user that it was started for, and is taken out. -/
theorem Cleared.timerTimeout (h : s.Cleared) (id : ℤ) (ops : List (ServiceOp F)) :
    (s.timerTimeout id ops).Cleared := by
  rw [ActingService.timerTimeout]
  split
  · exact h
  next info hinfo =>
    have hwaiting := h.inv.waiting id info hinfo (fun hnone => nomatch hnone)
    -- from here on the entry is not waiting any more
    have hran : ((s.setUid info.uid).record (.ran info.func)).Inv (some id) := by
      refine ⟨h.inv.right.cons ⟨id, info.uid, hwaiting⟩, ?_, ?_⟩
      · intro func id' uid hmem
        exact h.inv.bound func id' uid (List.mem_of_ne_of_mem (by simp) hmem)
      · intro id' info' hinfo' hbusy
        have hother := h.inv.waiting id' info' hinfo' (fun hnone => nomatch hnone)
        apply hother.cons _ (by simp)
        -- one function is not in the table under two ids
        intro heq
        rw [Record.ran.inj heq] at hwaiting
        exact hbusy (congrArg some (h.inv.right.started_eq hwaiting.started hother.started).1)
    have hacts : Acts (.ran info.func :: s.log) (.timer info.func) info.uid :=
      ⟨id, List.mem_cons_of_mem _ hwaiting.started⟩
    have hinv := (@Inv.handle F _ _ (.timer info.func) ops hran hacts).1
    refine ⟨⟨hinv.right, hinv.bound, fun id' info' hinfo' _ => ?_⟩, rfl⟩
    obtain ⟨hne, hinfo'⟩ := update_none_eq_some hinfo'
    exact hinv.waiting id' info' hinfo' fun heq => hne (Option.some.inj heq).symm

theorem Cleared.plainText (h : s.Cleared) (text : Bytes) (ops : List (ServiceOp F)) :
    (s.plainText text ops).Cleared := by
  rw [ActingService.plainText]
  split
  · exact (h.inv.handle_plain ops).1.cleared
  · exact ((h.inv.setUid _).handle_plain ops).1.cleared

theorem Cleared.pollText (h : s.Cleared)
    (hs : s.pollText parse data source session ops = .ok s') : s'.Cleared := by
  obtain ⟨_, -, hs⟩ := bind_ok hs
  obtain ⟨size, -, hs⟩ := bind_ok hs
  split_ifs at hs
  · exact h.inv.proto hs
  · obtain ⟨uid, huid, hs⟩ := bind_ok hs
    obtain ⟨r, hr, hs⟩ := bind_ok hs
    rw [← Except.ok.inj hs]
    exact (h.inv.rpcEventServer huid hr).cleared
  · rw [← Except.ok.inj hs]
    exact h.plainText _ ops
  · rw [← Except.ok.inj hs]
    exact h

theorem Cleared.pollResponse (h : s.Cleared)
    (hs : s.pollResponse parse data source session ops = .ok s') : s'.Cleared := by
  rw [ActingService.pollResponse] at hs
  split_ifs at hs with hsource
  · rw [← Except.ok.inj hs]
    exact h.timerTimeout session ops
  · obtain ⟨_, -, hs⟩ := bind_ok hs
    obtain ⟨size, -, hs⟩ := bind_ok hs
    split_ifs at hs
    · obtain ⟨uid, huid, hs⟩ := bind_ok hs
      obtain ⟨s₁, hs₁, hs⟩ := bind_ok hs
      rw [← Except.ok.inj hs]
      exact (h.inv.rpcEventClient huid hs₁).cleared
    · rw [← Except.ok.inj hs]
      exact h

theorem Cleared.pollType {type : ℕ} (h : s.Cleared)
    (hs : s.pollType parse data source session type ops = .ok s') : s'.Cleared := by
  rw [ActingService.pollType] at hs
  split_ifs at hs
  · exact h.pollText hs
  · obtain ⟨hinv, huid⟩ := h.inv.handle_plain ops
    rw [← Except.ok.inj hs]
    exact ⟨hinv, huid.trans h.uid⟩
  · exact h.pollResponse hs
  · rw [← Except.ok.inj hs]
    exact h

/-- **Every branch clears the user**, and the source and the session are cleared behind it. -/
theorem Cleared.servicePoll {type : ℕ} (h : s.Cleared)
    (hs : s.servicePoll parse data source session type ops = .ok s') :
    s'.Cleared ∧ s'.source = 0 ∧ s'.session = 0 := by
  obtain ⟨msgData, -, hs⟩ := bind_ok hs
  obtain ⟨s₁, hs₁, hs⟩ := bind_ok hs
  have hassigned : ({ s with
      source := source, session := session, msgType := type, msgData := msgData }).Cleared :=
    ⟨⟨h.inv.right, h.inv.bound, h.inv.waiting⟩, h.uid⟩
  have hcleared := hassigned.pollType hs₁
  rw [← Except.ok.inj hs]
  exact ⟨⟨⟨hcleared.inv.right, hcleared.inv.bound, hcleared.inv.waiting⟩, hcleared.uid⟩, rfl, rfl⟩

end Branches

/-! ### Delivery -/

section Delivery

variable {data : Bytes} {size source : ℕ} {session : ℤ} {type : ℕ} {pack : InPack × Bool}
  {polled : Polled F}

theorem dispatchPack_ok (h : Checked.innerReset .new data size = .ok pack)
    (callback : Bytes → Bool) (run : InPack → ActingService F) :
    ∃ r, s.dispatchPack parse callback run data size = .ok r := by
  rw [dispatchPack, h, ok_bind]
  split_ifs
  · split
    · exact ⟨_, rfl⟩
    · exact ⟨_, rfl⟩
  · exact ⟨_, rfl⟩
  · exact ⟨_, rfl⟩

theorem dispatchMessage_ok (h : Checked.innerReset .new data size = .ok pack) :
    ∃ r, s.dispatchMessage parse data size ops = .ok r :=
  dispatchPack_ok h ..

theorem rpcEventServer_ok (h : Checked.innerReset .new data size = .ok pack) :
    ∃ r, s.rpcEventServer parse data size source session ops = .ok r :=
  dispatchPack_ok h ..

theorem rpcEventClient_ok {uid : UInt64}
    (h : Common.rpcEventClient s.service uid data size session = .ok polled) :
    ∃ s', s.rpcEventClient parse data size session ops = .ok s' := by
  cases hrpc : s.service.rpc session with
  | none => exact ⟨s, by simp only [rpcEventClient, hrpc]⟩
  | some callback =>
    cases callback with
    | null => exact ⟨s, by simp only [rpcEventClient, hrpc]⟩
    | func f =>
      simp only [Common.rpcEventClient, hrpc] at h
      obtain ⟨pack, hpack, -⟩ := bind_ok h
      simp only [rpcEventClient, hrpc, hpack, ok_bind]
      split_ifs
      · split
        · exact ⟨_, rfl⟩
        · exact ⟨_, rfl⟩
      · exact ⟨_, rfl⟩

theorem proto_ok {service : Service F} (h : Common.proto service data size = .ok polled) :
    ∃ s', s.proto parse data size ops = .ok s' := by
  obtain ⟨uid, huid, h⟩ := bind_ok h
  obtain ⟨pack, hpack, -⟩ := bind_ok h
  obtain ⟨r, hr⟩ := @dispatchMessage_ok F M parse (s.setUid uid.toInt64) ops _ _ _ hpack
  rw [proto, huid, ok_bind, hr, ok_bind]
  split_ifs
  · rw [hpack, ok_bind]
    exact ⟨_, rfl⟩
  · exact ⟨_, rfl⟩

/-- A message whose parts can be read reaches the end of its branch. -/
theorem pollType_ok (h : Common.servicePoll s.service data source session type = .ok polled) :
    ∃ s', s.pollType parse data source session type ops = .ok s' := by
  obtain ⟨msgData, -, h⟩ := bind_ok h
  rw [pollType]
  simp only at h
  split_ifs at h ⊢ with htext hclient hresponse
  · -- a text message
    obtain ⟨field, hfield, h⟩ := bind_ok h
    obtain ⟨size, hsize, h⟩ := bind_ok h
    rw [pollText, hfield, ok_bind, hsize, ok_bind]
    simp only at h ⊢
    split_ifs at h ⊢
    · exact proto_ok h
    · obtain ⟨uid, huid, h⟩ := bind_ok h
      obtain ⟨pack, hpack, -⟩ := bind_ok h
      obtain ⟨r, hr⟩ := rpcEventServer_ok hpack
      rw [huid, ok_bind, hr, ok_bind]
      exact ⟨_, rfl⟩
    · exact ⟨_, rfl⟩
    · exact ⟨_, rfl⟩
  · exact ⟨_, rfl⟩
  · -- a timer
    rw [pollResponse, if_pos ‹source = 0›]
    exact ⟨_, rfl⟩
  · obtain ⟨field, hfield, h⟩ := bind_ok h
    obtain ⟨size, hsize, h⟩ := bind_ok h
    rw [pollResponse, if_neg ‹¬ source = 0›, hfield, ok_bind, hsize, ok_bind]
    simp only at h ⊢
    split_ifs at h ⊢
    · obtain ⟨uid, huid, h⟩ := bind_ok h
      obtain ⟨s', hs'⟩ := @rpcEventClient_ok F M parse (s.setUid uid.toInt64) ops _ _ _ _ _ h
      rw [huid, ok_bind, hs', ok_bind]
      exact ⟨_, rfl⟩
    · exact ⟨_, rfl⟩
  · exact ⟨_, rfl⟩

/-- **Messages that are long enough for their fields are delivered.** -/
theorem servicePoll_ok (s : ActingService F) (ops : List (ServiceOp F))
    (hlt : data.length < 2 ^ 32) (h : LongEnough s.service data source session type) :
    ∃ s', step parse s (.poll data source session type ops) = some s' := by
  obtain ⟨polled, hpolled, -⟩ := (servicePoll_inside_iff hlt).1.mpr h
  obtain ⟨msgData, hdata, -⟩ := bind_ok hpolled
  obtain ⟨s', hs'⟩ := @pollType_ok F M parse { s with
    source := source, session := session, msgType := type, msgData := msgData } ops _ _ _ _ _
    hpolled
  refine ⟨{ s' with source := 0, session := 0 }, ?_⟩
  rw [step, servicePoll, hdata, ok_bind]
  simp only [hs', ok_bind]
  rfl

end Delivery

/-! ### Every run -/

/-- Between two messages no user is processed, and no source and session are left. -/
structure Idle (s : ActingService F) : Prop where
  cleared : s.Cleared
  source : s.source = 0
  session : s.session = 0

theorem Idle.step {e : ServiceEvent F} (h : s.Idle) (hs : step parse s e = some s') :
    s'.Idle := by
  cases e with
  | op o =>
    obtain rfl := Option.some.inj hs
    obtain ⟨hsource, hsession⟩ := perform_source s o
    refine ⟨⟨h.cleared.inv.perform o, ?_⟩, hsource.trans h.source, hsession.trans h.session⟩
    exact (perform_processUid s o).trans h.cleared.uid
  | poll data source session type ops =>
    have hpoll : s.servicePoll parse data source session type ops = .ok s' := by
      rw [ActingService.step] at hs
      cases hr : s.servicePoll parse data source session type ops with
      | error e =>
        rw [hr] at hs
        exact nomatch hs
      | ok s₁ =>
        rw [hr] at hs
        exact congrArg Except.ok (Option.some.inj hs)
    obtain ⟨hcleared, hsource, hsession⟩ := h.cleared.servicePoll hpoll
    exact ⟨hcleared, hsource, hsession⟩

end ActingService

/-! ### What the log says -/

section Log

variable {log : List Record}

/-- The user of a handler is the one of its packet. -/
theorem Right.packet (h : Right log) {data : Bytes} {uid : Int64}
    (hmem : .acting (.packet data) uid ∈ log) : uid = packetUid data := by
  obtain ⟨newer, older, rfl⟩ := List.append_of_mem hmem
  exact h newer _ older rfl

/-- The user of a timer is the one that it was started for, once. -/
theorem Right.timer (h : Right log) {func : ℕ} {uid : Int64}
    (hmem : .acting (.timer func) uid ∈ log) :
    ∃ id, ∀ id' uid', .started func id' uid' ∈ log ↔ id' = id ∧ uid' = uid := by
  obtain ⟨newer, older, heq⟩ := List.append_of_mem hmem
  obtain ⟨id, hid⟩ := h newer _ older heq
  have hstarted : .started func id uid ∈ log := by
    rw [heq]
    exact List.mem_append_right _ (List.mem_cons_of_mem _ hid)
  refine ⟨id, fun id' uid' => ⟨fun hmem' => h.started_eq hmem' hstarted, ?_⟩⟩
  rintro ⟨rfl, rfl⟩
  exact hstarted

/-- A function is called at most once. -/
theorem Right.count_ran (h : Right log) (func : ℕ) : log.count (.ran func) ≤ 1 := by
  induction log with
  | nil => exact Nat.zero_le _
  | cons r log ih =>
    have htail : Right log := fun newer r' older heq => h (r :: newer) r' older (by rw [heq]; rfl)
    by_cases hr : r = .ran func
    · subst hr
      obtain ⟨id, uid, hnot, -⟩ := h [] _ log rfl
      rw [List.count_cons_self, List.count_eq_zero.mpr hnot]
    · rw [List.count_cons_of_ne hr]
      exact ih htail

/-- A function is not called after its id was stopped. -/
theorem Right.not_ran_of_stopped (h : Right log) {newest middle oldest : List Record} {func : ℕ}
    {id : ℤ} {uid : Int64}
    (heq : log = newest ++ .stopped id :: (middle ++ .started func id uid :: oldest)) :
    .ran func ∉ newest := by
  intro hran
  obtain ⟨newer, older, rfl⟩ := List.append_of_mem hran
  obtain ⟨id', uid', -, newer', older', holder, hnot⟩ :=
    h newer (.ran func) (older ++ .stopped id :: (middle ++ .started func id uid :: oldest))
      (by rw [heq, List.append_assoc, List.cons_append])
  -- both splits are at the place where the timer was started
  have hsplit : log = (newer ++ .ran func :: (older ++ .stopped id :: middle)) ++
      .started func id uid :: oldest := by
    rw [heq]
    simp only [List.append_assoc, List.cons_append]
  have hsplit' : log = (newer ++ .ran func :: newer') ++ .started func id' uid' :: older' := by
    rw [heq, List.append_assoc, List.cons_append, holder]
    simp only [List.append_assoc, List.cons_append]
  obtain ⟨hnewer, rfl, -, -⟩ := h.started_unique hsplit hsplit'
  obtain ⟨-, rfl⟩ := List.cons.inj (List.append_cancel_left hnewer)
  exact hnot (List.mem_append_right _ List.mem_cons_self)

end Log

namespace ActingService

variable {F M : Type} {parse : Bytes → Bytes → Option M} {s : ActingService F}

theorem idle_of_reachable (h : Reachable (step parse) anyStep (init F) s) : s.Idle := by
  apply h.invariant
  · exact ⟨⟨inv_init, rfl⟩, rfl, rfl⟩
  · intro s e s' hs _ hstep
    exact hs.step hstep

/-- **The acting user is the right one, and is cleared between messages.** In every run, in
which every message that is long enough for its fields is delivered: after an event no user,
no source and no session are left; the callback of a packet runs for the user of the packet;
and the function of a timer is called at most once, never after its id was stopped, and runs
for the user at its start. -/
theorem acting_uid (h : Reachable (step parse) anyStep (init F) s) :
    (s.processUid = 0 ∧ s.source = 0 ∧ s.session = 0) ∧
      (∀ data source session type ops, data.length < 2 ^ 32 →
        LongEnough s.service data source session type →
        ∃ s', step parse s (.poll data source session type ops) = some s') ∧
      (∀ data uid, .acting (.packet data) uid ∈ s.log → uid = packetUid data) ∧
      (∀ func uid, .acting (.timer func) uid ∈ s.log →
        ∃ id, ∀ id' uid', .started func id' uid' ∈ s.log ↔ id' = id ∧ uid' = uid) ∧
      (∀ func, s.log.count (.ran func) ≤ 1) ∧
      ∀ newest middle oldest func id uid,
        s.log = newest ++ .stopped id :: (middle ++ .started func id uid :: oldest) →
        .ran func ∉ newest := by
  have hidle := idle_of_reachable h
  have hright := hidle.cleared.inv.right
  refine ⟨⟨hidle.cleared.uid, hidle.source, hidle.session⟩, ?_, ?_, ?_, ?_, ?_⟩
  · intro data source session type ops hlt hlong
    exact servicePoll_ok s ops hlt hlong
  · intro data uid hmem
    exact hright.packet hmem
  · intro func uid hmem
    exact hright.timer hmem
  · exact hright.count_ran
  · intro newest middle oldest func id uid heq
    exact hright.not_ran_of_stopped heq

/-- The message of the user 7 for the name `a`, as a text message. -/
def messageOfA : Bytes := [0, 0, 0, 16, 0, 0, 0, 0, 0, 0, 0, 7, 0, 1, 0x61, 0, 0, 0, 0, 1]

/-- The handler of a message starts two timers and stops one of them; both run out. -/
def twoTimers : List (ServiceEvent Unit) :=
  [.op (.serviceCallback [0x61]),
    .poll messageOfA 9 0 ptypeText [.startTimer 5, .startTimer 6, .stopTimer 5],
    .poll [] 0 5 ptypeResponse [], .poll [] 0 6 ptypeResponse []]

theorem acting_uid_two :
    ∃ s, run (step fun _ bs => some bs) (init Unit) twoTimers = some s ∧
      .acting (.timer 1) 7 ∈ s.log ∧ .ran 0 ∉ s.log ∧
      (s.processUid = 0 ∧ s.source = 0 ∧ s.session = 0) ∧ s.log.count (.ran 1) ≤ 1 := by
  have hrun : run (step fun _ bs => some bs) (init Unit) twoTimers = some _ := rfl
  obtain ⟨hidle, -, -, -, hcount, -⟩ := acting_uid (.of_run hrun)
  exact ⟨_, hrun, by decide, by decide, hidle, hcount 1⟩

end ActingService

end TestCluster.Common
