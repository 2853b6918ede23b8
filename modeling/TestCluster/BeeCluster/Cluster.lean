import Mathlib.Logic.Function.Basic
import Mathlib.Data.List.Basic
import Mathlib.Order.Nat
import TestCluster.Semantics.Machine

/-!
# The cluster client

`bee_cluster.lua`, as one service runs it: `call`, `send` and `query` to a node, the
queue they are put in while the sender of the node is looked up, and `request_sender`,
which looks it up and works the queue off. A coroutine runs until it yields: while the
lookup or a call is under way, and while it waits to be woken.

## Main definitions

* `Service` — the tables, the queues and the coroutines of one service
* `drain` — the loop of `request_sender` up to its next yield
* `step` — one event
-/

namespace TestCluster.BeeCluster.Cluster

/-! ### Data -/

/-- Serialization of values, which loses nothing: an address with its arguments is read
back from `skynet.packstring`. -/
structure Serializer (V S : Type) where
  pack : List V → S
  packstring : V → List V → S
  unpack : S → V × List V
  unpack_packstring : ∀ address args, unpack (packstring address args) = (address, args)

/-- What a coroutine of the service asks for. -/
inductive Invocation (V : Type)
  | call (address : V) (args : List V)
  | send (address : V) (args : List V)
  | query (name : V)
  deriving DecidableEq, Repr

/-- The command of a message to a sender. -/
inductive Command
  | req
  | push
  deriving DecidableEq, Repr

/-- A message to a sender. -/
structure Message (V S : Type) where
  command : Command
  address : V
  msg : S
  deriving DecidableEq, Repr

/-- An entry of a queue: a packed push, or a coroutine that waits. -/
inductive Task (S : Type)
  | packed (task : S)
  | coroutine (co : ℕ)
  deriving DecidableEq, Repr

/-- What a coroutine that waits in a queue is going to send. -/
inductive Request (V S : Type)
  | call (task : S)
  | query (name : V)
  deriving DecidableEq, Repr

/-- A queue, and the sender that was found for it. -/
structure Queue (S : Type) where
  tasks : List (Task S)
  sender : Option ℕ
  deriving DecidableEq, Repr

/-- Where the coroutine of `request_sender` is that works a queue off: `confirming` waits
for the coroutine before the task `next` to go on. -/
inductive Drainer
  | none
  | forked (node : String)
  | looking (node : String)
  | confirming (node : String) (next : ℕ)
  | finished
  deriving DecidableEq, Repr

/-- It sleeps in `skynet.wait(confirm)`. -/
def Drainer.sleeping : Drainer → Bool
  | confirming _ _ => true
  | _ => false

/-- Where any other coroutine is. -/
inductive Client (V S : Type)
  | free
  | waiting (node : String) (q : ℕ) (request : Request V S)
  | calling (c : ℕ)
  | raised
  deriving DecidableEq, Repr

/-- It sleeps in `skynet.wait(task)`. -/
def Client.sleeping {V S : Type} : Client V S → Bool
  | waiting _ _ _ => true
  | _ => false

/-- A message that was sent, for a node and to a sender. -/
structure Sent (V S : Type) where
  node : String
  sender : ℕ
  message : Message V S
  deriving DecidableEq, Repr

/-- The state of the service. A queue is told by its number, and so is the coroutine that
works it off, `q.confirm`. -/
structure Service (V S : Type) where
  sender : String → Option ℕ
  taskQueue : String → Option ℕ
  queue : ℕ → Queue S
  drainer : ℕ → Drainer
  confirmed : ℕ → Bool
  client : ℕ → Client V S
  woken : ℕ → Bool
  sent : List (Sent V S)
  nextQueue : ℕ

/-- The service before its first invocation. -/
def init (V S : Type) : Service V S where
  sender _ := none
  taskQueue _ := none
  queue _ := ⟨[], none⟩
  drainer _ := .none
  confirmed _ := false
  client _ := .free
  woken _ := false
  sent := []
  nextQueue := 0

variable {V S : Type} [Zero V] (seri : Serializer V S)

/-- `repack`: the address, and the arguments packed again. -/
def repack (task : V × List V) : V × S := (task.1, seri.pack task.2)

/-- The message of a packed push. -/
def pushMessage (task : S) : Message V S :=
  let r := repack seri (seri.unpack task)
  ⟨.push, r.1, r.2⟩

/-- The message of a coroutine that has waited. -/
def Request.message : Request V S → Message V S
  | .call task =>
    let r := repack seri (seri.unpack task)
    ⟨.req, r.1, r.2⟩
  | .query name => ⟨.req, 0, seri.pack [name]⟩

/-! ### Steps -/

namespace Service

variable (s : Service V S)

/-- `skynet.send` or the first half of `skynet.call` to a sender. -/
def post (node : String) (c : ℕ) (message : Message V S) : Service V S :=
  { s with sent := s.sent ++ [⟨node, c, message⟩] }

/-- A coroutine comes to its next stop. -/
def setClient (co : ℕ) (client : Client V S) : Service V S :=
  { s with client := Function.update s.client co client }

/-- `task_queue[node]`: a missing queue is made, and a lookup is forked for it. -/
def getQueue (node : String) : Service V S × ℕ :=
  match s.taskQueue node with
  | some q => (s, q)
  | none =>
    ({ s with
      taskQueue := Function.update s.taskQueue node (some s.nextQueue)
      queue := Function.update s.queue s.nextQueue ⟨[], none⟩
      drainer := Function.update s.drainer s.nextQueue (.forked node)
      nextQueue := s.nextQueue + 1 }, s.nextQueue)

/-- `table.insert(q, task)`. -/
def enqueue (q : ℕ) (task : Task S) : Service V S :=
  { s with
    queue := Function.update s.queue q
      { s.queue q with tasks := (s.queue q).tasks ++ [task] } }

/-- `get_sender` where the sender is not known: the coroutine waits in the queue. -/
def await (co : ℕ) (node : String) (request : Request V S) : Service V S :=
  let r := s.getQueue node
  let s := r.1.enqueue r.2 (.coroutine co)
  { s.setClient co (.waiting node r.2 request) with woken := Function.update s.woken co false }

/-- `cluster.call`. -/
def call (co : ℕ) (node : String) (address : V) (args : List V) : Service V S :=
  match s.sender node with
  | none => s.await co node (.call (seri.packstring address args))
  | some c => (s.post node c ⟨.req, address, seri.pack args⟩).setClient co (.calling c)

/-- `cluster.send`. -/
def send (node : String) (address : V) (args : List V) : Service V S :=
  match s.sender node with
  | none =>
    let r := s.getQueue node
    -- a push does not wait: its arguments are packed into the queue
    r.1.enqueue r.2 (.packed (seri.packstring address args))
  | some c => s.post node c ⟨.push, address, seri.pack args⟩

/-- `cluster.query`. -/
def query (co : ℕ) (node : String) (name : V) : Service V S :=
  match s.sender node with
  | none => s.await co node (.query name)
  | some c => (s.post node c ⟨.req, 0, seri.pack [name]⟩).setClient co (.calling c)

/-- A coroutine invokes one of the three. -/
def invoke (co : ℕ) (node : String) : Invocation V → Service V S
  | .call address args => s.call seri co node address args
  | .send address args => s.send seri node address args
  | .query name => s.query seri co node name

/-- `task_queue[node] = nil; sender[node] = c`. -/
def close (q : ℕ) (node : String) (c : Option ℕ) : Service V S :=
  { s with
    taskQueue := Function.update s.taskQueue node none
    sender := Function.update s.sender node c
    drainer := Function.update s.drainer q .finished }

/-- `skynet.wakeup(task); skynet.wait(confirm)`. -/
def pause (q : ℕ) (node : String) (next co : ℕ) : Service V S :=
  { s with
    woken := Function.update s.woken co (s.woken co || (s.client co).sleeping)
    drainer := Function.update s.drainer q (.confirming node next)
    confirmed := Function.update s.confirmed q false }

/-- A packed push goes to the sender, if there is one. -/
def push (node : String) (c : Option ℕ) (task : S) : Service V S :=
  match c with
  | some c => s.post node c (pushMessage seri task)
  | none => s

end Service

/-- The loop of `request_sender` over the tasks of the queue from the number `i` on, up to
its next yield or its end. -/
def drain (q : ℕ) (node : String) (c : Option ℕ) :
    Service V S → ℕ → List (Task S) → Service V S
  | s, _, [] => s.close q node c
  | s, i, .packed task :: rest => drain q node c (s.push seri node c task) (i + 1) rest
  -- what is behind it is looked at when the coroutine has confirmed
  | s, i, .coroutine co :: _ => s.pause q node (i + 1) co

namespace Service

variable (s : Service V S)

/-- The lookup has ended, with a sender or without; the loop begins. -/
def found (q : ℕ) (node : String) (c : Option ℕ) : Service V S :=
  let s := { s with queue := Function.update s.queue q { s.queue q with sender := c } }
  drain seri q node c s 0 (s.queue q).tasks

/-- The loop goes on behind the coroutine it has woken. -/
def confirm (q : ℕ) (node : String) (next : ℕ) : Service V S :=
  drain seri q node (s.queue q).sender s next ((s.queue q).tasks.drop next)

/-- The end of `get_sender` and what follows it: the loop may go on, and the request is
sent; without a sender `skynet.call` raises. -/
def resume (co : ℕ) (node : String) (q : ℕ) (request : Request V S) : Service V S :=
  let s := { s with
    confirmed := Function.update s.confirmed q (s.confirmed q || (s.drainer q).sleeping) }
  match (s.queue q).sender with
  -- a call of `nil`
  | none => s.setClient co .raised
  | some c => (s.post node c (request.message seri)).setClient co (.calling c)

end Service

/-- What can happen next: a coroutine invokes something; `request_sender` begins, has its
lookup answered or goes on; a coroutine that was woken goes on; a call is answered. -/
inductive Event (V : Type)
  | invoke (co : ℕ) (node : String) (invocation : Invocation V)
  | lookup (q : ℕ)
  | found (q : ℕ) (c : Option ℕ)
  | confirm (q : ℕ)
  | resume (co : ℕ)
  | answered (co : ℕ)
  deriving DecidableEq, Repr

/-- The invocations for the node that an event makes. -/
def Event.invocations (node : String) : Event V → List (Invocation V)
  | .invoke _ node' invocation => if node' = node then [invocation] else []
  | _ => []

/-- One event. -/
def step (s : Service V S) : Event V → Option (Service V S)
  | .invoke co node invocation =>
    match s.client co with
    -- a coroutine that sleeps, or waits for an answer, invokes nothing
    | .free | .raised => some (s.invoke seri co node invocation)
    | _ => none
  | .lookup q =>
    match s.drainer q with
    | .forked node => some { s with drainer := Function.update s.drainer q (.looking node) }
    | _ => none
  | .found q c =>
    match s.drainer q with
    | .looking node => some (s.found seri q node c)
    | _ => none
  | .confirm q =>
    match s.drainer q with
    | .confirming node next => if s.confirmed q then some (s.confirm seri q node next) else none
    | _ => none
  | .resume co =>
    match s.client co with
    | .waiting node q request => if s.woken co then some (s.resume seri co node q request) else none
    | _ => none
  | .answered co =>
    match s.client co with
    | .calling _ => some (s.setClient co .free)
    | _ => none

end TestCluster.BeeCluster.Cluster
