import TestCluster.Semantics.Machine
import TestCluster.Semantics.Threads
import TestCluster.Skynet.MessageQueue

/-!
# The dispatcher: workers, senders, launches and exits

The threads of a skynet process (`skynet_server.c`, `skynet_mq.c`, `skynet_start.c`) share the
services and the list of the queues with work. A worker takes a queue off the list, grabs the
service of its handle, calls it with some of its messages and puts the queue back; at the same time
other threads send messages, launch services and retire them. Every action below is what a thread
does under one lock, with one atomic instruction, or between two of these with what others can see;
an action fails where the source has an assertion that fails, and where it uses a queue or a service
that does not exist yet or has been freed.

A service is known by a number of its own, and found by its handle. The table of the handles is the
directory that `skynet_handle.c` implements as long as it does not grow between a registration and
the store of `ctx->handle`; a handle may be given out again when its service has been retired.

## Main definitions

* `Service`, `Shared` — a service with its queue and its reference count, and what the threads share
* `Shared.find` — the service that the table has for a handle
* `Pc`, `Worker` — where a thread is
* `Worker.act` — the next action of a thread
* `DispatchEvent`, `dispatchStep` — the runs of a pool of threads
* `unrecurring` — a handle is given out again only when nothing of its former service is left
-/

namespace TestCluster.Skynet

open Semantics

/-- `struct skynet_context` with its queue, and what became of the messages that were pushed:
workers took them for the callback, or `_drop_queue` dropped them.

* `handle`, `stored`: the handle that it was registered under, and whether `ctx->handle` has been
  set to it (it is 0 before, which is nobody's handle)
* `alive`: the context has been allocated, and not freed
* `queue`: the queue, from `skynet_mq_create` to `_release` -/
structure Service where
  handle : ℕ := 0
  stored : Bool := false
  alive : Bool := false
  queue : Option MessageQueue := none
  ref : ℕ := 0
  registered : Bool := false
  init : Bool := false
  pushed : List SkynetMessage := []
  taken : List SkynetMessage := []
  dropped : List SkynetMessage := []

namespace Service

/-- `ctx->queue`, which a thread reads through the context. -/
def inbox (v : Service) : Option MessageQueue := if v.alive then v.queue else none

/-- Nothing is left of the service. -/
def spent (v : Service) : Bool := !v.alive && v.queue.isNone

end Service

/-- What the threads share: the services, the number of the next one, and the list of queues of
which `skynet_globalmq_pop` takes the first. -/
structure Shared where
  services : ℕ → Service
  next : ℕ
  global : List ℕ

namespace Shared

def init : Shared := ⟨fun _ => {}, 0, []⟩

def set (s : Shared) (c : ℕ) (v : Service) : Shared :=
  { s with services := Function.update s.services c v }

/-- `skynet_globalmq_push`. A queue that is in the list cannot be linked to it again. -/
def globalPush (s : Shared) (q : ℕ) : Option Shared :=
  if q ∈ s.global then none else some { s with global := s.global ++ [q] }

/-- What `skynet_handle_grab` and `skynet_handle_retire` find under the lock: the service in the
table whose own handle is the one that is looked up. -/
def find (s : Shared) (handle : ℕ) : Option ℕ :=
  (List.range s.next).find? fun c =>
    (s.services c).registered && (s.services c).stored && (s.services c).handle == handle

/-- Nothing is left of the services that had the handle. -/
def Unused (s : Shared) (handle : ℕ) : Prop :=
  ∀ c < s.next, (s.services c).handle = handle → (s.services c).spent

instance (s : Shared) (handle : ℕ) : Decidable (s.Unused handle) :=
  inferInstanceAs (Decidable (∀ c < s.next, (s.services c).handle = handle → (s.services c).spent))

end Shared

/-- What a thread goes on with after `skynet_context_release`: the next round of the worker with the
queue that it keeps, `skynet_context_new` after the service was initialised or failed to be, its
last part after the handle was retired, or nothing. -/
inductive After
  | work (q : Option ℕ)
  | launch (c : ℕ)
  | fail (c handle : ℕ)
  | reap (q : ℕ)
  | done
deriving DecidableEq

/-- Where a thread is: the next thing that it does.

* `working q`: `skynet_context_message_dispatch` with the queue `q` of the last round, if any
* `looping q i n`, `measuring q msg w`, `calling q i n msg`: round `i` of `n` of its loop, at the
  pop, at the length, and in the callback
* `turning q`, `swapping q nq`: behind the loop, at the pop of the next queue, and at the push
* `releasing c k`, `deleting c k`: `skynet_context_release`, and `delete_context`
* `absent q k`, `dropping q k`: `skynet_mq_release`, and `_drop_queue`
* `sending handle msg`, `pushing c msg`: `skynet_context_push` at the grab, and at the push
* `launching handle`, `naming c`, `making c`, `creating c`: `skynet_context_new` at
  `skynet_handle_register`, which gives out the handle, at the store of `ctx->handle`, at
  `skynet_mq_create` with the store of `ctx->queue`, and in the `init` function
* `initialising c`, `publishing c kept`, `announcing c`, `answering c`: its second part at
  `ctx->init = true`, at the push of the queue, at the `LAUNCH` line of `skynet_error`, for which
  the handle is read, and at the handle that its caller reads
* `retiring handle k`: `skynet_handle_retire`
-/
inductive Pc
  | working (q : Option ℕ)
  | looping (q i n : ℕ)
  | measuring (q : ℕ) (msg : SkynetMessage) (w : ℕ)
  | calling (q i n : ℕ) (msg : SkynetMessage)
  | turning (q : ℕ)
  | swapping (q nq : ℕ)
  | releasing (c : ℕ) (k : After)
  | deleting (c : ℕ) (k : After)
  | absent (q : ℕ) (k : After)
  | dropping (q : ℕ) (k : After)
  | sending (handle : ℕ) (msg : SkynetMessage)
  | pushing (c : ℕ) (msg : SkynetMessage)
  | launching (handle : ℕ)
  | naming (c : ℕ)
  | making (c : ℕ)
  | creating (c : ℕ)
  | initialising (c : ℕ)
  | publishing (c : ℕ) (kept : Bool)
  | announcing (c : ℕ)
  | answering (c : ℕ)
  | retiring (handle : ℕ) (k : After)
  | done
deriving DecidableEq

/-- The thread goes on; `skynet_context_release` has returned `NULL` if the service was deleted. -/
def After.resume (k : After) (deleted : Bool) : Pc :=
  match k with
  | work q => .working q
  | launch c => if deleted then .publishing c false else .initialising c
  | fail c handle => .retiring handle (.reap c)
  | reap q => .absent q .done
  | done => .done

/-- A thread; the weight of a worker is `none` for a negative one. -/
structure Worker where
  weight : Option ℕ
  pc : Pc
deriving DecidableEq

/-- The next round of the loop of `skynet_context_message_dispatch`, or what is behind it. -/
def nextRound (q i n : ℕ) : Pc := if i + 1 < n then .looping q (i + 1) n else .turning q

/-- What follows the pop of a message in round `i`: the first one of a worker with a weight measures
the queue, to set the number of rounds. -/
def afterPop (weight : Option ℕ) (q i n : ℕ) (msg : SkynetMessage) : Pc :=
  match weight with
  | some w => if i = 0 then .measuring q msg w else .calling q i n msg
  | none => .calling q i n msg

/-- The next action of a thread at a program counter; `ok` is what the `init` function of a module
returns. -/
def Pc.act (weight : Option ℕ) (ok : Bool) (s : Shared) : Pc → Option (Shared × Pc)
  | working none =>
    match s.global with
    | [] => some (s, working none)
    | q :: global => some ({ s with global := global }, working (some q))
  | working (some q) =>
    let v := s.services q
    if v.queue.isNone then none
    else
      match s.find v.handle with
      | none => some (s, absent q (.work none))
      | some c =>
        -- another service under the handle would be called with the messages of this queue, until
        -- the assertion behind the loop fails
        if c = q then some (s.set q { v with ref := v.ref + 1 }, looping q 0 1) else none
  | looping q i n =>
    let v := s.services q
    match v.queue.map MessageQueue.pop with
    | none => none
    | some (none, mq) => some (s.set q { v with queue := some mq }, releasing q (.work none))
    | some (some msg, mq) =>
      some (s.set q { v with queue := some mq, taken := v.taken ++ [msg] },
        afterPop weight q i n msg)
  | measuring q msg w =>
    (s.services q).queue.map fun mq => (s, calling q 0 (mq.length >>> w) msg)
  | calling q i n _ =>
    let v := s.services q
    if v.alive && v.init then
      v.queue.map fun mq =>
        (s.set q { v with queue := some mq.takeOverload }, nextRound q i n)
    else none
  | turning q =>
    if (s.services q).alive then
      match s.global with
      | [] => some (s, releasing q (.work (some q)))
      | nq :: global => some ({ s with global := global }, swapping q nq)
    else none
  | swapping q nq => (s.globalPush q).map fun s => (s, releasing q (.work (some nq)))
  | releasing c k =>
    let v := s.services c
    if !v.alive || v.ref = 0 then none
    else
      some (s.set c { v with ref := v.ref - 1 },
        if v.ref = 1 then deleting c k else k.resume false)
  | deleting c k =>
    let v := s.services c
    match v.inbox with
    | none => none
    | some mq =>
      if mq.release then none
      else
        let s := s.set c { v with alive := false, queue := some mq.markRelease }
        (if mq.inGlobal then some s else s.globalPush c).map fun s => (s, k.resume true)
  | absent q k =>
    match (s.services q).queue with
    | none => none
    | some mq =>
      if mq.release then some (s, dropping q k)
      else (s.globalPush q).map fun s => (s, k.resume true)
  | dropping q k =>
    let v := s.services q
    match v.queue.map MessageQueue.pop with
    | none => none
    | some (some msg, mq) =>
      some (s.set q { v with queue := some mq, dropped := v.dropped ++ [msg] }, dropping q k)
    | some (none, _) =>
      if q ∈ s.global then none else some (s.set q { v with queue := none }, k.resume true)
  | sending handle msg =>
    match s.find handle with
    | none => some (s, done)
    | some c =>
      let v := s.services c
      some (s.set c { v with ref := v.ref + 1 }, pushing c msg)
  | pushing c msg =>
    let v := s.services c
    match v.inbox with
    | none => none
    | some mq =>
      let s := s.set c { v with queue := some (mq.push msg), pushed := v.pushed ++ [msg] }
      (if mq.inGlobal then some s else s.globalPush c).map fun s => (s, releasing c .done)
  | launching handle =>
    let v : Service := { handle := handle, alive := true, ref := 2, registered := true }
    some ({ s.set s.next v with next := s.next + 1 }, naming s.next)
  | naming c =>
    let v := s.services c
    if v.alive then some (s.set c { v with stored := true }, making c) else none
  | making c =>
    let v := s.services c
    if v.alive then some (s.set c { v with queue := some .create }, creating c) else none
  | creating c =>
    let v := s.services c
    if v.alive then some (s, releasing c (if ok then .launch c else .fail c v.handle)) else none
  | initialising c =>
    let v := s.services c
    if v.alive then some (s.set c { v with init := true }, publishing c true) else none
  | publishing c kept => (s.globalPush c).map fun s => (s, if kept then announcing c else done)
  | announcing c => if (s.services c).alive then some (s, answering c) else none
  | answering c => if (s.services c).alive then some (s, done) else none
  | retiring handle k =>
    match s.find handle with
    | none => some (s, k.resume true)
    | some c => some (s.set c { s.services c with registered := false }, releasing c k)
  | done => some (s, done)

/-- The next action of a thread. -/
def Worker.act (ok : Bool) (s : Shared) (t : Worker) : Option (Shared × Worker) :=
  (t.pc.act t.weight ok s).map fun r => (r.1, { t with pc := r.2 })

/-- A thread that begins: a worker with its weight, a message to a handle, a launch with the handle
that it will get, and the end of a service; or the next action of a thread. What a callback, an
`init` function or `drop_message` does itself is the business of such threads, while its own thread
waits. -/
inductive DispatchEvent
  | worker (weight : Option ℕ)
  | send (handle : ℕ) (msg : SkynetMessage)
  | launch (handle : ℕ)
  | retire (handle : ℕ)
  | run (i : ℕ) (ok : Bool)
deriving DecidableEq

/-- A step of the process; `none` if the action of the thread fails. -/
def dispatchStep (p : Pool Shared Worker) : DispatchEvent → Option (Pool Shared Worker)
  | .worker weight => some (p.spawn ⟨weight, .working none⟩)
  | .send handle msg => some (p.spawn ⟨none, .sending handle msg⟩)
  | .launch handle => some (p.spawn ⟨none, .launching handle⟩)
  | .retire handle => some (p.spawn ⟨none, .retiring handle .done⟩)
  | .run i ok => p.advance (Worker.act ok) i

/-- The handle that the next action of a thread gives to a service. -/
def Pc.given : Pc → Option ℕ
  | launching handle => some handle
  | _ => none

/-- A handle is given out again only when nothing is left of the service that had it. The handles
are counted up to `HANDLE_MASK` before any of them comes again. -/
def unrecurring (p : Pool Shared Worker) : DispatchEvent → Prop
  | .run i _ => ∀ handle, handle ∈ (p.threads[i]?.bind fun t => t.pc.given) →
      p.shared.Unused handle
  | _ => True

instance (p : Pool Shared Worker) (e : DispatchEvent) : Decidable (unrecurring p e) :=
  match e with
  | .run _ _ => Option.decidableForallMem _
  | .worker _ => .isTrue trivial
  | .send _ _ => .isTrue trivial
  | .launch _ => .isTrue trivial
  | .retire _ => .isTrue trivial

end TestCluster.Skynet
