import Mathlib.Data.List.Forall2
import Mathlib.Data.List.Nodup
import TestCluster.BeeCluster.Cluster

/-!
# Queued invocations

Where the sender of a node is not known, the invocations for the node wait in its queue.
The loop of `request_sender` hands them over one by one; a coroutine that it wakes has to
send its own request before the loop goes on. So what is sent for the node and what still
waits are together the invocations that were made, in their order.

## Main definitions

* `Pends` — the messages that the tasks of a queue stand for
* `Stage` — how far the sender of a node is known
* `NodeInv` — the invariant of one node
* `Resumed` — what a coroutine that goes on changes

## Main results

* `SameFor.nodeInv` — what happens for another node changes nothing
* `Draining.drain` — what the loop does up to its next yield
-/

namespace TestCluster.BeeCluster.Cluster

open Semantics

variable {V S : Type}

/-! ### Queues and what was sent -/

/-- The node whose queue the coroutine of `request_sender` works off. -/
def Drainer.node : Drainer → Option String
  | forked node => some node
  | looking node => some node
  | confirming node _ => some node
  | _ => Option.none

/-- The coroutines that wait in a queue. -/
def coroutines (tasks : List (Task S)) : List ℕ :=
  tasks.filterMap fun
    | .packed _ => none
    | .coroutine co => some co

@[simp] theorem coroutines_nil : coroutines ([] : List (Task S)) = [] := rfl

@[simp] theorem coroutines_packed (task : S) (tasks : List (Task S)) :
    coroutines (.packed task :: tasks) = coroutines tasks := rfl

@[simp] theorem coroutines_coroutine (co : ℕ) (tasks : List (Task S)) :
    coroutines (.coroutine co :: tasks) = co :: coroutines tasks := rfl

@[simp] theorem coroutines_append (tasks tasks' : List (Task S)) :
    coroutines (tasks ++ tasks') = coroutines tasks ++ coroutines tasks' :=
  List.filterMap_append

/-- What was sent for the node, and to whom. -/
def Service.sentTo (s : Service V S) (node : String) : List (ℕ × Message V S) :=
  (s.sent.filter fun x => x.node = node).map fun x => (x.sender, x.message)

variable {node : String}

theorem Service.sentTo_post (s : Service V S) (node : String) (c : ℕ) (m : Message V S) :
    (s.post node c m).sentTo node = s.sentTo node ++ [(c, m)] := by
  simp [sentTo, post]

theorem Service.sentTo_post_of_ne {node' : String} (h : node' ≠ node) (s : Service V S) (c : ℕ)
    (m : Message V S) : (s.post node c m).sentTo node' = s.sentTo node' := by
  simp [sentTo, post, h.symm]

variable [Zero V] (seri : Serializer V S)

/-! ### Invocations and their messages -/

/-- The message that an invocation stands for. -/
def Invocation.message : Invocation V → Message V S
  | .call address args => ⟨.req, address, seri.pack args⟩
  | .send address args => ⟨.push, address, seri.pack args⟩
  | .query name => ⟨.req, 0, seri.pack [name]⟩

theorem message_packed (address : V) (args : List V) :
    pushMessage seri (seri.packstring address args) =
      (Invocation.send address args).message seri := by
  rw [pushMessage, repack, seri.unpack_packstring]
  rfl

theorem message_call (address : V) (args : List V) :
    (Request.call (seri.packstring address args)).message seri =
      (Invocation.call address args).message seri := by
  rw [Request.message, repack, seri.unpack_packstring]
  rfl

variable {seri} {s s' : Service V S} {q : ℕ}

/-! ### Queues -/

/-- The message that a task of the queue stands for; its coroutine sleeps. -/
def Holds (seri : Serializer V S) (s : Service V S) (node : String) (q : ℕ) :
    Task S → Message V S → Prop
  | .packed task, m => m = pushMessage seri task
  | .coroutine co, m =>
    ∃ request, s.client co = .waiting node q request ∧ s.woken co = false ∧
      m = request.message seri

/-- The messages that tasks of the queue stand for; no coroutine waits twice. -/
structure Pends (seri : Serializer V S) (s : Service V S) (node : String) (q : ℕ)
    (tasks : List (Task S)) (pending : List (Message V S)) : Prop where
  holds : List.Forall₂ (Holds seri s node q) tasks pending
  nodup : (coroutines tasks).Nodup

/-- What was sent, what is pending and what was made, with the sender that was found. -/
def Handed (c : Option ℕ) (out : List (ℕ × Message V S)) (pending made : List (Message V S)) :
    Prop :=
  match c with
  | some c => out ++ pending.map (c, ·) = made.map (c, ·)
  | none => out = []

theorem Holds.congr {task : Task S} {m : Message V S} (h : Holds seri s node q task m)
    (hclient : ∀ co, task = .coroutine co → s'.client co = s.client co ∧ s'.woken co = s.woken co) :
    Holds seri s' node q task m := by
  cases task with
  | packed task => exact h
  | coroutine co =>
    obtain ⟨hclient, hwoken⟩ := hclient co rfl
    obtain ⟨request, hwaiting, hasleep, hm⟩ := h
    exact ⟨request, hclient.trans hwaiting, hwoken.trans hasleep, hm⟩

theorem Pends.congr {tasks : List (Task S)} {pending : List (Message V S)}
    (h : Pends seri s node q tasks pending)
    (hclient : ∀ co, co ∈ coroutines tasks →
      s'.client co = s.client co ∧ s'.woken co = s.woken co) :
    Pends seri s' node q tasks pending := by
  refine ⟨?_, h.nodup⟩
  have hholds := h.holds
  clear h
  induction hholds with
  | nil => exact .nil
  | @cons task m tasks pending hhead _ ih =>
    refine .cons (hhead.congr fun co htask => hclient co (by simp [htask])) (ih fun co hco => ?_)
    cases task with
    | packed => exact hclient co hco
    | coroutine co' => exact hclient co (List.mem_cons_of_mem _ hco)

/-- A coroutine in the queue waits, and was not woken. -/
theorem Pends.waiting {tasks : List (Task S)} {pending : List (Message V S)}
    (h : Pends seri s node q tasks pending) {co : ℕ} (hco : co ∈ coroutines tasks) :
    ∃ request, s.client co = .waiting node q request ∧ s.woken co = false := by
  have hholds := h.holds
  clear h
  induction hholds with
  | nil => exact nomatch hco
  | @cons task m tasks pending hhead _ ih =>
    cases task with
    | packed => exact ih hco
    | coroutine co' =>
      rcases List.mem_cons.mp hco with rfl | hco
      · obtain ⟨request, hwaiting, hasleep, _⟩ := hhead
        exact ⟨request, hwaiting, hasleep⟩
      · exact ih hco

theorem Pends.tail {task : Task S} {tasks : List (Task S)} {m : Message V S}
    {pending : List (Message V S)} (h : Pends seri s node q (task :: tasks) (m :: pending)) :
    Pends seri s node q tasks pending := by
  refine ⟨(List.forall₂_cons.mp h.holds).2, ?_⟩
  have hnodup := h.nodup
  cases task with
  | packed => exact hnodup
  | coroutine co => exact (List.nodup_cons.mp hnodup).2

theorem Pends.append {tasks : List (Task S)} {pending : List (Message V S)} {task : Task S}
    {m : Message V S} (h : Pends seri s node q tasks pending) (hholds : Holds seri s node q task m)
    (hfresh : ∀ co, task = .coroutine co → co ∉ coroutines tasks) :
    Pends seri s node q (tasks ++ [task]) (pending ++ [m]) := by
  refine ⟨List.rel_append h.holds (.cons hholds .nil), ?_⟩
  rw [coroutines_append]
  cases task with
  | packed => simpa using h.nodup
  | coroutine co =>
    have hco := hfresh co rfl
    exact h.nodup.append (List.nodup_singleton co) (by simpa using hco)

/-! ### The invariant of one node -/

/-- How far the sender of the node is known, and what was sent for it of the messages that
were made. -/
inductive Stage (seri : Serializer V S) (s : Service V S) (node : String)
    (made : List (Message V S)) : Prop
  | unknown (hqueue : s.taskQueue node = none) (hsender : s.sender node = none)
      (hsent : s.sentTo node = []) (hmade : made = [])
  | known {c : ℕ} (hqueue : s.taskQueue node = none) (hsender : s.sender node = some c)
      (hsent : s.sentTo node = made.map (c, ·))
  | asking {q : ℕ} (hqueue : s.taskQueue node = some q)
      (hdrainer : s.drainer q = .forked node ∨ s.drainer q = .looking node)
      (hfound : (s.queue q).sender = none) (hsent : s.sentTo node = [])
      (hpends : Pends seri s node q (s.queue q).tasks made)
      (hclients : ∀ co request, s.client co = .waiting node q request →
        co ∈ coroutines (s.queue q).tasks)
  | handing {q next : ℕ} {pending : List (Message V S)} (hqueue : s.taskQueue node = some q)
      (hdrainer : s.drainer q = .confirming node next) (hconfirmed : s.confirmed q = true)
      (hnext : next ≤ (s.queue q).tasks.length)
      (hsent : Handed (s.queue q).sender (s.sentTo node) pending made)
      (hpends : Pends seri s node q ((s.queue q).tasks.drop next) pending)
      (hclients : ∀ co request, s.client co = .waiting node q request →
        co ∈ coroutines ((s.queue q).tasks.drop next))
  | waking {q next co : ℕ} {request : Request V S} {pending : List (Message V S)}
      (hqueue : s.taskQueue node = some q)
      (hdrainer : s.drainer q = .confirming node next) (hconfirmed : s.confirmed q = false)
      (hnext : next ≤ (s.queue q).tasks.length)
      (hwaiting : s.client co = .waiting node q request) (hwoken : s.woken co = true)
      (hsent : Handed (s.queue q).sender (s.sentTo node) (request.message seri :: pending) made)
      (hpends : Pends seri s node q ((s.queue q).tasks.drop next) pending)
      (hclients : ∀ co' request, s.client co' = .waiting node q request →
        co' = co ∨ co' ∈ coroutines ((s.queue q).tasks.drop next))

/-- The invariant of one node: its queue is worked off by the coroutine that was forked
for it, and every coroutine that waits for the node waits in its queue. -/
structure NodeInv (seri : Serializer V S) (s : Service V S) (node : String)
    (made : List (Message V S)) : Prop where
  queue : ∀ q, s.taskQueue node = some q → q < s.nextQueue ∧ s.sender node = none
  drainers : ∀ q, (s.drainer q).node = some node → s.taskQueue node = some q
  clients : ∀ co q request, s.client co = .waiting node q request → s.taskQueue node = some q
  stage : Stage seri s node made

/-- How far the loop is that works a queue off. -/
inductive QueuedStage (seri : Serializer V S) (s : Service V S) (node : String) (q : ℕ)
    (made : List (Message V S)) : Prop
  | asking (hdrainer : s.drainer q = .forked node ∨ s.drainer q = .looking node)
      (hfound : (s.queue q).sender = none) (hsent : s.sentTo node = [])
      (hpends : Pends seri s node q (s.queue q).tasks made)
      (hclients : ∀ co request, s.client co = .waiting node q request →
        co ∈ coroutines (s.queue q).tasks)
  | handing {next : ℕ} {pending : List (Message V S)}
      (hdrainer : s.drainer q = .confirming node next) (hconfirmed : s.confirmed q = true)
      (hnext : next ≤ (s.queue q).tasks.length)
      (hsent : Handed (s.queue q).sender (s.sentTo node) pending made)
      (hpends : Pends seri s node q ((s.queue q).tasks.drop next) pending)
      (hclients : ∀ co request, s.client co = .waiting node q request →
        co ∈ coroutines ((s.queue q).tasks.drop next))
  | waking {next co : ℕ} {request : Request V S} {pending : List (Message V S)}
      (hdrainer : s.drainer q = .confirming node next) (hconfirmed : s.confirmed q = false)
      (hnext : next ≤ (s.queue q).tasks.length)
      (hwaiting : s.client co = .waiting node q request) (hwoken : s.woken co = true)
      (hsent : Handed (s.queue q).sender (s.sentTo node) (request.message seri :: pending) made)
      (hpends : Pends seri s node q ((s.queue q).tasks.drop next) pending)
      (hclients : ∀ co' request, s.client co' = .waiting node q request →
        co' = co ∨ co' ∈ coroutines ((s.queue q).tasks.drop next))

namespace NodeInv

variable {made : List (Message V S)}

/-- A node with a queue is in one of three stages. -/
theorem queued (h : NodeInv seri s node made) (hq : s.taskQueue node = some q) :
    QueuedStage seri s node q made := by
  cases h.stage with
  | unknown hqueue => exact nomatch hq.symm.trans hqueue
  | known hqueue => exact nomatch hq.symm.trans hqueue
  | asking hqueue hdrainer hfound hsent hpends hclients =>
    obtain rfl := Option.some.inj (hq.symm.trans hqueue)
    exact .asking hdrainer hfound hsent hpends hclients
  | handing hqueue hdrainer hconfirmed hnext hsent hpends hclients =>
    obtain rfl := Option.some.inj (hq.symm.trans hqueue)
    exact .handing hdrainer hconfirmed hnext hsent hpends hclients
  | waking hqueue hdrainer hconfirmed hnext hwaiting hwoken hsent hpends hclients =>
    obtain rfl := Option.some.inj (hq.symm.trans hqueue)
    exact .waking hdrainer hconfirmed hnext hwaiting hwoken hsent hpends hclients

/-- Where the sender is known, there is no queue, and everything that was made was sent to it. -/
theorem of_known (h : NodeInv seri s node made) {c : ℕ} (hsender : s.sender node = some c) :
    s.taskQueue node = none ∧ s.sentTo node = made.map (c, ·) := by
  have hnone : ∀ q, s.taskQueue node ≠ some q := fun q hq =>
    nomatch hsender.symm.trans (h.queue q hq).2
  cases h.stage with
  | unknown _ hunknown => exact nomatch hsender.symm.trans hunknown
  | known hqueue hknown hsent =>
    obtain rfl := Option.some.inj (hsender.symm.trans hknown)
    exact ⟨hqueue, hsent⟩
  | asking hqueue => exact absurd hqueue (hnone _)
  | handing hqueue => exact absurd hqueue (hnone _)
  | waking hqueue => exact absurd hqueue (hnone _)

/-- Where neither a sender nor a queue is there, nothing was made, and nothing sent. -/
theorem of_unknown (h : NodeInv seri s node made) (hsender : s.sender node = none)
    (hqueue : s.taskQueue node = none) : made = [] ∧ s.sentTo node = [] := by
  cases h.stage with
  | unknown _ _ hsent hmade => exact ⟨hmade, hsent⟩
  | known _ hknown => exact nomatch hsender.symm.trans hknown
  | asking hq => exact nomatch hqueue.symm.trans hq
  | handing hq => exact nomatch hqueue.symm.trans hq
  | waking hq => exact nomatch hqueue.symm.trans hq

end NodeInv

/-! ### Steps for another node -/

/-- Nothing that concerns the node has changed. -/
structure SameFor (s s' : Service V S) (node : String) : Prop where
  sender : s'.sender node = s.sender node
  taskQueue : s'.taskQueue node = s.taskQueue node
  sentTo : s'.sentTo node = s.sentTo node
  nextQueue : s.nextQueue ≤ s'.nextQueue
  queue : ∀ q, s.taskQueue node = some q → s'.queue q = s.queue q ∧
    s'.drainer q = s.drainer q ∧ s'.confirmed q = s.confirmed q
  drainers : ∀ q, (s'.drainer q).node = some node → (s.drainer q).node = some node
  waiting : ∀ co q request, s'.client co = .waiting node q request →
    s.client co = .waiting node q request
  clients : ∀ co q request, s.client co = .waiting node q request →
    s'.client co = s.client co ∧ s'.woken co = s.woken co

namespace SameFor

omit [Zero V] in
theorem refl (s : Service V S) (node : String) : SameFor s s node :=
  ⟨rfl, rfl, rfl, le_rfl, fun _ _ => ⟨rfl, rfl, rfl⟩, fun _ => id, fun _ _ _ => id,
    fun _ _ _ _ => ⟨rfl, rfl⟩⟩

omit [Zero V] in
theorem trans {s₁ s₂ s₃ : Service V S} (h : SameFor s₁ s₂ node) (h' : SameFor s₂ s₃ node) :
    SameFor s₁ s₃ node where
  sender := h'.sender.trans h.sender
  taskQueue := h'.taskQueue.trans h.taskQueue
  sentTo := h'.sentTo.trans h.sentTo
  nextQueue := h.nextQueue.trans h'.nextQueue
  queue q hq := by
    obtain ⟨hqueue, hdrainer, hconfirmed⟩ := h.queue q hq
    obtain ⟨hqueue', hdrainer', hconfirmed'⟩ := h'.queue q (h.taskQueue.trans hq)
    exact ⟨hqueue'.trans hqueue, hdrainer'.trans hdrainer, hconfirmed'.trans hconfirmed⟩
  drainers q hq := h.drainers q (h'.drainers q hq)
  waiting co q request hco := h.waiting co q request (h'.waiting co q request hco)
  clients co q request hco := by
    obtain ⟨hclient, hwoken⟩ := h.clients co q request hco
    obtain ⟨hclient', hwoken'⟩ := h'.clients co q request (hclient.trans hco)
    exact ⟨hclient'.trans hclient, hwoken'.trans hwoken⟩

theorem pends (h : SameFor s s' node) {tasks : List (Task S)} {pending : List (Message V S)}
    (hpends : Pends seri s node q tasks pending) : Pends seri s' node q tasks pending := by
  refine hpends.congr fun co hco => ?_
  obtain ⟨request, hwaiting, _⟩ := hpends.waiting hco
  exact h.clients co q request hwaiting

theorem stage (h : SameFor s s' node) {made : List (Message V S)}
    (hinv : NodeInv seri s node made) : Stage seri s' node made := by
  cases hinv.stage with
  | unknown hqueue hsender hsent hmade =>
    exact .unknown (h.taskQueue.trans hqueue) (h.sender.trans hsender) (h.sentTo.trans hsent) hmade
  | known hqueue hsender hsent =>
    exact .known (h.taskQueue.trans hqueue) (h.sender.trans hsender) (h.sentTo.trans hsent)
  | @asking q hqueue hdrainer hfound hsent hpends hclients =>
    obtain ⟨hq, hdrainer', _⟩ := h.queue q hqueue
    refine .asking (h.taskQueue.trans hqueue) (by rwa [hdrainer']) (by rwa [hq])
      (h.sentTo.trans hsent) (by rw [hq]; exact h.pends hpends) fun co request hco => ?_
    rw [hq]
    exact hclients co request (h.waiting co q request hco)
  | @handing q next pending hqueue hdrainer hconfirmed hnext hsent hpends hclients =>
    obtain ⟨hq, hdrainer', hconfirmed'⟩ := h.queue q hqueue
    refine .handing (h.taskQueue.trans hqueue) (hdrainer'.trans hdrainer)
      (hconfirmed'.trans hconfirmed) (by rwa [hq]) (by rwa [hq, h.sentTo])
      (by rw [hq]; exact h.pends hpends) fun co request hco => ?_
    rw [hq]
    exact hclients co request (h.waiting co q request hco)
  | @waking q next co request pending hqueue hdrainer hconfirmed hnext hwaiting hwoken hsent hpends
      hclients =>
    obtain ⟨hq, hdrainer', hconfirmed'⟩ := h.queue q hqueue
    obtain ⟨hclient, hwoken'⟩ := h.clients co q request hwaiting
    refine .waking (h.taskQueue.trans hqueue) (hdrainer'.trans hdrainer)
      (hconfirmed'.trans hconfirmed) (by rwa [hq]) (hclient.trans hwaiting) (hwoken'.trans hwoken)
      (by rwa [hq, h.sentTo]) (by rw [hq]; exact h.pends hpends) fun co' request hco => ?_
    rw [hq]
    exact hclients co' request (h.waiting co' q request hco)

theorem nodeInv (h : SameFor s s' node) {made : List (Message V S)}
    (hinv : NodeInv seri s node made) : NodeInv seri s' node made where
  queue q hq := by
    rw [h.taskQueue] at hq
    obtain ⟨hlt, hsender⟩ := hinv.queue q hq
    exact ⟨hlt.trans_le h.nextQueue, h.sender.trans hsender⟩
  drainers q hq := h.taskQueue.trans (hinv.drainers q (h.drainers q hq))
  clients co q request hco :=
    h.taskQueue.trans (hinv.clients co q request (h.waiting co q request hco))
  stage := h.stage hinv

end SameFor

/-! ### The loop of `request_sender` -/

omit [Zero V] in
theorem Service.close_drainer (s : Service V S) (q : ℕ) (node : String) (c : Option ℕ) :
    (s.close q node c).drainer = Function.update s.drainer q .finished := rfl

omit [Zero V] in
theorem Service.pause_drainer (s : Service V S) (q : ℕ) (node : String) (next co : ℕ) :
    (s.pause q node next co).drainer = Function.update s.drainer q (.confirming node next) := rfl

/-- The loop is at the task `i`, with the tasks `rest` before it. -/
structure Draining (seri : Serializer V S) (s : Service V S) (node : String) (q : ℕ)
    (c : Option ℕ) (i : ℕ) (rest : List (Task S)) (pending made : List (Message V S)) :
    Prop where
  queue : s.taskQueue node = some q
  other : ∀ node', node' ≠ node → s.taskQueue node' ≠ some q
  bound : q < s.nextQueue
  sender : s.sender node = none
  drainer : (s.drainer q).node = some node
  drainers : ∀ q', (s.drainer q').node = some node → q' = q
  clients : ∀ co q' request, s.client co = .waiting node q' request →
    q' = q ∧ co ∈ coroutines rest
  found : (s.queue q).sender = c
  tasks : rest = (s.queue q).tasks.drop i
  bounded : i ≤ (s.queue q).tasks.length
  sent : Handed c (s.sentTo node) pending made
  pends : Pends seri s node q rest pending

namespace Draining

variable {c : Option ℕ} {i : ℕ} {rest : List (Task S)} {pending made : List (Message V S)}

/-- What follows the task `i` begins at the task `i + 1`. -/
theorem next {task : Task S} (h : Draining seri s node q c i (task :: rest) pending made) :
    rest = (s.queue q).tasks.drop (i + 1) ∧ i + 1 ≤ (s.queue q).tasks.length := by
  have hrest := h.tasks
  refine ⟨?_, ?_⟩
  · rw [← List.tail_drop, ← hrest]
    rfl
  · by_contra hle
    rw [List.drop_eq_nil_of_le (by omega)] at hrest
    exact nomatch hrest

/-- No task is left: the queue is closed. -/
theorem close (h : Draining seri s node q c i [] pending made) :
    NodeInv seri (s.close q node c) node (if c = none then [] else made) := by
  -- behind the last task nothing is to be sent any more
  obtain rfl : pending = [] := List.forall₂_nil_left_iff.mp h.pends.holds
  have hnone : (s.close q node c).taskQueue node = none := Function.update_self ..
  have hsender : (s.close q node c).sender node = c := Function.update_self ..
  refine ⟨fun q' hq' => ?_, fun q' hq' => ?_, fun co q' request hco => ?_, ?_⟩
  · exact nomatch hnone.symm.trans hq'
  · by_cases hqq : q' = q
    · subst hqq
      rw [Service.close_drainer, Function.update_self] at hq'
      exact nomatch hq'
    · rw [Service.close_drainer, Function.update_of_ne hqq] at hq'
      exact absurd (h.drainers q' hq') hqq
  · exact nomatch (h.clients co q' request hco).2
  · have hsent := h.sent
    cases c with
    | none => exact .unknown hnone hsender hsent rfl
    | some c =>
      have hout : s.sentTo node = made.map (c, ·) := by simpa [Handed] using hsent
      exact .known hnone hsender hout

/-- A push is handed over. -/
theorem push {task : S} {m : Message V S}
    (h : Draining seri s node q c i (.packed task :: rest) (m :: pending) made) :
    Draining seri (s.push seri node c task) node q c (i + 1) rest pending made := by
  obtain ⟨hrest, hbounded⟩ := h.next
  obtain rfl : m = pushMessage seri task := (List.forall₂_cons.mp h.pends.holds).1
  have hsent := h.sent
  -- without a sender the message is dropped
  cases c with
  | none =>
    exact ⟨h.queue, h.other, h.bound, h.sender, h.drainer, h.drainers, h.clients,
      h.found, hrest, hbounded,
      hsent, h.pends.tail⟩
  | some c =>
    refine ⟨h.queue, h.other, h.bound, h.sender, h.drainer, h.drainers, h.clients,
      h.found, hrest, hbounded,
      ?_, h.pends.tail.congr fun _ _ => ⟨rfl, rfl⟩⟩
    rw [Service.push, Handed, Service.sentTo_post]
    simpa [Handed] using hsent

/-- A coroutine is woken, and the loop waits for it. -/
theorem pause {co : ℕ} {m : Message V S}
    (h : Draining seri s node q c i (.coroutine co :: rest) (m :: pending) made) :
    NodeInv seri (s.pause q node (i + 1) co) node made := by
  obtain ⟨hrest, hbounded⟩ := h.next
  obtain ⟨request, hwaiting, hasleep, rfl⟩ := (List.forall₂_cons.mp h.pends.holds).1
  -- a coroutine is queued once, so waking it touches nothing behind it
  have hco : co ∉ coroutines rest := (List.nodup_cons.mp h.pends.nodup).1
  refine ⟨fun q' hq' => ?_, fun q' hq' => ?_, fun co' q' request' hco' => ?_, ?_⟩
  · obtain rfl := Option.some.inj (h.queue.symm.trans hq')
    exact ⟨h.bound, h.sender⟩
  · by_cases hqq : q' = q
    · exact hqq ▸ h.queue
    · rw [Service.pause_drainer, Function.update_of_ne hqq] at hq'
      exact absurd (h.drainers q' hq') hqq
  · exact (h.clients co' q' request' hco').1 ▸ h.queue
  · refine .waking h.queue (Function.update_self ..) (Function.update_self ..)
      hbounded hwaiting ?_ (h.found ▸ h.sent) ?_ fun co' request' hco' => ?_
    · have hwoken : (s.pause q node (i + 1) co).woken co =
          (s.woken co || (s.client co).sleeping) := Function.update_self ..
      rw [hwoken, hwaiting]
      exact Bool.or_true _
    · have htail : Pends seri (s.pause q node (i + 1) co) node q rest pending := by
        refine h.pends.tail.congr fun co' hco' => ⟨rfl, Function.update_of_ne ?_ ..⟩
        rintro rfl
        exact hco hco'
      rw [hrest] at htail
      exact htail
    · rcases List.mem_cons.mp (h.clients co' q request' hco').2 with heq | hmem
      · exact .inl heq
      · rw [hrest] at hmem
        exact .inr hmem

/-- The loop concerns no other node. -/
theorem sameFor {s' : Service V S} (h : Draining seri s node q c i rest pending made)
    {node' : String} (hne : node' ≠ node) (hsender : s'.sender node' = s.sender node')
    (hqueues : s'.taskQueue node' = s.taskQueue node') (hsent : s'.sentTo node' = s.sentTo node')
    (hnext : s'.nextQueue = s.nextQueue)
    (hqueue : s'.queue = s.queue) (hdrainer : ∀ q', q' ≠ q → s'.drainer q' = s.drainer q')
    (hnode : (s'.drainer q).node ≠ some node')
    (hconfirmed : ∀ q', q' ≠ q → s'.confirmed q' = s.confirmed q')
    (hclient : s'.client = s.client)
    (hwoken : ∀ co, co ∉ coroutines rest → s'.woken co = s.woken co) : SameFor s s' node' where
  sender := hsender
  taskQueue := hqueues
  sentTo := hsent
  nextQueue := hnext.ge
  queue q' hq' := by
    have hqq : q' ≠ q := by
      rintro rfl
      exact h.other node' hne hq'
    exact ⟨by rw [hqueue], hdrainer q' hqq, hconfirmed q' hqq⟩
  drainers q' hq' := by
    have hqq : q' ≠ q := by
      rintro rfl
      exact hnode hq'
    rwa [hdrainer q' hqq] at hq'
  waiting co q' request hco := hclient ▸ hco
  clients co q' request hco := by
    refine ⟨by rw [hclient], hwoken co fun hmem => ?_⟩
    -- who waits for another node is not in this queue
    obtain ⟨request', hwaiting, _⟩ := h.pends.waiting hmem
    exact hne (Client.waiting.inj (hco.symm.trans hwaiting)).1

/-- What the loop does up to its next yield. Where no sender was found, the invocations
that were queued are lost with the queue. -/
theorem drain (h : Draining seri s node q c i rest pending made) :
    NodeInv seri (drain seri q node c s i rest) node
        (if (drain seri q node c s i rest).taskQueue node = none ∧
            (drain seri q node c s i rest).sender node = none then [] else made) ∧
      ∀ node', node' ≠ node → SameFor s (drain seri q node c s i rest) node' := by
  induction rest generalizing s i pending with
  | nil =>
    obtain rfl : pending = [] := List.forall₂_nil_left_iff.mp h.pends.holds
    refine ⟨?_, fun node' hne => h.sameFor hne ?_ ?_ rfl rfl rfl ?_ ?_ (fun _ _ => rfl) rfl
      fun _ _ => rfl⟩
    · -- the end of the queue: the sender is recorded, and the queue is gone
      have hnone : (s.close q node c).taskQueue node = none := Function.update_self ..
      have hsender : (s.close q node c).sender node = c := Function.update_self ..
      simpa only [Cluster.drain, hnone, hsender, true_and] using h.close
    · exact Function.update_of_ne hne ..
    · exact Function.update_of_ne hne ..
    · exact fun q' hqq => Function.update_of_ne hqq ..
    · rw [Cluster.drain, Service.close_drainer, Function.update_self]
      exact nofun
  | cons task rest ih =>
    obtain ⟨m, pending, hholds, _, rfl⟩ := List.forall₂_cons_left_iff.mp h.pends.holds
    cases task with
    | packed task =>
      obtain ⟨hinv, hother⟩ := ih h.push
      refine ⟨hinv, fun node' hne => SameFor.trans ?_ (hother node' hne)⟩
      cases c with
      | none => exact .refl s node'
      | some c =>
        exact h.sameFor hne rfl rfl (Service.sentTo_post_of_ne hne s c _) rfl rfl (fun _ _ => rfl)
          (fun heq => hne (Option.some.inj (heq.symm.trans h.drainer))) (fun _ _ => rfl) rfl
          fun _ _ => rfl
    | coroutine co =>
      refine ⟨?_, fun node' hne => h.sameFor hne rfl rfl rfl rfl rfl ?_ ?_ ?_ rfl ?_⟩
      · have hsome : (s.pause q node (i + 1) co).taskQueue node = some q := h.queue
        simpa [Cluster.drain, hsome] using h.pause
      · exact fun q' hqq => Function.update_of_ne hqq ..
      · rw [Cluster.drain, Service.pause_drainer, Function.update_self]
        exact fun heq => hne (Option.some.inj heq).symm
      · exact fun q' hqq => Function.update_of_ne hqq ..
      · refine fun co' hco' => Function.update_of_ne ?_ ..
        rintro rfl
        exact hco' List.mem_cons_self

end Draining

/-! ### Invocations -/

omit [Zero V] in
theorem Handed.append {c : Option ℕ} {out : List (ℕ × Message V S)}
    {pending made : List (Message V S)} (h : Handed c out pending made) (m : Message V S) :
    Handed c out (pending ++ [m]) (made ++ [m]) := by
  cases c with
  | none => exact h
  | some c =>
    have h : out ++ pending.map (c, ·) = made.map (c, ·) := h
    simp only [Handed, List.map_append, ← List.append_assoc, h]

omit [Zero V] in
theorem Service.setClient_client (s : Service V S) (co : ℕ) (client : Client V S) :
    (s.setClient co client).client = Function.update s.client co client := rfl

omit [Zero V] in
/-- A coroutine that does not wait comes to a stop where it does not wait either. -/
theorem SameFor.setClient {co : ℕ} {client : Client V S}
    (hold : (s.client co).sleeping = false) (hnew : client.sleeping = false) (node : String) :
    SameFor s (s.setClient co client) node where
  sender := rfl
  taskQueue := rfl
  sentTo := rfl
  nextQueue := le_rfl
  queue _ _ := ⟨rfl, rfl, rfl⟩
  drainers _ := id
  waiting co' q request hco' := by
    by_cases hco : co' = co
    · subst hco
      rw [Service.setClient_client, Function.update_self] at hco'
      rw [hco'] at hnew
      exact nomatch hnew
    · rwa [Service.setClient_client, Function.update_of_ne hco] at hco'
  clients co' q request hco' := by
    refine ⟨Function.update_of_ne ?_ .., rfl⟩
    rintro rfl
    rw [hco'] at hold
    exact nomatch hold

/-- The messages made for each node satisfy the invariant of the node. -/
def Inv (seri : Serializer V S) (s : Service V S) (made : String → List (Message V S)) : Prop :=
  ∀ node, NodeInv seri s node (made node)

namespace Inv

variable {made : String → List (Message V S)}

theorem sameFor (h : Inv seri s made) (hsame : ∀ node, SameFor s s' node) : Inv seri s' made :=
  fun node => (hsame node).nodeInv (h node)

/-- The queue of a node is worked off by the coroutine that was forked for the node. -/
theorem drainer (h : Inv seri s made) (hq : s.taskQueue node = some q) :
    (s.drainer q).node = some node := by
  cases (h node).queued hq with
  | asking hdrainer => rcases hdrainer with hdrainer | hdrainer <;> rw [hdrainer] <;> rfl
  | handing hdrainer =>
    rw [hdrainer]
    rfl
  | waking hdrainer =>
    rw [hdrainer]
    rfl

theorem other (h : Inv seri s made) (hq : s.taskQueue node = some q) {node' : String}
    (hne : node' ≠ node) : s.taskQueue node' ≠ some q := by
  intro hq'
  exact hne (Option.some.inj ((h.drainer hq').symm.trans (h.drainer hq)))

/-- A queue is made for a node that has none. -/
theorem getQueue (h : Inv seri s made) (hsender : s.sender node = none) :
    Inv seri (s.getQueue node).1 made ∧
      (s.getQueue node).1.taskQueue node = some (s.getQueue node).2 := by
  cases hq : s.taskQueue node with
  | some q => simpa [Service.getQueue, hq] using h
  | none =>
    have hmade := (h node).of_unknown hsender hq
    -- without a queue nobody waits
    have hnone : ∀ co q request, s.client co ≠ .waiting node q request := fun co q request hco =>
      nomatch hq.symm.trans ((h node).clients co q request hco)
    simp only [Service.getQueue, hq]
    refine ⟨fun node' => ?_, Function.update_self ..⟩
    by_cases hnode : node' = node
    · subst hnode
      refine ⟨fun q' hq' => ?_, fun q' hq' => ?_, fun co q' request hco => ?_, ?_⟩
      · obtain rfl : s.nextQueue = q' := by simpa using hq'
        exact ⟨Nat.lt_succ_self _, hsender⟩
      · by_cases hqq : q' = s.nextQueue
        · rw [hqq]
          exact Function.update_self ..
        · have hold : (s.drainer q').node = some node' := by simpa [hqq] using hq'
          exact nomatch hq.symm.trans ((h node').drainers q' hold)
      · exact absurd hco (hnone co q' request)
      · refine .asking (Function.update_self ..) (.inl (Function.update_self ..)) ?_ hmade.2 ?_
          fun co request hco => absurd hco (hnone co _ request)
        · simp
        · simp only [Function.update_self, hmade.1]
          exact ⟨.nil, List.nodup_nil⟩
    · have hlt : ∀ {q'}, s.taskQueue node' = some q' → q' ≠ s.nextQueue := fun hq' =>
        Nat.ne_of_lt ((h node').queue _ hq').1
      refine SameFor.nodeInv (s := s) ?_ (h node')
      refine ⟨rfl, Function.update_of_ne hnode .., rfl, Nat.le_succ _, fun q' hq' => ?_,
        fun q' hq' => ?_, fun _ _ _ => id, fun _ _ _ _ => ⟨rfl, rfl⟩⟩
      · exact ⟨Function.update_of_ne (hlt hq') .., Function.update_of_ne (hlt hq') .., rfl⟩
      · by_cases hqq : q' = s.nextQueue
        · subst hqq
          have hforked : node = node' := by simpa [Drainer.node] using hq'
          exact absurd hforked.symm hnode
        · simpa [hqq] using hq'

end Inv

/-- A task was put at the end of the queue; its coroutine, if it is one, came to wait. -/
structure Enqueued (s s' : Service V S) (node : String) (q : ℕ) (task : Task S) : Prop where
  sender : s'.sender = s.sender
  taskQueue : s'.taskQueue = s.taskQueue
  drainer : s'.drainer = s.drainer
  confirmed : s'.confirmed = s.confirmed
  sent : s'.sent = s.sent
  nextQueue : s'.nextQueue = s.nextQueue
  queue : s'.queue = (s.enqueue q task).queue
  clients : ∀ co, task ≠ .coroutine co → s'.client co = s.client co ∧ s'.woken co = s.woken co
  waiting : ∀ co, task = .coroutine co →
    (s.client co).sleeping = false ∧ ∃ request, s'.client co = .waiting node q request

namespace Enqueued

variable {task : Task S}

omit [Zero V] in
theorem ne_of_waiting (h : Enqueued s s' node q task) {co q' : ℕ} {node' : String}
    {request : Request V S} (hco : s.client co = .waiting node' q' request) :
    task ≠ .coroutine co := by
  intro htask
  have hfree := (h.waiting co htask).1
  rw [hco] at hfree
  exact nomatch hfree

omit [Zero V] in
/-- Who waits now has waited before, or is the coroutine of the task. -/
theorem waiting_iff (h : Enqueued s s' node q task) {co q' : ℕ} {node' : String}
    {request : Request V S} (hco : s'.client co = .waiting node' q' request) :
    s.client co = .waiting node' q' request ∨ task = .coroutine co ∧ node' = node ∧ q' = q := by
  by_cases htask : task = .coroutine co
  · obtain ⟨_, request', hco'⟩ := h.waiting co htask
    obtain ⟨hnode, hq, _⟩ := Client.waiting.inj (hco.symm.trans hco')
    exact .inr ⟨htask, hnode, hq⟩
  · exact .inl ((h.clients co htask).1.symm.trans hco)

omit [Zero V] in
theorem sameFor (h : Enqueued s s' node q task) {node' : String} (hne : node' ≠ node)
    (hother : s.taskQueue node' ≠ some q) : SameFor s s' node' where
  sender := congrFun h.sender node'
  taskQueue := congrFun h.taskQueue node'
  sentTo := by rw [Service.sentTo, Service.sentTo, h.sent]
  nextQueue := h.nextQueue.ge
  queue q' hq' := by
    have hqq : q' ≠ q := by
      rintro rfl
      exact hother hq'
    rw [h.queue, h.drainer, h.confirmed]
    exact ⟨Function.update_of_ne hqq .., rfl, rfl⟩
  drainers q' hq' := by rwa [h.drainer] at hq'
  waiting co q' request hco := (h.waiting_iff hco).resolve_right fun hnew => hne hnew.2.1
  clients co q' request hco := h.clients co (h.ne_of_waiting hco)

theorem pends (h : Enqueued s s' node q task) {m : Message V S}
    (hholds : Holds seri s' node q task m) {tasks : List (Task S)} {pending : List (Message V S)}
    (hpends : Pends seri s node q tasks pending) :
    Pends seri s' node q (tasks ++ [task]) (pending ++ [m]) := by
  refine Pends.append (hpends.congr fun co hco => ?_) hholds fun co htask hco => ?_
  · obtain ⟨request, hwaiting, _⟩ := hpends.waiting hco
    exact h.clients co (h.ne_of_waiting hwaiting)
  · obtain ⟨request, hwaiting, _⟩ := hpends.waiting hco
    exact h.ne_of_waiting hwaiting htask

omit [Zero V] in
theorem tasks_eq (h : Enqueued s s' node q task) :
    (s'.queue q).tasks = (s.queue q).tasks ++ [task] := by
  rw [h.queue]
  simp [Service.enqueue]

omit [Zero V] in
theorem sender_eq (h : Enqueued s s' node q task) : (s'.queue q).sender = (s.queue q).sender := by
  rw [h.queue]
  simp [Service.enqueue]

omit [Zero V] in
/-- What is enqueued is behind the loop. -/
theorem drop_tasks (h : Enqueued s s' node q task) {next : ℕ}
    (hnext : next ≤ (s.queue q).tasks.length) :
    (s'.queue q).tasks.drop next = (s.queue q).tasks.drop next ++ [task] := by
  rw [h.tasks_eq, List.drop_append_of_le_length hnext]

omit [Zero V] in
theorem le_length_tasks (h : Enqueued s s' node q task) {next : ℕ}
    (hnext : next ≤ (s.queue q).tasks.length) : next ≤ (s'.queue q).tasks.length := by
  rw [h.tasks_eq, List.length_append]
  exact hnext.trans (Nat.le_add_right _ _)

/-- The message of the task is made, and is the last one pending. -/
theorem inv (h : Enqueued s s' node q task) {made : String → List (Message V S)}
    (hinv : Inv seri s made) (hq : s.taskQueue node = some q) {m : Message V S}
    (hholds : Holds seri s' node q task m) :
    Inv seri s' (Function.update made node (made node ++ [m])) := by
  intro node'
  by_cases hnode : node' = node
  swap
  · rw [Function.update_of_ne hnode]
    exact (h.sameFor hnode (hinv.other hq hnode)).nodeInv (hinv node')
  subst hnode
  rw [Function.update_self]
  have hsent : s'.sentTo node' = s.sentTo node' := by rw [Service.sentTo, Service.sentTo, h.sent]
  have hqueue : s'.taskQueue node' = some q := (congrFun h.taskQueue node').trans hq
  -- who waits for the node is queued, or has just been enqueued
  have hclients : ∀ {tasks : List (Task S)} {co request},
      (s.client co = .waiting node' q request → co ∈ coroutines tasks) →
        s'.client co = .waiting node' q request → co ∈ coroutines (tasks ++ [task]) := by
    intro tasks co request hold hco
    rw [coroutines_append, List.mem_append]
    refine (h.waiting_iff hco).imp hold fun hnew => ?_
    rw [hnew.1]
    exact List.mem_singleton_self co
  refine ⟨fun q' hq' => ?_, fun q' hq' => ?_, fun co q' request hco => ?_, ?_⟩
  · rw [h.sender, h.nextQueue]
    rw [h.taskQueue] at hq'
    exact (hinv node').queue q' hq'
  · rw [h.taskQueue]
    rw [h.drainer] at hq'
    exact (hinv node').drainers q' hq'
  · rw [h.taskQueue]
    rcases h.waiting_iff hco with hold | ⟨_, _, rfl⟩
    · exact (hinv node').clients co q' request hold
    · exact hq
  · cases (hinv node').queued hq with
    | asking hdrainer hasking hout hpends hold =>
      refine .asking hqueue (by rwa [h.drainer]) (h.sender_eq.trans hasking) (hsent.trans hout) ?_
        fun co request hco => ?_
      · rw [h.tasks_eq]
        exact h.pends hholds hpends
      · rw [h.tasks_eq]
        exact hclients (hold co request) hco
    | @handing next pending hdrainer hconfirmed hnext hhanded hpends hold =>
      have htail := h.pends hholds hpends
      rw [← h.drop_tasks hnext] at htail
      refine .handing hqueue (by rw [h.drainer, hdrainer]) (by rw [h.confirmed, hconfirmed])
        (h.le_length_tasks hnext) ?_ htail fun co request hco => ?_
      · rw [h.sender_eq, hsent]
        exact hhanded.append m
      · rw [h.drop_tasks hnext]
        exact hclients (hold co request) hco
    | @waking next co₁ request₁ pending hdrainer hconfirmed hnext hwaiting hwoken hhanded hpends
        hold =>
      obtain ⟨hclient, hwoken'⟩ := h.clients co₁ (h.ne_of_waiting hwaiting)
      have htail := h.pends hholds hpends
      rw [← h.drop_tasks hnext] at htail
      refine .waking hqueue (by rw [h.drainer, hdrainer]) (by rw [h.confirmed, hconfirmed])
        (h.le_length_tasks hnext) (hclient.trans hwaiting) (hwoken'.trans hwoken) ?_ htail
        fun co request hco => ?_
      · rw [h.sender_eq, hsent]
        exact hhanded.append m
      · rw [h.drop_tasks hnext, coroutines_append]
        rcases h.waiting_iff hco with hwas | hnew
        · exact (hold co request hwas).imp id (List.mem_append_left _)
        · refine .inr (List.mem_append_right _ ?_)
          rw [hnew.1]
          exact List.mem_singleton_self co

end Enqueued

namespace Inv

variable {made : String → List (Message V S)} {co c : ℕ}

/-- A request is sent at once where the sender is known. -/
theorem post (h : Inv seri s made) (hsender : s.sender node = some c) (m : Message V S) :
    Inv seri (s.post node c m) (Function.update made node (made node ++ [m])) := by
  intro node'
  by_cases hnode : node' = node
  · subst hnode
    rw [Function.update_self]
    refine ⟨(h node').queue, (h node').drainers, (h node').clients, ?_⟩
    obtain ⟨hqueue, hsent⟩ := (h node').of_known hsender
    refine .known hqueue hsender ?_
    rw [Service.sentTo_post, hsent, List.map_append]
    rfl
  · rw [Function.update_of_ne hnode]
    refine SameFor.nodeInv (s := s) ?_ (h node')
    exact ⟨rfl, rfl, Service.sentTo_post_of_ne hnode s c m, le_rfl, fun _ _ => ⟨rfl, rfl, rfl⟩,
      fun _ => id, fun _ _ _ => id, fun _ _ _ _ => ⟨rfl, rfl⟩⟩

/-- A coroutine comes to wait in the queue of the node. -/
theorem await (h : Inv seri s made) (hsender : s.sender node = none)
    (hfree : (s.client co).sleeping = false) (request : Request V S) :
    Inv seri (s.await co node request)
      (Function.update made node (made node ++ [request.message seri])) := by
  obtain ⟨hinv, hqueue⟩ := h.getQueue hsender
  have hclient : (s.getQueue node).1.client = s.client := by
    unfold Service.getQueue
    split <;> rfl
  -- the coroutine is at the end of the queue, and asleep
  have henqueued : Enqueued (s.getQueue node).1 (s.await co node request) node
      (s.getQueue node).2 (.coroutine co) := by
    refine ⟨rfl, rfl, rfl, rfl, rfl, rfl, rfl, fun co' hco' => ?_, fun co' hco' => ?_⟩
    · have hne : co' ≠ co := by
        rintro rfl
        exact hco' rfl
      exact ⟨Function.update_of_ne hne .., Function.update_of_ne hne ..⟩
    · obtain rfl := Task.coroutine.inj hco'
      exact ⟨by rw [hclient, hfree], request, Function.update_self ..⟩
  exact henqueued.inv hinv hqueue
    ⟨request, Function.update_self .., Function.update_self .., rfl⟩

/-- An invocation is sent at once, or waits in the queue of its node. -/
theorem invoke (h : Inv seri s made) (hfree : (s.client co).sleeping = false) (node : String)
    (invocation : Invocation V) :
    Inv seri (s.invoke seri co node invocation)
      (Function.update made node (made node ++ [invocation.message seri])) := by
  -- the sender is known, so the coroutine sends at once
  have hcalling : ∀ m c, s.sender node = some c →
      Inv seri ((s.post node c m).setClient co (.calling c))
        (Function.update made node (made node ++ [m])) := fun m c hsender =>
    (h.post hsender m).sameFor (SameFor.setClient hfree rfl)
  cases invocation with
  | call address args =>
    cases hsender : s.sender node with
    | none =>
      have hawait := h.await hsender hfree (.call (seri.packstring address args))
      rw [message_call] at hawait
      simpa only [Service.invoke, Service.call, hsender] using hawait
    | some c =>
      simp only [Service.invoke, Service.call, hsender]
      exact hcalling _ c hsender
  | send address args =>
    cases hsender : s.sender node with
    | none =>
      obtain ⟨hinv, hqueue⟩ := h.getQueue hsender
      simp only [Service.invoke, Service.send, hsender]
      have henqueued : Enqueued (s.getQueue node).1
          ((s.getQueue node).1.enqueue (s.getQueue node).2
            (.packed (seri.packstring address args))) node (s.getQueue node).2
          (.packed (seri.packstring address args)) :=
        ⟨rfl, rfl, rfl, rfl, rfl, rfl, rfl, fun _ _ => ⟨rfl, rfl⟩, nofun⟩
      exact henqueued.inv hinv hqueue (message_packed seri address args).symm
    | some c =>
      simp only [Service.invoke, Service.send, hsender]
      exact h.post hsender _
  | query name =>
    cases hsender : s.sender node with
    | none =>
      simp only [Service.invoke, Service.query, hsender]
      exact h.await hsender hfree (.query name)
    | some c =>
      simp only [Service.invoke, Service.query, hsender]
      exact hcalling _ c hsender

end Inv

/-! ### Lookups -/

/-- The invocations queued for the node are lost: its queue is gone, and no sender was
found. -/
def lost (s s' : Service V S) (node : String) : Prop :=
  s.taskQueue node ≠ none ∧ s'.taskQueue node = none ∧ s'.sender node = none

instance (s s' : Service V S) (node : String) : Decidable (lost s s' node) :=
  inferInstanceAs (Decidable (_ ∧ _ ∧ _))

omit [Zero V] in
theorem SameFor.not_lost (h : SameFor s s' node) : ¬ lost s s' node := fun hlost =>
  hlost.1 (h.taskQueue.symm.trans hlost.2.1)

namespace Inv

variable {made : String → List (Message V S)} {co c : ℕ}

/-- The loop of a queue was run to its next yield. -/
theorem of_draining {s₁ : Service V S} {found : Option ℕ} {i : ℕ} {rest : List (Task S)}
    {pending : List (Message V S)} (h : Inv seri s made) (hq : s.taskQueue node = some q)
    (hsame : ∀ node', node' ≠ node → SameFor s s₁ node')
    (hdraining : Draining seri s₁ node q found i rest pending (made node)) :
    Inv seri (drain seri q node found s₁ i rest) fun node' =>
      if lost s (drain seri q node found s₁ i rest) node' then [] else made node' := by
  obtain ⟨hinv, hother⟩ := hdraining.drain
  intro node'
  -- only the queue of this node can be lost
  by_cases hnode : node' = node
  · subst hnode
    simpa only [lost, hq, ne_eq, reduceCtorEq, not_false_eq_true, true_and] using hinv
  · have hnode' := (hsame node' hnode).trans (hother node' hnode)
    simp only [if_neg hnode'.not_lost]
    exact hnode'.nodeInv (h node')

theorem found (h : Inv seri s made) (hdrainer : s.drainer q = .looking node) (found : Option ℕ) :
    Inv seri (s.found seri q node found) fun node' =>
      if lost s (s.found seri q node found) node' then [] else made node' := by
  have hq : s.taskQueue node = some q := (h node).drainers q (by rw [hdrainer]; rfl)
  -- the answer is recorded in the queue before the loop begins
  let s₁ : Service V S :=
    { s with queue := Function.update s.queue q { s.queue q with sender := found } }
  have hsame : ∀ node', node' ≠ node → SameFor s s₁ node' := by
    refine fun node' hnode => ⟨rfl, rfl, rfl, le_rfl, fun q' hq' => ?_, fun _ => id,
      fun _ _ _ => id, fun _ _ _ _ => ⟨rfl, rfl⟩⟩
    refine ⟨Function.update_of_ne ?_ .., rfl, rfl⟩
    rintro rfl
    exact h.other hq hnode hq'
  have hdraining : Draining seri s₁ node q found 0 (s₁.queue q).tasks (made node) (made node) := by
    cases (h node).queued hq with
    | handing hconfirming => exact nomatch hdrainer.symm.trans hconfirming
    | waking hconfirming => exact nomatch hdrainer.symm.trans hconfirming
    | asking _ _ hsent hpends hclients =>
      have htasks : (s₁.queue q).tasks = (s.queue q).tasks := by simp [s₁]
      obtain ⟨hlt, hsender⟩ := (h node).queue q hq
      refine ⟨hq, fun node' hnode => h.other hq hnode, hlt, hsender,
        (congrArg Drainer.node hdrainer).trans rfl, fun q' hq' => ?_, fun co q' request hco => ?_,
        by simp [s₁], rfl, Nat.zero_le _, ?_, ?_⟩
      · exact (Option.some.inj (hq.symm.trans ((h node).drainers q' hq'))).symm
      · obtain rfl := Option.some.inj (hq.symm.trans ((h node).clients co q' request hco))
        exact ⟨rfl, htasks ▸ hclients co request hco⟩
      · cases found with
        | none => exact hsent
        | some c =>
          have hout : s.sentTo node ++ (made node).map (c, ·) = (made node).map (c, ·) := by
            rw [hsent, List.nil_append]
          exact hout
      · rw [htasks]
        exact hpends.congr fun _ _ => ⟨rfl, rfl⟩
  exact h.of_draining hq hsame hdraining

theorem confirm {next : ℕ} (h : Inv seri s made) (hdrainer : s.drainer q = .confirming node next)
    (hconfirmed : s.confirmed q = true) :
    Inv seri (s.confirm seri q node next) fun node' =>
      if lost s (s.confirm seri q node next) node' then [] else made node' := by
  have hq : s.taskQueue node = some q := (h node).drainers q (by rw [hdrainer]; rfl)
  cases (h node).queued hq with
  | asking hasking =>
    rw [hdrainer] at hasking
    exact absurd hasking (by simp)
  | waking _ hunconfirmed => exact nomatch hconfirmed.symm.trans hunconfirmed
  | @handing next' pending hconfirming _ hnext hsent hpends hclients =>
    obtain ⟨_, rfl⟩ := Drainer.confirming.inj (hdrainer.symm.trans hconfirming)
    obtain ⟨hlt, hsender⟩ := (h node).queue q hq
    -- the loop goes on where it has stopped
    have hdraining : Draining seri s node q (s.queue q).sender next
        ((s.queue q).tasks.drop next) pending (made node) := by
      refine ⟨hq, fun node' hnode => h.other hq hnode, hlt, hsender, by rw [hdrainer]; rfl,
        fun q' hq' => ?_, fun co q' request hco => ?_, rfl, rfl, hnext, hsent, hpends⟩
      · exact (Option.some.inj (hq.symm.trans ((h node).drainers q' hq'))).symm
      · obtain rfl := Option.some.inj (hq.symm.trans ((h node).clients co q' request hco))
        exact ⟨rfl, hclients co request hco⟩
    exact h.of_draining hq (fun node' _ => .refl s node') hdraining

/-- A coroutine that was woken is the one the loop waits for. -/
theorem waking (h : Inv seri s made) {request : Request V S}
    (hwaiting : s.client co = .waiting node q request) (hwoken : s.woken co = true) :
    s.taskQueue node = some q ∧ ∃ next pending, s.drainer q = .confirming node next ∧
      next ≤ (s.queue q).tasks.length ∧
      Handed (s.queue q).sender (s.sentTo node) (request.message seri :: pending) (made node) ∧
      Pends seri s node q ((s.queue q).tasks.drop next) pending ∧
      ∀ co' request, s.client co' = .waiting node q request →
        co' = co ∨ co' ∈ coroutines ((s.queue q).tasks.drop next) := by
  have hq := (h node).clients co q request hwaiting
  refine ⟨hq, ?_⟩
  -- a coroutine that is still queued was not woken
  have hasleep : ∀ {tasks pending}, Pends seri s node q tasks pending →
      co ∉ coroutines tasks := by
    intro tasks pending hpends hco
    obtain ⟨_, _, hasleep⟩ := hpends.waiting hco
    exact nomatch hwoken.symm.trans hasleep
  cases (h node).queued hq with
  | asking _ _ _ hpends hclients =>
    exact absurd (hclients co request hwaiting) (hasleep hpends)
  | handing _ _ _ _ hpends hclients =>
    exact absurd (hclients co request hwaiting) (hasleep hpends)
  | @waking next co₁ request₁ pending hdrainer _ hnext hwaiting₁ _ hsent hpends hclients =>
    rcases hclients co request hwaiting with rfl | hco
    · obtain rfl := (Client.waiting.inj (hwaiting.symm.trans hwaiting₁)).2.2
      exact ⟨next, pending, hdrainer, hnext, hsent, hpends, hclients⟩
    · exact absurd hco (hasleep hpends)

/-- Without a sender the coroutine raises. -/
theorem resume_of_none {request : Request V S} (hfound : (s.queue q).sender = none) :
    s.resume seri co node q request =
      ({ s with
          confirmed := Function.update s.confirmed q
            (s.confirmed q || (s.drainer q).sleeping) } : Service V S).setClient co .raised := by
  simp only [Service.resume, hfound]

/-- With a sender the coroutine sends its request. -/
theorem resume_of_some {request : Request V S} (hfound : (s.queue q).sender = some c) :
    s.resume seri co node q request =
      (({ s with
          confirmed := Function.update s.confirmed q
            (s.confirmed q || (s.drainer q).sleeping) } : Service V S).post node c
              (request.message seri)).setClient co (.calling c) := by
  simp only [Service.resume, hfound]

end Inv

/-! ### Resumptions -/

/-- A coroutine that was woken has left its queue, and the loop of the queue may go on. -/
structure Resumed (s s' : Service V S) (co : ℕ) (node : String) (q : ℕ) : Prop where
  sender : s'.sender = s.sender
  taskQueue : s'.taskQueue = s.taskQueue
  queue : s'.queue = s.queue
  drainer : s'.drainer = s.drainer
  nextQueue : s'.nextQueue = s.nextQueue
  woken : s'.woken = s.woken
  confirmed : s'.confirmed =
    Function.update s.confirmed q (s.confirmed q || (s.drainer q).sleeping)
  client : ∃ client : Client V S, client.sleeping = false ∧
    s'.client = Function.update s.client co client
  sentTo : ∀ node', node' ≠ node → s'.sentTo node' = s.sentTo node'

namespace Resumed

variable {co : ℕ}

omit [Zero V] in
/-- Whoever waits now has waited before, and is somebody else. -/
theorem waiting (h : Resumed s s' co node q) {co' q' : ℕ} {node' : String} {request : Request V S}
    (hco' : s'.client co' = .waiting node' q' request) :
    co' ≠ co ∧ s.client co' = .waiting node' q' request := by
  obtain ⟨client, hidle, hclient⟩ := h.client
  have hne : co' ≠ co := by
    rintro rfl
    rw [hclient, Function.update_self] at hco'
    rw [hco'] at hidle
    exact nomatch hidle
  rw [hclient, Function.update_of_ne hne] at hco'
  exact ⟨hne, hco'⟩

omit [Zero V] in
theorem others (h : Resumed s s' co node q) {co' : ℕ} (hne : co' ≠ co) :
    s'.client co' = s.client co' ∧ s'.woken co' = s.woken co' := by
  obtain ⟨client, -, hclient⟩ := h.client
  rw [hclient, h.woken]
  exact ⟨Function.update_of_ne hne .., rfl⟩

omit [Zero V] in
theorem sameFor (h : Resumed s s' co node q) {request : Request V S}
    (hwaiting : s.client co = .waiting node q request) {node' : String} (hnode : node' ≠ node)
    (hother : s.taskQueue node' ≠ some q) : SameFor s s' node' where
  sender := congrFun h.sender node'
  taskQueue := congrFun h.taskQueue node'
  sentTo := h.sentTo node' hnode
  nextQueue := h.nextQueue.ge
  queue q' hq' := by
    have hqq : q' ≠ q := by
      rintro rfl
      exact hother hq'
    rw [h.queue, h.drainer, h.confirmed, Function.update_of_ne hqq]
    exact ⟨rfl, rfl, rfl⟩
  drainers q' hq' := by rwa [h.drainer] at hq'
  waiting _ _ _ hco' := (h.waiting hco').2
  clients co' q' request' hco' := by
    refine h.others ?_
    rintro rfl
    exact hnode (Client.waiting.inj (hco'.symm.trans hwaiting)).1

/-- What was handed over to the coroutine has been sent, or is lost, and the loop has the rest
in hand again. -/
theorem inv (h : Resumed s s' co node q) {made : String → List (Message V S)}
    (hinv : Inv seri s made) {request : Request V S}
    (hwaiting : s.client co = .waiting node q request) (hwoken : s.woken co = true)
    (hhanded : ∀ pending, Handed (s.queue q).sender (s.sentTo node)
        (request.message seri :: pending) (made node) →
      Handed (s.queue q).sender (s'.sentTo node) pending (made node)) :
    Inv seri s' made := by
  obtain ⟨hq, next, pending, hdrainer, hnext, hsent, hpends, hclients⟩ :=
    hinv.waking hwaiting hwoken
  intro node'
  by_cases hnode : node' = node
  · subst hnode
    refine ⟨?_, ?_, fun co' q' request' hco' => ?_, ?_⟩
    · rw [h.sender, h.taskQueue, h.nextQueue]
      exact (hinv node').queue
    · rw [h.drainer, h.taskQueue]
      exact (hinv node').drainers
    · rw [h.taskQueue]
      exact (hinv node').clients co' q' request' (h.waiting hco').2
    · have hconfirmed : s'.confirmed q = true := by
        rw [h.confirmed, Function.update_self, hdrainer]
        exact Bool.or_true _
      refine .handing (by rw [h.taskQueue, hq]) (by rw [h.drainer, hdrainer]) hconfirmed
        (by rw [h.queue]; exact hnext) (by rw [h.queue]; exact hhanded pending hsent) ?_
        fun co' request' hco' => ?_
      · rw [h.queue]
        refine hpends.congr fun co' hco' => h.others ?_
        -- the coroutine is no longer in the queue: what is there was not woken
        rintro rfl
        obtain ⟨_, _, hasleep⟩ := hpends.waiting hco'
        exact nomatch hwoken.symm.trans hasleep
      · rw [h.queue]
        obtain ⟨hne, hwas⟩ := h.waiting hco'
        exact (hclients co' request' hwas).resolve_left hne
  · exact (h.sameFor hwaiting hnode (hinv.other hq hnode)).nodeInv (hinv node')

end Resumed

/-- A coroutine that was woken sends its request, or raises, and lets the loop go on. -/
theorem Inv.resume {made : String → List (Message V S)} {co : ℕ} (h : Inv seri s made)
    {request : Request V S} (hwaiting : s.client co = .waiting node q request)
    (hwoken : s.woken co = true) : Inv seri (s.resume seri co node q request) made := by
  cases hfound : (s.queue q).sender with
  | none =>
    have hresumed : Resumed s (s.resume seri co node q request) co node q := by
      rw [resume_of_none hfound]
      exact ⟨rfl, rfl, rfl, rfl, rfl, rfl, rfl, ⟨.raised, rfl, rfl⟩, fun _ _ => rfl⟩
    apply hresumed.inv h hwaiting hwoken
    -- nothing is sent for a queue without a sender
    intro pending hsent
    rw [hfound] at hsent ⊢
    rw [resume_of_none hfound]
    exact hsent
  | some c =>
    have hresumed : Resumed s (s.resume seri co node q request) co node q := by
      rw [resume_of_some hfound]
      exact ⟨rfl, rfl, rfl, rfl, rfl, rfl, rfl, ⟨.calling c, rfl, rfl⟩,
        fun node' hnode => Service.sentTo_post_of_ne hnode _ c _⟩
    apply hresumed.inv h hwaiting hwoken
    intro pending hsent
    rw [hfound] at hsent ⊢
    rw [resume_of_some hfound]
    have hout : s.sentTo node ++ [(c, request.message seri)] ++ pending.map (c, ·) =
        (made node).map (c, ·) := by
      rw [List.append_assoc]
      exact hsent
    exact (congrArg (· ++ pending.map (c, ·)) (Service.sentTo_post _ node c _)).trans hout

end TestCluster.BeeCluster.Cluster
