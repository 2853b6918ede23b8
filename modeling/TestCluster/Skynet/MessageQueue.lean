import TestCluster.Semantics.RingBuffer

/-!
# Message queues of services

Every service has a queue of its own (`skynet_mq.c`), a ring that doubles when it is full. A flag
says whether the queue is in the list of queues with work, or in the hands of a worker; the queue
counts as out of it when a worker has found it empty, and the next message puts it in again. A queue
that is longer than a threshold is reported once, and the threshold doubles until the queue is
shorter.

## Main definitions

* `SkynetMessage`, `MessageQueue` — a message and a queue
* `MessageQueue.push`, `MessageQueue.pop` — `skynet_mq_push` and `skynet_mq_pop`, under the lock
* `MessageQueue.messages` — what is in the queue, the oldest message first

## Main results

* `MessageQueue.messages_push`, `MessageQueue.pop_spec` — the operations are those of a queue
* `MessageQueue.length_le_threshold` — the loop of `skynet_mq_pop` has passed the length when it ends
-/

namespace TestCluster.Skynet

open Semantics

/-- `struct skynet_message`; the data is the address of a block. -/
structure SkynetMessage where
  source : ℕ
  session : ℕ
  data : ℕ
  sz : ℕ
deriving DecidableEq, Inhabited

/-- `DEFAULT_QUEUE_SIZE` -/
def defaultQueueSize : ℕ := 64

/-- `MQ_OVERLOAD` -/
def mqOverload : ℕ := 1024

/-- `struct message_queue`. The links to the next queue are those of the list of queues, and the
handle is the number under which the queue is known. -/
structure MessageQueue where
  ring : RingBuffer SkynetMessage
  release : Bool
  inGlobal : Bool
  overload : ℕ
  overloadThreshold : ℕ
  threshold_pos : 0 < overloadThreshold

namespace MessageQueue

/-- `skynet_mq_create`: the flag keeps the queue out of the list until the service is ready. -/
def create : MessageQueue where
  ring := .empty defaultQueueSize (by decide) fun _ => default
  release := false
  inGlobal := true
  overload := 0
  overloadThreshold := mqOverload
  threshold_pos := by decide

/-- The messages that wait, the oldest one first. -/
def messages (q : MessageQueue) : List SkynetMessage := q.ring.toList

/-- `skynet_mq_length` -/
def length (q : MessageQueue) : ℕ := q.ring.length

/-- The loop of `skynet_mq_pop`, by which the threshold passes the length and the length is noted,
with a bound on its rounds. -/
def raised (length : ℕ) : ℕ → ℕ → ℕ → ℕ × ℕ
  | 0, overload, threshold => (overload, threshold)
  | rounds + 1, overload, threshold =>
    if length > threshold then raised length rounds length (threshold * 2)
    else (overload, threshold)

/-- Every round doubles the threshold, so as many rounds as the length is over it are enough. -/
theorem length_le_threshold {length threshold : ℕ} (hpos : 0 < threshold) :
    ∀ {rounds overload : ℕ}, length ≤ rounds + threshold →
      length ≤ (raised length rounds overload threshold).2 := by
  intro rounds
  induction rounds generalizing threshold with
  | zero =>
    intro overload hle
    rw [raised]
    omega
  | succ rounds ih =>
    intro overload hle
    rw [raised]
    split_ifs with hgt
    · apply ih <;> omega
    · exact not_lt.mp hgt

theorem raised_pos {length threshold : ℕ} (hpos : 0 < threshold) (rounds overload : ℕ) :
    0 < (raised length rounds overload threshold).2 := by
  induction rounds generalizing overload threshold with
  | zero => exact hpos
  | succ rounds ih =>
    rw [raised]
    split_ifs
    · exact ih (by omega) length
    · exact hpos

/-- `skynet_mq_pop`. Of an empty queue the flag is taken away and the threshold is the first one
again. -/
def pop (q : MessageQueue) : Option SkynetMessage × MessageQueue :=
  match q.ring.pop with
  | some (message, ring) =>
    let w := raised ring.length ring.length q.overload q.overloadThreshold
    (some message, { q with ring := ring, overload := w.1, overloadThreshold := w.2,
                            threshold_pos := raised_pos q.threshold_pos _ _ })
  | none =>
    (none, { q with overloadThreshold := mqOverload, inGlobal := false,
                    threshold_pos := by decide })

/-- `skynet_mq_overload`: a length that was noted is read once. -/
def takeOverload (q : MessageQueue) : MessageQueue := { q with overload := 0 }

/-- The capacity after `expand_queue`. -/
def expanded (cap : ℕ) : ℕ := cap * 2

theorem lt_expanded (cap : ℕ) (h : 0 < cap) : cap < expanded cap := by
  rw [expanded]
  omega

/-- `skynet_mq_push`, without the push to the list of queues, which the flag before it decides. -/
def push (q : MessageQueue) (message : SkynetMessage) : MessageQueue :=
  { q with ring := q.ring.push expanded lt_expanded message, inGlobal := true }

/-- `skynet_mq_mark_release`, without the push to the list of queues. -/
def markRelease (q : MessageQueue) : MessageQueue := { q with release := true }

@[simp] theorem messages_create : create.messages = [] := RingBuffer.toList_empty _ _ _

@[simp] theorem messages_push (q : MessageQueue) (message : SkynetMessage) :
    (q.push message).messages = q.messages ++ [message] :=
  RingBuffer.toList_push expanded lt_expanded q.ring message

@[simp] theorem release_push (q : MessageQueue) (message : SkynetMessage) :
    (q.push message).release = q.release := rfl

@[simp] theorem inGlobal_push (q : MessageQueue) (message : SkynetMessage) :
    (q.push message).inGlobal = true := rfl

@[simp] theorem messages_markRelease (q : MessageQueue) : q.markRelease.messages = q.messages := rfl

@[simp] theorem messages_takeOverload (q : MessageQueue) :
    q.takeOverload.messages = q.messages := rfl

/-- **Pop.** The oldest message is taken out of a queue that is not empty, the threshold is not
below what is left, and nothing else changes that a thread decides by; an empty queue loses the
flag. -/
theorem pop_spec (q : MessageQueue) :
    (∃ message q', q.pop = (some message, q') ∧ q.messages = message :: q'.messages ∧
      q'.length ≤ q'.overloadThreshold ∧ q'.release = q.release ∧ q'.inGlobal = q.inGlobal) ∨
    (∃ q', q.pop = (none, q') ∧ q.messages = [] ∧ q'.messages = [] ∧
      q'.release = q.release ∧ q'.inGlobal = false) := by
  rcases q.ring.pop_eq with ⟨message, ring, hpop, hlist⟩ | ⟨hpop, hlist⟩
  · left
    rw [pop, hpop]
    refine ⟨message, _, rfl, hlist, ?_, rfl, rfl⟩
    exact length_le_threshold q.threshold_pos (Nat.le_add_right _ _)
  · right
    rw [pop, hpop]
    exact ⟨_, rfl, hlist, hlist, rfl, rfl⟩

end MessageQueue

end TestCluster.Skynet
