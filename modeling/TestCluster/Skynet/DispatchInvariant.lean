import TestCluster.Skynet.Dispatch

/-!
# The invariant of one service

Of every service a token goes round: its queue is in the list, or in the hands of one thread, as
long as the flag of the queue is set or the service has been deleted, and otherwise it is nowhere. The
reference count is the number of the threads that hold the service, one more while its handle is
registered, and one more until its launch has created the queue; the service is deleted once, by the
thread that brings the count to zero.

## Main definitions

* `Pc.tokens`, `Pc.refs`, `Pc.dels`, `Pc.makes` — the queues, the references, the deletions and the
  services without a queue of a thread
* `Sound` — what holds of one service and the numbers of these
* `Pc.Relies` — what a thread relies on
* `Service.Advances`, `Shared.Advances` — what no action takes back

## Main results

* `Sound.grab`, `Sound.release`, `Sound.push`, `Sound.take`, … — one lemma for each operation
* `Shared.Advances.relies` — a thread can still rely on it when others have acted
-/

namespace TestCluster.Skynet

open Semantics

/-! ### One service -/

namespace Service

/-- The number of tokens that are about. -/
def placed (v : Service) : ℕ :=
  match v.queue with
  | none => 0
  | some mq => if mq.inGlobal ∨ mq.release then 1 else 0

/-- Whether the service has been deleted. -/
def gone (v : Service) : ℕ := if v.alive then 0 else 1

/-- Whether the queue of the service has not been created yet. -/
def unmade (v : Service) : ℕ := if v.alive ∧ v.queue.isNone then 1 else 0

/-- The messages that wait. -/
def waiting (v : Service) : List SkynetMessage :=
  match v.queue with
  | none => []
  | some mq => mq.messages

theorem unmade_of_queue {v : Service} {mq : MessageQueue} (hqueue : v.queue = some mq) :
    v.unmade = 0 := by
  simp [unmade, hqueue]

theorem inbox_eq {v : Service} (halive : v.alive = true) : v.inbox = v.queue := if_pos halive

/-- A service does not lose what it was initialised to, it is not registered anew or under another
handle, and it does not come back. -/
structure Advances (v v' : Service) : Prop where
  handle : v'.handle = v.handle
  stored : v.stored = true → v'.stored = true
  init : v.init = true → v'.init = true
  registered : v'.registered = true → v.registered = true
  alive : v.alive = false → v'.alive = false
  spent : v.spent = true → v'.spent = true

theorem Advances.rfl {v : Service} : v.Advances v := ⟨Eq.refl _, id, id, id, id, id⟩

theorem not_spent_of_alive {v : Service} (halive : v.alive = true) : v.spent = false := by
  simp [spent, halive]

theorem not_spent_of_queue {v : Service} {mq : MessageQueue} (hqueue : v.queue = some mq) :
    v.spent = false := by
  simp [spent, hqueue]

/-- What is done to a queue. -/
theorem advances_of_queue {v : Service} {mq : MessageQueue} (hqueue : v.queue = some mq)
    (queue : Option MessageQueue) (alive : Bool) (halive : v.alive = false → alive = false)
    (pushed taken dropped : List SkynetMessage) :
    v.Advances { v with queue := queue, alive := alive, pushed := pushed, taken := taken,
                        dropped := dropped } where
  handle := Eq.refl _
  stored := id
  init := id
  registered := id
  alive := halive
  spent := by
    rw [not_spent_of_queue hqueue]
    intro h
    cases h

end Service

/-- What holds of a service, with the numbers of its tokens, of its references, of the threads that
delete it and of those that are to create its queue. -/
structure Sound (v : Service) (tokens refs dels makes : ℕ) : Prop where
  tokens_eq : tokens = v.placed
  ref_eq : v.ref = (if v.registered then 1 else 0) + makes + refs
  dels_eq : dels + v.gone = if v.ref = 0 then 1 else 0
  makes_eq : makes = v.unmade
  marked : ∀ mq, v.queue = some mq → mq.release = !v.alive
  idle : ∀ mq, v.queue = some mq → mq.inGlobal = false → mq.messages = [] ∧ v.init = true
  log : v.pushed = v.taken ++ v.dropped ++ v.waiting
  dropped : v.dropped ≠ [] → v.alive = false

namespace Sound

variable {v : Service} {tokens refs dels makes : ℕ}

theorem default : Sound {} 0 0 0 0 where
  tokens_eq := rfl
  ref_eq := rfl
  dels_eq := rfl
  makes_eq := rfl
  marked := by
    intro mq hmq
    cases hmq
  idle := by
    intro mq hmq
    cases hmq
  log := rfl
  dropped := fun h => absurd rfl h

/-- A service with a reference has not been deleted. -/
theorem alive_of_ref (h : Sound v tokens refs dels makes) (href : 0 < v.ref) : v.alive = true := by
  have hdels := h.dels_eq
  rw [if_neg href.ne', Service.gone] at hdels
  by_contra halive
  rw [if_neg halive] at hdels
  omega

/-- A service that has not been deleted has a queue, unless it is still to be created. -/
theorem exists_queue (h : Sound v tokens refs dels 0) (halive : v.alive = true) :
    ∃ mq, v.queue = some mq ∧ mq.release = false := by
  have hmakes := h.makes_eq
  cases hqueue : v.queue with
  | none => simp [Service.unmade, halive, hqueue] at hmakes
  | some mq =>
    refine ⟨mq, rfl, ?_⟩
    rw [h.marked mq hqueue, halive]
    rfl

/-- A token belongs to a queue that was not freed. -/
theorem exists_queue_of_token (h : Sound v (tokens + 1) refs dels makes) :
    tokens = 0 ∧ ∃ mq, v.queue = some mq ∧ (mq.inGlobal = true ∨ mq.release = true) := by
  have htokens := h.tokens_eq
  rw [Service.placed] at htokens
  cases hqueue : v.queue with
  | none =>
    rw [hqueue] at htokens
    simp at htokens
  | some mq =>
    rw [hqueue] at htokens
    simp only at htokens
    split_ifs at htokens with hplaced
    refine ⟨by omega, mq, rfl, hplaced⟩

theorem not_dropped (h : Sound v tokens refs dels makes) (halive : v.alive = true) :
    v.dropped = [] := by
  by_contra hne
  rw [h.dropped hne] at halive
  cases halive

/-- `skynet_handle_grab` -/
theorem grab (h : Sound v tokens refs dels makes) (hreg : v.registered = true) :
    Sound { v with ref := v.ref + 1 } tokens (refs + 1) dels makes := by
  have href := h.ref_eq
  have hdels := h.dels_eq
  rw [hreg, if_pos rfl] at href
  rw [if_neg (by omega)] at hdels
  refine ⟨h.tokens_eq, ?_, ?_, h.makes_eq, h.marked, h.idle, h.log, h.dropped⟩
  · simp only [hreg, if_true]
    omega
  · rw [if_neg (Nat.succ_ne_zero v.ref)]
    exact hdels

/-- `skynet_context_release`; the last one deletes the service. -/
theorem release (h : Sound v tokens (refs + 1) dels makes) :
    Sound { v with ref := v.ref - 1 } tokens refs (dels + if v.ref = 1 then 1 else 0) makes := by
  have href := h.ref_eq
  have hdels := h.dels_eq
  rw [if_neg (by omega)] at hdels
  refine ⟨h.tokens_eq, ?_, ?_, h.makes_eq, h.marked, h.idle, h.log, h.dropped⟩
  · simp only
    omega
  · change dels + (if v.ref = 1 then 1 else 0) + v.gone = if v.ref - 1 = 0 then 1 else 0
    split_ifs <;> omega

/-- A service that a thread deletes is complete, and has not been deleted. -/
theorem deletes (h : Sound v tokens refs (dels + 1) makes) :
    v.registered = false ∧ v.alive = true ∧ ∃ mq, v.queue = some mq ∧ mq.release = false := by
  have href := h.ref_eq
  have hdels := h.dels_eq
  have hzero : v.ref = 0 := by
    by_contra hne
    rw [if_neg hne] at hdels
    omega
  have halive : v.alive = true := by
    by_contra halive
    rw [Service.gone, if_neg halive, if_pos hzero] at hdels
    omega
  obtain rfl : makes = 0 := by omega
  refine ⟨?_, halive, h.exists_queue halive⟩
  by_contra hreg
  rw [if_pos (by simpa using hreg)] at href
  omega

/-- `delete_context` -/
theorem delete {mq : MessageQueue} (h : Sound v tokens refs (dels + 1) makes)
    (hqueue : v.queue = some mq) :
    Sound { v with alive := false, queue := some mq.markRelease }
      (tokens + if mq.inGlobal then 0 else 1) refs dels makes := by
  obtain ⟨-, halive, mq', hmq', hrelease⟩ := h.deletes
  obtain rfl := Option.some.inj (hqueue.symm.trans hmq')
  obtain ⟨htokens, href, hdels, hmakes, -, hidle, hlog, -⟩ := h
  simp only [Service.placed, Service.gone, hqueue, hrelease, halive, Bool.false_eq_true, or_false,
    if_true] at htokens hdels
  rw [Service.unmade_of_queue hqueue] at hmakes
  refine ⟨?_, href, ?_, hmakes, ?_, ?_, ?_, fun _ => rfl⟩
  · simp only [Service.placed, MessageQueue.markRelease, or_true, if_true]
    split_ifs at htokens ⊢ <;> omega
  · simp only [Service.gone, Bool.false_eq_true, if_false]
    omega
  · intro mq' hmq'
    obtain rfl := Option.some.inj hmq'
    rfl
  · intro mq' hmq' hflag
    obtain rfl := Option.some.inj hmq'
    exact hidle mq hqueue hflag
  · rw [hlog, Service.waiting, hqueue]
    rfl

/-- `skynet_mq_push`, by a thread that holds the service. -/
theorem push {mq : MessageQueue} (h : Sound v tokens refs dels makes) (href : 0 < v.ref)
    (hqueue : v.queue = some mq) (msg : SkynetMessage) :
    Sound { v with queue := some (mq.push msg), pushed := v.pushed ++ [msg] }
      (tokens + if mq.inGlobal then 0 else 1) refs dels makes := by
  have halive := h.alive_of_ref href
  have hrelease := h.marked mq hqueue
  obtain ⟨htokens, href', hdels, hmakes, -, hidle, hlog, hdropped⟩ := h
  rw [halive] at hrelease
  simp only [Service.placed, hqueue, hrelease] at htokens
  rw [Service.unmade_of_queue hqueue] at hmakes
  refine ⟨?_, href', hdels, ?_, ?_, ?_, ?_, hdropped⟩
  · simp only [Service.placed, MessageQueue.inGlobal_push, true_or, if_true]
    split_ifs at htokens ⊢ <;> simp_all
  · rw [hmakes, Service.unmade_of_queue rfl]
  · intro mq' hmq'
    obtain rfl := Option.some.inj hmq'
    rw [MessageQueue.release_push, hrelease, halive]
  · intro mq' hmq' hflag
    obtain rfl := Option.some.inj hmq'
    cases hflag
  · rw [hlog, Service.waiting, hqueue]
    simp [Service.waiting]

/-- A message that `skynet_mq_pop` takes for the callback, by a worker that holds the service. -/
theorem take {mq mq' : MessageQueue} (h : Sound v tokens refs dels makes) (href : 0 < v.ref)
    (hqueue : v.queue = some mq) {msg : SkynetMessage}
    (hlist : mq.messages = msg :: mq'.messages) (hrelease : mq'.release = mq.release)
    (hflag : mq'.inGlobal = mq.inGlobal) :
    Sound { v with queue := some mq', taken := v.taken ++ [msg] } tokens refs dels makes := by
  -- nothing is dropped while the service has not been deleted
  have hnil : v.dropped = [] := h.not_dropped (h.alive_of_ref href)
  obtain ⟨htokens, href', hdels, hmakes, hmarked, hidle, hlog, hdropped⟩ := h
  simp only [Service.placed, hqueue] at htokens
  rw [Service.unmade_of_queue hqueue] at hmakes
  refine ⟨?_, href', hdels, ?_, ?_, ?_, ?_, hdropped⟩
  · simpa only [Service.placed, hrelease, hflag] using htokens
  · rw [hmakes, Service.unmade_of_queue rfl]
  · intro mq₂ hmq₂
    obtain rfl := Option.some.inj hmq₂
    exact hrelease.trans (hmarked mq hqueue)
  · intro mq₂ hmq₂ hout
    obtain rfl := Option.some.inj hmq₂
    -- with a message in the queue the flag is set
    rw [hflag] at hout
    have := (hidle mq hqueue hout).1
    rw [hlist] at this
    cases this
  · simp only [Service.waiting, hqueue, hlist, hnil] at hlog ⊢
    simpa using hlog

/-- `skynet_mq_pop` of an empty queue of a service that has not been deleted, by the thread with the
token. -/
theorem yield {mq mq' : MessageQueue} (h : Sound v (tokens + 1) refs dels makes) (href : 0 < v.ref)
    (hqueue : v.queue = some mq) (hlist : mq'.messages = mq.messages)
    (hnil : mq.messages = []) (hrelease : mq'.release = mq.release)
    (hflag : mq'.inGlobal = false) (hinit : v.init = true) :
    Sound { v with queue := some mq' } tokens refs dels makes := by
  have hkept := h.marked mq hqueue
  rw [h.alive_of_ref href] at hkept
  obtain ⟨hzero, -⟩ := h.exists_queue_of_token
  obtain ⟨-, href', hdels, hmakes, hmarked, -, hlog, hdropped⟩ := h
  rw [Service.unmade_of_queue hqueue] at hmakes
  refine ⟨?_, href', hdels, ?_, ?_, ?_, ?_, hdropped⟩
  · simp [Service.placed, hrelease, hflag, hkept, hzero]
  · rw [hmakes, Service.unmade_of_queue rfl]
  · intro mq₂ hmq₂
    obtain rfl := Option.some.inj hmq₂
    exact hrelease.trans (hmarked mq hqueue)
  · intro mq₂ hmq₂ _
    obtain rfl := Option.some.inj hmq₂
    exact ⟨hlist.trans hnil, hinit⟩
  · simp only [Service.waiting, hqueue, hlist] at hlog ⊢
    exact hlog

/-- A message that `_drop_queue` drops. -/
theorem drop {mq mq' : MessageQueue} (h : Sound v tokens refs dels makes)
    (hqueue : v.queue = some mq) (hgone : v.alive = false) {msg : SkynetMessage}
    (hlist : mq.messages = msg :: mq'.messages)
    (hrelease : mq'.release = mq.release) (hflag : mq'.inGlobal = mq.inGlobal) :
    Sound { v with queue := some mq', dropped := v.dropped ++ [msg] } tokens refs dels makes := by
  obtain ⟨htokens, href', hdels, hmakes, hmarked, hidle, hlog, -⟩ := h
  simp only [Service.placed, hqueue] at htokens
  rw [Service.unmade_of_queue hqueue] at hmakes
  refine ⟨?_, href', hdels, ?_, ?_, ?_, ?_, fun _ => hgone⟩
  · simpa only [Service.placed, hrelease, hflag] using htokens
  · rw [hmakes, Service.unmade_of_queue rfl]
  · intro mq₂ hmq₂
    obtain rfl := Option.some.inj hmq₂
    exact hrelease.trans (hmarked mq hqueue)
  · intro mq₂ hmq₂ hout
    obtain rfl := Option.some.inj hmq₂
    rw [hflag] at hout
    have := (hidle mq hqueue hout).1
    rw [hlist] at this
    cases this
  · simp only [Service.waiting, hqueue, hlist] at hlog ⊢
    simpa using hlog

/-- `_release`, by the thread with the token. -/
theorem free {mq : MessageQueue} (h : Sound v (tokens + 1) refs dels makes)
    (hqueue : v.queue = some mq) (hgone : v.alive = false) (hnil : mq.messages = []) :
    Sound { v with queue := none } tokens refs dels makes := by
  obtain ⟨hzero, -⟩ := h.exists_queue_of_token
  obtain ⟨-, href', hdels, hmakes, -, -, hlog, -⟩ := h
  rw [Service.unmade_of_queue hqueue] at hmakes
  refine ⟨hzero, href', hdels, ?_, ?_, ?_, ?_, fun _ => hgone⟩
  · simp [hmakes, Service.unmade, hgone]
  · intro mq' hmq'
    cases hmq'
  · intro mq' hmq'
    cases hmq'
  · simp only [Service.waiting, hqueue, hnil] at hlog ⊢
    exact hlog

/-- `skynet_handle_retire`: the reference of the handle is now that of the thread. -/
theorem retire (h : Sound v tokens refs dels makes) (hreg : v.registered = true) :
    Sound { v with registered := false } tokens (refs + 1) dels makes := by
  have href := h.ref_eq
  rw [hreg, if_pos rfl] at href
  refine ⟨h.tokens_eq, ?_, h.dels_eq, h.makes_eq, h.marked, h.idle, h.log, h.dropped⟩
  simp only [Bool.false_eq_true, if_false]
  omega

/-- `skynet_handle_register`: the handle and the launch hold the service. -/
theorem register (handle : ℕ) :
    Sound { handle := handle, alive := true, ref := 2, registered := true } 0 0 0 1 where
  tokens_eq := rfl
  ref_eq := rfl
  dels_eq := rfl
  makes_eq := rfl
  marked := by
    intro mq hmq
    cases hmq
  idle := by
    intro mq hmq
    cases hmq
  log := rfl
  dropped := fun h => absurd rfl h

/-- What the thread knows that is to create the queue. -/
theorem unmade (h : Sound v tokens refs dels (makes + 1)) :
    makes = 0 ∧ tokens = 0 ∧ v.alive = true ∧ v.queue = none := by
  have htokens := h.tokens_eq
  have hmakes := h.makes_eq
  rw [Service.unmade] at hmakes
  split_ifs at hmakes with hunmade
  have hqueue : v.queue = none := by simpa using hunmade.2
  rw [Service.placed, hqueue] at htokens
  exact ⟨by omega, htokens, hunmade.1, hqueue⟩

/-- The store of `ctx->handle`. -/
theorem name (h : Sound v tokens refs dels makes) :
    Sound { v with stored := true } tokens refs dels makes :=
  ⟨h.tokens_eq, h.ref_eq, h.dels_eq, h.makes_eq, h.marked, h.idle, h.log, h.dropped⟩

/-- `skynet_mq_create`: the thread has the queue, and holds the service for itself. -/
theorem make (h : Sound v tokens refs dels (makes + 1)) :
    Sound { v with queue := some .create } (tokens + 1) (refs + 1) dels makes := by
  obtain ⟨hmakes, htokens, halive, hqueue⟩ := h.unmade
  obtain ⟨-, href, hdels, -, -, -, hlog, hdropped⟩ := h
  refine ⟨?_, ?_, hdels, ?_, ?_, ?_, ?_, hdropped⟩
  · rw [htokens]
    rfl
  · simp only
    omega
  · rw [hmakes, Service.unmade_of_queue rfl]
  · intro mq hmq
    obtain rfl := Option.some.inj hmq
    rw [halive]
    rfl
  · intro mq hmq hflag
    obtain rfl := Option.some.inj hmq
    cases hflag
  · rw [hlog, Service.waiting, hqueue]
    simp [Service.waiting]

/-- The length that was noted is no business of the others. -/
theorem takeOverload {mq : MessageQueue} (h : Sound v tokens refs dels makes)
    (hqueue : v.queue = some mq) :
    Sound { v with queue := some mq.takeOverload } tokens refs dels makes := by
  obtain ⟨htokens, href, hdels, hmakes, hmarked, hidle, hlog, hdropped⟩ := h
  simp only [Service.placed, Service.waiting, hqueue] at htokens hlog
  rw [Service.unmade_of_queue hqueue] at hmakes
  refine ⟨htokens, href, hdels, ?_, ?_, ?_, hlog, hdropped⟩
  · rw [hmakes, Service.unmade_of_queue rfl]
  · intro mq' hmq'
    obtain rfl := Option.some.inj hmq'
    exact hmarked mq hqueue
  · intro mq' hmq' hflag
    obtain rfl := Option.some.inj hmq'
    exact hidle mq hqueue hflag

/-- `ctx->init = true` -/
theorem initialise (h : Sound v tokens refs dels makes) :
    Sound { v with init := true } tokens refs dels makes :=
  ⟨h.tokens_eq, h.ref_eq, h.dels_eq, h.makes_eq, h.marked,
    fun mq hmq hflag => ⟨(h.idle mq hmq hflag).1, rfl⟩, h.log, h.dropped⟩

end Sound

/-! ### What a thread holds -/

/-- The queues that a thread still has in its hands when it goes on. -/
def After.tokens : After → List ℕ
  | work none | done => []
  | work (some q) | launch q | fail q _ | reap q => [q]

namespace Pc

/-- The queues that are in the hands of the thread. -/
def tokens : Pc → List ℕ
  | working (some q) | looping q _ _ | measuring q _ _ | calling q _ _ _ | turning q => [q]
  | swapping q nq => [q, nq]
  | releasing _ k | deleting _ k | retiring _ k => k.tokens
  | absent q k | dropping q k => q :: k.tokens
  | creating c | initialising c | publishing c _ => [c]
  | working none | sending _ _ | pushing _ _ | launching _ | naming _ | making _ | announcing _
  | answering _ | done => []

/-- The services that the thread holds. The launch of a service counts here from the creation of the
queue on. -/
def refs : Pc → List ℕ
  | looping c _ _ | measuring c _ _ | calling c _ _ _ | turning c | swapping c _ => [c]
  | releasing c _ | pushing c _ | creating c => [c]
  | _ => []

/-- The services that the thread deletes. -/
def dels : Pc → List ℕ
  | deleting c _ => [c]
  | _ => []

/-- The services whose queue the thread is to create. -/
def makes : Pc → List ℕ
  | naming c | making c => [c]
  | _ => []

/-- The services that the thread holds, with one that it launches from the registration on. -/
def holds (pc : Pc) : List ℕ := pc.refs ++ pc.makes

/-- Whether the thread is in the callback of a service, or in its `init` function. -/
def inside : Pc → List ℕ
  | calling c _ _ _ | creating c => [c]
  | _ => []

end Pc

@[simp] theorem After.tokens_resume (k : After) (deleted : Bool) :
    (k.resume deleted).tokens = k.tokens := by
  rcases k with (_ | q) | _ | _ | _ | _
  case launch => cases deleted <;> rfl
  all_goals rfl

@[simp] theorem After.refs_resume (k : After) (deleted : Bool) : (k.resume deleted).refs = [] := by
  rcases k with (_ | q) | _ | _ | _ | _
  case launch => cases deleted <;> rfl
  all_goals rfl

@[simp] theorem After.dels_resume (k : After) (deleted : Bool) : (k.resume deleted).dels = [] := by
  rcases k with (_ | q) | _ | _ | _ | _
  case launch => cases deleted <;> rfl
  all_goals rfl

@[simp] theorem After.makes_resume (k : After) (deleted : Bool) :
    (k.resume deleted).makes = [] := by
  rcases k with (_ | q) | _ | _ | _ | _
  case launch => cases deleted <;> rfl
  all_goals rfl

theorem nextRound_holds (q i n : ℕ) :
    (nextRound q i n).tokens = [q] ∧ (nextRound q i n).refs = [q] ∧ (nextRound q i n).dels = [] ∧
      (nextRound q i n).makes = [] := by
  rw [nextRound]
  split_ifs <;> exact ⟨rfl, rfl, rfl, rfl⟩

/-! ### What a thread relies on -/

/-- A service that is ready unless it cannot be grabbed any more. -/
def Shared.Ready (s : Shared) (c : ℕ) : Prop :=
  c < s.next ∧ ((s.services c).registered = true → (s.services c).init = true)

/-- A service that is ready. -/
def Shared.Begun (s : Shared) (c : ℕ) : Prop := c < s.next ∧ (s.services c).init = true

/-- A service that cannot be grabbed any more. -/
def Shared.Out (s : Shared) (c : ℕ) : Prop := c < s.next ∧ (s.services c).registered = false

/-- A service that has been deleted. -/
def Shared.Ended (s : Shared) (c : ℕ) : Prop := c < s.next ∧ (s.services c).alive = false

/-- A service with its handle. -/
def Shared.Named (s : Shared) (c handle : ℕ) : Prop :=
  c < s.next ∧ (s.services c).stored = true ∧ (s.services c).handle = handle

/-- What a thread relies on that goes on after `skynet_context_release` of the service `c`. -/
def After.Relies (s : Shared) (c : ℕ) : After → Prop
  | work (some q) => s.Ready q
  | launch c' => c' = c
  | fail c' handle => s.Named c' handle
  | reap q => s.Out q
  | work none | done => True

/-- What a thread relies on. -/
def Pc.Relies (s : Shared) : Pc → Prop
  | working (some q) | publishing q _ => s.Ready q
  | looping q _ _ | measuring q _ _ | calling q _ _ _ | turning q => s.Begun q
  | swapping q nq => s.Begun q ∧ s.Ready nq
  | releasing c k => k.Relies s c
  | deleting c k => s.Out c ∧ k.Relies s c
  | absent q k => s.Ready q ∧ (k = .work none ∨ k = .done)
  | dropping q k => s.Ended q ∧ (k = .work none ∨ k = .done)
  | making c | creating c => ∃ handle, s.Named c handle
  | retiring handle k => k = .done ∨ ∃ q, k = .reap q ∧ s.Named q handle
  | working none | sending _ _ | pushing _ _ | launching _ | naming _ | initialising _
  | announcing _ | answering _ | done => True

/-- No action takes anything back. -/
structure Shared.Advances (s s' : Shared) : Prop where
  next_le : s.next ≤ s'.next
  each : ∀ c < s.next, (s.services c).Advances (s'.services c)

namespace Shared.Advances

variable {s s' : Shared} {c handle : ℕ}

theorem ready (h : s.Advances s') (hc : s.Ready c) : s'.Ready c := by
  obtain ⟨hlt, hinit⟩ := hc
  refine ⟨lt_of_lt_of_le hlt h.next_le, fun hreg => ?_⟩
  apply (h.each c hlt).init
  apply hinit
  exact (h.each c hlt).registered hreg

theorem begun (h : s.Advances s') (hc : s.Begun c) : s'.Begun c :=
  ⟨lt_of_lt_of_le hc.1 h.next_le, (h.each c hc.1).init hc.2⟩

theorem out (h : s.Advances s') (hc : s.Out c) : s'.Out c := by
  refine ⟨lt_of_lt_of_le hc.1 h.next_le, ?_⟩
  by_contra hreg
  rw [Bool.not_eq_false] at hreg
  have := (h.each c hc.1).registered hreg
  rw [hc.2] at this
  cases this

theorem ended (h : s.Advances s') (hc : s.Ended c) : s'.Ended c :=
  ⟨lt_of_lt_of_le hc.1 h.next_le, (h.each c hc.1).alive hc.2⟩

theorem named (h : s.Advances s') (hc : s.Named c handle) : s'.Named c handle := by
  obtain ⟨hlt, hstored, hhandle⟩ := hc
  have heach := h.each c hlt
  exact ⟨lt_of_lt_of_le hlt h.next_le, heach.stored hstored, heach.handle.trans hhandle⟩

theorem after (h : s.Advances s') {k : After} (hk : k.Relies s c) : k.Relies s' c := by
  rcases k with (_ | q) | _ | _ | _ | _
  · trivial
  · exact h.ready hk
  · exact hk
  · exact h.named hk
  · exact h.out hk
  · trivial

theorem relies (h : s.Advances s') {pc : Pc} (hpc : pc.Relies s) : pc.Relies s' := by
  cases pc with
  | working q =>
    cases q with
    | none => trivial
    | some q => exact h.ready hpc
  | looping q i n => exact h.begun hpc
  | measuring q msg w => exact h.begun hpc
  | calling q i n msg => exact h.begun hpc
  | turning q => exact h.begun hpc
  | swapping q nq => exact ⟨h.begun hpc.1, h.ready hpc.2⟩
  | releasing c k => exact h.after hpc
  | deleting c k => exact ⟨h.out hpc.1, h.after hpc.2⟩
  | absent q k => exact ⟨h.ready hpc.1, hpc.2⟩
  | dropping q k => exact ⟨h.ended hpc.1, hpc.2⟩
  | making c | creating c =>
    obtain ⟨handle, hnamed⟩ := hpc
    exact ⟨handle, h.named hnamed⟩
  | publishing c kept => exact h.ready hpc
  | retiring handle k =>
    rcases hpc with rfl | ⟨q, rfl, hnamed⟩
    · exact .inl rfl
    · exact .inr ⟨q, rfl, h.named hnamed⟩
  | _ => trivial

end Shared.Advances

theorem Shared.Begun.ready {s : Shared} {c : ℕ} (h : s.Begun c) : s.Ready c := ⟨h.1, fun _ => h.2⟩

theorem Shared.Out.ready {s : Shared} {c : ℕ} (h : s.Out c) : s.Ready c := by
  refine ⟨h.1, fun hreg => ?_⟩
  rw [h.2] at hreg
  cases hreg

theorem afterPop_holds (weight : Option ℕ) (q i n : ℕ) (msg : SkynetMessage) :
    (afterPop weight q i n msg).tokens = [q] ∧ (afterPop weight q i n msg).refs = [q] ∧
      (afterPop weight q i n msg).dels = [] ∧ (afterPop weight q i n msg).makes = [] ∧
      ∀ s : Shared, s.Begun q → (afterPop weight q i n msg).Relies s := by
  cases weight with
  | none => exact ⟨rfl, rfl, rfl, rfl, fun _ h => h⟩
  | some w =>
    simp only [afterPop]
    split_ifs <;> exact ⟨rfl, rfl, rfl, rfl, fun _ h => h⟩

/-- A thread that goes on behind a release that did not delete the service. -/
theorem After.relies_resume {s : Shared} {c : ℕ} {k : After} (h : k.Relies s c) :
    (k.resume false).Relies s := by
  rcases k with (_ | q) | _ | ⟨c', handle⟩ | q | _
  · trivial
  · exact h
  · trivial
  · exact .inr ⟨c', rfl, h⟩
  · exact ⟨Shared.Out.ready h, .inr rfl⟩
  · trivial

/-- A thread that goes on after it has deleted the service. -/
theorem After.relies_resume_of_out {s : Shared} {c : ℕ} {k : After} (h : k.Relies s c)
    (hout : s.Out c) : (k.resume true).Relies s := by
  rcases k with (_ | q) | c' | ⟨c', handle⟩ | q | _
  · trivial
  · exact h
  · obtain rfl : c' = c := h
    exact hout.ready
  · exact .inr ⟨c', rfl, h⟩
  · exact ⟨Shared.Out.ready h, .inr rfl⟩
  · trivial

theorem After.relies_resume_of_rest {s : Shared} {k : After} (h : k = .work none ∨ k = .done) :
    (k.resume true).Relies s := by
  rcases h with rfl | rfl <;> trivial

/-! ### The table of the handles -/

theorem Shared.find_some {s : Shared} {c handle : ℕ} (h : s.find handle = some c) :
    (s.services c).registered = true ∧ s.Named c handle := by
  have hlt := List.mem_range.mp (List.mem_of_find?_eq_some h)
  have hfound := List.find?_some h
  simp only [Bool.and_eq_true, beq_iff_eq] at hfound
  exact ⟨hfound.1.1, hlt, hfound.1.2, hfound.2⟩

theorem Shared.out_of_find_none {s : Shared} {c handle : ℕ} (h : s.find handle = none)
    (hnamed : s.Named c handle) : s.Out c := by
  obtain ⟨hlt, hstored, hhandle⟩ := hnamed
  have hnone := List.find?_eq_none.mp h c (List.mem_range.mpr hlt)
  refine ⟨hlt, ?_⟩
  simpa [hstored, hhandle] using hnone

end TestCluster.Skynet
