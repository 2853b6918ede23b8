import Mathlib.Data.Int.Notation
import TestCluster.Lua.Memcache
import TestCluster.Semantics.Machine

/-!
# The connection pool

`lua/lpersistence/mysqlpool.lua`. A slot of the pool has a connection, a lock and a queue of
pending coroutines; a coroutine whose query fails reconnects the slot. Between two yields a
coroutine runs alone, so an event is what one coroutine does from a yield to the next, and
the order of the events is that in which the coroutines are resumed.

The coroutines are numbered for each slot, and so are the connections, in the order in which
they were opened.

## Main definitions

* `Slot` — what belongs to one index of the pool
* `Slot.reconn`, `Slot.observe`, `Slot.unlock` — the parts of `gtables.reconn`
* `Slot.step` — an event of one slot
* `Mysqlpool.step` — an event of the pool
-/

namespace TestCluster.Lpersistence

open Lua

/-- Where a coroutine that executes a query has yielded: its first query is running, it waits
for its turn to reconnect, it was woken, or it is between the lock and the unlock, with the
connection that it replaces or with the one that it has opened. -/
inductive Phase
  | idle
  | querying (db : ℕ)
  | waiting
  | woken
  | connecting (db : ℕ)
  | disconnecting (newDb : ℕ)
  | charset (newDb : ℕ)
  deriving DecidableEq, Repr

/-- The coroutine is inside the connect section. -/
def Phase.Inside : Phase → Prop
  | connecting _ => True
  | disconnecting _ => True
  | charset _ => True
  | _ => False

instance : DecidablePred Phase.Inside
  | .connecting _ => isTrue trivial
  | .disconnecting _ => isTrue trivial
  | .charset _ => isTrue trivial
  | .idle => isFalse id
  | .querying _ => isFalse id
  | .waiting => isFalse id
  | .woken => isFalse id

/-- How `mysql.connect` or a query ends. -/
inductive Outcome
  | success
  | null
  | exception
  deriving DecidableEq, Repr

/-- What belongs to one index: `pool`, `pool_reconn_lock` and `pool_reconn_pending` there, the
coroutines, and of each connection that was opened whether it `kk_is_active` and whether it was
disconnected. -/
structure Slot where
  pool : Option ℕ
  lock : Bool
  pending : Option (Memcache ℕ)
  phase : ℕ → Phase
  opened : ℕ
  active : ℕ → Bool
  disconnected : ℕ → Bool

namespace Slot

/-- Nothing was set up. -/
def init : Slot where
  pool := none
  lock := false
  pending := none
  phase _ := .idle
  opened := 0
  active _ := false
  disconnected _ := false

variable (s : Slot)

/-- A coroutine goes on, or ends. -/
def setPhase (co : ℕ) (p : Phase) : Slot := { s with phase := Function.update s.phase co p }

/-- `pool_reconn_lock[now_index] = lock`. -/
def setLock (lock : Bool) : Slot := { s with lock := lock }

/-- `db.kk_is_active = active`. -/
def setActive (db : ℕ) (active : Bool) : Slot :=
  { s with active := Function.update s.active db active }

/-- `db:disconnect()`. -/
def disconnect (db : ℕ) : Slot :=
  { s with disconnected := Function.update s.disconnected db true }

/-- `mysql.connect` has returned a connection. -/
def openNew : Slot := { s with opened := s.opened + 1 }

/-- `skynet.wakeup`, of a coroutine that waits. -/
def wakeup (thread : ℕ) : Slot :=
  if s.phase thread = .waiting then s.setPhase thread .woken else s

/-- The oldest pending coroutine is woken. -/
def wakeNext : Slot :=
  match s.pending with
  -- the slot has no queue yet: `pending:size()` raises
  | none => s
  | some pending =>
    if 0 < pending.size then
      match pending.pop with
      | (some thread, pending) => { s with pending := some pending }.wakeup thread
      | (none, pending) => { s with pending := some pending }
    else s

/-- `unlock_func`. -/
def unlock : Slot := (s.setLock false).wakeNext

/-- `gtables.reconn` behind the wait, up to the call of `mysql.connect`. -/
def observe (co : ℕ) : Slot :=
  match s.pool with
  -- there is no connection whose `kk_is_active` could be read
  | none => s.setPhase co .idle
  | some db =>
    -- the connection was replaced meanwhile: the next one may go on
    if s.active db then (s.setPhase co .idle).wakeNext
    -- `pool_reconn_lock` is set without another look at it
    else (s.setLock true).setPhase co (.connecting db)

/-- `gtables.reconn`, up to where it yields. -/
def reconn (co db : ℕ) : Slot :=
  let s := s.setActive db false
  if s.lock then
    match s.pending with
    -- the slot has no queue: the error ends the call
    | none => s.setPhase co .idle
    | some pending =>
      -- too many wait already
      if pending.size > 2000 then s.setPhase co .idle
      else { s with pending := some (pending.pushBack co) }.setPhase co .waiting
  else s.observe co

/-- `to_connet_func` behind `mysql.connect`: the old connection is disconnected. -/
def connected (co db : ℕ) : Outcome → Slot
  | .success => (s.openNew.disconnect db).setPhase co (.disconnecting s.opened)
  -- `mysql.connect` has returned no connection
  | .null => (s.setPhase co .idle).unlock
  | .exception => (s.setPhase co .idle).unlock

/-- `to_connet_func` behind the query of the charset. An exception gets to the `unlock_func`
behind the `pcall`. -/
def charsetDone (co newDb : ℕ) : Outcome → Slot
  | .exception => (s.setPhase co .idle).unlock
  -- what the query returned is not looked at
  | _ => ({ s.setActive newDb true with pool := some newDb }.setPhase co .idle).unlock

end Slot

/-- What happens at a slot. `CMD.start` opens its connection and, when the charset is set,
makes it ready; `CMD.stop` disconnects its connection and drops it with the pool; the rest is
done by a coroutine of `CMD.execute` or `CMD.execute_send`. -/
inductive SlotEvent
  | insert
  | ready
  | execute (co : ℕ)
  | answered (co : ℕ)
  | failed (co : ℕ)
  | resume (co : ℕ)
  | connected (co : ℕ) (outcome : Outcome)
  | disconnected (co : ℕ)
  | charset (co : ℕ) (outcome : Outcome)
  | disconnect
  | clear
  deriving DecidableEq, Repr

namespace Slot

/-- An event of the slot. -/
def step (s : Slot) : SlotEvent → Option Slot
  -- `table.insert` puts the connection where there is none
  | .insert => if s.pool = none then some { s.openNew with pool := some s.opened } else none
  | .ready => some { s with lock := false, pending := some (.new ℕ) }
  | .execute co =>
    match s.phase co, s.pool with
    | .idle, some db => some (s.setPhase co (.querying db))
    | _, _ => none
  | .answered co =>
    match s.phase co with
    | .querying _ => some (s.setPhase co .idle)
    | _ => none
  | .failed co =>
    match s.phase co with
    | .querying db => some (s.reconn co db)
    | _ => none
  | .resume co =>
    match s.phase co with
    | .woken => some (s.observe co)
    | _ => none
  | .connected co outcome =>
    match s.phase co with
    | .connecting db => some (s.connected co db outcome)
    | _ => none
  | .disconnected co =>
    match s.phase co with
    | .disconnecting newDb => some (s.setPhase co (.charset newDb))
    | _ => none
  | .charset co outcome =>
    match s.phase co with
    | .charset newDb => some (s.charsetDone co newDb outcome)
    | _ => none
  | .disconnect => s.pool.map s.disconnect
  | .clear => some { s with pool := none }

/-- What an event can do to a slot. -/
inductive Stepped (s : Slot) : SlotEvent → Slot → Prop
  | insert (hpool : s.pool = none) : Stepped s .insert { s.openNew with pool := some s.opened }
  | ready : Stepped s .ready { s with lock := false, pending := some (.new ℕ) }
  | execute {co db : ℕ} (hco : s.phase co = .idle) (hpool : s.pool = some db) :
      Stepped s (.execute co) (s.setPhase co (.querying db))
  | answered {co db : ℕ} (hco : s.phase co = .querying db) :
      Stepped s (.answered co) (s.setPhase co .idle)
  | failed {co db : ℕ} (hco : s.phase co = .querying db) : Stepped s (.failed co) (s.reconn co db)
  | resume {co : ℕ} (hco : s.phase co = .woken) : Stepped s (.resume co) (s.observe co)
  | connected {co db : ℕ} (hco : s.phase co = .connecting db) (outcome : Outcome) :
      Stepped s (.connected co outcome) (s.connected co db outcome)
  | disconnected {co newDb : ℕ} (hco : s.phase co = .disconnecting newDb) :
      Stepped s (.disconnected co) (s.setPhase co (.charset newDb))
  | charset {co newDb : ℕ} (hco : s.phase co = .charset newDb) (outcome : Outcome) :
      Stepped s (.charset co outcome) (s.charsetDone co newDb outcome)
  | disconnect {db : ℕ} (hpool : s.pool = some db) : Stepped s .disconnect (s.disconnect db)
  | clear : Stepped s .clear { s with pool := none }

theorem step_cases {s s' : Slot} {e : SlotEvent} (h : s.step e = some s') : s.Stepped e s' := by
  cases e with
  | ready =>
    obtain rfl := Option.some.inj h
    exact .ready
  | clear =>
    obtain rfl := Option.some.inj h
    exact .clear
  | insert =>
    simp only [step] at h
    split_ifs at h with hpool
    obtain rfl := Option.some.inj h
    exact .insert hpool
  | disconnect =>
    obtain ⟨db, hpool, rfl⟩ := Option.map_eq_some_iff.mp h
    exact .disconnect hpool
  | execute co =>
    simp only [step] at h
    split at h
    case h_1 db hco hpool =>
      obtain rfl := Option.some.inj h
      exact .execute hco hpool
    case h_2 => exact nomatch h
  | answered co =>
    simp only [step] at h
    split at h
    case h_1 db hco =>
      obtain rfl := Option.some.inj h
      exact .answered hco
    case h_2 => exact nomatch h
  | failed co =>
    simp only [step] at h
    split at h
    case h_1 db hco =>
      obtain rfl := Option.some.inj h
      exact .failed hco
    case h_2 => exact nomatch h
  | resume co =>
    simp only [step] at h
    split at h
    case h_1 hco =>
      obtain rfl := Option.some.inj h
      exact .resume hco
    case h_2 => exact nomatch h
  | connected co outcome =>
    simp only [step] at h
    split at h
    case h_1 db hco =>
      obtain rfl := Option.some.inj h
      exact .connected hco outcome
    case h_2 => exact nomatch h
  | disconnected co =>
    simp only [step] at h
    split at h
    case h_1 newDb hco =>
      obtain rfl := Option.some.inj h
      exact .disconnected hco
    case h_2 => exact nomatch h
  | charset co outcome =>
    simp only [step] at h
    split at h
    case h_1 newDb hco =>
      obtain rfl := Option.some.inj h
      exact .charset hco outcome
    case h_2 => exact nomatch h

theorem setPhase_self {s : Slot} {co : ℕ} {p : Phase} : (s.setPhase co p).phase co = p :=
  Function.update_self ..

theorem setPhase_of_ne {s : Slot} {co co' : ℕ} {p : Phase} (h : co' ≠ co) :
    (s.setPhase co p).phase co' = s.phase co' :=
  Function.update_of_ne h ..

end Slot

/-- The pool. -/
structure Mysqlpool where
  maxconn : ℕ
  index : ℕ
  slots : ℕ → Slot

/-- What happens: a query is executed on a channel, with 0 for none, something happens at one
slot, or `CMD.stop` drops the pool. -/
inductive PoolEvent
  | execute (co : ℕ) (channel : ℤ)
  | slot (i : ℕ) (e : SlotEvent)
  | stop
  deriving DecidableEq, Repr

namespace Mysqlpool

/-- A service that has just been launched. -/
def init (maxconn : ℕ) : Mysqlpool := ⟨maxconn, 1, fun _ => .init⟩

variable (p : Mysqlpool)

/-- The index that `gtables.getconn` comes to, and the pool behind it. -/
def getconn (channel : ℤ) : ℕ × Mysqlpool :=
  if channel ≠ 0 then ((channel % p.maxconn + 1).toNat, p)
  else (p.index, { p with index := if p.index + 1 > p.maxconn then 1 else p.index + 1 })

/-- An event of one slot. -/
def stepSlot (i : ℕ) (e : SlotEvent) : Option Mysqlpool :=
  ((p.slots i).step e).map fun s => { p with slots := Function.update p.slots i s }

/-- An event of the pool. -/
def step (p : Mysqlpool) : PoolEvent → Option Mysqlpool
  | .execute co channel => (p.getconn channel).2.stepSlot (p.getconn channel).1 (.execute co)
  | .slot _ (.execute _) => none
  | .slot _ .clear => none
  | .slot i e => p.stepSlot i e
  | .stop => some { p with slots := fun i => { p.slots i with pool := none } }

/-! ### One slot of the pool -/

/-- A condition on the events of a slot, for each slot. -/
def EachSlot (ok : Slot → SlotEvent → Prop) (p : Mysqlpool) : PoolEvent → Prop
  | .execute co channel => ok (p.slots (p.getconn channel).1) (.execute co)
  | .slot i e => ok (p.slots i) e
  | .stop => ∀ i, ok (p.slots i) .clear

theorem getconn_slots (p : Mysqlpool) (channel : ℤ) : (p.getconn channel).2.slots = p.slots := by
  rw [getconn]
  split_ifs <;> rfl

/-- An event of one slot is an event of that slot, and leaves the others as they are. -/
theorem stepSlot_slots {p p' : Mysqlpool} {i : ℕ} {e : SlotEvent} (h : p.stepSlot i e = some p')
    (j : ℕ) : p'.slots j = p.slots j ∨ (j = i ∧ (p.slots j).step e = some (p'.slots j)) := by
  obtain ⟨s, hs, rfl⟩ := Option.map_eq_some_iff.mp h
  by_cases hj : j = i
  · subst hj
    have hself : Function.update p.slots j s j = s := Function.update_self ..
    exact Or.inr ⟨rfl, hs.trans (congrArg some hself.symm)⟩
  · exact Or.inl (Function.update_of_ne hj ..)

/-- A run of the pool is a run of each slot. -/
theorem slot_reachable {ok : Slot → SlotEvent → Prop} {n : ℕ} {p : Mysqlpool}
    (h : Semantics.Reachable step (EachSlot ok) (init n) p) (i : ℕ) :
    Semantics.Reachable Slot.step ok .init (p.slots i) := by
  refine h.project (fun p => p.slots i) ?_
  rintro p (⟨co, channel⟩ | ⟨j, e⟩ | _) p' hok hs
  · rcases stepSlot_slots hs i with hsame | ⟨rfl, hs⟩
    · rw [getconn_slots] at hsame
      exact Or.inl hsame
    · rw [getconn_slots] at hs
      exact Or.inr ⟨_, hok, hs⟩
  · have hs : p.stepSlot j e = some p' := by
      cases e with
      | execute => exact nomatch hs
      | clear => exact nomatch hs
      | _ => exact hs
    rcases stepSlot_slots hs i with hsame | ⟨rfl, hslot⟩
    · exact Or.inl hsame
    · exact Or.inr ⟨e, hok, hslot⟩
  · obtain rfl := Option.some.inj hs
    exact Or.inr ⟨.clear, hok i, rfl⟩

end Mysqlpool

end TestCluster.Lpersistence
