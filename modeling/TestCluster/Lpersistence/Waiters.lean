import Mathlib.Data.List.Nodup
import TestCluster.Lpersistence.Mysqlpool

/-!
# No waiter is stranded

A pending coroutine is woken by one that leaves the connect section, or that finds the
connection alive. While the lock is set somebody is inside, and who was woken goes inside or
wakes the next one.

## Main definitions

* `Slot.Served` — somebody is inside the connect section, or was woken
* `Slot.WaitInv` — the invariant that ties the lock, the queue and the wake-ups
* `Slot.Passes` — an attempt is finished, or a live connection is observed

## Main results

* `Slot.wakeNext_eq` — the oldest pending coroutine is woken
* `Slot.WaitInv.step` — every event before `CMD.stop` keeps the invariant
* `Mysqlpool.waiters_served` — no waiter of a slot is stranded
-/

namespace TestCluster.Lpersistence

open Lua Semantics

namespace Slot

variable {s s' : Slot} {co : ℕ} {p : Phase}

/-! ### The queue -/

/-- The queue holds coroutines that wait, each of them once. -/
def Queue (s : Slot) : Prop :=
  ∀ m, s.pending = some m → ∃ q, m.Holds q ∧ q.Nodup ∧ ∀ co ∈ q, s.phase co = .waiting

theorem Queue.setPhase (h : s.Queue) (hco : s.phase co ≠ .waiting) (p : Phase) :
    (s.setPhase co p).Queue := by
  intro m hm
  obtain ⟨q, hq, hnodup, hwaiting⟩ := h m hm
  refine ⟨q, hq, hnodup, fun co' hco' => ?_⟩
  rw [setPhase_of_ne]
  · exact hwaiting co' hco'
  · rintro rfl
    exact hco (hwaiting co' hco')

/-- An empty queue wakes nobody. -/
theorem wakeNext_empty (h : ∀ m, s.pending = some m → m.Holds []) : s.wakeNext = s := by
  unfold wakeNext
  cases hm : s.pending with
  | none => rfl
  | some m =>
    have hsize : ¬ 0 < m.size := fun hpos => (h m hm).size_pos_iff.mp hpos rfl
    simp only [if_neg hsize]

/-- **The oldest pending coroutine is woken.** -/
theorem wakeNext_eq {m : Memcache ℕ} {q : List ℕ} (hm : s.pending = some m)
    (hq : m.Holds (co :: q)) (hco : s.phase co = .waiting) :
    s.wakeNext = { s with pending := some m.pop.2 }.setPhase co .woken := by
  have hpop : m.pop = (some co, m.pop.2) := Prod.ext hq.pop.1 rfl
  have hsize : 0 < m.size := hq.size_pos_iff.mpr (List.cons_ne_nil _ _)
  unfold wakeNext
  rw [hm]
  simp only [if_pos hsize]
  rw [hpop]
  exact if_pos hco

theorem wakeNext_cases (h : s.Queue) :
    s.wakeNext = s ∧ (∀ m, s.pending = some m → m.Holds []) ∨
    ∃ co q m', s.phase co = .waiting ∧ m'.Holds q ∧ (co :: q).Nodup ∧
      (∀ co' ∈ q, s.phase co' = .waiting) ∧
      s.wakeNext = { s with pending := some m' }.setPhase co .woken := by
  cases hm : s.pending with
  | none =>
    have hempty : ∀ m, s.pending = some m → m.Holds [] := fun m hsome =>
      nomatch hm.symm.trans hsome
    rw [← hm]
    exact Or.inl ⟨wakeNext_empty hempty, hempty⟩
  | some m =>
    obtain ⟨q, hq, hnodup, hwaiting⟩ := h m hm
    cases q with
    | nil =>
      have hempty : ∀ m', s.pending = some m' → m'.Holds [] := by
        intro m' hm'
        obtain rfl := Option.some.inj (hm.symm.trans hm')
        exact hq
      rw [← hm]
      exact Or.inl ⟨wakeNext_empty hempty, hempty⟩
    | cons co q =>
      have hco := hwaiting co List.mem_cons_self
      exact Or.inr ⟨co, q, m.pop.2, hco, hq.pop.2, hnodup,
        fun co' h => hwaiting co' (List.mem_cons_of_mem _ h), wakeNext_eq hm hq hco⟩

/-! ### The invariant -/

/-- Somebody is inside the connect section, or was woken. -/
def Served (s : Slot) : Prop := (∃ co, (s.phase co).Inside) ∨ ∃ co, s.phase co = .woken

/-- The invariant that ties the lock, the queue and the wake-ups. -/
structure WaitInv (s : Slot) : Prop where
  queue : s.Queue
  locked : s.lock = true → ∃ co, (s.phase co).Inside
  served : ∀ m, s.pending = some m → 0 < m.size → s.Served
  present : ∀ co, s.phase co ≠ .idle → s.pool ≠ none

theorem waitInv_init : WaitInv init where
  queue _ hm := nomatch hm
  locked h := nomatch h
  served _ hm := nomatch hm
  present _ h := absurd rfl h

namespace WaitInv

/-- The connections do not matter, as long as there is one. -/
theorem congr (h : WaitInv s) (hpending : s'.pending = s.pending) (hlock : s'.lock = s.lock)
    (hphase : s'.phase = s.phase) (hpool : s.pool ≠ none → s'.pool ≠ none) : WaitInv s' := by
  obtain ⟨hqueue, hlocked, hserved, hpresent⟩ := h
  refine ⟨?_, ?_, ?_, ?_⟩
  · rw [Queue, hpending, hphase]
    exact hqueue
  · rw [hlock, hphase]
    exact hlocked
  · rw [hpending, Served, hphase]
    exact hserved
  · rw [hphase]
    exact fun co hco => hpool (hpresent co hco)

/-- A coroutine goes on that does not wait; if it was inside, or was woken, it is inside. -/
theorem setPhase (h : WaitInv s) (hwaiting : s.phase co ≠ .waiting)
    (hinside : (s.phase co).Inside → p.Inside) (hwoken : s.phase co = .woken → p.Inside)
    (hpool : p ≠ .idle → s.pool ≠ none) : WaitInv (s.setPhase co p) := by
  -- who was inside stays inside
  have hstays : ∀ co', (s.phase co').Inside → ((s.setPhase co p).phase co').Inside := by
    intro co' hin
    by_cases hco : co' = co
    · subst hco
      rw [setPhase_self]
      exact hinside hin
    · rw [setPhase_of_ne hco]
      exact hin
  refine ⟨h.queue.setPhase hwaiting p, ?_, ?_, ?_⟩
  · intro hlock
    obtain ⟨co', hin⟩ := h.locked hlock
    exact ⟨co', hstays co' hin⟩
  · intro m hm hsize
    rcases h.served m hm hsize with ⟨co', hin⟩ | ⟨co', hco'⟩
    · exact Or.inl ⟨co', hstays co' hin⟩
    · by_cases hco : co' = co
      · subst hco
        exact Or.inl ⟨co', by rw [setPhase_self]; exact hwoken hco'⟩
      · exact Or.inr ⟨co', by rw [setPhase_of_ne hco]; exact hco'⟩
  · intro co' hco'
    by_cases hco : co' = co
    · subst hco
      rw [setPhase_self] at hco'
      exact hpool hco'
    · rw [setPhase_of_ne hco] at hco'
      exact h.present co' hco'

/-- The next one is woken, whoever was served before. -/
theorem wakeNext (hqueue : s.Queue) (hlocked : s.lock = true → ∃ co, (s.phase co).Inside)
    (hpresent : ∀ co, s.phase co ≠ .idle → s.pool ≠ none) : WaitInv s.wakeNext := by
  rcases wakeNext_cases hqueue with ⟨hsame, hempty⟩ | ⟨co, q, m, hco, hq, hnodup, hwaiting, hwake⟩
  · rw [hsame]
    exact ⟨hqueue, hlocked, fun m hm hsize => absurd rfl ((hempty m hm).size_pos_iff.mp hsize),
      hpresent⟩
  · obtain ⟨hnotin, hnodup⟩ := List.nodup_cons.mp hnodup
    rw [hwake]
    refine ⟨?_, ?_, ?_, ?_⟩
    · intro m' hm'
      obtain rfl := Option.some.inj hm'
      refine ⟨q, hq, hnodup, fun co' hco' => ?_⟩
      rw [setPhase_of_ne]
      · exact hwaiting co' hco'
      · rintro rfl
        exact hnotin hco'
    · intro hlock
      obtain ⟨co', hin⟩ := hlocked hlock
      refine ⟨co', ?_⟩
      rw [setPhase_of_ne]
      · exact hin
      · rintro rfl
        rw [hco] at hin
        exact hin
    · -- whoever was woken will pass the wake-up on
      exact fun _ _ _ => Or.inr ⟨co, setPhase_self⟩
    · intro co' hco'
      by_cases heq : co' = co
      · exact hpresent co (hco.trans_ne nofun)
      · rw [setPhase_of_ne heq] at hco'
        exact hpresent co' hco'

/-! ### Steps -/

/-- Who leaves the connect section unlocks it. -/
theorem leave (h : WaitInv s) (hin : (s.phase co).Inside) :
    WaitInv (s.setPhase co .idle).unlock := by
  have hwaiting : s.phase co ≠ .waiting := by
    intro hwait
    rw [hwait] at hin
    exact hin
  -- the lock is clear, so only the wake-up is left to show
  apply wakeNext
  · exact h.queue.setPhase hwaiting .idle
  · exact fun hlock => nomatch hlock
  · intro co' hco'
    by_cases heq : co' = co
    · subst heq
      exact absurd setPhase_self hco'
    · exact h.present co' fun hidle => hco' ((setPhase_of_ne heq).trans hidle)

/-- A coroutine looks at the connection: it wakes the next one, or goes inside. -/
theorem observe (h : WaitInv s) (hidle : s.phase co ≠ .idle) (hwaiting : s.phase co ≠ .waiting)
    (hout : ¬ (s.phase co).Inside) : WaitInv (s.observe co) := by
  unfold Slot.observe
  cases hpool : s.pool with
  | none => exact absurd hpool (h.present co hidle)
  | some db =>
    simp only
    split_ifs
    · apply wakeNext
      · exact h.queue.setPhase hwaiting .idle
      · intro hlock
        obtain ⟨co', hin⟩ := h.locked hlock
        refine ⟨co', ?_⟩
        rw [setPhase_of_ne]
        · exact hin
        · rintro rfl
          exact hout hin
      · exact fun _ _ hnone => nomatch hpool.symm.trans hnone
    · have hinside : (((s.setLock true).setPhase co (.connecting db)).phase co).Inside := by
        rw [setPhase_self]
        trivial
      exact ⟨h.queue.setPhase hwaiting _, fun _ => ⟨co, hinside⟩, fun _ _ _ => Or.inl ⟨co, hinside⟩,
        fun _ _ hnone => nomatch hpool.symm.trans hnone⟩

/-- A coroutine whose query fails waits while the lock is set. -/
theorem reconn (h : WaitInv s) {db : ℕ} (hco : s.phase co = .querying db) :
    WaitInv (s.reconn co db) := by
  have hidle : s.phase co ≠ .idle := hco.trans_ne nofun
  have hwaiting : s.phase co ≠ .waiting := hco.trans_ne nofun
  have hwoken : s.phase co ≠ .woken := hco.trans_ne nofun
  have hout : ¬ (s.phase co).Inside := by
    rw [hco]
    exact id
  have hinactive : WaitInv (s.setActive db false) := h.congr rfl rfl rfl id
  have hends := hinactive.setPhase (p := .idle) hwaiting (fun hin => absurd hin hout)
    (fun hwoke => absurd hwoke hwoken) (fun hne => absurd rfl hne)
  unfold Slot.reconn
  simp only
  split_ifs with hlock
  · split
    case h_1 => exact hends
    case h_2 m hm =>
      split_ifs
      · exact hends
      · obtain ⟨q, hq, hnodup, hwaits⟩ := h.queue m hm
        -- a coroutine that queries is not in the queue
        have hnotin : co ∉ q := fun hin => hwaiting (hwaits co hin)
        obtain ⟨co', hin⟩ := h.locked hlock
        have hne : co' ≠ co := by
          rintro rfl
          exact hout hin
        have hstays : ((({ s.setActive db false with
            pending := some (m.pushBack co) } : Slot).setPhase co .waiting).phase co').Inside := by
          rw [setPhase_of_ne hne]
          exact hin
        refine ⟨?_, fun _ => ⟨co', hstays⟩, fun _ _ _ => Or.inl ⟨co', hstays⟩, ?_⟩
        · intro m' hm'
          obtain rfl := Option.some.inj hm'
          refine ⟨q ++ [co], hq.pushBack, List.nodup_append_comm.mpr (hnodup.cons hnotin), ?_⟩
          intro co₁ hco₁
          by_cases heq : co₁ = co
          · subst heq
            exact setPhase_self
          · rw [setPhase_of_ne heq]
            rcases List.mem_append.mp hco₁ with hq₁ | hself
            · exact hwaits co₁ hq₁
            · exact absurd (List.mem_singleton.mp hself) heq
        · exact fun _ _ => h.present co hidle
  · exact hinactive.observe hidle hwaiting hout

/-- The coroutine of an attempt goes on inside, or leaves. -/
theorem connected (h : WaitInv s) {db : ℕ} (hco : s.phase co = .connecting db) (o : Outcome) :
    WaitInv (s.connected co db o) := by
  have hin : (s.phase co).Inside := by
    rw [hco]
    trivial
  cases o with
  | success =>
    have hopened : WaitInv (s.openNew.disconnect db) := h.congr rfl rfl rfl id
    apply hopened.setPhase
    · exact hco.trans_ne nofun
    · exact fun _ => trivial
    · exact fun _ => trivial
    · exact fun _ => h.present co (hco.trans_ne nofun)
  | null => exact h.leave hin
  | exception => exact h.leave hin

theorem charsetDone (h : WaitInv s) {newDb : ℕ} (hco : s.phase co = .charset newDb) (o : Outcome) :
    WaitInv (s.charsetDone co newDb o) := by
  have hin : (s.phase co).Inside := by
    rw [hco]
    trivial
  have hset : WaitInv { s.setActive newDb true with pool := some newDb } :=
    h.congr rfl rfl rfl fun _ hnone => nomatch hnone
  cases o with
  | success => exact hset.leave hin
  | null => exact hset.leave hin
  | exception => exact h.leave hin

end WaitInv

/-- The pool is not stopped. -/
def BeforeStop (_ : Slot) (e : SlotEvent) : Prop := e ≠ .disconnect ∧ e ≠ .clear

/-- **Every event before `CMD.stop` keeps the invariant.** -/
theorem WaitInv.step (h : WaitInv s) {e : SlotEvent} (hok : BeforeStop s e)
    (hs : s.step e = some s') : WaitInv s' := by
  cases step_cases hs with
  | insert => exact h.congr rfl rfl rfl fun _ hnone => nomatch hnone
  | ready =>
    refine ⟨?_, fun hlock => (nomatch hlock), ?_, h.present⟩
    · intro m hm
      obtain rfl := Option.some.inj hm
      exact ⟨[], Memcache.holds_new, List.nodup_nil, fun _ hin => nomatch hin⟩
    · intro m hm hsize
      obtain rfl := Option.some.inj hm
      exact absurd rfl (Memcache.holds_new.size_pos_iff.mp hsize)
  | execute hco hpool =>
    apply h.setPhase
    · exact hco.trans_ne nofun
    · rw [hco]
      exact fun hin => hin.elim
    · exact hco.trans_ne nofun
    · exact fun _ hnone => nomatch hpool.symm.trans hnone
  | answered hco =>
    apply h.setPhase
    · exact hco.trans_ne nofun
    · rw [hco]
      exact fun hin => hin.elim
    · exact hco.trans_ne nofun
    · exact fun hne => absurd rfl hne
  | failed hco => exact h.reconn hco
  | resume hco =>
    apply h.observe
    · exact hco.trans_ne nofun
    · exact hco.trans_ne nofun
    · rw [hco]
      exact id
  | connected hco outcome => exact h.connected hco outcome
  | @disconnected co newDb hco =>
    apply h.setPhase
    · exact hco.trans_ne nofun
    · exact fun _ => trivial
    · exact fun _ => trivial
    · exact fun _ => h.present co (hco.trans_ne nofun)
  | charset hco outcome => exact h.charsetDone hco outcome
  | disconnect => exact absurd rfl hok.1
  | clear => exact absurd rfl hok.2

/-! ### Passing on -/

/-- An attempt is finished, or a coroutine that comes to look finds a live connection. -/
def Passes (s : Slot) : SlotEvent → Prop
  | .connected _ outcome => outcome ≠ .success
  | .charset _ _ => True
  | .resume _ => ∃ db, s.pool = some db ∧ s.active db = true
  | .failed co => s.lock = false ∧ ∃ db, s.pool = some db ∧ s.active db = true ∧
      s.phase co ≠ .querying db
  | _ => False

/-- The oldest pending coroutine is woken, and the others remain in the queue. -/
def PassesTo (m : Memcache ℕ) (s' : Slot) : Prop :=
  ∃ co, m.pop.1 = some co ∧ s'.phase co = .woken ∧ s'.pending = some m.pop.2 ∧
    m.pop.2.size + 1 = m.size

/-- A coroutine ends and wakes the next one. -/
theorem Queue.passesTo (h : s.Queue) {m : Memcache ℕ} (hm : s.pending = some m)
    (hsize : 0 < m.size) (hco : s.phase co ≠ .waiting) (lock : Bool) :
    PassesTo m ((s.setPhase co .idle).setLock lock).wakeNext := by
  obtain ⟨q, hq, -, hwaiting⟩ := h m hm
  cases q with
  | nil => exact absurd rfl (hq.size_pos_iff.mp hsize)
  | cons next q =>
    have hnext := hwaiting next List.mem_cons_self
    -- the next one waits, so it is not the coroutine that ends
    have hne : next ≠ co := by
      rintro rfl
      exact hco hnext
    have hwaits : ((s.setPhase co .idle).setLock lock).phase next = .waiting :=
      (setPhase_of_ne hne).trans hnext
    have hpending : ((s.setPhase co .idle).setLock lock).pending = some m := hm
    rw [wakeNext_eq hpending hq hwaits]
    refine ⟨next, hq.pop.1, setPhase_self, rfl, ?_⟩
    rw [hq.size_eq, hq.pop.2.size_eq, List.length_cons, Nat.cast_succ]

theorem Queue.observe_passesTo (h : s.Queue) {m : Memcache ℕ} (hm : s.pending = some m)
    (hsize : 0 < m.size) (hco : s.phase co ≠ .waiting) {db : ℕ} (hpool : s.pool = some db)
    (hactive : s.active db = true) : PassesTo m (s.observe co) := by
  unfold Slot.observe
  rw [hpool]
  simp only [if_pos hactive]
  exact h.passesTo hm hsize hco s.lock

/-- **A finished attempt, or a live connection, wakes the next one.** -/
theorem Queue.step_passesTo (h : s.Queue) {m : Memcache ℕ} (hm : s.pending = some m)
    (hsize : 0 < m.size) {e : SlotEvent} (he : s.Passes e) (hs : s.step e = some s') :
    PassesTo m s' := by
  cases step_cases hs with
  | @connected co db hco outcome =>
    have hwaiting : s.phase co ≠ .waiting := hco.trans_ne nofun
    cases outcome with
    | success => exact absurd rfl he
    | null => exact h.passesTo hm hsize hwaiting false
    | exception => exact h.passesTo hm hsize hwaiting false
  | @charset co newDb hco outcome =>
    have hwaiting : s.phase co ≠ .waiting := hco.trans_ne nofun
    have hset : Queue { s.setActive newDb true with pool := some newDb } := h
    cases outcome with
    | success => exact hset.passesTo hm hsize hwaiting false
    | null => exact hset.passesTo hm hsize hwaiting false
    | exception => exact h.passesTo hm hsize hwaiting false
  | resume hco =>
    obtain ⟨db, hpool, hactive⟩ := he
    refine h.observe_passesTo hm hsize ?_ hpool hactive
    exact hco.trans_ne nofun
  | @failed co old hco =>
    obtain ⟨hlock, db, hpool, hactive, hother⟩ := he
    -- the connection was replaced since the query began
    have hne : db ≠ old := by
      rintro rfl
      exact hother hco
    have hinactive : Queue (s.setActive old false) := h
    have hunlocked : ¬ (s.setActive old false).lock = true := by
      rw [show (s.setActive old false).lock = s.lock from rfl, hlock]
      exact fun heq => nomatch heq
    unfold Slot.reconn
    simp only [if_neg hunlocked]
    refine hinactive.observe_passesTo hm hsize ?_ hpool
      ((Function.update_of_ne hne ..).trans hactive)
    exact hco.trans_ne nofun
  | insert => exact he.elim
  | ready => exact he.elim
  | execute => exact he.elim
  | answered => exact he.elim
  | disconnected => exact he.elim
  | disconnect => exact he.elim
  | clear => exact he.elim

end Slot

namespace Mysqlpool

/-- **No waiter is stranded**: while the queue of a slot holds a coroutine, somebody is inside
its connect section or was woken, and whoever finishes wakes the oldest. -/
theorem waiters_served {n : ℕ} {p : Mysqlpool}
    (h : Reachable step (EachSlot Slot.BeforeStop) (init n) p) (i : ℕ) {m : Memcache ℕ}
    (hm : (p.slots i).pending = some m) (hsize : 0 < m.size) :
    (p.slots i).Served ∧ ∀ e s', (p.slots i).Passes e → (p.slots i).step e = some s' →
      Slot.PassesTo m s' := by
  have hinv : (p.slots i).WaitInv :=
    (slot_reachable h i).invariant Slot.waitInv_init fun _ _ _ hinv hok hs => hinv.step hok hs
  exact ⟨hinv.served m hm hsize, fun e s' he hs => hinv.queue.step_passesTo hm hsize he hs⟩

/-- A coroutine reconnects the slot 1, and another one waits for it. -/
def oneWaits : List PoolEvent :=
  [.slot 1 .insert, .slot 1 .ready, .execute 1 2, .execute 2 2, .slot 1 (.failed 1),
    .slot 1 (.failed 2)]

theorem waiters_served_one : ∃ p m, run step (init 2) oneWaits = some p ∧
    (p.slots 1).pending = some m ∧ m.size = 1 ∧ (p.slots 1).Served ∧
      ∀ e s', (p.slots 1).Passes e → (p.slots 1).step e = some s' → Slot.PassesTo m s' := by
  have hok : ∀ e ∈ oneWaits, ∀ p, EachSlot Slot.BeforeStop p e := by
    simp only [oneWaits, List.forall_mem_cons, List.not_mem_nil, false_implies, implies_true,
      and_true]
    exact ⟨fun _ => ⟨nofun, nofun⟩, fun _ => ⟨nofun, nofun⟩, fun _ => ⟨nofun, nofun⟩,
      fun _ => ⟨nofun, nofun⟩, fun _ => ⟨nofun, nofun⟩, fun _ => ⟨nofun, nofun⟩⟩
  have hrun : run step (init 2) oneWaits = some _ := rfl
  exact ⟨_, _, hrun, rfl, rfl, waiters_served (.of_run_of_forall hok hrun) 1 rfl (by decide)⟩

end Mysqlpool

end TestCluster.Lpersistence
