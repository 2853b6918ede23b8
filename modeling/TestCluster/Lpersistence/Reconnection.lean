import TestCluster.Lpersistence.Mysqlpool

/-!
# At most one reconnection of a slot

`gtables.reconn` looks at the lock before it waits, and not again when it was woken: another
coroutine that has taken the lock in the meantime is joined inside. And a connection whose
query of the charset raises is dropped.

## Main definitions

* `Slot.OneInside`, `Slot.Settled` — at most one coroutine is inside the connect section, and
  every connection that was opened is accounted for
* `Slot.Orderly` — the condition on the steps
* `Slot.ConnInv` — the invariant of a run of orderly steps

## Main results

* `Slot.ConnInv.step` — an orderly step keeps the invariant
* `Mysqlpool.one_reconnection` — in a run of orderly steps at most one coroutine is inside
* `Mysqlpool.two_reconnections` — a run with two, and runs in which a connection is lost
-/

namespace TestCluster.Lpersistence

open Semantics

/-- The connection that was opened and is not in the pool yet. -/
def Phase.newDb : Phase → Option ℕ
  | disconnecting newDb => some newDb
  | charset newDb => some newDb
  | _ => none

theorem Phase.Inside.of_newDb {p : Phase} {db : ℕ} (h : p.newDb = some db) : p.Inside := by
  cases p with
  | disconnecting => trivial
  | charset => trivial
  | _ => exact nomatch h

namespace Slot

/-- At most one coroutine is inside the connect section. -/
def OneInside (s : Slot) : Prop :=
  ∀ co co', (s.phase co).Inside → (s.phase co').Inside → co = co'

/-- Every connection that was opened is the one in the pool, or was disconnected, or is being
set up inside the connect section. -/
def Settled (s : Slot) : Prop :=
  ∀ db < s.opened, s.pool = some db ∨ s.disconnected db = true ∨
    ∃ co, (s.phase co).newDb = some db

/-- A woken coroutine that finds the connection inactive finds the lock free, the query of the
charset does not raise, `CMD.stop` drops connections that it has disconnected, and `CMD.start`
sets up a slot while nobody is inside its connect section. -/
def Orderly (s : Slot) : SlotEvent → Prop
  | .resume _ => ∀ db, s.pool = some db → s.active db = false → s.lock = false
  | .charset _ outcome => outcome ≠ .exception
  | .clear => ∀ db, s.pool = some db → s.disconnected db = true
  | .insert => ∀ co, ¬ (s.phase co).Inside
  | .ready => ∀ co, ¬ (s.phase co).Inside
  | _ => True

/-- The invariant of a run of orderly steps. Who is inside holds the lock, and will replace the
connection in the pool or has disconnected it. -/
structure ConnInv (s : Slot) : Prop where
  unique : s.OneInside
  locked : ∀ co, (s.phase co).Inside → s.lock = true
  replaced : ∀ co, (s.phase co).Inside → ∀ db, s.pool = some db →
    s.phase co = .connecting db ∨ s.disconnected db = true
  settled : s.Settled

theorem connInv_init : ConnInv init where
  unique _ _ h := h.elim
  locked _ h := h.elim
  replaced _ h := h.elim
  settled _ h := absurd h (Nat.not_lt_zero _)

theorem disconnect_mono {s : Slot} {db : ℕ} (db' : ℕ) (h : s.disconnected db' = true) :
    (s.disconnect db).disconnected db' = true := by
  show Function.update s.disconnected db true db' = true
  by_cases heq : db' = db
  · rw [heq, Function.update_self]
  · rw [Function.update_of_ne heq, h]

namespace ConnInv

variable {s s' : Slot} {co : ℕ} {p : Phase}

/-- What a queue holds does not matter, nor what is known of a connection. -/
theorem congr (h : ConnInv s) (hphase : s'.phase = s.phase) (hlock : s'.lock = s.lock)
    (hpool : s'.pool = s.pool) (hopened : s'.opened = s.opened)
    (hdisconnected : ∀ db, s.disconnected db = true → s'.disconnected db = true) : ConnInv s' := by
  obtain ⟨hunique, hlocked, hreplaced, hsettled⟩ := h
  refine ⟨?_, ?_, ?_, ?_⟩
  · rw [OneInside, hphase]
    exact hunique
  · rw [hphase, hlock]
    exact hlocked
  · rw [hphase, hpool]
    exact fun co hin db hdb => (hreplaced co hin db hdb).imp_right (hdisconnected db)
  · rw [Settled, hphase, hpool, hopened]
    exact fun db hdb => (hsettled db hdb).imp_right (Or.imp_left (hdisconnected db))

/-- A coroutine outside goes on outside. -/
theorem outside (h : ConnInv s) (hco : ¬ (s.phase co).Inside) (hp : ¬ p.Inside) :
    ConnInv (s.setPhase co p) := by
  -- whoever is inside is another coroutine, and is where it was
  have hsame : ∀ {co'}, ((s.setPhase co p).phase co').Inside →
      (s.setPhase co p).phase co' = s.phase co' := by
    intro co' hin
    apply setPhase_of_ne
    rintro rfl
    rw [setPhase_self] at hin
    exact hp hin
  refine ⟨?_, ?_, ?_, ?_⟩
  · intro co₁ co₂ h₁ h₂
    apply h.unique co₁ co₂
    · rw [← hsame h₁]
      exact h₁
    · rw [← hsame h₂]
      exact h₂
  · intro co' hin
    apply h.locked co'
    rw [← hsame hin]
    exact hin
  · intro co' hin
    rw [hsame hin]
    rw [hsame hin] at hin
    exact h.replaced co' hin
  · intro db hdb
    rcases h.settled db hdb with hpool | hdisconnected | ⟨co', hnew⟩
    · exact Or.inl hpool
    · exact Or.inr (Or.inl hdisconnected)
    · refine Or.inr (Or.inr ⟨co', ?_⟩)
      rw [setPhase_of_ne]
      · exact hnew
      · rintro rfl
        exact hco (.of_newDb hnew)

theorem wakeup (h : ConnInv s) (thread : ℕ) : ConnInv (s.wakeup thread) := by
  unfold Slot.wakeup
  split_ifs with hwaiting
  · apply h.outside
    · rw [hwaiting]
      exact id
    · exact id
  · exact h

theorem wakeNext (h : ConnInv s) : ConnInv s.wakeNext := by
  unfold Slot.wakeNext
  split
  case h_1 => exact h
  case h_2 m hm =>
    split_ifs
    · split
      case h_1 thread m' hpop =>
        have hpopped : ConnInv { s with pending := some m' } := h.congr rfl rfl rfl rfl fun _ => id
        exact hpopped.wakeup thread
      case h_2 m' hpop => exact h.congr rfl rfl rfl rfl fun _ => id
    · exact h

/-- The only one inside leaves. -/
theorem leave (hout : ∀ co', (s.phase co').Inside → co' = co)
    (hsettled : ∀ db < s.opened, s.pool = some db ∨ s.disconnected db = true) :
    ConnInv (s.setPhase co .idle).unlock := by
  apply wakeNext
  have hempty : ∀ co', ¬ ((s.setPhase co .idle).phase co').Inside := by
    intro co' hin
    by_cases hco : co' = co
    · subst hco
      rw [setPhase_self] at hin
      exact hin
    · rw [setPhase_of_ne hco] at hin
      exact hco (hout co' hin)
  exact ⟨fun co₁ _ h₁ => absurd h₁ (hempty co₁), fun co' hin => absurd hin (hempty co'),
    fun co' hin => absurd hin (hempty co'), fun db hdb => (hsettled db hdb).imp_right Or.inl⟩

/-- Where a connection is that nobody sets up. -/
theorem settled_of (h : ConnInv s) {p : Phase} (hco : s.phase co = p) (hin : p.Inside) :
    ∀ db < s.opened, s.pool = some db ∨ s.disconnected db = true ∨ p.newDb = some db := by
  subst hco
  intro db hdb
  rcases h.settled db hdb with hpool | hdisconnected | ⟨co', hco'⟩
  · exact Or.inl hpool
  · exact Or.inr (Or.inl hdisconnected)
  · obtain rfl := h.unique co' co (.of_newDb hco') hin
    exact Or.inr (Or.inr hco')

/-- A coroutine looks at the connection while the lock is free, or the connection is alive. -/
theorem observe (h : ConnInv s) (hco : ¬ (s.phase co).Inside)
    (hlock : ∀ db, s.pool = some db → s.active db = false → s.lock = false) :
    ConnInv (s.observe co) := by
  unfold Slot.observe
  cases hpool : s.pool with
  | none => exact h.outside hco id
  | some db =>
    simp only
    split_ifs with hactive
    · exact (h.outside hco id).wakeNext
    · -- the lock is clear, so nobody is inside yet
      have hfree : ∀ co', ¬ (s.phase co').Inside := by
        intro co' hin
        have hfalse := hlock db hpool (Bool.eq_false_iff.mpr hactive)
        exact nomatch hfalse.symm.trans (h.locked co' hin)
      have honly : ∀ co', (((s.setLock true).setPhase co (.connecting db)).phase co').Inside →
          co' = co := by
        intro co' hin
        by_contra hne
        rw [setPhase_of_ne hne] at hin
        exact hfree co' hin
      refine ⟨?_, fun _ _ => rfl, ?_, ?_⟩
      · intro co₁ co₂ h₁ h₂
        rw [honly co₁ h₁, honly co₂ h₂]
      · intro co' hin db' hdb'
        obtain rfl := honly co' hin
        obtain rfl := Option.some.inj (hpool.symm.trans hdb')
        exact Or.inl setPhase_self
      · intro db' hdb'
        rcases h.settled db' hdb' with hpool' | hdisconnected | ⟨co', hnew⟩
        · exact Or.inl hpool'
        · exact Or.inr (Or.inl hdisconnected)
        · exact absurd (.of_newDb hnew) (hfree co')

/-- A coroutine whose query fails comes to look only while the lock is free. -/
theorem reconn (h : ConnInv s) (hco : ¬ (s.phase co).Inside) (db : ℕ) :
    ConnInv (s.reconn co db) := by
  have hinactive : ConnInv (s.setActive db false) := h.congr rfl rfl rfl rfl fun _ => id
  -- the lock is set, and there is no queue or too long a one: the call ends
  have hends : ConnInv ((s.setActive db false).setPhase co .idle) := hinactive.outside hco id
  unfold Slot.reconn
  simp only
  split_ifs with hlock
  · split
    case h_1 => exact hends
    case h_2 m hm =>
      split_ifs
      · exact hends
      · have hpushed : ConnInv { s.setActive db false with pending := some (m.pushBack co) } :=
          hinactive.congr rfl rfl rfl rfl fun _ => id
        exact hpushed.outside hco id
  · exact hinactive.observe hco fun _ _ _ => Bool.eq_false_iff.mpr hlock

/-- An attempt has come to an end, or goes on with a new connection. -/
theorem connected (h : ConnInv s) {db : ℕ} (hco : s.phase co = .connecting db) (o : Outcome) :
    ConnInv (s.connected co db o) := by
  have hin : (s.phase co).Inside := by
    rw [hco]
    trivial
  have honly : ∀ co', (s.phase co').Inside → co' = co := fun co' hin' => h.unique co' co hin' hin
  have hsettled : ∀ db < s.opened, s.pool = some db ∨ s.disconnected db = true := by
    intro db' hdb'
    rcases h.settled_of hco trivial db' hdb' with hpool | hdisconnected | hnone
    · exact Or.inl hpool
    · exact Or.inr hdisconnected
    · exact nomatch hnone
  have hleave : ConnInv (s.setPhase co .idle).unlock := leave honly hsettled
  cases o with
  | null => exact hleave
  | exception => exact hleave
  | success =>
    have honly' : ∀ co', ((s.connected co db .success).phase co').Inside → co' = co := by
      intro co' hin'
      by_contra hne
      have hold : (s.connected co db .success).phase co' = s.phase co' := setPhase_of_ne hne
      rw [hold] at hin'
      exact hne (honly co' hin')
    -- the connection that the attempt began with is disconnected now
    have hmono : ∀ db', s.disconnected db' = true →
        (s.connected co db .success).disconnected db' = true := disconnect_mono
    refine ⟨?_, fun _ _ => h.locked co hin, ?_, ?_⟩
    · intro co₁ co₂ h₁ h₂
      rw [honly' co₁ h₁, honly' co₂ h₂]
    · intro co' _ db' hdb'
      rcases h.replaced co hin db' hdb' with hsame | hdisconnected
      · obtain rfl := Phase.connecting.inj (hco.symm.trans hsame)
        exact Or.inr (Function.update_self ..)
      · exact Or.inr (hmono db' hdisconnected)
    · intro db' hdb'
      rcases Nat.lt_succ_iff_lt_or_eq.mp hdb' with hlt | rfl
      · exact (hsettled db' hlt).imp_right fun hdisconnected => Or.inl (hmono db' hdisconnected)
      · refine Or.inr (Or.inr ⟨co, ?_⟩)
        have hself : (s.connected co db .success).phase co = .disconnecting s.opened :=
          setPhase_self
        rw [hself]
        rfl

/-- The old connection is disconnected, and the charset of the new one is set. -/
theorem disconnected (h : ConnInv s) {newDb : ℕ} (hco : s.phase co = .disconnecting newDb) :
    ConnInv (s.setPhase co (.charset newDb)) := by
  have hin : (s.phase co).Inside := by
    rw [hco]
    trivial
  -- nobody else is inside
  have honly : ∀ co', ((s.setPhase co (.charset newDb)).phase co').Inside → co' = co := by
    intro co' hin'
    by_contra hne
    rw [setPhase_of_ne hne] at hin'
    exact hne (h.unique co' co hin' hin)
  refine ⟨?_, fun _ _ => h.locked co hin, ?_, ?_⟩
  · intro co₁ co₂ h₁ h₂
    rw [honly co₁ h₁, honly co₂ h₂]
  · intro co' _ db hdb
    rcases h.replaced co hin db hdb with hsame | hdisconnected
    · -- the old connection is no longer in use
      exact nomatch hco.symm.trans hsame
    · exact Or.inr hdisconnected
  · intro db hdb
    rcases h.settled_of hco trivial db hdb with hpool | hdisconnected | hdb'
    · exact Or.inl hpool
    · exact Or.inr (Or.inl hdisconnected)
    · obtain rfl := Option.some.inj hdb'
      refine Or.inr (Or.inr ⟨co, ?_⟩)
      rw [setPhase_self]
      rfl

/-- The new connection gets into the pool. -/
theorem charsetDone (h : ConnInv s) {newDb : ℕ} (hco : s.phase co = .charset newDb) {o : Outcome}
    (ho : o ≠ .exception) : ConnInv (s.charsetDone co newDb o) := by
  have hin : (s.phase co).Inside := by
    rw [hco]
    trivial
  have hdone : ConnInv
      ({ s.setActive newDb true with pool := some newDb }.setPhase co .idle).unlock := by
    apply leave
    · exact fun co' hin' => h.unique co' co hin' hin
    · intro db hdb
      rcases h.settled_of hco trivial db hdb with hpool | hdisconnected | hdb'
      · -- the connection that the pool gives up was disconnected before
        rcases h.replaced co hin db hpool with hsame | hdisconnected
        · exact nomatch hco.symm.trans hsame
        · exact Or.inr hdisconnected
      · exact Or.inr hdisconnected
      · exact Or.inl hdb'
  cases o with
  | success => exact hdone
  | null => exact hdone
  | exception => exact absurd rfl ho

/-- `CMD.start` opens the connection of a slot. -/
theorem insert (h : ConnInv s) (hpool : s.pool = none) (hfree : ∀ co, ¬ (s.phase co).Inside) :
    ConnInv { s.openNew with pool := some s.opened } := by
  refine ⟨h.unique, h.locked, fun co hin => absurd hin (hfree co), ?_⟩
  intro db hdb
  rcases Nat.lt_succ_iff_lt_or_eq.mp hdb with hlt | rfl
  · rcases h.settled db hlt with hsome | hdisconnected | ⟨co, hnew⟩
    · exact nomatch hpool.symm.trans hsome
    · exact Or.inr (Or.inl hdisconnected)
    · exact absurd (.of_newDb hnew) (hfree co)
  · exact Or.inl rfl

/-- **An orderly step keeps the invariant.** -/
theorem step (h : ConnInv s) {e : SlotEvent} (hok : s.Orderly e) (hs : s.step e = some s') :
    ConnInv s' := by
  cases step_cases hs with
  | insert hpool => exact h.insert hpool hok
  | ready =>
    exact ⟨h.unique, fun co hin => absurd hin (hok co), h.replaced, h.settled⟩
  | execute hco hpool =>
    apply h.outside
    · rw [hco]
      exact id
    · exact id
  | answered hco =>
    apply h.outside
    · rw [hco]
      exact id
    · exact id
  | failed hco =>
    apply h.reconn
    rw [hco]
    exact id
  | resume hco =>
    refine h.observe ?_ hok
    rw [hco]
    exact id
  | connected hco outcome => exact h.connected hco outcome
  | disconnected hco => exact h.disconnected hco
  | charset hco outcome => exact h.charsetDone hco hok
  | @disconnect db hpool =>
    have hmono := @disconnect_mono s db
    exact h.congr rfl rfl rfl rfl hmono
  | clear =>
    refine ⟨h.unique, h.locked, fun _ _ _ hdb => (nomatch hdb), ?_⟩
    intro db hdb
    rcases h.settled db hdb with hpool | hsettled
    · exact Or.inr (Or.inl (hok db hpool))
    · exact Or.inr hsettled

end ConnInv

end Slot

namespace Mysqlpool

/-- **At most one coroutine is inside the connect section** of a slot in a run of orderly steps,
and every connection that was opened for the slot is accounted for. -/
theorem one_reconnection {n : ℕ} {p : Mysqlpool}
    (h : Reachable step (EachSlot Slot.Orderly) (init n) p) (i : ℕ) :
    (p.slots i).OneInside ∧ (p.slots i).Settled := by
  have hinv : (p.slots i).ConnInv :=
    (slot_reachable h i).invariant Slot.connInv_init fun _ _ _ hinv hok hs => hinv.step hok hs
  exact ⟨hinv.unique, hinv.settled⟩

/-- The connection of a slot is replaced, while a second coroutine waits. -/
def replaceOnce : List PoolEvent :=
  [.execute 1 2, .execute 2 2, .slot 1 (.failed 1), .slot 1 (.failed 2),
    .slot 1 (.connected 1 .success), .slot 1 (.disconnected 1), .slot 1 (.charset 1 .success)]

/-- The second coroutine is woken and finds the connection replaced. -/
theorem one_reconnection_replaced :
    ∃ p, run step (init 2) ([.slot 1 .insert, .slot 1 .ready] ++ replaceOnce ++
        [.slot 1 (.resume 2)]) = some p ∧
      (p.slots 1).pool = some 1 ∧ (p.slots 1).OneInside ∧ (p.slots 1).Settled := by
  have hstart : Reachable step (EachSlot Slot.Orderly) (init 2) _ :=
    .next (.next .start (e := .slot 1 .insert) (fun _ => id) rfl)
      (e := .slot 1 .ready) (fun _ => id) rfl
  have hok : ∀ e ∈ replaceOnce, ∀ p, EachSlot Slot.Orderly p e := by
    simp only [replaceOnce, List.forall_mem_cons, List.not_mem_nil, false_implies, implies_true,
      and_true]
    exact ⟨fun _ => trivial, fun _ => trivial, fun _ => trivial, fun _ => trivial, fun _ => trivial,
      fun _ => trivial, fun _ => nofun⟩
  have hreplaced := hstart.trans (.of_run_of_forall hok rfl)
  have hresumed := hreplaced.next (e := .slot 1 (.resume 2)) (by
    -- the lock is free when the second one is resumed
    intro db _ _
    rfl) rfl
  exact ⟨_, rfl, rfl, one_reconnection hresumed 1⟩

/-- The first attempt fails and wakes the second coroutine, but the third one takes the lock
before that. -/
def wokenLate : List PoolEvent :=
  [.slot 1 .insert, .slot 1 .ready, .execute 1 2, .execute 2 2, .execute 3 2, .slot 1 (.failed 1),
    .slot 1 (.failed 2), .slot 1 (.connected 1 .null), .slot 1 (.failed 3), .slot 1 (.resume 2)]

/-- Both of them replace the connection. -/
def bothReplace : List PoolEvent :=
  [.slot 1 (.connected 2 .success), .slot 1 (.disconnected 2), .slot 1 (.charset 2 .success),
    .slot 1 (.connected 3 .success), .slot 1 (.disconnected 3), .slot 1 (.charset 3 .success)]

/-- A single coroutine replaces the connection, and the query of the charset raises. -/
def charsetRaises : List PoolEvent :=
  [.slot 1 .insert, .slot 1 .ready, .execute 1 2, .slot 1 (.failed 1),
    .slot 1 (.connected 1 .success), .slot 1 (.disconnected 1), .slot 1 (.charset 1 .exception)]

/-- A connection is lost that is not in the pool and was not disconnected, when nobody is inside. -/
theorem not_settled_of_idle {s : Slot} (db : ℕ) (hidle : ∀ co, s.phase co = .idle)
    (hopened : db < s.opened) (hpool : s.pool ≠ some db) (hdisconnected : s.disconnected db = false) :
    ¬ s.Settled := by
  intro hsettled
  rcases hsettled db hopened with h | h | ⟨co, hnew⟩
  · exact hpool h
  · cases hdisconnected.symm.trans h
  · rw [hidle co] at hnew
    cases hnew

/-- **Two coroutines are inside the connect section**, and the connection of the first is lost:
it is not in the pool, it was not disconnected, and nobody is inside any more. A connection is lost
as well by a single coroutine, when the query of the charset raises. -/
theorem two_reconnections :
    (∃ p, Reachable step anyStep (init 2) p ∧ ¬ (p.slots 1).OneInside) ∧
      (∃ p, run step (init 2) (wokenLate ++ bothReplace) = some p ∧
        (∀ co, (p.slots 1).phase co = .idle) ∧ ¬ (p.slots 1).Settled) ∧
      ∃ p, run step (init 2) charsetRaises = some p ∧
        (∀ co, (p.slots 1).phase co = .idle) ∧ ¬ (p.slots 1).Settled := by
  have hlate : run step (init 2) wokenLate = some _ := rfl
  obtain ⟨p, hp⟩ : ∃ p, run step (init 2) (wokenLate ++ bothReplace) = some p := ⟨_, rfl⟩
  obtain ⟨p', hp'⟩ : ∃ p, run step (init 2) charsetRaises = some p := ⟨_, rfl⟩
  have hslot := (Option.some.inj hp).symm
  have hslot' := (Option.some.inj hp').symm
  refine ⟨⟨_, .of_run hlate, fun hone => ?_⟩, ⟨p, hp, ?_⟩, p', hp', ?_⟩
  · exact absurd (hone 2 3 trivial trivial) (by decide)
  · have hidle : ∀ co, (p.slots 1).phase co = .idle := by
      rw [hslot]
      rintro (_ | _ | _ | _ | co) <;> rfl
    refine ⟨hidle, not_settled_of_idle 1 hidle ?_ ?_ ?_⟩ <;>
    · rw [hslot]
      decide
  · have hidle : ∀ co, (p'.slots 1).phase co = .idle := by
      rw [hslot']
      rintro (_ | _ | co) <;> rfl
    refine ⟨hidle, not_settled_of_idle 1 hidle ?_ ?_ ?_⟩ <;>
    · rw [hslot']
      decide

end Mysqlpool

end TestCluster.Lpersistence
