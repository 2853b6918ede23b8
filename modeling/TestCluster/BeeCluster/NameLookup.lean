import TestCluster.BeeCluster.NameCache

/-!
# Looking up names

What a lookup returns for a name that stays bound to one address. A lookup that asks the daemon
gets that address. One that joins a query gets what that query enters into its own cache, and
one that finds an address in the cache gets what was bound when the daemon gave it.

## Main definitions

* `LookupKind.Timely` — the lookups that are not left with an answer about another binding
* `NameAgent.GivenInv` — what the daemon has given is bound, if the binding has not changed since
* `NameAgent.LookupInv` — what the lookups that wait will find

## Main results

* `Names.given_kept`, `Names.lookups_kept` — the answers and the lookups of all runs
* `Names.lookups_find` — timely lookups return the address that the name stays bound to
* `Names.lookups_lose` — other lookups do not
-/

namespace TestCluster.BeeCluster

open Semantics

/-- A lookup that asked; one that found an address whose binding has not been removed since the
daemon gave it; or one that joined a query of the same cache which the daemon had not answered
before the present binding. -/
def LookupKind.Timely : LookupKind → Prop
  | .cached present => present = true
  | .asked => True
  | .joined sameCache present => sameCache = true ∧ present = true

/-- An answer to the query of a name. -/
def isAnswer (name : ServiceName) : ToAgent → Bool
  | .answer name' _ _ => name' = name
  | _ => false

theorem isAnswer_self (name : ServiceName) (v : Option ℕ) (given : ℕ) :
    isAnswer name (.answer name v given) = true :=
  decide_eq_true rfl

namespace NameAgent

variable {entry entry' : Option AgentEntry} {R R' : ServiceName → Option ℕ}
  {changes changes' : ServiceName → ℕ} {a a' : NameAgent} {name : ServiceName}
  {inbox inbox' : List ToAgent}

/-! ### What the daemon has given -/

/-- A binding is what it was, or has changed. -/
def Onward (R R' : ServiceName → Option ℕ) (changes changes' : ServiceName → ℕ) : Prop :=
  ∀ name, changes name < changes' name ∨ changes' name = changes name ∧ R' name = R name

theorem Onward.refl : Onward R R changes changes := fun _ => .inr ⟨rfl, rfl⟩

theorem Onward.le (h : Onward R R' changes changes') (name : ServiceName) :
    changes name ≤ changes' name := by
  rcases h name with hlt | ⟨heq, -⟩
  · exact hlt.le
  · exact heq.ge

theorem onward_update (name : ServiceName) (v : Option ℕ) :
    Onward R (Function.update R name v) changes
      (Function.update changes name (changes name + 1)) := by
  intro n
  by_cases hn : n = name
  · subst hn
    rw [Function.update_self]
    exact .inl (Nat.lt_succ_self _)
  · rw [Function.update_of_ne hn, Function.update_of_ne hn]
    exact .inr ⟨rfl, rfl⟩

/-- What the daemon gave for a name, when its binding had changed so often. -/
def Given (R : ServiceName → Option ℕ) (changes : ServiceName → ℕ) (name : ServiceName)
    (v : Option ℕ) (given : ℕ) : Prop :=
  given ≤ changes name ∧ (given = changes name → v = R name)

theorem Given.onward {v : Option ℕ} {given : ℕ} (h : Given R changes name v given)
    (honward : Onward R R' changes changes') : Given R' changes' name v given := by
  refine ⟨h.1.trans (honward.le name), fun hgiven => ?_⟩
  rcases honward name with hlt | ⟨heq, hR⟩
  · exact absurd h.1 (by omega)
  · rw [hR, h.2 (hgiven.trans heq)]

/-- **The answers.** An answer on its way, or an address in a cache, is what the name is bound
to, unless the binding has changed since the daemon gave it. -/
structure GivenInv (_entry : Option AgentEntry) (R : ServiceName → Option ℕ)
    (changes : ServiceName → ℕ) (a : NameAgent) : Prop where
  answers : ∀ name v given, .answer name v given ∈ a.inbox → Given R changes name v given
  cached : ∀ cache name addr, a.caches cache name = some addr →
    Given R changes name (some addr) (a.given cache name)

namespace GivenInv

theorem onward (h : a.GivenInv entry R changes) (honward : Onward R R' changes changes')
    (hanswers : ∀ name v given, .answer name v given ∈ a'.inbox → .answer name v given ∈ a.inbox)
    (hcaches : a'.caches = a.caches) (hgiven : a'.given = a.given) :
    a'.GivenInv entry' R' changes' where
  answers name v given hv := (h.answers name v given (hanswers name v given hv)).onward honward
  cached cache name addr hcached := by
    rw [hcaches] at hcached
    rw [hgiven]
    exact (h.cached cache name addr hcached).onward honward

/-- A message that is no answer is sent. -/
theorem send (h : a.GivenInv entry R changes) (honward : Onward R R' changes changes')
    {m : ToAgent} (hm : ∀ name v given, m ≠ .answer name v given) :
    (a.send m).GivenInv entry' R' changes' := by
  refine h.onward honward (fun name v given hv => ?_) rfl rfl
  rcases List.mem_append.mp hv with hv | hv
  · exact hv
  · exact absurd (List.mem_singleton.mp hv).symm (hm name v given)

theorem reported {exit : Bool} (h : a.GivenInv entry R changes) :
    GivenInv entry' R changes (if exit then a.send .exit else a) := by
  cases exit with
  | true => exact h.send .refl fun _ _ _ heq => by cases heq
  | false => exact h.onward .refl (fun _ _ _ hv => hv) rfl rfl

theorem unbound (h : a.GivenInv entry R changes) (name : ServiceName) :
    (a.unbound entry).GivenInv entry (Function.update R name none)
      (Function.update changes name (changes name + 1)) := by
  unfold NameAgent.unbound
  split
  case h_1 => exact h.send (onward_update name none) fun _ _ _ heq => by cases heq
  case h_2 => exact h.onward (onward_update name none) (fun _ _ _ hv => hv) rfl rfl
  case h_3 => exact h.onward (onward_update name none) (fun _ _ _ hv => hv) rfl rfl

theorem lookup (h : a.GivenInv entry R changes) (name : ServiceName) (bound : Option ℕ) (n : ℕ) :
    (a.lookup name bound n).1.GivenInv entry R changes := by
  unfold NameAgent.lookup
  cases a.registerName name with
  | some => exact h
  | none =>
    cases a.inqueryName name with
    | some => exact ⟨h.answers, h.cached⟩
    | none => exact ⟨h.answers, h.cached⟩

/-- The daemon gives what the name is bound to. -/
theorem queried (h : a.GivenInv entry R changes) (name : ServiceName) (outbox : List ServiceName) :
    ((a.setOutbox outbox).send (.answer name (R name) (changes name))).GivenInv entry R changes where
  answers n v given hv := by
    rcases List.mem_append.mp hv with hv | hv
    · exact h.answers n v given hv
    · obtain ⟨rfl, rfl, rfl⟩ := ToAgent.answer.inj (List.mem_singleton.mp hv)
      exact ⟨le_rfl, fun _ => rfl⟩
  cached := h.cached

theorem renewed (h : a.GivenInv entry R changes) (hinbox : a.inbox = .namechange :: inbox) :
    (a.setInbox inbox).renew.GivenInv entry R changes where
  answers n v given hv := h.answers n v given (hinbox ▸ List.mem_cons_of_mem _ hv)
  cached cache n addr hcached := by
    change Function.update a.caches (a.current + 1) (fun _ => none) cache n = _ at hcached
    by_cases hcache : cache = a.current + 1
    · rw [hcache, Function.update_self] at hcached
      cases hcached
    · rw [Function.update_of_ne hcache] at hcached
      exact h.cached cache n addr hcached

/-- The address of an answer is entered with it. -/
theorem enter (h : a.GivenInv entry R changes) {v : Option ℕ} {given : ℕ}
    (hv : Given R changes name v given) (self : ℕ) :
    (a.enter self name v given).GivenInv entry R changes := by
  cases v with
  | none => exact h
  | some addr =>
    refine ⟨h.answers, fun cache n addr' hcached => ?_⟩
    show Given R changes n _ (Function.update a.given self _ cache n)
    change Function.update a.caches self _ cache n = _ at hcached
    by_cases hcache : cache = self
    · subst hcache
      rw [Function.update_self] at hcached ⊢
      by_cases hn : n = name
      · subst hn
        rw [Function.update_self] at hcached ⊢
        exact hcached ▸ hv
      · rw [Function.update_of_ne hn] at hcached ⊢
        exact h.cached cache n addr' hcached
    · rw [Function.update_of_ne hcache] at hcached ⊢
      exact h.cached cache n addr' hcached

theorem answered (h : a.GivenInv entry R changes) {v : Option ℕ} {given : ℕ}
    (hinbox : a.inbox = .answer name v given :: inbox) (n : ℕ) :
    ((a.setInbox inbox).answered name v given n).1.GivenInv entry R changes := by
  have hgiven := h.answers name v given (hinbox ▸ List.mem_cons_self)
  have hrest : (a.setInbox inbox).GivenInv entry R changes :=
    ⟨fun n v given hv => h.answers n v given (hinbox ▸ List.mem_cons_of_mem _ hv), h.cached⟩
  unfold NameAgent.answered
  cases (a.setInbox inbox).inqueryName name with
  | none => exact hrest
  | some q =>
    have hentered : (((a.setInbox inbox).setInquery name none).enter q.asker.cache name v
        given).GivenInv entry R changes :=
      enter (a := (a.setInbox inbox).setInquery name none) ⟨hrest.answers, hrest.cached⟩ hgiven _
    exact ⟨hentered.answers, hentered.cached⟩

end GivenInv

/-! ### What the lookups will find -/

/-- If the name has stayed bound since the lookup began, it is bound to that address now, and no
other answer is on its way. -/
structure Sure (R : ServiceName → Option ℕ) (changes : ServiceName → ℕ) (inbox : List ToAgent)
    (name : ServiceName) (l : Lookup) : Prop where
  began : l.changes ≤ changes name
  bound : l.changes = changes name → ∀ addr, l.bound = some addr → R name = some addr
  answers : l.changes = changes name → ∀ addr, l.bound = some addr →
    ∀ v given, .answer name v given ∈ inbox → v = some addr

/-- **The lookups.** There is one query, or one answer, for each name in `inquery_name`, and none
for another; the cache of a lookup that asks has no entry for the name; and what the lookups
will find. -/
structure LookupInv (_entry : Option AgentEntry) (R : ServiceName → Option ℕ)
    (changes : ServiceName → ℕ) (a : NameAgent) : Prop where
  one : ∀ name, a.outbox.count name + a.inbox.countP (isAnswer name) =
    if (a.inqueryName name).isSome then 1 else 0
  vacant : ∀ name q, a.inqueryName name = some q → a.caches q.asker.cache name = none
  asked : ∀ name q, a.inqueryName name = some q →
    q.asker.cache ≤ a.current ∧ Sure R changes a.inbox name q.asker
  joined : ∀ name q, a.inqueryName name = some q → ∀ l ∈ q.waitco,
    l.cache ≤ a.current ∧ l.changes ≤ changes name ∧
      (l.kind.Timely → l.cache = q.asker.cache ∧ Sure R changes a.inbox name l)
  woken : ∀ w ∈ a.woken, w.2.cache ≤ a.current ∧ w.2.changes ≤ changes w.1 ∧
    (w.2.kind.Timely → w.2.changes = changes w.1 → ∀ addr, w.2.bound = some addr →
      a.caches w.2.cache w.1 = some addr)

/-- A name that stays bound has not changed before. -/
theorem Onward.stayed (h : Onward R R' changes changes') {l : Lookup}
    (hle : l.changes ≤ changes name) (hl : l.changes = changes' name) :
    l.changes = changes name ∧ R' name = R name := by
  rcases h name with hlt | ⟨heq, hR⟩
  · omega
  · exact ⟨hl.trans heq, hR⟩

theorem Sure.onward {l : Lookup} (h : Sure R changes inbox name l)
    (honward : Onward R R' changes changes')
    (hanswers : ∀ v given, .answer name v given ∈ inbox' → .answer name v given ∈ inbox) :
    Sure R' changes' inbox' name l where
  began := h.began.trans (honward.le name)
  bound hl addr hbound := by
    obtain ⟨hl, hR⟩ := honward.stayed h.began hl
    exact hR.trans (h.bound hl addr hbound)
  answers hl addr hbound v given hv := by
    obtain ⟨hl, -⟩ := honward.stayed h.began hl
    exact h.answers hl addr hbound v given (hanswers v given hv)

/-- A message of the daemon has been handled. -/
theorem Sure.tail {l : Lookup} {m : ToAgent} (h : Sure R changes a.inbox name l)
    (hinbox : a.inbox = m :: inbox) : Sure R changes inbox name l := by
  apply h.onward .refl
  intro v given hv
  exact hinbox ▸ List.mem_cons_of_mem _ hv

namespace LookupInv

/-- What happens has nothing to do with the lookups of the agent. -/
theorem onward (h : a.LookupInv entry R changes) (honward : Onward R R' changes changes')
    (hcurrent : a'.current = a.current) (hcaches : a'.caches = a.caches)
    (hinquery : a'.inqueryName = a.inqueryName) (houtbox : a'.outbox = a.outbox)
    (hwoken : a'.woken = a.woken)
    (hcount : ∀ name, a'.inbox.countP (isAnswer name) = a.inbox.countP (isAnswer name))
    (hanswers : ∀ name v given, .answer name v given ∈ a'.inbox →
      .answer name v given ∈ a.inbox) :
    a'.LookupInv entry' R' changes' where
  one name := by
    rw [houtbox, hcount, hinquery]
    exact h.one name
  vacant name q hq := by
    rw [hcaches]
    exact h.vacant name q (hinquery ▸ hq)
  asked name q hq := by
    obtain ⟨hcache, hsure⟩ := h.asked name q (hinquery ▸ hq)
    exact ⟨hcurrent ▸ hcache, hsure.onward honward (hanswers name)⟩
  joined name q hq l hl := by
    obtain ⟨hcache, hle, htimely⟩ := h.joined name q (hinquery ▸ hq) l hl
    refine ⟨hcurrent ▸ hcache, hle.trans (honward.le name), fun ht => ?_⟩
    exact ⟨(htimely ht).1, (htimely ht).2.onward honward (hanswers name)⟩
  woken w hw := by
    obtain ⟨hcache, hle, htimely⟩ := h.woken w (hwoken ▸ hw)
    refine ⟨hcurrent ▸ hcache, hle.trans (honward.le w.1), fun ht hl => ?_⟩
    rw [hcaches]
    exact htimely ht (honward.stayed hle hl).1

/-- A message that is no answer is sent. -/
theorem send (h : a.LookupInv entry R changes) (honward : Onward R R' changes changes')
    {m : ToAgent} (hm : ∀ name v given, m ≠ .answer name v given) :
    (a.send m).LookupInv entry' R' changes' := by
  refine h.onward honward (by rfl) (by rfl) (by rfl) (by rfl) (by rfl) ?_ ?_
  · intro name
    show (a.inbox ++ [m]).countP _ = _
    rw [List.countP_append, List.countP_singleton]
    cases m with
    | namechange => rfl
    | exit => rfl
    | answer name' v given => exact absurd rfl (hm name' v given)
  · intro name v given hv
    rcases List.mem_append.mp hv with hv | hv
    · exact hv
    · exact absurd (List.mem_singleton.mp hv).symm (hm name v given)

theorem reported {exit : Bool} (h : a.LookupInv entry R changes) :
    LookupInv entry' R changes (if exit then a.send .exit else a) := by
  cases exit with
  | true => exact h.send .refl fun _ _ _ heq => by cases heq
  | false => exact h.onward .refl rfl rfl rfl rfl rfl (fun _ => rfl) fun _ _ _ hv => hv

theorem unbound (h : a.LookupInv entry R changes) (name : ServiceName) :
    (a.unbound entry).LookupInv entry (Function.update R name none)
      (Function.update changes name (changes name + 1)) := by
  have hsame : a.LookupInv entry (Function.update R name none)
      (Function.update changes name (changes name + 1)) :=
    h.onward (onward_update name none) rfl rfl rfl rfl rfl (fun _ => rfl) fun _ _ _ hv => hv
  unfold NameAgent.unbound
  split
  case h_1 => exact h.send (onward_update name none) fun _ _ _ heq => by cases heq
  case h_2 => exact hsame
  case h_3 => exact hsame

/-- No answer is on its way where nothing is in query. -/
theorem no_answer (h : a.LookupInv entry R changes)
    (hname : a.inqueryName name = none) (v : Option ℕ) (given : ℕ) :
    .answer name v given ∉ a.inbox := by
  intro hv
  have hone := h.one name
  have hpos : 0 < a.inbox.countP (isAnswer name) :=
    List.countP_pos_iff.mpr ⟨_, hv, isAnswer_self name v given⟩
  rw [hname, Option.isSome_none, if_neg Bool.false_ne_true] at hone
  omega

/-- A lookup that begins while all answers on their way are about the present binding. -/
theorem sure_of_answers {l : Lookup} (hbound : l.bound = R name)
    (hchanges : l.changes = changes name)
    (hanswer : ∀ v given, .answer name v given ∈ inbox → v = R name) :
    Sure R changes inbox name l where
  began := hchanges.le
  bound _ _ h := hbound.symm.trans h
  answers _ _ h v given hv := (hanswer v given hv).trans (hbound.symm.trans h)

/-- The query of a name is set up, or joined. -/
theorem query (h : a.LookupInv entry R changes) {q : Inquery} {outbox : List ServiceName}
    (hcount : ∀ n, outbox.count n + a.inbox.countP (isAnswer n) =
      if n = name ∨ (a.inqueryName n).isSome then 1 else 0)
    (hvacant : a.caches q.asker.cache name = none)
    (hasked : q.asker.cache ≤ a.current ∧ Sure R changes a.inbox name q.asker)
    (hjoined : ∀ l ∈ q.waitco, l.cache ≤ a.current ∧ l.changes ≤ changes name ∧
      (l.kind.Timely → l.cache = q.asker.cache ∧ Sure R changes a.inbox name l)) :
    ((a.setInquery name (some q)).setOutbox outbox).LookupInv entry R changes := by
  -- the query of the name is the new one, and the others are as before
  have hcases : ∀ {n q'}, Function.update a.inqueryName name (some q) n = some q' →
      n = name ∧ q' = q ∨ a.inqueryName n = some q' := by
    intro n q' hq'
    rcases update_cases hq' with ⟨hn, hnew⟩ | ⟨-, hold⟩
    · exact .inl ⟨hn, (Option.some.inj hnew).symm⟩
    · exact .inr hold
  constructor
  · intro n
    show outbox.count n + a.inbox.countP _ =
      if (Function.update a.inqueryName name (some q) n).isSome then 1 else 0
    rw [hcount]
    by_cases hn : n = name
    · subst hn
      rw [Function.update_self, if_pos (.inl rfl), Option.isSome_some, if_pos rfl]
    · rw [Function.update_of_ne hn]
      simp only [hn, false_or]
  · intro n q' hq'
    rcases hcases hq' with ⟨rfl, rfl⟩ | hq'
    · exact hvacant
    · exact h.vacant n q' hq'
  · intro n q' hq'
    rcases hcases hq' with ⟨rfl, rfl⟩ | hq'
    · exact hasked
    · exact h.asked n q' hq'
  · intro n q' hq'
    rcases hcases hq' with ⟨rfl, rfl⟩ | hq'
    · exact hjoined
    · exact h.joined n q' hq'
  · exact h.woken

/-- A lookup finds an address, joins a query, or asks. -/
theorem lookup (h : a.LookupInv entry R changes) (hgiven : a.GivenInv entry R changes)
    (name : ServiceName) :
    (a.lookup name (R name) (changes name)).1.LookupInv entry R changes := by
  unfold NameAgent.lookup
  cases hcached : a.registerName name with
  | some => exact h
  | none =>
    cases hq : a.inqueryName name with
    | some q =>
      obtain ⟨hcache, hsure⟩ := h.asked name q hq
      show ((a.setInquery name (some _)).setOutbox a.outbox).LookupInv entry R changes
      apply h.query
      · intro n
        rw [h.one]
        by_cases hn : n = name
        · subst hn
          rw [hq, Option.isSome_some, if_pos rfl, if_pos (.inl rfl)]
        · simp only [hn, false_or]
      · exact h.vacant name q hq
      · exact ⟨hcache, hsure⟩
      · intro l hl
        rcases List.mem_append.mp hl with hl | hl
        · exact h.joined name q hq l hl
        · obtain rfl := List.mem_singleton.mp hl
          -- it joins in time: the answer, if there is one, is about the present binding
          refine ⟨le_rfl, le_rfl, fun htimely => ⟨of_decide_eq_true htimely.1, ?_⟩⟩
          refine sure_of_answers rfl rfl fun v given hv => ?_
          have hpresent := List.all_eq_true.mp htimely.2 _ hv
          refine (hgiven.answers name v given hv).2 ?_
          simpa [ToAgent.present] using hpresent
    | none =>
      apply h.query
      · intro n
        have hone := h.one n
        rw [List.count_append]
        by_cases hn : n = name
        · subst hn
          rw [hq, Option.isSome_none, if_neg Bool.false_ne_true] at hone
          rw [if_pos (.inl rfl), List.count_singleton_self]
          omega
        · rw [List.count_singleton, if_neg (by simpa using Ne.symm hn)]
          simp only [hn, false_or]
          omega
      · exact hcached
      · refine ⟨le_rfl, sure_of_answers rfl rfl fun v given hv => ?_⟩
        exact absurd hv (h.no_answer hq v given)
      · intro l hl
        cases hl

/-- The daemon answers the next query. -/
theorem queried (h : a.LookupInv entry R changes) {outbox : List ServiceName}
    (houtbox : a.outbox = name :: outbox) :
    ((a.setOutbox outbox).send (.answer name (R name) (changes name))).LookupInv entry R changes := by
  have hsure : ∀ {n l}, Sure R changes a.inbox n l →
      Sure R changes (a.inbox ++ [.answer name (R name) (changes name)]) n l := by
    intro n l hl
    refine ⟨hl.began, hl.bound, fun hchanges addr hbound v given hv => ?_⟩
    rcases List.mem_append.mp hv with hv | hv
    · exact hl.answers hchanges addr hbound v given hv
    · -- the new answer is what the name is bound to
      obtain ⟨rfl, rfl, rfl⟩ := ToAgent.answer.inj (List.mem_singleton.mp hv)
      exact hl.bound hchanges addr hbound
  constructor
  · intro n
    have hone := h.one n
    rw [houtbox, List.count_cons] at hone
    show outbox.count n + (a.inbox ++ [ToAgent.answer name (R name) (changes name)]).countP _ = _
    rw [List.countP_append, List.countP_singleton]
    -- one query less on its way, and one answer more
    by_cases hn : name = n
    · subst hn
      rw [if_pos (by simp)] at hone
      rw [if_pos (isAnswer_self name _ _)]
      show _ = if (a.inqueryName name).isSome then 1 else 0
      omega
    · rw [if_neg (by simpa using hn)] at hone
      rw [if_neg (by simpa [isAnswer] using hn)]
      exact hone
  · exact h.vacant
  · intro n q hq
    exact ⟨(h.asked n q hq).1, hsure (h.asked n q hq).2⟩
  · intro n q hq l hl
    obtain ⟨hcache, hle, htimely⟩ := h.joined n q hq l hl
    exact ⟨hcache, hle, fun ht => ⟨(htimely ht).1, hsure (htimely ht).2⟩⟩
  · exact h.woken

/-- The agent goes on with an empty cache. -/
theorem renewed (h : a.LookupInv entry R changes) (hinbox : a.inbox = .namechange :: inbox) :
    (a.setInbox inbox).renew.LookupInv entry R changes := by
  have hold : ∀ {n}, n ≤ a.current →
      Function.update a.caches (a.current + 1) (fun _ => none) n = a.caches n := by
    intro n hn
    exact Function.update_of_ne (by omega) ..
  constructor
  case one =>
    intro n
    have hone := h.one n
    rw [hinbox, List.countP_cons_of_neg Bool.false_ne_true] at hone
    exact hone
  case vacant =>
    intro n q hq
    show Function.update a.caches (a.current + 1) _ q.asker.cache n = none
    rw [hold (h.asked n q hq).1]
    exact h.vacant n q hq
  case asked =>
    intro n q hq
    exact ⟨(h.asked n q hq).1.trans (Nat.le_succ _), (h.asked n q hq).2.tail hinbox⟩
  case joined =>
    intro n q hq l hl
    obtain ⟨hcache, hle, htimely⟩ := h.joined n q hq l hl
    exact ⟨hcache.trans (Nat.le_succ _), hle,
      fun ht => ⟨(htimely ht).1, (htimely ht).2.tail hinbox⟩⟩
  case woken =>
    -- the caches of before are still there
    intro w hw
    obtain ⟨hcache, hle, htimely⟩ := h.woken w hw
    refine ⟨hcache.trans (Nat.le_succ _), hle, ?_⟩
    show _ → _ → ∀ addr, _ → Function.update a.caches (a.current + 1) _ w.2.cache w.1 = some addr
    rw [hold hcache]
    exact htimely

/-- Only the entry of the name, in the cache of the lookup that has asked, is changed. -/
theorem caches_enter_of_ne {self n : ℕ} {name' : ServiceName} (v : Option ℕ) (given : ℕ)
    (h : n = self → name' ≠ name) :
    (a.enter self name v given).caches n name' = a.caches n name' := by
  cases v with
  | none => rfl
  | some addr =>
    show Function.update a.caches self _ n name' = _
    by_cases hn : n = self
    · subst hn
      rw [Function.update_self, Function.update_of_ne (h rfl)]
    · rw [Function.update_of_ne hn]

theorem caches_enter_self (a : NameAgent) (self addr given : ℕ) (name : ServiceName) :
    (a.enter self name (some addr) given).caches self name = some addr := by
  show Function.update a.caches self _ self name = _
  rw [Function.update_self, Function.update_self]

theorem enter_eq (a : NameAgent) (self : ℕ) (name : ServiceName) (v : Option ℕ) (given : ℕ) :
    a.enter self name v given = { a with
      caches := (a.enter self name v given).caches
      given := (a.enter self name v given).given } := by
  cases v <;> rfl

/-- What the lookups that were woken up will find remains, where an address is entered. -/
theorem woken_enter (h : a.LookupInv entry R changes) {q : Inquery}
    (hq : a.inqueryName name = some q) (v : Option ℕ) (given : ℕ) {w : ServiceName × Lookup}
    (hw : w ∈ a.woken)
    (ht : w.2.kind.Timely) (hchanges : w.2.changes = changes w.1) {addr : ℕ}
    (hbound : w.2.bound = some addr) :
    (a.enter q.asker.cache name v given).caches w.2.cache w.1 = some addr := by
  have hentered := (h.woken w hw).2.2 ht hchanges addr hbound
  rw [caches_enter_of_ne v given, ← hentered]
  -- the cache of the query had no entry for its name
  rintro heq rfl
  rw [heq] at hentered
  exact nomatch (h.vacant _ q hq).symm.trans hentered

/-- The lookups that have joined a query will find the address that is entered. -/
theorem joined_enter (h : a.LookupInv entry R changes) {q : Inquery}
    (hq : a.inqueryName name = some q) {v : Option ℕ} {given : ℕ}
    (hanswer : .answer name v given ∈ a.inbox)
    {l : Lookup} (hl : l ∈ q.waitco) (ht : l.kind.Timely) (hchanges : l.changes = changes name)
    {addr : ℕ} (hbound : l.bound = some addr) :
    (a.enter q.asker.cache name v given).caches l.cache name = some addr := by
  obtain ⟨hsame, hsure⟩ := (h.joined name q hq l hl).2.2 ht
  rw [hsame, hsure.answers hchanges addr hbound v given hanswer]
  exact caches_enter_self ..

/-- When a query is answered, the answer is gone and so is the query. -/
theorem one_answered (h : a.LookupInv entry R changes) {v : Option ℕ} {given : ℕ} {q : Inquery}
    (hinbox : a.inbox = .answer name v given :: inbox) (hq : a.inqueryName name = some q)
    (n : ServiceName) : a.outbox.count n + inbox.countP (isAnswer n) =
      if (Function.update a.inqueryName name none n).isSome then 1 else 0 := by
  have hone := h.one n
  rw [hinbox, List.countP_cons] at hone
  by_cases hn : n = name
  · subst hn
    rw [isAnswer_self, if_pos rfl, hq, Option.isSome_some, if_pos rfl] at hone
    rw [Function.update_self, Option.isSome_none, if_neg Bool.false_ne_true]
    omega
  · have hfalse : isAnswer n (.answer name v given) = false := decide_eq_false (Ne.symm hn)
    rw [hfalse, if_neg Bool.false_ne_true] at hone
    rw [Function.update_of_ne hn]
    exact hone

/-- The answer of a query: what was entered remains, and the lookups that have joined will find
the address. -/
theorem answered (h : a.LookupInv entry R changes) {v : Option ℕ} {given : ℕ}
    (hinbox : a.inbox = .answer name v given :: inbox) (n : ℕ) :
    ((a.setInbox inbox).answered name v given n).1.LookupInv entry R changes := by
  have hanswer : .answer name v given ∈ a.inbox := hinbox ▸ List.mem_cons_self
  unfold NameAgent.answered
  cases hq : (a.setInbox inbox).inqueryName name with
  | none => exact absurd hanswer (h.no_answer hq v given)
  | some q =>
    have hq : a.inqueryName name = some q := hq
    have hcaches : ∀ c n,
        (((a.setInbox inbox).setInquery name none).enter q.asker.cache name v given).caches c n =
          (a.enter q.asker.cache name v given).caches c n := by
      intro c n
      cases v <;> rfl
    simp only []
    rw [enter_eq]
    constructor
    case one => exact h.one_answered hinbox hq
    case vacant =>
      intro n q' hq'
      obtain ⟨hn, hq'⟩ := update_none_eq_some hq'
      show (NameAgent.enter _ q.asker.cache name v given).caches q'.asker.cache n = none
      rw [caches_enter_of_ne v given fun _ => hn]
      exact h.vacant n q' hq'
    case asked =>
      intro n q' hq'
      obtain ⟨-, hq'⟩ := update_none_eq_some hq'
      exact ⟨(h.asked n q' hq').1, (h.asked n q' hq').2.tail hinbox⟩
    case joined =>
      intro n q' hq' l hl
      obtain ⟨-, hq'⟩ := update_none_eq_some hq'
      obtain ⟨hcache, hle, htimely⟩ := h.joined n q' hq' l hl
      exact ⟨hcache, hle, fun ht => ⟨(htimely ht).1, (htimely ht).2.tail hinbox⟩⟩
    case woken =>
      -- those that were woken up before, and those that the answer wakes up
      intro w hw
      show w.2.cache ≤ a.current ∧ w.2.changes ≤ changes w.1 ∧ (w.2.kind.Timely →
        w.2.changes = changes w.1 → ∀ addr, w.2.bound = some addr →
          (NameAgent.enter _ q.asker.cache name v given).caches w.2.cache w.1 = some addr)
      rcases List.mem_append.mp hw with hw | hw
      · obtain ⟨hcache, hle, -⟩ := h.woken w hw
        refine ⟨hcache, hle, fun ht hchanges addr hbound => ?_⟩
        exact (hcaches _ _).trans (h.woken_enter hq v given hw ht hchanges hbound)
      · obtain ⟨l, hl, rfl⟩ := List.mem_map.mp hw
        obtain ⟨hcache, hle, -⟩ := h.joined name q hq l hl
        refine ⟨hcache, hle, fun ht hchanges addr hbound => ?_⟩
        exact (hcaches _ _).trans (h.joined_enter hq hanswer hl ht hchanges hbound)

end LookupInv

end NameAgent

namespace Names

/-- **The answers** of all runs. -/
theorem given_kept (told : Option AgentEntry → Bool → Prop) :
    Kept told fun entry R v a => a.GivenInv entry R v where
  started _ _ _ := ⟨fun _ _ _ h => (by cases h), fun _ _ _ h => (by cases h)⟩
  reported _ h := h.reported
  unbound name _ h := h.unbound name
  bound name addr _ h :=
    h.onward (NameAgent.onward_update name (some addr)) (fun _ _ _ hv => hv) rfl rfl
  lookup name h := h.lookup name _ _
  queried name outbox _ h := h.queried name outbox
  renewed _ hinbox h := h.renewed hinbox
  answered _ _ _ _ hinbox h := h.answered hinbox _
  resumed _ h := ⟨h.answers, h.cached⟩

/-- **The lookups** of all runs. -/
theorem lookups_kept (told : Option AgentEntry → Bool → Prop) :
    Kept told fun entry R v a => a.GivenInv entry R v ∧ a.LookupInv entry R v where
  started closed R v :=
    ⟨(given_kept told).started closed R v, fun _ => rfl, fun _ _ h => (by cases h),
      fun _ _ h => (by cases h), fun _ _ h => (by cases h), fun _ h => (by cases h)⟩
  reported _ h := ⟨h.1.reported, h.2.reported⟩
  unbound name _ h := ⟨h.1.unbound name, h.2.unbound name⟩
  bound name addr hfree h := by
    refine ⟨(given_kept told).bound name addr hfree h.1, ?_⟩
    apply h.2.onward (NameAgent.onward_update name (some addr)) rfl rfl rfl rfl rfl (fun _ => rfl)
    exact fun _ _ _ hv => hv
  lookup name h := ⟨h.1.lookup name _ _, h.2.lookup h.1 name⟩
  queried name outbox houtbox h := ⟨h.1.queried name outbox, h.2.queried houtbox⟩
  renewed _ hinbox h := ⟨h.1.renewed hinbox, h.2.renewed hinbox⟩
  answered _ _ _ _ hinbox h := ⟨h.1.answered hinbox _, h.2.answered hinbox _⟩
  resumed i h := ⟨(given_kept told).resumed i h.1, h.2.one, h.2.vacant, h.2.asked, h.2.joined,
    fun w hw => h.2.woken w (List.mem_of_mem_eraseIdx hw)⟩

/-! ### Lookups that have ended -/

variable {s s' : Names}

/-- A lookup ends when it finds an address, when its query is answered, or when it was woken up
and goes on. -/
inductive Ended (s : Names) (f : Found) : Prop
  | found {fd : ℕ} {a : NameAgent} (name : ServiceName) (ha : s.agents fd = some a)
      (hf : f ∈ (a.lookup name (s.registry.byName name) (s.changes name)).2)
  | answered {fd given : ℕ} {a : NameAgent} {name : ServiceName} {addr : Option ℕ}
      {inbox : List ToAgent} (ha : s.agents fd = some a)
      (hinbox : a.inbox = .answer name addr given :: inbox)
      (hf : f ∈ ((a.setInbox inbox).answered name addr given (s.changes name)).2)
  | resumed {fd : ℕ} {a : NameAgent} {w : ServiceName × Lookup} (ha : s.agents fd = some a)
      (hw : w ∈ a.woken) (hf : f = w.2.found w.1 (s.changes w.1) (a.caches w.2.cache w.1))

theorem ended_of_step {e : NameEvent} (hs : s.step e = some s') {f : Found} (hf : f ∈ s'.found) :
    f ∈ s.found ∨ s.Ended f := by
  cases stepCase_of_step hs with
  | socket => exact .inl hf
  | started => exact .inl (List.append_nil s.found ▸ hf)
  | register name addr =>
    left
    -- binding a name ends no lookup
    unfold register dropOld at hf
    split_ifs at hf
    · cases hold : s.registry.byAddr addr with
      | none =>
        rw [hold] at hf
        exact hf
      | some oldName =>
        rw [hold] at hf
        exact hf
    · exact hf
  | unregister name =>
    left
    unfold unregister at hf
    cases hold : s.registry.byName name with
    | none =>
      rw [hold] at hf
      exact hf
    | some addr =>
      rw [hold] at hf
      exact hf
  | lookup name ha => exact (List.mem_append.mp hf).imp_right fun hf => .found name ha hf
  | queryname => exact .inl (List.append_nil s.found ▸ hf)
  | @deliver _ _ m _ ha hinbox =>
    cases m with
    | namechange => exact .inl (List.append_nil s.found ▸ hf)
    | exit => exact .inl (List.append_nil s.found ▸ hf)
    | answer name addr given =>
      exact (List.mem_append.mp hf).imp_right fun hf => .answered ha hinbox hf
  | resume ha hw =>
    apply (List.mem_append.mp hf).imp_right
    intro hf
    exact .resumed ha (List.mem_of_getElem? hw) (List.mem_singleton.mp hf)

/-- If it was timely, it has returned the address that the name has stayed bound to. -/
def FoundIt (f : Found) : Prop :=
  f.kind.Timely → ∀ addr, f.stayed = some addr → f.result = some addr

/-- The record of a lookup in the end. -/
theorem stayed_found {l : Lookup} {name : ServiceName} {n addr : ℕ} {result : Option ℕ}
    (h : (l.found name n result).stayed = some addr) : l.changes = n ∧ l.bound = some addr := by
  simp only [Lookup.found] at h
  split_ifs at h with hchanges
  exact ⟨hchanges, h⟩

theorem foundIt_of_ended {f : Found}
    (hlookups : AllAgents (fun entry R v a => a.GivenInv entry R v ∧ a.LookupInv entry R v) s)
    (h : s.Ended f) :
    FoundIt f := by
  intro htimely addr hstayed
  cases h with
  | @found fd a name ha hf =>
    unfold NameAgent.lookup at hf
    cases hcached : a.registerName name with
    | none =>
      simp only [hcached] at hf
      cases hq : a.inqueryName name with
      | none => exact nomatch hq ▸ hf
      | some q => exact nomatch hq ▸ hf
    | some addr' =>
      simp only [hcached] at hf
      obtain rfl := List.mem_singleton.mp hf
      -- the binding has not been removed since the daemon gave the address
      have hpresent : a.given a.current name = s.changes name := of_decide_eq_true htimely
      exact (((hlookups fd a ha).1.cached a.current name addr' hcached).2 hpresent).trans hstayed
  | @answered fd given a name v inbox ha hinbox hf =>
    unfold NameAgent.answered at hf
    cases hq : (a.setInbox inbox).inqueryName name with
    | none => exact nomatch hq ▸ hf
    | some q =>
      simp only [hq] at hf
      obtain rfl := List.mem_singleton.mp hf
      obtain ⟨hchanges, hbound⟩ := stayed_found hstayed
      have hsure := ((hlookups fd a ha).2.asked name q hq).2
      exact hsure.answers hchanges addr hbound v given (hinbox ▸ List.mem_cons_self)
  | @resumed fd a w ha hw hf =>
    subst hf
    obtain ⟨hchanges, hbound⟩ := stayed_found hstayed
    exact ((hlookups fd a ha).2.woken w hw).2.2 htimely hchanges addr hbound

/-- **Lookups find registered names**: in every run, a timely lookup of a name that stays bound
to an address from its beginning to its end returns that address. -/
theorem lookups_find (h : Reachable step anyStep init s) :
    ∀ f ∈ s.found, f.kind.Timely → ∀ addr, f.stayed = some addr → f.result = some addr := by
  suffices hfound : ∀ f ∈ s.found, FoundIt f from hfound
  refine h.invariant' (I := fun s => ∀ f ∈ s.found, FoundIt f) nofun ?_
  intro s e s' hreach ih _ hs f hf
  have htells : ∀ s e, anyStep s e → Tells (fun _ _ => True) s e := fun _ _ _ _ _ _ _ _ => trivial
  rcases ended_of_step hs hf with hbefore | hended
  · exact ih f hbefore
  · exact foundIt_of_ended ((lookups_kept _).allAgents htells hreach) hended

/-- An agent is launched, and a name is registered. -/
def launchedAgent : List NameEvent :=
  [.register [110] 5, .socket (.open 7), .started 7, .socket (.launched 7 3)]

/-- A lookup asks, one joins it before the daemon answers and one behind, and one finds what they
have entered while a message is on its way that another name was unregistered. -/
def fourLookups : List NameEvent :=
  [.register [111] 6, .lookup 7 [110], .lookup 7 [110], .queryname 7, .lookup 7 [110],
    .unregister [111], .deliver 7, .resume 7 1, .resume 7 0, .lookup 7 [110]]

theorem lookups_find_four : ∃ s f₁ f₂ f₃ f₄,
    run step init (launchedAgent ++ fourLookups) = some s ∧ s.found = [f₁, f₂, f₃, f₄] ∧
      f₁.kind = .asked ∧ f₂.kind = .joined true true ∧ f₃.kind = .joined true true ∧
      f₄.kind = .cached true ∧ f₁.result = some 5 ∧ f₂.result = some 5 ∧ f₃.result = some 5 ∧
      f₄.result = some 5 := by
  have hrun : ∃ s f₁ f₂ f₃ f₄, run step init (launchedAgent ++ fourLookups) = some s ∧
      s.found = [f₁, f₂, f₃, f₄] ∧ f₁.kind = .asked ∧ f₂.kind = .joined true true ∧
      f₃.kind = .joined true true ∧ f₄.kind = .cached true ∧ f₁.stayed = some 5 ∧
      f₂.stayed = some 5 ∧ f₃.stayed = some 5 ∧ f₄.stayed = some 5 :=
    ⟨_, _, _, _, _, rfl, rfl, rfl, rfl, rfl, rfl, rfl, rfl, rfl, rfl⟩
  obtain ⟨s, f₁, f₂, f₃, f₄, hrun, hfound, hk₁, hk₂, hk₃, hk₄, hs₁, hs₂, hs₃, hs₄⟩ := hrun
  have hfind := lookups_find (.of_run hrun)
  rw [hfound] at hfind
  refine ⟨s, f₁, f₂, f₃, f₄, hrun, hfound, hk₁, hk₂, hk₃, hk₄, ?_, ?_, ?_, ?_⟩
  · exact hfind f₁ (by simp) (by rw [hk₁]; trivial) 5 hs₁
  · exact hfind f₂ (by simp) (by rw [hk₂]; exact ⟨rfl, rfl⟩) 5 hs₂
  · exact hfind f₃ (by simp) (by rw [hk₃]; exact ⟨rfl, rfl⟩) 5 hs₃
  · exact hfind f₄ (by simp) (by rw [hk₄]; rfl) 5 hs₄

/-- A lookup can miss the address that the name is bound to all the time: when it joins a query
that a cache before has asked, when it joins a query that the daemon has answered already, and
when it finds an address that the name was bound to before, whether the message that tells so is
on its way or is never sent. -/
theorem lookups_lose :
    (∃ s, Reachable step anyStep init s ∧ ⟨[110], .joined false true, some 5, none⟩ ∈ s.found) ∧
    (∃ s, Reachable step anyStep init s ∧ ⟨[111], .joined true false, some 6, none⟩ ∈ s.found) ∧
    (∃ s a, Reachable step anyStep init s ∧ s.agents 7 = some a ∧ .namechange ∈ a.inbox ∧
      ⟨[110], .cached false, some 6, some 5⟩ ∈ s.found) ∧
    ∃ s a, Reachable step anyStep init s ∧ s.agents 7 = some a ∧ a.inbox = [] ∧
      ⟨[110], .cached false, some 6, some 5⟩ ∈ s.found := by
  refine ⟨?_, ?_, ?_, ?_⟩
  · have hrun : ∃ s, run step init (launchedAgent ++ [.register [111] 6, .lookup 7 [110],
        .unregister [111], .deliver 7, .lookup 7 [110], .queryname 7, .deliver 7, .resume 7 0]) =
          some s ∧ s.found = [⟨[110], .asked, some 5, some 5⟩,
            ⟨[110], .joined false true, some 5, none⟩] :=
      ⟨_, rfl, rfl⟩
    obtain ⟨s, hrun, hfound⟩ := hrun
    exact ⟨s, .of_run hrun, by simp [hfound]⟩
  · have hrun : ∃ s, run step init (launchedAgent ++ [.lookup 7 [111], .queryname 7,
        .register [111] 6, .lookup 7 [111], .deliver 7, .resume 7 0]) = some s ∧
          s.found = [⟨[111], .asked, none, none⟩, ⟨[111], .joined true false, some 6, none⟩] :=
      ⟨_, rfl, rfl⟩
    obtain ⟨s, hrun, hfound⟩ := hrun
    exact ⟨s, .of_run hrun, by simp [hfound]⟩
  · have hrun : ∃ s a, run step init (launchedAgent ++ [.lookup 7 [110], .queryname 7, .deliver 7,
        .unregister [110], .register [110] 6, .lookup 7 [110]]) = some s ∧ s.agents 7 = some a ∧
          a.inbox = [.namechange] ∧ s.found = [⟨[110], .asked, some 5, some 5⟩,
            ⟨[110], .cached false, some 6, some 5⟩] :=
      ⟨_, _, rfl, rfl, rfl, rfl⟩
    obtain ⟨s, a, hrun, ha, hinbox, hfound⟩ := hrun
    exact ⟨s, a, .of_run hrun, ha, by simp [hinbox], by simp [hfound]⟩
  · -- the launch of the agent has not ended, so that it is not told
    have hrun : ∃ s a, run step init [.register [110] 5, .socket (.open 7), .started 7,
        .lookup 7 [110], .queryname 7, .deliver 7, .unregister [110], .register [110] 6,
        .lookup 7 [110]] = some s ∧ s.agents 7 = some a ∧ a.inbox = [] ∧
          s.found = [⟨[110], .asked, some 5, some 5⟩,
            ⟨[110], .cached false, some 6, some 5⟩] :=
      ⟨_, _, rfl, rfl, rfl, rfl⟩
    obtain ⟨s, a, hrun, ha, hinbox, hfound⟩ := hrun
    exact ⟨s, a, .of_run hrun, ha, hinbox, by simp [hfound]⟩

end Names

end TestCluster.BeeCluster
