import TestCluster.BeeCluster.Names
import TestCluster.Semantics.Queue
import TestCluster.Semantics.Table

/-!
# The name caches of the agents

What an agent has cached, or is about to, was registered when the daemon answered. When the
binding is removed, the daemon tells the agents in `cluster_agent`; an agent whose launch has
not ended, which can serve requests all the same, is not told.

## Main definitions

* `NameAgent.CacheInv` — what is cached is registered, or a change is on its way
* `Names.tellsLaunching` — no binding is removed that the agent of a pending launch knows

## Main results

* `Names.cacheInv_kept` — the caches, in runs that meet the condition
* `Names.caches_coherent` — the caches agree with the registry, in runs that meet the condition
* `Names.not_coherent` — and in some run that does not, they do not
-/

namespace TestCluster.BeeCluster

open Semantics

namespace NameAgent

/-- An answer that is not out of date. -/
def GoodAnswer (R : ServiceName → Option ℕ) : ToAgent → Prop
  | .answer name (some addr) _ => R name = some addr
  | _ => True

/-- **The caches.** Unless its socket has ended before its launch, what an agent has cached is
registered, or a message about it is on its way; and the answers on their way are covered. -/
structure CacheInv (entry : Option AgentEntry) (R : ServiceName → Option ℕ)
    (_changes : ServiceName → ℕ) (a : NameAgent) : Prop where
  standing : entry = none → .exit ∈ a.inbox
  cached : entry ≠ some (.launching true) → ∀ name addr, a.registerName name = some addr →
    R name = some addr ∨ .namechange ∈ a.inbox ∨ .exit ∈ a.inbox
  inFlight : entry ≠ some (.launching true) →
    .exit ∈ a.inbox ∨ Covered (GoodAnswer R) (· = .namechange) a.inbox

variable {entry entry' : Option AgentEntry} {R : ServiceName → Option ℕ}
  {changes changes' : ServiceName → ℕ} {a : NameAgent} {name : ServiceName}

/-- A message behind those that are there. -/
theorem mem_send {m : ToAgent} (hm : m ∈ a.inbox) (m' : ToAgent) : m ∈ (a.send m').inbox :=
  List.mem_append_left _ hm

theorem mem_send_self (a : NameAgent) (m : ToAgent) : m ∈ (a.send m).inbox :=
  List.mem_append_right _ List.mem_cons_self

/-- What is not the first message is still to come. -/
theorem mem_of_ne {m m' : ToAgent} {inbox : List ToAgent} (hm : m ∈ a.inbox)
    (hinbox : a.inbox = m' :: inbox) (hne : m ≠ m') : m ∈ inbox := by
  rw [hinbox] at hm
  exact (List.mem_cons.mp hm).resolve_left hne

/-- A name that is in the cache is known. -/
theorem knows_of_cached {addr : ℕ} (h : a.registerName name = some addr) : a.knows name = true := by
  rw [knows, h]
  rfl

/-- A name whose answer is on its way is known. -/
theorem knows_of_answer {addr given : ℕ} (h : .answer name (some addr) given ∈ a.inbox) :
    a.knows name = true := by
  rw [knows, Bool.or_eq_true]
  right
  rw [List.any_eq_true]
  exact ⟨_, h, decide_eq_true rfl⟩

namespace CacheInv

/-- The next message is not an exit message. -/
private theorem inFlight_of_cons (h : a.CacheInv entry R changes)
    (hentry : entry ≠ some (.launching true)) {m : ToAgent} {inbox : List ToAgent}
    (hinbox : a.inbox = m :: inbox) (hm : m ≠ .exit) :
    .exit ∈ inbox ∨ Covered (GoodAnswer R) (· = .namechange) (m :: inbox) := by
  rcases h.inFlight hentry with hexit | hcovered
  · exact .inl (mem_of_ne hexit hinbox hm.symm)
  · exact .inr (hinbox ▸ hcovered)

/-- Nothing is asked of an agent that is sent an exit message. -/
theorem send_exit (a : NameAgent) : (a.send .exit).CacheInv entry R changes where
  standing _ := mem_send_self a .exit
  cached _ _ _ _ := .inr (.inr (mem_send_self a .exit))
  inFlight _ := .inl (mem_send_self a .exit)

/-- A report leaves an entry, or the agent is sent an exit message. -/
theorem reported {exit : Bool} (hreport : Names.Report entry exit entry')
    (h : a.CacheInv entry R changes) :
    CacheInv entry' R changes (if exit then a.send .exit else a) := by
  cases hreport with
  | same => exact h
  | opened =>
    -- the agent of a socket that was there before is told to exit
    have hexit := h.standing rfl
    exact ⟨fun _ => hexit, fun _ _ _ _ => .inr (.inr hexit), fun _ => .inl hexit⟩
  | ended => exact ⟨fun hnone => (by cases hnone), fun hne => absurd rfl hne, fun hne => absurd rfl hne⟩
  | left => exact send_exit a
  | launched agent hentry =>
    have hne : entry ≠ some (.launching true) := by
      rintro rfl
      cases hentry
    exact ⟨fun hnone => (by cases hnone), fun _ => h.cached hne, fun _ => h.inFlight hne⟩
  | dismissed => exact send_exit a

/-- The agent is told that a binding is removed. -/
theorem send_namechange (h : a.CacheInv entry R changes) (R' : ServiceName → Option ℕ)
    (changes' : ServiceName → ℕ) : (a.send .namechange).CacheInv entry R' changes' where
  standing hentry := mem_send (h.standing hentry) .namechange
  cached _ _ _ _ := .inr (.inl (mem_send_self a .namechange))
  inFlight _ := .inr (@covered_concat_of_change _ _ (· = .namechange) _ trivial rfl a.inbox)

/-- The agent is not told, and does not know the name. -/
theorem not_told (h : a.CacheInv entry R changes)
    (hname : entry = some (.launching false) → a.knows name = false)
    (hentry : entry ≠ none) (hagent : ∀ agent, entry ≠ some (.agent agent))
    (changes' : ServiceName → ℕ) :
    a.CacheInv entry (Function.update R name none) changes' := by
  -- where there is something to show, the launch is pending and its socket there
  have hunknown : entry ≠ some (.launching true) → a.knows name = false := by
    intro hne
    apply hname
    match entry with
    | none => exact absurd rfl hentry
    | some (.agent agent) => exact absurd rfl (hagent agent)
    | some (.launching true) => exact absurd rfl hne
    | some (.launching false) => rfl
  refine ⟨fun hnone => absurd hnone hentry, fun hne n addr hcached => ?_, fun hne => ?_⟩
  · rw [Function.update_of_ne]
    · exact h.cached hne n addr hcached
    · rintro rfl
      cases (hunknown hne).symm.trans (knows_of_cached hcached)
  · apply (h.inFlight hne).imp_right
    intro hcovered
    apply hcovered.imp
    intro m hm hgood
    rcases m with _ | _ | ⟨n, _ | addr, given⟩
    · trivial
    · trivial
    · trivial
    · have hn : n ≠ name := by
        rintro rfl
        cases (hunknown hne).symm.trans (knows_of_answer hm)
      exact (Function.update_of_ne hn none R).trans hgood

/-- A binding is removed. -/
theorem unbound (h : a.CacheInv entry R changes)
    (htold : entry = some (.launching false) → a.knows name = false)
    (changes' : ServiceName → ℕ) :
    (a.unbound entry).CacheInv entry (Function.update R name none) changes' := by
  unfold NameAgent.unbound
  split
  case h_1 => exact h.send_namechange _ _
  case h_2 closed =>
    exact h.not_told htold (Option.some_ne_none _) (fun agent heq => by cases heq) _
  case h_3 =>
    have hexit := h.standing rfl
    exact ⟨fun _ => hexit, fun _ _ _ _ => .inr (.inr hexit), fun _ => .inl hexit⟩

/-- A name is bound that was not. -/
theorem bound (h : a.CacheInv entry R changes) (hfree : R name = none) (addr : ℕ)
    (changes' : ServiceName → ℕ) :
    a.CacheInv entry (Function.update R name (some addr)) changes' where
  standing := h.standing
  cached hne n addr' hcached := by
    apply (h.cached hne n addr' hcached).imp_left
    intro hR
    -- the name was free, so it is another one
    rw [Function.update_of_ne, hR]
    rintro rfl
    cases hfree.symm.trans hR
  inFlight hne := by
    apply (h.inFlight hne).imp_right
    intro hcovered
    apply hcovered.imp
    intro m _ hgood
    rcases m with _ | _ | ⟨n, _ | addr', given⟩
    · trivial
    · trivial
    · trivial
    · have hn : n ≠ name := by
        rintro rfl
        cases hfree.symm.trans hgood
      exact (Function.update_of_ne hn _ R).trans hgood

/-- What a lookup changes before it yields has nothing to do with the caches. -/
theorem lookup (h : a.CacheInv entry R changes) (name : ServiceName) (bound : Option ℕ) (n : ℕ) :
    (a.lookup name bound n).1.CacheInv entry R changes := by
  unfold NameAgent.lookup
  cases a.registerName name with
  | some => exact h
  | none =>
    cases a.inqueryName name with
    | some => exact ⟨h.standing, h.cached, h.inFlight⟩
    | none => exact ⟨h.standing, h.cached, h.inFlight⟩

/-- The daemon answers what is registered. -/
theorem queried (h : a.CacheInv entry R changes) (name : ServiceName) (outbox : List ServiceName)
    (given : ℕ) :
    ((a.setOutbox outbox).send (.answer name (R name) given)).CacheInv entry R changes where
  standing hentry := List.mem_append_left _ (h.standing hentry)
  cached hne n addr hcached := by
    apply (h.cached hne n addr hcached).imp_right
    exact Or.imp (fun hm => List.mem_append_left _ hm) fun hm => List.mem_append_left _ hm
  inFlight hne := by
    apply (h.inFlight hne).imp (fun hm => List.mem_append_left _ hm)
    intro hcovered
    apply hcovered.concat
    cases hR : R name with
    | none => trivial
    | some addr => exact hR

/-- The agent goes on with an empty cache. -/
theorem renewed (h : a.CacheInv entry R changes) {inbox : List ToAgent}
    (hinbox : a.inbox = .namechange :: inbox) :
    (a.setInbox inbox).renew.CacheInv entry R changes where
  standing hentry := mem_of_ne (h.standing hentry) hinbox (by decide)
  cached _ n addr hcached := by
    have hempty : Function.update a.caches (a.current + 1) (fun _ => none) (a.current + 1) n =
        none := by
      rw [Function.update_self]
    cases hempty.symm.trans hcached
  inFlight hne := (h.inFlight_of_cons hne hinbox (by decide)).imp_right Covered.tail

/-- The address of an answer is entered into the cache of the lookup that has asked. -/
theorem registerName_enter {self n given : ℕ} {v : Option ℕ} {name' : ServiceName}
    (h : (a.enter self name v given).registerName name' = some n) :
    a.registerName name' = some n ∨ name' = name ∧ v = some n := by
  cases v with
  | none => exact .inl h
  | some addr =>
    have hcaches : Function.update a.caches self (Function.update (a.caches self) name (some addr))
        a.current name' = some n := h
    -- only the current cache is looked at
    by_cases hself : a.current = self
    · subst hself
      rw [Function.update_self] at hcaches
      rcases update_cases hcaches with ⟨hname, hnew⟩ | ⟨-, hold⟩
      · exact .inr ⟨hname, hnew⟩
      · exact .inl hold
    · rw [Function.update_of_ne hself] at hcaches
      exact .inl hcaches

theorem inbox_enter (a : NameAgent) (self : ℕ) (name : ServiceName) (v : Option ℕ) (given : ℕ) :
    (a.enter self name v given).inbox = a.inbox := by
  cases v <;> rfl

/-- An answer is handled: it is good, or a change is behind it. -/
theorem answered (h : a.CacheInv entry R changes) {v : Option ℕ} {given : ℕ}
    {inbox : List ToAgent} (hinbox : a.inbox = .answer name v given :: inbox) (n : ℕ) :
    ((a.setInbox inbox).answered name v given n).1.CacheInv entry R changes := by
  -- the messages that tell of a change are still there
  have hchange : ∀ {m : ToAgent}, m = .namechange ∨ m = .exit → m ∈ a.inbox → m ∈ inbox := by
    rintro m (rfl | rfl) hm
    · exact mem_of_ne hm hinbox fun heq => by cases heq
    · exact mem_of_ne hm hinbox fun heq => by cases heq
  have hflight : entry ≠ some (.launching true) → _ := fun hne =>
    h.inFlight_of_cons hne hinbox fun heq => by cases heq
  -- without the answer the cache is as good as before
  have hrest : (a.setInbox inbox).CacheInv entry R changes := by
    refine ⟨fun hentry => hchange (.inr rfl) (h.standing hentry), ?_,
      fun hne => (hflight hne).imp_right Covered.tail⟩
    intro hne n addr hcached
    apply (h.cached hne n addr hcached).imp_right
    exact Or.imp (hchange (.inl rfl)) (hchange (.inr rfl))
  unfold NameAgent.answered
  cases (a.setInbox inbox).inqueryName name with
  | none => exact hrest
  | some q =>
    refine ⟨?_, ?_, ?_⟩
    · intro hentry
      show .exit ∈ (NameAgent.enter _ _ name v given).inbox
      rw [inbox_enter]
      exact hrest.standing hentry
    · intro hne name' addr hcached
      show R name' = some addr ∨ .namechange ∈ (NameAgent.enter _ _ name v given).inbox ∨
        .exit ∈ (NameAgent.enter _ _ name v given).inbox
      rw [inbox_enter]
      rcases registerName_enter hcached with hbefore | ⟨rfl, rfl⟩
      · exact hrest.cached hne name' addr hbefore
      · -- the address of the answer
        rcases hflight hne with hexit | hcovered
        · exact .inr (.inr hexit)
        · rcases hcovered.head with hgood | ⟨m, hm, rfl⟩
          · exact .inl hgood
          · exact .inr (.inl hm)
    · show _ → .exit ∈ (NameAgent.enter _ _ name v given).inbox ∨
        Covered (GoodAnswer R) _ (NameAgent.enter _ _ name v given).inbox
      rw [inbox_enter]
      exact hrest.inFlight

end CacheInv

end NameAgent

namespace Names

/-- No binding is removed that the agent of a pending launch knows, unless its socket has ended
already. -/
def tellsLaunching (entry : Option AgentEntry) (knows : Bool) : Prop :=
  entry = some (.launching false) → knows = false

/-- **The caches** are as they should be in all runs that meet the condition. -/
theorem cacheInv_kept : Kept tellsLaunching fun entry R v a => a.CacheInv entry R v where
  started _ _ _ :=
    ⟨fun h => (by cases h), fun _ _ _ h => (by cases h), fun _ => .inr trivial⟩
  reported hreport h := h.reported hreport
  unbound _ htold h := h.unbound htold _
  bound _ addr hfree h := h.bound hfree addr _
  lookup name h := h.lookup name _ _
  queried name outbox _ h := h.queried name outbox _
  renewed _ hinbox h := h.renewed hinbox
  answered _ _ _ _ hinbox h := h.answered hinbox _
  resumed _ h := ⟨h.standing, h.cached, h.inFlight⟩

/-! ### Coherence -/

variable {s s' : Names}

/-- A socket gets an agent only when the agent starts. -/
theorem agents_none_of_step {e : NameEvent} {fd : ℕ} (hs : s.step e = some s')
    (hnone : s.agents fd = none) (he : e ≠ .started fd) : s'.agents fd = none := by
  -- an agent that acts is there, so it is another one
  have hset : ∀ {fd' a' found}, (∃ a, s.agents fd' = some a) →
      (s.setAgent fd' a' found).agents fd = none := by
    rintro fd' a' found ⟨a, ha⟩
    rw [agents_setAgent_of_ne, hnone]
    rintro rfl
    cases hnone.symm.trans ha
  have hclear : ∀ registry name, ({ s with registry := registry }.clearnamecache name).agents fd =
      none := by
    intro registry name
    show (s.agents fd).map _ = none
    rw [hnone]
    rfl
  cases stepCase_of_step hs with
  | socket => simp only [reported, hnone, Option.map_none, ite_self]
  | started =>
    rw [agents_setAgent_of_ne, hnone]
    rintro rfl
    exact he rfl
  | register name addr =>
    unfold register dropOld
    split_ifs
    · cases s.registry.byAddr addr with
      | none => exact hnone
      | some oldName => exact hclear (s.registry.drop oldName) oldName
    · exact hnone
  | unregister name =>
    unfold unregister
    cases s.registry.byName name with
    | none => exact hnone
    | some addr => exact hclear (s.registry.release name addr) name
  | lookup _ ha => exact hset ⟨_, ha⟩
  | queryname ha _ => exact hset ⟨_, ha⟩
  | @deliver _ _ m _ ha _ => cases m <;> exact hset ⟨_, ha⟩
  | resume ha _ => exact hset ⟨_, ha⟩

/-- A launch that raises leaves no agent. -/
theorem agents_of_raised {ok : Names → NameEvent → Prop} (h : Reachable step ok init s) :
    ∀ fd, s.sockets.launch fd = .raised → s.agents fd = none := by
  refine h.invariant (I := fun s => ∀ fd, s.sockets.launch fd = .raised → s.agents fd = none)
    (fun _ _ => rfl) ?_
  intro s e s' ih _ hs fd hraised
  have hbefore : s.sockets.launch fd = .raised ∨ e = .socket (.raised fd) := by
    rcases sockets_of_step hs with hsame | ⟨e', rfl, hstep⟩
    · exact .inl (hsame ▸ hraised)
    · rcases Sockets.launch_of_step hstep fd with hsame | ⟨-, hl⟩ | ⟨agent, -, hl⟩ | ⟨rfl, -⟩
      · exact .inl (hsame ▸ hraised)
      · cases hl.symm.trans hraised
      · cases hl.symm.trans hraised
      · exact .inr rfl
  rcases hbefore with hbefore | rfl
  · apply agents_none_of_step hs (ih fd hbefore)
    rintro rfl
    simp only [step, hbefore] at hs
    cases hs
  · have hnone : s.agents fd = none := by
      simp only [step] at hs
      split_ifs at hs with horder
      exact Option.isNone_iff_eq_none.mp horder
    exact agents_none_of_step hs hnone (fun he => by cases he)

/-- **Coherence of the caches**, in runs in which no binding is removed that the agent of a
pending launch knows: when everything has been handled, what an agent has cached is what is
registered. -/
theorem caches_coherent (h : Reachable step (Tells tellsLaunching) init s) (hquiet : s.Quiet) :
    s.Coherent := by
  intro fd a name addr ha hcached
  have hcache := cacheInv_kept.allAgents (fun _ _ hok => hok) h fd a ha
  obtain ⟨hinbox, -⟩ := hquiet.2 fd a ha
  have hnomem : ∀ m, m ∉ a.inbox := by
    intro m hm
    rw [hinbox] at hm
    exact List.not_mem_nil hm
  -- the launch of a live agent has ended, and has not raised
  have hentry : s.sockets.clusterAgent fd ≠ some (.launching true) := by
    intro hlaunching
    have hlaunch := ((sockets_inv h).entries fd).of_launching hlaunching
    have hraised := hlaunch.resolve_left (hquiet.1 fd)
    exact nomatch (agents_of_raised h fd hraised).symm.trans ha
  rcases hcache.cached hentry name addr hcached with hR | hm | hm
  · exact hR
  · exact absurd hm (hnomem _)
  · exact absurd hm (hnomem _)

/-- The agent of one socket caches a name while its launch is pending, and the launch ends. -/
def cachedEarly : List NameEvent :=
  [.register [110] 5, .socket (.open 7), .started 7, .lookup 7 [110], .queryname 7, .deliver 7,
    .socket (.launched 7 3)]

/-- The name has been bound to another service, and is looked up again. -/
def lookedUpAgain : List NameEvent :=
  [.deliver 7, .register [110] 6, .lookup 7 [110], .queryname 7, .deliver 7]

/-- Nothing is removed in the steps of a run. -/
private theorem reachable_of_removes_none {s s' : Names} {t : List NameEvent}
    (hrun : run (fun s e => if s.removes e = none then s.step e else none) s t = some s') :
    Reachable step (Tells tellsLaunching) s s' := by
  apply (Reachable.of_guarded_run hrun).mono
  intro s e hnone name hname
  exact nomatch hnone.symm.trans hname

/-- A socket that no event of a run is about has no agent, and its launch is not pending. -/
private theorem idle_of_run {s s' : Names} {t : List NameEvent} {fd : ℕ}
    (hrun : run step s t = some s')
    (ht : ∀ e ∈ t, e ≠ .started fd ∧ e ≠ .socket (.open fd))
    (hidle : s.agents fd = none ∧ s.sockets.launch fd ≠ .pending) :
    s'.agents fd = none ∧ s'.sockets.launch fd ≠ .pending := by
  induction t generalizing s with
  | nil =>
    obtain rfl := Option.some.inj hrun
    exact hidle
  | cons e t ih =>
    obtain ⟨he, ht⟩ := List.forall_mem_cons.mp ht
    rw [run_cons, Option.bind_eq_some_iff] at hrun
    obtain ⟨s₁, hs₁, hrest⟩ := hrun
    refine ih hrest ht ⟨agents_none_of_step hs₁ hidle.1 he.1, ?_⟩
    rcases sockets_of_step hs₁ with hsame | ⟨e', rfl, hstep⟩
    · rw [hsame]
      exact hidle.2
    · rcases Sockets.launch_of_step hstep fd with hsame | ⟨rfl, -⟩ | ⟨agent, -, hl⟩ | ⟨-, hl⟩
      · rw [hsame]
        exact hidle.2
      · exact absurd rfl he.2
      · rw [hl]
        exact nofun
      · rw [hl]
        exact nofun

/-- Events that are about no other socket than 7. -/
private def OnlySeven (t : List NameEvent) : Prop :=
  ∀ fd, fd ≠ 7 → ∀ e ∈ t, e ≠ .started fd ∧ e ≠ .socket (.open fd)

private theorem idle_of_onlySeven {s : Names} {t : List NameEvent} {fd : ℕ}
    (hrun : run step init t = some s) (ht : OnlySeven t) (hfd : fd ≠ 7) :
    s.agents fd = none ∧ s.sockets.launch fd ≠ .pending :=
  idle_of_run hrun (ht fd hfd) ⟨rfl, nofun⟩

/-- With one agent whose launch has ended and which has handled everything, all is quiet. -/
private theorem quiet_of_onlySeven {s : Names} {t : List NameEvent} {a : NameAgent}
    (hrun : run step init t = some s) (ht : OnlySeven t) (hlaunch : s.sockets.launch 7 = .done 3)
    (ha : s.agents 7 = some a) (hinbox : a.inbox = []) (houtbox : a.outbox = []) : s.Quiet := by
  constructor
  · intro fd
    by_cases hfd : fd = 7
    · rw [hfd, hlaunch]
      exact nofun
    · exact (idle_of_onlySeven hrun ht hfd).2
  · intro fd a' ha'
    by_cases hfd : fd = 7
    · subst hfd
      obtain rfl := Option.some.inj (ha.symm.trans ha')
      exact ⟨hinbox, houtbox⟩
    · exact nomatch (idle_of_onlySeven hrun ht hfd).1.symm.trans ha'

theorem caches_coherent_rebound :
    ∃ s a, Reachable step (Tells tellsLaunching) init s ∧ s.agents 7 = some a ∧
      a.registerName [110] = some 6 ∧ s.Coherent := by
  have hruns : ∃ s₁ s a,
      run (fun s e => if s.removes e = none then s.step e else none) init cachedEarly = some s₁ ∧
      run (fun s e => if s.removes e = none then s.step e else none) (s₁.unregister [110])
        lookedUpAgain = some s ∧
      run step init cachedEarly = some s₁ ∧
      run step init (cachedEarly ++ .unregister [110] :: lookedUpAgain) = some s ∧
      s₁.sockets.clusterAgent 7 = some (.agent 3) ∧ s.sockets.launch 7 = .done 3 ∧
      s.agents 7 = some a ∧ a.registerName [110] = some 6 ∧ a.inbox = [] ∧ a.outbox = [] :=
    ⟨_, _, _, rfl, rfl, rfl, rfl, rfl, rfl, rfl, rfl, rfl, rfl⟩
  obtain ⟨s₁, s, a, hbefore, hafter, hrun₁, hrun, hentry, hlaunch, ha, hcached, hinbox, houtbox⟩ :=
    hruns
  have hseven : OnlySeven (cachedEarly ++ .unregister [110] :: lookedUpAgain) := by
    intro fd hfd
    simp [cachedEarly, lookedUpAgain, hfd.symm]
  -- when the name is unregistered, no launch is pending
  have htold : Tells tellsLaunching s₁ (.unregister [110]) := by
    intro name _ fd a ha hlaunching
    by_cases hfd : fd = 7
    · subst hfd
      exact nomatch hentry.symm.trans hlaunching
    · have hseven₁ : OnlySeven cachedEarly := fun fd hfd e he =>
        hseven fd hfd e (List.mem_append_left _ he)
      exact nomatch (idle_of_onlySeven hrun₁ hseven₁ hfd).1.symm.trans ha
  have hreach : Reachable step (Tells tellsLaunching) init s :=
    ((reachable_of_removes_none hbefore).next htold rfl).trans (reachable_of_removes_none hafter)
  exact ⟨s, a, hreach, ha, hcached,
    caches_coherent hreach (quiet_of_onlySeven hrun hseven hlaunch ha hinbox houtbox)⟩

/-- The agent of a pending launch caches a name, and is not told that it is unregistered. -/
theorem not_coherent :
    ∃ s a, Reachable step anyStep init s ∧ s.Quiet ∧ s.agents 7 = some a ∧
      a.registerName [110] = some 5 ∧ s.registry.byName [110] = none ∧ ¬ s.Coherent := by
  have hrun : ∃ s a, run step init [.register [110] 5, .socket (.open 7), .started 7,
      .lookup 7 [110], .queryname 7, .deliver 7, .unregister [110], .socket (.launched 7 3)] =
        some s ∧ s.sockets.launch 7 = .done 3 ∧ s.agents 7 = some a ∧
        a.registerName [110] = some 5 ∧ a.inbox = [] ∧ a.outbox = [] ∧
        s.registry.byName [110] = none :=
    ⟨_, _, rfl, rfl, rfl, rfl, rfl, rfl, rfl⟩
  obtain ⟨s, a, hrun, hlaunch, ha, hcached, hinbox, houtbox, hR⟩ := hrun
  refine ⟨s, a, .of_run hrun, quiet_of_onlySeven hrun ?_ hlaunch ha hinbox houtbox, ha, hcached,
    hR, ?_⟩
  · intro fd hfd
    simp [hfd.symm]
  · intro hcoherent
    exact nomatch hR.symm.trans (hcoherent 7 a [110] 5 ha hcached)

end Names

end TestCluster.BeeCluster
