import TestCluster.BeeCluster.Sockets
import TestCluster.Semantics.ByteOrder

/-!
# Names of services

The registry of `bee_clusterd.lua` and the name caches of its agents. An agent asks for a name
that it has not cached; the daemon tells the agents in `cluster_agent` when a binding is removed,
and an agent then goes on with an empty cache. Lookups that wait hold on to the cache they have
begun with.

## Main definitions

* `Registry` — `register_name` of the daemon
* `NameAgent` — the caches of an agent, the names in query, and the messages on their way
* `NameAgent.lookup`, `NameAgent.answered` — the metatable of the cache between two yields
* `Names.step` — sockets, registrations, lookups and messages, in any order
* `Names.Kept` — a property that everything that can happen to an agent keeps
* `Found` — a lookup that has ended, with what the name was bound to all the time

## Main results

* `Names.sockets_reachable` — the sockets are as they are without the names
* `Names.report_of_step` — what a report of the gate or the launcher is for each agent
* `Names.Kept.allAgents` — what everything that can happen to an agent keeps holds in every run
-/

namespace TestCluster.BeeCluster

open Semantics

/-- A name, without the `@` in front of it. -/
abbrev ServiceName := Bytes

/-! ### The registry -/

/-- `register_name` of the daemon, which has both names and addresses for keys. -/
structure Registry where
  byName : ServiceName → Option ℕ
  byAddr : ℕ → Option ServiceName

namespace Registry

variable (r : Registry)

/-- No name is registered. -/
def empty : Registry where
  byName _ := none
  byAddr _ := none

/-- `register_name[old_name] = nil`. -/
def drop (oldName : ServiceName) : Registry :=
  { r with byName := Function.update r.byName oldName none }

/-- `register_name[addr] = name` and `register_name[name] = addr`. -/
def bind (name : ServiceName) (addr : ℕ) : Registry where
  byName := Function.update r.byName name (some addr)
  byAddr := Function.update r.byAddr addr (some name)

/-- `register_name[addr] = nil` and `register_name[name] = nil`. -/
def release (name : ServiceName) (addr : ℕ) : Registry where
  byName := Function.update r.byName name none
  byAddr := Function.update r.byAddr addr none

end Registry

/-! ### An agent -/

/-- How a lookup got its address: it found it in the cache; it asked; or it joined a query, of the
same cache or of one before it. `present` says that what the daemon has answered by then, if it
has, is what the name is bound to at present: the binding has not changed since. -/
inductive LookupKind
  | cached (present : Bool)
  | asked
  | joined (sameCache present : Bool)
  deriving DecidableEq, Repr

/-- A lookup that waits: its cache, how it goes about it, and, for the record, what the name was
bound to when it began and how often its binding had changed by then. -/
structure Lookup where
  cache : ℕ
  kind : LookupKind
  bound : Option ℕ
  changes : ℕ
  deriving DecidableEq, Repr

/-- A name in `inquery_name`: the lookup that asks, and those in `waitco`. -/
structure Inquery where
  asker : Lookup
  waitco : List Lookup

/-- A message of the daemon to an agent. An answer has, for the record, how often the binding of
the name had changed when it was given. -/
inductive ToAgent
  | namechange
  | exit
  | answer (name : ServiceName) (addr : Option ℕ) (given : ℕ)
  deriving DecidableEq, Repr

/-- The message is no answer about another binding of the name than the present one. -/
def ToAgent.present (name : ServiceName) (changes : ℕ) : ToAgent → Bool
  | .answer name' _ given => name' ≠ name ∨ given = changes
  | _ => true

/-- An agent: how many caches it has had before, the caches, `inquery_name`, its queries on
their way to the daemon and the messages of the daemon on their way to it, and the lookups that
have been woken up. For the record, how often the binding of a name in a cache had changed when
the daemon gave the address. -/
structure NameAgent where
  current : ℕ
  caches : ℕ → ServiceName → Option ℕ
  inqueryName : ServiceName → Option Inquery
  outbox : List ServiceName
  inbox : List ToAgent
  woken : List (ServiceName × Lookup)
  given : ℕ → ServiceName → ℕ

/-- A lookup that has ended: how, the address the name was bound to from its beginning to its
end, if there is one, and the address that it returned. -/
structure Found where
  name : ServiceName
  kind : LookupKind
  stayed : Option ℕ
  result : Option ℕ
  deriving DecidableEq, Repr

/-- What the record of a lookup comes to in the end. -/
def Lookup.found (l : Lookup) (name : ServiceName) (changes : ℕ) (result : Option ℕ) : Found where
  name := name
  kind := l.kind
  stayed := if l.changes = changes then l.bound else none
  result := result

namespace NameAgent

variable (a : NameAgent)

/-- An agent that has just started. -/
def new : NameAgent where
  current := 0
  caches _ _ := none
  inqueryName _ := none
  outbox := []
  inbox := []
  woken := []
  given _ _ := 0

/-- `register_name` of the agent. -/
def registerName : ServiceName → Option ℕ := a.caches a.current

/-- An address for the name is in the cache, or on its way. -/
def knows (name : ServiceName) : Bool :=
  (a.registerName name).isSome ||
    a.inbox.any fun m => match m with
      | .answer name' (some _) _ => name' = name
      | _ => false

/-- A message of the daemon is sent. -/
def send (m : ToAgent) : NameAgent := { a with inbox := a.inbox ++ [m] }

/-- The messages of the daemon that are left. -/
def setInbox (inbox : List ToAgent) : NameAgent := { a with inbox := inbox }

/-- The queries that are left. -/
def setOutbox (outbox : List ServiceName) : NameAgent := { a with outbox := outbox }

/-- The lookups that have been woken up and are left. -/
def setWoken (woken : List (ServiceName × Lookup)) : NameAgent := { a with woken := woken }

/-- `inquery_name[name] = waitco`, or `nil`. -/
def setInquery (name : ServiceName) (q : Option Inquery) : NameAgent :=
  { a with inqueryName := Function.update a.inqueryName name q }

/-- `if addr then self[name] = addr end`, for the cache `self`. -/
def enter (self : ℕ) (name : ServiceName) (addr : Option ℕ) (given : ℕ) : NameAgent :=
  match addr with
  | some addr =>
    { a with
      caches := Function.update a.caches self (Function.update (a.caches self) name (some addr))
      given := Function.update a.given self (Function.update (a.given self) name given) }
  | none => a

/-- The metatable of `register_name`, up to its first yield. -/
def lookup (name : ServiceName) (bound : Option ℕ) (changes : ℕ) : NameAgent × List Found :=
  match a.registerName name with
  | some addr =>
    (a, [⟨name, .cached (a.given a.current name = changes), bound, some addr⟩])
  | none =>
    match a.inqueryName name with
    | some q =>
      -- the name is in query already, maybe for a cache of before
      let kind := .joined (a.current = q.asker.cache) (a.inbox.all (ToAgent.present name changes))
      let waitco := q.waitco ++ [⟨a.current, kind, bound, changes⟩]
      (a.setInquery name (some { q with waitco := waitco }), [])
    | none =>
      let asker := ⟨a.current, .asked, bound, changes⟩
      ((a.setInquery name (some ⟨asker, []⟩)).setOutbox (a.outbox ++ [name]), [])

/-- The daemon has answered the query of a name: the lookup that asked ends. -/
def answered (name : ServiceName) (addr : Option ℕ) (given changes : ℕ) :
    NameAgent × List Found :=
  match a.inqueryName name with
  | some q =>
    let woken := a.woken ++ q.waitco.map fun l => (name, l)
    (((a.setInquery name none).enter q.asker.cache name addr given).setWoken woken,
      [q.asker.found name changes addr])
  | none => (a, [])

/-- `register_name = new_register_name()`. -/
def renew : NameAgent :=
  { a with
    current := a.current + 1
    caches := Function.update a.caches (a.current + 1) fun _ => none }

/-- A binding is removed. An agent in `cluster_agent` is told; `entry` is what stands there. -/
def unbound (entry : Option AgentEntry) : NameAgent :=
  match entry with
  | some (.agent _) => a.send .namechange
  -- the daemon does not know the agent yet, and tells it nothing
  | some (.launching _) => a
  | none => a

end NameAgent

/-! ### The daemon and its agents -/

/-- The daemon, the gate and the agents. An agent stands under the socket it was launched for.
For the record, how often the binding of a name has changed, and the lookups that have ended. -/
structure Names where
  registry : Registry
  sockets : Sockets
  agents : ℕ → Option NameAgent
  changes : ServiceName → ℕ
  found : List Found

/-- What happens: the gate or the launcher reports; the agent of a socket has started, and can be
sent requests; `command.register` and `command.unregister` are called; a request makes an agent
look up a name; the daemon handles a query of an agent; an agent handles a message of the
daemon; a lookup that was woken up goes on. -/
inductive NameEvent
  | socket (e : SocketEvent)
  | started (fd : ℕ)
  | register (name : ServiceName) (addr : ℕ)
  | unregister (name : ServiceName)
  | lookup (fd : ℕ) (name : ServiceName)
  | queryname (fd : ℕ)
  | deliver (fd : ℕ)
  | resume (fd i : ℕ)
  deriving DecidableEq, Repr

/-- The socket whose agent is sent an exit message. -/
def exitTo (t : AgentTable) : SocketEvent → Option ℕ
  | .close fd => if (t.closed fd).2 = [] then none else some fd
  | .error fd => if (t.closed fd).2 = [] then none else some fd
  | .launched fd agent => if (t.launched fd agent).2 = [] then none else some fd
  | _ => none

namespace Names

variable (s : Names)

/-- No socket was opened, and no name registered. -/
def init : Names where
  registry := .empty
  sockets := .init
  agents _ := none
  changes _ := 0
  found := []

/-- The agent of a socket changes, or ends, and lookups end. -/
def setAgent (fd : ℕ) (a : Option NameAgent) (found : List Found) : Names :=
  { s with
    agents := Function.update s.agents fd a
    found := s.found ++ found }

/-- The binding of a name changes. -/
def changed (name : ServiceName) : Names :=
  { s with changes := Function.update s.changes name (s.changes name + 1) }

/-- `clearnamecache`, called because the binding of a name is removed. -/
def clearnamecache (name : ServiceName) : Names :=
  { s.changed name with
    agents := fun fd => (s.agents fd).map fun a => a.unbound (s.sockets.clusterAgent fd) }

/-- What is done about the name that an address had before. -/
def dropOld (addr : ℕ) : Names :=
  match s.registry.byAddr addr with
  | some oldName => { s with registry := s.registry.drop oldName }.clearnamecache oldName
  | none => s

/-- `command.register`. Where the assertion fails, nothing is changed. -/
def register (name : ServiceName) (addr : ℕ) : Names :=
  if s.registry.byName name = none then
    { s.dropOld addr with registry := (s.dropOld addr).registry.bind name addr }.changed name
  else s

/-- `command.unregister`. -/
def unregister (name : ServiceName) : Names :=
  match s.registry.byName name with
  | some addr => { s with registry := s.registry.release name addr }.clearnamecache name
  | none => s

/-- The gate or the launcher has reported. -/
def reported (sockets : Sockets) (e : SocketEvent) : Names :=
  { s with
    sockets := sockets
    agents := fun fd =>
      if exitTo s.sockets.clusterAgent e = some fd then (s.agents fd).map fun a => a.send .exit
      else s.agents fd }

/-- The start of an agent comes before its launch ends, and a launch raises where the agent does
not start. -/
def inOrder : SocketEvent → Bool
  | .launched fd _ => (s.agents fd).isSome
  | .raised fd => (s.agents fd).isNone
  | _ => true

/-- An agent handles a message of the daemon, which is taken out of its inbox. -/
def handle (fd : ℕ) (a : NameAgent) : ToAgent → Names
  | .namechange => s.setAgent fd (some a.renew) []
  | .exit => s.setAgent fd none []
  | .answer name addr given =>
    s.setAgent fd (some (a.answered name addr given (s.changes name)).1)
      (a.answered name addr given (s.changes name)).2

/-- One step. -/
def step (s : Names) : NameEvent → Option Names
  | .socket e =>
    if s.inOrder e then (s.sockets.step e).map fun sockets => s.reported sockets e else none
  | .started fd =>
    if s.sockets.launch fd = .pending ∧ s.agents fd = none then
      some (s.setAgent fd (some .new) [])
    else none
  | .register name addr => some (s.register name addr)
  | .unregister name => some (s.unregister name)
  | .lookup fd name =>
    (s.agents fd).map fun a =>
      let r := a.lookup name (s.registry.byName name) (s.changes name)
      s.setAgent fd (some r.1) r.2
  | .queryname fd =>
    (s.agents fd).bind fun a =>
      match a.outbox with
      | name :: outbox =>
        let answer := .answer name (s.registry.byName name) (s.changes name)
        some (s.setAgent fd (some ((a.setOutbox outbox).send answer)) [])
      | [] => none
  | .deliver fd =>
    (s.agents fd).bind fun a =>
      match a.inbox with
      | m :: inbox => some (s.handle fd (a.setInbox inbox) m)
      | [] => none
  | .resume fd i =>
    (s.agents fd).bind fun a =>
      (a.woken[i]?).map fun w =>
        s.setAgent fd (some (a.setWoken (a.woken.eraseIdx i)))
          [w.2.found w.1 (s.changes w.1) (a.caches w.2.cache w.1)]

/-- No message is on its way between the daemon, the launcher and the agents, and no launch is
pending. -/
def Quiet : Prop :=
  (∀ fd, s.sockets.launch fd ≠ .pending) ∧
    ∀ fd a, s.agents fd = some a → a.inbox = [] ∧ a.outbox = []

/-- What an agent has cached is what is registered. -/
def Coherent : Prop :=
  ∀ fd a name addr, s.agents fd = some a → a.registerName name = some addr →
    s.registry.byName name = some addr

/-! ### The sockets -/

variable {s} {s' : Names}

/-- What an event can do: every case of `step`, with what it needs of the state. -/
inductive StepCase (s : Names) : NameEvent → Names → Prop
  | socket {e : SocketEvent} {sockets : Sockets} (horder : s.inOrder e = true)
      (hstep : s.sockets.step e = some sockets) : StepCase s (.socket e) (s.reported sockets e)
  | started {fd : ℕ} (hpending : s.sockets.launch fd = .pending) (hnone : s.agents fd = none) :
      StepCase s (.started fd) (s.setAgent fd (some .new) [])
  | register (name : ServiceName) (addr : ℕ) :
      StepCase s (.register name addr) (s.register name addr)
  | unregister (name : ServiceName) : StepCase s (.unregister name) (s.unregister name)
  | lookup {fd : ℕ} {a : NameAgent} (name : ServiceName) (ha : s.agents fd = some a) :
      StepCase s (.lookup fd name)
        (s.setAgent fd (some (a.lookup name (s.registry.byName name) (s.changes name)).1)
          (a.lookup name (s.registry.byName name) (s.changes name)).2)
  | queryname {fd : ℕ} {a : NameAgent} {name : ServiceName} {outbox : List ServiceName}
      (ha : s.agents fd = some a) (houtbox : a.outbox = name :: outbox) :
      StepCase s (.queryname fd)
        (s.setAgent fd (some ((a.setOutbox outbox).send
          (.answer name (s.registry.byName name) (s.changes name)))) [])
  | deliver {fd : ℕ} {a : NameAgent} {m : ToAgent} {inbox : List ToAgent}
      (ha : s.agents fd = some a) (hinbox : a.inbox = m :: inbox) :
      StepCase s (.deliver fd) (s.handle fd (a.setInbox inbox) m)
  | resume {fd i : ℕ} {a : NameAgent} {w : ServiceName × Lookup} (ha : s.agents fd = some a)
      (hw : a.woken[i]? = some w) :
      StepCase s (.resume fd i)
        (s.setAgent fd (some (a.setWoken (a.woken.eraseIdx i)))
          [w.2.found w.1 (s.changes w.1) (a.caches w.2.cache w.1)])

theorem stepCase_of_step {e : NameEvent} (hs : s.step e = some s') : StepCase s e s' := by
  cases e with
  | socket e =>
    obtain ⟨horder, hs⟩ := Option.ite_none_right_eq_some.mp hs
    obtain ⟨sockets, hstep, rfl⟩ := Option.map_eq_some_iff.mp hs
    exact .socket horder hstep
  | started fd =>
    obtain ⟨⟨hpending, hnone⟩, hs⟩ := Option.ite_none_right_eq_some.mp hs
    obtain rfl := Option.some.inj hs
    exact .started hpending hnone
  | register name addr =>
    obtain rfl := Option.some.inj hs
    exact .register name addr
  | unregister name =>
    obtain rfl := Option.some.inj hs
    exact .unregister name
  | lookup fd name =>
    obtain ⟨a, ha, rfl⟩ := Option.map_eq_some_iff.mp hs
    exact .lookup name ha
  | queryname fd =>
    obtain ⟨a, ha, hs⟩ := Option.bind_eq_some_iff.mp hs
    split at hs
    case h_1 houtbox =>
      obtain rfl := Option.some.inj hs
      exact .queryname ha houtbox
    case h_2 => exact nomatch hs
  | deliver fd =>
    obtain ⟨a, ha, hs⟩ := Option.bind_eq_some_iff.mp hs
    split at hs
    case h_1 hinbox =>
      obtain rfl := Option.some.inj hs
      exact .deliver ha hinbox
    case h_2 => exact nomatch hs
  | resume fd i =>
    obtain ⟨a, ha, hs⟩ := Option.bind_eq_some_iff.mp hs
    obtain ⟨w, hw, rfl⟩ := Option.map_eq_some_iff.mp hs
    exact .resume ha hw

/-- Only a report of the gate or the launcher changes the sockets. -/
theorem sockets_of_step {e : NameEvent} (hs : s.step e = some s') :
    s'.sockets = s.sockets ∨ ∃ e', e = .socket e' ∧ s.sockets.step e' = some s'.sockets := by
  cases stepCase_of_step hs with
  | socket _ hstep => exact .inr ⟨_, rfl, hstep⟩
  | started => exact .inl rfl
  | register name addr =>
    left
    unfold register dropOld
    split_ifs
    · cases s.registry.byAddr addr <;> rfl
    · rfl
  | unregister name =>
    left
    unfold unregister
    cases s.registry.byName name <;> rfl
  | lookup => exact .inl rfl
  | queryname => exact .inl rfl
  | @deliver _ _ m =>
    left
    cases m <;> rfl
  | resume => exact .inl rfl

/-- The sockets are as they are without the names. -/
theorem sockets_reachable {ok : Names → NameEvent → Prop} (h : Reachable step ok init s) :
    Reachable Sockets.step anyStep .init s.sockets := by
  apply h.project sockets
  intro s e s' _ hs
  apply (sockets_of_step hs).imp_right
  rintro ⟨e', -, hstep⟩
  exact ⟨e', trivial, hstep⟩

/-! ### What happens to an agent -/

/-- What a report makes of the entry of an agent, and whether the agent is sent an exit
message. -/
inductive Report : Option AgentEntry → Bool → Option AgentEntry → Prop
  | same (entry : Option AgentEntry) : Report entry false entry
  | opened : Report none false (some (.launching false))
  | ended (closed : Bool) : Report (some (.launching closed)) false (some (.launching true))
  | left (agent : ℕ) : Report (some (.agent agent)) true none
  | launched {entry : Option AgentEntry} (agent : ℕ) (h : truthy entry = false) :
      Report entry false (some (.agent agent))
  | dismissed {entry : Option AgentEntry} (h : truthy entry = true) : Report entry true none

section Reports

variable {t : AgentTable} {fd fd' agent : ℕ}

theorem report_closed (t : AgentTable) (fd fd' : ℕ) :
    Report (t fd) (decide ((if (t.closed fd').2 = [] then none else some fd') = some fd))
      ((t.closed fd').1 fd) := by
  -- the report is about this socket, or leaves its entry alone
  by_cases hfd : fd = fd'
  · subst hfd
    unfold AgentTable.closed
    split
    case h_1 closed hentry =>
      simp only [if_true, Function.update_self, hentry]
      exact .ended closed
    case h_2 agent hentry =>
      simp only [if_neg (List.cons_ne_nil _ _), Function.update_self, hentry, decide_true]
      exact .left agent
    case h_3 hentry =>
      rw [if_pos rfl]
      exact .same _
  · rw [Sockets.closed_of_ne hfd]
    split_ifs
    · exact .same _
    · rw [decide_eq_false fun heq => hfd (Option.some.inj heq).symm]
      exact .same _

theorem report_launched (t : AgentTable) (fd fd' agent : ℕ) :
    Report (t fd) (decide ((if (t.launched fd' agent).2 = [] then none else some fd') = some fd))
      ((t.launched fd' agent).1 fd) := by
  by_cases hfd : fd = fd'
  · subst hfd
    cases htruthy : truthy (t fd) with
    | true =>
      simp only [Sockets.launched_of_truthy htruthy, if_neg (List.cons_ne_nil _ _),
        Function.update_self, decide_true]
      exact .dismissed htruthy
    | false =>
      have hnot : ¬ truthy (t fd) = true := by simp [htruthy]
      simp only [Sockets.launched_of_not hnot, if_true, Function.update_self]
      exact .launched agent htruthy
  · rw [Sockets.launched_of_ne hfd]
    split_ifs
    · exact .same _
    · rw [decide_eq_false fun heq => hfd (Option.some.inj heq).symm]
      exact .same _

/-- What a report of the gate or the launcher is for each entry. -/
theorem report_of_step {sockets sockets' : Sockets} (hinv : sockets.Inv) {e : SocketEvent}
    (hstep : sockets.step e = some sockets') (fd : ℕ) :
    Report (sockets.clusterAgent fd) (decide (exitTo sockets.clusterAgent e = some fd))
      (sockets'.clusterAgent fd) := by
  cases Sockets.stepCase_of_step hstep with
  | @«open» fd' hgate =>
    show Report _ _ (Function.update sockets.clusterAgent fd' (some (.launching false)) fd)
    by_cases hfd : fd = fd'
    · subst hfd
      rw [Function.update_self, ((hinv.entries fd).of_unopened hgate).2]
      exact .opened
    · rw [Function.update_of_ne hfd]
      exact .same _
  | close => exact report_closed ..
  | error => exact report_closed ..
  | warning => exact .same _
  | launched => exact report_launched ..
  | raised => exact .same _

end Reports

/-- A property of an agent, its entry in `cluster_agent`, the registry and how often the binding
of each name has changed. -/
abbrev AgentProp :=
  Option AgentEntry → (ServiceName → Option ℕ) → (ServiceName → ℕ) → NameAgent → Prop

/-- The property is kept by everything that can happen to an agent, where bindings are removed
in a way that `told` admits: it depends on the entry, and on whether the agent knows the name. -/
structure Kept (told : Option AgentEntry → Bool → Prop) (P : AgentProp) : Prop where
  started : ∀ closed R v, P (some (.launching closed)) R v .new
  reported : ∀ {entry entry' R v a exit}, Report entry exit entry' → P entry R v a →
    P entry' R v (if exit then a.send .exit else a)
  unbound : ∀ {entry R v a} name, told entry (a.knows name) → P entry R v a →
    P entry (Function.update R name none) (Function.update v name (v name + 1)) (a.unbound entry)
  bound : ∀ {entry R v a} name addr, R name = none → P entry R v a →
    P entry (Function.update R name (some addr)) (Function.update v name (v name + 1)) a
  lookup : ∀ {entry R v a} name, P entry R v a → P entry R v (a.lookup name (R name) (v name)).1
  queried : ∀ {entry R v a} name outbox, a.outbox = name :: outbox → P entry R v a →
    P entry R v ((a.setOutbox outbox).send (.answer name (R name) (v name)))
  renewed : ∀ {entry R v a} inbox, a.inbox = .namechange :: inbox → P entry R v a →
    P entry R v (a.setInbox inbox).renew
  answered : ∀ {entry R v a} name addr given inbox, a.inbox = .answer name addr given :: inbox →
    P entry R v a → P entry R v ((a.setInbox inbox).answered name addr given (v name)).1
  resumed : ∀ {entry R v a} i, P entry R v a → P entry R v (a.setWoken (a.woken.eraseIdx i))

theorem agents_setAgent_self (s : Names) (fd : ℕ) (a : Option NameAgent) (found : List Found) :
    (s.setAgent fd a found).agents fd = a :=
  Function.update_self ..

theorem agents_setAgent_of_ne {fd fd' : ℕ} (h : fd' ≠ fd) (s : Names) (a : Option NameAgent)
    (found : List Found) : (s.setAgent fd a found).agents fd' = s.agents fd' :=
  Function.update_of_ne h ..

/-- Every agent has the property. -/
def AllAgents (P : AgentProp) (s : Names) : Prop :=
  ∀ fd a, s.agents fd = some a → P (s.sockets.clusterAgent fd) s.registry.byName s.changes a

/-- The name whose binding an event removes. -/
def removes (s : Names) : NameEvent → Option ServiceName
  | .register name addr => if s.registry.byName name = none then s.registry.byAddr addr else none
  | .unregister name => if (s.registry.byName name).isSome then some name else none
  | _ => none

/-- A binding that the event removes is removed in a way that `told` admits, for every agent. -/
def Tells (told : Option AgentEntry → Bool → Prop) (s : Names) (e : NameEvent) : Prop :=
  ∀ name, s.removes e = some name → ∀ fd a, s.agents fd = some a →
    told (s.sockets.clusterAgent fd) (a.knows name)

namespace Kept

variable {told : Option AgentEntry → Bool → Prop} {P : AgentProp}

theorem setAgent (hP : AllAgents P s) {fd : ℕ} {a : NameAgent} (found : List Found)
    (ha : P (s.sockets.clusterAgent fd) s.registry.byName s.changes a) :
    AllAgents P (s.setAgent fd (some a) found) := by
  intro fd' a' ha'
  by_cases hfd : fd' = fd
  · subst hfd
    obtain rfl := Option.some.inj ((agents_setAgent_self ..).symm.trans ha')
    exact ha
  · exact hP fd' a' ((agents_setAgent_of_ne hfd ..).symm.trans ha')

theorem setAgent_none (hP : AllAgents P s) (fd : ℕ) (found : List Found) :
    AllAgents P (s.setAgent fd none found) := by
  intro fd' a' ha'
  by_cases hfd : fd' = fd
  · subst hfd
    exact nomatch (agents_setAgent_self ..).symm.trans ha'
  · exact hP fd' a' ((agents_setAgent_of_ne hfd ..).symm.trans ha')

/-- Removing a binding keeps the property. -/
theorem clearnamecache (h : Kept told P) (hP : AllAgents P s) {registry : Registry}
    {name : ServiceName} (hregistry : registry.byName = Function.update s.registry.byName name none)
    (htold : ∀ fd a, s.agents fd = some a → told (s.sockets.clusterAgent fd) (a.knows name)) :
    AllAgents P ({ s with registry := registry }.clearnamecache name) := by
  intro fd a' ha'
  obtain ⟨a, ha, rfl⟩ := Option.map_eq_some_iff.mp ha'
  show P _ registry.byName _ _
  rw [hregistry]
  exact h.unbound name (htold fd a ha) (hP fd a ha)

theorem register (h : Kept told P) (hP : AllAgents P s) {name : ServiceName} {addr : ℕ}
    (htold : Tells told s (.register name addr)) : AllAgents P (s.register name addr) := by
  unfold Names.register
  split_ifs with hfree
  · -- the old name of the address is unbound first
    have hold : AllAgents P (s.dropOld addr) ∧ (s.dropOld addr).registry.byName name = none := by
      have hremoves : s.removes (.register name addr) = s.registry.byAddr addr := if_pos hfree
      unfold Names.dropOld
      cases hbyAddr : s.registry.byAddr addr with
      | none => exact ⟨hP, hfree⟩
      | some oldName =>
        refine ⟨h.clearnamecache hP rfl (htold oldName (hremoves.trans hbyAddr)), ?_⟩
        show Function.update s.registry.byName oldName none name = none
        rw [Function.update_apply, hfree, ite_self]
    intro fd a ha
    exact h.bound name addr hold.2 (hold.1 fd a ha)
  · exact hP

theorem unregister (h : Kept told P) (hP : AllAgents P s) {name : ServiceName}
    (htold : Tells told s (.unregister name)) : AllAgents P (s.unregister name) := by
  unfold Names.unregister
  cases hbound : s.registry.byName name with
  | none => exact hP
  | some addr =>
    have hremoves : s.removes (.unregister name) = some name := by
      simp only [removes, hbound, Option.isSome_some, if_true]
    exact h.clearnamecache hP rfl (htold name hremoves)

/-- **A step keeps the property.** -/
theorem step (h : Kept told P) (hsockets : s.sockets.Inv) (hP : AllAgents P s) {e : NameEvent}
    (htold : Tells told s e) (hs : s.step e = some s') : AllAgents P s' := by
  cases stepCase_of_step hs with
  | socket _ hstep =>
    intro fd a' ha'
    have hreport := report_of_step hsockets hstep fd
    simp only [Names.reported] at ha'
    split_ifs at ha' with hexit
    · obtain ⟨a, ha, rfl⟩ := Option.map_eq_some_iff.mp ha'
      rw [decide_eq_true hexit] at hreport
      exact h.reported hreport (hP fd a ha)
    · rw [decide_eq_false hexit] at hreport
      exact h.reported hreport (hP fd a' ha')
  | @started fd hpending _ =>
    apply setAgent hP
    -- the daemon has not been told the address yet
    obtain ⟨closed, -, hentry⟩ := (hsockets.entries fd).of_pending hpending
    rw [hentry]
    exact h.started closed _ _
  | register name addr => exact h.register hP htold
  | unregister name => exact h.unregister hP htold
  | lookup name ha => exact setAgent hP _ <| h.lookup name (hP _ _ ha)
  | queryname ha houtbox => exact setAgent hP _ <| h.queried _ _ houtbox (hP _ _ ha)
  | @deliver fd a m inbox ha hinbox =>
    cases m with
    | namechange => exact setAgent hP _ <| h.renewed inbox hinbox (hP fd a ha)
    | exit => exact setAgent_none hP fd []
    | answer name addr given =>
      exact setAgent hP _ <| h.answered name addr given inbox hinbox (hP fd a ha)
  | @resume fd i a _ ha _ => exact setAgent hP _ <| h.resumed i (hP fd a ha)

end Kept

/-- The invariant of the sockets holds in every run. -/
theorem sockets_inv {ok : Names → NameEvent → Prop} (h : Reachable step ok init s) :
    s.sockets.Inv :=
  (sockets_reachable h).invariant Sockets.inv_init fun _ _ _ hinv _ hs => hinv.step hs

/-- **Agent rule.** What everything that can happen to an agent keeps holds of every agent in
every state of a run. -/
theorem Kept.allAgents {told : Option AgentEntry → Bool → Prop} {P : AgentProp}
    (hkept : Kept told P) {ok : Names → NameEvent → Prop} (hok : ∀ s e, ok s e → Tells told s e)
    (h : Reachable Names.step ok init s) : AllAgents P s := by
  refine h.invariant' ?_ ?_
  · intro fd a ha
    exact nomatch ha
  · intro s e s' hreach hP hokstep hs
    exact hkept.step (sockets_inv hreach) hP (hok s e hokstep) hs

end Names

end TestCluster.BeeCluster
