import Mathlib.Logic.Function.Basic
import Mathlib.Data.List.Basic
import Mathlib.Data.Int.Notation
import Mathlib.Order.Nat
import TestCluster.Semantics.Machine

/-!
# The cluster daemon

`bee_clusterd.lua`: the tables of node addresses and of sender services, `loadconfig`,
and `open_channel`, which every lookup of a node and every forked reopening runs. A
coroutine runs until it yields: while it waits for another one, while a sender is
launched and while a sender is called. An event resumes one coroutine, or starts one.

Lua strings are written as Lean strings, a table as the function from its keys.

## Main definitions

* `Daemon` — the tables, the coroutines and the senders they have launched
* `openChannel`, `leave` — `open_channel` between two yields
* `loadconfig`
* `step` — one event
-/

namespace TestCluster.BeeCluster.Clusterd

/-! ### Data -/

/-- What `node_address` holds for a configured node. -/
inductive NodeAddress
  | down
  | at (address : String)
  deriving DecidableEq, Repr

/-- A value of the configuration table; tables and functions are told apart by `id`. -/
inductive ConfigValue
  | string (s : String)
  | boolean (b : Bool)
  | number (n : ℤ)
  | object (id : ℕ)
  deriving DecidableEq, Repr

/-- A key of the configuration table; `name:sub` raises on all but strings. -/
inductive ConfigKey
  | name (s : String)
  | other (id : ℕ)
  deriving DecidableEq, Repr

/-- What `changenode` tells a sender: a host and port, `nil` when the address has none,
or to close. -/
inductive Change
  | to (hostPort : Option (String × String))
  | off
  deriving DecidableEq, Repr

/-- A sender service: the node it was launched for, whether its channel is closed, and
the `changenode` calls it was sent, the last one first, with their success. -/
structure Sender where
  node : String
  closed : Bool
  calls : List (Change × Bool)
  killed : Bool
  deriving DecidableEq, Repr

/-- The last `changenode` call that succeeded. -/
def Sender.lastChange (s : Sender) : Option Change :=
  (s.calls.find? fun call => call.2).map Prod.fst

/-- `changenode` at the sender. Connecting clears the closed mark first, also when the
attempt then fails; without a host the channel is closed. -/
def Sender.changenode (s : Sender) (change : Change) (succ : Bool) : Sender :=
  { s with
    closed :=
      match change with
      | .to (some _) => false
      | .to none => s.closed || succ
      | .off => s.closed || succ
    calls := (change, succ) :: s.calls }

/-- An entry of `connecting`: its waiting coroutines, the one that waits for the
address, and the channel that was opened. -/
structure Entry where
  waiters : List ℕ
  namequery : Option ℕ
  channel : Option ℕ
  deriving DecidableEq, Repr

/-- Where a coroutine is. The states that carry an entry `ct` own it, but for `queued`. -/
inductive Pc
  | idle
  | forked (key : String)
  | running
  | queued (key : String) (ct : ℕ)
  | naming (key : String) (ct : ℕ)
  | launching (key : String) (ct : ℕ) (address : String)
  | changing (key : String) (ct : ℕ) (address : String) (c : ℕ)
  | closing (key : String) (ct : ℕ) (c : ℕ)
  | returned (c : Option ℕ)
  | raised
  deriving DecidableEq, Repr

namespace Pc

/-- The coroutine sleeps in `skynet.wait`. -/
def sleeping : Pc → Bool
  | queued _ _ => true
  | naming _ _ => true
  | _ => false

/-- The entry a coroutine owns. -/
def owned : Pc → Option (String × ℕ)
  | naming key ct => some (key, ct)
  | launching key ct _ => some (key, ct)
  | changing key ct _ _ => some (key, ct)
  | closing key ct _ => some (key, ct)
  | _ => none

/-- The node whose channel the coroutine is opening, or scheduled to open. -/
def node : Pc → Option String
  | forked key => some key
  | queued key _ => some key
  | naming key _ => some key
  | launching key _ _ => some key
  | changing key _ _ _ => some key
  | closing key _ _ => some key
  | _ => none

end Pc

/-- The state of the daemon. Coroutines, entries and senders are numbered in the order
in which they are made. -/
structure Daemon where
  config : String → Option ConfigValue
  nodeAddress : String → Option NodeAddress
  nodeSender : String → Option ℕ
  nodeSenderClosed : String → Bool
  nodeChannel : String → Option ℕ
  connecting : String → Option ℕ
  entry : ℕ → Entry
  pc : ℕ → Pc
  woken : ℕ → Bool
  sender : ℕ → Option Sender
  nextCo : ℕ
  nextEntry : ℕ
  nextSender : ℕ

/-- The daemon before its first `loadconfig`. -/
def init : Daemon where
  config _ := none
  nodeAddress _ := none
  nodeSender _ := none
  nodeSenderClosed _ := false
  nodeChannel _ := none
  connecting _ := none
  entry _ := ⟨[], none, none⟩
  pc _ := .idle
  woken _ := false
  sender _ := none
  nextCo := 0
  nextEntry := 0
  nextSender := 0

/-- `string.match(address, "([^:]+):(.*)$")`: the first run of characters other than
colons that a colon follows, and what comes behind that colon. -/
def hostPort (address : String) : Option (String × String) :=
  let rest := address.toList.dropWhile (· = ':')
  match rest.dropWhile (· ≠ ':') with
  | _ :: port => some (String.ofList (rest.takeWhile (· ≠ ':')), String.ofList port)
  | [] => none

namespace Daemon

variable (d : Daemon)

/-- `config.nowaiting`. -/
def nowaiting : Bool :=
  match d.config "nowaiting" with
  | none => false
  | some (.boolean b) => b
  | some _ => true

/-- A coroutine comes to its next stop. -/
def setPc (co : ℕ) (pc : Pc) : Daemon := { d with pc := Function.update d.pc co pc }

/-- `skynet.wakeup`, which only affects a sleeping coroutine. -/
def wakeup (co : ℕ) : Daemon :=
  { d with woken := Function.update d.woken co (d.woken co || (d.pc co).sleeping) }

/-- `table.insert(ct, co)` and `skynet.wait(co)`. -/
def waitOn (co : ℕ) (key : String) (ct : ℕ) : Daemon :=
  { d with
    entry := Function.update d.entry ct { d.entry ct with waiters := (d.entry ct).waiters ++ [co] }
    pc := Function.update d.pc co (.queued key ct)
    woken := Function.update d.woken co false }

/-- `ct = {}; connecting[key] = ct`. -/
def enter (key : String) : Daemon :=
  { d with
    connecting := Function.update d.connecting key (some d.nextEntry)
    entry := Function.update d.entry d.nextEntry ⟨[], none, none⟩
    nextEntry := d.nextEntry + 1 }

/-- `ct.namequery = co` and `skynet.wait(co)`. -/
def awaitAddress (co : ℕ) (key : String) (ct : ℕ) : Daemon :=
  { d with
    entry := Function.update d.entry ct { d.entry ct with namequery := some co }
    pc := Function.update d.pc co (.naming key ct)
    woken := Function.update d.woken co false }

/-- `connecting[key] = nil`, and every coroutine in the entry is woken. -/
def release (key : String) (ct : ℕ) : Daemon :=
  let d := { d with connecting := Function.update d.connecting key none }
  (d.entry ct).waiters.foldl wakeup d

/-- How a coroutine ends: `assert(succ, err); return c`. -/
def finish (co : ℕ) (succ : Bool) (c : Option ℕ) : Daemon :=
  d.setPc co (if succ then .returned c else .raised)

/-! ### `open_channel` -/

/-- `open_channel` once the address was read, up to its next yield. Where it does not
yield, the address is still the current one when it is compared at the end. -/
def proceed (co : ℕ) (key : String) (ct : ℕ) : Daemon :=
  match d.nodeAddress key with
  | some (.at address) =>
    match d.nodeSender key with
    -- the first sender of the node
    | none => d.setPc co (.launching key ct address)
    | some c => d.setPc co (.changing key ct address c)
  | some .down =>
    match d.nodeSender key with
    -- nothing was opened, so there is nothing to turn off
    | none => (d.release key ct).finish co true none
    | some c =>
      if d.nodeSenderClosed key then
        -- closed, always succ
        (d.release key ct).finish co true (some c)
      else
        d.setPc co (.closing key ct c)
  -- the node is absent
  | none => (d.release key ct).finish co false none

/-- `open_channel(t, key)` from its first line to its next yield. -/
def openChannel (co : ℕ) (key : String) : Daemon :=
  match d.connecting key with
  | some ct => d.waitOn co key ct
  | none =>
    let ct := d.nextEntry
    let d := d.enter key
    -- the address may come with a later reload
    if d.nodeAddress key = none ∧ d.nowaiting = false then
      d.awaitAddress co key ct
    else
      d.proceed co key ct

/-- The end of `open_channel`: the entry is released, and the body runs again when the
address has changed meanwhile. -/
def leave (co : ℕ) (key : String) (ct : ℕ) (address : NodeAddress) (succ : Bool)
    (c : Option ℕ) : Daemon :=
  let d := d.release key ct
  -- the address changed while the coroutine waited: once more
  if d.nodeAddress key ≠ some address then d.openChannel co key else d.finish co succ c

/-- A coroutine woken in the queue of an entry: it queues again when the node is being
opened again, and else takes the channel that was opened. -/
def requeue (co : ℕ) (key : String) (ct : ℕ) : Daemon :=
  match d.connecting key with
  | some ct => d.waitOn co key ct
  | none =>
    -- the entry that was waited in, which `connecting` does not have any more
    match d.nodeAddress key, (d.entry ct).channel with
    | some (.at _), some c => d.finish co true (some c)
    | _, _ => d.finish co false none

/-- `changenode` of the sender `c` has ended. -/
def called (c : ℕ) (change : Change) (succ : Bool) : Daemon :=
  { d with
    sender := Function.update d.sender c ((d.sender c).map fun s => s.changenode change succ) }

/-- A new sender service, with its number. -/
def launchSender (s : Sender) : Daemon :=
  { d with
    sender := Function.update d.sender d.nextSender (some s)
    nextSender := d.nextSender + 1 }

/-- A sender service was launched for the node: it is recorded, unless another one was
recorded meanwhile (then the new one is killed). Its `changenode` is called next. -/
def launched (co : ℕ) (key : String) (ct : ℕ) (address : String) : Daemon :=
  match d.nodeSender key with
  -- another sender was recorded while this one was launched
  | some c => (d.launchSender ⟨key, false, [], true⟩).setPc co (.changing key ct address c)
  | none =>
    let d' := d.launchSender ⟨key, false, [], false⟩
    { d' with nodeSender := Function.update d.nodeSender key (some d.nextSender) }.setPc co
      (.changing key ct address d.nextSender)

/-- `changenode` with a host and port succeeded. -/
def changed (co : ℕ) (key : String) (ct : ℕ) (address : String) (c : ℕ) : Daemon :=
  let d := (d.setPc co .running).called c (.to (hostPort address)) true
  { d with
    nodeChannel := Function.update d.nodeChannel key (some c)
    entry := Function.update d.entry ct { d.entry ct with channel := some c }
    nodeSenderClosed := Function.update d.nodeSenderClosed key false }.leave
      co key ct (.at address) true (some c)

/-- `changenode` with a host and port raised. -/
def changeFailed (co : ℕ) (key : String) (ct : ℕ) (address : String) (c : ℕ) : Daemon :=
  ((d.setPc co .running).called c (.to (hostPort address)) false).leave
    co key ct (.at address) false (some c)

/-- `changenode(false)` succeeded. -/
def closed (co : ℕ) (key : String) (ct : ℕ) (c : ℕ) : Daemon :=
  let d := (d.setPc co .running).called c .off true
  { d with nodeSenderClosed := Function.update d.nodeSenderClosed key true }.leave
    co key ct .down true (some c)

/-- `changenode(false)` raised; the sender is left for the next attempt. -/
def closeFailed (co : ℕ) (key : String) (ct : ℕ) (c : ℕ) : Daemon :=
  ((d.setPc co .running).called c .off false).leave co key ct .down false (some c)

/-! ### `loadconfig` -/

/-- Wake the coroutine that waits for the address of the node, if there is one. -/
def wakeNamequery (name : String) : Daemon :=
  match d.connecting name with
  | none => d
  | some ct =>
    match (d.entry ct).namequery with
    | none => d
    | some co => d.wakeup co

/-- Wake every coroutine that waits for an address, whatever the node. -/
def wakeNamequeries : Daemon :=
  { d with
    woken := fun co => d.woken co ||
      match d.pc co with
      | .naming key ct => decide (d.connecting key = some ct ∧ (d.entry ct).namequery = some co)
      | _ => false }

/-- The address of a node is recorded; `true` when its sender has to be told. -/
def setAddress (name : String) (address : NodeAddress) : Daemon × Bool :=
  if d.nodeAddress name ≠ some address then
    let d' := { d with nodeAddress := Function.update d.nodeAddress name (some address) }
    -- the channel is forgotten at once, the sender is told later
    if (d.nodeSender name).isSome then
      ({ d' with nodeChannel := Function.update d.nodeChannel name none }, true)
    else
      (d', false)
  else
    (d, false)

end Daemon

/-- How `loadconfig` reads one entry: as a setting, as the address of a node, or not at
all. -/
inductive Parsed
  | setting (name : String) (value : ConfigValue)
  | address (name : String) (address : NodeAddress)
  | invalid
  deriving DecidableEq, Repr

/-- `name:sub(1, 2) == "__"` tells a setting; a node has a string or `false`. -/
def parseEntry : ConfigKey × ConfigValue → Parsed
  | (.name name, value) =>
    match name.toList with
    | '_' :: '_' :: rest => .setting (String.ofList rest) value
    | _ =>
      match value with
      | .string s => .address name (.at s)
      | .boolean false => .address name .down
      | _ => .invalid
  | (.other _, _) => .invalid

namespace Daemon

/-- The loop body of `loadconfig` for an address. -/
def loadAddress (d : Daemon) (name : String) (address : NodeAddress) : Daemon × Bool :=
  let r := d.setAddress name address
  (if r.1.nowaiting then r.1 else r.1.wakeNamequery name, r.2)

/-- The loop of `loadconfig`, in the order in which `pairs` visits the table; `none` for
the names when an entry raises, with everything done before it left in place. -/
def loadLoop (d : Daemon) (reload : List String) :
    List (ConfigKey × ConfigValue) → Daemon × Option (List String)
  | [] => (d, some reload)
  | e :: rest =>
    match parseEntry e with
    | .setting name value =>
      loadLoop { d with config := Function.update d.config name (some value) } reload rest
    | .address name address =>
      let r := d.loadAddress name address
      loadLoop r.1 (if r.2 then reload ++ [name] else reload) rest
    -- the assertion fails
    | .invalid => (d, none)

/-- `skynet.fork(open_channel, node_channel, name)`. -/
def fork (d : Daemon) (name : String) : Daemon :=
  { d with
    pc := Function.update d.pc d.nextCo (.forked name)
    nextCo := d.nextCo + 1 }

/-- What `loadconfig` does after its loop. -/
def loadDone (d : Daemon) (reload : List String) : Daemon :=
  reload.foldl fork (if d.nowaiting then d.wakeNamequeries else d)

/-- `loadconfig`; `false` when it raises. -/
def loadconfig (d : Daemon) (tmp : List (ConfigKey × ConfigValue)) : Daemon × Bool :=
  match d.loadLoop [] tmp with
  | (d, none) => (d, false)
  | (d, some reload) => (d.loadDone reload, true)

end Daemon

/-! ### Events -/

/-- What can happen next: a request or a reload arrives, a forked or woken coroutine is
resumed, or the launch or the call a coroutine waits for ends. -/
inductive Event
  | lookup (node : String)
  | reload (tmp : List (ConfigKey × ConfigValue))
  | run (co : ℕ)
  | launched (co : ℕ)
  | launchFailed (co : ℕ)
  | changed (co : ℕ)
  | changeFailed (co : ℕ)
  deriving DecidableEq, Repr

/-- `command.sender`: the channel of the node, through `open_channel` if there is none. -/
def Daemon.lookup (d : Daemon) (node : String) : Daemon :=
  let co := d.nextCo
  let d := { d with nextCo := d.nextCo + 1 }
  match d.nodeChannel node with
  | some c => d.finish co true (some c)
  | none => (d.setPc co .running).openChannel co node

/-- One event. -/
def step (d : Daemon) : Event → Option Daemon
  | .lookup node => some (d.lookup node)
  | .reload tmp => some (d.loadconfig tmp).1
  | .run co =>
    match d.pc co with
    | .forked key => some ((d.setPc co .running).openChannel co key)
    | .queued key ct => if d.woken co then some ((d.setPc co .running).requeue co key ct) else none
    | .naming key ct => if d.woken co then some ((d.setPc co .running).proceed co key ct) else none
    | _ => none
  | .launched co =>
    match d.pc co with
    | .launching key ct address => some (d.launched co key ct address)
    | _ => none
  | .launchFailed co =>
    match d.pc co with
    -- `skynet.newservice` is called outside of any `pcall`
    | .launching _ _ _ => some (d.setPc co .raised)
    | _ => none
  | .changed co =>
    match d.pc co with
    | .changing key ct address c => some (d.changed co key ct address c)
    | .closing key ct c => some (d.closed co key ct c)
    | _ => none
  | .changeFailed co =>
    match d.pc co with
    | .changing key ct address c => some (d.changeFailed co key ct address c)
    | .closing key ct c => some (d.closeFailed co key ct c)
    | _ => none

/-- What an event can do: every case of `step`, with what it needs of the state. -/
inductive StepCase (d : Daemon) : Event → Daemon → Prop
  | lookup (node : String) : StepCase d (.lookup node) (d.lookup node)
  | reload (tmp : List (ConfigKey × ConfigValue)) : StepCase d (.reload tmp) (d.loadconfig tmp).1
  | forked {co : ℕ} {key : String} (hpc : d.pc co = .forked key) :
      StepCase d (.run co) ((d.setPc co .running).openChannel co key)
  | queued {co : ℕ} {key : String} {ct : ℕ} (hpc : d.pc co = .queued key ct)
      (hwoken : d.woken co = true) :
      StepCase d (.run co) ((d.setPc co .running).requeue co key ct)
  | naming {co : ℕ} {key : String} {ct : ℕ} (hpc : d.pc co = .naming key ct)
      (hwoken : d.woken co = true) :
      StepCase d (.run co) ((d.setPc co .running).proceed co key ct)
  | launched {co : ℕ} {key : String} {ct : ℕ} {address : String}
      (hpc : d.pc co = .launching key ct address) :
      StepCase d (.launched co) (d.launched co key ct address)
  | launchFailed {co : ℕ} {key : String} {ct : ℕ} {address : String}
      (hpc : d.pc co = .launching key ct address) :
      StepCase d (.launchFailed co) (d.setPc co .raised)
  | changed {co : ℕ} {key : String} {ct : ℕ} {address : String} {c : ℕ}
      (hpc : d.pc co = .changing key ct address c) :
      StepCase d (.changed co) (d.changed co key ct address c)
  | closed {co : ℕ} {key : String} {ct c : ℕ} (hpc : d.pc co = .closing key ct c) :
      StepCase d (.changed co) (d.closed co key ct c)
  | changeFailed {co : ℕ} {key : String} {ct : ℕ} {address : String} {c : ℕ}
      (hpc : d.pc co = .changing key ct address c) :
      StepCase d (.changeFailed co) (d.changeFailed co key ct address c)
  | closeFailed {co : ℕ} {key : String} {ct c : ℕ} (hpc : d.pc co = .closing key ct c) :
      StepCase d (.changeFailed co) (d.closeFailed co key ct c)

theorem stepCase_of_step {d d' : Daemon} {e : Event} (h : step d e = some d') :
    StepCase d e d' := by
  cases e with
  | lookup node =>
    obtain rfl := Option.some.inj h
    exact .lookup node
  | reload tmp =>
    obtain rfl := Option.some.inj h
    exact .reload tmp
  | run co =>
    rw [step] at h
    split at h
    · obtain rfl := Option.some.inj h
      exact .forked ‹_›
    · split_ifs at h with hwoken
      obtain rfl := Option.some.inj h
      exact .queued ‹_› hwoken
    · split_ifs at h with hwoken
      obtain rfl := Option.some.inj h
      exact .naming ‹_› hwoken
    · exact nomatch h
  | launched co =>
    rw [step] at h
    split at h
    · obtain rfl := Option.some.inj h
      exact .launched ‹_›
    · exact nomatch h
  | launchFailed co =>
    rw [step] at h
    split at h
    · obtain rfl := Option.some.inj h
      exact .launchFailed ‹_›
    · exact nomatch h
  | changed co =>
    rw [step] at h
    split at h
    · obtain rfl := Option.some.inj h
      exact .changed ‹_›
    · obtain rfl := Option.some.inj h
      exact .closed ‹_›
    · exact nomatch h
  | changeFailed co =>
    rw [step] at h
    split at h
    · obtain rfl := Option.some.inj h
      exact .changeFailed ‹_›
    · obtain rfl := Option.some.inj h
      exact .closeFailed ‹_›
    · exact nomatch h

end TestCluster.BeeCluster.Clusterd
