import TestCluster.BeeCluster.LuaValue
import TestCluster.Semantics.Machine
import Mathlib.Logic.Function.Basic

/-!
# The handles of remote services

`gtables.get_service_handle` and `gtables.get_service_proxy` of `lobby.lua`. A handle that was
found is kept in a table under the name of the service, so that the next call needs no query.
The name of the node is not part of the key.

A query yields: calls that miss the table can overlap, and end in any order. The state keeps
what was answered and what was returned, which no function of the program reads.

## Main definitions

* `RemoteCall` — a call of one of the two functions
* `Handles`, `Handles.step` — the tables, the calls that wait for an answer, and what they do
* `Handles.OwnNode` — what is returned was answered for the same node
* `Handles.sameNode` — a call does not find an entry of another node

## Main results

* `Handles.ownNode_of_sameNode` — what is returned was answered for the same node, in every run
  in which no call finds an entry of another node
-/

namespace TestCluster.Lobby

open Semantics

/-- `get_service_handle`, which asks `cluster.query` for a node and a service, and
`get_service_proxy`, which asks `cluster.proxy` for `node@service`. -/
inductive Getter
  | serviceHandle
  | serviceProxy
  deriving DecidableEq, Repr

/-- A call of one of the functions. -/
structure RemoteCall where
  getter : Getter
  node : Bytes
  service : Bytes
  deriving DecidableEq, Repr

/-- The answer to a remote function: what it returned, or the error it raised. -/
structure Answer where
  call : RemoteCall
  outcome : Except LuaValue LuaValue

/-- What a call returns when this is the answer. -/
def Answer.value (a : Answer) : LuaValue :=
  match a.outcome with
  | .ok v => v
  | .error _ => .nil

/-- The answer put a handle into the table, under the service of the call `c`. -/
def RemoteCall.storedBy (c : RemoteCall) (a : Answer) : Bool :=
  a.outcome.isOk && (a.call.getter = c.getter && a.call.service = c.service)

/-- The tables `service_handle` and `service_proxy`, and the calls that wait. The histories have
the newest element in front. -/
structure Handles where
  cache : Getter → Bytes → LuaValue
  waiting : ℕ → Option RemoteCall
  answers : List Answer
  returned : List (RemoteCall × LuaValue)

/-- A function is called in a coroutine, or the remote function that it waits for ends. -/
inductive HandleEvent
  | call (co : ℕ) (c : RemoteCall)
  | answered (co : ℕ) (outcome : Except LuaValue LuaValue)

namespace Handles

/-- Both tables are empty. -/
def init : Handles where
  cache _ _ := .nil
  waiting _ := none
  answers := []
  returned := []

variable (s : Handles)

/-- `if handle then return handle end`, and else `pcall(cluster.query, node_name, service_name)`
or `pcall(cluster.proxy, name)`. -/
def get (co : ℕ) (c : RemoteCall) : Handles :=
  let handle := s.cache c.getter c.service
  if handle.truthy then
    { s with returned := (c, handle) :: s.returned }
  else
    { s with waiting := Function.update s.waiting co (some c) }

/-- What is done with the answer. -/
def receive (co : ℕ) (c : RemoteCall) (outcome : Except LuaValue LuaValue) : Handles :=
  let s := { s with
    waiting := Function.update s.waiting co none
    answers := ⟨c, outcome⟩ :: s.answers }
  match outcome with
  | .error _ => { s with returned := (c, .nil) :: s.returned }
  | .ok handle =>
    { s with
      cache := Function.update s.cache c.getter
        (Function.update (s.cache c.getter) c.service handle)
      returned := (c, handle) :: s.returned }

/-- One step of the service. -/
def step : HandleEvent → Option Handles
  | .call co c => if s.waiting co = none then some (s.get co c) else none
  | .answered co outcome => (s.waiting co).map fun c => s.receive co c outcome

/-- Whatever a call returned was the answer to one for the same node and the same service. -/
def OwnNode : Prop := ∀ r ∈ s.returned, ∃ a ∈ s.answers, a.call = r.1 ∧ a.value = r.2

/-- The newest handle of the service, if there is one, came from the node of the call. -/
def sameNode : HandleEvent → Prop
  | .call _ c => ∀ a ∈ s.answers.find? c.storedBy, a.value.truthy → a.call.node = c.node
  | .answered _ _ => True

/-! ### Where the handles of the tables come from -/

variable {s}

theorem storedBy_iff {c : RemoteCall} {a : Answer} :
    c.storedBy a ↔ a.outcome.isOk ∧ a.call.getter = c.getter ∧ a.call.service = c.service := by
  simp [RemoteCall.storedBy]

/-- What the tables hold is what was answered last, and everything that was returned was answered
for its own node. -/
structure Inv (s : Handles) : Prop where
  cached : ∀ c : RemoteCall, s.cache c.getter c.service =
    ((s.answers.find? c.storedBy).map Answer.value).getD .nil
  own : s.OwnNode

theorem inv_init : init.Inv where
  cached _ := rfl
  own := List.forall_mem_nil _

/-- A handle of a table is the value of an answer. -/
theorem Inv.exists_answer {c : RemoteCall} (h : s.Inv)
    (htruthy : (s.cache c.getter c.service).truthy) :
    ∃ a, s.answers.find? c.storedBy = some a ∧ a.value = s.cache c.getter c.service := by
  rw [h.cached] at htruthy ⊢
  cases hfind : s.answers.find? c.storedBy with
  | none =>
    rw [hfind] at htruthy
    cases htruthy
  | some a => exact ⟨a, rfl, rfl⟩

theorem Inv.get {c : RemoteCall} (h : s.Inv) (co : ℕ)
    (hnode : s.sameNode (.call co c)) : (s.get co c).Inv := by
  unfold Handles.get
  simp only
  split_ifs with htruthy
  · -- the answer that the handle came from was for this node
    obtain ⟨a, hfind, hvalue⟩ := h.exists_answer htruthy
    obtain ⟨-, hgetter, hservice⟩ := storedBy_iff.mp (List.find?_some hfind)
    have hcall : a.call = c := by
      have hsame := hnode a hfind (by rwa [hvalue])
      cases hc : a.call with
      | mk getter node service =>
        rw [hc] at hgetter hservice hsame
        exact congr (congr (congrArg RemoteCall.mk hgetter) hsame) hservice
    refine ⟨h.cached, ?_⟩
    rintro r (_ | ⟨_, hr⟩)
    · exact ⟨a, List.mem_of_find?_eq_some hfind, hcall, hvalue⟩
    · exact h.own r hr
  · exact ⟨h.cached, h.own⟩

theorem OwnNode.returns {s' : Handles} (h : s.OwnNode) {a : Answer}
    (hanswers : s'.answers = a :: s.answers)
    (hreturned : s'.returned = (a.call, a.value) :: s.returned) : s'.OwnNode := by
  intro r hr
  rw [hreturned] at hr
  rw [hanswers]
  rcases List.mem_cons.mp hr with rfl | hr
  · exact ⟨a, List.mem_cons_self, rfl, rfl⟩
  · obtain ⟨b, hb, hcall, hvalue⟩ := h r hr
    exact ⟨b, List.mem_cons_of_mem _ hb, hcall, hvalue⟩

theorem Inv.receive (h : s.Inv) (co : ℕ) (c : RemoteCall)
    (outcome : Except LuaValue LuaValue) : (s.receive co c outcome).Inv := by
  unfold Handles.receive
  cases outcome with
  | error e =>
    refine ⟨fun c' => ?_, h.own.returns rfl rfl⟩
    have hstores : c'.storedBy ⟨c, .error e⟩ = false := rfl
    simp only [List.find?_cons, hstores]
    exact h.cached c'
  | ok handle =>
    refine ⟨fun c' => ?_, h.own.returns rfl rfl⟩
    simp only [List.find?_cons]
    by_cases hstores : c'.storedBy ⟨c, .ok handle⟩
    · obtain ⟨-, hgetter, hservice⟩ := storedBy_iff.mp hstores
      rw [hstores, ← hgetter, ← hservice, Function.update_self, Function.update_self]
      rfl
    · rw [Bool.eq_false_of_not_eq_true hstores]
      have hne : c'.getter ≠ c.getter ∨ c'.service ≠ c.service := by
        by_contra hboth
        rw [not_or, not_ne_iff, not_ne_iff] at hboth
        exact hstores (storedBy_iff.mpr ⟨rfl, hboth.1.symm, hboth.2.symm⟩)
      rw [← h.cached c']
      rcases hne with hgetter | hservice
      · rw [Function.update_of_ne hgetter]
      · by_cases hgetter : c'.getter = c.getter
        · rw [hgetter, Function.update_self, Function.update_of_ne hservice]
        · rw [Function.update_of_ne hgetter]

/-- **Handles of the own node.** In a run in which no call finds a handle of another node in the
table, whatever is returned for a node and a service was answered for them. -/
theorem ownNode_of_sameNode (h : Reachable step sameNode init s) : s.OwnNode := by
  have hinv : s.Inv := by
    refine h.invariant inv_init fun s e s' hs hok hstep => ?_
    cases e with
    | call co c =>
      rw [step] at hstep
      split_ifs at hstep
      cases hstep
      exact hs.get co hok
    | answered co outcome =>
      obtain ⟨c, -, rfl⟩ := Option.map_eq_some_iff.mp hstep
      exact hs.receive co c outcome
  exact hinv.own

instance (s : Handles) (e : HandleEvent) : Decidable (s.sameNode e) :=
  match e with
  | .call _ c => inferInstanceAs (Decidable (∀ a ∈ s.answers.find? c.storedBy, _))
  | .answered _ _ => inferInstanceAs (Decidable True)

/-- A service `db` of the node `a`. -/
def dbOnA : RemoteCall := ⟨.serviceHandle, [97], [100, 98]⟩

/-- A service of the same name on the node `b`. -/
def dbOnB : RemoteCall := ⟨.serviceHandle, [98], [100, 98]⟩

/-- A service of another name on the node `b`. -/
def webOnB : RemoteCall := ⟨.serviceHandle, [98], [119, 101, 98]⟩

/-- The handles of a service on `a` and of another on `b` are asked for twice, at the same time. -/
theorem ownNode_twice : ∃ s, Reachable step sameNode init s ∧ s.OwnNode ∧
    s.returned = [(webOnB, .number 2), (dbOnA, .number 1), (dbOnA, .number 1),
      (webOnB, .number 2)] := by
  have hrun : run (fun s e => if sameNode s e then step s e else none) init
      [.call 0 dbOnA, .call 1 webOnB, .answered 1 (.ok (.number 2)), .answered 0 (.ok (.number 1)),
        .call 0 dbOnA, .call 1 webOnB] = some _ := rfl
  have hreach := Reachable.of_guarded_run hrun
  exact ⟨_, hreach, ownNode_of_sameNode hreach, rfl⟩

/-- The handle of the service on `a` is returned for the one on `b`, for which nothing was
asked. -/
theorem other_node_returned : ∃ s, Reachable step anyStep init s ∧
    s.returned = [(dbOnB, .number 1), (dbOnA, .number 1)] ∧ ¬ s.OwnNode := by
  have hrun : run step init
      [.call 0 dbOnA, .answered 0 (.ok (.number 1)), .call 0 dbOnB] = some _ := rfl
  refine ⟨_, Reachable.of_run hrun, rfl, fun h => ?_⟩
  obtain ⟨a, ha, hcall, -⟩ := h (dbOnB, .number 1) List.mem_cons_self
  obtain rfl := List.mem_singleton.mp ha
  exact absurd hcall (by decide)

end Handles

end TestCluster.Lobby
