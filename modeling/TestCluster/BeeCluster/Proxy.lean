import TestCluster.BeeCluster.LuaValue
import TestCluster.Semantics.Decimal
import TestCluster.Semantics.Machine
import TestCluster.Semantics.Table
import Mathlib.Data.List.TakeWhile
import Mathlib.Logic.Function.Basic

/-!
# Proxies of remote services

`command.proxy` of `bee_clusterd.lua`. A request names a node and a service there, in two
arguments or in one. Its proxy is found in a table, or launched; the launch yields, so that two
proxies can be launched for one target, and the second one is killed. The key of the table is
the name of the node, a dot, and the name of the service, which two targets can have in common.

## Main definitions

* `ProxyTarget.fullname` — the key of a target
* `Proxies` — the table, the proxies that were launched, and the requests
* `Proxies.step` — a request, or the end of a launch
* `Proxies.OnePerTarget` — the proxies are as they should be
* `Proxies.Apart` — no two requests that were answered are for targets with one key

## Main results

* `Proxies.same_proxy_iff` — what is shared between requests is the key
* `Proxies.onePerTarget_iff` — the proxies are as they should be exactly if the keys are apart
* `Proxies.onePerTarget_of_dotless` — and so they are where no node has a dot in its name
-/

namespace TestCluster.BeeCluster

open Semantics

/-! ### Targets -/

/-- A service of a node. -/
structure ProxyTarget where
  node : Bytes
  name : Bytes
  deriving DecidableEq, Repr

/-- `'.'` -/
def dot : UInt8 := 46

/-- `'@'` -/
def atSign : UInt8 := 64

/-- The key of the target in the table: `node .. "." .. name`. -/
def ProxyTarget.fullname (t : ProxyTarget) : Bytes := t.node ++ dot :: t.name

/-- The characters in front of which a combined name is divided, `[@.]`. -/
def divides (c : UInt8) : Bool := c = atSign ∨ c = dot

/-- `node:match "^([^@.]+)([@.].+)"`. What divides the two stays with the name. -/
def matchName (s : Bytes) : Option ProxyTarget :=
  let node := s.takeWhile fun c => !divides c
  let name := s.dropWhile fun c => !divides c
  if 1 ≤ node.length ∧ 2 ≤ name.length then some ⟨node, name⟩ else none

/-- What `..` makes of a value; it raises on all but strings and numbers. -/
def concatText : LuaValue → Option Bytes
  | .string s => some s
  | .number n => some (decimal n)
  | _ => none

/-- The target of a request, `none` where the request raises. -/
def proxyTarget (node : Bytes) (name : LuaValue) : Option ProxyTarget :=
  match name with
  | .nil => matchName node
  | name => (concatText name).map fun text => ⟨node, text⟩

/-- Both forms of a request for a registered name. -/
example : proxyTarget [0x64, 0x62, 64, 0x73] .nil = proxyTarget [0x64, 0x62] (.string [64, 0x73]) :=
  rfl

/-! ### The daemon -/

/-- A service `bee_clusterproxy`: the target it was launched for, and whether it was killed. -/
structure ProxyService where
  target : ProxyTarget
  killed : Bool
  deriving DecidableEq, Repr

/-- Where a request is: in `skynet.newservice`, or at its end. -/
inductive ProxyRequest
  | launching (target : ProxyTarget)
  | answered (target : ProxyTarget) (p : ℕ)
  | raised
  deriving DecidableEq, Repr

/-- The target of a request that is one. -/
def ProxyRequest.target : ProxyRequest → Option ProxyTarget
  | launching target => some target
  | answered target _ => some target
  | raised => none

/-- The table `proxy`, the services that were launched, and the requests, both numbered in the
order in which they come. -/
structure Proxies where
  proxy : Bytes → Option ℕ
  service : ℕ → Option ProxyService
  request : ℕ → Option ProxyRequest
  nextService : ℕ
  nextRequest : ℕ

/-- A request arrives, or the launch that one waits for ends. -/
inductive ProxyEvent
  | proxy (node : Bytes) (name : LuaValue)
  | launched (co : ℕ)
  | launchFailed (co : ℕ)
  deriving DecidableEq, Repr

namespace Proxies

/-- No proxy was launched. -/
def init : Proxies where
  proxy _ := none
  service _ := none
  request _ := none
  nextService := 0
  nextRequest := 0

variable (s : Proxies)

/-- A request comes to its next stop. -/
def setRequest (co : ℕ) (r : ProxyRequest) : Proxies :=
  { s with request := Function.update s.request co (some r) }

/-- A new service. -/
def launch (service : ProxyService) : Proxies :=
  { s with
    service := Function.update s.service s.nextService (some service)
    nextService := s.nextService + 1 }

/-- `proxy[fullname] = p`. -/
def setProxy (fullname : Bytes) (p : ℕ) : Proxies :=
  { s with proxy := Function.update s.proxy fullname (some p) }

/-- `command.proxy`, up to the launch. -/
def requested (co : ℕ) (node : Bytes) (name : LuaValue) : Proxies :=
  match proxyTarget node name with
  | none => s.setRequest co .raised
  | some target =>
    match s.proxy target.fullname with
    | some p => s.setRequest co (.answered target p)
    | none => s.setRequest co (.launching target)

/-- `command.proxy` behind the launch. -/
def launched (co : ℕ) (target : ProxyTarget) : Proxies :=
  match s.proxy target.fullname with
  -- another one was recorded meanwhile
  | some p => (s.launch ⟨target, true⟩).setRequest co (.answered target p)
  | none =>
    ((s.launch ⟨target, false⟩).setProxy target.fullname s.nextService).setRequest co
      (.answered target s.nextService)

/-- One event. -/
def step (s : Proxies) : ProxyEvent → Option Proxies
  | .proxy node name =>
    some ({ s with nextRequest := s.nextRequest + 1 }.requested s.nextRequest node name)
  | .launched co =>
    match s.request co with
    | some (.launching target) => some (s.launched co target)
    | _ => none
  | .launchFailed co =>
    match s.request co with
    | some (.launching _) => some (s.setRequest co .raised)
    | _ => none

/-- What an event does, with the request that it is about. -/
inductive StepCase (s : Proxies) : ProxyEvent → Proxies → Prop
  | proxy (node : Bytes) (name : LuaValue) :
      StepCase s (.proxy node name)
        ({ s with nextRequest := s.nextRequest + 1 }.requested s.nextRequest node name)
  | launched {co : ℕ} {t : ProxyTarget} (hco : s.request co = some (.launching t)) :
      StepCase s (.launched co) (s.launched co t)
  | launchFailed {co : ℕ} {t : ProxyTarget} (hco : s.request co = some (.launching t)) :
      StepCase s (.launchFailed co) (s.setRequest co .raised)

theorem stepCase_of_step {s s' : Proxies} {e : ProxyEvent} (hs : s.step e = some s') :
    StepCase s e s' := by
  cases e with
  | proxy node name =>
    obtain rfl := Option.some.inj hs
    exact .proxy node name
  | launched co =>
    simp only [step] at hs
    split at hs
    next t hco =>
      obtain rfl := Option.some.inj hs
      exact .launched hco
    · cases hs
  | launchFailed co =>
    simp only [step] at hs
    split at hs
    next t hco =>
      obtain rfl := Option.some.inj hs
      exact .launchFailed hco
    · cases hs

/-! ### What is asked of it -/

/-- The request was answered with the proxy. -/
def Answered (co : ℕ) (target : ProxyTarget) (p : ℕ) : Prop :=
  s.request co = some (.answered target p)

/-- A request is answered with a proxy that was launched for its target, and not killed.
Requests for one target are answered with one proxy, and every other one that was launched for
the target was killed; requests for different targets are answered with different proxies. -/
structure OnePerTarget : Prop where
  own : ∀ co t p, s.Answered co t p → s.service p = some ⟨t, false⟩
  same : ∀ co co' t p p', s.Answered co t p → s.Answered co' t p' → p = p'
  killed : ∀ p service, s.service p = some service →
    service.killed = true ∨ ∀ co p', s.Answered co service.target p' → p' = p
  apart : ∀ co co' t t' p, s.Answered co t p → s.Answered co' t' p → t = t'

/-- No two requests that were answered are for targets with one key. -/
def Apart : Prop :=
  ∀ co co' t t' p p', s.Answered co t p → s.Answered co' t' p' → t.fullname = t'.fullname → t = t'

/-! ### The invariant -/

/-- A proxy in the table was launched for a target with its key, and a request for this target
was answered with it; and what requests were answered with is in the table. -/
structure Inv (s : Proxies) : Prop where
  recorded : ∀ k p, s.proxy k = some p →
    ∃ t co, t.fullname = k ∧ s.service p = some ⟨t, false⟩ ∧ s.Answered co t p
  answered : ∀ co t p, s.Answered co t p → s.proxy t.fullname = some p
  launched : ∀ p service, s.service p = some service →
    service.killed = true ∨ s.proxy service.target.fullname = some p
  freshService : ∀ p, s.nextService ≤ p → s.service p = none
  freshRequest : ∀ co, s.nextRequest ≤ co → s.request co = none

variable {s} {s' : Proxies} {co co' p p' : ℕ} {t t' : ProxyTarget}

theorem inv_init : init.Inv where
  recorded _ _ h := nomatch h
  answered _ _ _ h := nomatch h
  launched _ _ h := nomatch h
  freshService _ _ := rfl
  freshRequest _ _ := rfl

/-- The request was not answered. -/
def Open (s : Proxies) (co : ℕ) : Prop := ∀ t p, ¬ s.Answered co t p

theorem answered_setRequest_of_ne {r : ProxyRequest} (h : co' ≠ co) :
    (s.setRequest co r).Answered co' t p ↔ s.Answered co' t p := by
  change Function.update s.request co (some r) co' = _ ↔ _
  rw [Function.update_of_ne h]
  exact Iff.rfl

theorem answered_setRequest_self {r : ProxyRequest} :
    (s.setRequest co r).Answered co t p ↔ r = .answered t p := by
  change Function.update s.request co (some r) co = _ ↔ _
  rw [Function.update_self, Option.some_inj]

/-- A request that was open comes to a stop, and what was answered before stays answered. -/
theorem answered_setRequest {r : ProxyRequest} (hopen : s.Open co) (h : s.Answered co' t p) :
    (s.setRequest co r).Answered co' t p := by
  refine (answered_setRequest_of_ne ?_).mpr h
  rintro rfl
  exact hopen t p h

/-- Requests that are still to come are left. -/
theorem request_setRequest_of_le {r : ProxyRequest} (hlt : co < s.nextRequest)
    (hle : s.nextRequest ≤ co') : (s.setRequest co r).request co' = s.request co' :=
  Function.update_of_ne (hlt.trans_le hle).ne' ..

/-- An open request comes to a stop where it is not answered, or is answered from the table. -/
theorem Inv.setRequest (h : s.Inv) {r : ProxyRequest} (hopen : s.Open co)
    (hlt : co < s.nextRequest)
    (hr : ∀ t p, r = .answered t p → s.proxy t.fullname = some p) : (s.setRequest co r).Inv where
  recorded k p hp := by
    obtain ⟨t, co', hk, hservice, hanswered⟩ := h.recorded k p hp
    exact ⟨t, co', hk, hservice, answered_setRequest hopen hanswered⟩
  answered co' t p hanswered := by
    by_cases hco : co' = co
    · subst hco
      exact hr t p (answered_setRequest_self.mp hanswered)
    · exact h.answered co' t p ((answered_setRequest_of_ne hco).mp hanswered)
  launched := h.launched
  freshService := h.freshService
  freshRequest co' hle := (request_setRequest_of_le hlt hle).trans (h.freshRequest co' hle)

/-- A request arrives. -/
theorem Inv.requested (h : s.Inv) (node : Bytes) (name : LuaValue) :
    ({ s with nextRequest := s.nextRequest + 1 }.requested s.nextRequest node name).Inv := by
  have hnone : s.request s.nextRequest = none := h.freshRequest _ le_rfl
  have hcounted : ({ s with nextRequest := s.nextRequest + 1 } : Proxies).Inv :=
    ⟨h.recorded, h.answered, h.launched, h.freshService,
      fun co hle => h.freshRequest co ((Nat.le_succ _).trans hle)⟩
  have hopen : ({ s with nextRequest := s.nextRequest + 1 } : Proxies).Open s.nextRequest :=
    fun t p hanswered => nomatch hnone.symm.trans hanswered
  unfold Proxies.requested
  split
  · exact hcounted.setRequest hopen (Nat.lt_succ_self _) fun _ _ hr => nomatch hr
  next target _ =>
    split
    next p hp =>
      apply hcounted.setRequest hopen (Nat.lt_succ_self _)
      intro t p' hr
      obtain ⟨rfl, rfl⟩ := ProxyRequest.answered.inj hr
      exact hp
    · exact hcounted.setRequest hopen (Nat.lt_succ_self _) fun _ _ hr => nomatch hr

/-- A service that is new is not one that was there. -/
theorem Inv.service_ne (h : s.Inv) {service : ProxyService} (hp : s.service p = some service) :
    p ≠ s.nextService := by
  rintro rfl
  exact nomatch (h.freshService _ le_rfl).symm.trans hp

theorem service_launch_of_ne (s : Proxies) (service : ProxyService) (h : p ≠ s.nextService) :
    (s.launch service).service p = s.service p :=
  Function.update_of_ne h ..

/-- A second proxy is launched, and killed. -/
theorem Inv.launch_killed (h : s.Inv) (t : ProxyTarget) : (s.launch ⟨t, true⟩).Inv where
  recorded k p hp := by
    obtain ⟨t', co, hk, hservice, hanswered⟩ := h.recorded k p hp
    refine ⟨t', co, hk, ?_, hanswered⟩
    rw [service_launch_of_ne s _ (h.service_ne hservice), hservice]
  answered := h.answered
  launched p service hservice := by
    rcases update_cases hservice with ⟨-, hnew⟩ | ⟨-, hold⟩
    · obtain rfl := Option.some.inj hnew
      exact Or.inl rfl
    · exact h.launched p service hold
  freshService p hle := by
    have hle' : s.nextService + 1 ≤ p := hle
    rw [service_launch_of_ne s _ (by omega)]
    exact h.freshService p (by omega)
  freshRequest := h.freshRequest

/-- A key that has a proxy is not one that has none. -/
theorem ne_of_free {k k' : Bytes} (hfree : s.proxy k' = none) (hp : s.proxy k = some p) :
    k ≠ k' := by
  rintro rfl
  exact nomatch hfree.symm.trans hp

/-- The first proxy with its key is launched and recorded, and the request that launched it is
answered with it. -/
theorem Inv.launch_recorded (h : s.Inv) (hfree : s.proxy t.fullname = none) (hopen : s.Open co)
    (hlt : co < s.nextRequest) :
    (((s.launch ⟨t, false⟩).setProxy t.fullname s.nextService).setRequest co
      (.answered t s.nextService)).Inv where
  recorded k p hp := by
    rcases update_cases hp with ⟨rfl, hnew⟩ | ⟨-, hp⟩
    · obtain rfl := Option.some.inj hnew
      exact ⟨t, co, rfl, Function.update_self .., answered_setRequest_self.mpr rfl⟩
    · obtain ⟨t', co', hk', hservice, hanswered⟩ := h.recorded k p hp
      refine ⟨t', co', hk', ?_, answered_setRequest hopen hanswered⟩
      exact (service_launch_of_ne s _ (h.service_ne hservice)).trans hservice
  answered co' t' p hanswered := by
    change Function.update s.proxy t.fullname (some s.nextService) t'.fullname = some p
    by_cases hco : co' = co
    · subst hco
      obtain ⟨rfl, rfl⟩ := ProxyRequest.answered.inj (answered_setRequest_self.mp hanswered)
      rw [Function.update_self]
    · -- what was answered before has another key
      have hold := h.answered co' t' p ((answered_setRequest_of_ne hco).mp hanswered)
      rw [Function.update_of_ne (ne_of_free hfree hold), hold]
  launched p service hservice := by
    rcases update_cases hservice with ⟨rfl, hnew⟩ | ⟨-, hservice⟩
    · obtain rfl := Option.some.inj hnew
      exact Or.inr (Function.update_self ..)
    · refine (h.launched p service hservice).imp_right fun hold => ?_
      change Function.update s.proxy t.fullname (some s.nextService) _ = some p
      rw [Function.update_of_ne (ne_of_free hfree hold), hold]
  freshService p hle := by
    have hle' : s.nextService + 1 ≤ p := hle
    change (s.launch ⟨t, false⟩).service p = none
    rw [service_launch_of_ne s _ (by omega)]
    exact h.freshService p (by omega)
  freshRequest co' hle := (request_setRequest_of_le hlt hle).trans (h.freshRequest co' hle)

/-- A request that waits for a launch is open. -/
theorem Inv.of_launching (h : s.Inv) (hco : s.request co = some (.launching t)) :
    s.Open co ∧ co < s.nextRequest := by
  refine ⟨fun t' p hanswered => ?_, ?_⟩
  · exact nomatch hco.symm.trans hanswered
  · by_contra hle
    exact nomatch (h.freshRequest co (Nat.le_of_not_lt hle)).symm.trans hco

/-- **Every event keeps the invariant.** -/
theorem Inv.step (h : s.Inv) {e : ProxyEvent} (hs : s.step e = some s') : s'.Inv := by
  cases stepCase_of_step hs with
  | proxy node name => exact h.requested node name
  | @launched co t hco =>
    obtain ⟨hopen, hlt⟩ := h.of_launching hco
    unfold Proxies.launched
    split
    next p hp =>
      apply (h.launch_killed t).setRequest hopen hlt
      intro t' p' hr
      obtain ⟨rfl, rfl⟩ := ProxyRequest.answered.inj hr
      exact hp
    next hfree => exact h.launch_recorded hfree hopen hlt
  | launchFailed hco =>
    obtain ⟨hopen, hlt⟩ := h.of_launching hco
    exact h.setRequest hopen hlt fun _ _ hr => nomatch hr

theorem inv_of_reachable {ok : Proxies → ProxyEvent → Prop} (h : Reachable step ok init s) :
    s.Inv :=
  h.invariant inv_init fun _ _ _ hinv _ hs => hinv.step hs

/-! ### One proxy for each target -/

/-- **What requests share with their proxies is the key.** -/
theorem Inv.same_proxy_iff (h : s.Inv) (hco : s.Answered co t p) (hco' : s.Answered co' t' p') :
    p = p' ↔ t.fullname = t'.fullname := by
  have hp := h.answered co t p hco
  have hp' := h.answered co' t' p' hco'
  constructor
  · rintro rfl
    obtain ⟨t₁, _, hkey, hservice, -⟩ := h.recorded _ _ hp
    obtain ⟨t₂, _, hkey', hservice', -⟩ := h.recorded _ _ hp'
    obtain ⟨rfl, -⟩ := ProxyService.mk.inj (Option.some.inj (hservice.symm.trans hservice'))
    exact hkey.symm.trans hkey'
  · intro heq
    rw [heq] at hp
    exact Option.some.inj (hp.symm.trans hp')

/-- A service that was not killed is the one that its target is answered with. -/
theorem Inv.killed_or (h : s.Inv) {service : ProxyService} (hp : s.service p = some service) :
    service.killed = true ∨ ∀ co p', s.Answered co service.target p' → p' = p := by
  refine (h.launched p service hp).imp_right fun hproxy co p' hco => ?_
  exact Option.some.inj ((h.answered co _ p' hco).symm.trans hproxy)

/-- **The proxies are as they should be in exactly the states in which no two requests that were
answered are for different targets with one key**, in every run. -/
theorem onePerTarget_iff (h : Reachable step anyStep init s) : s.OnePerTarget ↔ s.Apart := by
  have hinv := inv_of_reachable h
  constructor
  · intro hone co co' t t' p p' hco hco' hkey
    obtain rfl := (hinv.same_proxy_iff hco hco').mpr hkey
    exact hone.apart co co' t t' p hco hco'
  · intro hapart
    refine ⟨?_, ?_, fun p service => hinv.killed_or, ?_⟩
    · intro co t p hco
      obtain ⟨t', co', hkey, hservice, hanswered⟩ :=
        hinv.recorded _ _ (hinv.answered co t p hco)
      obtain rfl := hapart co' co t' t p p hanswered hco hkey
      exact hservice
    · intro co co' t p p' hco hco'
      exact (hinv.same_proxy_iff hco hco').mpr rfl
    · intro co co' t t' p hco hco'
      exact hapart co co' t t' p p hco hco' ((hinv.same_proxy_iff hco hco').mp rfl)

/-- Two requests for one target, in both forms, launch two proxies; a third one finds the one
that is left. -/
def threeRequests : List ProxyEvent :=
  [.proxy [0x64, 64, 0x73] .nil, .proxy [0x64] (.string [64, 0x73]), .launched 1, .launched 0,
    .proxy [0x64] (.string [64, 0x73])]

theorem onePerTarget_iff_three :
    ∃ s, run step init threeRequests = some s ∧ s.Answered 0 ⟨[0x64], [64, 0x73]⟩ 0 ∧
      s.Answered 2 ⟨[0x64], [64, 0x73]⟩ 0 ∧ (s.OnePerTarget ↔ s.Apart) := by
  have hrun : run step init threeRequests = some _ := rfl
  exact ⟨_, hrun, rfl, rfl, onePerTarget_iff (.of_run hrun)⟩

/-- The service `b.c` of the node `a` gets the proxy of the service `c` of the node `a.b`. -/
theorem dotted_node_shares :
    ∃ s, run step init [.proxy [0x61, 46, 0x62] (.string [0x63]), .launched 0,
        .proxy [0x61] (.string [0x62, 46, 0x63])] = some s ∧
      s.Answered 0 ⟨[0x61, 46, 0x62], [0x63]⟩ 0 ∧ s.Answered 1 ⟨[0x61], [0x62, 46, 0x63]⟩ 0 ∧
      ¬ s.OnePerTarget := by
  refine ⟨_, rfl, rfl, rfl, fun hone => ?_⟩
  have heq := hone.apart 0 1 ⟨[0x61, 46, 0x62], [0x63]⟩ ⟨[0x61], [0x62, 46, 0x63]⟩ 0 rfl rfl
  exact absurd heq (by decide)

/-! ### Nodes without a dot -/

/-- The node of a request has no dot in its name. A combined name is divided in front of the
first one. -/
def dotless (_ : Proxies) : ProxyEvent → Prop
  | .proxy node name => name = .nil ∨ dot ∉ node
  | _ => True

theorem matchName_dotless {s : Bytes} (h : matchName s = some t) : dot ∉ t.node := by
  obtain ⟨-, h⟩ := Option.ite_none_right_eq_some.mp h
  obtain rfl := Option.some.inj h
  intro hmem
  exact absurd (List.mem_takeWhile_imp hmem) (by decide)

theorem proxyTarget_dotless {node : Bytes} {name : LuaValue} (h : proxyTarget node name = some t)
    (hnode : name = .nil ∨ dot ∉ node) : dot ∉ t.node := by
  unfold proxyTarget at h
  split at h
  · exact matchName_dotless h
  next hnil =>
    obtain ⟨text, -, rfl⟩ := Option.map_eq_some_iff.mp h
    exact hnode.resolve_left hnil

/-- Targets whose nodes have no dot have different keys. -/
theorem fullname_inj (h : dot ∉ t.node) (h' : dot ∉ t'.node) (heq : t.fullname = t'.fullname) :
    t = t' := by
  obtain ⟨node, name⟩ := t
  obtain ⟨node', name'⟩ := t'
  -- the first dot is behind the node, in both
  rcases List.append_eq_append_iff.mp heq with ⟨rest, hnode, hname⟩ | ⟨rest, hnode, hname⟩
  · cases rest with
    | nil =>
      obtain rfl : node' = node := hnode.trans (List.append_nil node)
      exact congrArg (ProxyTarget.mk node') (List.cons.inj hname).2
    | cons c rest =>
      obtain ⟨rfl, -⟩ := List.cons.inj hname
      exact absurd (hnode ▸ List.mem_append_right _ List.mem_cons_self) h'
  · cases rest with
    | nil =>
      obtain rfl : node = node' := hnode.trans (List.append_nil node')
      exact congrArg (ProxyTarget.mk node) (List.cons.inj hname).2.symm
    | cons c rest =>
      obtain ⟨rfl, -⟩ := List.cons.inj hname
      exact absurd (hnode ▸ List.mem_append_right _ List.mem_cons_self) h

/-- The nodes of the requests have no dot. -/
def Dotless (s : Proxies) : Prop :=
  ∀ co r t, s.request co = some r → r.target = some t → dot ∉ t.node

theorem Dotless.setRequest (h : s.Dotless) {r : ProxyRequest}
    (hr : ∀ t, r.target = some t → dot ∉ t.node) : (s.setRequest co r).Dotless := by
  intro co' r' t hco' ht
  rcases update_cases hco' with ⟨-, hnew⟩ | ⟨-, hold⟩
  · obtain rfl := Option.some.inj hnew
    exact hr t ht
  · exact h co' r' t hold ht

theorem Dotless.step (h : s.Dotless) {e : ProxyEvent} (he : dotless s e)
    (hs : s.step e = some s') : s'.Dotless := by
  cases stepCase_of_step hs with
  | proxy node name =>
    have hcounted : ({ s with nextRequest := s.nextRequest + 1 } : Proxies).Dotless := h
    unfold Proxies.requested
    split
    · exact hcounted.setRequest fun _ ht => nomatch ht
    next target htarget =>
      have hnode := proxyTarget_dotless htarget he
      split
      · exact hcounted.setRequest fun t ht => Option.some.inj ht ▸ hnode
      · exact hcounted.setRequest fun t ht => Option.some.inj ht ▸ hnode
  | @launched co t hco =>
    have hnode := h co _ t hco rfl
    unfold Proxies.launched
    split
    · have hlaunch : (s.launch ⟨t, true⟩).Dotless := h
      exact hlaunch.setRequest fun t' ht => Option.some.inj ht ▸ hnode
    · have hlaunch : ((s.launch ⟨t, false⟩).setProxy t.fullname s.nextService).Dotless := h
      exact hlaunch.setRequest fun t' ht => Option.some.inj ht ▸ hnode
  | launchFailed hco => exact h.setRequest fun _ ht => nomatch ht

/-- In a run in which no node of a request has a dot in its name, the proxies are as they should
be. -/
theorem onePerTarget_of_dotless (h : Reachable step dotless init s) : s.OnePerTarget := by
  have hdotless : s.Dotless := by
    apply h.invariant
    · intro co r t hco
      exact nomatch hco
    · intro s e s' hs he hstep
      exact hs.step he hstep
  apply (onePerTarget_iff (h.mono fun _ _ _ => trivial)).mpr
  intro co co' t t' p p' hco hco' hkey
  exact fullname_inj (hdotless co _ t hco rfl) (hdotless co' _ t' hco' rfl) hkey

end Proxies

end TestCluster.BeeCluster
