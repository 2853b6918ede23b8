import TestCluster.ActivityMaster.Forwarding
import TestCluster.Semantics.Machine

/-!
# Requests, sub-services and replies

`activity_master` with its sub-services and the services that send to it. The master handles
any sequence of messages, and the sub-services handle what was redirected to them in any
order. Each request has a number, under which everything it comes to is recorded.

## Main definitions

* `Shards` — the requests, what is in flight, what was handled and what was sent back
* `Shards.step` — a message reaches the master, or a sub-service
* `Shards.Inv` — nothing that is redirected is lost, and every reply has its cause
* `Shards.Sharded` — where the requests go, and which of them get one reply

## Main results

* `Shards.sharded_delivery` — messages that can be read are sharded by their uid, and a `lua`
  message that goes to one sub-service gets one reply
* `Shards.not_sharded_and_answered` — a packet with a session gets none, and a call with the
  uid 0 one
  of each sub-service
-/

namespace TestCluster.ActivityMaster

open Semantics Lua

/-! ### Entries with a number -/

section Numbered

variable {α : Type}

/-- The entries that belong to the request with this number. -/
def entriesOf (n : ℕ) (l : List (ℕ × α)) : List α :=
  l.filterMap fun x => if x.1 = n then some x.2 else none

/-- Entries for the request with this number. -/
def numbered (n : ℕ) (l : List α) : List (ℕ × α) := l.map fun a => (n, a)

@[simp] theorem entriesOf_append (n : ℕ) (l l' : List (ℕ × α)) :
    entriesOf n (l ++ l') = entriesOf n l ++ entriesOf n l' :=
  List.filterMap_append

@[simp] theorem entriesOf_numbered_self (n : ℕ) (l : List α) : entriesOf n (numbered n l) = l := by
  rw [entriesOf, numbered, List.filterMap_map]
  simp

theorem entriesOf_numbered_of_ne {n n' : ℕ} (h : n' ≠ n) (l : List α) :
    entriesOf n (numbered n' l) = [] := by
  rw [entriesOf, numbered, List.filterMap_map]
  simp [h]

theorem entriesOf_cons_self (n : ℕ) (a : α) (l : List (ℕ × α)) :
    entriesOf n ((n, a) :: l) = a :: entriesOf n l := by
  simp [entriesOf]

theorem entriesOf_cons_of_ne {n : ℕ} {x : ℕ × α} (h : x.1 ≠ n) (l : List (ℕ × α)) :
    entriesOf n (x :: l) = entriesOf n l := by
  simp [entriesOf, h]

theorem entriesOf_perm (n : ℕ) {l l' : List (ℕ × α)} (h : l.Perm l') :
    (entriesOf n l).Perm (entriesOf n l') :=
  h.filterMap _

end Numbered

/-! ### The run -/

/-- A message to the master, and what `math.random` gives should the router draw. -/
structure Request where
  message : Message
  draw : ℕ
  deriving DecidableEq, Repr

/-- The requests so far, what is on its way to a sub-service, what a sub-service has handled
and how, and what was sent back. -/
structure Shards where
  requests : List Request
  inFlight : List (ℕ × Redirected)
  handled : List (ℕ × Redirected × Outcome)
  replies : List (ℕ × Reply)

/-- What happens: the master gets a message, or a sub-service gets a redirected one. -/
inductive ShardEvent
  | request (q : Request)
  | handle (n : ℕ) (r : Redirected) (outcome : Outcome)

namespace Shards

variable {M : Type} (decode : Bytes → Bytes → Option M) (subServices : List Handle)

/-- Nothing has been sent yet. -/
def init : Shards := ⟨[], [], [], []⟩

/-- What the master redirects for a request. -/
def redirects (q : Request) : List Redirected :=
  (master decode subServices q.message q.draw).toOption.getD []

/-- What the master sends back itself: whatever is raised is answered with an error. -/
def ownReplies (q : Request) : List Reply :=
  match master decode subServices q.message q.draw with
  | .ok _ => []
  | .error _ => reply q.message.source q.message.session .error

/-- The master handles a request. -/
def accept (s : Shards) (q : Request) : Shards where
  requests := s.requests ++ [q]
  inFlight := s.inFlight ++ numbered s.requests.length (redirects decode subServices q)
  handled := s.handled
  replies := s.replies ++ numbered s.requests.length (ownReplies decode subServices q)

/-- A sub-service handles what was redirected to it. -/
def finish (s : Shards) (n : ℕ) (r : Redirected) (outcome : Outcome) : Shards where
  requests := s.requests
  inFlight := s.inFlight.erase (n, r)
  handled := s.handled ++ [(n, r, outcome)]
  replies := s.replies ++ numbered n (activity decode r outcome)

/-- One step. -/
def step (s : Shards) : ShardEvent → Option Shards
  | .request q => some (s.accept decode subServices q)
  | .handle n r outcome =>
    if (n, r) ∈ s.inFlight then some (s.finish decode n r outcome) else none

/-- The sub-services that a request went to. -/
def dests (s : Shards) (n : ℕ) : List Handle := (entriesOf n s.handled).map fun x => x.1.addr

/-- The replies to a request. -/
def repliesTo (s : Shards) (n : ℕ) : List Reply := entriesOf n s.replies

/-! ### What a run keeps -/

/-- **The invariant.** What was redirected for a request has been handled or is in flight, and
its replies are those of the master and of what was handled. -/
structure Inv (s : Shards) : Prop where
  redirected : ∀ n, ((entriesOf n s.handled).map Prod.fst ++ entriesOf n s.inFlight).Perm
    (s.requests[n]?.elim [] (redirects decode subServices))
  replied : ∀ n, entriesOf n s.replies = s.requests[n]?.elim [] (ownReplies decode subServices) ++
    (entriesOf n s.handled).flatMap fun x => activity decode x.1 x.2

namespace Inv

variable {decode subServices} {s s' : Shards}

theorem init : Inv decode subServices .init := by
  constructor
  · intro n
    exact .nil
  · intro n
    rfl

/-- No request has the next number yet. -/
private theorem fresh (h : s.Inv decode subServices) :
    entriesOf s.requests.length s.handled = [] ∧ entriesOf s.requests.length s.inFlight = [] ∧
      entriesOf s.requests.length s.replies = [] := by
  have hnone : s.requests[s.requests.length]? = none := List.getElem?_eq_none le_rfl
  have hempty := h.redirected s.requests.length
  rw [hnone, Option.elim_none, List.perm_nil, List.append_eq_nil_iff, List.map_eq_nil_iff] at hempty
  refine ⟨hempty.1, hempty.2, ?_⟩
  rw [h.replied, hnone, hempty.1]
  rfl

/-- The other requests are as before. -/
private theorem getElem?_snoc_of_ne {l : List Request} {q : Request} {n : ℕ} (h : l.length ≠ n) :
    (l ++ [q])[n]? = l[n]? := by
  rcases Nat.lt_or_ge n l.length with hlt | hge
  · exact List.getElem?_append_left hlt
  · rw [List.getElem?_eq_none hge, List.getElem?_eq_none]
    rw [List.length_append, List.length_singleton]
    omega

theorem accept (h : s.Inv decode subServices) (q : Request) :
    (s.accept decode subServices q).Inv decode subServices := by
  constructor
  · intro n
    show ((entriesOf n s.handled).map Prod.fst ++ entriesOf n (s.inFlight ++ numbered _ _)).Perm
      ((s.requests ++ [q])[n]?.elim [] (redirects decode subServices))
    rw [entriesOf_append]
    -- the new request gets the next number, under which nothing is recorded yet
    by_cases hn : s.requests.length = n
    · subst hn
      obtain ⟨hhandled, hflight, -⟩ := h.fresh
      rw [hhandled, hflight, entriesOf_numbered_self, List.getElem?_concat_length]
      exact .refl _
    · rw [entriesOf_numbered_of_ne hn, List.append_nil, getElem?_snoc_of_ne hn]
      exact h.redirected n
  · intro n
    show entriesOf n (s.replies ++ numbered _ _) =
      (s.requests ++ [q])[n]?.elim [] (ownReplies decode subServices) ++ _
    rw [entriesOf_append]
    by_cases hn : s.requests.length = n
    · subst hn
      obtain ⟨hhandled, -, hreplies⟩ := h.fresh
      rw [hreplies, entriesOf_numbered_self, List.getElem?_concat_length]
      show _ = _ ++ List.flatMap _ (entriesOf s.requests.length s.handled)
      rw [hhandled, List.flatMap_nil, List.append_nil]
      rfl
    · rw [entriesOf_numbered_of_ne hn, List.append_nil, getElem?_snoc_of_ne hn]
      exact h.replied n

theorem finish (h : s.Inv decode subServices) {n : ℕ} {r : Redirected} (outcome : Outcome)
    (hmem : (n, r) ∈ s.inFlight) : (s.finish decode n r outcome).Inv decode subServices := by
  -- what is handled moves out of what is in flight
  have herase := List.perm_cons_erase hmem
  constructor
  · intro n'
    have hperm := entriesOf_perm n' herase
    apply List.Perm.trans _ (h.redirected n')
    show ((entriesOf n' (s.handled ++ [(n, r, outcome)])).map Prod.fst ++ _).Perm _
    rw [entriesOf_append, List.map_append, List.append_assoc]
    apply List.Perm.append_left
    by_cases hn : n = n'
    · subst hn
      rw [entriesOf_cons_self] at hperm ⊢
      exact hperm.symm
    · rw [entriesOf_cons_of_ne hn] at hperm ⊢
      exact hperm.symm
  · intro n'
    show entriesOf n' (s.replies ++ numbered _ _) =
      _ ++ (entriesOf n' (s.handled ++ [(n, r, outcome)])).flatMap _
    rw [entriesOf_append, entriesOf_append, List.flatMap_append, h.replied, List.append_assoc]
    by_cases hn : n = n'
    · subst hn
      rw [entriesOf_numbered_self, entriesOf_cons_self]
      simp [entriesOf, Shards.finish]
    · rw [entriesOf_numbered_of_ne hn, entriesOf_cons_of_ne hn]
      simp [entriesOf, Shards.finish]

/-- **A step keeps the invariant.** -/
theorem step (h : s.Inv decode subServices) {e : ShardEvent}
    (hs : s.step decode subServices e = some s') : s'.Inv decode subServices := by
  cases e with
  | request q =>
    obtain rfl := Option.some.inj hs
    exact h.accept q
  | handle n r outcome =>
    simp only [Shards.step] at hs
    split_ifs at hs with hmem
    obtain rfl := Option.some.inj hs
    exact h.finish outcome hmem

end Inv

/-! ### Where the requests go -/

section Rest

variable {decode subServices} {s : Shards} {n : ℕ} {q : Request}

/-- At rest, all that was redirected has been handled. -/
theorem Inv.handled_perm (h : s.Inv decode subServices) (hquiet : s.inFlight = [])
    (hq : s.requests[n]? = some q) :
    ((entriesOf n s.handled).map Prod.fst).Perm (redirects decode subServices q) := by
  have hperm := h.redirected n
  rw [hquiet, hq] at hperm
  have hnone : entriesOf n ([] : List (ℕ × Redirected)) = [] := rfl
  rwa [hnone, List.append_nil] at hperm

theorem Inv.dests_perm (h : s.Inv decode subServices) (hquiet : s.inFlight = [])
    (hq : s.requests[n]? = some q) :
    (s.dests n).Perm ((redirects decode subServices q).map Redirected.addr) := by
  have hperm := (h.handled_perm hquiet hq).map Redirected.addr
  rwa [List.map_map] at hperm

theorem Inv.repliesTo_eq (h : s.Inv decode subServices) (hq : s.requests[n]? = some q) :
    s.repliesTo n = ownReplies decode subServices q ++
      (entriesOf n s.handled).flatMap fun x => activity decode x.1 x.2 := by
  have hreplied := h.replied n
  rwa [hq] at hreplied

/-- What the master redirects for a message that can be read. -/
theorem redirects_readable (hread : q.message.content.Readable decode) {addrs : List Handle}
    (haddrs : getAddrs subServices q.message.content.uid q.draw = .ok addrs) :
    redirects decode subServices q = addrs.map fun addr =>
      ⟨addr, q.message.source, q.message.session, q.message.content.forwarded⟩ := by
  rw [redirects, master_readable decode hread, haddrs]
  rfl

theorem ownReplies_readable (hread : q.message.content.Readable decode) {addrs : List Handle}
    (haddrs : getAddrs subServices q.message.content.uid q.draw = .ok addrs) :
    ownReplies decode subServices q = [] := by
  rw [ownReplies, master_readable decode hread, haddrs]
  rfl

theorem addr_redirects (hread : q.message.content.Readable decode) {addrs : List Handle}
    (haddrs : getAddrs subServices q.message.content.uid q.draw = .ok addrs) :
    (redirects decode subServices q).map Redirected.addr = addrs := by
  rw [redirects_readable hread haddrs, List.map_map]
  exact List.map_id addrs

/-- A request that the master raises for goes nowhere. -/
theorem redirects_raised {e : Fault} (h : master decode subServices q.message q.draw = .error e) :
    redirects decode subServices q = [] := by
  rw [redirects, h]
  rfl

theorem ownReplies_raised {e : Fault} (h : master decode subServices q.message q.draw = .error e) :
    ownReplies decode subServices q = reply q.message.source q.message.session .error := by
  rw [ownReplies, h]

/-- At rest, a message that can be read is where its uid has to go. -/
theorem Inv.delivered (h : s.Inv decode subServices) (hsubs : subServices ≠ [])
    (hquiet : s.inFlight = []) (hq : s.requests[n]? = some q)
    (hread : q.message.content.Readable decode) :
    Delivered subServices q.message.content.uid (s.dests n) := by
  have hperm := h.dests_perm hquiet hq
  cases haddrs : getAddrs subServices q.message.content.uid q.draw with
  | ok addrs =>
    rw [addr_redirects hread haddrs] at hperm
    exact (getAddrs_delivered hsubs haddrs).perm hperm
  | error e =>
    apply Delivered.of_not_isUid
    intro huid
    obtain ⟨addrs, hok⟩ := getAddrs_ok hsubs huid q.draw
    exact nomatch haddrs.symm.trans hok

/-- At rest, a message with a positive uid is at the sub-service of that uid. -/
theorem Inv.dests_pos (h : s.Inv decode subServices) (hsubs : subServices ≠ [])
    (hquiet : s.inFlight = []) (hq : s.requests[n]? = some q)
    (hread : q.message.content.Readable decode) {k : ℤ}
    (huid : q.message.content.uid = .number k) (hk : 0 < k) :
    s.dests n = shard subServices k.toNat := by
  have haddrs := getAddrs_pos hsubs hk q.draw
  have hne : q.message.content.uid ≠ .number 0 := by
    rw [huid]
    intro heq
    cases heq
    omega
  have hperm := h.dests_perm hquiet hq
  rw [← huid] at haddrs
  rw [addr_redirects hread haddrs] at hperm
  obtain ⟨addr, -, hsingle⟩ := getAddrs_single hsubs hne haddrs
  rw [hsingle] at hperm ⊢
  exact List.perm_singleton.mp hperm

/-! ### What is sent back -/

/-- The request gets one reply, and it carries the session of the request. -/
def AnsweredOnce (m : Message) (replies : List Reply) : Prop :=
  ∃ type, replies = [⟨m.source, m.session, type⟩]

theorem answeredOnce_reply {m : Message} (hsession : m.session ≠ 0) (type : ReplyType) :
    AnsweredOnce m (reply m.source m.session type) := by
  rw [reply, if_pos hsession]
  exact ⟨type, rfl⟩

/-- The master answers once where it raises. -/
theorem Inv.answered_raised (h : s.Inv decode subServices) (hquiet : s.inFlight = [])
    (hq : s.requests[n]? = some q) (hsession : q.message.session ≠ 0) {e : Fault}
    (hraised : master decode subServices q.message q.draw = .error e) :
    AnsweredOnce q.message (s.repliesTo n) := by
  have hhandled := h.handled_perm hquiet hq
  rw [redirects_raised hraised, List.perm_nil, List.map_eq_nil_iff] at hhandled
  rw [h.repliesTo_eq hq, hhandled, ownReplies_raised hraised, List.flatMap_nil, List.append_nil]
  exact answeredOnce_reply hsession .error

/-- One sub-service answers a `lua` message once. -/
theorem Inv.answered_lua (h : s.Inv decode subServices) (hsubs : subServices ≠ [])
    (hquiet : s.inFlight = []) (hq : s.requests[n]? = some q) (hsession : q.message.session ≠ 0)
    {args : List LuaValue} (hlua : q.message.content = .lua args)
    (huid : q.message.content.uid ≠ .number 0) : AnsweredOnce q.message (s.repliesTo n) := by
  have hread : q.message.content.Readable decode := by
    rw [hlua]
    trivial
  -- the master raises, or redirects to the one sub-service that answers
  cases haddrs : getAddrs subServices q.message.content.uid q.draw with
  | error e =>
    apply h.answered_raised hquiet hq hsession
    rw [master_readable decode hread, haddrs]
    rfl
  | ok addrs =>
    obtain ⟨addr, -, rfl⟩ := getAddrs_single hsubs huid haddrs
    have hhandled := h.handled_perm hquiet hq
    rw [redirects_readable hread haddrs, List.map_singleton, List.perm_singleton,
      List.map_eq_singleton_iff] at hhandled
    obtain ⟨⟨r, outcome⟩, hone, hr⟩ := hhandled
    rw [h.repliesTo_eq hq, ownReplies_readable hread haddrs, hone, List.nil_append,
      List.flatMap_singleton]
    obtain rfl : r = _ := hr
    obtain ⟨type, hactivity⟩ := activity_lua decode
      (r := ⟨addr, q.message.source, q.message.session, q.message.content.forwarded⟩)
      (by rw [hlua]; rfl) outcome
    rw [hactivity]
    exact answeredOnce_reply hsession type

/-- No sub-service answers a packet that can be read. -/
theorem Inv.silent_text (h : s.Inv decode subServices) (hsubs : subServices ≠ [])
    (hquiet : s.inFlight = []) (hq : s.requests[n]? = some q) {netmsg : Option Bytes}
    (htext : q.message.content = .text netmsg) (hread : q.message.content.Readable decode) :
    s.repliesTo n = [] := by
  have huid : IsUid q.message.content.uid := by
    rw [htext]
    cases netmsg with
    | none => exact .inl rfl
    | some netmsg =>
      rw [Content.uid]
      cases unpackNumber "> L".toList netmsg 5 with
      | error => exact .inl rfl
      | ok uid => exact .inr ⟨_, rfl⟩
  obtain ⟨addrs, haddrs⟩ := getAddrs_ok hsubs huid q.draw
  rw [h.repliesTo_eq hq, ownReplies_readable hread haddrs, List.nil_append, List.flatMap_eq_nil_iff]
  intro x hx
  -- what was handled is what was redirected
  have hmem := (h.handled_perm hquiet hq).mem_iff.mp (List.mem_map_of_mem hx)
  rw [redirects_readable hread haddrs] at hmem
  obtain ⟨addr, -, hr⟩ := List.mem_map.mp hmem
  have hcontent : x.1.content = q.message.content := by
    rw [← hr, htext]
    rfl
  exact activity_text decode (hcontent.trans htext) (hcontent ▸ hread) x.2

end Rest

/-! ### Sharded delivery -/

/-- A request whose reply is settled by what it is: a `lua` message that does not go to all
sub-services, or a packet that cannot be read. -/
def Replied : Content → Prop
  | .lua args => (Content.lua args).uid ≠ .number 0
  | .text none => False
  | .text (some netmsg) => ¬ (Content.text (some netmsg)).Readable decode

/-- What holds of the requests, where the master has sub-services. -/
structure Sharded (s : Shards) : Prop where
  delivered : ∀ n q, s.requests[n]? = some q → q.message.content.Readable decode →
    Delivered subServices q.message.content.uid (s.dests n)
  sameShard : ∀ n n' q q' k, s.requests[n]? = some q → s.requests[n']? = some q' →
    q.message.content.Readable decode → q'.message.content.Readable decode →
    q.message.content.uid = .number k → q'.message.content.uid = .number k → 0 < k →
    s.dests n = s.dests n'
  refused : ∀ n q, s.requests[n]? = some q → ¬ q.message.content.Readable decode →
    s.dests n = []
  answered : ∀ n q, s.requests[n]? = some q → q.message.session ≠ 0 →
    Replied decode q.message.content → AnsweredOnce q.message (s.repliesTo n)
  silent : ∀ n q, s.requests[n]? = some q → q.message.content.isText →
    q.message.content.Readable decode → s.repliesTo n = []

/-- Every message is where its uid has to go, messages with the same positive uid are in the
same place, and every message with a session gets exactly one reply. -/
structure ShardedAndAnswered (s : Shards) : Prop where
  delivered : ∀ n q, s.requests[n]? = some q →
    Delivered subServices q.message.content.uid (s.dests n)
  sameShard : ∀ n n' q q' k, s.requests[n]? = some q → s.requests[n']? = some q' →
    q.message.content.uid = .number k → q'.message.content.uid = .number k → 0 < k →
    s.dests n = s.dests n'
  answered : ∀ n q, s.requests[n]? = some q → q.message.session ≠ 0 →
    AnsweredOnce q.message (s.repliesTo n)

section Main

variable {decode subServices} {s : Shards}

theorem Inv.refused (h : s.Inv decode subServices) (hquiet : s.inFlight = []) {n : ℕ} {q : Request}
    (hq : s.requests[n]? = some q) (hread : ¬ q.message.content.Readable decode) :
    s.dests n = [] := by
  have hredirects : redirects decode subServices q = [] := by
    rw [redirects]
    cases hcontent : q.message.content with
    | lua args => exact absurd (by rw [hcontent]; trivial) hread
    | text netmsg =>
      cases netmsg with
      | none =>
        simp only [master, hcontent]
        rfl
      | some netmsg =>
        obtain ⟨e, hraised⟩ := master_unreadable decode hcontent hread subServices q.draw
        rw [hraised]
        rfl
  have hperm := h.dests_perm hquiet hq
  rw [hredirects] at hperm
  exact List.perm_nil.mp hperm

theorem Inv.answered (h : s.Inv decode subServices) (hsubs : subServices ≠ [])
    (hquiet : s.inFlight = []) {n : ℕ} {q : Request} (hq : s.requests[n]? = some q)
    (hsession : q.message.session ≠ 0) (hreplied : Replied decode q.message.content) :
    AnsweredOnce q.message (s.repliesTo n) := by
  cases hcontent : q.message.content with
  | lua args =>
    rw [hcontent] at hreplied
    exact h.answered_lua hsubs hquiet hq hsession hcontent (hcontent ▸ hreplied)
  | text netmsg =>
    rw [hcontent] at hreplied
    cases netmsg with
    | none => exact hreplied.elim
    | some netmsg =>
      obtain ⟨e, hraised⟩ :=
        master_unreadable decode hcontent (hcontent ▸ hreplied) subServices q.draw
      exact h.answered_raised hquiet hq hsession hraised

/-- **Sharded delivery**: once the sub-services have handled what was redirected, every message
that could be read is where its uid has to go, and nothing else was delivered. -/
theorem sharded_delivery (hsubs : subServices ≠ [])
    (h : Reachable (step decode subServices) anyStep init s) (hquiet : s.inFlight = []) :
    s.Sharded decode subServices := by
  have hinv : s.Inv decode subServices := h.invariant Inv.init fun _ _ _ hinv _ hs => hinv.step hs
  constructor
  · intro n q hq hread
    exact hinv.delivered hsubs hquiet hq hread
  · intro n n' q q' k hq hq' hread hread' huid huid' hk
    rw [hinv.dests_pos hsubs hquiet hq hread huid hk,
      hinv.dests_pos hsubs hquiet hq' hread' huid' hk]
  · intro n q hq hread
    exact hinv.refused hquiet hq hread
  · intro n q hq hsession hreplied
    exact hinv.answered hsubs hquiet hq hsession hreplied
  · intro n q hq htext hread
    cases hcontent : q.message.content with
    | lua args => exact nomatch hcontent ▸ htext
    | text netmsg => exact hinv.silent_text hsubs hquiet hq hcontent hread

/-- The sub-services that `activity_master` starts. -/
def eight : List Handle := [11, 12, 13, 14, 15, 16, 17, 18]

/-- A packet for the user 5. -/
def packet : Bytes :=
  [0, 0, 0, 16, 0, 0, 0, 0, 0, 0, 0, 5, 0, 22] ++ literal "pb.TestPingActivityREQ" ++
    [0, 0, 0, 0, 8]

/-- A call for the user 5. -/
def call (uid : ℤ) : Message := ⟨100, 1, .lua [.string (literal "test_ping_activity"), .number uid]⟩

/-- What the master redirects for a call. -/
def redirectedCall (uid : ℤ) (addr : Handle) : Redirected :=
  ⟨addr, 100, 1, .lua [.string (literal "test_ping_activity"),
    .string (literal "test_ping_activity"), .number uid]⟩

/-- A call and a packet for the same user, handled in the other order. -/
def callAndPacket : List ShardEvent :=
  [.request ⟨call 5, 0⟩, .request ⟨⟨100, 0, .text (some packet)⟩, 0⟩,
    .handle 1 ⟨16, 100, 0, .text (some packet)⟩ .returned,
    .handle 0 (redirectedCall 5 16) .returned]

theorem sharded_delivery_same_user :
    ∃ s, run (step (fun _ pbstr => some pbstr) eight) init callAndPacket = some s ∧
      s.dests 0 = [16] ∧ s.dests 1 = [16] ∧ s.Sharded (fun _ pbstr => some pbstr) eight := by
  have hrun : (run (step (fun _ pbstr => some pbstr) eight) init callAndPacket).map
      (fun s => (s.inFlight.length, s.dests 0, s.dests 1)) = some (0, [16], [16]) := by
    decide +kernel
  obtain ⟨s, hs, heq⟩ := Option.map_eq_some_iff.mp hrun
  obtain ⟨hquiet, hzero, hone⟩ : s.inFlight.length = 0 ∧ s.dests 0 = [16] ∧ s.dests 1 = [16] := by
    simpa using heq
  exact ⟨s, hs, hzero, hone,
    sharded_delivery (List.cons_ne_nil _ _) (.of_run hs) (List.eq_nil_of_length_eq_zero hquiet)⟩

/-- A run that ends with no reply, or several, to a message with a session. -/
private theorem not_answered {t : List ShardEvent} {m : Message} {k : ℕ} (hk : k ≠ 1)
    (hsession : m.session ≠ 0)
    (hrun : (run (step (fun _ pbstr => some pbstr) eight) init t).map
      (fun s => (s.requests, s.inFlight.length, (s.repliesTo 0).length)) = some ([⟨m, 0⟩], 0, k)) :
    ∃ s, Reachable (step (fun _ pbstr => some pbstr) eight) anyStep init s ∧ s.inFlight = [] ∧
      (s.repliesTo 0).length = k ∧ ¬ s.ShardedAndAnswered eight := by
  obtain ⟨s, hs, heq⟩ := Option.map_eq_some_iff.mp hrun
  obtain ⟨hrequests, hquiet, hreplies⟩ := Prod.mk.injEq .. ▸ Prod.mk.injEq .. ▸ heq
  refine ⟨s, .of_run hs, List.eq_nil_of_length_eq_zero hquiet, hreplies, fun hall => ?_⟩
  -- the request would have exactly one reply
  obtain ⟨type, hone⟩ := hall.answered 0 ⟨m, 0⟩ (by rw [hrequests]; rfl) hsession
  rw [hone] at hreplies
  exact hk hreplies.symm

/-- A packet with a session gets no reply, and a call with the uid 0 one of each sub-service. -/
theorem not_sharded_and_answered :
    (∃ s, Reachable (step (fun _ pbstr => some pbstr) eight) anyStep init s ∧ s.inFlight = [] ∧
      (s.repliesTo 0).length = 0 ∧ ¬ s.ShardedAndAnswered eight) ∧
    (∃ s, Reachable (step (fun _ pbstr => some pbstr) eight) anyStep init s ∧ s.inFlight = [] ∧
      (s.repliesTo 0).length = 8 ∧ ¬ s.ShardedAndAnswered eight) := by
  constructor
  · apply not_answered (t := [.request ⟨⟨100, 1, .text (some packet)⟩, 0⟩,
      .handle 0 ⟨16, 100, 1, .text (some packet)⟩ .returned]) (m := ⟨100, 1, .text (some packet)⟩)
    · decide
    · decide
    · decide +kernel
  · apply not_answered (t := .request ⟨call 0, 0⟩ ::
      eight.map fun addr => .handle 0 (redirectedCall 0 addr) .returned) (m := call 0)
    · decide
    · decide
    · decide +kernel

end Main

end Shards

end TestCluster.ActivityMaster
