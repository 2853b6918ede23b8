import TestCluster.BeeCluster.Opening
import TestCluster.BeeCluster.Reload

/-!
# Senders at rest

When nobody opens a channel for a node, the tables agree with its configuration: a node
that is down has no channel, and a node with a channel had its sender connected to the
address it is configured at. A sender that could not be turned off is left as it is.

## Main definitions

* `Daemon.Agrees` — what the tables say of one node
* `Daemon.Pending` — a node that is down is turned off, or is going to be
* `Daemon.Consistent` — both, for one node, and what the coroutines rely on while they wait

## Main results

* `Consistent.step` — every event that is admitted for the node keeps `Consistent`, whatever
  happens to the other nodes
* `tables_at_rest` — the tables of a node that nobody is opening
-/

namespace TestCluster.BeeCluster.Clusterd

open Semantics

/-! ### Senders -/

@[simp] theorem Sender.changenode_node (s : Sender) (change : Change) (succ : Bool) :
    (s.changenode change succ).node = s.node := rfl

theorem Sender.lastChange_changenode_true (s : Sender) (change : Change) :
    (s.changenode change true).lastChange = some change := rfl

theorem Sender.lastChange_changenode_false (s : Sender) (change : Change) :
    (s.changenode change false).lastChange = s.lastChange := rfl

theorem Pc.node_of_owned {pc : Pc} {key : String} {ct : ℕ} (h : pc.owned = some (key, ct)) :
    pc.node = some key := by
  cases pc <;> simp_all [Pc.owned, Pc.node]

namespace Daemon

variable {d d' : Daemon} {nodes : String → Prop} {co : ℕ} {key n : String} {ct c : ℕ}

/-! ### One node -/

/-- The sender recorded for the node is closed, or was told to close and failed. -/
def TurnedOff (d : Daemon) (n : String) : Prop :=
  ∀ c, d.nodeSender n = some c →
    ∃ s, d.sender c = some s ∧ (s.closed = true ∨ s.calls.head? = some (.off, false))

/-- What the tables say of a node: its channel is its sender, connected to its address; a
sender marked as closed is closed. -/
structure Agrees (d : Daemon) (n : String) : Prop where
  channel : ∀ c, d.nodeChannel n = some c →
    d.nodeSender n = some c ∧ ∃ address s, d.nodeAddress n = some (.at address) ∧
      d.sender c = some s ∧ s.lastChange = some (.to (hostPort address))
  closed : d.nodeSenderClosed n = true →
    ∃ c s, d.nodeSender n = some c ∧ d.sender c = some s ∧ s.closed = true

/-- A node that is down is turned off, or is being opened or scheduled to be. Its entry
has an owner, unless the launch of its first sender failed. -/
structure Pending (d : Daemon) (n : String) : Prop where
  down : d.nodeAddress n = some .down →
    d.TurnedOff n ∨ d.connecting n ≠ none ∨ ∃ co, d.pc co = .forked n
  owned : ∀ ct, d.connecting n = some ct →
    d.nodeSender n = none ∨ ∃ co, (d.pc co).owned = some (n, ct)

/-- What a coroutine relies on while it waits. -/
def Fits (d : Daemon) (nodes : String → Prop) : Pc → Prop
  | .launching key _ _ => d.nodeSender key = none
  | .changing key _ _ c => d.nodeSender key = some c
  | .closing key _ c => d.nodeSender key = some c ∧ (nodes key → d.nodeChannel key = none)
  | _ => True

/-- The tables of some nodes agree; what is pending for the node `but` is left open. The senders
of all nodes are recorded for the nodes they were launched for. -/
structure ConsistentBut (d : Daemon) (nodes : String → Prop) (but : Option String) : Prop where
  recorded : ∀ k c, d.nodeSender k = some c → ∃ s, d.sender c = some s ∧ s.node = k
  agrees : ∀ k, nodes k → d.Agrees k
  fits : ∀ co, d.Fits nodes (d.pc co)
  fresh : ∀ c, d.nextSender ≤ c → d.sender c = none
  pending : ∀ k, nodes k → but ≠ some k → d.Pending k

/-- The tables of some nodes agree with what every coroutine waits for. -/
def Consistent (d : Daemon) (nodes : String → Prop) : Prop := d.ConsistentBut nodes none

/-! ### What does not concern a node -/

/-- The tables of the node, and its sender, are as they were. -/
structure SameNode (d d' : Daemon) (n : String) : Prop where
  nodeAddress : d'.nodeAddress n = d.nodeAddress n
  nodeSender : d'.nodeSender n = d.nodeSender n
  nodeSenderClosed : d'.nodeSenderClosed n = d.nodeSenderClosed n
  nodeChannel : d'.nodeChannel n = d.nodeChannel n
  sender : ∀ c, d.nodeSender n = some c → d'.sender c = d.sender c

namespace SameNode

theorem symm (h : SameNode d d' n) : SameNode d' d n where
  nodeAddress := h.nodeAddress.symm
  nodeSender := h.nodeSender.symm
  nodeSenderClosed := h.nodeSenderClosed.symm
  nodeChannel := h.nodeChannel.symm
  sender c hc := (h.sender c (h.nodeSender.symm.trans hc)).symm

theorem recorded (h : SameNode d d' n)
    (hd : ∀ c, d.nodeSender n = some c → ∃ s, d.sender c = some s ∧ s.node = n) {c : ℕ}
    (hc : d'.nodeSender n = some c) : ∃ s, d'.sender c = some s ∧ s.node = n := by
  rw [h.nodeSender] at hc
  rw [h.sender c hc]
  exact hd c hc

theorem agrees (h : SameNode d d' n) (hd : d.Agrees n) : d'.Agrees n where
  channel c hc := by
    rw [h.nodeChannel] at hc
    obtain ⟨hsender, hlast⟩ := hd.channel c hc
    rw [h.nodeSender, h.nodeAddress, h.sender c hsender]
    exact ⟨hsender, hlast⟩
  closed hclosed := by
    rw [h.nodeSenderClosed] at hclosed
    obtain ⟨c, s, hc, hs, hsclosed⟩ := hd.closed hclosed
    exact ⟨c, s, h.nodeSender.trans hc, (h.sender c hc).trans hs, hsclosed⟩

theorem turnedOff (h : SameNode d d' n) (hd : d.TurnedOff n) : d'.TurnedOff n := by
  intro c hc
  rw [h.nodeSender] at hc
  rw [h.sender c hc]
  exact hd c hc

end SameNode

theorem Quiet.sameNode (h : Quiet co d d') (n : String) : SameNode d d' n where
  nodeAddress := congrFun h.nodeAddress n
  nodeSender := congrFun h.nodeSender n
  nodeSenderClosed := congrFun h.nodeSenderClosed n
  nodeChannel := congrFun h.nodeChannel n
  sender _ _ := by rw [h.sender]

theorem Fits.of_same {pc : Pc} (h : d.Fits nodes pc)
    (hsame : ∀ k ct, pc.owned = some (k, ct) → SameNode d d' k) : d'.Fits nodes pc := by
  cases pc with
  | launching key ct address => exact (hsame key ct rfl).nodeSender.trans h
  | changing key ct address c => exact (hsame key ct rfl).nodeSender.trans h
  | closing key ct c =>
    have hkey := hsame key ct rfl
    exact ⟨hkey.nodeSender.trans h.1, fun hnode => hkey.nodeChannel.trans (h.2 hnode)⟩
  | _ => trivial

/-- What is pending for a node stays pending while its tables and its entry stay, and the
coroutines it is left to. -/
theorem Pending.of_same (h : d.Pending n) (hsame : SameNode d d' n)
    (hconnecting : d'.connecting n = d.connecting n)
    (hforked : ∀ co, d.pc co = .forked n → d'.pc co = .forked n)
    (howned : ∀ co ct, (d.pc co).owned = some (n, ct) → (d'.pc co).owned = some (n, ct)) :
    d'.Pending n where
  down hdown := by
    rw [hsame.nodeAddress] at hdown
    rw [hconnecting]
    exact (h.down hdown).imp hsame.turnedOff fun hopen => hopen.imp id fun ⟨co, hco⟩ =>
      ⟨co, hforked co hco⟩
  owned ct hct := by
    rw [hconnecting] at hct
    rw [hsame.nodeSender]
    exact (h.owned ct hct).imp id fun ⟨co, hco⟩ => ⟨co, howned co ct hco⟩

/-! ### Where `open_channel` comes to a stop -/

theorem Settled.connecting_of_ne (h : Settled d d' co key ct) (hne : n ≠ key) :
    d'.connecting n = d.connecting n := by
  rcases h with hnone | ⟨_, hsome⟩
  · rw [hnone, Function.update_of_ne hne]
  · rw [hsome, Function.update_of_ne hne]

theorem Settled.owner {ct' : ℕ} (h : Settled d d' co key ct) (hct : d'.connecting key = some ct') :
    (d'.pc co).owned = some (key, ct') := by
  rcases h with hnone | ⟨howned, hsome⟩
  · rw [hnone, Function.update_self] at hct
    exact nomatch hct
  · rw [hsome, Function.update_self] at hct
    obtain rfl := Option.some.inj hct
    exact howned

/-- The coroutine stops where it fits; the node, if it is down, is turned off or still being
opened. -/
def Stops (d d' : Daemon) (nodes : String → Prop) (co : ℕ) (key : String) : Prop :=
  d.Fits nodes (d'.pc co) ∧
    (nodes key → d.nodeAddress key = some .down → d.TurnedOff key ∨ d'.connecting key ≠ none)

/-- To stop after steps that touch no table is to stop. -/
theorem Stops.of_quiet {d₁ : Daemon} (hquiet : Quiet co d d₁) (h : Stops d₁ d' nodes co key) :
    Stops d d' nodes co key := by
  have hsame : ∀ k, SameNode d₁ d k := fun k => (hquiet.sameNode k).symm
  refine ⟨h.1.of_same fun k _ _ => hsame k, fun hnode hdown => ?_⟩
  rw [← hquiet.nodeAddress] at hdown
  exact (h.2 hnode hdown).imp (hsame key).turnedOff id

theorem stops_finish (succ : Bool) (c : Option ℕ)
    (h : nodes key → d.nodeAddress key = some .down → d.TurnedOff key) :
    Stops d (d.finish co succ c) nodes co key := by
  refine ⟨?_, fun hnode hdown => .inl (h hnode hdown)⟩
  rw [Daemon.finish, setPc_pc_self]
  cases succ <;> trivial

theorem stops_setPc {pc : Pc} (hct : d.connecting key = some ct) (hfits : d.Fits nodes pc) :
    Stops d (d.setPc co pc) nodes co key := by
  refine ⟨?_, fun _ _ => .inr ?_⟩
  · rwa [setPc_pc_self]
  · rw [setPc_connecting, hct]
    exact Option.some_ne_none ct

theorem stops_proceed (h : nodes key → d.Agrees key) (hct : d.connecting key = some ct) :
    Stops d (d.proceed co key ct) nodes co key := by
  have hrelease := Quiet.release co d key ct
  -- the coroutine leaves its entry without a call
  have hend : ∀ succ c, (nodes key → d.nodeAddress key = some .down → d.TurnedOff key) →
      Stops d ((d.release key ct).finish co succ c) nodes co key := by
    intro succ c hoff
    refine Stops.of_quiet hrelease (stops_finish succ c fun hnode hdown => ?_)
    rw [hrelease.nodeAddress] at hdown
    exact (hrelease.sameNode key).turnedOff (hoff hnode hdown)
  unfold Daemon.proceed
  cases haddress : d.nodeAddress key with
  | none =>
    refine hend _ _ fun _ hdown => ?_
    cases haddress.symm.trans hdown
  | some address =>
    cases address with
    | «at» address =>
      cases hsender : d.nodeSender key with
      | none => exact stops_setPc hct hsender
      | some c => exact stops_setPc hct hsender
    | down =>
      cases hsender : d.nodeSender key with
      | none =>
        refine hend _ _ fun _ _ c hc => ?_
        cases hsender.symm.trans hc
      | some c =>
        simp only
        split_ifs with hclosed
        · -- the mark says that this sender is closed
          refine hend _ _ fun hnode _ c' hc' => ?_
          obtain ⟨c₁, s, hc₁, hs, hsclosed⟩ := (h hnode).closed hclosed
          obtain rfl := Option.some.inj (hc₁.symm.trans hc')
          exact ⟨s, hs, .inl hsclosed⟩
        · -- a sender is told to close: its node is down, so that it has no channel
          refine stops_setPc hct ⟨hsender, fun hnode => ?_⟩
          rw [Option.eq_none_iff_forall_ne_some]
          intro c' hchannel
          obtain ⟨_, address, _, hat, _⟩ := (h hnode).channel c' hchannel
          cases haddress.symm.trans hat

theorem stops_openChannel (h : nodes key → d.Agrees key) :
    Stops d (d.openChannel co key) nodes co key := by
  -- it waits in an entry that is there, or owns a new one
  cases hct : d.connecting key with
  | some ct =>
    rw [openChannel_of_some hct]
    refine ⟨?_, fun _ _ => .inr ?_⟩
    · rw [waitOn_pc, Function.update_self]
      trivial
    · exact hct ▸ Option.some_ne_none ct
  | none =>
    have henter := Quiet.enter co d key
    have hcurrent : (d.enter key).connecting key = some d.nextEntry := Function.update_self ..
    rw [openChannel_of_none hct]
    split_ifs with habsent
    · refine ⟨?_, fun _ hdown => ?_⟩
      · rw [awaitAddress_pc, Function.update_self]
        trivial
      · cases habsent.1.symm.trans hdown
    · refine .of_quiet henter (stops_proceed (fun hnode => ?_) hcurrent)
      exact (henter.sameNode key).agrees (h hnode)

theorem stops_leave (h : nodes key → d.Agrees key) (address : NodeAddress) (succ : Bool)
    (c : Option ℕ) (hoff : nodes key → address = .down → d.TurnedOff key) :
    Stops d (d.leave co key ct address succ c) nodes co key := by
  have hrelease := Quiet.release co d key ct
  rw [leave_eq]
  -- the address changed meanwhile, or the coroutine returns
  split_ifs with hchanged
  · exact .of_quiet hrelease (stops_openChannel fun hnode => (hrelease.sameNode key).agrees (h hnode))
  · refine .of_quiet hrelease (stops_finish succ c fun hnode hdown => ?_)
    rw [hrelease.nodeAddress] at hdown
    have hsame := (not_not.mp hchanged).symm.trans hdown
    exact (hrelease.sameNode key).turnedOff (hoff hnode (Option.some.inj hsame))

/-! ### Coroutines that run -/

namespace ConsistentBut

theorem pend (h : d.ConsistentBut nodes (some key)) (hkey : nodes key → d.Pending key) :
    d.Consistent nodes where
  recorded := h.recorded
  agrees := h.agrees
  fits := h.fits
  fresh := h.fresh
  pending k hnode _ := by
    by_cases hk : k = key
    · exact hk ▸ hkey (hk ▸ hnode)
    · exact h.pending k hnode fun heq => hk (Option.some.inj heq).symm

/-- A coroutine stops where it fits. It was left nothing, but perhaps for the node `but`,
whose entry alone it may touch. -/
theorem quiet {but : Option String} (h : d.ConsistentBut nodes but) (hquiet : Quiet co d d')
    (hforked : ∀ k, but ≠ some k → d.pc co ≠ .forked k)
    (howned : ∀ k ct, but ≠ some k → (d.pc co).owned ≠ some (k, ct))
    (hfits : d.Fits nodes (d'.pc co))
    (hconnecting : ∀ k, but ≠ some k → d'.connecting k = d.connecting k) :
    d'.ConsistentBut nodes but where
  recorded k _ := (hquiet.sameNode k).recorded (h.recorded k)
  agrees k hnode := (hquiet.sameNode k).agrees (h.agrees k hnode)
  fits co' := by
    refine Fits.of_same ?_ fun k _ _ => hquiet.sameNode k
    by_cases hco : co' = co
    · exact hco ▸ hfits
    · rw [hquiet.pc co' hco]
      exact h.fits co'
  fresh := by
    rw [hquiet.nextSender, hquiet.sender]
    exact h.fresh
  pending k hnode hk := by
    refine (h.pending k hnode hk).of_same (hquiet.sameNode k) (hconnecting k hk) ?_ ?_
    · intro co' hco'
      -- who was scheduled or owned an entry is another coroutine
      have hne : co' ≠ co := by rintro rfl; exact hforked k hk hco'
      rw [hquiet.pc co' hne, hco']
    · intro co' ct hco'
      have hne : co' ≠ co := by rintro rfl; exact howned k ct hk hco'
      rw [hquiet.pc co' hne, hco']

/-- The tables of the node are changed, while nobody owns its entry: it may become one of those
that are spoken for. -/
theorem update {nodes' : String → Prop} (h : d.ConsistentBut nodes (some key))
    (hnodes : ∀ k, k ≠ key → nodes' k → nodes k) (hsame : ∀ k, k ≠ key → SameNode d d' k)
    (hpc : d'.pc = d.pc) (hconnecting : d'.connecting = d.connecting)
    (hfree : ∀ co ct, (d.pc co).owned ≠ some (key, ct))
    (hrecorded : ∀ c, d'.nodeSender key = some c → ∃ s, d'.sender c = some s ∧ s.node = key)
    (hagrees : nodes' key → d'.Agrees key)
    (hfresh : ∀ c, d'.nextSender ≤ c → d'.sender c = none) :
    d'.ConsistentBut nodes' (some key) where
  recorded k := by
    by_cases hk : k = key
    · exact hk ▸ hrecorded
    · exact fun _ => (hsame k hk).recorded (h.recorded k)
  agrees k hnode := by
    by_cases hk : k = key
    · exact hk ▸ hagrees (hk ▸ hnode)
    · exact (hsame k hk).agrees (h.agrees k (hnodes k hk hnode))
  fits co := by
    have hne : ∀ k ct, (d.pc co).owned = some (k, ct) → k ≠ key := by
      rintro k ct howned rfl
      exact hfree co ct howned
    rw [hpc]
    have hfits := (h.fits co).of_same fun k ct howned => hsame k (hne k ct howned)
    cases hco : d.pc co with
    | closing k ct c =>
      rw [hco] at hfits
      exact ⟨hfits.1, fun hnode => hfits.2 (hnodes k (hne k ct (by rw [hco]; rfl)) hnode)⟩
    | _ => rw [hco] at hfits; exact hfits
  fresh := hfresh
  pending k hnode hk := by
    have hne : k ≠ key := fun heq => hk (heq ▸ rfl)
    refine (h.pending k (hnodes k hne hnode) hk).of_same (hsame k hne) (congrFun hconnecting k)
      (fun co hco => ?_) fun co ct hco => ?_
    · rw [hpc, hco]
    · rw [hpc, hco]

/-- A running coroutine comes to own the entry of the node, or leaves it without one. -/
theorem settled (h : d.ConsistentBut nodes (some key)) (hquiet : Quiet co d d')
    (hrun : d.pc co = .running) (hsettled : Settled d d' co key ct)
    (hstops : Stops d d' nodes co key) : d'.Consistent nodes := by
  -- what was pending for the node is pending with this coroutine now
  refine (h.quiet hquiet (by simp [hrun]) (by simp [hrun, Pc.owned]) hstops.1 fun k hk =>
    hsettled.connecting_of_ne fun heq => hk (heq ▸ rfl)).pend fun hnode =>
      ⟨fun hdown => ?_, fun ct' hct' => .inr ⟨co, hsettled.owner hct'⟩⟩
  rw [hquiet.nodeAddress] at hdown
  exact (hstops.2 hnode hdown).imp (hquiet.sameNode key).turnedOff .inl

theorem proceed (h : d.ConsistentBut nodes (some key)) (hrun : d.pc co = .running)
    (hct : d.connecting key = some ct) : (d.proceed co key ct).Consistent nodes :=
  h.settled (.proceed ..) hrun (.proceed hct) (stops_proceed (h.agrees key) hct)

theorem leave (h : d.ConsistentBut nodes (some key)) (hrun : d.pc co = .running) (ct : ℕ)
    (address : NodeAddress) (succ : Bool) (c : Option ℕ)
    (hoff : nodes key → address = .down → d.TurnedOff key) :
    (d.leave co key ct address succ c).Consistent nodes :=
  h.settled (.leave ..) hrun (.leave ..) (stops_leave (h.agrees key) address succ c hoff)

/-- `open_channel` from its first line, where the entry of the node has an owner. -/
theorem openChannel (h : d.ConsistentBut nodes (some key)) (hrun : d.pc co = .running)
    (howned : nodes key → ∀ ct, d.connecting key = some ct →
      d.nodeSender key = none ∨ ∃ co, (d.pc co).owned = some (key, ct)) :
    (d.openChannel co key).Consistent nodes := by
  have hquiet := Quiet.openChannel co d key
  have hstops : Stops d (d.openChannel co key) nodes co key := stops_openChannel (h.agrees key)
  cases hct : d.connecting key with
  | none => exact h.settled hquiet hrun (.openChannel hct) hstops
  | some ct =>
    have hsame : (d.openChannel co key).connecting = d.connecting := by
      rw [openChannel_of_some hct]
      rfl
    refine (h.quiet hquiet (by simp [hrun]) (by simp [hrun, Pc.owned]) hstops.1
      fun k _ => congrFun hsame k).pend fun hnode => ⟨fun _ => ?_, ?_⟩
    · rw [hsame, hct]
      exact .inr (.inl (Option.some_ne_none ct))
    · intro ct' hct'
      rw [hsame] at hct'
      rw [hquiet.nodeSender]
      refine (howned hnode ct' hct').imp id ?_
      rintro ⟨co', hco'⟩
      have hne : co' ≠ co := by
        rintro rfl
        rw [hrun] at hco'
        cases hco'
      exact ⟨co', by rw [hquiet.pc co' hne, hco']⟩

end ConsistentBut

/-! ### Events -/

/-- The reload does not raise after it has changed the address of the node under its sender. -/
def Returns (d : Daemon) (n : String) (tmp : List (ConfigKey × ConfigValue)) : Prop :=
  (d.loadconfig tmp).2 = true ∨ (d.loadconfig tmp).1.nodeAddress n = d.nodeAddress n ∨
    d.nodeSender n = none

namespace Consistent

theorem weaken (h : d.Consistent nodes) (key : String) : d.ConsistentBut nodes (some key) :=
  { h with pending := fun k hnode _ => h.pending k hnode (Option.some_ne_none k).symm }

/-- A coroutine that opens, or is scheduled to open, no other node comes to run. -/
theorem run (h : d.Consistent nodes) (hforked : ∀ k, d.pc co = .forked k → k = key)
    (howned : ∀ k ct, (d.pc co).owned = some (k, ct) → k = key) :
    (d.setPc co .running).ConsistentBut nodes (some key) := by
  refine (h.weaken key).quiet (.setPc co d _) ?_ ?_ ?_ fun _ _ => rfl
  · exact fun k hk hpc => hk (hforked k hpc ▸ rfl)
  · exact fun k ct hk hpc => hk (howned k ct hpc ▸ rfl)
  · rw [setPc_pc_self]
    trivial

/-- A coroutine that owns nothing runs `open_channel` from its first line. -/
theorem runOpen (h : d.Consistent nodes) (hforked : ∀ k, d.pc co = .forked k → k = key)
    (hnone : (d.pc co).owned = none) :
    ((d.setPc co .running).openChannel co key).Consistent nodes := by
  have hrun := h.run hforked (by simp [hnone])
  refine hrun.openChannel (Function.update_self ..) fun hnode ct hct => ?_
  refine ((h.pending key hnode (Option.some_ne_none key).symm).owned ct hct).imp id ?_
  rintro ⟨co', hco'⟩
  have hne : co' ≠ co := by
    rintro rfl
    cases hnone.symm.trans hco'
  exact ⟨co', by rw [setPc_pc, Function.update_of_ne hne, hco']⟩

/-- A coroutine that was left nothing moves. -/
theorem quiet (h : d.Consistent nodes) (hquiet : Quiet co d d')
    (hforked : ∀ k, d.pc co ≠ .forked k) (hnone : (d.pc co).owned = none)
    (hfits : d.Fits nodes (d'.pc co)) (hconnecting : d'.connecting = d.connecting) :
    d'.Consistent nodes :=
  ConsistentBut.quiet h hquiet (fun k _ => hforked k) (by simp [hnone]) hfits
    fun k _ => congrFun hconnecting k

theorem count (h : d.Consistent nodes) (hidle : d.pc d.nextCo = .idle) :
    ({ d with nextCo := d.nextCo + 1 } : Daemon).Consistent nodes :=
  h.quiet (.count d.nextCo d) (by simp [hidle]) (by simp [hidle, Pc.owned]) (h.fits d.nextCo) rfl

theorem lookup (h : d.Consistent nodes) (hown : d.Owning) (node : String) :
    (d.lookup node).Consistent nodes := by
  have hidle := hown.idle d.nextCo le_rfl
  have hcount := h.count hidle
  cases hchannel : d.nodeChannel node with
  | some c =>
    rw [lookup_of_some hchannel]
    refine hcount.quiet (.finish ..) (by simp [hidle]) (by simp [hidle, Pc.owned]) ?_ rfl
    rw [Daemon.finish, setPc_pc_self]
    trivial
  | none =>
    rw [lookup_of_none hchannel]
    exact hcount.runOpen (by simp [hidle]) (by simp [hidle, Pc.owned])

theorem requeue (h : d.Consistent nodes) (hpc : d.pc co = .queued key ct) :
    ((d.setPc co .running).requeue co key ct).Consistent nodes := by
  have hquiet := (Quiet.setPc co d .running).trans (.requeue co _ key ct)
  refine h.quiet hquiet (by simp [hpc]) (by simp [hpc, Pc.owned]) ?_ ?_
  · unfold Daemon.requeue
    split
    · rw [waitOn_pc, Function.update_self]
      trivial
    · split <;> rw [Daemon.finish, setPc_pc_self] <;> trivial
  · unfold Daemon.requeue
    split
    · rfl
    · split <;> rfl

/-- What the coroutines rely on is the same after a reload, which forgets channels and records
none. -/
theorem fits_reloaded (h : d.Consistent nodes) (hreload : Reloaded d d')
    (hchannel : ∀ k, nodes k → ∀ c, d'.nodeChannel k = some c → d.nodeChannel k = some c) (co : ℕ) :
    d'.Fits nodes (d'.pc co) := by
  -- a coroutine is where it was, or is a new one that was forked
  rcases hreload.forked co with heq | ⟨_, name, hname⟩
  · have hfits := h.fits co
    rw [heq]
    cases hpc : d.pc co with
    | launching key ct address =>
      rw [hpc] at hfits
      exact (congrFun hreload.nodeSender key).trans hfits
    | changing key ct address c =>
      rw [hpc] at hfits
      exact (congrFun hreload.nodeSender key).trans hfits
    | closing key ct c =>
      rw [hpc] at hfits
      refine ⟨(congrFun hreload.nodeSender key).trans hfits.1, fun hnode => ?_⟩
      rw [Option.eq_none_iff_forall_ne_some]
      intro c' hc'
      cases (hfits.2 hnode).symm.trans (hchannel key hnode c' hc')
    | _ => trivial
  · rw [hname]
    trivial

/-- A node that is down after a reload has been turned off, or a coroutine is going to. -/
theorem down_reloaded (h : d.Consistent nodes) (hnode : nodes n) (hown : d.Owning)
    (hreload : Reloaded d d')
    (hscheduled : d'.nodeAddress n ≠ d.nodeAddress n → (d.nodeSender n).isSome →
      ∃ co, d'.pc co = .forked n)
    (hdown : d'.nodeAddress n = some .down) :
    d'.TurnedOff n ∨ d'.connecting n ≠ none ∨ ∃ co, d'.pc co = .forked n := by
  by_cases hchanged : d'.nodeAddress n = d.nodeAddress n
  · -- it was down before
    rw [hchanged] at hdown
    rw [hreload.connecting]
    refine ((h.pending n hnode (Option.some_ne_none n).symm).down hdown).imp (fun hoff c hc => ?_)
      (fun hopen => ?_)
    · rw [hreload.sender]
      exact hoff c (by rw [← hreload.nodeSender, hc])
    · refine hopen.imp id ?_
      rintro ⟨co, hco⟩
      exact ⟨co, by rw [hreload.pc co (hown.lt_nextCo (by simp [hco])), hco]⟩
  · cases hsender : d.nodeSender n with
    | none =>
      refine .inl fun c hc => ?_
      rw [hreload.nodeSender, hsender] at hc
      cases hc
    | some c => exact .inr (.inr (hscheduled hchanged (by rw [hsender]; rfl)))

/-- The owner of an entry is the same after a reload. -/
theorem owned_reloaded (h : d.Consistent nodes) (hnode : nodes n) (hown : d.Owning)
    (hreload : Reloaded d d') (hct : d'.connecting n = some ct) :
    d'.nodeSender n = none ∨ ∃ co, (d'.pc co).owned = some (n, ct) := by
  rw [hreload.connecting] at hct
  rw [hreload.nodeSender]
  refine ((h.pending n hnode (Option.some_ne_none n).symm).owned ct hct).imp id ?_
  rintro ⟨co, hco⟩
  exact ⟨co, by rw [hreload.pc co (hown.lt_of_owned hco), hco]⟩

/-- A reload that returns has a reopening scheduled for every sender that is not told yet. -/
theorem reload (h : d.Consistent nodes) (hown : d.Owning) {tmp : List (ConfigKey × ConfigValue)}
    (hok : ∀ k, nodes k → d.Returns k tmp) : (d.loadconfig tmp).1.Consistent nodes := by
  have hreload := Reloaded.loadconfig d tmp
  -- a channel that is kept belongs to a node whose address is as it was
  have hchannel : ∀ k, nodes k → ∀ c, (d.loadconfig tmp).1.nodeChannel k = some c →
      d.nodeChannel k = some c ∧ (d.loadconfig tmp).1.nodeAddress k = d.nodeAddress k := by
    refine fun k hnode c => loadconfig_nodeChannel fun c hc => ?_
    rw [((h.agrees k hnode).channel c hc).1]
    rfl
  have hscheduled : ∀ k, nodes k → (d.loadconfig tmp).1.nodeAddress k ≠ d.nodeAddress k →
      (d.nodeSender k).isSome → ∃ co, (d.loadconfig tmp).1.pc co = .forked k := by
    intro k hnode hchanged hsender
    rcases hok k hnode with hreturns | hsame | hnone
    · obtain ⟨co, -, hco⟩ := loadconfig_scheduled hreturns hchanged hsender
      exact ⟨co, hco⟩
    · exact absurd hsame hchanged
    · rw [hnone] at hsender
      cases hsender
  generalize (d.loadconfig tmp).1 = d' at *
  constructor
  case recorded =>
    rw [hreload.nodeSender, hreload.sender]
    exact h.recorded
  case agrees =>
    refine fun k hnode => ⟨fun c hc => ?_, ?_⟩
    · obtain ⟨hc, haddress⟩ := hchannel k hnode c hc
      rw [hreload.nodeSender, hreload.sender, haddress]
      exact (h.agrees k hnode).channel c hc
    · rw [hreload.nodeSender, hreload.sender, hreload.nodeSenderClosed]
      exact (h.agrees k hnode).closed
  case fits =>
    exact fun co => h.fits_reloaded hreload (fun k hnode c hc => (hchannel k hnode c hc).1) co
  case fresh =>
    rw [hreload.nextSender, hreload.sender]
    exact h.fresh
  case pending =>
    exact fun k hnode _ => ⟨h.down_reloaded hnode hown hreload (hscheduled k hnode),
      fun ct hct => h.owned_reloaded hnode hown hreload hct⟩

/-- The owner of an entry comes to run. -/
theorem runOwner (h : d.Consistent nodes) (hown : d.Owning)
    (howned : (d.pc co).owned = some (key, ct)) :
    (d.setPc co .running).ConsistentBut nodes (some key) ∧
      ∀ co' ct', ((d.setPc co .running).pc co').owned ≠ some (key, ct') := by
  refine ⟨h.run (fun k hk => ?_) fun k ct' hk => ?_, fun co' ct' => ?_⟩
  · rw [hk] at howned
    exact nomatch howned
  · exact (Prod.mk.inj (Option.some.inj (hk.symm.trans howned))).1
  · by_cases hco : co' = co
    · rw [hco, setPc_pc_self]
      exact nofun
    · exact hown.ownedOnlyBy_setPc howned .running co' ct' hco

/-- The launch of a node's first sender failed: its entry is left behind. -/
theorem launchFailed (h : d.Consistent nodes) (hown : d.Owning) {address : String}
    (hpc : d.pc co = .launching key ct address) : (d.setPc co .raised).Consistent nodes := by
  have hnone : d.nodeSender key = none := by
    have hfits := h.fits co
    rwa [hpc] at hfits
  obtain ⟨hrun, hfree⟩ := h.runOwner hown (congrArg Pc.owned hpc)
  have heq : d.setPc co .raised = (d.setPc co .running).setPc co .raised := by
    simp only [setPc, Function.update_idem]
  rw [heq]
  refine (hrun.quiet (.setPc co _ .raised) ?_ ?_ ?_ fun _ _ => rfl).pend fun _ => ⟨fun _ => .inl ?_, ?_⟩
  · simp
  · simp [Pc.owned]
  · rw [setPc_pc_self]
    trivial
  · intro c hc
    cases hnone.symm.trans hc
  · exact fun _ _ => .inl hnone

/-- A sender was launched; the coroutine goes on to call it. -/
theorem launched (h : d.Consistent nodes) (hown : d.Owning) {address : String}
    (hpc : d.pc co = .launching key ct address) :
    (d.launched co key ct address).Consistent nodes := by
  have hnone : d.nodeSender key = none := by
    have hfits := h.fits co
    rwa [hpc] at hfits
  have howned : (d.pc co).owned = some (key, ct) := congrArg Pc.owned hpc
  obtain ⟨hrun, hfree⟩ := h.runOwner hown howned
  let d₁ : Daemon := { (d.setPc co .running).launchSender ⟨key, false, [], false⟩ with
    nodeSender := Function.update d.nodeSender key (some d.nextSender) }
  have heq : d.launched co key ct address =
      d₁.setPc co (.changing key ct address d.nextSender) := by
    simp only [Daemon.launched, hnone, d₁, setPc, launchSender, Function.update_idem]
  have hmid : d₁.ConsistentBut nodes (some key) := by
    refine hrun.update (fun _ _ hnode => hnode) (fun k hk => ?_) rfl rfl hfree (fun c hc => ?_) ?_ fun c hc => ?_
    · refine ⟨rfl, Function.update_of_ne hk .., rfl, rfl, fun c hc => Function.update_of_ne ?_ ..⟩
      -- a sender that is recorded is not the one to be launched
      rintro rfl
      obtain ⟨s, hs, _⟩ := h.recorded k _ hc
      cases (h.fresh _ le_rfl).symm.trans hs
    · obtain rfl : d.nextSender = c := by simpa [d₁] using hc
      exact ⟨_, Function.update_self .., rfl⟩
    · -- the node had no sender, so it has neither a channel nor a mark
      refine fun hnode => ⟨fun c hc => ?_, fun hclosed => ?_⟩
      · cases hnone.symm.trans ((h.agrees key hnode).channel c hc).1
      · obtain ⟨c, _, hc, _⟩ := (h.agrees key hnode).closed hclosed
        cases hnone.symm.trans hc
    · have hlt : d.nextSender < c := hc
      exact (Function.update_of_ne (Nat.ne_of_gt hlt) ..).trans (h.fresh c hlt.le)
  rw [heq]
  have hct : d₁.connecting key = some ct := hown.current co key ct howned
  refine hmid.settled (.setPc ..) (Function.update_self ..) (.of_owned hct rfl) ?_
  exact stops_setPc hct (Function.update_self ..)

end Consistent

/-! ### Calls of a sender -/

theorem called_sender {s : Sender} (hs : d.sender c = some s) (change : Change) (succ : Bool) :
    (d.called c change succ).sender c = some (s.changenode change succ) := by
  have hself : (d.called c change succ).sender c =
      (d.sender c).map fun s => s.changenode change succ := Function.update_self ..
  rw [hself, hs]
  rfl

/-- A sender that is called belongs to the node that is being changed. -/
theorem Consistent.sender_changing (h : d.Consistent nodes) {address : String}
    (hpc : d.pc co = .changing key ct address c) :
    d.nodeSender key = some c ∧ ∃ s, d.sender c = some s ∧ s.node = key := by
  have hsender := h.fits co
  rw [hpc] at hsender
  exact ⟨hsender, h.recorded key c hsender⟩

/-- A sender that is turned off belongs to a node without a channel. -/
theorem Consistent.sender_closing (h : d.Consistent nodes)
    (hpc : d.pc co = .closing key ct c) :
    d.nodeSender key = some c ∧ (nodes key → d.nodeChannel key = none) ∧
      ∃ s, d.sender c = some s ∧ s.node = key := by
  have hfits := h.fits co
  rw [hpc] at hfits
  exact ⟨hfits.1, hfits.2, h.recorded key c hfits.1⟩

/-- The sender of a node that is marked as closed is closed. -/
theorem Agrees.sender_closed (h : d.Agrees n) {s : Sender} (hsender : d.nodeSender n = some c)
    (hs : d.sender c = some s) (hmark : d.nodeSenderClosed n = true) : s.closed = true := by
  obtain ⟨c', s', hsender', hs', hclosed⟩ := h.closed hmark
  obtain rfl := Option.some.inj (hsender.symm.trans hsender')
  obtain rfl := Option.some.inj (hs.symm.trans hs')
  exact hclosed

/-- The sender of the node was called, and nothing else than the tables of the node
changed. -/
theorem ConsistentBut.called {nodes' : String → Prop} (h : d.ConsistentBut nodes (some key))
    (hnodes : ∀ k, k ≠ key → nodes' k → nodes k)
    (hfree : ∀ co ct, (d.pc co).owned ≠ some (key, ct)) (hsender : d.nodeSender key = some c)
    {change : Change} {succ : Bool} (hcalled : d'.sender = (d.called c change succ).sender)
    (hpc : d'.pc = d.pc) (hconnecting : d'.connecting = d.connecting)
    (hnext : d'.nextSender = d.nextSender) (haddress : d'.nodeAddress = d.nodeAddress)
    (hnodeSender : d'.nodeSender = d.nodeSender)
    (hclosed : ∀ k, k ≠ key → d'.nodeSenderClosed k = d.nodeSenderClosed k)
    (hchannel : ∀ k, k ≠ key → d'.nodeChannel k = d.nodeChannel k)
    (hagrees : nodes' key → d'.Agrees key) : d'.ConsistentBut nodes' (some key) := by
  obtain ⟨s, hs, hnode⟩ := h.recorded key c hsender
  refine h.update hnodes (fun k hk => ?_) hpc hconnecting hfree (fun c' hc' => ?_) hagrees
    fun c' hc' => ?_
  · refine ⟨congrFun haddress k, congrFun hnodeSender k, hclosed k hk, hchannel k hk, ?_⟩
    intro c' hc'
    rw [hcalled]
    refine Function.update_of_ne ?_ ..
    -- the senders of two nodes are two senders
    rintro rfl
    obtain ⟨s', hs', hnode'⟩ := h.recorded k c' hc'
    obtain rfl := Option.some.inj (hs.symm.trans hs')
    exact hk (hnode'.symm.trans hnode)
  · rw [hnodeSender] at hc'
    obtain rfl := Option.some.inj (hsender.symm.trans hc')
    exact ⟨s.changenode change succ, hcalled ▸ called_sender hs change succ, hnode⟩
  · rw [hnext] at hc'
    rw [hcalled]
    by_cases hc : c' = c
    · subst hc
      simp [Daemon.called, h.fresh c' hc']
    · exact (Function.update_of_ne hc ..).trans (h.fresh c' hc')

namespace Consistent

/-- The sender of a node was connected. The node is spoken for from now on, if it still has the
address. -/
theorem changed {nodes' : String → Prop} (h : d.Consistent nodes) (hown : d.Owning)
    (hnodes : ∀ k, k ≠ key → nodes' k → nodes k) {address : String}
    (hpc : d.pc co = .changing key ct address c)
    (haddress : nodes' key → d.nodeAddress key = some (.at address)) :
    (d.changed co key ct address c).Consistent nodes' := by
  obtain ⟨hrun, hfree⟩ := h.runOwner hown (congrArg Pc.owned hpc)
  obtain ⟨hsender, s, hs, hnode⟩ := h.sender_changing hpc
  let d₁ := (d.setPc co .running).called c (.to (hostPort address)) true
  have hs₁ : d₁.sender c = some (s.changenode (.to (hostPort address)) true) :=
    called_sender (d := d.setPc co .running) hs _ true
  -- the channel is recorded, and is that of the last call that succeeded
  have hmid : ({ d₁ with
      nodeChannel := Function.update d₁.nodeChannel key (some c)
      entry := Function.update d₁.entry ct { d₁.entry ct with channel := some c }
      nodeSenderClosed := Function.update d₁.nodeSenderClosed key false } :
        Daemon).ConsistentBut nodes' (some key) := by
    refine hrun.called hnodes hfree hsender rfl rfl rfl rfl rfl rfl
      (fun k hk => Function.update_of_ne hk ..) (fun k hk => Function.update_of_ne hk ..)
      fun hkey => ⟨fun c' hc' => ?_, fun hclosed => ?_⟩
    · obtain rfl : c = c' := by simpa using hc'
      exact ⟨hsender, address, _, haddress hkey, hs₁, Sender.lastChange_changenode_true s _⟩
    · simp at hclosed
  refine hmid.leave (Function.update_self ..) ct (.at address) true (some c) fun _ heq => ?_
  cases heq

theorem changeFailed (h : d.Consistent nodes) (hown : d.Owning) {address : String}
    (hpc : d.pc co = .changing key ct address c)
    (hclosed : nodes key → hostPort address = none ∨ d.nodeSenderClosed key = false) :
    (d.changeFailed co key ct address c).Consistent nodes := by
  obtain ⟨hrun, hfree⟩ := h.runOwner hown (congrArg Pc.owned hpc)
  obtain ⟨hsender, s, hs, hnode⟩ := h.sender_changing hpc
  have hs₁ := called_sender (d := d.setPc co .running) hs (.to (hostPort address)) false
  have hmid : ((d.setPc co .running).called c (.to (hostPort address)) false).ConsistentBut nodes
      (some key) := by
    refine hrun.called (fun _ _ hk => hk) hfree hsender rfl rfl rfl rfl rfl rfl (fun _ _ => rfl)
      (fun _ _ => rfl) fun hkey => ⟨fun c' hc' => ?_, fun hmark => ?_⟩
    · -- a failed call is not the last one that succeeded
      obtain ⟨hsender', address', s', hat, hs', hlast⟩ := (h.agrees key hkey).channel c' hc'
      obtain rfl := Option.some.inj (hsender.symm.trans hsender')
      obtain rfl := Option.some.inj (hs.symm.trans hs')
      exact ⟨hsender, address', _, hat, hs₁, (Sender.lastChange_changenode_false s _).trans hlast⟩
    · -- a mark is there only if the call was a `changenode(false)`
      rcases hclosed hkey with hnone | hclosed
      · have hsclosed := (h.agrees key hkey).sender_closed hsender hs hmark
        exact ⟨c, _, hsender, hs₁, by simp [Sender.changenode, hnone, hsclosed]⟩
      · cases hclosed.symm.trans hmark
  refine hmid.leave (Function.update_self ..) ct (.at address) false (some c) fun _ heq => ?_
  cases heq

theorem closed (h : d.Consistent nodes) (hown : d.Owning) (hpc : d.pc co = .closing key ct c) :
    (d.closed co key ct c).Consistent nodes := by
  obtain ⟨hrun, hfree⟩ := h.runOwner hown (congrArg Pc.owned hpc)
  obtain ⟨hsender, hchannel, s, hs, hnode⟩ := h.sender_closing hpc
  let d₁ := (d.setPc co .running).called c .off true
  have hs₁ : d₁.sender c = some (s.changenode .off true) :=
    called_sender (d := d.setPc co .running) hs .off true
  have hclosed : (s.changenode .off true).closed = true := Bool.or_true _
  -- the sender is closed, and the node marked as closed
  have hmid : ({ d₁ with nodeSenderClosed := Function.update d₁.nodeSenderClosed key true } :
      Daemon).ConsistentBut nodes (some key) := by
    refine hrun.called (fun _ _ hk => hk) hfree hsender rfl rfl rfl rfl rfl rfl
      (fun k hk => Function.update_of_ne hk ..) (fun _ _ => rfl)
      fun hkey => ⟨fun c' hc' => ?_, fun _ => ⟨c, _, hsender, hs₁, hclosed⟩⟩
    cases (hchannel hkey).symm.trans hc'
  refine hmid.leave (Function.update_self ..) ct .down true (some c) fun _ _ c' hc' => ?_
  obtain rfl := Option.some.inj (hsender.symm.trans hc')
  exact ⟨_, hs₁, .inl hclosed⟩

theorem closeFailed (h : d.Consistent nodes) (hown : d.Owning)
    (hpc : d.pc co = .closing key ct c) : (d.closeFailed co key ct c).Consistent nodes := by
  obtain ⟨hrun, hfree⟩ := h.runOwner hown (congrArg Pc.owned hpc)
  obtain ⟨hsender, hchannel, s, hs, hnode⟩ := h.sender_closing hpc
  have hs₁ := called_sender (d := d.setPc co .running) hs .off false
  -- the tables are as they were, and the call has failed
  have hmid : ((d.setPc co .running).called c .off false).ConsistentBut nodes (some key) := by
    refine hrun.called (fun _ _ hk => hk) hfree hsender rfl rfl rfl rfl rfl rfl (fun _ _ => rfl)
      (fun _ _ => rfl) fun hkey => ⟨fun c' hc' => ?_, fun hmark => ?_⟩
    · cases (hchannel hkey).symm.trans hc'
    · have hsclosed := (h.agrees key hkey).sender_closed hsender hs hmark
      exact ⟨c, _, hsender, hs₁, by simp [Sender.changenode, hsclosed]⟩
  refine hmid.leave (Function.update_self ..) ct .down false (some c) fun _ _ c' hc' => ?_
  obtain rfl := Option.some.inj (hsender.symm.trans hc')
  exact ⟨_, hs₁, .inr rfl⟩

end Consistent

/-! ### Runs -/

/-- The sender of the node, if it is being called, was called with the address the node still
has. -/
def AddressKept (d : Daemon) (n : String) : Pc → Prop
  | .changing key _ address _ => key = n → d.nodeAddress n = some (.at address)
  | _ => True

/-- The sender of the node, if it is being called with a host and port, is not marked as closed. -/
def Unmarked (d : Daemon) (n : String) : Pc → Prop
  | .changing key _ address _ => key = n → hostPort address = none ∨ d.nodeSenderClosed n = false
  | _ => True

/-- The steps of a run that is spoken for, as far as the node `n` is concerned: no reload raises
after it has changed the address of `n` under its sender; a call of its sender that succeeds was
made with the address it still has, and no call with a host and port fails while it is marked as
closed. -/
def admitted (n : String) (d : Daemon) : Event → Prop
  | .reload tmp => d.Returns n tmp
  | .changed co => d.AddressKept n (d.pc co)
  | .changeFailed co => d.Unmarked n (d.pc co)
  | _ => True

instance (d : Daemon) (n : String) (pc : Pc) : Decidable (d.AddressKept n pc) :=
  match pc with
  | .changing key _ address _ =>
    inferInstanceAs (Decidable (key = n → d.nodeAddress n = some (.at address)))
  | .idle | .forked _ | .running | .queued _ _ | .naming _ _ | .launching _ _ _ | .closing _ _ _
  | .returned _ | .raised => .isTrue trivial

instance (d : Daemon) (n : String) (pc : Pc) : Decidable (d.Unmarked n pc) :=
  match pc with
  | .changing key _ address _ =>
    inferInstanceAs (Decidable (key = n → hostPort address = none ∨ d.nodeSenderClosed n = false))
  | .idle | .forked _ | .running | .queued _ _ | .naming _ _ | .launching _ _ _ | .closing _ _ _
  | .returned _ | .raised => .isTrue trivial

instance (n : String) (d : Daemon) (e : Event) : Decidable (admitted n d e) :=
  match e with
  | .reload tmp => inferInstanceAs (Decidable ((d.loadconfig tmp).2 = true ∨
      (d.loadconfig tmp).1.nodeAddress n = d.nodeAddress n ∨ d.nodeSender n = none))
  | .changed co => inferInstanceAs (Decidable (d.AddressKept n (d.pc co)))
  | .changeFailed co => inferInstanceAs (Decidable (d.Unmarked n (d.pc co)))
  | .lookup _ | .run _ | .launched _ | .launchFailed _ => .isTrue trivial

/-- Every event that is admitted for the nodes keeps `Consistent`. -/
theorem Consistent.step (h : d.Consistent nodes) (hown : d.Owning) {e : Event}
    (hok : ∀ k, nodes k → admitted k d e) (hs : step d e = some d') : d'.Consistent nodes := by
  cases stepCase_of_step hs with
  | lookup node => exact h.lookup hown node
  | reload tmp => exact h.reload hown hok
  | forked hpc =>
    refine h.runOpen (fun k hk => ?_) (congrArg Pc.owned hpc)
    exact (Pc.forked.inj (hpc.symm.trans hk)).symm
  | queued hpc => exact h.requeue hpc
  | naming hpc =>
    have howned := congrArg Pc.owned hpc
    exact (h.runOwner hown howned).1.proceed (Function.update_self ..)
      (hown.current _ _ _ howned)
  | launched hpc => exact h.launched hown hpc
  | launchFailed hpc => exact h.launchFailed hown hpc
  | changed hpc =>
    simp only [admitted, hpc] at hok
    exact h.changed hown (fun _ _ hk => hk) hpc fun hkey => hok _ hkey rfl
  | closed hpc => exact h.closed hown hpc
  | changeFailed hpc =>
    simp only [admitted, hpc] at hok
    exact h.changeFailed hown hpc fun hkey => hok _ hkey rfl
  | closeFailed hpc => exact h.closeFailed hown hpc

theorem consistent_init (nodes : String → Prop) : init.Consistent nodes where
  recorded _ _ h := by cases h
  agrees _ _ := ⟨fun _ h => (by cases h), fun h => (by cases h)⟩
  fits _ := trivial
  fresh _ _ := rfl
  pending _ _ _ := ⟨fun h => (by cases h), fun _ h => (by cases h)⟩

/-- From here on the node is spoken for: nothing has happened yet; or, in a run of any steps, its
sender has just been connected to the address that the node has. -/
inductive Connects (n : String) : Daemon → Prop
  | init : Connects n init
  | changed {d : Daemon} {co ct c : ℕ} {address : String} (h : Reachable step anyStep init d)
      (hpc : d.pc co = .changing n ct address c) (haddress : d.nodeAddress n = some (.at address)) :
      Connects n (d.changed co n ct address c)

theorem Connects.consistent (h : Connects n d) : d.Owning ∧ d.Consistent (· = n) := by
  cases h with
  | init => exact ⟨owning_init, consistent_init _⟩
  | @changed d co ct c address h hpc haddress =>
    have hown := owning_of_reachable h
    -- whatever has happened, the senders are recorded for their nodes
    have hnone : d.Consistent fun _ => False :=
      h.invariant' (I := fun d => d.Consistent fun _ => False) (consistent_init _)
        fun _ _ _ hr hinv _ hs => hinv.step (owning_of_reachable hr) (fun _ hk => hk.elim) hs
    have hstep : step d (.changed co) = some (d.changed co n ct address c) := by
      rw [step, hpc]
    exact ⟨hown.step hstep, hnone.changed hown (fun _ hk heq => hk heq) hpc fun _ => haddress⟩

theorem Connects.consistent_of_reachable {d₀ : Daemon} (h₀ : Connects n d₀)
    (h : Reachable step (admitted n) d₀ d) : d.Consistent (· = n) := by
  have hboth : d.Owning ∧ d.Consistent (· = n) := by
    refine h.invariant (I := fun d => d.Owning ∧ d.Consistent (· = n)) h₀.consistent ?_
    rintro d e d' ⟨hown, hinv⟩ hok hs
    exact ⟨hown.step hs, hinv.step hown (fun k hk => hk ▸ hok) hs⟩
  exact hboth.2

/-- Nobody opens a channel for the node, or is scheduled to. -/
def AtRest (d : Daemon) (n : String) : Prop := ∀ co, (d.pc co).node ≠ some n

/-- Only the coroutines that were started can open a channel. -/
theorem Owning.atRest (h : d.Owning) (hlt : ∀ co, co < d.nextCo → (d.pc co).node ≠ some n) :
    d.AtRest n := by
  intro co
  by_cases hco : co < d.nextCo
  · exact hlt co hco
  · rw [h.idle co (Nat.le_of_not_lt hco)]
    exact (Option.some_ne_none n).symm

theorem exists_atRest {es : List Event} {P : Daemon → Prop}
    (h : ∃ d, run step init es = some d ∧
      (∀ co, co < d.nextCo → (d.pc co).node ≠ some n) ∧ P d) :
    ∃ d, run step init es = some d ∧ d.AtRest n ∧ P d := by
  obtain ⟨d, hrun, hlt, hP⟩ := h
  exact ⟨d, hrun, (owning_of_reachable (Reachable.of_run hrun)).atRest hlt, hP⟩

/-- A node at rest that is down is turned off. -/
theorem Pending.turnedOff (h : d.Pending n) (hrest : d.AtRest n)
    (hdown : d.nodeAddress n = some .down) : d.TurnedOff n := by
  rcases h.down hdown with hoff | hopen | ⟨co, hco⟩
  · exact hoff
  · obtain ⟨ct, hct⟩ := Option.ne_none_iff_exists'.mp hopen
    intro c hc
    rcases h.owned ct hct with hnone | ⟨co, hco⟩
    · cases hnone.symm.trans hc
    · exact absurd (Pc.node_of_owned hco) (hrest co)
  · refine absurd ?_ (hrest co)
    rw [hco]
    rfl

end Daemon

open Daemon

/-- At rest, a node that is down has no channel, and its sender is closed or failed to
close; a node with a channel has an address, and the last `changenode` that succeeded at
the channel carried its host and port. -/
theorem tables_at_rest {d₀ d : Daemon} {n : String} (h₀ : Connects n d₀)
    (hr : Reachable step (admitted n) d₀ d) (hrest : d.AtRest n) :
    (d.nodeAddress n = some .down → d.nodeChannel n = none ∧
      ∀ c, d.nodeSender n = some c → ∃ s, d.sender c = some s ∧
        (s.closed = true ∨ s.calls.head? = some (.off, false))) ∧
    ∀ c, d.nodeChannel n = some c → ∃ address s, d.nodeAddress n = some (.at address) ∧
      d.sender c = some s ∧ s.lastChange = some (.to (hostPort address)) := by
  have h := h₀.consistent_of_reachable hr
  have hagrees := h.agrees n rfl
  have hpending := h.pending n rfl (Option.some_ne_none n).symm
  refine ⟨fun hdown => ⟨?_, hpending.turnedOff hrest hdown⟩, fun c hc => ?_⟩
  · rw [Option.eq_none_iff_forall_ne_some]
    intro c hc
    obtain ⟨_, address, _, hat, _⟩ := hagrees.channel c hc
    cases hdown.symm.trans hat
  · exact (hagrees.channel c hc).2

/-- A reload raises after it has taken a node down; the node comes up at another address. From
then on it is spoken for: it goes down and up again, while a reload raises after it has changed
the address of another node. -/
theorem tables_at_rest_moved :
    ∃ d₀ d, run step init [.reload [(.name "n", .string "a:1"), (.name "m", .string "c:3")],
        .lookup "n", .launched 0, .changed 0, .lookup "m", .launched 1, .changed 1,
        .reload [(.name "n", .boolean false), (.name "x", .number 5)],
        .reload [(.name "n", .string "b:2")], .run 2, .changed 2] = some d₀ ∧
      run step d₀ [.reload [(.name "n", .boolean false)], .run 3, .changed 3,
        .reload [(.name "m", .boolean false), (.name "x", .number 5)],
        .reload [(.name "n", .string "a:1")], .run 4, .changed 4] = some d ∧
      d.nodeChannel "n" = some 0 ∧ ∃ address s, d.nodeAddress "n" = some (.at address) ∧
        d.sender 0 = some s ∧ s.lastChange = some (.to (hostPort address)) := by
  have hbefore := @Reachable.of_run _ _ step init _
    [.reload [(.name "n", .string "a:1"), (.name "m", .string "c:3")],
      .lookup "n", .launched 0, .changed 0, .lookup "m", .launched 1, .changed 1,
      .reload [(.name "n", .boolean false), (.name "x", .number 5)],
      .reload [(.name "n", .string "b:2")], .run 2] rfl
  have h₀ := @Connects.changed "n" _ 2 _ _ _ hbefore rfl rfl
  -- the second half of the run is admitted, and leaves nobody opening the node
  have hafter (d₀ d : Daemon) (h₀ : Connects "n" d₀)
      (hrun : run (fun d e => if admitted "n" d e then step d e else none) d₀
        [.reload [(.name "n", .boolean false)], .run 3, .changed 3,
          .reload [(.name "m", .boolean false), (.name "x", .number 5)],
          .reload [(.name "n", .string "a:1")], .run 4, .changed 4] = some d)
      (hlt : ∀ co, co < d.nextCo → (d.pc co).node ≠ some "n") :=
    have hr := Reachable.of_guarded_run hrun
    have hown := hr.invariant (I := Owning) h₀.consistent.1 fun _ _ _ h _ hs => h.step hs
    (tables_at_rest h₀ hr (hown.atRest hlt)).2 0
  exact ⟨_, _, rfl, rfl, rfl, hafter _ _ h₀ rfl (by decide) rfl⟩

/-- Every run below ends with nobody opening the node, which is down, and with its sender
recorded. -/
theorem down_with_sender :
    -- it could not be turned off, which is left for the next attempt
    (∃ d, run step init [.reload [(.name "n", .string "a:1")], .lookup "n", .launched 0,
        .changed 0, .reload [(.name "n", .boolean false)], .run 1, .changeFailed 1] = some d ∧
      d.AtRest "n" ∧ d.nodeAddress "n" = some .down ∧ d.nodeSender "n" = some 0 ∧
      (d.sender 0).map Sender.closed = some false) ∧
    -- it was turned off, and then could not be reached at its next address
    (∃ d, run step init [.reload [(.name "n", .string "a:1")], .lookup "n", .launched 0,
        .changed 0, .reload [(.name "n", .boolean false)], .run 1, .changed 1,
        .reload [(.name "n", .string "b:2")], .run 2, .changeFailed 2,
        .reload [(.name "n", .boolean false)], .run 3] = some d ∧
      d.AtRest "n" ∧ d.nodeAddress "n" = some .down ∧ d.nodeSender "n" = some 0 ∧
      (d.sender 0).map Sender.closed = some false) ∧
    -- it went down while its channel was opened
    (∃ d, run step init [.reload [(.name "n", .string "a:1")], .lookup "n", .launched 0,
        .reload [(.name "n", .boolean false)], .changed 0, .changed 0, .run 1] = some d ∧
      d.AtRest "n" ∧ d.nodeAddress "n" = some .down ∧ d.nodeChannel "n" = some 0) ∧
    -- the reload that took it down raised at another node
    ∃ d, run step init [.reload [(.name "n", .string "a:1")], .lookup "n", .launched 0,
        .changed 0, .reload [(.name "n", .boolean false), (.name "m", .number 5)]] = some d ∧
      d.AtRest "n" ∧ d.nodeAddress "n" = some .down ∧ d.nodeSender "n" = some 0 ∧
      (d.sender 0).map Sender.closed = some false := by
  exact ⟨exists_atRest ⟨_, rfl, by decide, by decide⟩, exists_atRest ⟨_, rfl, by decide, by decide⟩,
    exists_atRest ⟨_, rfl, by decide, by decide⟩, exists_atRest ⟨_, rfl, by decide, by decide⟩⟩

end TestCluster.BeeCluster.Clusterd
