import TestCluster.BeeCluster.Senders

/-!
# One sender for each node

`open_channel` yields while it waits for the address, while it launches a sender and while it
calls the sender, and reloads fork more openers meanwhile. Whatever runs in between, only the
owner of the entry launches, so that a node has one sender, and every coroutine that opens a
channel for the node, or waits for another one to do so, comes back with that sender.

## Main definitions

* `Daemon.StopsFor` — where a coroutine that opens a node comes to a stop
* `Daemon.Opens` — what it does on the way
* `Advance` — what an event does to the tables of the daemon
* `Traced` — the daemon, with what each coroutine was asked for and what it waited on

## Main results

* `advance_of_step` — every event advances the daemon
* `one_sender` — one owner and one sender for each node, and the channel that waiters return
-/

namespace TestCluster.BeeCluster.Clusterd

open Semantics

namespace Daemon

variable {d d' : Daemon} {co : ℕ} {key : String} {ct : ℕ}

/-! ### Where a coroutine comes to a stop -/

/-- The sender that a coroutine calls, or returns, is the one of the node. -/
def Serves (d : Daemon) (key : String) : Pc → Prop
  | .changing _ _ _ c => d.nodeSender key = some c
  | .closing _ _ c => d.nodeSender key = some c
  | .returned c => ∀ c', c = some c' → d.nodeSender key = some c'
  | _ => True

/-- A coroutine that opens the node stops with the sender of the node, or in its entry. -/
structure StopsFor (d : Daemon) (key : String) (pc : Pc) : Prop where
  node : ∀ k, pc.node = some k → k = key
  serves : d.Serves key pc
  queued : ∀ k ct, pc = .queued k ct → d.connecting key = some ct

theorem Serves.mono {pc : Pc} (h : d.Serves key pc)
    (hsender : ∀ c, d.nodeSender key = some c → d'.nodeSender key = some c) :
    d'.Serves key pc := by
  cases pc with
  | changing => exact hsender _ h
  | closing => exact hsender _ h
  | returned c => exact fun c' hc' => hsender c' (h c' hc')
  | _ => trivial

theorem stopsFor_finish (succ : Bool) {c : Option ℕ}
    (hc : ∀ c', c = some c' → d.nodeSender key = some c') :
    d.StopsFor key (if succ then .returned c else .raised) := by
  cases succ with
  | true => exact ⟨fun _ hnode => (nomatch hnode), hc, fun _ _ hq => (nomatch hq)⟩
  | false => exact ⟨fun _ hnode => (nomatch hnode), trivial, fun _ _ hq => (nomatch hq)⟩

/-! ### What `open_channel` does to the entries -/

/-- The entries that are left when one is given up were there before. -/
theorem connecting_of_release {k : String} {ct' : ℕ}
    (h : (d.release key ct).connecting k = some ct') : d.connecting k = some ct' := by
  rw [release_eq] at h
  by_cases hk : k = key
  · subst hk
    simp at h
  · simpa [hk] using h

theorem release_nextEntry : (d.release key ct).nextEntry = d.nextEntry := by
  rw [release_eq]

theorem release_nextCo : (d.release key ct).nextCo = d.nextCo := by
  rw [release_eq]

theorem release_channel (ct' : ℕ) :
    ((d.release key ct).entry ct').channel = (d.entry ct').channel := by
  rw [release_eq]

/-- The coroutine comes to its next stop, and makes no entry on the way. -/
structure Keeps (co : ℕ) (key : String) (d d' : Daemon) : Prop where
  quiet : Quiet co d d'
  nextCo : d'.nextCo = d.nextCo
  nextEntry : d'.nextEntry = d.nextEntry
  connecting : ∀ k ct, d'.connecting k = some ct → d.connecting k = some ct
  channel : ∀ ct, (d'.entry ct).channel = (d.entry ct).channel
  stop : d'.StopsFor key (d'.pc co)

/-- The coroutine comes to its next stop; an entry that it makes is the next one, for its
node, and has no channel. -/
structure Opens (co : ℕ) (key : String) (d d' : Daemon) : Prop where
  quiet : Quiet co d d'
  nextCo : d'.nextCo = d.nextCo
  nextEntry : d.nextEntry ≤ d'.nextEntry
  connecting : ∀ k ct, d'.connecting k = some ct → d.connecting k = some ct ∨
    k = key ∧ ct = d.nextEntry ∧ (d'.entry ct).channel = none
  channel : ∀ ct, ct ≠ d.nextEntry → (d'.entry ct).channel = (d.entry ct).channel
  stop : d'.StopsFor key (d'.pc co)

namespace Keeps

theorem opens (h : Keeps co key d d') : Opens co key d d' where
  quiet := h.quiet
  nextCo := h.nextCo
  nextEntry := h.nextEntry.ge
  connecting k ct hct := Or.inl (h.connecting k ct hct)
  channel ct _ := h.channel ct
  stop := h.stop

theorem setPc {pc : Pc} (hstop : d.StopsFor key pc) : Keeps co key d (d.setPc co pc) where
  quiet := Quiet.setPc co d pc
  nextCo := rfl
  nextEntry := rfl
  connecting _ _ hct := hct
  channel _ := rfl
  stop := by
    rw [setPc_pc_self]
    exact ⟨hstop.node, hstop.serves, hstop.queued⟩

/-- A coroutine ends with the sender of its node, or raises. -/
theorem finish (succ : Bool) {c : Option ℕ}
    (hc : ∀ c', c = some c' → d.nodeSender key = some c') :
    Keeps co key d (d.finish co succ c) :=
  setPc (stopsFor_finish succ hc)

/-- An entry is given up first. -/
theorem of_release (h : Keeps co key (d.release key ct) d') : Keeps co key d d' where
  quiet := (Quiet.release co d key ct).trans h.quiet
  nextCo := h.nextCo.trans release_nextCo
  nextEntry := h.nextEntry.trans release_nextEntry
  connecting k ct' hct := connecting_of_release (h.connecting k ct' hct)
  channel ct' := (h.channel ct').trans (release_channel ct')
  stop := h.stop

theorem waitOn (hct : d.connecting key = some ct) : Keeps co key d (d.waitOn co key ct) where
  quiet := Quiet.waitOn co d key ct
  nextCo := rfl
  nextEntry := rfl
  connecting _ _ hct := hct
  channel ct' := by
    by_cases hne : ct' = ct
    · subst hne
      simp [Daemon.waitOn]
    · simp [Daemon.waitOn, hne]
  stop := by
    rw [waitOn_pc, Function.update_self]
    refine ⟨fun k hk => (Option.some.inj hk).symm, trivial, fun k ct' hq => ?_⟩
    obtain ⟨-, rfl⟩ := Pc.queued.inj hq
    exact hct

theorem awaitAddress : Keeps co key d (d.awaitAddress co key ct) where
  quiet := Quiet.awaitAddress co d key ct
  nextCo := rfl
  nextEntry := rfl
  connecting _ _ hct := hct
  channel ct' := by
    by_cases hne : ct' = ct
    · subst hne
      simp [Daemon.awaitAddress]
    · simp [Daemon.awaitAddress, hne]
  stop := by
    rw [awaitAddress_pc, Function.update_self]
    exact ⟨fun k hk => (Option.some.inj hk).symm, trivial, fun _ _ hq => nomatch hq⟩

/-- A coroutine that gives its entry up, and ends. -/
private theorem release_finish (succ : Bool) {c : Option ℕ}
    (hc : ∀ c', c = some c' → d.nodeSender key = some c') :
    Keeps co key d ((d.release key ct).finish co succ c) := by
  apply of_release
  apply finish
  intro c' hc'
  rw [(Quiet.release co d key ct).nodeSender]
  exact hc c' hc'

/-- From the address on, the coroutine calls the sender that its node has. -/
theorem proceed (co : ℕ) (d : Daemon) (key : String) (ct : ℕ) :
    Keeps co key d (d.proceed co key ct) := by
  -- a stop where the coroutine owns its entry
  have hkeep : ∀ pc : Pc, pc.node = some key → d.Serves key pc →
      (∀ k ct', pc ≠ .queued k ct') → Keeps co key d (d.setPc co pc) := by
    intro pc hnode hserves hqueued
    refine setPc ⟨fun k hk => ?_, hserves, fun k ct' hq => absurd hq (hqueued k ct')⟩
    exact Option.some.inj (hk.symm.trans hnode)
  unfold Daemon.proceed
  split
  · split
    · exact hkeep _ rfl trivial (by simp)
    next c hsender => exact hkeep _ rfl hsender (by simp)
  · split
    · exact release_finish true fun _ hc => nomatch hc
    next c hsender =>
      split_ifs
      · apply release_finish true
        intro c' hc'
        rw [hsender, hc']
      · exact hkeep _ rfl hsender (by simp)
  · exact release_finish false fun _ hc => nomatch hc

/-- A woken waiter waits again, or returns the channel of the entry that it waited in. -/
theorem requeue (hchannel : ∀ c, (d.entry ct).channel = some c → d.nodeSender key = some c) :
    Keeps co key d (d.requeue co key ct) := by
  unfold Daemon.requeue
  split
  next ct' hct => exact waitOn hct
  · split
    next c haddress hc =>
      apply finish true
      intro c' hc'
      obtain rfl := Option.some.inj hc'
      exact hchannel c hc
    · exact finish false fun _ hc => nomatch hc

end Keeps

namespace Opens

/-- An entry is given up first, before another one is made. -/
theorem of_release (h : Opens co key (d.release key ct) d') : Opens co key d d' where
  quiet := (Quiet.release co d key ct).trans h.quiet
  nextCo := h.nextCo.trans release_nextCo
  nextEntry := release_nextEntry.ge.trans h.nextEntry
  connecting k ct' hct := by
    rcases h.connecting k ct' hct with hold | ⟨hk, hct', hnone⟩
    · exact Or.inl (connecting_of_release hold)
    · exact Or.inr ⟨hk, hct'.trans release_nextEntry, hnone⟩
  channel ct' hct := by
    rw [← @release_nextEntry d key ct] at hct
    exact (h.channel ct' hct).trans (release_channel ct')
  stop := h.stop

/-- A new entry is made first. -/
theorem of_enter (h : Keeps co key (d.enter key) d') : Opens co key d d' where
  quiet := (Quiet.enter co d key).trans h.quiet
  nextCo := h.nextCo
  nextEntry := by
    rw [h.nextEntry]
    exact Nat.le_succ _
  connecting k ct' hct := by
    have hentered := h.connecting k ct' hct
    by_cases hk : k = key
    · subst hk
      obtain rfl : d.nextEntry = ct' := by simpa [Daemon.enter] using hentered
      refine Or.inr ⟨rfl, rfl, ?_⟩
      rw [h.channel]
      simp [Daemon.enter]
    · exact Or.inl (by simpa [Daemon.enter, hk] using hentered)
  channel ct' hct := by
    rw [h.channel]
    simp [Daemon.enter, hct]
  stop := h.stop

/-- `open_channel` from its first line. -/
theorem openChannel (co : ℕ) (d : Daemon) (key : String) :
    Opens co key d (d.openChannel co key) := by
  cases hct : d.connecting key with
  | some ct =>
    rw [openChannel_of_some hct]
    exact (Keeps.waitOn hct).opens
  | none =>
    rw [openChannel_of_none hct]
    split_ifs
    · exact of_enter .awaitAddress
    · exact of_enter (.proceed ..)

/-- The end of `open_channel`, perhaps with another turn. -/
theorem leave (address : NodeAddress) (succ : Bool) {c : Option ℕ}
    (hc : ∀ c', c = some c' → d.nodeSender key = some c') :
    Opens co key d (d.leave co key ct address succ c) := by
  rw [leave_eq]
  split_ifs
  · exact of_release (openChannel co _ key)
  · exact (Keeps.release_finish succ hc).opens

end Opens

/-! ### What an event does -/

/-- The node that a lookup asks its new coroutine for. -/
def asks (d : Daemon) (co : ℕ) : Event → Option String
  | .lookup node => if co = d.nextCo then some node else none
  | _ => none

/-- The coroutine was for the node before, or is new and asked for it, or forked for it. -/
def For (d : Daemon) (e : Event) (d' : Daemon) (co : ℕ) (key : String) : Prop :=
  (d.pc co).node = some key ∨
    d.nextCo ≤ co ∧ co < d'.nextCo ∧
      (d.asks co e = some key ∨ d.asks co e = none ∧ d'.pc co = .forked key)

/-- What becomes of a waiter: it waits again for its node, raises, or returns the channel of
the entry that it waited in. -/
def Waits (d d' : Daemon) (co : ℕ) (key : String) (ct : ℕ) : Prop :=
  (∃ ct', d'.pc co = .queued key ct') ∨ d'.pc co = .raised ∨
    ∃ c, d'.pc co = .returned (some c) ∧ (d.entry ct).channel = some c

/-- What an event does to the tables and the coroutines. -/
structure Advance (d : Daemon) (e : Event) (d' : Daemon) : Prop where
  nextCo : d.nextCo ≤ d'.nextCo
  nextEntry : d.nextEntry ≤ d'.nextEntry
  nodeSender : ∀ k c, d.nodeSender k = some c → d'.nodeSender k = some c
  nodeChannel : ∀ k c, d'.nodeChannel k = some c →
    d.nodeChannel k = some c ∨ d'.nodeSender k = some c
  sender : ∀ c s', d'.sender c = some s' → s'.killed = true ∨ d'.nodeSender s'.node = some c ∨
    ∃ s, d.sender c = some s ∧ s'.node = s.node ∧ s'.killed = s.killed
  connecting : ∃ key, ∀ k ct, d'.connecting k = some ct → d.connecting k = some ct ∨
    k = key ∧ ct = d.nextEntry ∧ (d'.entry ct).channel = none
  channel : ∀ ct, ct < d.nextEntry → (d'.entry ct).channel = (d.entry ct).channel ∨
    ∃ k c, d.connecting k = some ct ∧ d'.nodeSender k = some c ∧ (d'.entry ct).channel = some c
  pc : ∀ co, d'.pc co = d.pc co ∨ ∃ k, d.For e d' co k ∧ d'.StopsFor k (d'.pc co)
  waits : ∀ co k ct, d.pc co = .queued k ct → d'.pc co = d.pc co ∨ d.Waits d' co k ct

/-- The channels, and what coroutines call and wait for, are the senders of their nodes. -/
structure Single (d : Daemon) : Prop where
  owning : d.Owning
  channel : ∀ k c, d.nodeChannel k = some c → d.nodeSender k = some c
  serves : ∀ co k, (d.pc co).node = some k → d.Serves k (d.pc co)
  waiting : ∀ co k ct c, d.pc co = .queued k ct → (d.entry ct).channel = some c →
    d.nodeSender k = some c

/-- A sender that is called is the one it was. -/
theorem called_sender_cases {c c' : ℕ} {change : Change} {succ : Bool} {s' : Sender}
    (h : (d.called c change succ).sender c' = some s') :
    ∃ s, d.sender c' = some s ∧ s'.node = s.node ∧ s'.killed = s.killed := by
  rcases update_cases h with ⟨rfl, hnew⟩ | ⟨-, hold⟩
  · obtain ⟨s, hs, rfl⟩ := Option.map_eq_some_iff.mp hnew
    exact ⟨s, hs, rfl, rfl⟩
  · exact ⟨s', hold, rfl, rfl⟩

/-- A coroutine runs for its node, and comes to its next stop. -/
theorem Opens.advance {d₁ : Daemon} {e : Event} (h : Opens co key d₁ d')
    (hpc : ∀ co', co' ≠ co → d₁.pc co' = d.pc co') (hnextCo : d.nextCo ≤ d₁.nextCo)
    (hnextEntry : d₁.nextEntry = d.nextEntry) (hconnecting : d₁.connecting = d.connecting)
    (hnodeSender : d₁.nodeSender = d.nodeSender)
    (hnodeChannel : ∀ k c, d₁.nodeChannel k = some c →
      d.nodeChannel k = some c ∨ d.nodeSender k = some c)
    (hsender : ∀ c s', d₁.sender c = some s' →
      ∃ s, d.sender c = some s ∧ s'.node = s.node ∧ s'.killed = s.killed)
    (hchannel : ∀ ct, (d₁.entry ct).channel = (d.entry ct).channel ∨
      ∃ k c, d.connecting k = some ct ∧ d.nodeSender k = some c ∧
        (d₁.entry ct).channel = some c)
    (hfor : d.For e d' co key)
    (hwaits : ∀ k ct, d.pc co = .queued k ct → d.Waits d' co k ct) : d.Advance e d' := by
  have hquiet := h.quiet
  have hother : ∀ co', co' ≠ co → d'.pc co' = d.pc co' := by
    intro co' hne
    rw [hquiet.pc co' hne, hpc co' hne]
  refine ⟨?_, ?_, ?_, ?_, ?_, ⟨key, ?_⟩, ?_, ?_, ?_⟩
  · rw [h.nextCo]
    exact hnextCo
  · exact hnextEntry ▸ h.nextEntry
  · intro k c hc
    rw [hquiet.nodeSender, hnodeSender, hc]
  · intro k c hc
    rw [hquiet.nodeSender, hnodeSender]
    rw [hquiet.nodeChannel] at hc
    exact hnodeChannel k c hc
  · intro c s' hs'
    rw [hquiet.sender] at hs'
    exact Or.inr (Or.inr (hsender c s' hs'))
  · intro k ct hct
    rw [← hnextEntry, ← hconnecting]
    exact h.connecting k ct hct
  · intro ct hlt
    rw [h.channel ct (by rw [hnextEntry]; exact Nat.ne_of_lt hlt), hquiet.nodeSender, hnodeSender]
    exact hchannel ct
  · intro co'
    by_cases hco : co' = co
    · subst hco
      exact Or.inr ⟨key, hfor, h.stop⟩
    · exact Or.inl (hother co' hco)
  · intro co' k ct hq
    by_cases hco : co' = co
    · subst hco
      exact Or.inr (hwaits k ct hq)
    · exact Or.inl (hother co' hco)

/-- Where nothing but the coroutine moved. -/
private theorem Opens.advance_of_running {e : Event} {pc : Pc}
    (h : Opens co key (d.setPc co .running) d') (hpc : d.pc co = pc) (hnode : pc.node = some key)
    (hwaits : ∀ k ct, pc = .queued k ct → d.Waits d' co k ct) : d.Advance e d' := by
  refine h.advance (fun co' hne => Function.update_of_ne hne ..) le_rfl rfl rfl rfl
    (fun _ _ hc => Or.inl hc) (fun _ s hs => ⟨s, hs, rfl, rfl⟩) (fun _ => Or.inl rfl) ?_ ?_
  · exact Or.inl (by rw [hpc, hnode])
  · intro k ct hq
    exact hwaits k ct (hpc.symm.trans hq)

/-- A waiter that is woken. -/
theorem waits_requeue (d : Daemon) (co : ℕ) (key : String) (ct : ℕ) :
    d.Waits (d.requeue co key ct) co key ct := by
  unfold requeue
  split
  next ct' _ =>
    refine Or.inl ⟨ct', ?_⟩
    rw [waitOn_pc, Function.update_self]
  · split
    next c _ hc =>
      refine Or.inr (Or.inr ⟨c, ?_, hc⟩)
      rw [finish, setPc_pc_self]
      rfl
    · refine Or.inr (Or.inl ?_)
      rw [finish, setPc_pc_self]
      rfl

/-- A sender is the one that was launched last, or was there before. -/
theorem launchSender_cases {s s' : Sender} {c : ℕ}
    (h : (d.launchSender s).sender c = some s') :
    c = d.nextSender ∧ s' = s ∨ d.sender c = some s' := by
  rcases update_cases h with ⟨hc, hnew⟩ | ⟨-, hold⟩
  · exact Or.inl ⟨hc, (Option.some.inj hnew).symm⟩
  · exact Or.inr hold

/-- A sender was launched. -/
theorem advance_launched {address : String} (hpc : d.pc co = .launching key ct address) :
    d.Advance (.launched co) (d.launched co key ct address) := by
  -- where the coroutine goes on, and who else moves
  have hstop : ∀ {d' : Daemon} {c : ℕ},
      d'.pc = Function.update d.pc co (.changing key ct address c) →
      d'.nodeSender key = some c →
      (∀ co', d'.pc co' = d.pc co' ∨ ∃ k, d.For (.launched co) d' co' k ∧
        d'.StopsFor k (d'.pc co')) ∧
      ∀ co' k ct', d.pc co' = .queued k ct' → d'.pc co' = d.pc co' ∨ d.Waits d' co' k ct' := by
    intro d' c hpc' hsender
    refine ⟨fun co' => ?_, fun co' k ct' hq => Or.inl ?_⟩
    · by_cases hco : co' = co
      · subst hco
        refine Or.inr ⟨key, Or.inl (by rw [hpc]; rfl), ?_⟩
        rw [hpc', Function.update_self]
        exact ⟨fun k hk => (Option.some.inj hk).symm, hsender, fun _ _ hq => by cases hq⟩
      · exact Or.inl (by rw [hpc', Function.update_of_ne hco])
    · have hco : co' ≠ co := by
        rintro rfl
        cases hpc.symm.trans hq
      rw [hpc', Function.update_of_ne hco]
  unfold Daemon.launched
  split
  next c hsender =>
    obtain ⟨hpcs, hwaits⟩ := @hstop ((d.launchSender ⟨key, false, [], true⟩).setPc co
      (.changing key ct address c)) c rfl hsender
    refine ⟨le_rfl, le_rfl, fun _ _ hc => hc, fun _ _ hc => Or.inl hc, ?_,
      ⟨"", fun _ _ hct => Or.inl hct⟩, fun _ _ => Or.inl rfl, hpcs, hwaits⟩
    intro c' s' hs'
    rcases launchSender_cases hs' with ⟨-, rfl⟩ | hold
    · -- the second sender is killed
      exact Or.inl rfl
    · exact Or.inr (Or.inr ⟨s', hold, rfl, rfl⟩)
  next hsender =>
    have hself : Function.update d.nodeSender key (some d.nextSender) key = some d.nextSender :=
      Function.update_self ..
    obtain ⟨hpcs, hwaits⟩ := @hstop (setPc { d.launchSender ⟨key, false, [], false⟩ with
      nodeSender := Function.update d.nodeSender key (some d.nextSender) } co
      (.changing key ct address d.nextSender)) d.nextSender rfl hself
    refine ⟨le_rfl, le_rfl, ?_, fun _ _ hc => Or.inl hc, ?_,
      ⟨"", fun _ _ hct => Or.inl hct⟩, fun _ _ => Or.inl rfl, hpcs, hwaits⟩
    · intro k c hc
      have hne : k ≠ key := by
        rintro rfl
        cases hsender.symm.trans hc
      change Function.update d.nodeSender key (some d.nextSender) k = some c
      rw [Function.update_of_ne hne, hc]
    · intro c' s' hs'
      rcases launchSender_cases hs' with ⟨rfl, rfl⟩ | hold
      · -- the first sender is recorded
        exact Or.inr (Or.inl hself)
      · exact Or.inr (Or.inr ⟨s', hold, rfl, rfl⟩)

namespace Single

theorem lookup (h : d.Single) (node : String) : d.Advance (.lookup node) (d.lookup node) := by
  have hidle : d.pc d.nextCo = .idle := h.owning.idle d.nextCo le_rfl
  have hasks : d.asks d.nextCo (.lookup node) = some node := if_pos rfl
  -- the new coroutine is for the node, and was not waiting
  have hopens : ∀ {d₁ d' : Daemon}, Opens d.nextCo node d₁ d' → d₁.pc = d.pc ∨
      d₁.pc = Function.update d.pc d.nextCo .running → d₁.nextCo = d.nextCo + 1 →
      d₁.nextEntry = d.nextEntry → d₁.connecting = d.connecting → d₁.nodeSender = d.nodeSender →
      d₁.nodeChannel = d.nodeChannel → d₁.sender = d.sender → d₁.entry = d.entry →
      d.Advance (.lookup node) d' := by
    intro d₁ d' hopens hpc hnextCo hnextEntry hconnecting hnodeSender hnodeChannel hsender hentry
    refine hopens.advance ?_ ?_ hnextEntry hconnecting hnodeSender ?_ ?_ ?_ ?_ ?_
    · intro co' hne
      rcases hpc with hpc | hpc
      · rw [hpc]
      · rw [hpc, Function.update_of_ne hne]
    · rw [hnextCo]
      exact Nat.le_succ _
    · intro k c hc
      exact Or.inl (hnodeChannel ▸ hc)
    · intro c s hs
      exact ⟨s, hsender ▸ hs, rfl, rfl⟩
    · intro ct
      exact Or.inl (by rw [hentry])
    · refine Or.inr ⟨le_rfl, ?_, Or.inl hasks⟩
      rw [hopens.nextCo, hnextCo]
      exact Nat.lt_succ_self _
    · intro k ct hq
      exact nomatch hidle.symm.trans hq
  cases hchannel : d.nodeChannel node with
  | some c =>
    rw [lookup_of_some hchannel]
    have hkeeps : Keeps d.nextCo node { d with nextCo := d.nextCo + 1 }
        (finish { d with nextCo := d.nextCo + 1 } d.nextCo true (some c)) := by
      apply Keeps.finish true
      intro c' hc'
      exact hc' ▸ h.channel node c hchannel
    exact hopens hkeeps.opens (Or.inl rfl) rfl rfl rfl rfl rfl rfl rfl
  | none =>
    rw [lookup_of_none hchannel]
    exact hopens (.openChannel ..) (Or.inr rfl) rfl rfl rfl rfl rfl rfl rfl

theorem reload (h : d.Single) (tmp : List (ConfigKey × ConfigValue)) :
    d.Advance (.reload tmp) (d.loadconfig tmp).1 := by
  have hd := Reloaded.loadconfig d tmp
  refine ⟨hd.nextCo, hd.nextEntry.ge, ?_, ?_, ?_, ⟨"", ?_⟩, ?_, ?_, ?_⟩
  · intro k c hc
    rw [hd.nodeSender, hc]
  · intro k c hc
    refine Or.inl (loadconfig_nodeChannel (fun c hc => ?_) hc).1
    rw [h.channel k c hc]
    rfl
  · intro c s hs
    rw [hd.sender] at hs
    exact Or.inr (Or.inr ⟨s, hs, rfl, rfl⟩)
  · intro k ct hct
    rw [hd.connecting] at hct
    exact Or.inl hct
  · intro ct _
    rw [hd.entry]
    exact Or.inl rfl
  · intro co
    by_cases hlt : co < d.nextCo
    · exact Or.inl (hd.pc co hlt)
    · -- a coroutine that is not as it was was forked
      refine (hd.forked co).imp_right ?_
      rintro ⟨hnext, name, hname⟩
      refine ⟨name, Or.inr ⟨Nat.not_lt.mp hlt, hnext, Or.inr ⟨rfl, hname⟩⟩, ?_⟩
      rw [hname]
      exact ⟨fun k hk => (Option.some.inj hk).symm, trivial, fun _ _ hq => (nomatch hq)⟩
  · intro co k ct hq
    refine Or.inl (hd.pc co (h.owning.lt_nextCo ?_))
    rw [hq]
    exact fun hidle => (nomatch hidle)

/-- The call of a sender has ended. -/
private theorem leave (h : d.Single) {e : Event} {d₁ : Daemon} {pc : Pc} {c : ℕ}
    {change : Change} {address : NodeAddress} {succ : Bool} (hpc : d.pc co = pc)
    (howned : pc.owned = some (key, ct)) (hsender : d.nodeSender key = some c)
    (hpcs : d₁.pc = Function.update d.pc co .running) (hnextCo : d₁.nextCo = d.nextCo)
    (hnextEntry : d₁.nextEntry = d.nextEntry) (hconnecting : d₁.connecting = d.connecting)
    (hnodeSender : d₁.nodeSender = d.nodeSender)
    (hsenders : d₁.sender = ((d.setPc co .running).called c change succ).sender)
    (hnodeChannel : ∀ k c', d₁.nodeChannel k = some c' → d.nodeChannel k = some c' ∨
      d.nodeSender k = some c')
    (hchannel : ∀ ct', (d₁.entry ct').channel = (d.entry ct').channel ∨
      ct' = ct ∧ (d₁.entry ct').channel = some c) :
    d.Advance e (d₁.leave co key ct address succ (some c)) := by
  have hopens : Opens co key d₁ (d₁.leave co key ct address succ (some c)) := by
    apply Opens.leave
    intro c' hc'
    rw [hnodeSender, ← hc', hsender]
  refine hopens.advance ?_ hnextCo.ge hnextEntry hconnecting hnodeSender hnodeChannel ?_ ?_ ?_ ?_
  · intro co' hne
    rw [hpcs, Function.update_of_ne hne]
  · intro c' s' hs'
    rw [hsenders] at hs'
    exact called_sender_cases hs'
  · intro ct'
    refine (hchannel ct').imp_right ?_
    rintro ⟨rfl, hc⟩
    exact ⟨key, c, h.owning.current co key ct' (by rw [hpc, howned]), hsender, hc⟩
  · exact Or.inl (by rw [hpc, Pc.node_of_owned howned])
  · -- the owner of an entry does not wait in one
    intro k ct' hq
    rw [← hpc, hq] at howned
    exact nomatch howned

/-- The call of a sender has failed. -/
private theorem leave_failed (h : d.Single) {e : Event} {pc : Pc} {c : ℕ} {change : Change}
    {address : NodeAddress} (hpc : d.pc co = pc) (howned : pc.owned = some (key, ct))
    (hsender : d.nodeSender key = some c) :
    d.Advance e (((d.setPc co .running).called c change false).leave co key ct address false
      (some c)) :=
  h.leave hpc howned hsender rfl rfl rfl rfl rfl rfl (fun _ _ hc => Or.inl hc) fun _ => Or.inl rfl

/-- What a coroutine calls is the sender of the node that it is for. -/
theorem serves_of_pc (h : d.Single) {pc : Pc} (hpc : d.pc co = pc) (hnode : pc.node = some key) :
    d.Serves key pc := by
  subst hpc
  exact h.serves co key hnode

/-- **What an event does**, in every state in which what coroutines call and wait for are the
senders of their nodes. -/
theorem advance (h : d.Single) {e : Event} (hs : step d e = some d') : d.Advance e d' := by
  cases stepCase_of_step hs with
  | lookup node => exact h.lookup node
  | reload tmp => exact h.reload tmp
  | forked hpc =>
    exact Opens.advance_of_running (.openChannel ..) hpc rfl fun _ _ hq => nomatch hq
  | @queued co key ct hpc =>
    have hkeeps : Keeps co key (d.setPc co .running) ((d.setPc co .running).requeue co key ct) :=
      Keeps.requeue fun c hc => h.waiting co key ct c hpc hc
    refine hkeeps.opens.advance_of_running hpc rfl fun k ct' hq => ?_
    obtain ⟨rfl, rfl⟩ := Pc.queued.inj hq
    exact waits_requeue (d.setPc co .running) co key ct
  | naming hpc =>
    exact (Keeps.proceed ..).opens.advance_of_running hpc rfl fun _ _ hq => nomatch hq
  | launched hpc => exact advance_launched hpc
  | @launchFailed co key ct address hpc =>
    have hstop : d.StopsFor key .raised :=
      @stopsFor_finish d key false none fun _ hc => nomatch hc
    have hraised : Opens co key d (d.setPc co .raised) := (Keeps.setPc hstop).opens
    refine hraised.advance (fun _ _ => rfl) le_rfl rfl rfl rfl (fun _ _ hc => Or.inl hc)
      (fun _ s hs => ⟨s, hs, rfl, rfl⟩) (fun _ => Or.inl rfl) (Or.inl (by rw [hpc]; rfl)) ?_
    intro k ct' hq
    exact nomatch hpc.symm.trans hq
  | @changed co key ct address c hpc =>
    have hsender : d.nodeSender key = some c := h.serves_of_pc hpc rfl
    refine h.leave hpc rfl hsender rfl rfl rfl rfl rfl rfl (fun k c' hc' => ?_) fun ct' => ?_
    · rcases update_cases hc' with ⟨rfl, hnew⟩ | ⟨-, hold⟩
      · exact Or.inr (hsender.trans hnew)
      · exact Or.inl hold
    · by_cases hct : ct' = ct
      · subst hct
        exact Or.inr ⟨rfl, by simp⟩
      · refine Or.inl (congrArg Entry.channel ?_)
        exact Function.update_of_ne hct ..
  | closed hpc =>
    exact h.leave hpc rfl (h.serves_of_pc hpc rfl) rfl rfl rfl rfl rfl rfl
      (fun _ _ hc => Or.inl hc) fun _ => Or.inl rfl
  | changeFailed hpc => exact h.leave_failed hpc rfl (h.serves_of_pc hpc rfl)
  | closeFailed hpc => exact h.leave_failed hpc rfl (h.serves_of_pc hpc rfl)

end Single

end Daemon

/-! ### What coroutines were asked for -/

/-- The daemon, with the node that each coroutine was asked for and the entries that it waited
in, the last one in front. -/
structure Traced where
  daemon : Daemon
  asked : ℕ → Option String
  waited : ℕ → List ℕ

namespace Traced

/-- No coroutine was started. -/
def init : Traced := ⟨Clusterd.init, fun _ => none, fun _ => []⟩

/-- The node of a coroutine after an event: the one it was asked for, or is forked for. -/
def askedAfter (t : Traced) (e : Event) (d' : Daemon) (co : ℕ) : Option String :=
  match t.asked co, t.daemon.asks co e with
  | some key, _ => some key
  | none, some key => some key
  | none, none => (d'.pc co).node

/-- The entries of a coroutine after an event: it waits in another one, or not. -/
def waitedAfter (t : Traced) (d' : Daemon) (co : ℕ) : List ℕ :=
  match d'.pc co with
  | .queued _ ct => if d'.pc co = t.daemon.pc co then t.waited co else ct :: t.waited co
  | _ => t.waited co

/-- One event, and what becomes of the coroutines. -/
def step (t : Traced) (e : Event) : Option Traced :=
  (Clusterd.step t.daemon e).map fun d' => ⟨d', t.askedAfter e d', t.waitedAfter d'⟩

variable {t t' : Traced} {e : Event} {d' : Daemon} {co : ℕ} {key : String} {ct : ℕ}

theorem askedAfter_of_some (h : t.asked co = some key) : t.askedAfter e d' co = some key := by
  simp only [askedAfter, h]

theorem waitedAfter_of_pc (h : d'.pc co = t.daemon.pc co) : t.waitedAfter d' co = t.waited co := by
  unfold waitedAfter
  split
  · rw [if_pos h]
  · rfl

theorem waitedAfter_of_queued (h : d'.pc co = .queued key ct)
    (hne : d'.pc co ≠ t.daemon.pc co) : t.waitedAfter d' co = ct :: t.waited co := by
  simp only [waitedAfter, h]
  rw [if_neg (h ▸ hne)]

theorem waitedAfter_of_not_queued (h : ∀ key ct, d'.pc co ≠ .queued key ct) :
    t.waitedAfter d' co = t.waited co := by
  unfold waitedAfter
  split
  next key ct hq => exact absurd hq (h key ct)
  · rfl

/-! ### The invariant -/

/-- The entry belongs to the node: no other node has it, and its channel is the sender of the
node. -/
structure Belongs (d : Daemon) (ct : ℕ) (key : String) : Prop where
  numbered : ct < d.nextEntry
  only : ∀ k, d.connecting k = some ct → k = key
  channel : ∀ c, (d.entry ct).channel = some c → d.nodeSender key = some c

/-- The senders and the channels of the nodes, and what the coroutines for them waited on. -/
structure Inv (t : Traced) : Prop where
  owning : t.daemon.Owning
  launched : ∀ c s, t.daemon.sender c = some s →
    s.killed = true ∨ t.daemon.nodeSender s.node = some c
  channel : ∀ k c, t.daemon.nodeChannel k = some c → t.daemon.nodeSender k = some c
  current : ∀ k ct, t.daemon.connecting k = some ct → Belongs t.daemon ct k
  fresh : ∀ co, t.daemon.nextCo ≤ co → t.asked co = none ∧ t.waited co = []
  node : ∀ co k, (t.daemon.pc co).node = some k → t.asked co = some k
  serves : ∀ co k, t.asked co = some k → t.daemon.Serves k (t.daemon.pc co)
  waited : ∀ co ct, ct ∈ t.waited co → ∃ k, t.asked co = some k ∧ Belongs t.daemon ct k
  behind : ∀ co k ct ct', t.asked co = some k → t.daemon.connecting k = some ct →
    ct' ∈ t.waited co → ct' ≤ ct
  ordered : ∀ co ct older, t.waited co = ct :: older → ∀ ct' ∈ older, ct' ≤ ct
  queued : ∀ co k ct, t.daemon.pc co = .queued k ct → ct ∈ t.waited co
  last : ∀ co ct older, t.waited co = ct :: older →
    (∃ k, t.daemon.pc co = .queued k ct) ∨ t.daemon.pc co = .raised ∨
      ∃ c, t.daemon.pc co = .returned (some c) ∧ (t.daemon.entry ct).channel = some c

theorem inv_init : init.Inv where
  owning := Daemon.owning_init
  launched _ _ h := nomatch h
  channel _ _ h := nomatch h
  current _ _ h := nomatch h
  fresh _ _ := ⟨rfl, rfl⟩
  node _ _ h := nomatch h
  serves _ _ h := nomatch h
  waited _ _ h := nomatch h
  behind _ _ _ _ h := nomatch h
  ordered _ _ _ h := nomatch h
  queued _ _ _ h := nomatch h
  last _ _ _ h := nomatch h

theorem Inv.single (h : t.Inv) : t.daemon.Single where
  owning := h.owning
  channel := h.channel
  serves co k hnode := h.serves co k (h.node co k hnode)
  waiting co k ct c hq hc := by
    obtain ⟨k', hk', hbelongs⟩ := h.waited co ct (h.queued co k ct hq)
    have hk : t.asked co = some k := h.node co k (by rw [hq]; rfl)
    obtain rfl := Option.some.inj (hk.symm.trans hk')
    exact hbelongs.channel c hc

/-! ### Every event -/

theorem Belongs.advance {d : Daemon} (h : Belongs d ct key) (hd : d.Advance e d') :
    Belongs d' ct key where
  numbered := h.numbered.trans_le hd.nextEntry
  only k hct := by
    obtain ⟨key', hconnecting⟩ := hd.connecting
    rcases hconnecting k ct hct with hold | ⟨-, rfl, -⟩
    · exact h.only k hold
    · exact absurd h.numbered (lt_irrefl _)
  channel c hc := by
    rcases hd.channel ct h.numbered with hsame | ⟨k, c', hk, hsender, hc'⟩
    · exact hd.nodeSender key c (h.channel c (hsame ▸ hc))
    · -- the entry is that of the node that was opened
      obtain rfl := h.only k hk
      obtain rfl := Option.some.inj (hc'.symm.trans hc)
      exact hsender

/-- An entry keeps its channel. -/
theorem Belongs.keeps_channel {d : Daemon} {c : ℕ} (h : Belongs d ct key)
    (hd : d.Advance e d') (hc : (d.entry ct).channel = some c) :
    (d'.entry ct).channel = some c := by
  rcases hd.channel ct h.numbered with hsame | ⟨k, c', hk, hsender, hc'⟩
  · exact hsame.trans hc
  · obtain rfl := h.only k hk
    have hold := hd.nodeSender k c (h.channel c hc)
    rw [hc', ← hsender, hold]

/-- A new entry belongs to the node that it is made for. -/
theorem Inv.current_advance (h : t.Inv) (hd : t.daemon.Advance e d') (hown : d'.Owning)
    (hct : d'.connecting key = some ct) : Belongs d' ct key := by
  obtain ⟨key', hconnecting⟩ := hd.connecting
  rcases hconnecting key ct hct with hold | ⟨rfl, rfl, hnone⟩
  · exact (h.current key ct hold).advance hd
  · refine ⟨hown.numbered key _ hct, fun k hk => ?_, fun c hc => nomatch hnone.symm.trans hc⟩
    rcases hconnecting k _ hk with hold | ⟨hkey, -, -⟩
    · exact absurd (h.owning.numbered k _ hold) (lt_irrefl _)
    · exact hkey

/-- A coroutine that moves was asked for the node that it stops for. -/
theorem Inv.asked_of_for (h : t.Inv) (hfor : t.daemon.For e d' co key) :
    t.askedAfter e d' co = some key := by
  rcases hfor with hnode | ⟨hle, -, hasks⟩
  · exact askedAfter_of_some (h.node co key hnode)
  · obtain ⟨hnone, -⟩ := h.fresh co hle
    rcases hasks with hasks | ⟨hasks, hforked⟩
    · simp only [askedAfter, hnone, hasks]
    · simp only [askedAfter, hnone, hasks, hforked]
      rfl

/-- A coroutine that has ended does not move. -/
theorem Inv.not_ended_of_for (h : t.Inv) (hfor : t.daemon.For e d' co key) :
    t.daemon.pc co ≠ .raised ∧ ∀ c, t.daemon.pc co ≠ .returned c := by
  rcases hfor with hnode | ⟨hle, -, -⟩
  · constructor
    · intro hpc
      rw [hpc] at hnode
      exact nomatch hnode
    · intro c hpc
      rw [hpc] at hnode
      exact nomatch hnode
  · rw [h.owning.idle co hle]
    exact ⟨fun hpc => (nomatch hpc), fun _ hpc => (nomatch hpc)⟩

theorem Inv.node_advance (h : t.Inv) (hd : t.daemon.Advance e d')
    (hnode : (d'.pc co).node = some key) : t.askedAfter e d' co = some key := by
  rcases hd.pc co with hsame | ⟨k, hfor, hstop⟩
  · rw [hsame] at hnode
    exact askedAfter_of_some (h.node co key hnode)
  · obtain rfl := hstop.node key hnode
    exact h.asked_of_for hfor

theorem Inv.serves_advance (h : t.Inv) (hd : t.daemon.Advance e d')
    (hasked : t.askedAfter e d' co = some key) : d'.Serves key (d'.pc co) := by
  rcases hd.pc co with hsame | ⟨k, hfor, hstop⟩
  · rw [hsame]
    cases hold : t.asked co with
    | some k =>
      obtain rfl := Option.some.inj ((askedAfter_of_some hold).symm.trans hasked)
      exact (h.serves co k hold).mono (hd.nodeSender k)
    | none =>
      -- the coroutine is new, and has not moved
      have hle : t.daemon.nextCo ≤ co := by
        by_contra hlt
        cases hasks : t.daemon.asks co e with
        | some k =>
          cases e with
          | lookup node =>
            simp only [Daemon.asks] at hasks
            split_ifs at hasks with hco
            exact hlt hco.ge
          | _ => exact nomatch hasks
        | none =>
          simp only [askedAfter, hold, hasks, hsame] at hasked
          exact nomatch hold.symm.trans (h.node co key hasked)
      rw [h.owning.idle co hle]
      trivial
  · obtain rfl := Option.some.inj ((h.asked_of_for hfor).symm.trans hasked)
    exact hstop.serves

/-- What a coroutine waited in after an event: what it waited in before, or an entry of its
node that it has come to. -/
theorem Inv.mem_waitedAfter (h : t.Inv) (hd : t.daemon.Advance e d')
    (hct : ct ∈ t.waitedAfter d' co) :
    ct ∈ t.waited co ∨
      ∃ k, t.askedAfter e d' co = some k ∧ d'.connecting k = some ct := by
  rcases hd.pc co with hsame | ⟨k, hfor, hstop⟩
  · rw [waitedAfter_of_pc hsame] at hct
    exact Or.inl hct
  · by_cases hmoved : d'.pc co = t.daemon.pc co
    · rw [waitedAfter_of_pc hmoved] at hct
      exact Or.inl hct
    · by_cases hq : ∃ k' ct', d'.pc co = .queued k' ct'
      · obtain ⟨k', ct', hq⟩ := hq
        rw [waitedAfter_of_queued hq hmoved] at hct
        rcases List.mem_cons.mp hct with rfl | hct
        · exact Or.inr ⟨k, h.asked_of_for hfor, hstop.queued k' ct hq⟩
        · exact Or.inl hct
      · rw [waitedAfter_of_not_queued fun k' ct' hk => hq ⟨k', ct', hk⟩] at hct
        exact Or.inl hct

theorem Inv.waited_advance (h : t.Inv) (hd : t.daemon.Advance e d') (hown : d'.Owning)
    (hct : ct ∈ t.waitedAfter d' co) :
    ∃ k, t.askedAfter e d' co = some k ∧ Belongs d' ct k := by
  rcases h.mem_waitedAfter hd hct with hold | ⟨k, hk, hconnecting⟩
  · obtain ⟨k, hk, hbelongs⟩ := h.waited co ct hold
    exact ⟨k, askedAfter_of_some hk, hbelongs.advance hd⟩
  · exact ⟨k, hk, h.current_advance hd hown hconnecting⟩

theorem Inv.behind_advance {ct' : ℕ} (h : t.Inv) (hd : t.daemon.Advance e d')
    (hasked : t.askedAfter e d' co = some key) (hct : d'.connecting key = some ct)
    (hct' : ct' ∈ t.waitedAfter d' co) : ct' ≤ ct := by
  rcases h.mem_waitedAfter hd hct' with hold | ⟨k, hk, hconnecting⟩
  · obtain ⟨k, hk, hbelongs⟩ := h.waited co ct' hold
    obtain rfl := Option.some.inj ((askedAfter_of_some hk).symm.trans hasked)
    obtain ⟨key', hentries⟩ := hd.connecting
    rcases hentries k ct hct with hcurrent | ⟨-, rfl, -⟩
    · exact h.behind co k ct ct' hk hcurrent hold
    · exact hbelongs.numbered.le
  · -- it waits in the current entry
    obtain rfl := Option.some.inj (hk.symm.trans hasked)
    exact (Option.some.inj (hconnecting.symm.trans hct)).le

/-- How the record of a coroutine goes on: it is as it was, or an entry is new in it. -/
theorem waitedAfter_cases (t : Traced) (d' : Daemon) (co : ℕ) :
    t.waitedAfter d' co = t.waited co ∨
      ∃ k ct, d'.pc co = .queued k ct ∧ t.waitedAfter d' co = ct :: t.waited co := by
  by_cases hsame : d'.pc co = t.daemon.pc co
  · exact Or.inl (waitedAfter_of_pc hsame)
  · by_cases hq : ∃ k ct, d'.pc co = .queued k ct
    · obtain ⟨k, ct, hq⟩ := hq
      exact Or.inr ⟨k, ct, hq, waitedAfter_of_queued hq hsame⟩
    · exact Or.inl (waitedAfter_of_not_queued fun k ct hk => hq ⟨k, ct, hk⟩)

theorem Inv.ordered_advance {older : List ℕ} (h : t.Inv) (hd : t.daemon.Advance e d')
    (hwaited : t.waitedAfter d' co = ct :: older) : ∀ ct' ∈ older, ct' ≤ ct := by
  rcases waitedAfter_cases t d' co with hsame | ⟨k, ct₁, hq, hnew⟩
  · exact h.ordered co ct older (hsame.symm.trans hwaited)
  · obtain ⟨rfl, rfl⟩ := List.cons.inj (hnew.symm.trans hwaited)
    intro ct' hct'
    have hmem : ct' ∈ t.waitedAfter d' co := hwaited ▸ List.mem_cons_of_mem _ hct'
    have hasked : t.askedAfter e d' co = some k := h.node_advance hd (by rw [hq]; rfl)
    rcases hd.pc co with hpc | ⟨k', hfor, hstop⟩
    · -- it has not moved, and waits in the entry that it waited in
      rw [hpc] at hq
      rw [waitedAfter_of_pc hpc] at hnew
      exact absurd hnew (List.cons_ne_self _ _).symm
    · obtain rfl := Option.some.inj ((h.asked_of_for hfor).symm.trans hasked)
      exact h.behind_advance hd hasked (hstop.queued k' ct₁ hq) hmem

theorem Inv.queued_advance (h : t.Inv) (hq : d'.pc co = .queued key ct) :
    ct ∈ t.waitedAfter d' co := by
  by_cases hsame : d'.pc co = t.daemon.pc co
  · rw [waitedAfter_of_pc hsame]
    exact h.queued co key ct (hsame ▸ hq)
  · rw [waitedAfter_of_queued hq hsame]
    exact List.mem_cons_self

theorem Inv.last_advance {older : List ℕ} (h : t.Inv) (hd : t.daemon.Advance e d')
    (hwaited : t.waitedAfter d' co = ct :: older) :
    (∃ k, d'.pc co = .queued k ct) ∨ d'.pc co = .raised ∨
      ∃ c, d'.pc co = .returned (some c) ∧ (d'.entry ct).channel = some c := by
  rcases waitedAfter_cases t d' co with hsame | ⟨k, ct₁, hq, hnew⟩
  · rw [hsame] at hwaited
    obtain ⟨k₀, hk₀, hbelongs⟩ := h.waited co ct (hwaited ▸ List.mem_cons_self)
    rcases h.last co ct older hwaited with ⟨k, hq⟩ | hraised | ⟨c, hreturned, hc⟩
    · -- it waited in this entry
      rcases hd.waits co k ct hq with hpc | ⟨ct', hq'⟩ | hraised | ⟨c, hreturned, hc⟩
      · exact Or.inl ⟨k, hpc.trans hq⟩
      · by_cases hpc : d'.pc co = t.daemon.pc co
        · exact Or.inl ⟨k, hpc.trans hq⟩
        · rw [waitedAfter_of_queued hq' hpc] at hsame
          exact absurd hsame (List.cons_ne_self _ _)
      · exact Or.inr (Or.inl hraised)
      · exact Or.inr (Or.inr ⟨c, hreturned, hbelongs.keeps_channel hd hc⟩)
    · refine Or.inr (Or.inl ?_)
      rcases hd.pc co with hpc | ⟨k, hfor, -⟩
      · exact hpc.trans hraised
      · exact absurd hraised (h.not_ended_of_for hfor).1
    · refine Or.inr (Or.inr ⟨c, ?_, hbelongs.keeps_channel hd hc⟩)
      rcases hd.pc co with hpc | ⟨k, hfor, -⟩
      · exact hpc.trans hreturned
      · exact absurd hreturned ((h.not_ended_of_for hfor).2 (some c))
  · obtain ⟨rfl, -⟩ := List.cons.inj (hnew.symm.trans hwaited)
    exact Or.inl ⟨k, hq⟩

/-- A coroutine that is asked for a node is started. -/
theorem lt_nextCo_of_asks {d : Daemon} (hs : Clusterd.step d e = some d')
    (hasks : d.asks co e = some key) : co < d'.nextCo := by
  cases e with
  | lookup node =>
    simp only [Daemon.asks] at hasks
    split_ifs at hasks with hco
    obtain rfl := Option.some.inj hs
    have hnext : (d.lookup node).nextCo = d.nextCo + 1 := by
      cases hchannel : d.nodeChannel node with
      | some c =>
        rw [Daemon.lookup_of_some hchannel]
        rfl
      | none =>
        rw [Daemon.lookup_of_none hchannel, (Daemon.Opens.openChannel ..).nextCo]
        rfl
    rw [hco, hnext]
    exact Nat.lt_succ_self _
  | _ => exact nomatch hasks

theorem Inv.fresh_advance (h : t.Inv) (hs : Clusterd.step t.daemon e = some d')
    (hd : t.daemon.Advance e d') (hown : d'.Owning) (hle : d'.nextCo ≤ co) :
    t.askedAfter e d' co = none ∧ t.waitedAfter d' co = [] := by
  obtain ⟨hasked, hwaited⟩ := h.fresh co (hd.nextCo.trans hle)
  have hidle : d'.pc co = .idle := hown.idle co hle
  constructor
  · cases hasks : t.daemon.asks co e with
    | some k => exact absurd (lt_nextCo_of_asks hs hasks) (Nat.not_lt.mpr hle)
    | none =>
      simp only [askedAfter, hasked, hasks, hidle]
      rfl
  · rw [waitedAfter_of_not_queued (by simp [hidle]), hwaited]

theorem Inv.launched_advance (h : t.Inv) (hd : t.daemon.Advance e d') {c : ℕ} {s : Sender}
    (hsender : d'.sender c = some s) : s.killed = true ∨ d'.nodeSender s.node = some c := by
  rcases hd.sender c s hsender with hkilled | hrecorded | ⟨s₀, hs₀, hnode, hkilled⟩
  · exact Or.inl hkilled
  · exact Or.inr hrecorded
  · rw [hnode, hkilled]
    exact (h.launched c s₀ hs₀).imp_right (hd.nodeSender s₀.node c)

/-- **Every event keeps the invariant.** -/
theorem Inv.step (h : t.Inv) (hs : t.step e = some t') : t'.Inv := by
  obtain ⟨d', hs', rfl⟩ := Option.map_eq_some_iff.mp hs
  have hown : d'.Owning := h.owning.step hs'
  have hd : t.daemon.Advance e d' := h.single.advance hs'
  refine ⟨hown, fun c s => h.launched_advance hd, fun k c hc => ?_,
    fun k ct => h.current_advance hd hown, fun co => h.fresh_advance hs' hd hown,
    fun co k => h.node_advance hd, fun co k => h.serves_advance hd,
    fun co ct => h.waited_advance hd hown, fun co k ct ct' => h.behind_advance hd,
    fun co ct older => h.ordered_advance hd, fun co k ct => h.queued_advance,
    fun co ct older => h.last_advance hd⟩
  rcases hd.nodeChannel k c hc with hold | hnew
  · exact hd.nodeSender k c (h.channel k c hold)
  · exact hnew

theorem inv_of_reachable (h : Reachable step anyStep init t) : t.Inv :=
  h.invariant inv_init fun _ _ _ hinv _ hs => hinv.step hs

/-- The sender of a node stays, whatever happens. -/
theorem nodeSender_of_reachable {c : ℕ} (h : t.Inv) (hr : Reachable step anyStep t t')
    (hc : t.daemon.nodeSender key = some c) : t'.daemon.nodeSender key = some c := by
  suffices hboth : t'.Inv ∧ t'.daemon.nodeSender key = some c from hboth.2
  apply hr.invariant
  · exact ⟨h, hc⟩
  · rintro t e t' ⟨hinv, hc⟩ _ hs
    refine ⟨hinv.step hs, ?_⟩
    obtain ⟨d', hs', rfl⟩ := Option.map_eq_some_iff.mp hs
    exact (hinv.single.advance hs').nodeSender key c hc

end Traced

open Traced

/-- **One sender for each node**, in every run. At most one coroutine owns the entry of the
node; the sender of the node is never another one, and every other sender that was launched for
it is killed; a coroutine that was asked for the node returns this sender, or none; and one that
waited returns the channel of the last entry that it waited in, which is the newest of them. -/
theorem one_sender {t : Traced} (h : Reachable Traced.step anyStep Traced.init t) (key : String) :
    (∀ co co' ct ct', (t.daemon.pc co).owned = some (key, ct) →
      (t.daemon.pc co').owned = some (key, ct') →
      co = co' ∧ t.daemon.connecting key = some ct) ∧
    (∀ c t', t.daemon.nodeSender key = some c → Reachable Traced.step anyStep t t' →
      t'.daemon.nodeSender key = some c) ∧
    (∀ c s, t.daemon.sender c = some s → s.node = key →
      s.killed = true ∨ t.daemon.nodeSender key = some c) ∧
    (∀ co c, t.asked co = some key → t.daemon.pc co = .returned (some c) →
      t.daemon.nodeSender key = some c) ∧
    ∀ co ct older c, t.waited co = ct :: older → t.daemon.pc co = .returned c →
      (∃ c', c = some c' ∧ (t.daemon.entry ct).channel = some c') ∧ ∀ ct' ∈ older, ct' ≤ ct := by
  have hinv := inv_of_reachable h
  refine ⟨?_, ?_, ?_, ?_, ?_⟩
  · intro co co' ct ct' howned howned'
    have hcurrent := hinv.owning.current co key ct howned
    obtain rfl := Option.some.inj (hcurrent.symm.trans (hinv.owning.current co' key ct' howned'))
    exact ⟨hinv.owning.unique co co' key ct howned howned', hcurrent⟩
  · intro c t' hc hr
    exact nodeSender_of_reachable hinv hr hc
  · rintro c s hs rfl
    exact hinv.launched c s hs
  · intro co c hasked hpc
    have hserves := hinv.serves co key hasked
    rw [hpc] at hserves
    exact hserves c rfl
  · intro co ct older c hwaited hpc
    refine ⟨?_, hinv.ordered co ct older hwaited⟩
    rcases hinv.last co ct older hwaited with ⟨k, hq⟩ | hraised | ⟨c', hreturned, hc'⟩
    · exact nomatch hpc.symm.trans hq
    · exact nomatch hpc.symm.trans hraised
    · exact ⟨c', Pc.returned.inj (hpc.symm.trans hreturned), hc'⟩

/-- One lookup launches the sender, and another one waits for it. -/
def twoLookups : List Event :=
  [.reload [(.name "n", .string "a:1")], .lookup "n", .lookup "n", .launched 0, .changed 0, .run 1]

theorem one_sender_two :
    ∃ t, run Traced.step Traced.init twoLookups = some t ∧ t.waited 1 = [0] ∧
      t.daemon.pc 1 = .returned (some 0) ∧ t.daemon.nodeSender "n" = some 0 ∧
      (t.daemon.entry 0).channel = some 0 := by
  have hrun : run Traced.step Traced.init twoLookups = some _ := rfl
  obtain ⟨-, -, -, hreturned, hwaited⟩ := one_sender (.of_run hrun) "n"
  obtain ⟨⟨c, hc, hchannel⟩, -⟩ := hwaited 1 0 [] (some 0) rfl rfl
  obtain rfl := Option.some.inj hc
  exact ⟨_, hrun, rfl, rfl, hreturned 1 0 rfl rfl, hchannel⟩

end TestCluster.BeeCluster.Clusterd
