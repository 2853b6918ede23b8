import Mathlib.Data.List.Count
import Mathlib.Logic.Function.Basic
import Mathlib.Tactic.SplitIfs
import TestCluster.Semantics.Machine
import TestCluster.Semantics.Table

/-!
# The agents of the cluster daemon

`command.socket` of `bee_clusterd.lua`. For each socket that the gate accepts an agent is
launched, and the launch yields; so the gate can report the end of the socket before the agent
is there, and the launch can raise.

## Main definitions

* `AgentTable` — `cluster_agent`
* `AgentTable.opened`, `AgentTable.launched`, `AgentTable.closed` — `command.socket` between
  two yields
* `Sockets.step` — what the gate and the launcher report
* `Sockets.LifeCycle` — the entries and the exit messages are as they should be

## Main results

* `Sockets.Inv.step` — every report keeps the invariant
* `Sockets.life_cycle_iff` — they are so in exactly the states in which no launch has raised
-/

namespace TestCluster.BeeCluster

open Semantics

/-! ### The table -/

/-- An entry of `cluster_agent`: `false`, or `true` after the socket has ended, until the agent
is there, and then its address. -/
inductive AgentEntry
  | launching (closed : Bool)
  | agent (addr : ℕ)
  deriving DecidableEq, Repr

/-- What `if` makes of an entry. -/
def truthy : Option AgentEntry → Bool
  | none => false
  | some (.launching closed) => closed
  | some (.agent _) => true

/-- `cluster_agent`. -/
abbrev AgentTable := ℕ → Option AgentEntry

namespace AgentTable

variable (t : AgentTable)

/-- A socket is opened, and the launch of its agent begins. -/
def opened (fd : ℕ) : AgentTable := Function.update t fd (some (.launching false))

/-- The agent has been launched. An agent that is not needed any more is sent an exit message. -/
def launched (fd agent : ℕ) : AgentTable × List ℕ :=
  if truthy (t fd) then (Function.update t fd none, [agent])
  else (Function.update t fd (some (.agent agent)), [])

/-- The socket has ended, or failed. -/
def closed (fd : ℕ) : AgentTable × List ℕ :=
  match t fd with
  -- the agent is not known yet; the end is recorded for when it is
  | some (.launching _) => (Function.update t fd (some (.launching true)), [])
  | some (.agent agent) => (Function.update t fd none, [agent])
  | none => (t, [])

end AgentTable

/-! ### Reports -/

/-- A socket of the gate. -/
inductive GateSocket
  | unopened
  | opened
  | closed
  deriving DecidableEq, Repr

/-- The launch of the agent of a socket. -/
inductive Launch
  | notBegun
  | pending
  | done (agent : ℕ)
  | raised
  deriving DecidableEq, Repr

/-- The table, the sockets, their launches, the agents that were launched, and the agents that
were sent an exit message. -/
structure Sockets where
  clusterAgent : AgentTable
  gate : ℕ → GateSocket
  launch : ℕ → Launch
  agents : List ℕ
  exits : List ℕ

/-- What `command.socket` is told by the gate, and how its call of `skynet.newservice` ends. -/
inductive SocketEvent
  | open (fd : ℕ)
  | close (fd : ℕ)
  | error (fd : ℕ)
  | warning (fd : ℕ)
  | launched (fd agent : ℕ)
  | raised (fd : ℕ)
  deriving DecidableEq, Repr

namespace Sockets

/-- No socket was opened. -/
def init : Sockets where
  clusterAgent _ := none
  gate _ := .unopened
  launch _ := .notBegun
  agents := []
  exits := []

variable (s : Sockets)

/-- A socket is opened. -/
def openSocket (fd : ℕ) : Sockets :=
  { s with
    clusterAgent := s.clusterAgent.opened fd
    gate := Function.update s.gate fd .opened
    launch := Function.update s.launch fd .pending }

/-- A socket has ended. -/
def closeSocket (fd : ℕ) : Sockets :=
  { s with
    clusterAgent := (s.clusterAgent.closed fd).1
    gate := Function.update s.gate fd .closed
    exits := s.exits ++ (s.clusterAgent.closed fd).2 }

/-- The agent of a socket has been launched. -/
def launchedAgent (fd agent : ℕ) : Sockets :=
  { s with
    clusterAgent := (s.clusterAgent.launched fd agent).1
    launch := Function.update s.launch fd (.done agent)
    agents := s.agents ++ [agent]
    exits := s.exits ++ (s.clusterAgent.launched fd agent).2 }

/-- One report. A socket number is not opened twice, and a new service has a new address. -/
def step (s : Sockets) : SocketEvent → Option Sockets
  | .open fd => if s.gate fd = .unopened then some (s.openSocket fd) else none
  | .close fd => if s.gate fd = .unopened then none else some (s.closeSocket fd)
  | .error fd => if s.gate fd = .unopened then none else some (s.closeSocket fd)
  | .warning fd => if s.gate fd = .unopened then none else some s
  | .launched fd agent =>
    if s.launch fd = .pending ∧ agent ∉ s.agents then some (s.launchedAgent fd agent) else none
  | .raised fd =>
    -- the error ends the coroutine
    if s.launch fd = .pending then some { s with launch := Function.update s.launch fd .raised }
    else none

/-- The socket is open, and its agent was launched. -/
def Serves (fd agent : ℕ) : Prop := s.gate fd = .opened ∧ s.launch fd = .done agent

/-- The entry of a socket is the address of its agent while the agent serves it, and `nil`
otherwise. -/
def Entered (fd : ℕ) : Prop :=
  (∀ agent, s.Serves fd agent → s.clusterAgent fd = some (.agent agent)) ∧
    ((∀ agent, ¬ s.Serves fd agent) → s.clusterAgent fd = none)

/-- The agents of the sockets that have ended, and no others, were sent one exit message. -/
def ExitedOnce : Prop :=
  (∀ fd agent, s.launch fd = .done agent → s.gate fd = .closed → s.exits.count agent = 1) ∧
    ∀ agent, (∀ fd, s.launch fd = .done agent → s.gate fd ≠ .closed) → s.exits.count agent = 0

/-- The entries and the exit messages are as they should be, where no launch is pending. -/
def LifeCycle : Prop := (∀ fd, s.launch fd ≠ .pending → s.Entered fd) ∧ s.ExitedOnce

/-! ### The invariant -/

/-- How far a socket has come: its agent is being launched, whether the launch will end or has
raised, or the agent serves it, or the agent was told to exit. -/
inductive EntryInv (fd : ℕ) : Prop
  | notBegun (hlaunch : s.launch fd = .notBegun) (hgate : s.gate fd = .unopened)
      (hentry : s.clusterAgent fd = none)
  | launching (closed : Bool) (hlaunch : s.launch fd = .pending ∨ s.launch fd = .raised)
      (hgate : s.gate fd = if closed then .closed else .opened)
      (hentry : s.clusterAgent fd = some (.launching closed))
  | serving {agent : ℕ} (hlaunch : s.launch fd = .done agent) (hgate : s.gate fd = .opened)
      (hentry : s.clusterAgent fd = some (.agent agent)) (hexits : s.exits.count agent = 0)
  | exited {agent : ℕ} (hlaunch : s.launch fd = .done agent) (hgate : s.gate fd = .closed)
      (hentry : s.clusterAgent fd = none) (hexits : s.exits.count agent = 1)

/-- The invariant of the table. -/
structure Inv : Prop where
  entries : ∀ fd, s.EntryInv fd
  launched : ∀ fd agent, s.launch fd = .done agent → agent ∈ s.agents
  own : ∀ fd fd' agent, s.launch fd = .done agent → s.launch fd' = .done agent → fd = fd'
  others : ∀ agent, (∀ fd, s.launch fd ≠ .done agent) → s.exits.count agent = 0

variable {s} {s' : Sockets} {fd fd' agent : ℕ}

theorem inv_init : Inv init where
  entries _ := .notBegun rfl rfl rfl
  launched _ _ h := nomatch h
  own _ _ _ h := nomatch h
  others _ _ := rfl

/-- A socket for which nothing has changed. -/
theorem EntryInv.congr (h : s.EntryInv fd) (hentry : s'.clusterAgent fd = s.clusterAgent fd)
    (hgate : s'.gate fd = s.gate fd) (hlaunch : s'.launch fd = s.launch fd)
    (hexits : ∀ agent, s.launch fd = .done agent → s'.exits.count agent = s.exits.count agent) :
    s'.EntryInv fd := by
  cases h with
  | notBegun hl hg he => exact .notBegun (hlaunch.trans hl) (hgate.trans hg) (hentry.trans he)
  | launching closed hl hg he =>
    rw [← hlaunch] at hl
    exact .launching closed hl (hgate.trans hg) (hentry.trans he)
  | serving hl hg he hcount =>
    exact .serving (hlaunch.trans hl) (hgate.trans hg) (hentry.trans he)
      ((hexits _ hl).trans hcount)
  | exited hl hg he hcount =>
    exact .exited (hlaunch.trans hl) (hgate.trans hg) (hentry.trans he) ((hexits _ hl).trans hcount)

/-- A socket that was not opened has no entry, and its agent is not launched. -/
theorem EntryInv.of_unopened (h : s.EntryInv fd) (hgate : s.gate fd = .unopened) :
    s.launch fd = .notBegun ∧ s.clusterAgent fd = none := by
  cases h with
  | notBegun hl _ he => exact ⟨hl, he⟩
  | launching closed _ hg _ => cases closed <;> exact nomatch hg.symm.trans hgate
  | serving _ hg _ _ => exact nomatch hg.symm.trans hgate
  | exited _ hg _ _ => exact nomatch hg.symm.trans hgate

/-- While the launch is pending, the entry tells whether the socket has ended. -/
theorem EntryInv.of_pending (h : s.EntryInv fd) (hpending : s.launch fd = .pending) :
    ∃ closed, s.gate fd = (if closed then .closed else .opened) ∧
      s.clusterAgent fd = some (.launching closed) := by
  cases h with
  | notBegun hl _ _ => exact nomatch hl.symm.trans hpending
  | launching closed _ hg he => exact ⟨closed, hg, he⟩
  | serving hl _ _ _ => exact nomatch hl.symm.trans hpending
  | exited hl _ _ _ => exact nomatch hl.symm.trans hpending

/-- Once the launch is done, the agent was told exactly if its socket has ended. -/
theorem EntryInv.of_done (h : s.EntryInv fd) (hdone : s.launch fd = .done agent) :
    s.gate fd = .opened ∧ s.exits.count agent = 0 ∨
      s.gate fd = .closed ∧ s.exits.count agent = 1 := by
  cases h with
  | notBegun hl _ _ => exact nomatch hl.symm.trans hdone
  | launching _ hl _ _ =>
    rcases hl with hl | hl
    · exact nomatch hl.symm.trans hdone
    · exact nomatch hl.symm.trans hdone
  | serving hl hg _ hexits =>
    obtain rfl := Launch.done.inj (hl.symm.trans hdone)
    exact .inl ⟨hg, hexits⟩
  | exited hl hg _ hexits =>
    obtain rfl := Launch.done.inj (hl.symm.trans hdone)
    exact .inr ⟨hg, hexits⟩

/-- The entry is a boolean only while the launch is pending, or after it has raised. -/
theorem EntryInv.of_launching {closed : Bool} (h : s.EntryInv fd)
    (hentry : s.clusterAgent fd = some (.launching closed)) :
    s.launch fd = .pending ∨ s.launch fd = .raised := by
  cases h with
  | notBegun _ _ he => exact nomatch he.symm.trans hentry
  | launching _ hl _ _ => exact hl
  | serving _ _ he _ => exact nomatch he.symm.trans hentry
  | exited _ _ he _ => exact nomatch he.symm.trans hentry

/-- The end of a socket leaves the entries of the others as they are. -/
theorem closed_of_ne {t : AgentTable} (hfd : fd' ≠ fd) : (t.closed fd).1 fd' = t fd' := by
  unfold AgentTable.closed
  split
  · exact Function.update_of_ne hfd ..
  · exact Function.update_of_ne hfd ..
  · rfl

theorem launched_of_truthy {t : AgentTable} (h : truthy (t fd) = true) :
    t.launched fd agent = (Function.update t fd none, [agent]) := if_pos h

theorem launched_of_not {t : AgentTable} (h : ¬ truthy (t fd) = true) :
    t.launched fd agent = (Function.update t fd (some (.agent agent)), []) := if_neg h

theorem launched_of_ne {t : AgentTable} (hfd : fd' ≠ fd) :
    (t.launched fd agent).1 fd' = t fd' := by
  unfold AgentTable.launched
  split_ifs
  · exact Function.update_of_ne hfd ..
  · exact Function.update_of_ne hfd ..

/-- Only the agent of the socket is sent a message. -/
theorem count_closed {t : AgentTable} (hagent : t fd ≠ some (.agent agent)) :
    (t.closed fd).2.count agent = 0 := by
  unfold AgentTable.closed
  split
  case h_1 => rfl
  case h_2 agent' hentry =>
    apply List.count_eq_zero_of_not_mem
    intro hin
    obtain rfl := List.mem_singleton.mp hin
    exact hagent hentry
  case h_3 => rfl

theorem count_launched {t : AgentTable} {agent' : ℕ} (hagent : agent' ≠ agent) :
    (t.launched fd agent).2.count agent' = 0 := by
  unfold AgentTable.launched
  split_ifs
  · exact List.count_eq_zero_of_not_mem fun hin => hagent (List.mem_singleton.mp hin)
  · rfl

/-- What a report can do: every case of `step`, with what it needs of the state. -/
inductive StepCase (s : Sockets) : SocketEvent → Sockets → Prop
  | «open» {fd : ℕ} (hgate : s.gate fd = .unopened) : StepCase s (.open fd) (s.openSocket fd)
  | close {fd : ℕ} (hgate : s.gate fd ≠ .unopened) : StepCase s (.close fd) (s.closeSocket fd)
  | error {fd : ℕ} (hgate : s.gate fd ≠ .unopened) : StepCase s (.error fd) (s.closeSocket fd)
  | warning {fd : ℕ} (hgate : s.gate fd ≠ .unopened) : StepCase s (.warning fd) s
  | launched {fd agent : ℕ} (hlaunch : s.launch fd = .pending) (hnew : agent ∉ s.agents) :
      StepCase s (.launched fd agent) (s.launchedAgent fd agent)
  | raised {fd : ℕ} (hlaunch : s.launch fd = .pending) :
      StepCase s (.raised fd) { s with launch := Function.update s.launch fd .raised }

theorem stepCase_of_step {e : SocketEvent} (hs : s.step e = some s') : StepCase s e s' := by
  cases e with
  | «open» fd =>
    obtain ⟨hgate, hs⟩ := Option.ite_none_right_eq_some.mp hs
    obtain rfl := Option.some.inj hs
    exact .open hgate
  | close fd =>
    obtain ⟨hgate, hs⟩ := Option.ite_none_left_eq_some.mp hs
    obtain rfl := Option.some.inj hs
    exact .close hgate
  | error fd =>
    obtain ⟨hgate, hs⟩ := Option.ite_none_left_eq_some.mp hs
    obtain rfl := Option.some.inj hs
    exact .error hgate
  | warning fd =>
    obtain ⟨hgate, hs⟩ := Option.ite_none_left_eq_some.mp hs
    obtain rfl := Option.some.inj hs
    exact .warning hgate
  | launched fd agent =>
    obtain ⟨⟨hlaunch, hnew⟩, hs⟩ := Option.ite_none_right_eq_some.mp hs
    obtain rfl := Option.some.inj hs
    exact .launched hlaunch hnew
  | raised fd =>
    obtain ⟨hlaunch, hs⟩ := Option.ite_none_right_eq_some.mp hs
    obtain rfl := Option.some.inj hs
    exact .raised hlaunch

/-- What a report does to a launch: it begins, ends or raises, or the report is about something
else. -/
theorem launch_of_step {e : SocketEvent} (hs : s.step e = some s') (fd : ℕ) :
    s'.launch fd = s.launch fd ∨ (e = .open fd ∧ s'.launch fd = .pending) ∨
      (∃ agent, e = .launched fd agent ∧ s'.launch fd = .done agent) ∨
      (e = .raised fd ∧ s'.launch fd = .raised) := by
  have hother : ∀ {fd' l}, fd ≠ fd' → Function.update s.launch fd' l fd = s.launch fd :=
    fun hfd => Function.update_of_ne hfd ..
  cases stepCase_of_step hs with
  | @«open» fd' =>
    by_cases hfd : fd = fd'
    · subst hfd
      exact .inr (.inl ⟨rfl, Function.update_self ..⟩)
    · exact .inl (hother hfd)
  | close => exact .inl rfl
  | error => exact .inl rfl
  | warning => exact .inl rfl
  | @launched fd' agent =>
    by_cases hfd : fd = fd'
    · subst hfd
      exact .inr (.inr (.inl ⟨agent, rfl, Function.update_self ..⟩))
    · exact .inl (hother hfd)
  | @raised fd' =>
    by_cases hfd : fd = fd'
    · subst hfd
      exact .inr (.inr (.inr ⟨rfl, Function.update_self ..⟩))
    · exact .inl (hother hfd)

namespace Inv

/-- The launch of the agent in an entry is done. -/
theorem done_of_entry (h : s.Inv) (hagent : s.clusterAgent fd = some (.agent agent)) :
    s.launch fd = .done agent := by
  cases h.entries fd with
  | notBegun _ _ he => exact nomatch he.symm.trans hagent
  | launching _ _ _ he => exact nomatch he.symm.trans hagent
  | serving hl _ he _ =>
    obtain rfl := AgentEntry.agent.inj (Option.some.inj (he.symm.trans hagent))
    exact hl
  | exited _ _ he _ => exact nomatch he.symm.trans hagent

/-! ### Reports keep the invariant -/

/-- Changing a launch that is not done takes no agent away. -/
theorem not_done_of_update {l : Launch} (hnotDone : ∀ agent, s.launch fd ≠ .done agent)
    (hnone : ∀ fd', Function.update s.launch fd l fd' ≠ .done agent) (fd' : ℕ) :
    s.launch fd' ≠ .done agent := by
  by_cases hfd : fd' = fd
  · subst hfd
    exact hnotDone agent
  · rw [← Function.update_of_ne hfd l s.launch]
    exact hnone fd'

/-- A launch without an agent changes into another one without: the agents are as they were. -/
theorem of_not_done (h : s.Inv) {l : Launch} (hlaunch : s'.launch = Function.update s.launch fd l)
    (hagents : s'.agents = s.agents) (hexits : s'.exits = s.exits)
    (hold : ∀ agent, s.launch fd ≠ .done agent) (hnew : ∀ agent, l ≠ .done agent)
    (hentries : ∀ fd', s'.EntryInv fd') : s'.Inv := by
  have hdone : ∀ {fd' agent}, s'.launch fd' = .done agent → s.launch fd' = .done agent := by
    intro fd' agent hl
    rw [hlaunch] at hl
    rcases update_cases hl with ⟨-, hl⟩ | ⟨-, hl⟩
    · exact absurd hl (hnew agent)
    · exact hl
  refine ⟨hentries, ?_, ?_, ?_⟩
  · intro fd' agent hl
    rw [hagents]
    exact h.launched fd' agent (hdone hl)
  · intro fd₁ fd₂ agent h₁ h₂
    exact h.own fd₁ fd₂ agent (hdone h₁) (hdone h₂)
  · intro agent hnone
    rw [hlaunch] at hnone
    rw [hexits]
    exact h.others agent (not_done_of_update hold hnone)

theorem openSocket (h : s.Inv) (hgate : s.gate fd = .unopened) : (s.openSocket fd).Inv := by
  have hnotDone : ∀ agent, s.launch fd ≠ .done agent := by
    intro agent hl
    exact nomatch ((h.entries fd).of_unopened hgate).1.symm.trans hl
  have hpending : (s.openSocket fd).launch fd = .pending := Function.update_self ..
  refine h.of_not_done rfl rfl rfl hnotDone (fun _ hl => nomatch hl) fun fd' => ?_
  by_cases hfd : fd' = fd
  · subst hfd
    exact .launching false (Or.inl hpending) (Function.update_self ..) (Function.update_self ..)
  · exact (h.entries fd').congr (Function.update_of_ne hfd ..) (Function.update_of_ne hfd ..)
      (Function.update_of_ne hfd ..) fun _ _ => rfl

theorem closeSocket (h : s.Inv) (hgate : s.gate fd ≠ .unopened) : (s.closeSocket fd).Inv := by
  have hcount : ∀ {agent}, s.clusterAgent fd ≠ some (.agent agent) →
      (s.closeSocket fd).exits.count agent = s.exits.count agent := by
    intro agent hagent
    show (s.exits ++ _).count agent = _
    rw [List.count_append, count_closed hagent, Nat.add_zero]
  refine ⟨?_, h.launched, h.own, ?_⟩
  · intro fd'
    by_cases hfd : fd' = fd
    · subst hfd
      have hclosed : (s.closeSocket fd').gate fd' = .closed := Function.update_self ..
      cases h.entries fd' with
      | notBegun _ hg _ => exact absurd hg hgate
      | launching closed hl _ he =>
        -- the entry becomes `true`, and no agent is told
        refine .launching true hl hclosed ?_
        show (s.clusterAgent.closed fd').1 fd' = _
        rw [AgentTable.closed, he]
        exact Function.update_self ..
      | @serving agent hl _ he hexits =>
        refine .exited hl hclosed ?_ ?_
        · show (s.clusterAgent.closed fd').1 fd' = _
          rw [AgentTable.closed, he]
          exact Function.update_self ..
        · show (s.exits ++ (s.clusterAgent.closed fd').2).count agent = 1
          rw [AgentTable.closed, he, List.count_append, hexits]
          rw [List.count_singleton_self]
      | @exited agent hl _ he hexits =>
        refine .exited hl hclosed ?_ ?_
        · show (s.clusterAgent.closed fd').1 fd' = _
          rw [AgentTable.closed, he]
          exact he
        · rw [hcount (by rw [he]; exact fun heq => nomatch heq), hexits]
    · refine (h.entries fd').congr (closed_of_ne hfd) (Function.update_of_ne hfd ..) rfl ?_
      intro agent hl
      apply hcount
      intro hentry
      exact hfd (h.own fd' fd agent hl (h.done_of_entry hentry))
  · intro agent hnone
    rw [hcount fun hentry => hnone fd (h.done_of_entry hentry)]
    exact h.others agent hnone

theorem launchedAgent (h : s.Inv) (hpending : s.launch fd = .pending) (hnew : agent ∉ s.agents) :
    (s.launchedAgent fd agent).Inv := by
  have hself : (s.launchedAgent fd agent).launch fd = .done agent := Function.update_self ..
  have hother : ∀ {fd'}, fd' ≠ fd → (s.launchedAgent fd agent).launch fd' = s.launch fd' :=
    fun hfd => Function.update_of_ne hfd ..
  have hcount : ∀ {agent'}, agent' ≠ agent →
      (s.launchedAgent fd agent).exits.count agent' = s.exits.count agent' := by
    intro agent' hagent
    show (s.exits ++ _).count agent' = _
    rw [List.count_append, count_launched hagent, Nat.add_zero]
  have hne : ∀ {fd' agent'}, s.launch fd' = .done agent' → agent' ≠ agent := by
    rintro fd' agent' hl rfl
    exact hnew (h.launched fd' agent' hl)
  have hfresh : ∀ fd', s.launch fd' ≠ .done agent := fun fd' hl => hne hl rfl
  refine ⟨?_, ?_, ?_, ?_⟩
  · intro fd'
    by_cases hfd : fd' = fd
    · subst hfd
      obtain ⟨closed, hg, he⟩ := (h.entries fd').of_pending hpending
      cases closed with
      | false =>
        have hlaunched := @launched_of_not fd' agent s.clusterAgent (by rw [he]; decide)
        refine .serving hself hg ?_ ?_
        · show (s.clusterAgent.launched fd' agent).1 fd' = _
          rw [hlaunched]
          exact Function.update_self ..
        · show (s.exits ++ (s.clusterAgent.launched fd' agent).2).count agent = 0
          rw [hlaunched, List.count_append, h.others agent hfresh, List.count_nil]
      | true =>
        -- the socket has ended meanwhile: the new agent is told at once
        have hlaunched := @launched_of_truthy fd' agent s.clusterAgent (by rw [he]; decide)
        refine .exited hself hg ?_ ?_
        · show (s.clusterAgent.launched fd' agent).1 fd' = _
          rw [hlaunched]
          exact Function.update_self ..
        · show (s.exits ++ (s.clusterAgent.launched fd' agent).2).count agent = 1
          rw [hlaunched, List.count_append, h.others agent hfresh, List.count_singleton_self]
    · exact (h.entries fd').congr (launched_of_ne hfd) rfl (hother hfd)
        fun agent' hl => hcount (hne hl)
  · intro fd' agent' hl
    rcases update_cases hl with ⟨-, hlaunched⟩ | ⟨-, hold⟩
    · obtain rfl := Launch.done.inj hlaunched
      exact List.mem_append_right _ List.mem_cons_self
    · exact List.mem_append_left _ (h.launched fd' agent' hold)
  · intro fd₁ fd₂ agent' h₁ h₂
    rcases update_cases h₁ with ⟨rfl, hlaunched⟩ | ⟨-, hold₁⟩
    · obtain rfl := Launch.done.inj hlaunched
      rcases update_cases h₂ with ⟨hfd, -⟩ | ⟨-, hold₂⟩
      · exact hfd.symm
      · exact absurd rfl (hne hold₂)
    · rcases update_cases h₂ with ⟨rfl, hlaunched⟩ | ⟨-, hold₂⟩
      · obtain rfl := Launch.done.inj hlaunched
        exact absurd rfl (hne hold₁)
      · exact h.own fd₁ fd₂ agent' hold₁ hold₂
  · intro agent' hnone
    have hnotDone : ∀ agent', s.launch fd ≠ .done agent' := by
      intro agent' hl
      exact nomatch hl.symm.trans hpending
    rw [hcount]
    · exact h.others agent' (not_done_of_update hnotDone hnone)
    · rintro rfl
      exact hnone fd hself

theorem raised (h : s.Inv) (hpending : s.launch fd = .pending) :
    Inv { s with launch := Function.update s.launch fd .raised } := by
  have hnotDone : ∀ agent, s.launch fd ≠ .done agent := by
    intro agent hl
    exact nomatch hl.symm.trans hpending
  have hself : Function.update s.launch fd .raised fd = .raised := Function.update_self ..
  refine h.of_not_done rfl rfl rfl hnotDone (fun _ hl => nomatch hl) fun fd' => ?_
  by_cases hfd : fd' = fd
  · subst hfd
    obtain ⟨closed, hg, he⟩ := (h.entries fd').of_pending hpending
    exact .launching closed (Or.inr hself) hg he
  · exact (h.entries fd').congr rfl rfl (Function.update_of_ne hfd ..) fun _ _ => rfl

/-- **Every report keeps the invariant.** -/
theorem step (h : s.Inv) {e : SocketEvent} (hs : s.step e = some s') : s'.Inv := by
  cases stepCase_of_step hs with
  | «open» hgate => exact h.openSocket hgate
  | close hgate => exact h.closeSocket hgate
  | error hgate => exact h.closeSocket hgate
  | warning => exact h
  | launched hlaunch hnew => exact h.launchedAgent hlaunch hnew
  | raised hlaunch => exact h.raised hlaunch

/-! ### The life cycle -/

theorem exitedOnce (h : s.Inv) : s.ExitedOnce := by
  constructor
  · intro fd agent hl hg
    rcases (h.entries fd).of_done hl with ⟨hg', -⟩ | ⟨-, hexits⟩
    · exact nomatch hg'.symm.trans hg
    · exact hexits
  · intro agent hopen
    by_cases hagent : ∃ fd, s.launch fd = .done agent
    · obtain ⟨fd, hl⟩ := hagent
      rcases (h.entries fd).of_done hl with ⟨-, hexits⟩ | ⟨hg', -⟩
      · exact hexits
      · exact absurd hg' (hopen fd hl)
    · -- the agent of no socket has been sent nothing
      exact h.others agent fun fd hl => hagent ⟨fd, hl⟩

/-- An entry is as it should be exactly if the launch has not raised. -/
theorem entered_iff (h : s.Inv) (hpending : s.launch fd ≠ .pending) :
    s.Entered fd ↔ s.launch fd ≠ .raised := by
  cases h.entries fd with
  | notBegun hl hg he =>
    refine iff_of_true ⟨?_, fun _ => he⟩ ?_
    · exact fun agent hserves => nomatch hg.symm.trans hserves.1
    · exact fun hraised => nomatch hl.symm.trans hraised
  | launching closed hl hg he =>
    -- the launch has raised, and has left its entry
    have hraised := hl.resolve_left hpending
    refine iff_of_false ?_ fun hne => hne hraised
    rintro ⟨-, hnone⟩
    refine nomatch he.symm.trans (hnone fun agent hserves => ?_)
    exact nomatch hraised.symm.trans hserves.2
  | serving hl hg he _ =>
    refine iff_of_true ⟨?_, fun hnone => absurd ⟨hg, hl⟩ (hnone _)⟩ ?_
    · intro agent hserves
      obtain rfl := Launch.done.inj (hl.symm.trans hserves.2)
      exact he
    · exact fun hraised => nomatch hl.symm.trans hraised
  | exited hl hg he _ =>
    refine iff_of_true ⟨?_, fun _ => he⟩ ?_
    · exact fun agent hserves => nomatch hg.symm.trans hserves.1
    · exact fun hraised => nomatch hl.symm.trans hraised

end Inv

/-- **The entries and the exit messages are as they should be** in exactly the states, of any
run, in which no launch has raised. -/
theorem life_cycle_iff (h : Reachable step anyStep init s) :
    s.LifeCycle ↔ ∀ fd, s.launch fd ≠ .raised := by
  have hinv : s.Inv := h.invariant inv_init fun _ _ _ hinv _ hs => hinv.step hs
  constructor
  · rintro ⟨hentered, -⟩ fd
    by_cases hpending : s.launch fd = .pending
    · rw [hpending]
      exact fun heq => nomatch heq
    · exact (hinv.entered_iff hpending).mp (hentered fd hpending)
  · intro hraised
    exact ⟨fun fd hpending => (hinv.entered_iff hpending).mpr (hraised fd), hinv.exitedOnce⟩

/-- A socket ends while its agent is launched; the agent of another one serves it. -/
theorem life_cycle_iff_exited :
    ∃ s, run step init [.open 7, .close 7, .open 8, .launched 8 3, .launched 7 4] = some s ∧
      s.exits = [4] ∧ (s.LifeCycle ↔ ∀ fd, s.launch fd ≠ .raised) := by
  have hrun : run step init [.open 7, .close 7, .open 8, .launched 8 3, .launched 7 4] = some _ :=
    rfl
  exact ⟨_, hrun, rfl, life_cycle_iff (.of_run hrun)⟩

/-- The gate drops a connection before the agent asks for it, so the launch raises, and the
entry remains. -/
theorem not_life_cycle : ∃ s, Reachable step anyStep init s ∧ s.gate 7 = .closed ∧
    s.launch 7 = .raised ∧ s.clusterAgent 7 = some (.launching true) ∧ ¬ s.LifeCycle := by
  have hrun : run step init [.open 7, .close 7, .raised 7] = some _ := rfl
  refine ⟨_, .of_run hrun, rfl, rfl, rfl, ?_⟩
  rintro ⟨hentered, -⟩
  exact nomatch (hentered 7 (by decide)).2 fun agent hserves => nomatch hserves.1

end Sockets

end TestCluster.BeeCluster
