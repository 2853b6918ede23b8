import TestCluster.Skynet.Gate

/-!
# Clients that are forwarded

The agent of a client tells the gate to forward the packages of its socket; only then the gate has
the socket driver read from it. From there on every package goes to the agent, until the client is
forwarded again, accepted or kicked by a command, or its socket ends.

## Main definitions

* `agentMsgsOf` — the packages of a socket that an agent got
* `GateEvent.Keeps` — the events that leave a socket with its agent
* `Forwarded` — the runs in which a socket is forwarded before its first byte, and stays

## Main results

* `Forwarded.agentMsgsOf_eq` — the agent gets the packages of the socket, and nobody else does
-/

namespace TestCluster.Skynet

open Semantics

/-- The packages of a socket that an agent got, which knows it under a name, since the socket was
closed or failed for the last time. -/
def trackAgent (fd agent client : ℕ) (msgs : List Bytes) : GateAction → List Bytes
  | .message id recipient msg =>
    if id = fd ∧ recipient = .agent agent client then msgs ++ [msg] else msgs
  | .closed id | .failed id _ | .stopped id => if id = fd then [] else msgs
  | _ => msgs

/-- The packages of a socket that an agent got. -/
def agentMsgsOf (fd agent client : ℕ) (log : List GateAction) : List Bytes :=
  log.foldl (trackAgent fd agent client) []

@[simp] theorem agentMsgsOf_concat (fd agent client : ℕ) (log : List GateAction) (a : GateAction) :
    agentMsgsOf fd agent client (log ++ [a]) =
      trackAgent fd agent client (agentMsgsOf fd agent client log) a := by
  simp [agentMsgsOf]

/-- The event leaves a socket with the agent that it is forwarded to. -/
def GateEvent.Keeps (fd : ℕ) : GateEvent → Prop
  | .socket (.accept _ ud _) => ud ≠ fd
  | .socket (.close id) | .socket (.error id _) => id ≠ fd
  | .forward _ id _ _ | .accept id | .kick id => id ≠ fd
  | .socket (.data _ _) | .socket (.connect _) | .socket (.warning _ _) => True

/-- A run in which a client that is connected is forwarded to an agent before the first byte of its
socket, and stays with it. The agent is the sender of the command, or the address in it, and knows
the socket under the name in the command, or 0. -/
structure Forwarded (socket maxclient fd agent client : ℕ) (es : List GateEvent) : Prop where
  split : ∃ (before after : List GateEvent) (source : ℕ) (name address : Option ℕ) (g : Gate),
    es = before ++ .forward source fd name address :: after ∧ address.getD source = agent ∧
      name.getD 0 = client ∧ run Gate.step (Gate.opened socket maxclient) before = some g ∧
      g.connection fd = some true ∧ bytesOf fd before = [] ∧ ∀ e ∈ after, e.Keeps fd

/-- A socket that is forwarded, with what the agent got. -/
structure Held (g : Gate) (fd agent client : ℕ) : Prop where
  connection : g.connection fd = some true
  entry : g.clients fd = some (some (agent, client))
  msgs : agentMsgsOf fd agent client g.log = msgsOf fd g.log

namespace Held

variable {g g' : Gate} {fd agent client : ℕ}

/-- What is no business of the socket. -/
theorem congr (h : Held g fd agent client) (hconnection : g'.connection fd = g.connection fd)
    (hentry : g'.clients fd = g.clients fd)
    (hmsgs : agentMsgsOf fd agent client g.log = msgsOf fd g.log →
      agentMsgsOf fd agent client g'.log = msgsOf fd g'.log) : Held g' fd agent client :=
  ⟨hconnection.trans h.connection, hentry.trans h.entry, hmsgs h.msgs⟩

/-- A package, of this socket or of another one. -/
theorem dispatchMsg (h : Held g fd agent client) {d sz : ℕ} {msg : Bytes}
    (hstep : g.dispatchMsg d msg sz = some g') : Held g' fd agent client := by
  rw [Gate.dispatchMsg] at hstep
  split_ifs at hstep with hconn
  · rw [Gate.message, Option.bind_eq_some_iff] at hstep
    obtain ⟨c, hc, hmsg⟩ := hstep
    obtain ⟨msg', -, rfl⟩ := Option.map_eq_some_iff.mp hmsg
    by_cases hd : d = fd
    · -- the entry of the client names the agent
      subst hd
      obtain rfl := Option.some.inj (hc.symm.trans h.entry)
      refine h.congr rfl rfl fun hmsgs => ?_
      simp [Gate.act, trackAgent, trackMsgs, hmsgs]
    · cases c
      all_goals
        refine h.congr rfl rfl fun hmsgs => ?_
        simp [Gate.act, trackAgent, trackMsgs, hd, hmsgs]
  · -- the client of the package is not connected, so it is another one
    obtain ⟨msg', -, rfl⟩ := Option.map_eq_some_iff.mp hstep
    have hd : d ≠ fd := by
      rintro rfl
      exact hconn h.connection
    exact h.congr rfl rfl fun hmsgs => by simp [Gate.act, trackAgent, trackMsgs, hd, hmsgs]

theorem dispatchQueue (h : Held g fd agent client) {rounds : ℕ}
    (hstep : g.dispatchQueue rounds = some g') : Held g' fd agent client := by
  induction rounds generalizing g with
  | zero => cases hstep
  | succ rounds ih =>
    rw [Gate.dispatchQueue] at hstep
    cases hpop : lpop g.queue with
    | none =>
      rw [hpop] at hstep
      obtain rfl := Option.some.inj hstep
      exact h
    | some r =>
      rw [hpop] at hstep
      obtain ⟨g₁, hmsg, hrest⟩ := Option.bind_eq_some_iff.mp hstep
      have hqueue : Held { g with queue := r.2 } fd agent client := h.congr rfl rfl id
      exact ih (hqueue.dispatchMsg hmsg) hrest

theorem openclient (h : Held g fd agent client) (d : ℕ) :
    Held (g.openclient d) fd agent client := by
  rw [Gate.openclient]
  split_ifs
  · exact h.congr rfl rfl fun hmsgs => by simpa [Gate.act, trackAgent, trackMsgs] using hmsgs
  · exact h

/-- Another client is forwarded, or accepted by a command. -/
theorem reopened (h : Held g fd agent client) {d : ℕ} (hd : d ≠ fd) (c : Option (ℕ × ℕ)) :
    Held ({ g with clients := Function.update g.clients d (some c) }.openclient d) fd agent client := by
  apply Held.openclient
  exact ⟨h.connection, (Function.update_of_ne hd.symm _ _).trans h.entry, h.msgs⟩

/-- Another socket ends. -/
theorem ended (h : Held g fd agent client) {d : ℕ} (hd : d ≠ fd) (msg : Bytes)
    (hstep : g.handle (.close d) = some g' ∨ g.handle (.error d msg) = some g') :
    Held g' fd agent client := by
  have hclosed (a : GateAction) (ha : a = .closed d ∨ a = .failed d msg) :
      Held (g.closeFd d a) fd agent client := by
    refine h.congr ?_ ?_ fun hmsgs => ?_
    · rw [Gate.closeFd_connection, Function.update_of_ne hd.symm]
    · rw [Gate.closeFd_clients, Function.update_of_ne hd.symm]
    · rw [Gate.closeFd_log]
      rcases ha with rfl | rfl <;> simpa [trackAgent, trackMsgs, hd] using hmsgs
  simp only [Gate.handle] at hstep
  by_cases hsocket : g.socket = some d
  · simp only [if_pos hsocket, Option.some.injEq] at hstep
    rcases hstep with rfl | rfl
    all_goals
      refine h.congr rfl rfl fun hmsgs => ?_
      simp only [Gate.act, agentMsgsOf_concat, Gate.msgsOf_concat, trackAgent, trackMsgs, if_neg hd,
        hmsgs]
  · simp only [if_neg hsocket, Option.some.injEq] at hstep
    rcases hstep with rfl | rfl
    · exact hclosed _ (.inl rfl)
    · exact hclosed _ (.inr rfl)

/-- Another client is accepted, or refused. -/
theorem accepted (h : Held g fd agent client) {ud : ℕ} (hd : ud ≠ fd) {msg : Bytes}
    (hstep : g.handle (.open ud msg) = some g') : Held g' fd agent client := by
  simp only [Gate.handle] at hstep
  split_ifs at hstep
  all_goals
    obtain rfl := Option.some.inj hstep
    refine h.congr ?_ ?_ fun hmsgs => by simpa [Gate.act, trackAgent, trackMsgs] using hmsgs
  · rfl
  · rfl
  · exact Function.update_of_ne hd.symm _ _
  · exact Function.update_of_ne hd.symm _ _

/-- **Step lemma.** -/
theorem step (h : Held g fd agent client) {e : GateEvent} (he : e.Keeps fd)
    (hstep : g.step e = some g') : Held g' fd agent client := by
  cases e with
  | socket m =>
    obtain ⟨r, hfilter, hhandle⟩ := Option.bind_eq_some_iff.mp hstep
    have hqueue : Held { g with queue := r.1 } fd agent client := h.congr rfl rfl id
    cases m with
    | data d buffer =>
      rcases filterData_kind hfilter with hkind | ⟨fd', msg, sz, hkind⟩ | hkind
      · rw [hkind] at hhandle
        obtain rfl := Option.some.inj hhandle
        exact hqueue
      · rw [hkind] at hhandle
        exact hqueue.dispatchMsg hhandle
      · rw [hkind] at hhandle
        exact hqueue.dispatchQueue hhandle
    | connect d =>
      obtain rfl := Option.some.inj hfilter
      obtain rfl := Option.some.inj hhandle
      exact hqueue
    | accept d ud buffer =>
      obtain rfl := Option.some.inj hfilter
      exact hqueue.accepted he hhandle
    | close d =>
      obtain rfl := Option.some.inj hfilter
      exact hqueue.ended he [] (.inl hhandle)
    | error d buffer =>
      obtain rfl := Option.some.inj hfilter
      exact hqueue.ended he buffer (.inr hhandle)
    | warning d ud =>
      obtain rfl := Option.some.inj hfilter
      obtain rfl := Option.some.inj hhandle
      exact hqueue.congr rfl rfl fun hmsgs => by
        simpa [Gate.act, trackAgent, trackMsgs] using hmsgs
  | forward source d name address =>
    rw [Gate.step] at hstep
    split_ifs at hstep
    · obtain rfl := Option.some.inj hstep
      exact h
    · obtain rfl := Option.some.inj hstep
      exact h.reopened he _
  | accept d =>
    rw [Gate.step] at hstep
    split_ifs at hstep
    · obtain rfl := Option.some.inj hstep
      exact h
    · obtain rfl := Option.some.inj hstep
      exact h.reopened he none
  | kick d =>
    rw [Gate.step] at hstep
    split_ifs at hstep
    · obtain rfl := Option.some.inj hstep
      refine h.congr (Function.update_of_ne (Ne.symm he) _ _) rfl fun hmsgs => ?_
      simpa [Gate.act, trackAgent, trackMsgs] using hmsgs
    · obtain rfl := Option.some.inj hstep
      exact h

theorem run {es : List GateEvent} (h : Held g fd agent client) (hes : ∀ e ∈ es, e.Keeps fd)
    (hrun : Semantics.run Gate.step g es = some g') : Held g' fd agent client := by
  induction es generalizing g with
  | nil =>
    obtain rfl := Option.some.inj hrun
    exact h
  | cons e es ih =>
    obtain ⟨he, hes⟩ := List.forall_mem_cons.mp hes
    rw [run_cons, Option.bind_eq_some_iff] at hrun
    obtain ⟨g₁, hstep, hrest⟩ := hrun
    exact ih (h.step he hstep) hes hrest

end Held

/-- What an agent got of a socket is among the packages of the socket. -/
theorem agentMsgsOf_sublist (fd agent client : ℕ) (log : List GateAction) :
    (agentMsgsOf fd agent client log).Sublist (msgsOf fd log) := by
  induction log using List.reverseRecOn with
  | nil => exact .refl _
  | append_singleton log a ih =>
    rw [agentMsgsOf_concat, Gate.msgsOf_concat]
    cases a with
    | message id recipient msg =>
      simp only [trackAgent, trackMsgs]
      by_cases hid : id = fd
      · rw [if_pos hid]
        split_ifs
        · exact ih.append (.refl _)
        · exact ih.trans (List.sublist_append_left _ _)
      · rw [if_neg hid, if_neg fun h => hid h.1]
        exact ih
    | closed id | failed id msg | stopped id =>
      simp only [trackAgent, trackMsgs]
      split_ifs
      · exact .refl _
      · exact ih
    | opened id addr | warned id size | driverStart id | driverClose id => exact ih

/-- **The packages of a client that is forwarded go to its agent.** -/
theorem Forwarded.agentMsgsOf_eq {socket maxclient fd agent client : ℕ} {es : List GateEvent}
    (h : Forwarded socket maxclient fd agent client es) (hproper : ∀ e ∈ es, e.Proper) {g : Gate}
    (hrun : run Gate.step (Gate.opened socket maxclient) es = some g) :
    agentMsgsOf fd agent client g.log = msgsOf fd g.log := by
  obtain ⟨before, after, source, name, address, g₀, rfl, rfl, rfl, hbefore, hconn, hbytes, hkeeps⟩ :=
    h.split
  -- before the first byte there is no package of the socket
  obtain ⟨g₁, hrun₁, hinv⟩ := (GateInv.opened socket maxclient).run fun e he =>
    hproper e (List.mem_append_left _ he)
  obtain rfl := Option.some.inj (hrun₁.symm.trans hbefore)
  have hcuts := hinv.cuts fd
  rw [show before.foldl (trackBytes fd) [] = bytesOf fd before from rfl, hbytes] at hcuts
  have hnone : msgsOf fd g₁.log = [] := (hcuts.unique (.rest (.inl Nat.zero_lt_two))).1
  rw [run_append, hbefore, Option.bind_some, run_cons, Gate.step, if_neg (hinv.known fd hconn),
    Option.bind_some] at hrun
  -- the agent gets what comes from now on, and got nothing before
  have hsub := agentMsgsOf_sublist fd (address.getD source) (name.getD 0) g₁.log
  rw [hnone] at hsub
  let c : Option (ℕ × ℕ) := some (address.getD source, name.getD 0)
  have hheld : Held { g₁ with clients := Function.update g₁.clients fd (some c) } fd
      (address.getD source) (name.getD 0) :=
    ⟨hconn, Function.update_self _ _ _, (List.sublist_nil.mp hsub).trans hnone.symm⟩
  exact ((hheld.openclient fd).run hkeeps hrun).msgs

end TestCluster.Skynet
