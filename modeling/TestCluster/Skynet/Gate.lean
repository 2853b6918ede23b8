import Mathlib.Data.Finset.Card
import TestCluster.Semantics.Machine
import TestCluster.Skynet.Netpack

/-!
# The gate

The gate (`gateserver.lua` and `gate.lua`) accepts clients up to a maximum, cuts their bytes into
packages and passes each package on, to the agent of the client or to the watchdog. None of this
blocks, so a message of the socket thread is handled before the next one comes.

## Main definitions

* `Gate`, `Gate.step` — the state, and what is done for a message or a command
* `bytesOf`, `msgsOf` — the bytes that came from a socket, and the packages that were handled

## Main results

* `packages_exact` — the packages that are handled are the ones in the bytes that came
* `clients_counted` — the number of clients is right, and is at most the maximum
-/

namespace TestCluster.Skynet

open Semantics

/-- Who gets a package: the agent that a client is forwarded to, with the name of the client, or the
watchdog; nobody if the client is not connected. -/
inductive Recipient
  | agent (agent client : ℕ)
  | watchdog
  | nobody
deriving DecidableEq

/-- What the gate does for others to see: what it passes on, and its calls of the socket driver;
`stopped` stands for the end of the socket it listens on. -/
inductive GateAction
  | message (fd : ℕ) (recipient : Recipient) (msg : Bytes)
  | opened (fd : ℕ) (addr : Bytes)
  | closed (fd : ℕ)
  | failed (fd : ℕ) (msg : Bytes)
  | warned (fd size : ℕ)
  | stopped (fd : ℕ)
  | driverStart (fd : ℕ)
  | driverClose (fd : ℕ)
deriving DecidableEq

/-- The state of `gateserver.lua` and of `gate.lua`, whose table has the agent of a client with the
name under which the client is known to it; and what was done so far. -/
structure Gate where
  queue : Option NetQueue := none
  socket : Option ℕ
  maxclient : ℕ
  clientNumber : ℤ := 0
  connection : ℕ → Option Bool := fun _ => none
  clients : ℕ → Option (Option (ℕ × ℕ)) := fun _ => none
  log : List GateAction := []

/-- A message of the socket thread, or a command. -/
inductive GateEvent
  | socket (m : SocketMessage)
  | forward (source fd : ℕ) (client address : Option ℕ)
  | accept (fd : ℕ)
  | kick (fd : ℕ)

namespace Gate

/-- The gate after `CMD.open`. -/
def opened (socket maxclient : ℕ) : Gate := { socket := some socket, maxclient := maxclient }

def act (g : Gate) (a : GateAction) : Gate := { g with log := g.log ++ [a] }

/-- `handler.message`; without an entry for the client the index of `c` raises an error. -/
def message (g : Gate) (fd : ℕ) (msg : Bytes) (sz : ℕ) : Option Gate :=
  (g.clients fd).bind fun c => (ltostring msg sz).map fun msg =>
    match c with
    | some (agent, client) => g.act (.message fd (.agent agent client) msg)
    | none => g.act (.message fd .watchdog msg)

/-- `dispatch_msg` -/
def dispatchMsg (g : Gate) (fd : ℕ) (msg : Bytes) (sz : ℕ) : Option Gate :=
  if g.connection fd = some true then g.message fd msg sz
  else (ltostring msg sz).map fun msg => g.act (.message fd .nobody msg)

/-- `dispatch_queue`, which takes packages from the queue until it is empty, with a bound on their
number. -/
def dispatchQueue : ℕ → Gate → Option Gate
  | 0, _ => none
  | rounds + 1, g =>
    match lpop g.queue with
    | none => some g
    | some (np, queue) =>
      (dispatchMsg { g with queue := queue } np.id np.buffer np.size).bind (dispatchQueue rounds)

/-- `handler.disconnect` and `handler.error` forget the client, and `close_fd` the connection. -/
def closeFd (g : Gate) (fd : ℕ) (a : GateAction) : Gate :=
  let g' := { g with clients := Function.update g.clients fd none }.act a
  if g.connection fd = none then g'
  else { g' with connection := Function.update g.connection fd none,
                 clientNumber := g.clientNumber - 1 }

/-- The handler of what `netpack.filter` returns. -/
def handle (g : Gate) : Filtered → Option Gate
  | .nothing => some g
  | .data fd msg sz => g.dispatchMsg fd msg sz
  | .more => g.dispatchQueue ((getQueue g.queue).packages.length + 1)
  | .open fd msg =>
    if g.clientNumber ≥ g.maxclient then some (g.act (.driverClose fd))
    else
      some ({ g with connection := Function.update g.connection fd (some true),
                     clientNumber := g.clientNumber + 1,
                     clients := Function.update g.clients fd (some none) }.act (.opened fd msg))
  | .close fd =>
    if g.socket = some fd then some ({ g with socket := none }.act (.stopped fd))
    else some (g.closeFd fd (.closed fd))
  | .error fd msg =>
    if g.socket = some fd then some ((g.act (.stopped fd)).act (.driverClose fd))
    else some (g.closeFd fd (.failed fd msg))
  | .warning fd size => some (g.act (.warned fd size))

/-- `gateserver.openclient` -/
def openclient (g : Gate) (fd : ℕ) : Gate :=
  if g.connection fd = some true then g.act (.driverStart fd) else g

/-- A step of the gate; `none` where an error is raised or a chunk is read outside its bytes. A
command for a client that is not known is answered with an error. -/
def step (g : Gate) : GateEvent → Option Gate
  | .socket m => (lfilter g.queue m).bind fun r => handle { g with queue := r.1 } r.2
  | .forward source fd client address =>
    if g.clients fd = none then some g
    else
      let c := some (address.getD source, client.getD 0)
      some ({ g with clients := Function.update g.clients fd (some c) }.openclient fd)
  | .accept fd =>
    if g.clients fd = none then some g
    else some ({ g with clients := Function.update g.clients fd (some none) }.openclient fd)
  | .kick fd =>
    if g.connection fd = some true then
      some ({ g with connection := Function.update g.connection fd (some false) }.act
        (.driverClose fd))
    else some g

end Gate

/-! ### What came and what was handled -/

/-- The bytes of a socket after an event, since the socket was closed or failed for the last time. -/
def trackBytes (fd : ℕ) (bytes : Bytes) : GateEvent → Bytes
  | .socket (.data id buffer) => if id = fd then bytes ++ buffer else bytes
  | .socket (.close id) | .socket (.error id _) => if id = fd then [] else bytes
  | _ => bytes

/-- The bytes that came from a socket. -/
def bytesOf (fd : ℕ) (es : List GateEvent) : Bytes := es.foldl (trackBytes fd) []

/-- The packages of a socket that were handled since it was closed or failed for the last time. -/
def trackMsgs (fd : ℕ) (msgs : List Bytes) : GateAction → List Bytes
  | .message id _ msg => if id = fd then msgs ++ [msg] else msgs
  | .closed id | .failed id _ | .stopped id => if id = fd then [] else msgs
  | _ => msgs

/-- The packages of a socket that were handled. -/
def msgsOf (fd : ℕ) (log : List GateAction) : List Bytes := log.foldl (trackMsgs fd) []

/-- The socket thread forwards a chunk only if something was read. -/
def GateEvent.Proper : GateEvent → Prop
  | .socket (.data _ buffer) => buffer ≠ []
  | _ => True

/-! ### The invariant -/

/-- The queue is empty between two messages, every client that is connected is known to `gate.lua`,
and of every socket the packages are cut off that are in its bytes. -/
structure GateInv (g : Gate) (bytes : ℕ → Bytes) : Prop where
  sound : (getQueue g.queue).Sound
  drained : (getQueue g.queue).packages = []
  known : ∀ fd, g.connection fd = some true → g.clients fd ≠ none
  cuts : ∀ fd, Cuts 2 beNat (bytes fd) (msgsOf fd g.log) ((getQueue g.queue).pending fd)

namespace Gate

@[simp] theorem msgsOf_concat (fd : ℕ) (log : List GateAction) (a : GateAction) :
    msgsOf fd (log ++ [a]) = trackMsgs fd (msgsOf fd log) a := by
  simp [msgsOf]

variable {g : Gate} {fd : ℕ} {msg : Bytes}

@[simp] theorem closeFd_queue (g : Gate) (fd : ℕ) (a : GateAction) :
    (g.closeFd fd a).queue = g.queue := by
  rw [closeFd]
  split_ifs <;> rfl

@[simp] theorem closeFd_connection (g : Gate) (fd : ℕ) (a : GateAction) :
    (g.closeFd fd a).connection = Function.update g.connection fd none := by
  rw [closeFd]
  split_ifs with hconn
  · exact (Function.update_eq_self_iff.mpr hconn.symm).symm
  · rfl

@[simp] theorem closeFd_clients (g : Gate) (fd : ℕ) (a : GateAction) :
    (g.closeFd fd a).clients = Function.update g.clients fd none := by
  rw [closeFd]
  split_ifs <;> rfl

@[simp] theorem closeFd_log (g : Gate) (fd : ℕ) (a : GateAction) :
    (g.closeFd fd a).log = g.log ++ [a] := by
  rw [closeFd]
  split_ifs <;> rfl

@[simp] theorem closeFd_maxclient (g : Gate) (fd : ℕ) (a : GateAction) :
    (g.closeFd fd a).maxclient = g.maxclient := by
  rw [closeFd]
  split_ifs <;> rfl

theorem closeFd_clientNumber (g : Gate) (fd : ℕ) (a : GateAction) :
    (g.closeFd fd a).clientNumber =
      if g.connection fd = none then g.clientNumber else g.clientNumber - 1 := by
  rw [closeFd]
  split_ifs <;> rfl

theorem ltostring_self (msg : Bytes) : ltostring msg msg.length = some msg := by
  simp [ltostring]

/-- A package is handled: passed on, or dropped. -/
theorem dispatchMsg_spec (hknown : ∀ fd, g.connection fd = some true → g.clients fd ≠ none)
    (fd : ℕ) (msg : Bytes) : ∃ recipient, g.dispatchMsg fd msg msg.length =
      some (g.act (.message fd recipient msg)) := by
  rw [dispatchMsg]
  split_ifs with hconn
  · obtain ⟨c, hc⟩ := Option.ne_none_iff_exists'.mp (hknown fd hconn)
    rw [message, hc, Option.bind_some, ltostring_self]
    cases c with
    | none => exact ⟨.watchdog, rfl⟩
    | some c => exact ⟨.agent c.1 c.2, rfl⟩
  · rw [ltostring_self]
    exact ⟨.nobody, rfl⟩

/-- `dispatch_queue` handles the packages of the queue, and leaves it empty. -/
theorem dispatchQueue_spec (fd : ℕ) {msgs : List Bytes} {rounds : ℕ} (hrounds : msgs.length < rounds)
    {q : NetQueue} (hqueue : g.queue = some q) (hpackages : q.packages = msgs.map (packageOf fd))
    (hknown : ∀ fd, g.connection fd = some true → g.clients fd ≠ none) :
    ∃ ring log, g.dispatchQueue rounds =
        some { g with queue := some { q with queue := ring }, log := g.log ++ log } ∧
      ring.toList = [] ∧ msgsOf fd (g.log ++ log) = msgsOf fd g.log ++ msgs ∧
      ∀ d, d ≠ fd → msgsOf d (g.log ++ log) = msgsOf d g.log := by
  -- one round takes one package; the rounds are more than the packages
  induction msgs generalizing g q rounds with
  | nil =>
    cases rounds with
    | zero => exact absurd hrounds (Nat.not_lt_zero _)
    | succ rounds =>
      rw [dispatchQueue, hqueue, lpop, Option.bind_some]
      rcases q.queue.pop_eq with ⟨np, ring, -, hlist⟩ | ⟨hpop, hlist⟩
      · exact absurd (hlist.symm.trans hpackages) (List.cons_ne_nil _ _)
      · rw [hpop]
        refine ⟨q.queue, [], ?_, hlist, ?_, ?_⟩
        · simp [← hqueue]
        · simp
        · simp
  | cons msg msgs ih =>
    cases rounds with
    | zero => exact absurd hrounds (Nat.not_lt_zero _)
    | succ rounds =>
      rw [dispatchQueue, hqueue, lpop, Option.bind_some]
      rcases q.queue.pop_eq with ⟨np, ring, hpop, hlist⟩ | ⟨hpop, hlist⟩
      · -- the package that is popped is the first one
        have hcons : np :: ring.toList = packageOf fd msg :: msgs.map (packageOf fd) :=
          hlist.symm.trans hpackages
        obtain ⟨rfl, hring⟩ := List.cons.inj hcons
        rw [hpop]
        obtain ⟨recipient, hmsg⟩ := dispatchMsg_spec
          (g := { g with queue := some { q with queue := ring } }) hknown fd msg
        obtain ⟨ring', log, hloop, hnil, hself, hother⟩ := ih
          (g := act { g with queue := some { q with queue := ring } } (.message fd recipient msg))
          (Nat.lt_of_succ_lt_succ hrounds) rfl hring hknown
        refine ⟨ring', .message fd recipient msg :: log, ?_, hnil, ?_, ?_⟩
        · rw [Option.map_some]
          simp only [packageOf]
          rw [hmsg, Option.bind_some, hloop]
          simp [act]
        · simpa [act, trackMsgs] using hself
        · intro d hd
          simpa [act, trackMsgs, hd.symm] using hother d hd
      · exact absurd (hpackages.symm.trans hlist) (List.cons_ne_nil _ _)

/-- Taking a package out of the queue keeps what is kept of the sockets. -/
theorem sound_ring {q : NetQueue} (h : q.Sound) (ring : RingBuffer NetPackage) :
    NetQueue.Sound { q with queue := ring } := ⟨h.chains, h.good⟩

end Gate

namespace GateInv

variable {g : Gate} {bytes : ℕ → Bytes}

/-- A log entry that is not about packages, with changes of what the packages do not depend on. -/
theorem congr (h : GateInv g bytes) {g' : Gate} (hqueue : g'.queue = g.queue)
    (hknown : ∀ fd, g'.connection fd = some true → g'.clients fd ≠ none)
    (hmsgs : ∀ fd, msgsOf fd g'.log = msgsOf fd g.log) : GateInv g' bytes where
  sound := by rw [hqueue]; exact h.sound
  drained := by rw [hqueue]; exact h.drained
  known := hknown
  cuts := by
    intro fd
    rw [hqueue, hmsgs]
    exact h.cuts fd

/-- A chunk of a socket. -/
theorem data (h : GateInv g bytes) (fd : ℕ) {buffer : Bytes} (hne : buffer ≠ []) :
    ∃ g', g.step (.socket (.data fd buffer)) = some g' ∧
      GateInv g' (Function.update bytes fd (bytes fd ++ buffer)) := by
  obtain ⟨q', r, msgs, hfilter, hcut, hreturned⟩ := filterData_spec h.sound fd hne
  have hstep : g.step (.socket (.data fd buffer)) = Gate.handle { g with queue := q' } r := by
    rw [Gate.step, lfilter, hfilter, Option.bind_some]
  -- it is enough that the packages that were cut off are handled, and the queue is empty again
  have hkeep {g' : Gate} {ring : RingBuffer NetPackage}
      (hqueue : getQueue g'.queue = { getQueue q' with queue := ring }) (hring : ring.toList = [])
      (hknown : ∀ fd, g'.connection fd = some true → g'.clients fd ≠ none)
      (hself : msgsOf fd g'.log = msgsOf fd g.log ++ msgs)
      (hother : ∀ d, d ≠ fd → msgsOf d g'.log = msgsOf d g.log) :
      GateInv g' (Function.update bytes fd (bytes fd ++ buffer)) := by
    have hpending (d : ℕ) : (getQueue g'.queue).pending d = (getQueue q').pending d := by
      rw [hqueue]
      rfl
    refine ⟨?_, ?_, hknown, fun d => ?_⟩
    · rw [hqueue]
      exact Gate.sound_ring hcut.sound ring
    · rw [hqueue]
      exact hring
    · rw [hpending]
      by_cases hd : d = fd
      · subst hd
        rw [Function.update_self, hself]
        exact (h.cuts d).append hcut.cuts
      · rw [Function.update_of_ne hd, hother d hd, hcut.other d hd]
        exact h.cuts d
  rcases hreturned with ⟨rfl, rfl, hsame⟩ | ⟨msg, rfl, rfl, hsame⟩ | ⟨rfl, hmore⟩
  · exact ⟨_, hstep, hkeep rfl (hsame.trans h.drained) h.known (List.append_nil _).symm
      fun _ _ => rfl⟩
  · obtain ⟨recipient, hmsg⟩ := Gate.dispatchMsg_spec (g := { g with queue := q' }) h.known fd msg
    refine ⟨_, hstep.trans hmsg, hkeep rfl (hsame.trans h.drained) h.known ?_ fun d hd => ?_⟩
    · simp [Gate.act, trackMsgs]
    · simp [Gate.act, trackMsgs, hd.symm]
  · rw [h.drained, List.nil_append] at hmore
    cases q' with
    | none =>
      -- there is no queue, and nothing was cut off
      have hmsgs : msgs = [] := List.map_eq_nil_iff.mp hmore.symm
      subst hmsgs
      exact ⟨_, hstep, hkeep rfl hmore h.known (List.append_nil _).symm fun _ _ => rfl⟩
    | some q =>
      have hrounds : msgs.length < (getQueue (some q)).packages.length + 1 := by
        rw [hmore, List.length_map]
        exact Nat.lt_succ_self _
      obtain ⟨ring, log, hloop, hring, hself, hother⟩ := Gate.dispatchQueue_spec
        (g := { g with queue := some q }) fd hrounds rfl hmore h.known
      exact ⟨_, hstep.trans hloop, hkeep rfl hring h.known hself hother⟩

/-- The end of a socket. -/
theorem ended (h : GateInv g bytes) (fd : ℕ) {g' : Gate}
    (hqueue : g'.queue = closeUncomplete g.queue fd)
    (hknown : ∀ fd, g'.connection fd = some true → g'.clients fd ≠ none)
    (hmsgs : ∀ d, msgsOf d g'.log = if d = fd then [] else msgsOf d g.log) :
    GateInv g' (Function.update bytes fd []) := by
  obtain ⟨hsound, hpackages, hpending⟩ := closeUncomplete_spec h.sound fd
  rw [← hqueue] at hsound hpackages hpending
  refine ⟨hsound, hpackages.trans h.drained, hknown, fun d => ?_⟩
  rw [hmsgs, hpending]
  by_cases hd : d = fd
  · subst hd
    simp only [Function.update_self, if_true]
    exact .rest (.inl Nat.zero_lt_two)
  · rw [Function.update_of_ne hd, if_neg hd, if_neg hd]
    exact h.cuts d

/-- A client that is forgotten. -/
theorem known_closeFd (h : ∀ fd, g.connection fd = some true → g.clients fd ≠ none) (fd : ℕ)
    (a : GateAction) :
    ∀ d, (g.closeFd fd a).connection d = some true → (g.closeFd fd a).clients d ≠ none := by
  intro d
  by_cases hd : d = fd
  · simp [hd]
  · simpa [hd] using h d

/-- A client that is known, with what `gate.lua` has of it. -/
theorem known_update (h : GateInv g bytes) (fd : ℕ) (c : Option (ℕ × ℕ)) :
    ∀ d, g.connection d = some true → Function.update g.clients fd (some c) d ≠ none := by
  intro d hd
  by_cases heq : d = fd
  · simp [heq]
  · simpa [heq] using h.known d hd

/-- `openclient` is not about packages. -/
theorem openclient (h : GateInv g bytes) (fd : ℕ) : GateInv (g.openclient fd) bytes := by
  rw [Gate.openclient]
  split_ifs
  · refine h.congr rfl h.known fun d => ?_
    simp [Gate.act, trackMsgs]
  · exact h

/-- A client that is accepted, or refused. -/
theorem accepted (h : GateInv g bytes) (fd ud : ℕ) (buffer : Bytes) :
    ∃ g', g.step (.socket (.accept fd ud buffer)) = some g' ∧ GateInv g' bytes := by
  have hstep : g.step (.socket (.accept fd ud buffer)) = g.handle (.open ud buffer) := rfl
  rw [hstep, Gate.handle]
  split_ifs
  · refine ⟨_, rfl, h.congr rfl h.known fun d => ?_⟩
    simp [Gate.act, trackMsgs]
  · refine ⟨_, rfl, h.congr rfl (fun d hd => ?_) fun d => ?_⟩
    · simp only [Gate.act] at hd ⊢
      -- `handler.connect` has made an entry for the new client
      by_cases heq : d = ud
      · simp [heq]
      · rw [Function.update_of_ne heq] at hd ⊢
        exact h.known d hd
    · simp [Gate.act, trackMsgs]

/-- A socket that is closed. -/
theorem closed (h : GateInv g bytes) (fd : ℕ) :
    ∃ g', g.step (.socket (.close fd)) = some g' ∧ GateInv g' (Function.update bytes fd []) := by
  have hstep : g.step (.socket (.close fd)) =
      Gate.handle { g with queue := closeUncomplete g.queue fd } (.close fd) := rfl
  rw [hstep, Gate.handle]
  -- what was kept of the socket is forgotten, whether or not it is the one that listens
  split_ifs
  · refine ⟨_, rfl, h.ended fd rfl h.known fun d => ?_⟩
    simp only [Gate.act, Gate.msgsOf_concat, trackMsgs, eq_comm]
  · refine ⟨_, rfl, h.ended fd (by simp) ?_ fun d => ?_⟩
    · exact known_closeFd (g := { g with queue := closeUncomplete g.queue fd }) h.known fd _
    · simp [trackMsgs, eq_comm]

/-- A socket that fails. -/
theorem failed (h : GateInv g bytes) (fd : ℕ) (buffer : Bytes) :
    ∃ g', g.step (.socket (.error fd buffer)) = some g' ∧
      GateInv g' (Function.update bytes fd []) := by
  have hstep : g.step (.socket (.error fd buffer)) =
      Gate.handle { g with queue := closeUncomplete g.queue fd } (.error fd buffer) := rfl
  rw [hstep, Gate.handle]
  split_ifs
  · refine ⟨_, rfl, h.ended fd rfl h.known fun d => ?_⟩
    simp only [Gate.act, Gate.msgsOf_concat, trackMsgs, eq_comm]
  · refine ⟨_, rfl, h.ended fd (by simp) ?_ fun d => ?_⟩
    · exact known_closeFd (g := { g with queue := closeUncomplete g.queue fd }) h.known fd _
    · simp [trackMsgs, eq_comm]

/-- A client that is forwarded or accepted by a command. -/
theorem reopened (h : GateInv g bytes) (fd : ℕ) (c : Option (ℕ × ℕ)) :
    GateInv ({ g with clients := Function.update g.clients fd (some c) }.openclient fd) bytes := by
  apply GateInv.openclient
  exact h.congr rfl (h.known_update fd c) fun d => rfl

/-- A client that is kicked. -/
theorem kicked (h : GateInv g bytes) (fd : ℕ) :
    ∃ g', g.step (.kick fd) = some g' ∧ GateInv g' bytes := by
  rw [Gate.step]
  split_ifs
  · refine ⟨_, rfl, h.congr rfl (fun d hd => ?_) fun d => ?_⟩
    · -- it is not connected any more, and the others are as they were
      simp only [Gate.act] at hd ⊢
      by_cases heq : d = fd
      · subst heq
        rw [Function.update_self] at hd
        cases hd
      · rw [Function.update_of_ne heq] at hd
        exact h.known d hd
    · simp [Gate.act, trackMsgs]
  · exact ⟨g, rfl, h⟩

theorem trackBytes_data (bytes : ℕ → Bytes) (fd : ℕ) (buffer : Bytes) :
    (fun d => trackBytes d (bytes d) (.socket (.data fd buffer))) =
      Function.update bytes fd (bytes fd ++ buffer) := by
  funext d
  by_cases hd : d = fd
  · simp [trackBytes, hd]
  · simp [trackBytes, hd, Ne.symm hd]

theorem trackBytes_close (bytes : ℕ → Bytes) (fd : ℕ) :
    (fun d => trackBytes d (bytes d) (.socket (.close fd))) = Function.update bytes fd [] := by
  funext d
  simp [trackBytes, Function.update_apply, eq_comm]

theorem trackBytes_error (bytes : ℕ → Bytes) (fd : ℕ) (buffer : Bytes) :
    (fun d => trackBytes d (bytes d) (.socket (.error fd buffer))) =
      Function.update bytes fd [] := by
  funext d
  simp [trackBytes, Function.update_apply, eq_comm]

/-- **Step lemma.** -/
theorem step (h : GateInv g bytes) {e : GateEvent} (he : e.Proper) :
    ∃ g', g.step e = some g' ∧ GateInv g' fun fd => trackBytes fd (bytes fd) e := by
  cases e with
  | socket m =>
    cases m with
    | data fd buffer =>
      rw [trackBytes_data]
      exact h.data fd he
    | connect fd => exact ⟨g, rfl, h⟩
    | accept fd ud buffer => exact h.accepted fd ud buffer
    | close fd =>
      rw [trackBytes_close]
      exact h.closed fd
    | error fd buffer =>
      rw [trackBytes_error]
      exact h.failed fd buffer
    | warning fd ud =>
      refine ⟨_, rfl, h.congr rfl h.known fun d => ?_⟩
      simp [Gate.act, trackMsgs]
  | forward source fd client address =>
    rw [Gate.step]
    split_ifs
    · exact ⟨g, rfl, h⟩
    · exact ⟨_, rfl, h.reopened fd _⟩
  | accept fd =>
    rw [Gate.step]
    split_ifs
    · exact ⟨g, rfl, h⟩
    · exact ⟨_, rfl, h.reopened fd none⟩
  | kick fd => exact h.kicked fd

theorem opened (socket maxclient : ℕ) : GateInv (Gate.opened socket maxclient) fun _ => [] where
  sound := NetQueue.sound_empty
  drained := NetQueue.packages_empty
  known := by
    intro fd hfd
    cases hfd
  cuts := fun _ => .rest (.inl Nat.zero_lt_two)

/-- **Run lemma.** -/
theorem run (h : GateInv g bytes) {es : List GateEvent} (hes : ∀ e ∈ es, e.Proper) :
    ∃ g', Semantics.run Gate.step g es = some g' ∧
      GateInv g' fun fd => es.foldl (trackBytes fd) (bytes fd) := by
  induction es generalizing g bytes with
  | nil => exact ⟨g, rfl, h⟩
  | cons e es ih =>
    obtain ⟨he, hes⟩ := List.forall_mem_cons.mp hes
    obtain ⟨g₁, hstep, hinv⟩ := h.step he
    obtain ⟨g₂, hrun, hinv'⟩ := ih hinv hes
    exact ⟨g₂, by rw [run_cons, hstep, Option.bind_some, hrun], hinv'⟩

end GateInv

/-- **Packages are exact.** Whatever the socket thread tells the gate, in chunks of any sizes and
from any sockets in turn, and whatever commands come between, the gate does not fail; of every socket
it has handled the packages in the bytes that came, in their order and each once, and it keeps what
is left of the bytes. -/
theorem packages_exact (socket maxclient : ℕ) {es : List GateEvent} (hes : ∀ e ∈ es, e.Proper) :
    ∃ g, run Gate.step (Gate.opened socket maxclient) es = some g ∧
      ∀ fd, Cuts 2 beNat (bytesOf fd es) (msgsOf fd g.log) ((getQueue g.queue).pending fd) := by
  obtain ⟨g, hrun, hinv⟩ := (GateInv.opened socket maxclient).run hes
  exact ⟨g, hrun, hinv.cuts⟩

/-- Two packages of one socket and the beginning of a third come in two chunks, with one of another
socket between them. -/
def twoSockets : List GateEvent :=
  [.socket (.accept 1 7 []), .socket (.accept 1 8 []), .socket (.data 7 [0, 2, 10]),
    .socket (.data 8 [0, 1, 20]), .socket (.data 7 [11, 0, 0, 0, 1])]

theorem packages_exact_two : ∃ g, run Gate.step (Gate.opened 1 16) twoSockets = some g ∧
    msgsOf 7 g.log = [[10, 11], []] ∧
    ∀ fd, Cuts 2 beNat (bytesOf fd twoSockets) (msgsOf fd g.log)
      ((getQueue g.queue).pending fd) := by
  have hproper : ∀ e ∈ twoSockets, e.Proper := by
    intro e he
    simp only [twoSockets, List.mem_cons, List.not_mem_nil, or_false] at he
    rcases he with rfl | rfl | rfl | rfl | rfl <;> simp [GateEvent.Proper]
  have hrun : ∃ g, run Gate.step (Gate.opened 1 16) twoSockets = some g ∧
      msgsOf 7 g.log = [[10, 11], []] := ⟨_, rfl, by decide⟩
  obtain ⟨g, hg, hmsgs⟩ := hrun
  obtain ⟨g', hg', hcuts⟩ := packages_exact 1 16 hproper
  obtain rfl := Option.some.inj (hg.symm.trans hg')
  exact ⟨g, hg, hmsgs, hcuts⟩

/-! ### The number of clients -/

/-- Handling packages is no business of the connections. -/
structure SameClients (g g' : Gate) : Prop where
  connection : g'.connection = g.connection
  clientNumber : g'.clientNumber = g.clientNumber
  maxclient : g'.maxclient = g.maxclient

namespace SameClients

variable {g g' g'' : Gate}

theorem refl (g : Gate) : SameClients g g := ⟨rfl, rfl, rfl⟩

theorem trans (h : SameClients g g') (h' : SameClients g' g'') : SameClients g g'' :=
  ⟨h'.connection.trans h.connection, h'.clientNumber.trans h.clientNumber,
    h'.maxclient.trans h.maxclient⟩

theorem dispatchMsg {fd : ℕ} {msg : Bytes} {sz : ℕ} (h : g.dispatchMsg fd msg sz = some g') :
    SameClients g g' := by
  rw [Gate.dispatchMsg] at h
  split_ifs at h with hconn
  · rw [Gate.message, Option.bind_eq_some_iff] at h
    obtain ⟨c, -, hmsg⟩ := h
    obtain ⟨msg', -, rfl⟩ := Option.map_eq_some_iff.mp hmsg
    cases c with
    | none => exact ⟨rfl, rfl, rfl⟩
    | some c => exact ⟨rfl, rfl, rfl⟩
  · obtain ⟨msg', -, rfl⟩ := Option.map_eq_some_iff.mp h
    exact ⟨rfl, rfl, rfl⟩

theorem dispatchQueue {rounds : ℕ} (h : g.dispatchQueue rounds = some g') : SameClients g g' := by
  induction rounds generalizing g with
  | zero => cases h
  | succ rounds ih =>
    rw [Gate.dispatchQueue] at h
    cases hpop : lpop g.queue with
    | none =>
      rw [hpop] at h
      obtain rfl := Option.some.inj h
      exact refl g
    | some r =>
      rw [hpop] at h
      obtain ⟨g₁, hmsg, hrest⟩ := Option.bind_eq_some_iff.mp h
      have hsame : SameClients g { g with queue := r.2 } := ⟨rfl, rfl, rfl⟩
      exact (hsame.trans (dispatchMsg hmsg)).trans (ih hrest)

theorem openclient (g : Gate) (fd : ℕ) : SameClients g (g.openclient fd) := by
  rw [Gate.openclient]
  split_ifs
  · exact ⟨rfl, rfl, rfl⟩
  · exact refl g

end SameClients

/-- The sockets that are connected, or kicked and not yet closed, are counted. -/
def Counted (maxclient : ℕ) (g : Gate) : Prop :=
  g.maxclient = maxclient ∧ ∃ fds : Finset ℕ, (∀ fd, fd ∈ fds ↔ g.connection fd ≠ none) ∧
    g.clientNumber = fds.card ∧ fds.card ≤ maxclient

theorem Counted.congr {maxclient : ℕ} {g g' : Gate} (h : Counted maxclient g)
    (hsame : SameClients g g') : Counted maxclient g' := by
  obtain ⟨hmax, fds, hfds, hnumber, hle⟩ := h
  refine ⟨hsame.maxclient.trans hmax, fds, ?_, hsame.clientNumber.trans hnumber, hle⟩
  rw [hsame.connection]
  exact hfds

theorem Counted.closeFd {maxclient : ℕ} {g : Gate} (h : Counted maxclient g) (fd : ℕ)
    (a : GateAction) : Counted maxclient (g.closeFd fd a) := by
  obtain ⟨hmax, fds, hfds, hnumber, hle⟩ := h
  refine ⟨by rw [Gate.closeFd_maxclient, hmax], fds.erase fd, fun d => ?_, ?_, ?_⟩
  · rw [Gate.closeFd_connection, Finset.mem_erase]
    by_cases hd : d = fd
    · simp [hd]
    · simpa [hd] using hfds d
  · rw [Gate.closeFd_clientNumber]
    split_ifs with hconn
    · have hmem : fd ∉ fds := fun hmem => (hfds fd).mp hmem hconn
      rw [Finset.erase_eq_of_notMem hmem, hnumber]
    · have hmem := (hfds fd).mpr hconn
      have hcard := Finset.card_erase_add_one hmem
      omega
  · exact (Finset.card_erase_le).trans hle

/-- The socket thread gives the number of a socket to another one only after it has told that the
first is closed. -/
def GateEvent.Admitted (g : Gate) : GateEvent → Prop
  | .socket (.accept _ ud _) => g.connection ud = none
  | _ => True

instance (g : Gate) : (e : GateEvent) → Decidable (e.Admitted g)
  | .socket (.accept _ ud _) => inferInstanceAs (Decidable (g.connection ud = none))
  | .socket (.data _ _) | .socket (.connect _) | .socket (.close _) | .socket (.error _ _) |
    .socket (.warning _ _) | .forward _ _ _ _ | .accept _ | .kick _ => .isTrue trivial

/-- What `filter_data_` returns is about packages. -/
theorem filterData_kind {q : Option NetQueue} {fd : ℕ} {buffer : Bytes}
    {r : Option NetQueue × Filtered} (h : filterData q fd buffer = some r) :
    r.2 = .nothing ∨ (∃ fd' msg sz, r.2 = .data fd' msg sz) ∨ r.2 = .more := by
  unfold filterData at h
  split at h
  · -- a part was kept
    obtain ⟨uc, -, hfill⟩ := Option.bind_eq_some_iff.mp h
    unfold fill at hfill
    simp only at hfill
    split_ifs at hfill
    · exact .inl (by rw [← Option.some.inj hfill])
    · exact .inr (.inl ⟨_, _, _, by rw [← Option.some.inj hfill]⟩)
    · obtain ⟨q', -, rfl⟩ := Option.map_eq_some_iff.mp hfill
      exact .inr (.inr rfl)
  · split at h
    · cases h
    · exact .inl (by rw [← Option.some.inj h])
    · simp only at h
      split_ifs at h
      · exact .inl (by rw [← Option.some.inj h])
      · exact .inr (.inl ⟨_, _, _, by rw [← Option.some.inj h]⟩)
      · obtain ⟨q', -, rfl⟩ := Option.map_eq_some_iff.mp h
        exact .inr (.inr rfl)

namespace Counted

variable {maxclient : ℕ} {g g' : Gate}

/-- A chunk does not touch the table of the connections, whether one package is cut off, several, or
none. -/
theorem data (h : Counted maxclient g) {r : Option NetQueue × Filtered} {fd : ℕ} {buffer : Bytes}
    (hfilter : filterData g.queue fd buffer = some r)
    (hhandle : Gate.handle { g with queue := r.1 } r.2 = some g') : Counted maxclient g' := by
  have hq : Counted maxclient { g with queue := r.1 } := h.congr ⟨rfl, rfl, rfl⟩
  rcases filterData_kind hfilter with hkind | ⟨fd', msg, sz, hkind⟩ | hkind
  · rw [hkind] at hhandle
    obtain rfl := Option.some.inj hhandle
    exact hq
  · rw [hkind] at hhandle
    exact hq.congr (SameClients.dispatchMsg hhandle)
  · rw [hkind] at hhandle
    exact hq.congr (SameClients.dispatchQueue hhandle)

/-- A client that is accepted, or refused. -/
theorem accepted (h : Counted maxclient g) {ud : ℕ} {buffer : Bytes}
    (hnew : g.connection ud = none) (hhandle : g.handle (.open ud buffer) = some g') :
    Counted maxclient g' := by
  simp only [Gate.handle] at hhandle
  split_ifs at hhandle with hfull
  · obtain rfl := Option.some.inj hhandle
    exact h.congr ⟨rfl, rfl, rfl⟩
  · obtain rfl := Option.some.inj hhandle
    obtain ⟨hmax, fds, hfds, hnumber, hle⟩ := h
    -- the number is new, so the set grows by one
    have hmem : ud ∉ fds := fun hmem => (hfds ud).mp hmem hnew
    refine ⟨hmax, insert ud fds, fun d => ?_, ?_, ?_⟩
    · rw [Finset.mem_insert, hfds d]
      by_cases hd : d = ud
      · simp [Gate.act, hd]
      · simp [Gate.act, hd]
    · rw [Finset.card_insert_of_notMem hmem]
      simp [Gate.act, hnumber]
    · rw [Finset.card_insert_of_notMem hmem]
      omega

/-- A socket that is closed, or fails. -/
theorem ended (h : Counted maxclient g) {fd : ℕ} (buffer : Bytes)
    (hhandle : g.handle (.close fd) = some g' ∨ g.handle (.error fd buffer) = some g') :
    Counted maxclient g' := by
  simp only [Gate.handle] at hhandle
  by_cases hsocket : g.socket = some fd
  · simp only [if_pos hsocket, Option.some.injEq] at hhandle
    rcases hhandle with rfl | rfl <;> exact h.congr ⟨rfl, rfl, rfl⟩
  · simp only [if_neg hsocket, Option.some.injEq] at hhandle
    rcases hhandle with rfl | rfl <;> exact h.closeFd fd _

/-- A client that is kicked: the socket stays in the set until its end is reported. -/
theorem kicked (h : Counted maxclient g) {fd : ℕ} (hstep : g.step (.kick fd) = some g') :
    Counted maxclient g' := by
  rw [Gate.step] at hstep
  split_ifs at hstep with hconn
  · obtain rfl := Option.some.inj hstep
    obtain ⟨hmax, fds, hfds, hnumber, hle⟩ := h
    refine ⟨hmax, fds, fun d => ?_, hnumber, hle⟩
    rw [hfds d]
    by_cases hd : d = fd
    · simp [Gate.act, hd, hconn]
    · simp [Gate.act, hd]
  · obtain rfl := Option.some.inj hstep
    exact h

/-- A client that is forwarded or accepted by a command. -/
theorem reopened (h : Counted maxclient g) (fd : ℕ) (c : Option (ℕ × ℕ)) :
    Counted maxclient ({ g with clients := Function.update g.clients fd (some c) }.openclient fd) := by
  refine Counted.congr ?_ (SameClients.openclient _ fd)
  exact h.congr ⟨rfl, rfl, rfl⟩

/-- **Step lemma.** -/
theorem step (h : Counted maxclient g) {e : GateEvent} (he : e.Admitted g)
    (hstep : g.step e = some g') : Counted maxclient g' := by
  cases e with
  | socket m =>
    obtain ⟨r, hfilter, hhandle⟩ := Option.bind_eq_some_iff.mp hstep
    have hq : Counted maxclient { g with queue := r.1 } := h.congr ⟨rfl, rfl, rfl⟩
    cases m with
    | data fd buffer => exact h.data hfilter hhandle
    | connect fd =>
      obtain rfl := Option.some.inj hfilter
      obtain rfl := Option.some.inj hhandle
      exact hq
    | accept fd ud buffer =>
      obtain rfl := Option.some.inj hfilter
      exact hq.accepted he hhandle
    | close fd =>
      obtain rfl := Option.some.inj hfilter
      exact hq.ended [] (.inl hhandle)
    | error fd buffer =>
      obtain rfl := Option.some.inj hfilter
      exact hq.ended buffer (.inr hhandle)
    | warning fd ud =>
      obtain rfl := Option.some.inj hfilter
      obtain rfl := Option.some.inj hhandle
      exact hq.congr ⟨rfl, rfl, rfl⟩
  | forward source fd client address =>
    rw [Gate.step] at hstep
    split_ifs at hstep
    · obtain rfl := Option.some.inj hstep
      exact h
    · obtain rfl := Option.some.inj hstep
      exact h.reopened fd _
  | accept fd =>
    rw [Gate.step] at hstep
    split_ifs at hstep
    · obtain rfl := Option.some.inj hstep
      exact h
    · obtain rfl := Option.some.inj hstep
      exact h.reopened fd none
  | kick fd => exact h.kicked hstep

end Counted

/-- **Clients are counted.** In every run in which a socket that is accepted is a new one, the number
of clients is the number of the sockets that are connected, and is at most the maximum. -/
theorem clients_counted {socket maxclient : ℕ} {g : Gate}
    (h : Reachable Gate.step GateEvent.Admitted (Gate.opened socket maxclient) g) :
    ∃ fds : Finset ℕ, (∀ fd, fd ∈ fds ↔ g.connection fd ≠ none) ∧ g.clientNumber = fds.card ∧
      fds.card ≤ maxclient := by
  have hcounted : Counted maxclient g := by
    refine h.invariant ?_ fun g e g' hg he hstep => hg.step he hstep
    exact ⟨rfl, ∅, fun fd => by simp [Gate.opened], rfl, Nat.zero_le _⟩
  exact hcounted.2

/-- There is place for one client: a second one is refused, also after the first was kicked. -/
theorem clients_counted_one :
    ∃ g, Reachable Gate.step GateEvent.Admitted (Gate.opened 1 1) g ∧ g.connection 8 = none ∧
      ∃ fds : Finset ℕ, (∀ fd, fd ∈ fds ↔ g.connection fd ≠ none) ∧ g.clientNumber = fds.card ∧
        fds.card ≤ 1 := by
  have hrun : ∃ g, run (fun g e => if e.Admitted g then g.step e else none) (Gate.opened 1 1)
      [.socket (.accept 1 7 []), .kick 7, .socket (.accept 1 8 [])] = some g ∧
        g.connection 8 = none := ⟨_, rfl, rfl⟩
  obtain ⟨g, hg, hrefused⟩ := hrun
  have hreach := Reachable.of_guarded_run hg
  exact ⟨g, hreach, hrefused, clients_counted hreach⟩

end TestCluster.Skynet
