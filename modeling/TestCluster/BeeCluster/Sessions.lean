import TestCluster.BeeCluster.Reassembly
import TestCluster.Semantics.Machine
import TestCluster.Semantics.Table

/-!
# Sessions of a cluster sender

`bee_clustersender.lua` keeps one session counter for requests and pushes. `packrequest`
returns the next session, wrapped behind `INT32_MAX`; a push in one frame carries 0 and does
not take a session.

## Main definitions

* `ClusterSender` — the counter, and the messages that are being sent
* `ClusterSender.step` — a command, a frame written, or the end of a message
* `Outgoing.Carries` — a request, or a push in several parts

## Main results

* `packrequest_sessions` — the session in every frame that `packrequest` returns
* `ClusterSender.Inv.step` — a step keeps the invariant
* `ClusterSender.sessions_never_clash` — sessions of outstanding messages are different
-/

namespace TestCluster.BeeCluster

open Semantics

/-! ### The sessions in packed frames -/

section Frames

/-- The session in a request string: 0 in a push in one frame. -/
def carried (isPush : Bool) (sz session : ℕ) : ℕ :=
  if isPush && decide (sz < multiPart) then 0 else session

variable {session sz : ℕ} {msg : Bytes} {isPush : Bool} {r : Bytes × ℕ}

theorem carried_of_lt (h : sz < multiPart) :
    carried isPush sz session = if isPush then 0 else session := by
  simp [carried, h]

theorem carried_of_le (h : multiPart ≤ sz) : carried isPush sz session = session := by
  simp [carried, not_lt.mpr h]

/-- The bytes that are read of a message are a message of that size. -/
private theorem exists_taken {bs : Bytes} (h : readAt msg 0 sz = .ok bs) :
    ∃ payload : Bytes, payload.length = sz ∧ readAt payload 0 sz = readAt msg 0 sz := by
  have hle := (readAt_ok_iff.mp h).1
  rw [Nat.zero_add] at hle
  have hlen : (msg.take sz).length = sz := by
    rw [List.length_take]
    omega
  refine ⟨msg.take sz, hlen, ?_⟩
  rw [readAt, readAt, if_pos (by omega), if_pos (by omega), List.drop_zero, List.drop_zero,
    List.take_take, min_self]

/-- A packer that succeeds reads no more than its message has. -/
private theorem exists_payload_number {addr : ℤ}
    (h : packreqNumber addr session msg sz isPush = .ok r) :
    ∃ payload : Bytes, payload.length = sz ∧
      packreqNumber addr session payload payload.length isPush = .ok r := by
  by_cases hlt : sz < multiPart
  · have hread : ∃ bs, readAt msg 0 sz = .ok bs := by
      simp only [packreqNumber, if_pos hlt] at h
      obtain ⟨_, _, h⟩ := bind_ok h
      obtain ⟨_, _, h⟩ := bind_ok h
      obtain ⟨_, _, h⟩ := bind_ok h
      obtain ⟨_, _, h⟩ := bind_ok h
      obtain ⟨bs, hread, _⟩ := bind_ok h
      exact ⟨bs, hread⟩
    obtain ⟨bs, hread⟩ := hread
    obtain ⟨payload, hlen, hsame⟩ := exists_taken hread
    refine ⟨payload, hlen, ?_⟩
    rw [← h, hlen]
    simp only [packreqNumber, if_pos hlt, hsame]
  · -- a long message is not read by the packer of its header
    refine ⟨List.replicate sz 0, List.length_replicate, ?_⟩
    rw [← h, List.length_replicate]
    simp only [packreqNumber, if_neg hlt]

private theorem exists_payload_string {name : Bytes}
    (h : packreqString (.string name) session msg sz isPush = .ok r) :
    (1 ≤ name.length ∧ name.length ≤ 255) ∧ ∃ payload : Bytes, payload.length = sz ∧
      packreqString (.string name) session payload payload.length isPush = .ok r := by
  by_cases hname : name.length < 1 ∨ name.length > 255
  · simp only [packreqString, if_pos hname] at h
    cases h
  · refine ⟨by omega, ?_⟩
    by_cases hlt : sz < multiPart
    · have hread : ∃ bs, readAt msg 0 sz = .ok bs := by
        simp only [packreqString, if_neg hname, if_pos hlt] at h
        obtain ⟨_, _, h⟩ := bind_ok h
        obtain ⟨_, _, h⟩ := bind_ok h
        obtain ⟨_, _, h⟩ := bind_ok h
        obtain ⟨_, _, h⟩ := bind_ok h
        obtain ⟨_, _, h⟩ := bind_ok h
        obtain ⟨bs, hread, _⟩ := bind_ok h
        exact ⟨bs, hread⟩
      obtain ⟨bs, hread⟩ := hread
      obtain ⟨payload, hlen, hsame⟩ := exists_taken hread
      refine ⟨payload, hlen, ?_⟩
      rw [← h, hlen]
      simp only [packreqString, if_neg hname, if_pos hlt, hsame]
    · refine ⟨List.replicate sz 0, List.length_replicate, ?_⟩
      rw [← h, List.length_replicate]
      simp only [packreqString, if_neg hname, if_neg hlt]

/-- A request string carries the session, and is followed by parts if it is a long one. -/
structure CarriesSession (isPush : Bool) (sz session : ℕ) (r : Bytes × ℕ) : Prop where
  session_eq : sessionOf (r.1.drop 2) = carried isPush sz session
  parts : r.2 = 0 ↔ sz < multiPart

theorem packreqNumber_session (hs : session < 2 ^ 31) (hsz : sz < 2 ^ 32) {addr : ℤ}
    (h : packreqNumber addr session msg sz isPush = .ok r) :
    CarriesSession isPush sz session r := by
  have hwire : toUInt32 (session : ℤ) = session := toUInt32_natCast (by omega)
  obtain ⟨payload, rfl, hpack⟩ := exists_payload_number h
  by_cases hlt : payload.length < multiPart
  · have hcarried : (if isPush then 0 else session) < 2 ^ 32 := by
      split_ifs <;> omega
    rw [packreqNumber_of_lt _ _ _ hlt, hwire] at hpack
    obtain rfl := Except.ok.inj hpack
    refine ⟨?_, iff_of_true rfl hlt⟩
    rw [frame_drop, sessionOf, lunpackrequest_number (toUInt32_lt _) hcarried
      (lt_trans hlt (by decide)), carried_of_lt hlt]
    rfl
  · have hle := not_lt.mp hlt
    rw [packreqNumber_of_le _ _ _ hle, hwire] at hpack
    obtain rfl := Except.ok.inj hpack
    refine ⟨?_, iff_of_false (Nat.succ_ne_zero _) hlt⟩
    rw [frame_drop, sessionOf, lunpackrequest_multiNumber _ (toUInt32_lt _) (by omega) hsz,
      carried_of_le hle]
    rfl

theorem packreqString_session (hs : session < 2 ^ 31) (hsz : sz < 2 ^ 32) {addr : LuaValue}
    (h : packreqString addr session msg sz isPush = .ok r) :
    CarriesSession isPush sz session r := by
  have hwire : toUInt32 (session : ℤ) = session := toUInt32_natCast (by omega)
  cases addr with
  | string name =>
    obtain ⟨hname, payload, rfl, hpack⟩ := exists_payload_string h
    by_cases hlt : payload.length < multiPart
    · have hcarried : (if isPush then 0 else session) < 2 ^ 32 := by
        split_ifs <;> omega
      rw [packreqString_of_lt _ _ hname hlt, hwire] at hpack
      obtain rfl := Except.ok.inj hpack
      refine ⟨?_, iff_of_true rfl hlt⟩
      rw [frame_drop, sessionOf, lunpackrequest_name hname.2 hcarried (lt_trans hlt (by decide)),
        carried_of_lt hlt]
      rfl
    · have hle := not_lt.mp hlt
      rw [packreqString_of_le _ _ hname hle, hwire] at hpack
      obtain rfl := Except.ok.inj hpack
      refine ⟨?_, iff_of_false (Nat.succ_ne_zero _) hlt⟩
      rw [frame_drop, sessionOf, lunpackrequest_multiName _ hname.2 (by omega) hsz,
        carried_of_le hle]
      rfl
  | _ => cases h

/-- What the splitting loop emits are frames of chunks. -/
theorem splitLoop_emits {emit : Bool → Bytes → Except Fault Bytes} {part ptr : ℕ}
    {frames : List Bytes} (h : splitLoop emit msg part ptr sz = .ok frames) :
    ∀ f ∈ frames, ∃ last chunk, chunk.length ≤ multiPart ∧ emit last chunk = .ok f := by
  induction part generalizing ptr sz frames with
  | zero =>
    obtain rfl := Except.ok.inj h
    exact fun f hf => nomatch hf
  | succ part ih =>
    obtain ⟨chunk, hchunk, h⟩ := bind_ok h
    obtain ⟨frame, hframe, h⟩ := bind_ok h
    obtain ⟨rest, hrest, h⟩ := bind_ok h
    obtain rfl := Except.ok.inj h
    refine List.forall_mem_cons.mpr ⟨⟨_, chunk, ?_, hframe⟩, ih hrest⟩
    -- a chunk has `multiPart` bytes at most
    have hsize : (if sz > multiPart then multiPart else sz) ≤ multiPart := by
      split_ifs <;> omega
    rwa [length_of_readAt hchunk]

/-- Every part frame carries the session. -/
theorem packreqMulti_session (hs : session < 2 ^ 31) {frames : List Bytes}
    (h : packreqMulti session msg sz = .ok frames) :
    ∀ f ∈ frames, sessionOf (f.drop 2) = session := by
  intro f hf
  obtain ⟨last, chunk, hlen, hpart⟩ := splitLoop_emits h f hf
  rw [packPart_eq _ _ hlen] at hpart
  obtain rfl := Except.ok.inj hpart
  rw [frame_drop, sessionOf, toUInt32_natCast (show session < 2 ^ 32 by omega),
    lunpackrequest_part last (by omega) (lt_of_le_of_lt hlen (by decide))]
  rfl

/-- The session behind a session. -/
def nextSession (session : ℕ) : ℕ := if session + 1 > 2 ^ 31 - 1 then 1 else session + 1

/-- What `packrequest` returns behind a request string. -/
private theorem packed_sessions (hs : session < 2 ^ 31) {newSession : ℕ} {packed : Packed}
    (hcarries : CarriesSession isPush sz session r)
    (h : (if r.2 ≠ 0 then do
        let padding ← packreqMulti session msg sz
        return ⟨r.1, newSession, some padding⟩
      else return ⟨r.1, newSession, none⟩) = (.ok packed : Except Fault Packed)) :
    packed.newSession = newSession ∧ ∀ f ∈ packed.request :: packed.padding.getD [],
      sessionOf (f.drop 2) = if isPush && packed.padding.isNone then 0 else session := by
  split_ifs at h with hmulti
  · obtain ⟨padding, hpadding, h⟩ := bind_ok h
    obtain rfl := Except.ok.inj h
    -- the request string announces parts, so the message is a long one
    have hle : multiPart ≤ sz := not_lt.mp fun hlt => hmulti (hcarries.parts.mpr hlt)
    refine ⟨rfl, List.forall_mem_cons.mpr ⟨?_, fun f hf => ?_⟩⟩
    · rw [hcarries.session_eq, carried_of_le hle]
      simp
    · rw [packreqMulti_session hs hpadding f hf]
      simp
  · obtain rfl := Except.ok.inj h
    have hlt := hcarries.parts.mp (not_not.mp hmulti)
    refine ⟨rfl, List.forall_mem_cons.mpr ⟨?_, fun f hf => nomatch hf⟩⟩
    rw [hcarries.session_eq, carried_of_lt hlt]
    simp

/-- **The session in every frame that `packrequest` returns**, and the next one. -/
theorem packrequest_sessions (hpos : 0 < session) (hs : session < 2 ^ 31) {addr : LuaValue}
    {msg : Option Bytes} {size : ℤ} {packed : Packed}
    (h : packrequest addr session msg size isPush = .ok packed) :
    packed.newSession = nextSession session ∧
      ∀ f ∈ packed.request :: packed.padding.getD [],
        sessionOf (f.drop 2) = if isPush && packed.padding.isNone then 0 else session := by
  cases msg with
  | none => exact nomatch h
  | some msg =>
    have hint : toInt32 (session : ℤ) = session := toInt32_of_lt (by omega) (by omega)
    have hwire : toUInt32 (session : ℤ) = session := toUInt32_natCast (by omega)
    simp only [packrequest, hint, hwire, if_neg (show ¬ (session : ℤ) ≤ 0 by omega)] at h
    split at h
    · obtain ⟨r, hhead, h⟩ := bind_ok h
      exact packed_sessions hs (packreqNumber_session hs (toUInt32_lt size) hhead) h
    · obtain ⟨r, hhead, h⟩ := bind_ok h
      exact packed_sessions hs (packreqString_session hs (toUInt32_lt size) hhead) h

end Frames

/-! ### The sender -/

/-- A message that is being sent: the session it was packed with, all of its frames, those that
are not on the wire yet, and how many sessions had been taken before. -/
structure Outgoing where
  isPush : Bool
  multi : Bool
  session : ℕ
  frames : List Bytes
  left : List Bytes
  number : ℕ
  deriving DecidableEq, Repr

/-- A request, or a push in several parts. -/
def Outgoing.Carries (o : Outgoing) : Prop := o.isPush = false ∨ o.multi = true

instance (o : Outgoing) : Decidable o.Carries := inferInstanceAs (Decidable (_ ∨ _))

/-- A frame on the wire, and whether it is of a request or of a push in several parts. -/
structure Written where
  carries : Bool
  frame : Bytes
  deriving DecidableEq, Repr

/-- The session in the frame. -/
def Written.session (w : Written) : ℕ := sessionOf (w.frame.drop 2)

/-- The counter `session`, how many sessions were taken, the messages that are being sent, by
the commands that sent them, and the wire. -/
structure ClusterSender where
  session : ℕ
  taken : ℕ
  out : ℕ → Option Outgoing
  commands : ℕ
  wire : List Written

/-- A command, the next frame of a message written, or the end of a message: it is answered, or
written completely, or the connection fails. -/
inductive SenderEvent
  | req (addr : LuaValue) (msg : Option Bytes) (sz : ℤ)
  | push (addr : LuaValue) (msg : Option Bytes) (sz : ℤ)
  | write (command : ℕ)
  | finish (command : ℕ)
  deriving DecidableEq, Repr

namespace ClusterSender

/-- No command has come. -/
def init : ClusterSender where
  session := 1
  taken := 0
  out _ := none
  commands := 0
  wire := []

variable (s : ClusterSender)

/-- A message that was packed with the counter. -/
def outgoing (isPush : Bool) (packed : Packed) : Outgoing where
  isPush := isPush
  multi := packed.padding.isSome
  session := s.session
  frames := packed.request :: packed.padding.getD []
  left := packed.request :: packed.padding.getD []
  number := s.taken

/-- `channel:request`, of a packed message. -/
def request (isPush : Bool) (packed : Packed) : ClusterSender :=
  { s with
    out := Function.update s.out s.commands (some (s.outgoing isPush packed))
    commands := s.commands + 1 }

/-- The counter is advanced. -/
def take (newSession : ℕ) : ClusterSender := { s with session := newSession, taken := s.taken + 1 }

/-- `send_request`, of a packed message. -/
def sendRequest (packed : Packed) : ClusterSender := (s.request false packed).take packed.newSession

/-- `command.push`, of a packed message. -/
def sendPush (packed : Packed) : ClusterSender :=
  if packed.padding.isSome then (s.request true packed).take packed.newSession
  else s.request true packed

/-- One event. A message that cannot be packed changes nothing. -/
def step (s : ClusterSender) : SenderEvent → Option ClusterSender
  | .req addr msg sz => some ((lpackrequest addr s.session msg sz).toOption.elim s s.sendRequest)
  | .push addr msg sz => some ((lpackpush addr s.session msg sz).toOption.elim s s.sendPush)
  | .write command =>
    match s.out command with
    | some o =>
      match o.left with
      | f :: left => some { s with
          out := Function.update s.out command (some { o with left := left })
          wire := s.wire ++ [⟨decide o.Carries, f⟩] }
      | [] => none
    | none => none
  | .finish command => some { s with out := Function.update s.out command none }

/-- Fewer than 2^31 - 1 sessions were taken while a message was outstanding. -/
def Fewer : Prop :=
  ∀ command o, s.out command = some o → o.Carries → s.taken - (o.number + 1) < 2 ^ 31 - 1

/-- Outstanding requests and pushes in several parts have sessions of their own, in the range of
sessions, and a push in one frame carries the session of none. -/
structure Apart : Prop where
  range : ∀ w ∈ s.wire, w.carries = true → 1 ≤ w.session ∧ w.session ≤ 2 ^ 31 - 1
  frames : ∀ command o, s.out command = some o → o.Carries →
    ∀ f ∈ o.frames, sessionOf (f.drop 2) = o.session
  distinct : ∀ command command' o o', command ≠ command' → s.out command = some o →
    s.out command' = some o' → o.Carries → o'.Carries → o.session ≠ o'.session
  single : ∀ w ∈ s.wire, w.carries = false → ∀ command o, s.out command = some o →
    o.Carries → w.session ≠ o.session

/-! ### The invariant -/

/-- The `n`-th session. -/
def sessionAt (n : ℕ) : ℕ := 1 + n % (2 ^ 31 - 1)

theorem sessionAt_pos (n : ℕ) : 0 < sessionAt n := by
  unfold sessionAt
  omega

theorem sessionAt_lt (n : ℕ) : sessionAt n < 2 ^ 31 := by
  unfold sessionAt
  omega

theorem nextSession_sessionAt (n : ℕ) : nextSession (sessionAt n) = sessionAt (n + 1) := by
  unfold nextSession sessionAt
  split_ifs <;> omega

/-- Sessions that are less than a cycle apart are different. -/
theorem sessionAt_ne {n n' : ℕ} (hlt : n < n') (hnear : n' - n < 2 ^ 31 - 1) :
    sessionAt n ≠ sessionAt n' := by
  unfold sessionAt
  omega

/-- The invariant of the sender: the counter is the next session, a message that carries a
session took it from the counter, and its frames carry it. -/
structure Inv : Prop where
  counter : s.session = sessionAt s.taken
  took : ∀ command o, s.out command = some o → o.Carries →
    o.session = sessionAt o.number ∧ o.number < s.taken
  distinct : ∀ command command' o o', command ≠ command' → s.out command = some o →
    s.out command' = some o' → o.Carries → o'.Carries → o.number ≠ o'.number
  frames : ∀ command o, s.out command = some o →
    ∀ f ∈ o.frames, sessionOf (f.drop 2) = if o.Carries then o.session else 0
  left : ∀ command o, s.out command = some o → o.left ⊆ o.frames
  new : ∀ command, s.commands ≤ command → s.out command = none
  wire : ∀ w ∈ s.wire, if w.carries then 1 ≤ w.session ∧ w.session ≤ 2 ^ 31 - 1 else w.session = 0

variable {s} {s' : ClusterSender}

theorem inv_init : Inv init where
  counter := rfl
  took _ _ h := nomatch h
  distinct _ _ _ _ _ h := nomatch h
  frames _ _ h := nomatch h
  left _ _ h := nomatch h
  new _ _ := rfl
  wire _ h := nomatch h

namespace Inv

/-- A message that was packed with the counter. -/
theorem packed (h : s.Inv) {addr : LuaValue} {msg : Option Bytes} {sz : ℤ} {isPush : Bool}
    {packed : Packed} (hpack : packrequest addr s.session msg sz isPush = .ok packed) :
    packed.newSession = sessionAt (s.taken + 1) ∧
      ∀ f ∈ packed.request :: packed.padding.getD [],
        sessionOf (f.drop 2) = if isPush && packed.padding.isNone then 0 else s.session := by
  rw [h.counter] at hpack ⊢
  rw [← nextSession_sessionAt]
  exact packrequest_sessions (sessionAt_pos _) (sessionAt_lt _) hpack

theorem carries_outgoing {isPush : Bool} {packed : Packed} :
    (s.outgoing isPush packed).Carries ↔ (isPush && packed.padding.isNone) = false := by
  show isPush = false ∨ packed.padding.isSome = true ↔ _
  cases isPush <;> cases packed.padding <;> simp

/-- What is being sent besides a new message. -/
theorem request_cases {isPush : Bool} {packed : Packed} {command : ℕ} {o : Outgoing}
    (ho : (s.request isPush packed).out command = some o) :
    (command = s.commands ∧ o = s.outgoing isPush packed) ∨
      (command ≠ s.commands ∧ s.out command = some o) := by
  by_cases hcommand : command = s.commands
  · subst hcommand
    have hself : (s.request isPush packed).out s.commands = some (s.outgoing isPush packed) :=
      Function.update_self ..
    exact Or.inl ⟨rfl, (Option.some.inj (hself.symm.trans ho)).symm⟩
  · have hother : (s.request isPush packed).out command = s.out command :=
      Function.update_of_ne hcommand ..
    exact Or.inr ⟨hcommand, hother.symm.trans ho⟩

theorem request_new (h : s.Inv) {isPush : Bool} {packed : Packed} :
    ∀ command, s.commands + 1 ≤ command → (s.request isPush packed).out command = none := by
  intro command hcommand
  have hother : (s.request isPush packed).out command = s.out command :=
    Function.update_of_ne (Nat.ne_of_gt hcommand) ..
  exact hother.trans (h.new command (Nat.le_of_succ_le hcommand))

theorem request_left (h : s.Inv) {isPush : Bool} {packed : Packed} :
    ∀ command o, (s.request isPush packed).out command = some o → o.left ⊆ o.frames := by
  intro command o ho
  rcases request_cases ho with ⟨-, rfl⟩ | ⟨-, ho⟩
  · exact List.Subset.refl _
  · exact h.left command o ho

/-- A message that takes a session. -/
theorem takes (h : s.Inv) {addr : LuaValue} {msg : Option Bytes} {sz : ℤ} {isPush : Bool}
    {packed : Packed} (hpack : packrequest addr s.session msg sz isPush = .ok packed)
    (hcarries : (isPush && packed.padding.isNone) = false) :
    ((s.request isPush packed).take packed.newSession).Inv := by
  obtain ⟨hnew, hframes⟩ := h.packed hpack
  rw [hcarries] at hframes
  refine ⟨hnew, ?_, ?_, ?_, h.request_left, h.request_new, h.wire⟩
  · intro command o ho hcarries
    rcases request_cases ho with ⟨-, rfl⟩ | ⟨-, ho⟩
    · exact ⟨h.counter, Nat.lt_succ_self _⟩
    · obtain ⟨hsession, hlt⟩ := h.took command o ho hcarries
      exact ⟨hsession, Nat.lt_succ_of_lt hlt⟩
  · -- the session of the new message was taken after all others
    intro command command' o o' hne ho ho' hc hc'
    rcases request_cases ho with ⟨rfl, rfl⟩ | ⟨-, ho⟩
    · rcases request_cases ho' with ⟨rfl, -⟩ | ⟨-, ho'⟩
      · exact absurd rfl hne
      · exact (Nat.ne_of_lt (h.took command' o' ho' hc').2).symm
    · rcases request_cases ho' with ⟨rfl, rfl⟩ | ⟨-, ho'⟩
      · exact Nat.ne_of_lt (h.took command o ho hc).2
      · exact h.distinct command command' o o' hne ho ho' hc hc'
  · intro command o ho f hf
    rcases request_cases ho with ⟨-, rfl⟩ | ⟨-, ho⟩
    · rw [if_pos (carries_outgoing.mpr hcarries)]
      exact hframes f hf
    · exact h.frames command o ho f hf

/-- A push in one frame. -/
theorem single (h : s.Inv) {addr : LuaValue} {msg : Option Bytes} {sz : ℤ} {packed : Packed}
    (hpack : packrequest addr s.session msg sz true = .ok packed)
    (hsingle : packed.padding = none) : (s.request true packed).Inv := by
  obtain ⟨-, hframes⟩ := h.packed hpack
  have hnone : (true && packed.padding.isNone) = true := by
    rw [hsingle]
    rfl
  rw [hnone] at hframes
  -- the push is sent with session 0, and carries none
  have hnot : ¬ (s.outgoing true packed).Carries := by
    rw [carries_outgoing, hnone]
    exact fun heq => nomatch heq
  refine ⟨h.counter, ?_, ?_, ?_, h.request_left, h.request_new, h.wire⟩
  · intro command o ho hcarries
    rcases request_cases ho with ⟨-, rfl⟩ | ⟨-, ho⟩
    · exact absurd hcarries hnot
    · exact h.took command o ho hcarries
  · intro command command' o o' hne ho ho' hc hc'
    rcases request_cases ho with ⟨-, rfl⟩ | ⟨-, ho⟩
    · exact absurd hc hnot
    · rcases request_cases ho' with ⟨-, rfl⟩ | ⟨-, ho'⟩
      · exact absurd hc' hnot
      · exact h.distinct command command' o o' hne ho ho' hc hc'
  · intro command o ho f hf
    rcases request_cases ho with ⟨-, rfl⟩ | ⟨-, ho⟩
    · rw [if_neg hnot]
      exact hframes f hf
    · exact h.frames command o ho f hf

/-- A message that is written further, or has ended: what it carries is what it carried. -/
theorem update (h : s.Inv) {command : ℕ} {o' : Option Outgoing} {w : List Written}
    (ho' : ∀ o₁, o' = some o₁ → ∃ o left, s.out command = some o ∧ left ⊆ o.left ∧
      o₁ = { o with left := left })
    (hwire : ∀ e ∈ w, if e.carries then 1 ≤ e.session ∧ e.session ≤ 2 ^ 31 - 1 else e.session = 0) :
    Inv { s with out := Function.update s.out command o', wire := w } := by
  -- a command has the frames of before, or fewer
  have hold : ∀ {c o₁}, Function.update s.out command o' c = some o₁ →
      ∃ o left, s.out c = some o ∧ left ⊆ o.left ∧ o₁ = { o with left := left } := by
    intro c o₁ ho₁
    rcases update_cases ho₁ with ⟨rfl, hnew⟩ | ⟨-, hold⟩
    · exact ho' o₁ hnew
    · exact ⟨o₁, o₁.left, hold, List.Subset.refl _, rfl⟩
  refine ⟨h.counter, ?_, ?_, ?_, ?_, ?_, hwire⟩
  · intro c o₁ ho₁ hcarries
    obtain ⟨o, left, ho, -, rfl⟩ := hold ho₁
    exact h.took c o ho hcarries
  · intro c c' o₁ o₂ hne ho₁ ho₂ hc hc'
    obtain ⟨o, left, ho, -, rfl⟩ := hold ho₁
    obtain ⟨o', left', ho', -, rfl⟩ := hold ho₂
    exact h.distinct c c' o o' hne ho ho' hc hc'
  · intro c o₁ ho₁ f hf
    obtain ⟨o, left, ho, -, rfl⟩ := hold ho₁
    exact h.frames c o ho f hf
  · intro c o₁ ho₁
    obtain ⟨o, left, ho, hsub, rfl⟩ := hold ho₁
    exact List.Subset.trans hsub (h.left c o ho)
  · intro c hc
    by_contra hsome
    obtain ⟨o₁, ho₁⟩ := Option.ne_none_iff_exists'.mp hsome
    obtain ⟨o, left, ho, -⟩ := hold ho₁
    exact nomatch (h.new c hc).symm.trans ho

/-- A frame of a message that is being sent. -/
theorem written (h : s.Inv) {command : ℕ} {o : Outgoing} {f : Bytes}
    (ho : s.out command = some o) (hf : f ∈ o.frames) :
    if (⟨decide o.Carries, f⟩ : Written).carries then
      1 ≤ Written.session ⟨decide o.Carries, f⟩ ∧ Written.session ⟨decide o.Carries, f⟩ ≤ 2 ^ 31 - 1
    else Written.session ⟨decide o.Carries, f⟩ = 0 := by
  have hsession : Written.session ⟨decide o.Carries, f⟩ = if o.Carries then o.session else 0 :=
    h.frames command o ho f hf
  rw [hsession]
  by_cases hcarries : o.Carries
  · have hpos := sessionAt_pos o.number
    have hlt := sessionAt_lt o.number
    rw [if_pos (decide_eq_true hcarries), if_pos hcarries, (h.took command o ho hcarries).1]
    omega
  · rw [if_neg fun htrue => hcarries (of_decide_eq_true htrue), if_neg hcarries]

/-- **A step keeps the invariant.** -/
theorem step (h : s.Inv) {e : SenderEvent} (hs : s.step e = some s') : s'.Inv := by
  cases e with
  | req addr msg sz =>
    obtain rfl := Option.some.inj hs
    cases hpack : lpackrequest addr s.session msg sz with
    | error => exact h
    | ok packed => exact h.takes hpack rfl
  | push addr msg sz =>
    obtain rfl := Option.some.inj hs
    cases hpack : lpackpush addr s.session msg sz with
    | error => exact h
    | ok packed =>
      show (s.sendPush packed).Inv
      unfold sendPush
      cases hpadding : packed.padding with
      | none => exact h.single hpack hpadding
      | some padding =>
        refine h.takes hpack ?_
        rw [hpadding]
        rfl
  | write command =>
    simp only [ClusterSender.step] at hs
    split at hs
    case h_1 o ho =>
      split at hs
      case h_1 f left hleft =>
        obtain rfl := Option.some.inj hs
        -- what is written is a frame that was packed for the command
        have hmem : f ∈ o.frames := h.left command o ho (hleft ▸ List.mem_cons_self)
        apply h.update
        · intro o₁ ho₁
          obtain rfl := Option.some.inj ho₁
          exact ⟨o, left, ho, hleft ▸ List.subset_cons_self f left, rfl⟩
        · intro w hw
          rcases List.mem_append.mp hw with hw | hw
          · exact h.wire w hw
          · obtain rfl := List.mem_singleton.mp hw
            exact h.written ho hmem
      case h_2 => exact nomatch hs
    case h_2 => exact nomatch hs
  | finish command =>
    obtain rfl := Option.some.inj hs
    exact h.update (fun _ heq => nomatch heq) h.wire

/-- A message that carries a session carries it in each of its frames. -/
theorem frames_of_carries (h : s.Inv) {command : ℕ} {o : Outgoing} (ho : s.out command = some o)
    (hcarries : o.Carries) : ∀ f ∈ o.frames, sessionOf (f.drop 2) = o.session := by
  intro f hf
  rw [h.frames command o ho f hf, if_pos hcarries]

/-- Messages that took their sessions less than a cycle ago carry different ones. -/
theorem session_ne (h : s.Inv) (hfew : s.Fewer) {command command' : ℕ} {o o' : Outgoing}
    (hne : command ≠ command') (ho : s.out command = some o) (ho' : s.out command' = some o')
    (hc : o.Carries) (hc' : o'.Carries) : o.session ≠ o'.session := by
  obtain ⟨hsession, hlt⟩ := h.took command o ho hc
  obtain ⟨hsession', hlt'⟩ := h.took command' o' ho' hc'
  have hfew₁ := hfew command o ho hc
  have hfew₂ := hfew command' o' ho' hc'
  rw [hsession, hsession']
  rcases Nat.lt_or_gt_of_ne (h.distinct command command' o o' hne ho ho' hc hc') with hle | hgt
  · exact sessionAt_ne hle (by omega)
  · exact (sessionAt_ne hgt (by omega)).symm

end Inv

/-- **Sessions of outstanding messages never clash**, as long as fewer sessions than there are
were taken since. -/
theorem sessions_never_clash (h : Reachable step anyStep init s) (hfew : s.Fewer) : s.Apart := by
  have hinv : s.Inv := h.invariant inv_init fun _ _ _ hinv _ hs => hinv.step hs
  refine ⟨?_, fun command o ho hc => hinv.frames_of_carries ho hc,
    fun _ _ _ _ hne ho ho' hc hc' => hinv.session_ne hfew hne ho ho' hc hc', ?_⟩
  · intro w hw hcarries
    have hwire := hinv.wire w hw
    rwa [if_pos hcarries] at hwire
  · intro w hw hsingle command o ho hc
    have hwire := hinv.wire w hw
    rw [hsingle, if_neg Bool.false_ne_true] at hwire
    rw [hwire, (hinv.took command o ho hc).1]
    exact (Nat.ne_of_gt (sessionAt_pos _)).symm

/-- A request, a message that cannot be packed, a push and a second request; their frames are
written while both requests wait. -/
def twoRequests : List SenderEvent :=
  [.req (.number 5) (some [1]) 1, .req (.boolean true) (some [1]) 1, .push (.number 5) (some [1]) 1,
    .req (.string [64]) (some [2]) 1, .write 0, .write 1, .write 2]

theorem sessions_never_clash_two :
    ∃ s, run step init twoRequests = some s ∧ s.wire.map Written.session = [1, 0, 2] ∧ s.Apart := by
  have hrun : (run step init twoRequests).map (fun s => (s.taken, s.wire.map Written.session)) =
      some (2, [1, 0, 2]) := by
    decide +kernel
  obtain ⟨s, hs, heq⟩ := Option.map_eq_some_iff.mp hrun
  obtain ⟨htaken, hwire⟩ := Prod.mk.inj heq
  refine ⟨s, hs, hwire, sessions_never_clash (.of_run hs) fun command o ho hc => ?_⟩
  rw [htaken]
  omega

end ClusterSender

end TestCluster.BeeCluster
