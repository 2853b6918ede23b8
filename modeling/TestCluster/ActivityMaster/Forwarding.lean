import TestCluster.Lua.Dispatcher
import TestCluster.Lua.Protopack

/-!
# Forwarding to the sub-services

`activity_master.lua` and `activity.lua`: a message to the master is redirected to
sub-services, and each of them answers the service that sent it.

## Main definitions

* `getAddrs` — `gtables.get_addrs`, the router
* `master` — the dispatch function of `activity_master`
* `activity` — the dispatch functions of `activity`
* `Delivered` — where a message with a uid has to go

## Main results

* `getAddrs_delivered` — the router sends a uid where it has to go
* `master_readable` — what the master forwards
* `activity_lua`, `activity_text` — a sub-service answers a `lua` message once, whatever its
  functions do, and a packet that can be read not at all
* `forwarded_unchanged_iff` — the call a forwarded `lua` message comes to is not the one of
  the message itself, when there is a function for it
-/

namespace TestCluster.ActivityMaster

open Semantics Lua

/-- The address of a service. -/
abbrev Handle := ℕ

/-- What follows the `sub_type` of a message to the master, and what a sub-service gets. -/
inductive Content
  | lua (args : List LuaValue)
  | text (netmsg : Option Bytes)
  deriving DecidableEq, Repr

/-- A message with the service that sent it and its session. -/
structure Message where
  source : Handle
  session : ℤ
  content : Content
  deriving DecidableEq, Repr

/-- A message that was redirected: for the sub-service, source and session are those of the
message to the master. -/
structure Redirected where
  addr : Handle
  source : Handle
  session : ℤ
  content : Content
  deriving DecidableEq, Repr

/-- `PTYPE_RESPONSE` or `PTYPE_ERROR`. -/
inductive ReplyType
  | response
  | error
  deriving DecidableEq, Repr

/-- A message that is sent back. -/
structure Reply where
  dest : Handle
  session : ℤ
  type : ReplyType
  deriving DecidableEq, Repr

/-- What is sent back for a session: nothing where there is none. -/
def reply (source : Handle) (session : ℤ) (type : ReplyType) : List Reply :=
  if session ≠ 0 then [⟨source, session, type⟩] else []

/-! ### The master -/

/-- `math.random(1, size)`. -/
def random (size draw : ℕ) : Except Fault ℕ :=
  if 1 ≤ size then .ok (1 + draw % size)
  else .error (.raised "bad argument #1 to 'random' (interval is empty)")

/-- `uid % size`. -/
def modulo (uid size : ℕ) : Except Fault ℕ :=
  if size = 0 then .error (.raised "attempt to perform 'n%%0'") else .ok (uid % size)

/-- `gtables.get_addrs`. Entries of `sub_services` are counted from 1. -/
def getAddrs (subServices : List Handle) (uid : LuaValue) (draw : ℕ) :
    Except Fault (List Handle) :=
  let size := subServices.length
  match uid with
  | .nil => do return subServices[(← random size draw) - 1]?.toList
  | .boolean false => do return subServices[(← random size draw) - 1]?.toList
  | .number uid =>
    if uid < 0 then do return subServices[(← random size draw) - 1]?.toList
    else if uid > 0 then do return subServices[1 + (← modulo uid.toNat size) - 1]?.toList
    else .ok subServices
  | _ => .error (.raised "attempt to compare a value with a number")

/-- `gtables` of the master, as far as a handler of messages could be found in it. -/
inductive MasterFunction
  | registerPb
  | getAddrs
  | getPbNames
  deriving DecidableEq, Repr

/-- `gtables` of the master. -/
def masterTables (name : Bytes) : Option MasterFunction :=
  if name = literal "register_pb" then some .registerPb
  else if name = literal "get_addrs" then some .getAddrs
  else if name = literal "get_pb_names" then some .getPbNames
  else none

/-- `pb_list`. -/
def pbList : List Bytes := [literal "pb.TestPingActivityREQ"]

/-- The dispatcher of a service after `dispatcher:regs`. -/
def dispatcherOf {F : Type} (ftable : Bytes → Option F) : Dispatcher F :=
  ((Dispatcher.new.regs ftable pbList).toOption.map Prod.fst).getD .new

/-- `naming_status_pb_name`. -/
def namingStatusPbName : List Bytes := []

section Master

variable {M : Type} (decode : Bytes → Bytes → Option M)

/-- What `activity_master` forwards for a message. -/
def master (subServices : List Handle) (m : Message) (draw : ℕ) :
    Except Fault (List Redirected) :=
  match m.content with
  | .lua args => do
    let cmd := args.headD .nil
    let uid := args.tail.headD .nil
    let addrs ← getAddrs subServices uid draw
    return addrs.map fun addr => ⟨addr, m.source, m.session, .lua (cmd :: args)⟩
  | .text none => .ok []
  | .text (some netmsg) => do
    let uid ← unpackNumber "> L".toList netmsg 5
    let (tempUid, tempName, tempMsg) ← unpackRaw decode netmsg
    if namingStatusPbName.contains tempName then
      -- no handler of the master ends in a response
      (dispatcherOf masterTables).dispatch (fun _ _ _ => .ok none) tempUid tempName tempMsg
        m.session
      return []
    else
      let addrs ← getAddrs subServices (.number uid.toInt) draw
      return addrs.map fun addr => ⟨addr, m.source, m.session, .text (some netmsg)⟩

end Master

/-! ### A sub-service -/

/-- The functions of a sub-service that a message can name. -/
inductive Handler
  | testPingActivity
  | registerPb
  | getPbNames
  | testPingActivityREQ
  deriving DecidableEq, Repr

/-- `CMD`. -/
def CMD (cmd : Bytes) : Option Handler :=
  if cmd = literal "test_ping_activity" then some .testPingActivity else none

/-- `gtables` of a sub-service. -/
def gtables (cmd : Bytes) : Option Handler :=
  if cmd = literal "register_pb" then some .registerPb
  else if cmd = literal "get_pb_names" then some .getPbNames
  else if cmd = literal "TestPingActivityREQ" then some .testPingActivityREQ
  else none

/-- A function and the arguments it is called with. -/
structure Call where
  f : Handler
  args : List LuaValue
  deriving DecidableEq, Repr

/-- The call that a `lua` message comes to. -/
def invoked (address : Handle) (cmd : LuaValue) (args : List LuaValue) : Except Fault Call :=
  match cmd with
  | .string cmd =>
    match CMD cmd with
    | some f => .ok ⟨f, .number address :: args⟩
    | none =>
      match gtables cmd with
      | some f => .ok ⟨f, args⟩
      | none => .error .assertion
  | _ => .error .assertion

/-- How a call ends, `skynet.pack` of what it returns included. -/
inductive Outcome
  | returned
  | raised
  deriving DecidableEq, Repr

section Activity

variable {M : Type} (decode : Bytes → Bytes → Option M)

/-- What a handler returns for a protobuf message. -/
def Handler.call (f : Handler) (_uid : Int64) (msg : Option M) :
    Except Fault (Option (Bytes × M)) :=
  match f with
  | .testPingActivityREQ => .ok none
  | .getPbNames => .ok none
  | .testPingActivity => .ok none
  | .registerPb =>
    match msg with
    | some _msg => .ok none
    | none => .error (.raised "bad argument #1 to 'for iterator' (table expected, got boolean)")

/-- `skynet.dispatch("text", ...)`. -/
def activityText (session : ℤ) (netmsg : Option Bytes) : Except Fault Unit :=
  match netmsg with
  | none => .ok ()
  | some netmsg => do
    let (uid, name, msg) ← unpackRaw decode netmsg
    (dispatcherOf gtables).dispatch Handler.call uid name msg session

/-- `skynet.dispatch("lua", ...)`: what the function returns is sent back, and whatever is
raised is answered with an error. -/
def activityLua (session : ℤ) (address : Handle) (cmd : LuaValue) (args : List LuaValue)
    (outcome : Outcome) : List Reply :=
  match invoked address cmd args, outcome with
  | .ok _, .returned => reply address session .response
  | .ok _, .raised => reply address session .error
  | .error _, _ => reply address session .error

/-- What a sub-service sends back. -/
def activity (r : Redirected) (outcome : Outcome) : List Reply :=
  match r.content with
  | .lua args => activityLua r.session r.source (args.headD .nil) args.tail outcome
  | .text netmsg =>
    match activityText decode r.session netmsg with
    | .ok () => []
    | .error _ => reply r.source r.session .error

end Activity

/-! ### Where a message goes -/

/-- Where a message with this uid has to go: to one sub-service, and with the uid 0 to all of
them. -/
structure Delivered (subServices : List Handle) (uid : LuaValue) (dests : List Handle) : Prop where
  positive : ∀ k, uid = .number k → 0 < k → ∃ addr ∈ subServices, dests = [addr]
  negative : ∀ k, uid = .number k → k < 0 → ∃ addr ∈ subServices, dests = [addr]
  absent : uid = .nil → ∃ addr ∈ subServices, dests = [addr]
  zero : uid = .number 0 → dests.Perm subServices

/-- The order in which the sub-services get a message does not matter. -/
theorem Delivered.perm {subServices : List Handle} {uid : LuaValue} {dests dests' : List Handle}
    (h : Delivered subServices uid dests) (hperm : dests'.Perm dests) :
    Delivered subServices uid dests' := by
  have hsingle : (∃ addr ∈ subServices, dests = [addr]) →
      ∃ addr ∈ subServices, dests' = [addr] := by
    rintro ⟨addr, hmem, rfl⟩
    exact ⟨addr, hmem, List.perm_singleton.mp hperm⟩
  constructor
  · exact fun k huid hk => hsingle (h.positive k huid hk)
  · exact fun k huid hk => hsingle (h.negative k huid hk)
  · exact fun huid => hsingle (h.absent huid)
  · exact fun huid => hperm.trans (h.zero huid)

/-- The sub-service of a positive uid. -/
def shard (subServices : List Handle) (uid : ℕ) : List Handle :=
  subServices[uid % subServices.length]?.toList

section Router

variable {subServices : List Handle}

/-- An entry of `sub_services` is one of the sub-services. -/
private theorem entry (hsubs : subServices ≠ []) (n : ℕ) :
    ∃ addr ∈ subServices, subServices[n % subServices.length]?.toList = [addr] := by
  have hpos : 0 < subServices.length := List.length_pos_iff.mpr hsubs
  have hlt : n % subServices.length < subServices.length := Nat.mod_lt n hpos
  refine ⟨subServices[n % subServices.length], List.getElem_mem hlt, ?_⟩
  rw [List.getElem?_eq_getElem hlt]
  rfl

private theorem entry_of_succ (n : ℕ) :
    subServices[1 + n - 1]?.toList = subServices[n]?.toList := by
  rw [Nat.add_sub_cancel_left]

/-- A random entry. -/
private theorem random_entry (hsubs : subServices ≠ []) (draw : ℕ) :
    (do return subServices[(← random subServices.length draw) - 1]?.toList :
      Except Fault (List Handle)) =
      .ok subServices[draw % subServices.length]?.toList := by
  have hpos : 1 ≤ subServices.length := List.length_pos_iff.mpr hsubs
  rw [random, if_pos hpos, ok_bind, entry_of_succ]
  rfl

theorem getAddrs_nil (hsubs : subServices ≠ []) (draw : ℕ) :
    getAddrs subServices .nil draw = .ok subServices[draw % subServices.length]?.toList :=
  random_entry hsubs draw

theorem getAddrs_neg (hsubs : subServices ≠ []) {uid : ℤ} (h : uid < 0) (draw : ℕ) :
    getAddrs subServices (.number uid) draw =
      .ok subServices[draw % subServices.length]?.toList := by
  rw [getAddrs]
  simp only [if_pos h]
  exact random_entry hsubs draw

/-- The router does not draw for a positive uid. -/
theorem getAddrs_pos (hsubs : subServices ≠ []) {uid : ℤ} (h : 0 < uid) (draw : ℕ) :
    getAddrs subServices (.number uid) draw = .ok (shard subServices uid.toNat) := by
  have hlen : subServices.length ≠ 0 := List.length_pos_iff.mpr hsubs |>.ne'
  have hneg : ¬ uid < 0 := by omega
  rw [getAddrs]
  simp only [if_neg hneg, if_pos h, modulo, if_neg hlen, ok_bind, entry_of_succ]
  rfl

theorem getAddrs_zero (draw : ℕ) : getAddrs subServices (.number 0) draw = .ok subServices := by
  rw [getAddrs]
  rfl

/-- With any other uid than 0, the router gives one sub-service. -/
theorem getAddrs_single (hsubs : subServices ≠ []) {uid : LuaValue} {draw : ℕ}
    {addrs : List Handle} (hne : uid ≠ .number 0)
    (h : getAddrs subServices uid draw = .ok addrs) : ∃ addr ∈ subServices, addrs = [addr] := by
  -- a random entry, or the one of the uid
  have hentry : ∃ n, addrs = subServices[n % subServices.length]?.toList := by
    cases uid with
    | nil => exact ⟨_, (Except.ok.inj ((getAddrs_nil hsubs draw).symm.trans h)).symm⟩
    | boolean b =>
      cases b with
      | false => exact ⟨_, (Except.ok.inj ((getAddrs_nil hsubs draw).symm.trans h)).symm⟩
      | true => exact nomatch h
    | number k =>
      rcases lt_trichotomy k 0 with hk | rfl | hk
      · exact ⟨_, (Except.ok.inj ((getAddrs_neg hsubs hk draw).symm.trans h)).symm⟩
      · exact absurd rfl hne
      · exact ⟨_, (Except.ok.inj ((getAddrs_pos hsubs hk draw).symm.trans h)).symm⟩
    | string s => exact nomatch h
    | object typename => exact nomatch h
  obtain ⟨n, rfl⟩ := hentry
  exact entry hsubs n

/-- The router sends every integer, and no uid at all, where it has to go. -/
theorem getAddrs_delivered (hsubs : subServices ≠ []) {uid : LuaValue} {draw : ℕ}
    {addrs : List Handle} (h : getAddrs subServices uid draw = .ok addrs) :
    Delivered subServices uid addrs := by
  constructor
  · rintro k rfl hk
    exact getAddrs_single hsubs (fun heq => by cases heq; omega) h
  · rintro k rfl hk
    exact getAddrs_single hsubs (fun heq => by cases heq; omega) h
  · rintro rfl
    have hne : LuaValue.nil ≠ .number 0 := nofun
    exact getAddrs_single hsubs hne h
  · rintro rfl
    rw [getAddrs_zero, Except.ok.injEq] at h
    rw [h]

/-- The uids of the router: an integer, or none. -/
def IsUid (uid : LuaValue) : Prop := uid = .nil ∨ ∃ k, uid = .number k

/-- Any other value has nowhere to go. -/
theorem Delivered.of_not_isUid {uid : LuaValue} (h : ¬ IsUid uid) (dests : List Handle) :
    Delivered subServices uid dests := by
  constructor
  · exact fun k huid => absurd (.inr ⟨k, huid⟩) h
  · exact fun k huid => absurd (.inr ⟨k, huid⟩) h
  · exact fun huid => absurd (.inl huid) h
  · exact fun huid => absurd (.inr ⟨0, huid⟩) h

theorem getAddrs_ok (hsubs : subServices ≠ []) {uid : LuaValue} (h : IsUid uid) (draw : ℕ) :
    ∃ addrs, getAddrs subServices uid draw = .ok addrs := by
  rcases h with rfl | ⟨k, rfl⟩
  · exact ⟨_, getAddrs_nil hsubs draw⟩
  · rcases lt_trichotomy k 0 with hk | rfl | hk
    · exact ⟨_, getAddrs_neg hsubs hk draw⟩
    · exact ⟨_, getAddrs_zero draw⟩
    · exact ⟨_, getAddrs_pos hsubs hk draw⟩

end Router

/-! ### What a message comes to -/

/-- The dispatcher of a sub-service has one handler. -/
theorem dispatcher_map (name : Bytes) :
    (dispatcherOf gtables).map name =
      if name = literal "pb.TestPingActivityREQ" then some .testPingActivityREQ else none := by
  have hregs : Dispatcher.new.regs gtables pbList =
      .ok (Dispatcher.new.bind (literal "pb.TestPingActivityREQ") .testPingActivityREQ, pbList) :=
    rfl
  rw [dispatcherOf, hregs]
  rfl

section Packets

variable {M : Type} (decode : Bytes → Bytes → Option M)

/-- The uid of a message: the second argument, or 8 bytes of the packet. -/
def Content.uid : Content → LuaValue
  | .lua args => args.tail.headD .nil
  | .text none => .nil
  | .text (some netmsg) =>
    (unpackNumber "> L".toList netmsg 5).toOption.elim .nil fun uid => .number uid.toInt

/-- A message that can be read: the packet of a `text` message is there, and unpacks. -/
def Content.Readable : Content → Prop
  | .lua _ => True
  | .text none => False
  | .text (some netmsg) => ∃ uid fields, unpackNumber "> L".toList netmsg 5 = .ok uid ∧
      unpackRaw decode netmsg = .ok fields

/-- A `text` message. -/
def Content.isText : Content → Bool
  | .lua _ => false
  | .text _ => true

/-- What is redirected for a `lua` message. -/
def Content.forwarded : Content → Content
  | .lua args => .lua (args.headD .nil :: args)
  | .text netmsg => .text netmsg

/-- **The master.** A message that can be read is redirected to the services of its uid, with
the source and the session it came with. -/
theorem master_readable {m : Message} (h : m.content.Readable decode)
    (subServices : List Handle) (draw : ℕ) :
    master decode subServices m draw =
      (getAddrs subServices m.content.uid draw).map fun addrs =>
        addrs.map fun addr => ⟨addr, m.source, m.session, m.content.forwarded⟩ := by
  obtain ⟨source, session, content⟩ := m
  rcases content with args | _ | netmsg
  · simp only [master, Content.uid]
    cases getAddrs subServices (args.tail.headD .nil) draw <;> rfl
  · exact h.elim
  · obtain ⟨uid, ⟨tempUid, tempName, tempMsg⟩, huid, hraw⟩ := h
    have hname : ¬ namingStatusPbName.contains tempName = true := by simp [namingStatusPbName]
    simp only [master, Content.uid, huid, hraw, ok_bind, if_neg hname, Except.toOption,
      Option.elim_some]
    cases getAddrs subServices (.number uid.toInt) draw <;> rfl

/-- For a packet that cannot be read the master raises. -/
theorem master_unreadable {m : Message} {netmsg : Bytes} (hm : m.content = .text (some netmsg))
    (h : ¬ m.content.Readable decode) (subServices : List Handle) (draw : ℕ) :
    ∃ e, master decode subServices m draw = .error e := by
  rw [hm] at h
  simp only [master, hm]
  cases huid : unpackNumber "> L".toList netmsg 5 with
  | error e => exact ⟨e, rfl⟩
  | ok uid =>
    cases hraw : unpackRaw decode netmsg with
    | error e => exact ⟨e, rfl⟩
    | ok fields => exact absurd ⟨uid, fields, huid, hraw⟩ h

/-- A sub-service answers a `lua` message exactly once, if it carries a session. -/
theorem activity_lua {r : Redirected} {args : List LuaValue} (h : r.content = .lua args)
    (outcome : Outcome) : ∃ type, activity decode r outcome = reply r.source r.session type := by
  simp only [activity, h, activityLua]
  cases invoked r.source (args.headD .nil) args.tail with
  | error => exact ⟨.error, rfl⟩
  | ok call =>
    cases outcome with
    | returned => exact ⟨.response, rfl⟩
    | raised => exact ⟨.error, rfl⟩

/-- The handler of a packet has no response. -/
theorem activityText_readable {netmsg : Option Bytes} (h : (Content.text netmsg).Readable decode)
    (session : ℤ) : activityText decode session netmsg = .ok () := by
  cases netmsg with
  | none => rfl
  | some netmsg =>
    obtain ⟨_, ⟨uid, name, msg⟩, -, hraw⟩ := h
    simp only [activityText, hraw, ok_bind]
    apply Dispatcher.dispatch_of_silent
    intro f hf
    rw [dispatcher_map] at hf
    split_ifs at hf
    obtain rfl := Option.some.inj hf
    rfl

/-- A sub-service does not answer a packet that can be read. -/
theorem activity_text {r : Redirected} {netmsg : Option Bytes} (h : r.content = .text netmsg)
    (hread : r.content.Readable decode) (outcome : Outcome) : activity decode r outcome = [] := by
  rw [h] at hread
  rw [activity, h]
  simp only [activityText_readable decode hread]

end Packets

/-! ### The call of a forwarded message -/

/-- The call that a message to a sub-service comes to. -/
def Redirected.call (r : Redirected) : Except Fault Call :=
  match r.content with
  | .lua args => invoked r.source (args.headD .nil) args.tail
  | .text _ => .error .assertion

/-- The forwarded message comes to the call of the message itself, with its session and its
source. -/
structure Unchanged (m : Message) (cmd : LuaValue) (args : List LuaValue) (r : Redirected) :
    Prop where
  source : r.source = m.source
  session : r.session = m.session
  call : r.call = invoked m.source cmd args

/-- A sub-service has a function of this name. -/
def Handled (cmd : Bytes) : Prop := CMD cmd ≠ none ∨ gtables cmd ≠ none

section Forwarded

variable {address : Handle} {cmd : Bytes} {args args' : List LuaValue}

/-- A function that is found is called with the arguments it is given. -/
theorem invoked_inj (hcmd : Handled cmd)
    (h : invoked address (.string cmd) args = invoked address (.string cmd) args') :
    args = args' := by
  simp only [invoked] at h
  cases hCMD : CMD cmd with
  | some f =>
    rw [hCMD] at h
    exact (List.cons.inj (Call.mk.inj (Except.ok.inj h)).2).2
  | none =>
    rw [hCMD] at h
    cases hgtables : gtables cmd with
    | some f =>
      rw [hgtables] at h
      exact (Call.mk.inj (Except.ok.inj h)).2
    | none => exact absurd (hcmd.elim (absurd hCMD) (absurd hgtables)) id

theorem invoked_of_not_handled (hcmd : ¬ Handled cmd) :
    invoked address (.string cmd) args = .error .assertion := by
  obtain ⟨hCMD, hgtables⟩ := not_or.mp hcmd
  simp only [invoked, not_not.mp hCMD, not_not.mp hgtables]

variable {M : Type} (decode : Bytes → Bytes → Option M) {subServices : List Handle}

/-- **What a forwarded `lua` message calls.** A command with its arguments, the uid first, is
forwarded with its session and its source. But the command is repeated in front of the uid, so
that the forwarded message comes to the call of the message itself only when no sub-service
has a function for it. -/
theorem forwarded_unchanged_iff (hsubs : subServices ≠ []) {m : Message}
    (hm : m.content = .lua (.string cmd :: args)) (huid : IsUid (args.headD .nil)) (draw : ℕ) :
    ∃ rs, master decode subServices m draw = .ok rs ∧ rs ≠ [] ∧
      ((∀ r ∈ rs, Unchanged m (.string cmd) args r) ↔ ¬ Handled cmd) := by
  have hreadable : m.content.Readable decode := by rw [hm]; exact trivial
  have hcontent : m.content.uid = args.headD .nil := by rw [hm]; rfl
  have hforwarded : m.content.forwarded = .lua (.string cmd :: .string cmd :: args) := by
    rw [hm]; rfl
  obtain ⟨addrs, haddrs⟩ := getAddrs_ok hsubs huid draw
  -- the router finds at least one sub-service
  have hne : addrs ≠ [] := by
    by_cases hzero : args.headD .nil = .number 0
    · rw [hzero, getAddrs_zero, Except.ok.injEq] at haddrs
      rwa [← haddrs]
    · obtain ⟨addr, -, rfl⟩ := getAddrs_single hsubs hzero haddrs
      exact List.cons_ne_nil addr []
  refine ⟨_, by rw [master_readable decode hreadable, hcontent, haddrs]; rfl, by simpa using hne,
    fun h hcmd => ?_, fun hcmd r hr => ?_⟩
  · obtain ⟨addr, rest, rfl⟩ := List.exists_cons_of_ne_nil hne
    have hcall := (h _ (List.mem_cons_self ..)).call
    rw [Redirected.call, hforwarded] at hcall
    -- one argument more than there should be
    have hargs := congrArg List.length (invoked_inj hcmd hcall)
    simp at hargs
  · obtain ⟨addr, -, rfl⟩ := List.mem_map.mp hr
    refine ⟨rfl, rfl, ?_⟩
    rw [Redirected.call, hforwarded]
    exact (invoked_of_not_handled hcmd).trans (invoked_of_not_handled hcmd).symm

/-- A ping for the uid 7 with one argument. -/
def pingMessage : Message where
  source := 5
  session := 3
  content := .lua [.string (literal "test_ping_activity"), .number 7, .boolean true]

theorem forwarded_unchanged_iff_ping :
    ∃ rs, master (M := Unit) (fun _ _ => none) [1, 2] pingMessage 0 = .ok rs ∧ rs ≠ [] ∧
      ((∀ r ∈ rs, Unchanged pingMessage (.string (literal "test_ping_activity"))
        [.number 7, .boolean true] r) ↔ ¬ Handled (literal "test_ping_activity")) :=
  forwarded_unchanged_iff _ (by decide) rfl (.inr ⟨7, rfl⟩) 0

/-- The function gets its own name in place of the uid. -/
theorem ping_repeats_command :
    ∃ rs r, master (M := Unit) (fun _ _ => none) [1, 2] pingMessage 0 = .ok rs ∧ r ∈ rs ∧
      r.call = .ok ⟨.testPingActivity, [.number 5, .string (literal "test_ping_activity"),
        .number 7, .boolean true]⟩ ∧
      ¬ Unchanged pingMessage (.string (literal "test_ping_activity"))
        [.number 7, .boolean true] r := by
  refine ⟨_, ⟨2, 5, 3, .lua [.string (literal "test_ping_activity"),
    .string (literal "test_ping_activity"), .number 7, .boolean true]⟩, rfl, by decide, by decide,
    fun h => ?_⟩
  exact absurd h.call (by decide)

end Forwarded

end TestCluster.ActivityMaster
