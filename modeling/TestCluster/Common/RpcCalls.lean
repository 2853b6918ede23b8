import TestCluster.Common.Rpc

/-!
# Answers reach their own callers

Whatever carries a session that a service waits for, a request, a responder or a response,
belongs to the one call that was made in it; and the user, the session and the source come
back as they were sent. So the function of a call can only get the answer to that call.

## Main definitions

* `RpcNet.Owns` — what carries a session, and for which call
* `RpcNet.Carried` — a packet was packed for the call that it belongs to
* `RpcNet.Inv` — the invariant of the net

## Main results

* `RpcNet.Inv.perform` — what a service does keeps the invariant
* `RpcNet.Inv.poll` — and so does the delivery of a packet
* `answers_reach_callers` — every function that runs gets the answer to its own call
-/

namespace TestCluster.Common

open Semantics

/-! ### Tables -/

section Update

variable {α : Type} {f : ℕ → ℤ → α} {c c' : ℕ} {k k' : ℤ} {a : α}

theorem update₂_self : update₂ f c k a c k = a := if_pos ⟨rfl, rfl⟩

theorem update₂_of_ne (h : ¬ (c' = c ∧ k' = k)) : update₂ f c k a c' k' = f c' k' := if_neg h

/-- A value that was not put there was there before. -/
theorem update₂_cases {b : α} (h : update₂ f c k a c' k' = b) :
    (c' = c ∧ k' = k ∧ a = b) ∨ f c' k' = b := by
  by_cases hsame : c' = c ∧ k' = k
  · obtain ⟨rfl, rfl⟩ := hsame
    exact Or.inl ⟨rfl, rfl, update₂_self.symm.trans h⟩
  · exact Or.inr ((update₂_of_ne hsame).symm.trans h)

end Update

/-! ### Packed messages -/

section Packed

variable {M : Type} {pb : Protobuf M} {msg : M} {uid : Int64} {type : UInt32} {data : Bytes}

/-- What a packet of a message is decoded to: the message, and the user. -/
theorem decode_packed (h : RpcNet.serializeImsgType pb msg uid type = some data)
    {r : InPack × Bool}
    (hr : Checked.innerReset .new (data.drop 4) (data.length - 4) = .ok r) :
    r.2 = true ∧ createMessage pb.parse (data.drop 4) r.1 = some msg ∧ r.1.uid = uid := by
  have hname := pb.typeName_length msg
  have hdata := pb.serialize_length msg
  rw [kMaxTypeNameLen] at hname
  have hpack := OutPack.newInnerpackType_eq (o := ⟨pb.typeName msg, pb.serialize msg⟩) uid.toUInt64
    type 0 (by simp only; omega)
  rw [RpcNet.serializeImsgType, hpack] at h
  obtain rfl := Option.some.inj h
  rw [List.drop_left' (length_beBytes 4 _), List.length_append, length_beBytes,
    Nat.add_sub_cancel_left] at hr
  have hlen := (OutPack.mk (pb.typeName msg) (pb.serialize msg)).length_innerBody uid.toUInt64 0
  have hlt : ((OutPack.mk (pb.typeName msg) (pb.serialize msg)).innerBody uid.toUInt64 0).length <
      2 ^ 32 := by
    rw [hlen]
    simp only
    omega
  obtain ⟨p', hreset, huid, hcarries⟩ := InPack.innerReset_innerBody
    ⟨pb.typeName msg, pb.serialize msg⟩ 0 uid.toUInt64 .new (pb.typeName_length msg) hlt
  -- the checked decoder does what the decoder does, which reads back what was packed
  obtain rfl := Except.ok.inj ((Checked.innerReset_sound hlt hr).symm.trans hreset)
  have huid : p'.uid = uid := by
    rw [← Int64.toInt64_toUInt64 p'.uid, ← Int64.toInt64_toUInt64 uid]
    exact congrArg UInt64.toInt64 huid
  refine ⟨rfl, ?_, huid⟩
  have hpayload := hcarries.payload
  rw [InPack.payload, readAt_ok_iff] at hpayload
  rw [createMessage, List.drop_left' (length_beBytes 4 _), hcarries.typeName]
  rw [← slice, hpayload.2]
  exact pb.parse_serialize msg

end Packed

/-- The call that an entry of the log is about. -/
def Entry.call {M : Type} : Entry M → ℕ
  | called call _ _ _ => call
  | cancelled call => call
  | produced call _ => call
  | ran call _ _ => call

namespace RpcNet

variable {M : Type} {pb : Protobuf M} {registered : ℕ → Bytes → Bool} {s s' : RpcNet M}

/-! ### The invariant -/

/-- What carries the session that the service waits in, and for which call. -/
def Owns (s : RpcNet M) (client : ℕ) (session : ℤ) (call : ℕ) : Prop :=
  s.rpc client session = some (.func call) ∨
    (∃ p ∈ s.packets, p.caller = client ∧ p.session = session ∧ p.call = call) ∨
    ∃ r ∈ s.responders, r.source = client ∧ r.session = session ∧ r.call = call

/-- The packet was packed for the call that it belongs to; a response carries what the server
produced. -/
def Carried (pb : Protobuf M) (log : List (Entry M)) (p : Packet) : Prop :=
  ∃ msg uid type, serializeImsgType pb msg uid type = some p.data ∧
    .called p.call p.caller p.session uid ∈ log ∧
    (p.type = ptypeResponse → .produced p.call msg ∈ log)

/-- The call was not cancelled, and its function has not run. -/
def Unused (call : ℕ) (log : List (Entry M)) : Prop :=
  .cancelled call ∉ log ∧ ∀ msg uid, .ran call msg uid ∉ log

/-- The invariant of the net, while the function of the entry `busy` runs. -/
structure Inv (pb : Protobuf M) (busy : Option (ℕ × ℤ)) (s : RpcNet M) : Prop where
  packets : ∀ p ∈ s.packets, Carried pb s.log p
  responders : ∀ r ∈ s.responders, .called r.call r.source r.session r.uid ∈ s.log
  entries : ∀ c k call, s.rpc c k = some (.func call) →
    s.latest c k = some call ∧ (busy ≠ some (c, k) → Unused call s.log)
  latest : ∀ c k call, s.latest c k = some call → ∃ uid, .called call c k uid ∈ s.log
  owner : ∀ c k call call', s.Owns c k call → s.Owns c k call' → call = call'
  bound : ∀ e ∈ s.log, e.call < s.nextCall
  unique : ∀ call c k uid c' k' uid', .called call c k uid ∈ s.log →
    .called call c' k' uid' ∈ s.log → c = c' ∧ k = k' ∧ uid = uid'
  sound : Sound s.log

theorem inv_init : Inv pb none (init M) where
  packets _ hp := nomatch hp
  responders _ hr := nomatch hr
  entries _ _ _ h := nomatch h
  latest _ _ _ h := nomatch h
  owner := by
    rintro c k call call' (h | ⟨p, hp, -⟩ | ⟨r, hr, -⟩)
    · exact nomatch h
    · exact nomatch hp
    · exact nomatch hr
  bound _ he := nomatch he
  unique _ _ _ _ _ _ _ h := nomatch h
  sound := trivial

theorem Carried.mono {log log' : List (Entry M)} {p : Packet} (h : Carried pb log p)
    (hlog : log ⊆ log') : Carried pb log' p := by
  obtain ⟨msg, uid, type, hdata, hcalled, hproduced⟩ := h
  exact ⟨msg, uid, type, hdata, hlog hcalled, fun htype => hlog (hproduced htype)⟩

/-! ### Fewer carriers -/

namespace Inv

variable {busy : Option (ℕ × ℤ)}

/-- Losing entries, packets and responders keeps the invariant. -/
theorem of_sub (h : Inv pb busy s)
    (hrpc : ∀ c k call, s'.rpc c k = some (.func call) → s.rpc c k = some (.func call))
    (hpackets : s'.packets ⊆ s.packets) (hresponders : s'.responders ⊆ s.responders)
    (hlatest : s'.latest = s.latest) (hlog : s'.log = s.log) (hnext : s'.nextCall = s.nextCall) :
    Inv pb busy s' := by
  -- what carries a session now carried it before
  have howns : ∀ c k call, s'.Owns c k call → s.Owns c k call := by
    rintro c k call (hentry | ⟨p, hp, hcarries⟩ | ⟨r, hr, hcarries⟩)
    · exact Or.inl (hrpc c k call hentry)
    · exact Or.inr (Or.inl ⟨p, hpackets hp, hcarries⟩)
    · exact Or.inr (Or.inr ⟨r, hresponders hr, hcarries⟩)
  constructor
  · rw [hlog]
    exact fun p hp => h.packets p (hpackets hp)
  · rw [hlog]
    exact fun r hr => h.responders r (hresponders hr)
  · rw [hlog, hlatest]
    exact fun c k call hentry => h.entries c k call (hrpc c k call hentry)
  · rw [hlog, hlatest]
    exact h.latest
  · intro c k call call' hc hc'
    exact h.owner c k call call' (howns c k call hc) (howns c k call' hc')
  · rw [hlog, hnext]
    exact h.bound
  · rw [hlog]
    exact h.unique
  · rw [hlog]
    exact h.sound

theorem erase (h : Inv pb busy s) (c : ℕ) (k : ℤ) : Inv pb busy (s.erase c k) := by
  refine h.of_sub ?_ (List.Subset.refl _) (List.Subset.refl _) rfl rfl rfl
  intro c' k' call hentry
  rcases update₂_cases hentry with ⟨-, -, hnone⟩ | hentry
  · cases hnone
  · exact hentry

/-- Once the entry of the function that ran is gone, none is excepted. -/
theorem erase_busy {c : ℕ} {k : ℤ} (h : Inv pb (some (c, k)) s) : Inv pb none (s.erase c k) := by
  have herased := h.erase c k
  refine { herased with entries := fun c' k' call hentry => ?_ }
  obtain ⟨hlatest, hunused⟩ := herased.entries c' k' call hentry
  refine ⟨hlatest, fun _ => hunused ?_⟩
  -- the excepted entry is the one that is gone
  intro heq
  obtain ⟨rfl, rfl⟩ := Prod.mk.inj (Option.some.inj heq)
  cases update₂_self.symm.trans hentry

theorem remove (h : Inv pb busy s) (i : ℕ) : Inv pb busy (s.remove i) :=
  h.of_sub (fun _ _ _ => id) (List.eraseIdx_subset ..) (List.Subset.refl _) rfl rfl rfl

/-! ### A longer log -/

/-- Something other than a call is recorded. -/
theorem record {busy' : Option (ℕ × ℤ)} (h : Inv pb busy s) {e : Entry M}
    (hbusy : ∀ x, busy' ≠ some x → busy ≠ some x) (hcall : e.call < s.nextCall)
    (hother : ∀ call c k uid, .called call c k uid ≠ e)
    (hunused : ∀ c k call, s.rpc c k = some (.func call) → busy' ≠ some (c, k) →
      Unused call s.log → Unused call (e :: s.log))
    (hsound : Sound (e :: s.log)) : Inv pb busy' { s with log := e :: s.log } where
  packets p hp := (h.packets p hp).mono (List.subset_cons_self e s.log)
  responders r hr := List.mem_cons_of_mem e (h.responders r hr)
  entries c k call hentry := by
    obtain ⟨hlatest, hold⟩ := h.entries c k call hentry
    exact ⟨hlatest, fun hne => hunused c k call hentry hne (hold (hbusy _ hne))⟩
  latest c k call hlatest := by
    obtain ⟨uid, hcalled⟩ := h.latest c k call hlatest
    exact ⟨uid, List.mem_cons_of_mem e hcalled⟩
  owner := h.owner
  bound := List.forall_mem_cons.mpr ⟨hcall, h.bound⟩
  unique call c k uid c' k' uid' hcalled hcalled' :=
    h.unique call c k uid c' k' uid' (List.mem_of_ne_of_mem (hother call c k uid) hcalled)
      (List.mem_of_ne_of_mem (hother call c' k' uid') hcalled')
  sound := hsound

/-- The server produces an answer. -/
theorem produced (h : Inv pb busy s) {call : ℕ} (hcall : call < s.nextCall) (msg : M) :
    Inv pb busy { s with log := .produced call msg :: s.log } := by
  refine h.record (fun _ => id) hcall (fun _ _ _ _ heq => (nomatch heq)) ?_ h.sound
  intro c k call' _ _ hunused
  exact ⟨List.not_mem_cons_of_ne_of_not_mem (fun heq => (nomatch heq)) hunused.1,
    fun msg' uid => List.not_mem_cons_of_ne_of_not_mem (fun heq => (nomatch heq))
      (hunused.2 msg' uid)⟩

/-- A session is cancelled, and its call has no entry. -/
theorem cancelled (h : Inv pb busy s) {call : ℕ} (hcall : call < s.nextCall)
    (hentry : ∀ c k, s.rpc c k ≠ some (.func call)) :
    Inv pb busy { s with log := .cancelled call :: s.log } := by
  refine h.record (fun _ => id) hcall (fun _ _ _ _ heq => (nomatch heq)) ?_ h.sound
  intro c k call' hentry' _ hunused
  constructor
  · apply List.not_mem_cons_of_ne_of_not_mem _ hunused.1
    intro heq
    obtain rfl := Entry.cancelled.inj heq
    exact hentry c k hentry'
  · exact fun msg' uid => List.not_mem_cons_of_ne_of_not_mem (fun heq => (nomatch heq))
      (hunused.2 msg' uid)

/-- The function of an entry runs, with what was produced for its call. -/
theorem ran (h : Inv pb none s) {c : ℕ} {k : ℤ} {call : ℕ} {msg : M} {uid : Int64}
    (hentry : s.rpc c k = some (.func call)) (hcalled : .called call c k uid ∈ s.log)
    (hproduced : .produced call msg ∈ s.log) :
    Inv pb (some (c, k)) { s with log := .ran call msg uid :: s.log } := by
  obtain ⟨hlatest, hidle⟩ := h.entries c k call hentry
  obtain ⟨hcancelled, hran⟩ := hidle (fun heq => (nomatch heq))
  have hcall : call < s.nextCall := h.bound (.called call c k uid) hcalled
  refine h.record (fun _ _ heq => (nomatch heq)) hcall
    (fun _ _ _ _ heq => (nomatch heq)) ?_ ⟨⟨⟨c, k, hcalled⟩, hcancelled, hran, hproduced⟩, h.sound⟩
  intro c' k' call' hentry' hbusy hunused
  refine ⟨List.not_mem_cons_of_ne_of_not_mem (fun heq => (nomatch heq)) hunused.1,
    fun msg' uid' => ?_⟩
  apply List.not_mem_cons_of_ne_of_not_mem _ (hunused.2 msg' uid')
  -- another entry belongs to another call
  intro heq
  obtain ⟨rfl, -, -⟩ := Entry.ran.inj heq
  obtain ⟨uid₁, hcalled₁⟩ := h.latest c' k' call' (h.entries c' k' call' hentry').1
  obtain ⟨rfl, rfl, -⟩ := h.unique call' c k uid c' k' uid₁ hcalled hcalled₁
  exact hbusy rfl

theorem rpcCancel (h : Inv pb busy s) (c : ℕ) (k : ℤ) : Inv pb busy (s.rpcCancel c k) := by
  rw [RpcNet.rpcCancel]
  cases hlatest : s.latest c k with
  | none => exact h.erase c k
  | some call =>
    obtain ⟨uid, hcalled⟩ := h.latest c k call hlatest
    apply (h.erase c k).cancelled (h.bound _ hcalled)
    intro c' k' hentry
    obtain ⟨uid', hcalled'⟩ := h.latest c' k' call ((h.erase c k).entries c' k' call hentry).1
    obtain ⟨rfl, rfl, -⟩ := h.unique call c k uid c' k' uid' hcalled hcalled'
    exact nomatch update₂_self.symm.trans hentry

/-! ### More carriers -/

/-- A packet is added for the call that owns its session. -/
theorem addPacket (h : Inv pb busy s) {p : Packet} (hp : Carried pb s.log p)
    (hown : ∀ call, s.Owns p.caller p.session call → call = p.call) :
    Inv pb busy { s with packets := s.packets ++ [p] } := by
  -- the packet is the only new carrier of a session
  have howns : ∀ c k call, ({ s with packets := s.packets ++ [p] } : RpcNet M).Owns c k call →
      s.Owns c k call ∨ (p.caller = c ∧ p.session = k ∧ p.call = call) := by
    rintro c k call (hentry | ⟨q, hq, hcarries⟩ | hresponder)
    · exact Or.inl (Or.inl hentry)
    · rcases List.mem_append.mp hq with hq | hq
      · exact Or.inl (Or.inr (Or.inl ⟨q, hq, hcarries⟩))
      · obtain rfl := List.mem_singleton.mp hq
        exact Or.inr hcarries
    · exact Or.inl (Or.inr (Or.inr hresponder))
  refine { h with
    packets := List.forall_mem_append.mpr ⟨h.packets, List.forall_mem_singleton.mpr hp⟩
    owner := ?_ }
  · intro c k call call' hc hc'
    rcases howns c k call hc with hold | ⟨rfl, rfl, rfl⟩
    · rcases howns c k call' hc' with hold' | ⟨rfl, rfl, rfl⟩
      · exact h.owner c k call call' hold hold'
      · exact hown call hold
    · rcases howns _ _ call' hc' with hold' | ⟨-, -, rfl⟩
      · exact (hown call' hold').symm
      · rfl

theorem send (h : Inv pb busy s) {p : Packet} (hp : Carried pb s.log p)
    (hown : ∀ call, s.Owns p.caller p.session call → call = p.call) : Inv pb busy (s.send p) := by
  rw [RpcNet.send]
  split_ifs
  · exact h
  · exact h.addPacket hp hown

/-- A responder is added for the call that owns its session. -/
theorem addResponder (h : Inv pb busy s) {r : Responder}
    (hr : .called r.call r.source r.session r.uid ∈ s.log)
    (hown : s.Owns r.source r.session r.call) :
    Inv pb busy { s with responders := s.responders ++ [r] } := by
  -- the responder carries a session that its call has owned before
  have howns : ∀ c k call,
      ({ s with responders := s.responders ++ [r] } : RpcNet M).Owns c k call →
      s.Owns c k call := by
    rintro c k call (hentry | hpacket | ⟨q, hq, hcarries⟩)
    · exact Or.inl hentry
    · exact Or.inr (Or.inl hpacket)
    · rcases List.mem_append.mp hq with hq | hq
      · exact Or.inr (Or.inr ⟨q, hq, hcarries⟩)
      · obtain rfl := List.mem_singleton.mp hq
        obtain ⟨rfl, rfl, rfl⟩ := hcarries
        exact hown
  exact { h with
    responders := List.forall_mem_append.mpr ⟨h.responders, List.forall_mem_singleton.mpr hr⟩
    owner := fun c k call call' hc hc' =>
      h.owner c k call call' (howns c k call hc) (howns c k call' hc') }

/-- What `response` comes to. -/
theorem response_eq {r : Responder} {msg : M} (hs : s.response pb msg r = some s') :
    ∃ data type, serializeImsgType pb msg r.uid type = some data ∧
      s' = ({ s with log := .produced r.call msg :: s.log } : RpcNet M).send
        ⟨r.server, r.source, ptypeResponse, r.session, data, r.call⟩ := by
  rw [RpcNet.response, Option.map_eq_some_iff] at hs
  obtain ⟨data, hdata, rfl⟩ := hs
  refine ⟨data, _, hdata, ?_⟩
  simp only [RpcNet.send]
  split_ifs <;> rfl

/-- An answer goes to the service that waits for it. -/
theorem response (h : Inv pb busy s) {r : Responder} {msg : M}
    (hr : .called r.call r.source r.session r.uid ∈ s.log)
    (hown : s.Owns r.source r.session r.call) (hs : s.response pb msg r = some s') :
    Inv pb busy s' := by
  obtain ⟨data, type, hdata, rfl⟩ := response_eq hs
  apply (h.produced (h.bound _ hr) msg).send
  · exact ⟨msg, r.uid, type, hdata, List.mem_cons_of_mem _ hr, fun _ => List.mem_cons_self⟩
  · intro call hcall
    exact h.owner _ _ call r.call hcall hown

/-- What `rpc_call` comes to: the call is recorded, and its request is sent. -/
theorem rpcCall_eq {c dest : ℕ} {k : ℤ} {msg : M} {uid : Int64} {null : Bool}
    (hs : s.rpcCall pb c dest k msg uid null = some s') :
    s.fresh c k ∧ ∃ data type, serializeImsgType pb msg uid type = some data ∧
      s' = (s.called c k uid null).send ⟨c, dest, ptypeText, k, data, s.nextCall⟩ := by
  rw [RpcNet.rpcCall] at hs
  split_ifs at hs with hfresh
  rw [Option.map_eq_some_iff] at hs
  obtain ⟨data, hdata, rfl⟩ := hs
  refine ⟨hfresh, data, _, hdata, ?_⟩
  simp only [RpcNet.send, RpcNet.called]
  split_ifs <;> rfl

/-- The entry of the session is for the new call. -/
theorem entry_called {c call : ℕ} {k : ℤ} {uid : Int64} {null : Bool}
    (hcall : (s.called c k uid null).rpc c k = some (.func call)) : call = s.nextCall := by
  have hnew := update₂_self.symm.trans hcall
  split_ifs at hnew
  · cases hnew
  · exact (RpcCallback.func.inj (Option.some.inj hnew)).symm

/-- Nothing but the new entry has to do with the new call, and what carries another session is as
before. -/
theorem owns_called {c c' call : ℕ} {k k' : ℤ} (hfresh : s.fresh c k) {uid : Int64} {null : Bool}
    (howner : (s.called c k uid null).Owns c' k' call) :
    (c' = c ∧ k' = k ∧ call = s.nextCall) ∨ (¬ (c' = c ∧ k' = k) ∧ s.Owns c' k' call) := by
  obtain ⟨-, hpackets, hresponders⟩ := hfresh
  by_cases hsame : c' = c ∧ k' = k
  · obtain ⟨rfl, rfl⟩ := hsame
    rcases howner with hcall | ⟨p, hp, hcaller, hsession, -⟩ | ⟨r, hr, hsource, hsession, -⟩
    · exact Or.inl ⟨rfl, rfl, entry_called hcall⟩
    · exact absurd ⟨hcaller, hsession⟩ (hpackets p hp)
    · exact absurd ⟨hsource, hsession⟩ (hresponders r hr)
  · refine Or.inr ⟨hsame, ?_⟩
    rcases howner with hcall | hcarries
    · exact Or.inl ((update₂_of_ne hsame).symm.trans hcall)
    · exact Or.inr hcarries

/-- A call is recorded in a session that nothing carries. -/
theorem called (h : Inv pb busy s) {c : ℕ} {k : ℤ} (hfresh : s.fresh c k) (uid : Int64)
    (null : Bool) : Inv pb busy (s.called c k uid null) := by
  -- calls are numbered, so nothing in the log is about the new one
  have hold : ∀ {call}, call = s.nextCall → ∀ e ∈ s.log, e.call ≠ call := by
    rintro call rfl e he
    exact Nat.ne_of_lt (h.bound e he)
  have hunused : ∀ {call}, Unused call s.log → Unused call (s.called c k uid null).log := by
    intro call hold
    exact ⟨List.not_mem_cons_of_ne_of_not_mem (fun heq => by cases heq) hold.1,
      fun msg uid => List.not_mem_cons_of_ne_of_not_mem (fun heq => by cases heq) (hold.2 msg uid)⟩
  constructor
  case packets => exact fun p hp => (h.packets p hp).mono (List.subset_cons_self _ s.log)
  case responders => exact fun r hr => List.mem_cons_of_mem _ (h.responders r hr)
  case entries =>
    intro c' k' call hcall
    by_cases hsame : c' = c ∧ k' = k
    · obtain ⟨rfl, rfl⟩ := hsame
      obtain rfl := entry_called hcall
      refine ⟨update₂_self, fun _ => hunused ⟨?_, ?_⟩⟩
      · exact fun hin => hold rfl _ hin rfl
      · exact fun msg uid hin => hold rfl _ hin rfl
    · obtain ⟨hlatest, hidle⟩ := h.entries c' k' call ((update₂_of_ne hsame).symm.trans hcall)
      exact ⟨(update₂_of_ne hsame).trans hlatest, fun hbusy => hunused (hidle hbusy)⟩
  case latest =>
    intro c' k' call hlatest
    rcases update₂_cases hlatest with ⟨rfl, rfl, hcall⟩ | hlatest
    · obtain rfl := Option.some.inj hcall
      exact ⟨uid, List.mem_cons_self⟩
    · obtain ⟨uid', hcalled⟩ := h.latest c' k' call hlatest
      exact ⟨uid', List.mem_cons_of_mem _ hcalled⟩
  case owner =>
    intro c' k' call call' hc hc'
    rcases owns_called hfresh hc with ⟨rfl, rfl, rfl⟩ | ⟨hne, hc⟩
    · rcases owns_called hfresh hc' with ⟨-, -, rfl⟩ | ⟨hne', -⟩
      · rfl
      · exact absurd ⟨rfl, rfl⟩ hne'
    · rcases owns_called hfresh hc' with ⟨rfl, rfl, -⟩ | ⟨-, hc'⟩
      · exact absurd ⟨rfl, rfl⟩ hne
      · exact h.owner c' k' call call' hc hc'
  case bound =>
    exact List.forall_mem_cons.mpr ⟨Nat.lt_succ_self _,
      fun e he => Nat.lt_succ_of_lt (h.bound e he)⟩
  case unique =>
    intro call c₁ k₁ uid₁ c₂ k₂ uid₂ h₁ h₂
    rcases List.mem_cons.mp h₁ with h₁ | h₁
    · rcases List.mem_cons.mp h₂ with h₂ | h₂
      · obtain ⟨-, rfl, rfl, rfl⟩ := Entry.called.inj (h₁.trans h₂.symm)
        exact ⟨rfl, rfl, rfl⟩
      · exact absurd rfl (hold (Entry.called.inj h₁).1 _ h₂)
    · rcases List.mem_cons.mp h₂ with h₂ | h₂
      · exact absurd rfl (hold (Entry.called.inj h₂).1 _ h₁)
      · exact h.unique call c₁ k₁ uid₁ c₂ k₂ uid₂ h₁ h₂
  case sound => exact h.sound

/-- A call is made in a session that nothing carries. -/
theorem rpcCall (h : Inv pb busy s) {c dest : ℕ} {k : ℤ} {msg : M} {uid : Int64} {null : Bool}
    (hs : s.rpcCall pb c dest k msg uid null = some s') : Inv pb busy s' := by
  obtain ⟨hfresh, data, type, hdata, rfl⟩ := rpcCall_eq hs
  apply (h.called hfresh uid null).send
  · exact ⟨msg, uid, type, hdata, List.mem_cons_self, fun htype => by cases htype⟩
  · rintro call (hcall | ⟨p, hp, hcaller, hsession, -⟩ | ⟨r, hr, hsource, hsession, -⟩)
    · have hnew := update₂_self.symm.trans hcall
      split_ifs at hnew
      · cases hnew
      · exact (RpcCallback.func.inj (Option.some.inj hnew)).symm
    · exact absurd ⟨hcaller, hsession⟩ (hfresh.2.1 p hp)
    · exact absurd ⟨hsource, hsession⟩ (hfresh.2.2 r hr)

end Inv

/-! ### Callbacks -/

/-- The member fields of the service are those of a request that is still there. -/
def Serving (service : ℕ) (s : RpcNet M) : Prop :=
  ∃ p ∈ s.packets, p.caller = s.source service ∧ p.session = s.session service ∧
    p.call = s.current service ∧ .called p.call p.caller p.session (s.uid service) ∈ s.log

/-- What a callback leaves alone: packets and the log only grow, and no member field is
written. -/
structure Grows (s s' : RpcNet M) : Prop where
  packets : s.packets ⊆ s'.packets
  log : s.log ⊆ s'.log
  source : s'.source = s.source
  session : s'.session = s.session
  uid : s'.uid = s.uid
  current : s'.current = s.current

namespace Grows

theorem refl (s : RpcNet M) : Grows s s :=
  ⟨List.Subset.refl _, List.Subset.refl _, rfl, rfl, rfl, rfl⟩

theorem trans {s₁ s₂ s₃ : RpcNet M} (h : Grows s₁ s₂) (h' : Grows s₂ s₃) : Grows s₁ s₃ where
  packets := List.Subset.trans h.packets h'.packets
  log := List.Subset.trans h.log h'.log
  source := h'.source.trans h.source
  session := h'.session.trans h.session
  uid := h'.uid.trans h.uid
  current := h'.current.trans h.current

theorem send (h : Grows s s') (p : Packet) : Grows s (s'.send p) := by
  rw [RpcNet.send]
  split_ifs
  · exact h
  · exact { h with packets := List.Subset.trans h.packets (List.subset_append_left ..) }

theorem record (s : RpcNet M) (e : Entry M) : Grows s { s with log := e :: s.log } :=
  { refl s with log := List.subset_cons_self e s.log }

theorem perform {service : ℕ} {inCallback : Bool} {o : RpcOp M}
    (hs : s.perform pb service inCallback o = some s') : Grows s s' := by
  cases o with
  | call dest session msg uid null =>
    obtain ⟨-, data, type, -, rfl⟩ := Inv.rpcCall_eq hs
    have hcalled : Grows s (s.called service session uid null) :=
      { refl s with log := List.subset_cons_self _ s.log }
    exact hcalled.send _
  | cancel session =>
    obtain rfl := Option.some.inj hs
    rw [RpcNet.rpcCancel]
    cases s.latest service session with
    | none => exact { refl s with }
    | some call => exact { record s (.cancelled call) with }
  | getResponse =>
    rw [RpcNet.perform] at hs
    split_ifs at hs
    obtain rfl := Option.some.inj hs
    exact { refl s with }
  | respond i msg =>
    rw [RpcNet.perform] at hs
    cases hr : s.responders[i]? with
    | none =>
      rw [hr] at hs
      exact nomatch hs
    | some r =>
      rw [hr] at hs
      simp only at hs
      split_ifs at hs
      obtain ⟨data, type, -, rfl⟩ := Inv.response_eq hs
      exact (record s _).send _
  | drop i =>
    obtain rfl := Option.some.inj hs
    exact { refl s with }

end Grows

theorem Serving.mono {service : ℕ} (h : Serving service s) (hgrows : Grows s s') :
    Serving service s' := by
  obtain ⟨p, hp, hcaller, hsession, hcall, hcalled⟩ := h
  refine ⟨p, hgrows.packets hp, ?_, ?_, ?_, ?_⟩
  · rw [hgrows.source, hcaller]
  · rw [hgrows.session, hsession]
  · rw [hgrows.current, hcall]
  · rw [hgrows.uid]
    exact hgrows.log hcalled

namespace Inv

variable {busy : Option (ℕ × ℤ)} {service : ℕ} {inCallback : Bool}

/-- **What a service does keeps the invariant.** -/
theorem perform (h : Inv pb busy s) (hserving : inCallback = true → Serving service s)
    {o : RpcOp M} (hs : s.perform pb service inCallback o = some s') : Inv pb busy s' := by
  cases o with
  | call dest session msg uid null => exact h.rpcCall hs
  | cancel session =>
    obtain rfl := Option.some.inj hs
    exact h.rpcCancel service session
  | getResponse =>
    rw [RpcNet.perform] at hs
    split_ifs at hs with hin
    obtain rfl := Option.some.inj hs
    -- the member fields are those of the request that is served
    obtain ⟨p, hp, hcaller, hsession, hcall, hcalled⟩ := hserving hin
    rw [hcaller, hsession, hcall] at hcalled
    exact h.addResponder hcalled (Or.inr (Or.inl ⟨p, hp, hcaller, hsession, hcall⟩))
  | respond i msg =>
    rw [RpcNet.perform] at hs
    cases hr : s.responders[i]? with
    | none =>
      rw [hr] at hs
      exact nomatch hs
    | some r =>
      rw [hr] at hs
      simp only at hs
      split_ifs at hs
      have hmem := List.mem_of_getElem? hr
      exact h.response (h.responders r hmem) (Or.inr (Or.inr ⟨r, hmem, rfl, rfl, rfl⟩)) hs
  | drop i =>
    obtain rfl := Option.some.inj hs
    exact h.of_sub (fun _ _ _ => id) (List.Subset.refl _) (List.eraseIdx_subset ..) rfl rfl rfl

/-- The steps of a callback, one after the other. -/
theorem performAll {ops : List (RpcOp M)} (h : Inv pb busy s)
    (hserving : inCallback = true → Serving service s)
    (hs : RpcNet.performAll pb service inCallback s ops = some s') :
    Inv pb busy s' ∧ Grows s s' := by
  induction ops generalizing s with
  | nil =>
    obtain rfl := Option.some.inj hs
    exact ⟨h, .refl s⟩
  | cons o ops ih =>
    rw [RpcNet.performAll] at hs
    cases ho : s.perform pb service inCallback o with
    | none =>
      rw [ho] at hs
      exact nomatch hs
    | some s₁ =>
      rw [ho] at hs
      -- the next steps still find the request that is served
      have hgrows := Grows.perform ho
      obtain ⟨hinv, hrest⟩ := ih (h.perform hserving ho) (fun hin => (hserving hin).mono hgrows) hs
      exact ⟨hinv, hgrows.trans hrest⟩

/-! ### Deliveries -/

theorem received_source (p : Packet) (uid : Int64) : (s.received p uid).source p.dest = p.source :=
  Function.update_self ..

theorem received_session (p : Packet) (uid : Int64) :
    (s.received p uid).session p.dest = p.session := Function.update_self ..

theorem received_uid (p : Packet) (uid : Int64) : (s.received p uid).uid p.dest = uid :=
  Function.update_self ..

theorem received_current (p : Packet) (uid : Int64) : (s.received p uid).current p.dest = p.call :=
  Function.update_self ..

/-- The callback of a request, with the member fields that it sees. -/
theorem dispatchRequest {p : Packet} {pack : InPack} {ops : List (RpcOp M)} {rsp : Option M}
    (h : Inv pb none s) (hp : p ∈ s.packets) (htype : p.type = ptypeText)
    (hcalled : .called p.call p.source p.session pack.uid ∈ s.log)
    (hs : s.dispatchRequest pb p pack ops rsp = some s') : Inv pb none s' := by
  have hcaller : p.caller = p.source := if_pos htype
  rw [RpcNet.dispatchRequest] at hs
  have hinv : Inv pb none (s.received p pack.uid) :=
    h.of_sub (fun _ _ _ => id) (List.Subset.refl _) (List.Subset.refl _) rfl rfl rfl
  -- the member fields are those of the request while its callback runs
  have hserving : Serving p.dest (s.received p pack.uid) := by
    refine ⟨p, hp, ?_, ?_, ?_, ?_⟩
    · rw [hcaller, received_source]
    · rw [received_session]
    · rw [received_current]
    · rw [hcaller, received_uid]
      exact hcalled
  cases hall : RpcNet.performAll pb p.dest true (s.received p pack.uid) ops with
  | none =>
    rw [hall] at hs
    exact nomatch hs
  | some s₂ =>
    rw [hall] at hs
    obtain ⟨hinv₂, hgrows⟩ := hinv.performAll (fun _ => hserving) hall
    cases rsp with
    | none =>
      obtain rfl := Option.some.inj hs
      exact hinv₂
    | some msg =>
      exact hinv₂.response (hgrows.log hcalled)
        (Or.inr (Or.inl ⟨p, hgrows.packets hp, hcaller, rfl, rfl⟩)) hs

/-- The function of a call runs, and then its entry is erased. -/
theorem dispatchResponse {p : Packet} {uid : UInt64} {call : ℕ} {msg : M} {ops : List (RpcOp M)}
    (h : Inv pb none s) (hentry : s.rpc p.dest p.session = some (.func call))
    (hcalled : .called call p.dest p.session uid.toInt64 ∈ s.log)
    (hproduced : .produced call msg ∈ s.log)
    (hs : s.dispatchResponse pb p uid call msg ops = some s') : Inv pb none s' := by
  rw [RpcNet.dispatchResponse] at hs
  cases hall : RpcNet.performAll pb p.dest false
      { s with log := .ran call msg uid.toInt64 :: s.log } ops with
  | none =>
    rw [hall] at hs
    exact nomatch hs
  | some s₂ =>
    rw [hall] at hs
    obtain rfl := Option.some.inj hs
    have hserving : false = true → Serving p.dest
        ({ s with log := .ran call msg uid.toInt64 :: s.log } : RpcNet M) :=
      fun hin => (nomatch hin)
    exact ((h.ran hentry hcalled hproduced).performAll hserving hall).1.erase_busy

/-- **The delivery of a packet keeps the invariant.** -/
theorem poll (h : Inv pb none s) {p : Packet} {ops : List (RpcOp M)} {rsp : Option M}
    (hp : p ∈ s.packets) (hs : s.poll pb registered p ops rsp = some s') : Inv pb none s' := by
  obtain ⟨msg, uid, type, hdata, hcalled, hproduced⟩ := h.packets p hp
  rw [RpcNet.poll] at hs
  split at hs
  case h_1 => exact nomatch hs
  case h_2 _ pack hpoll =>
    obtain ⟨htype, -, hreset⟩ := servicePoll_rpcServer hpoll
    obtain ⟨-, hmsg, huid⟩ := decode_packed hdata hreset
    simp only at hmsg huid
    have hcaller : p.caller = p.source := if_pos htype
    split_ifs at hs
    · rw [hmsg] at hs
      simp only at hs
      rw [hcaller, ← huid] at hcalled
      exact h.dispatchRequest hp htype hcalled hs
    · obtain rfl := Option.some.inj hs
      exact h
  case h_3 _ uid' call pack hpoll =>
    obtain ⟨htype, hentry, hgot, hreset⟩ := servicePoll_rpcClient hpoll
    obtain ⟨-, hmsg, huid⟩ := decode_packed hdata hreset
    simp only at hmsg huid
    have hcaller : p.caller = p.dest := by
      rw [Packet.caller, htype]
      rfl
    have hown : s.Owns p.dest p.session p.call := Or.inr (Or.inl ⟨p, hp, hcaller, rfl, rfl⟩)
    -- the response is for the call in the entry: both own the session
    have hcall : call = p.call := h.owner _ _ call p.call (Or.inl hentry) hown
    rw [hmsg] at hs
    simp only at hs
    rw [hcaller, ← hcall, ← huid, Checked.innerReset_uid hgot hreset] at hcalled
    have hproduced := hproduced htype
    rw [← hcall] at hproduced
    exact h.dispatchResponse hentry hcalled hproduced hs
  case h_4 =>
    obtain rfl := Option.some.inj hs
    exact h

theorem step (h : Inv pb none s) {e : RpcEvent M} (hs : s.step pb registered e = some s') :
    Inv pb none s' := by
  cases e with
  | op service o =>
    have hserving : false = true → Serving service s := fun hin => (nomatch hin)
    exact h.perform hserving hs
  | deliver i ops rsp =>
    rw [RpcNet.step] at hs
    cases hp : s.packets[i]? with
    | none =>
      rw [hp] at hs
      exact nomatch hs
    | some p =>
      rw [hp] at hs
      simp only [Option.map_eq_some_iff] at hs
      obtain ⟨s₁, hs₁, rfl⟩ := hs
      exact (h.poll (List.mem_of_getElem? hp) hs₁).remove i

end Inv

/-- **Answers reach their own callers**, in every run of any number of services. -/
theorem answers_reach_callers
    (h : Reachable (RpcNet.step pb registered) anyStep (init M) s) : Sound s.log :=
  (h.invariant inv_init fun _ _ _ hinv _ hs => hinv.step hs).sound

/-- One message type with one byte of data. -/
def flagMessage : Protobuf Bool where
  typeName _ := [70]
  serialize flag := if flag then [1] else [0]
  parse name data := if name = [70] then
    if data = [1] then some true else if data = [0] then some false else none
    else none
  parse_serialize flag := by cases flag <;> rfl
  typeName_length _ := by decide
  serialize_length flag := by cases flag <;> decide

/-- Two services call a third; it keeps a responder for the first call and answers the second
at once, and the first after that. -/
def twoCalls : List (RpcEvent Bool) :=
  [.op 1 (.call 3 5 false 10 false), .op 2 (.call 3 5 false 20 false),
    .deliver 0 [.getResponse] none, .deliver 0 [] (some true), .deliver 0 [] none,
    .op 3 (.respond 0 false), .op 3 (.drop 0), .deliver 0 [] none]

theorem answers_reach_callers_two :
    ∃ s, run (RpcNet.step flagMessage fun _ _ => true) (init Bool) twoCalls = some s ∧
      s.log = [.ran 0 false 10, .produced 0 false, .ran 1 true 20, .produced 1 true,
        .called 1 2 5 20, .called 0 1 5 10] ∧ Sound s.log := by
  have hrun : (run (RpcNet.step flagMessage fun _ _ => true) (init Bool) twoCalls).map log =
      some [.ran 0 false 10, .produced 0 false, .ran 1 true 20, .produced 1 true,
        .called 1 2 5 20, .called 0 1 5 10] := by
    decide +kernel
  obtain ⟨s, hs, hlog⟩ := Option.map_eq_some_iff.mp hrun
  exact ⟨s, hs, hlog, answers_reach_callers (.of_run hs)⟩

end RpcNet

end TestCluster.Common
