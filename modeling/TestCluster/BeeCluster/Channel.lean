import TestCluster.Semantics.Interleaving
import TestCluster.BeeCluster.Parts
import TestCluster.BeeCluster.Response

/-!
# Responses at the sender

The receiving side of `bee_clustersender.lua`: response frames are decoded, handed to
the waiting coroutines by the session mode of `socketchannel.lua`, and turned into the
answer of the `req` command.

## Main definitions

* `Channel` — the channel's table of waiting coroutines and of collected parts
* `dispatchBySession` — one decoded frame
* `commandReq` — what `command.req` does with the result

## Main results

* `dispatchFrames_interleaved` — interleaved answers complete each caller once, with
  its own answer
-/

namespace TestCluster.BeeCluster

open Semantics

variable {κ : Type*}

/-- The result a coroutine is given: one value, or a table of parts. -/
inductive ResultData
  | value (v : LuaValue)
  | table (vs : List LuaValue)
  deriving DecidableEq, Repr

/-- How `command.req` ends: with `skynet.ret`, or with the error it logs before it answers
`false`; `raised` when joining the parts fails in native code. -/
inductive Reply
  | ret (msg : LuaValue)
  | error (msg : ResultData)
  | raised (fault : Fault)
  deriving DecidableEq, Repr

/-- `command.req`, after `send_request` has returned or raised. -/
def commandReq (ok : Bool) (msg : ResultData) : Reply :=
  if ok then
    match msg with
    | .table parts =>
      match lconcat parts with
      | .ok (some msg) => .ret (.string msg)
      | .ok none => .ret .nil
      | .error fault => .raised fault
    | .value msg => .ret msg
  else
    .error msg

/-- A list of parts that can be joined is returned as one string. -/
theorem commandReq_table {parts : List LuaValue} {payload : Bytes}
    (h : lconcat parts = .ok (some payload)) :
    commandReq true (.table parts) = .ret (.string payload) := by
  simp only [commandReq, if_true, h]

/-- A channel in session mode, with its coroutines in `κ`. -/
structure Channel (κ : Type*) where
  sock : Bool
  thread : ℕ → Option κ
  resultData : κ → Option (List LuaValue)

/-- What the channel makes happen. -/
inductive ChannelEvent (κ : Type*)
  | completed (co : κ) (reply : Reply)
  | unknownSession (session : ℕ)
  | closed
  deriving DecidableEq, Repr

namespace Channel

variable [DecidableEq κ]

/-- The loop body of `dispatch_by_session`, for a frame that was decoded. A woken
coroutine takes its result and clears its cells in `wait_for_response`. -/
def receive (ch : Channel κ) (r : UnpackedResponse) : Channel κ × List (ChannelEvent κ) :=
  match ch.thread r.session with
  | some co =>
    if r.padding && r.ok then
      let result := (ch.resultData co).getD []
      ({ ch with resultData := Function.update ch.resultData co (some (result ++ [r.data])) }, [])
    else
      let data : ResultData :=
        match r.ok, ch.resultData co with
        | true, some result => .table (result ++ [r.data])
        | _, _ => .value r.data
      ({ ch with
          thread := Function.update ch.thread r.session none
          resultData := Function.update ch.resultData co none },
        [.completed co (commandReq r.ok data)])
  | none =>
    ({ ch with thread := Function.update ch.thread r.session none },
      [.unknownSession r.session])

/-- `dispatch_by_session`, one frame. A frame that is not understood closes the channel
and fails every waiting coroutine. -/
def dispatchBySession (ch : Channel κ) (r : Except Fault (Option UnpackedResponse)) :
    Channel κ × List (ChannelEvent κ) :=
  if ch.sock then
    match r with
    | .ok (some r) => ch.receive r
    | _ => (⟨false, fun _ => none, fun _ => none⟩, [.closed])
  else
    (ch, [])

/-- The frames of a connection, their length headers removed. -/
def dispatchFrames (ch : Channel κ) : List Bytes → Channel κ × List (ChannelEvent κ)
  | [] => (ch, [])
  | msg :: msgs =>
    let r := ch.dispatchBySession (lunpackresponse msg)
    let r' := r.1.dispatchFrames msgs
    (r'.1, r.2 ++ r'.2)

/-! ### The channel as a demultiplexer -/

/-- The entry of a session: its coroutine and the parts collected for it. -/
def entries (ch : Channel κ) (session : ℕ) : Option (κ × Option (List LuaValue)) :=
  (ch.thread session).map fun co => (co, ch.resultData co)

/-- No coroutine waits for two sessions. -/
def Distinct (ch : Channel κ) : Prop :=
  ∀ s s' co, ch.thread s = some co → ch.thread s' = some co → s = s'

/-- What a frame does to the entry of its session. -/
def collect (entry : Option (κ × Option (List LuaValue))) (r : UnpackedResponse) :
    Option (κ × Option (List LuaValue)) × List (ChannelEvent κ) :=
  match entry with
  | some (co, result) =>
    if r.padding && r.ok then
      (some (co, some (result.getD [] ++ [r.data])), [])
    else
      let data : ResultData :=
        match r.ok, result with
        | true, some result => .table (result ++ [r.data])
        | _, _ => .value r.data
      (none, [.completed co (commandReq r.ok data)])
  | none => (none, [.unknownSession r.session])

section Collect

variable (co : κ) {parts : List UnpackedResponse} {last : UnpackedResponse}

omit [DecidableEq κ] in
/-- Parts that announce more are added to the list of their caller. -/
private theorem reactAll_collect_parts (result : List LuaValue)
    (hparts : ∀ r ∈ parts, r.ok = true ∧ r.padding = true) :
    reactAll collect (some (co, some result)) parts =
      (some (co, some (result ++ parts.map UnpackedResponse.data)), []) := by
  induction parts generalizing result with
  | nil => simp
  | cons r parts ih =>
    obtain ⟨⟨hok, hpadding⟩, hparts⟩ := List.forall_mem_cons.mp hparts
    have hstep : collect (some (co, some result)) r =
        (some (co, some (result ++ [r.data])), []) := by
      simp [collect, hok, hpadding]
    rw [reactAll_cons, hstep, ih _ hparts]
    simp

omit [DecidableEq κ] in
/-- Parts and the response that ends them complete their caller with the list of all their
data. -/
theorem reactAll_collect (hne : parts ≠ []) (hparts : ∀ r ∈ parts, r.ok = true ∧ r.padding = true)
    (hok : last.ok = true) (hlast : last.padding = false) :
    reactAll collect (some (co, none)) (parts ++ [last]) =
      (none, [.completed co (commandReq true
        (.table ((parts ++ [last]).map UnpackedResponse.data)))]) := by
  obtain ⟨r, parts, rfl⟩ := List.exists_cons_of_ne_nil hne
  obtain ⟨⟨hrok, hrpadding⟩, hparts⟩ := List.forall_mem_cons.mp hparts
  have hhead : collect (some (co, none)) r = (some (co, some [r.data]), []) := by
    simp [collect, hrok, hrpadding]
  have hend : ∀ result, collect (some (co, some result)) last =
      (none, [.completed co (commandReq true (.table (result ++ [last.data])))]) := by
    intro result
    simp [collect, hok, hlast]
  rw [List.cons_append, reactAll_cons, hhead, reactAll_append,
    reactAll_collect_parts co _ hparts, reactAll_cons, hend]
  simp

end Collect

section Simulation

variable {ch : Channel κ}

theorem Distinct.receive (h : ch.Distinct) (r : UnpackedResponse) : (ch.receive r).1.Distinct := by
  -- a thread that is taken out leaves the others distinct
  have hupdate : ∀ s s' co, Function.update ch.thread r.session none s = some co →
      Function.update ch.thread r.session none s' = some co → s = s' := by
    intro s s' co hs hs'
    by_cases hr : s = r.session
    · subst hr; simp at hs
    · by_cases hr' : s' = r.session
      · subst hr'; simp at hs'
      · rw [Function.update_of_ne hr] at hs
        rw [Function.update_of_ne hr'] at hs'
        exact h s s' co hs hs'
  unfold Channel.receive
  split
  · split_ifs
    · exact h
    · exact hupdate
  · exact hupdate

/-- Receiving a frame is delivering it to the entry of its session. -/
theorem receive_eq (h : ch.Distinct) (r : UnpackedResponse) :
    ((ch.receive r).1.entries, (ch.receive r).2) =
      deliver UnpackedResponse.session collect ch.entries r := by
  -- a coroutine waits for one session only, so its data belong to that session
  have hother : ∀ {s co co'}, ch.thread r.session = some co → s ≠ r.session →
      ch.thread s = some co' → co' ≠ co := by
    rintro s co co' hco hs hco' rfl
    exact hs (h _ _ _ hco' hco)
  cases hthread : ch.thread r.session with
  | none =>
    have hentry : ch.entries r.session = none := by simp [entries, hthread]
    simp only [receive, deliver, collect, hthread, hentry, Prod.mk.injEq, and_true]
    funext s
    by_cases hs : s = r.session
    · subst hs; simp [entries]
    · simp [entries, hs]
  | some co =>
    have hentry : ch.entries r.session = some (co, ch.resultData co) := by simp [entries, hthread]
    simp only [receive, deliver, collect, hthread, hentry]
    -- a part is collected; anything else completes the call
    cases r.padding && r.ok with
    | true =>
      simp only [if_true, Prod.mk.injEq, and_true]
      funext s
      by_cases hs : s = r.session
      · subst hs; simp [entries, hthread]
      · cases hco : ch.thread s with
        | none => simp [entries, hs, hco]
        | some co' => simp [entries, hs, hco, hother hthread hs hco]
    | false =>
      simp only [Bool.false_eq_true, if_false, Prod.mk.injEq, and_true]
      funext s
      by_cases hs : s = r.session
      · subst hs; simp [entries]
      · cases hco : ch.thread s with
        | none => simp [entries, hs, hco]
        | some co' => simp [entries, hs, hco, hother hthread hs hco]

@[simp] theorem sock_receive (r : UnpackedResponse) : (ch.receive r).1.sock = ch.sock := by
  unfold Channel.receive
  split
  · split_ifs <;> rfl
  · rfl

/-- A run over frames that can all be decoded. -/
theorem dispatchFrames_eq (hopen : ch.sock = true) (h : ch.Distinct) {frames : List Bytes}
    {rs : List UnpackedResponse}
    (hdecode : frames.map lunpackresponse = rs.map fun r => .ok (some r)) :
    ((ch.dispatchFrames frames).1.entries, (ch.dispatchFrames frames).2) =
      deliverAll UnpackedResponse.session collect ch.entries rs := by
  induction frames generalizing ch rs with
  | nil =>
    obtain rfl : rs = [] := by simpa using hdecode.symm
    rfl
  | cons msg msgs ih =>
    cases rs with
    | nil => exact absurd hdecode (by simp)
    | cons r rs =>
      obtain ⟨hmsg, hmsgs⟩ := List.cons.inj hdecode
      have hstep : ch.dispatchBySession (lunpackresponse msg) = ch.receive r := by
        rw [hmsg, dispatchBySession, if_pos hopen]
      have hreceive := receive_eq h r
      -- one frame more leaves the channel open and its threads distinct
      have hrest := ih (by rw [sock_receive, hopen]) (h.receive r) hmsgs
      rw [deliverAll, ← hreceive, ← hrest]
      simp only [dispatchFrames, hstep]

end Simulation

end Channel

/-! ### Answers -/

/-- What the agent answers to one request. -/
structure Answer where
  ok : Bool
  payload : Bytes
  length_lt : payload.length < 2 ^ 31

namespace Answer

variable (session : ℕ) (a : Answer)

/-- The frames of an answer. -/
def pack : Except Fault (List Bytes) := do
  return (← lpackresponse session a.ok a.payload a.payload.length).frames

/-- The answer as the caller gets it. -/
def reply : Reply :=
  if a.ok then .ret (.string a.payload) else .error (.value (.string (a.payload.take 0x8000)))

variable {session} {a} {κ : Type*} (co : κ)

open Channel

/-- A frame that comes alone completes its caller. -/
private theorem collect_single (ok : Bool) (s : Bytes) :
    reactAll collect (some (co, none)) [⟨session, ok, .string s, false⟩] =
      (none, [.completed co (commandReq ok (.value (.string s)))]) := by
  cases ok <;> rfl

/-- The frames of a group decode to its size and its parts. -/
private theorem decode_group (hs : session < 2 ^ 32) {size : ℕ} (hsize : size < 2 ^ 32)
    (chunks : List Bytes) (last : Bytes) :
    (frame (responseBody session 2 (leBytes 4 size)) ::
        (chunks.map (fun c => frame (responseBody session 3 c)) ++
          [frame (responseBody session 4 last)])).map (fun f => lunpackresponse (f.drop 2)) =
      (⟨session, true, .number size, true⟩ ::
        (chunks.map (fun c => (⟨session, true, .string c, true⟩ : UnpackedResponse)) ++
          [⟨session, true, .string last, false⟩])).map (fun r => .ok (some r)) := by
  have hpart : ∀ c, lunpackresponse (responseBody session 3 c) =
      .ok (some ⟨session, true, .string c, true⟩) := fun _ => lunpackresponse_part false hs
  have hlast : lunpackresponse (responseBody session 4 last) =
      .ok (some ⟨session, true, .string last, false⟩) := lunpackresponse_part true hs
  simp only [List.map_cons, List.map_append, List.map_map, Function.comp_def, frame_drop,
    List.map_nil, lunpackresponse_begin hs hsize, hpart, hlast]

/-- Every answer can be packed; its frames carry its session, can all be decoded, and
alone complete their caller once, with the answer. -/
theorem exists_pack (a : Answer) (hs : session < 2 ^ 32) (co : κ) :
    ∃ frames rs, a.pack session = .ok frames ∧
      frames.map (fun f => lunpackresponse (f.drop 2)) = rs.map (fun r => .ok (some r)) ∧
      (∀ r ∈ rs, r.session = session) ∧
      reactAll collect (some (co, none)) rs = (none, [.completed co a.reply]) := by
  obtain ⟨ok, payload, hlen⟩ := a
  have hsession : toUInt32 session = session := toUInt32_natCast hs
  cases ok with
  | false =>
    refine ⟨[frame (responseBody session 0 (payload.take multiPart))],
      [⟨session, false, .string (payload.take multiPart), false⟩], ?_, ?_, by simp,
      collect_single co false _⟩
    · simp only [pack, lpackresponse_error, hsession, ok_bind, pure_eq_ok, PackedResponse.frames]
    · simpa using lunpackresponse_single false hs
  | true =>
    rcases le_or_gt payload.length multiPart with hle | hgt
    · refine ⟨[frame (responseBody session 1 payload)], [⟨session, true, .string payload, false⟩],
        ?_, ?_, by simp, collect_single co true _⟩
      · simp only [pack, lpackresponse_of_le _ hle, hsession, ok_bind, pure_eq_ok,
          PackedResponse.frames]
      · simpa using lunpackresponse_single true hs
    · -- the announcement, the parts, and the last part, which completes the call
      obtain ⟨chunks, last, hcut, hpack⟩ := lpackresponse_of_lt session hgt
        (lt_trans hlen (by decide))
      refine ⟨_, _, ?_, decode_group hs (lt_trans hlen (by decide)) chunks last, ?_, ?_⟩
      · simp only [pack, hpack, hsession, ok_bind, pure_eq_ok, PackedResponse.frames]
      · simp [or_imp, forall_and]
      · have hjoin : commandReq true (.table (.number payload.length ::
            (chunks ++ [last]).map .string)) = .ret (.string payload) :=
          commandReq_table (lconcat_eq (by simp [hcut.payload_eq]) hlen)
        rw [← List.cons_append, reactAll_collect co (List.cons_ne_nil _ _) (by simp) rfl rfl]
        simpa [Function.comp_def, reply] using hjoin

end Answer

/-! ### Interleaved answers -/

namespace Channel

variable {ι : Type*} [DecidableEq ι]

/-- The channel on which exactly the requests wait, each for its own session. -/
structure Waiting (ch : Channel ι) (session : ι → ℕ) : Prop where
  sock : ch.sock = true
  thread : ∀ s i, ch.thread s = some i ↔ session i = s
  resultData : ∀ i, ch.resultData i = none

/-- **Responses are exact under interleaving.** Every answer can be packed. However the
frames of the answers are interleaved, each waiting caller is completed exactly once:
with its payload when the answer is ok, else with an error that carries the first
`0x8000` bytes of the message. No caller is left waiting. -/
theorem dispatchFrames_interleaved (session : ι → ℕ) (answer : ι → Answer)
    (hlt : ∀ i, session i < 2 ^ 32) (hinj : Function.Injective session) :
    ∃ frames : ι → List Bytes, (∀ i, (answer i).pack (session i) = .ok (frames i)) ∧
      ∀ tr : List (ι × Bytes), Interleaves tr frames → ∀ ch : Channel ι, ch.Waiting session →
        ∃ outs : List (ι × Reply),
          (ch.dispatchFrames (tr.map fun e => e.2.drop 2)).2 =
            outs.map (fun e => .completed e.1 e.2) ∧
          Interleaves outs (fun i => [(answer i).reply]) ∧
          ∀ s, (ch.dispatchFrames (tr.map fun e => e.2.drop 2)).1.thread s = none := by
  choose frames rs hpack hdecode hsession halone using fun i =>
    (answer i).exists_pack (hlt i) i
  refine ⟨frames, hpack, fun tr htr ch hch => ?_⟩
  have hdistinct : ch.Distinct := by
    intro s s' i hs hs'
    rw [← (hch.thread s i).mp hs, ← (hch.thread s' i).mp hs']
  -- at the start each request is in progress, with nothing collected
  have hprogress : InProgress session (fun i => some (i, none)) ch.entries := by
    refine ⟨fun i _ => ?_, fun s hs => ?_, fun i j hij _ _ h => hij (hinj h)⟩
    · simp [entries, (hch.thread (session i) i).mpr rfl, hch.resultData]
    · cases hthread : ch.thread s with
      | none => exact absurd (by simp [entries, hthread]) hs
      | some i => exact ⟨i, by simp, (hch.thread s i).mp hthread⟩
  obtain ⟨rtr, hrtr, hrinter⟩ := htr.transfer hdecode
  have hdecoded : (tr.map fun e => e.2.drop 2).map lunpackresponse =
      (rtr.map Prod.snd).map fun r => .ok (some r) := by
    simpa [Function.comp_def] using congrArg (List.map Prod.snd) hrtr
  obtain ⟨outs, hrun, houts⟩ := deliverAll_of_inProgress UnpackedResponse.session collect session
    (fun i => [ChannelEvent.completed i (answer i).reply])
    (fun e he => hsession e.1 e.2 (hrinter e.1 ▸ mem_proj_of_mem he))
    (fun i => by rw [hrinter i]; exact halone i)
    hprogress (fun i j hij _ _ h => hij (hinj h)) (fun i j hij _ h => hij (hinj h))
  have hframes := (dispatchFrames_eq hch.sock hdistinct hdecoded).trans hrun
  obtain ⟨hentries, hevents⟩ := Prod.mk.inj hframes
  -- what comes out is the completion of each call, and nothing else
  have hreply : ∀ e ∈ outs, e.2 = ChannelEvent.completed e.1 (answer e.1).reply := by
    intro e he
    have hmem : e.2 ∈ proj e.1 outs := mem_proj_of_mem he
    rw [houts e.1] at hmem
    exact List.mem_singleton.mp hmem
  refine ⟨outs.map fun e => (e.1, (answer e.1).reply), ?_, fun i => ?_, fun s => ?_⟩
  · rw [hevents, List.map_map]
    exact List.map_congr_left hreply
  · rw [proj_map (fun i _ => (answer i).reply), houts i]
    rfl
  · exact Option.map_eq_none_iff.mp (congrFun hentries s)

/-- A long answer and an error, for the sessions 3 and 4. -/
def answerAndError : Bool → Answer
  | false => ⟨true, List.replicate 40000 1, by rw [List.length_replicate]; decide⟩
  | true => ⟨false, [1, 2, 3], by decide⟩

/-- The channel on which both callers wait. -/
def twoWaiting : Channel Bool where
  sock := true
  thread s := if s = 3 then some false else if s = 4 then some true else none
  resultData _ := none

/-- The error arrives first; both callers are completed. -/
theorem dispatchFrames_interleaved_answerAndError :
    ∃ (tr : List (Bool × Bytes)) (outs : List (Bool × Reply)),
      (twoWaiting.dispatchFrames (tr.map fun e => e.2.drop 2)).2 =
        outs.map (fun e => .completed e.1 e.2) ∧
      Interleaves outs (fun i => [(answerAndError i).reply]) ∧
      ∀ s, (twoWaiting.dispatchFrames (tr.map fun e => e.2.drop 2)).1.thread s = none := by
  obtain ⟨frames, -, hrun⟩ := dispatchFrames_interleaved
    (fun b => if b then 4 else 3) answerAndError
    (by intro i; cases i <;> decide) (by intro i j; cases i <;> cases j <;> decide)
  obtain ⟨outs, hout⟩ := hrun
    ((frames true).map (Prod.mk true) ++ (frames false).map (Prod.mk false))
    (by
      intro i
      rw [proj_append, proj_tagged, proj_tagged]
      cases i <;> simp)
    twoWaiting
    ⟨rfl, by
      intro s i
      cases i <;> simp only [twoWaiting] <;> split_ifs <;> simp_all <;> omega, fun _ => rfl⟩
  exact ⟨_, outs, hout⟩

end Channel

end TestCluster.BeeCluster
