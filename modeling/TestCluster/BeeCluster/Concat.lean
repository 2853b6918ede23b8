import TestCluster.BeeCluster.Channel

/-!
# What joining a table asks for and answers

`lconcat` with its calls of the allocator, and the answer the requester gets when the
frames of a response were collected into a table. The size that is announced on the wire is
a `uint32_t`, the size `lconcat` works with an `int`.

## Main definitions

* `lconcatCalls` — `lconcat` with its calls of the allocator
* `Exact` — a table is joined into a block of the announced size, or refused
* `Received`, `Reply.received` — what the requester gets
* `Announced` — a table of the announced size, followed by strings that fill it

## Main results

* `lconcat_exact_iff` — joining is exact for the sizes below `2 ^ 31`
* `dispatchFrames_answered_iff` — a collected table is answered properly when it fills
  what it announces
-/

namespace TestCluster.BeeCluster

open Semantics

/-! ### Calls of the allocator -/

/-- A call of `skynet_malloc` or `skynet_free`. -/
inductive AllocCall
  | malloc (size : ℕ)
  | free
  deriving DecidableEq, Repr

/-- `lconcat`, with its calls of the allocator. -/
def lconcatCalls : List LuaValue → List AllocCall × Except Fault (Option Bytes)
  | .number sz :: parts =>
    let sz := toInt32 sz
    match skynetMalloc (toSizeT sz) with
    | .error fault => ([.malloc (toSizeT sz)], .error fault)
    | .ok buff =>
      match concatLoop sz parts buff 0 with
      | .error fault => ([.malloc (toSizeT sz)], .error fault)
      | .ok none => ([.malloc (toSizeT sz), .free], .ok none)
      | .ok (some (buff, offset)) =>
        if offset ≠ sz then
          ([.malloc (toSizeT sz), .free], .ok none)
        else
          ([.malloc (toSizeT sz)], some <$> buff.read 0 (toSizeT sz))
  | _ => ([], .ok none)

/-- The calls of the allocator apart, this is `lconcat`. -/
theorem lconcatCalls_snd (table : List LuaValue) : (lconcatCalls table).2 = lconcat table := by
  rcases table with _ | ⟨_ | _ | sz | _ | _, parts⟩
  case cons.number =>
    simp only [lconcatCalls, lconcat]
    cases skynetMalloc (toSizeT (toInt32 sz)) with
    | error fault => rfl
    | ok buff =>
      simp only [ok_bind]
      cases hloop : concatLoop (toInt32 sz) parts buff 0 with
      | error fault => rfl
      | ok result =>
        rcases result with _ | ⟨buff', offset⟩
        · rfl
        · simp only [ok_bind]
          split_ifs
          · rfl
          · cases buff'.read 0 (toSizeT (toInt32 sz)) <;> rfl
  all_goals rfl

/-- The table of a declared size and its parts. -/
def partsTable (n : ℕ) (parts : List Bytes) : List LuaValue := .number n :: parts.map .string

/-- A block of exactly the declared size is requested. Parts that fill it are joined; for any
others the block is freed and nothing is returned. -/
structure Exact (n : ℕ) (parts : List Bytes) : Prop where
  joined : parts.flatten.length = n →
    lconcatCalls (partsTable n parts) = ([.malloc n], .ok (some parts.flatten))
  refused : parts.flatten.length ≠ n →
    lconcatCalls (partsTable n parts) = ([.malloc n, .free], .ok none)

section Exact

variable {n : ℕ} {parts : List Bytes}

/-- Whatever becomes of the parts, the first call asks for the declared size. -/
theorem Exact.malloc (h : Exact n parts) :
    ∃ calls, (lconcatCalls (partsTable n parts)).1 = .malloc n :: calls := by
  by_cases hlen : parts.flatten.length = n
  · exact ⟨[], congrArg Prod.fst (h.joined hlen)⟩
  · exact ⟨[.free], congrArg Prod.fst (h.refused hlen)⟩

/-- The first call asks for the size as an `int`. -/
theorem lconcatCalls_malloc (sz : ℤ) (parts : List LuaValue) :
    ∃ calls, (lconcatCalls (.number sz :: parts)).1 = .malloc (toSizeT (toInt32 sz)) :: calls := by
  rw [lconcatCalls]
  repeat' split
  all_goals exact ⟨_, rfl⟩

/-- The calls of a run in which the block was allocated and the loop came to its end. -/
theorem lconcatCalls_eq {sz : ℤ} {table : List LuaValue} {buff buff' : Buffer} {offset : ℤ}
    (hmalloc : skynetMalloc (toSizeT (toInt32 sz)) = .ok buff)
    (hloop : concatLoop (toInt32 sz) table buff 0 = .ok (some (buff', offset))) :
    lconcatCalls (.number sz :: table) =
      if offset = toInt32 sz then
        ([.malloc (toSizeT (toInt32 sz))], some <$> buff'.read 0 (toSizeT (toInt32 sz)))
      else
        ([.malloc (toSizeT (toInt32 sz)), .free], .ok none) := by
  rw [lconcatCalls, hmalloc]
  simp only [hloop, ne_eq, ite_not]

/-- The calls of a run in which a part did not fit. -/
theorem lconcatCalls_eq_of_none {sz : ℤ} {table : List LuaValue} {buff : Buffer}
    (hmalloc : skynetMalloc (toSizeT (toInt32 sz)) = .ok buff)
    (hloop : concatLoop (toInt32 sz) table buff 0 = .ok none) :
    lconcatCalls (.number sz :: table) =
      ([.malloc (toSizeT (toInt32 sz)), .free], .ok none) := by
  rw [lconcatCalls, hmalloc]
  simp only [hloop]

/-- A size that is a non-negative `int` is requested as it is. -/
theorem exact_of_lt (hn : n < 2 ^ 31) (hparts : ∀ str ∈ parts, str.length < 2 ^ 63) :
    Exact n parts := by
  have hsz : toInt32 n = n := toInt32_of_lt (by omega) (by omega)
  have hsize : toSizeT (toInt32 n) = n := by
    rw [hsz, toSizeT_of_lt (by omega) (by omega), Int.toNat_natCast]
  have hmalloc : skynetMalloc (toSizeT (toInt32 n)) = .ok (Buffer.alloc n) := by
    rw [hsize, skynetMalloc_of_lt (by omega)]
  rcases le_or_gt parts.flatten.length n with hle | hgt
  · obtain ⟨buff, hloop, hfilled⟩ := concatLoop_of_le hn (Buffer.Filled.alloc n) parts
      (by rwa [List.length_nil, Nat.zero_add])
    rw [List.length_nil, Nat.cast_zero, List.nil_append] at hloop
    rw [List.nil_append] at hfilled
    have hcalls := lconcatCalls_eq hmalloc (hsz.symm ▸ hloop)
    rw [hsize, hsz] at hcalls
    constructor
    · intro hlen
      rw [partsTable, hcalls, if_pos (congrArg Nat.cast hlen), hfilled.read n hlen]
      rfl
    · intro hlen
      rw [partsTable, hcalls, if_neg (mt Nat.cast_inj.mp hlen)]
  · have hloop := concatLoop_of_gt hn (Buffer.Filled.alloc n) hparts
      (by rwa [List.length_nil, Nat.zero_add])
    have hcalls := lconcatCalls_eq_of_none hmalloc (hsz.symm ▸ hloop)
    rw [hsize] at hcalls
    exact ⟨fun hlen => absurd hlen (by omega), fun _ => hcalls⟩

/-- **Joining is exact below `2 ^ 31`.** For a declared size that fits 32 bits, and parts that
are Lua strings, the block has the declared size, nothing is written past it and the table is
joined or refused as it should be, exactly if the size is also a non-negative `int`. -/
theorem lconcat_exact_iff (hn : n < 2 ^ 32) (hparts : ∀ str ∈ parts, str.length < 2 ^ 63) :
    Exact n parts ↔ n < 2 ^ 31 := by
  refine ⟨fun h => ?_, fun h => exact_of_lt h hparts⟩
  by_contra hge
  -- the size that is requested is not the declared one, but negative
  obtain ⟨calls, hcalls⟩ := h.malloc
  obtain ⟨calls', hcalls'⟩ := lconcatCalls_malloc n (parts.map .string)
  have hsize : n = toSizeT (toInt32 n) := by
    rw [← partsTable, hcalls, List.cons.injEq, AllocCall.malloc.injEq] at hcalls'
    exact hcalls'.1
  rw [toInt32_of_ge (by omega) (by omega)] at hsize
  unfold toSizeT at hsize
  omega

/-- Two parts that fill five bytes. -/
theorem lconcat_exact_iff_five : Exact 5 [[1, 2], [3, 4, 5]] ↔ (5 : ℕ) < 2 ^ 31 :=
  lconcat_exact_iff (by decide) (by decide)

/-- The largest size that can be declared is `-1` as an `int`: the block is one of the smallest,
of eight bytes, and a part of nine bytes is written past its end. -/
theorem lconcat_overruns :
    lconcat (partsTable (2 ^ 32 - 1) [[1, 2, 3, 4, 5, 6, 7, 8, 9]]) = .error .outOfBounds ∧
      ¬ Exact (2 ^ 32 - 1) [[1, 2, 3, 4, 5, 6, 7, 8, 9]] := by
  refine ⟨by decide, fun h => ?_⟩
  have hfault := congrArg Prod.snd (h.refused (by decide))
  rw [lconcatCalls_snd] at hfault
  exact absurd hfault (by decide)

end Exact

/-! ### The answer to the requester -/

/-- `skynet.ret`, of the values that can be sent: a missing message is an empty one. -/
def skynetRet : LuaValue → Option Bytes
  | .string msg => some msg
  | .nil | .boolean false => some []
  | _ => none

/-- What the requester gets. A native fault takes the service down, and with it the answer. -/
inductive Received
  | reply (msg : Bytes)
  | error
  | nothing
  deriving DecidableEq, Repr

/-- What a way to end `command.req` is for the requester. -/
def Reply.received : Reply → Received
  | .ret msg => (skynetRet msg).elim .error .reply
  | .error _ | .raised (.raised _) => .error
  | .raised _ => .nothing

/-- A table that announces a size and holds strings that together have it. The size is a
non-negative `int`. -/
def Announced (table : List LuaValue) : Prop :=
  ∃ n parts, table = partsTable n parts ∧ n < 2 ^ 31 ∧ parts.flatten.length = n

/-- The requester gets the parts one behind the other, which have the announced size, or it
gets an error. -/
def Answered (table : List LuaValue) (received : Received) : Prop :=
  (∃ n parts, table = partsTable n parts ∧ parts.flatten.length = n ∧
    received = .reply parts.flatten) ∨
  received = .error

section Answered

variable {table : List LuaValue} {sz : ℤ} {payload : Bytes}

/-- The loop keeps the size of the block. -/
private theorem size_of_concatLoop {buff buff' : Buffer} {offset offset' : ℤ}
    (h : concatLoop sz table buff offset = .ok (some (buff', offset'))) :
    buff'.size = buff.size := by
  induction table generalizing buff offset with
  | nil =>
    cases h
    rfl
  | cons v table ih =>
    cases v with
    | string str =>
      rw [concatLoop] at h
      split_ifs at h
      · cases h
      · cases hwrite : buff.write (toSizeT offset) str with
        | error fault => rw [hwrite] at h; cases h
        | ok buff₁ =>
          rw [hwrite, ok_bind] at h
          rw [ih h, Buffer.size_of_write hwrite]
    | _ =>
      cases h
      rfl

/-- The loop raises no error. -/
private theorem concatLoop_ne_raised (buff : Buffer) (offset : ℤ) (message : String) :
    concatLoop sz table buff offset ≠ .error (.raised message) := by
  intro h
  induction table generalizing buff offset with
  | nil => cases h
  | cons v table ih =>
    cases v with
    | string str =>
      rw [concatLoop] at h
      split_ifs at h
      simp only [Buffer.write] at h
      split_ifs at h
      · exact ih _ _ h
      · cases h
    | _ => cases h

/-- Joining raises no error: it returns nothing, or the service is lost. -/
theorem lconcat_ne_raised (table : List LuaValue) (message : String) :
    lconcat table ≠ .error (.raised message) := by
  intro h
  rcases table with _ | ⟨_ | _ | sz | _ | _, parts⟩
  case cons.number =>
    rw [← lconcatCalls_snd, lconcatCalls] at h
    split at h
    next fault hmalloc =>
      simp only [skynetMalloc] at hmalloc
      split_ifs at hmalloc
      cases hmalloc
      cases h
    next buff hmalloc =>
      split at h
      next fault hloop =>
        cases h
        exact concatLoop_ne_raised _ _ _ hloop
      · cases h
      next buff' offset hloop =>
        split_ifs at h
        simp only [Buffer.read] at h
        repeat' split at h
        all_goals cases h
  all_goals cases h

/-- What is joined has the announced size, which is a non-negative `int`. -/
theorem length_of_lconcat (h : lconcat (.number sz :: table) = .ok (some payload)) :
    (payload.length : ℤ) = toInt32 sz := by
  rw [← lconcatCalls_snd, lconcatCalls] at h
  split at h
  · cases h
  next buff hmalloc =>
    split at h
    · cases h
    · cases h
    next buff' offset hloop =>
      split_ifs at h
      · cases h
      · cases hread : buff'.read 0 (toSizeT (toInt32 sz)) with
        | error fault => rw [hread] at h; cases h
        | ok bytes =>
          rw [hread] at h
          cases h
          -- a negative size would be larger than any block
          have hfit := Buffer.le_size_of_read hread
          have hsize := size_of_concatLoop hloop
          have hblock := size_of_skynetMalloc (by unfold toSizeT; omega) hmalloc
          have hrange := toInt32_range sz
          rw [Buffer.length_of_read hread]
          unfold toSizeT at *
          omega

/-- What the requester gets of a table. -/
theorem received_table (table : List LuaValue) :
    (commandReq true (.table table)).received =
      match lconcat table with
      | .ok joined => .reply (joined.getD [])
      | .error _ => .nothing := by
  simp only [commandReq, if_true]
  cases h : lconcat table with
  | ok joined => cases joined <;> rfl
  | error fault =>
    cases fault with
    | raised message => exact absurd h (lconcat_ne_raised table message)
    | _ => rfl

/-- A table is answered as it should be exactly if its strings fill what it announces. -/
theorem answered_iff (table : List LuaValue) :
    Answered table (commandReq true (.table table)).received ↔ Announced table := by
  rw [received_table]
  constructor
  · rintro (⟨n, parts, rfl, hlen, hreceived⟩ | herror)
    · refine ⟨n, parts, rfl, ?_, hlen⟩
      cases hjoin : lconcat (partsTable n parts) with
      | error fault => rw [hjoin] at hreceived; cases hreceived
      | ok joined =>
        rw [hjoin] at hreceived
        have hpayload : joined.getD [] = parts.flatten := Received.reply.inj hreceived
        cases joined with
        | none =>
          -- an empty answer is right for a table that announces nothing
          rw [← hlen, ← hpayload]
          decide
        | some payload =>
          obtain rfl : payload = parts.flatten := hpayload
          have hsize := length_of_lconcat hjoin
          have hrange := toInt32_range n
          omega
    · split at herror <;> cases herror
  · rintro ⟨n, parts, rfl, hn, hlen⟩
    have hjoin := @lconcat_eq parts _ rfl (by omega)
    rw [hlen] at hjoin
    rw [partsTable, hjoin]
    exact Or.inl ⟨n, parts, rfl, hlen, rfl⟩

end Answered

/-! ### Frames of one session -/

/-- The responses for a session that a channel collects into a table: some that announce more,
and one that does not. -/
structure Collected (session : ℕ) (rs : List UnpackedResponse) : Prop where
  session_eq : ∀ r ∈ rs, r.session = session
  parts : ∃ parts last, rs = parts ++ [last] ∧ parts ≠ [] ∧
    (∀ r ∈ parts, r.ok = true ∧ r.padding = true) ∧ last.ok = true ∧ last.padding = false

section Collected

variable {κ : Type*} [DecidableEq κ] {ch : Channel κ} {session : ℕ} {co : κ}
  {frames : List Bytes} {rs : List UnpackedResponse}

open Channel

/-- What is collected for a session completes its caller, with the table of all the data. -/
theorem dispatchFrames_collected (hopen : ch.sock = true) (hdistinct : ch.Distinct)
    (hthread : ch.thread session = some co) (hresult : ch.resultData co = none)
    (hdecode : frames.map lunpackresponse = rs.map fun r => .ok (some r))
    (hrs : Collected session rs) :
    (ch.dispatchFrames frames).2 =
      [.completed co (commandReq true (.table (rs.map UnpackedResponse.data)))] := by
  have hentry : ch.entries session = some (co, none) := by simp [entries, hthread, hresult]
  have hrun := congrArg Prod.snd (dispatchFrames_eq hopen hdistinct hdecode)
  obtain ⟨-, hevents⟩ := deliverAll_of_key_eq UnpackedResponse.session collect ch.entries
    hrs.session_eq
  obtain ⟨parts, last, rfl, hne, hparts, hok, hlast⟩ := hrs.parts
  rw [hentry, reactAll_collect co hne hparts hok hlast] at hevents
  exact hrun.trans hevents

/-- **What a collected response is for the requester.** However the frames of a session come
in, a caller that is handed a table gets the parts one behind the other, with the announced
length, or an error, exactly if the first frame announces a size below `2 ^ 31` and the
others are strings that together have it. -/
theorem dispatchFrames_answered_iff (hopen : ch.sock = true) (hdistinct : ch.Distinct)
    (hthread : ch.thread session = some co) (hresult : ch.resultData co = none)
    (hdecode : frames.map lunpackresponse = rs.map fun r => .ok (some r))
    (hrs : Collected session rs) :
    ∃ reply, (ch.dispatchFrames frames).2 = [.completed co reply] ∧
      (Answered (rs.map UnpackedResponse.data) reply.received ↔
        Announced (rs.map UnpackedResponse.data)) :=
  ⟨_, dispatchFrames_collected hopen hdistinct hthread hresult hdecode hrs, answered_iff _⟩

/-- One caller, on session 1. -/
def oneWaiting : Channel Unit where
  sock := true
  thread s := if s = 1 then some () else none
  resultData _ := none

/-- A response of two bytes, in one part behind its size. -/
def twoBytes : List UnpackedResponse :=
  [⟨1, true, .number 2, true⟩, ⟨1, true, .string [7, 8], false⟩]

/-- The same with a part that is a byte short. -/
def oneByteShort : List UnpackedResponse :=
  [⟨1, true, .number 2, true⟩, ⟨1, true, .string [7], false⟩]

theorem dispatchFrames_answered_iff_twoBytes :
    ∃ reply, (oneWaiting.dispatchFrames
        [[1, 0, 0, 0, 2, 2, 0, 0, 0], [1, 0, 0, 0, 4, 7, 8]]).2 = [.completed () reply] ∧
      (Answered (twoBytes.map UnpackedResponse.data) reply.received ↔
        Announced (twoBytes.map UnpackedResponse.data)) := by
  have hdistinct : oneWaiting.Distinct := by
    intro s s' _ h h'
    simp only [oneWaiting] at h h'
    split_ifs at h h' with hs hs'
    rw [hs, hs']
  have hthread : oneWaiting.thread 1 = some () := rfl
  exact dispatchFrames_answered_iff rfl hdistinct hthread rfl (by decide)
    ⟨by decide, [⟨1, true, .number 2, true⟩], ⟨1, true, .string [7, 8], false⟩, rfl, by decide,
      by decide, rfl, rfl⟩

/-- A part that is too short ends in an empty successful answer. -/
theorem oneByteShort_answered_empty :
    (oneWaiting.dispatchFrames
        [[1, 0, 0, 0, 2, 2, 0, 0, 0], [1, 0, 0, 0, 4, 7]]).2 =
      [.completed () (.ret .nil)] ∧
      (Reply.ret .nil).received = .reply [] ∧
      ¬ Answered (oneByteShort.map UnpackedResponse.data) (Reply.ret .nil).received := by
  refine ⟨by decide, rfl, ?_⟩
  rintro (⟨n, parts, htable, hlen, hreply⟩ | herror)
  · -- the announced size is two, the answer has no byte
    have hn : LuaValue.number 2 = .number n := (List.cons.inj htable).1
    rw [← Received.reply.inj hreply] at hlen
    rw [← hlen] at hn
    exact absurd hn (by decide)
  · cases herror

end Collected

end TestCluster.BeeCluster
