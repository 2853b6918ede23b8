import Mathlib.Data.List.TakeDrop
import TestCluster.Semantics.Loop
import TestCluster.Semantics.Memory

/-!
# Compression

`zlib_compress` of `Pack.cpp`, which feeds a string to `deflate` in chunks. The library is a
parameter: of `deflate` it is known what its manual says.

## Main definitions

* `Zlib` — `deflateInit` and `deflate`
* `Zlib.Contract` — what the manual says of them
* `Zlib.deflateRound`, `Zlib.chunkRound`, `Zlib.zlibCompress` — the two loops, and the function
* `Deflating`, `Feeding` — what holds between two rounds of the inner and of the outer loop
* `Zlib.Computes` — the function of the input that is computed

## Main results

* `Zlib.zlibCompress_released` — every exit ends the stream once
* `Zlib.zlibCompress_feeds_once` — the input is fed once, in order, and what `deflate` has made of
  it is returned; after an error the output is as it was, and the stream is ended once
* `Zlib.zlibCompress_computes` — a function of the input is computed
-/

namespace TestCluster.Common

open Semantics

/-- `Z_NO_FLUSH` and `Z_FINISH`. -/
inductive Flush
  | noFlush
  | finish
  deriving DecidableEq, Repr

/-- What `deflate` returns. `Z_BUF_ERROR` says that nothing could be done, and is no error: the
stream can go on. -/
inductive DeflateRet
  | ok
  | streamEnd
  | streamError
  | bufError
  deriving DecidableEq, Repr

/-- What a call of `deflate` does: it moves behind the bytes that it has taken from the input, and
behind those that it has put into the room for the output. -/
structure Deflated (σ : Type) (availIn availOut : ℕ) where
  state : σ
  consumed : ℕ
  produced : Bytes
  ret : DeflateRet
  consumed_le : consumed ≤ availIn
  produced_le : produced.length ≤ availOut

/-- The library: `deflateInit`, which returns `Z_OK` or not, and `deflate`. -/
structure Zlib (σ : Type) where
  deflateInit : Option σ
  deflate : σ → Flush → (input : Bytes) → (availOut : ℕ) → Deflated σ input.length availOut

/-- A call of `deflate`: what it was given, and what it has done. -/
structure DeflateCall where
  flush : Flush
  input : Bytes
  consumed : ℕ
  produced : Bytes
  ret : DeflateRet
  deriving DecidableEq, Repr

/-- The bytes that the call has taken. -/
def DeflateCall.taken (c : DeflateCall) : Bytes := c.input.take c.consumed

/-- A round of the outer loop: the chunk, and the calls that were made for it. -/
structure Fed where
  chunk : Bytes
  flush : Flush
  calls : List DeflateCall
  deriving DecidableEq, Repr

/-- `strm`: where the input begins in its buffer, how much there is of it, how much room there is
for the output, and the state of the library. -/
structure ZStream (σ : Type) where
  nextIn : ℕ
  availIn : ℕ
  availOut : ℕ
  state : σ

/-- The variables of `zlib_compress`. How often the stream was ended, and what was fed so far, is
kept for the statements about it. -/
structure Compressing (σ : Type) where
  pos : ℕ
  inBuf : Buffer
  out : Buffer
  strm : ZStream σ
  ss : Bytes
  ended : ℕ
  calls : List DeflateCall
  fed : List Fed

/-- What `zlib_compress` returns, and what `output` is then. -/
structure Compressed where
  ok : Bool
  output : Bytes
  ended : ℕ
  fed : List Fed
  deriving DecidableEq, Repr

/-- All calls of `deflate`. -/
def Compressed.calls (r : Compressed) : List DeflateCall := r.fed.flatMap Fed.calls

/-! ### The code -/

/-- `CHUNK` -/
def chunkSize : ℕ := 16384

theorem chunkSize_pos : 0 < chunkSize := by decide

/-- `std::string::copy`. -/
def stringCopy (s : Bytes) (n pos : ℕ) : Except Fault Bytes :=
  if pos > s.length then .error (.raised "basic_string::copy") else .ok ((s.drop pos).take n)

section Code

variable {σ : Type}

/-- `deflateEnd`. -/
def Compressing.deflateEnd (s : Compressing σ) : Compressing σ := { s with ended := s.ended + 1 }

/-- The function is left. -/
def Compressing.exit (s : Compressing σ) (ok : Bool) (output : Bytes) : Compressed :=
  ⟨ok, output, s.ended, s.fed⟩

/-- The calls of the inner loop are kept with their chunk. -/
def Compressing.record (s : Compressing σ) (chunk : Bytes) (flush : Flush) : Compressing σ :=
  { s with fed := s.fed ++ [⟨chunk, flush, s.calls⟩] }

/-- What follows the inner loop. -/
def Compressing.afterChunk (s : Compressing σ) (output : Bytes) (flush : Flush)
    (ret : DeflateRet) : Round (Compressing σ) Compressed :=
  if ret = .streamError then .done (s.deflateEnd.exit false output)
  else if s.strm.availIn ≠ 0 then .done (s.deflateEnd.exit false output)
  else if flush ≠ .finish then .again s
  else if ret ≠ .streamEnd then .done (s.deflateEnd.exit false output)
  else .done (s.deflateEnd.exit true s.ss)

namespace Zlib

variable (D : Zlib σ)

/-- One round of the inner loop. It is left after an error, or with room for more output. -/
def deflateRound (flush : Flush) (s : Compressing σ) :
    Except Fault (Round (Compressing σ) (DeflateRet × Compressing σ)) := do
  let input ← s.inBuf.read s.strm.nextIn s.strm.availIn
  let r := D.deflate s.strm.state flush input chunkSize
  let out ← s.out.write 0 r.produced
  let s := { s with
    strm := ⟨s.strm.nextIn + r.consumed, s.strm.availIn - r.consumed,
      chunkSize - r.produced.length, r.state⟩
    out := out
    calls := s.calls ++ [⟨flush, input, r.consumed, r.produced, r.ret⟩] }
  if r.ret = .streamError then
    return .done (r.ret, s)
  else do
    let text ← s.out.read 0 (chunkSize - s.strm.availOut)
    let s := { s with ss := s.ss ++ text }
    return if s.strm.availOut = 0 then .again s else .done (r.ret, s)

/-- The inner loop. -/
def deflateLoop (flush : Flush) :
    Compressing σ → Rounds Fault (DeflateRet × Compressing σ) :=
  loop (fun s => liftM (D.deflateRound flush s))

/-- One round of the outer loop. -/
def chunkRound (data output : Bytes) (s : Compressing σ) :
    Rounds Fault (Round (Compressing σ) Compressed) := do
  let chunk ← stringCopy data chunkSize s.pos
  let inBuf ← s.inBuf.write 0 chunk
  let pos := s.pos + chunk.length
  let flush := if pos ≥ data.length then Flush.finish else Flush.noFlush
  let s := { s with
    pos := pos
    inBuf := inBuf
    strm := { s.strm with nextIn := 0, availIn := chunk.length }
    calls := [] }
  let (ret, s) ← D.deflateLoop flush s
  return (s.record chunk flush).afterChunk output flush ret

/-- `zlib_compress`. -/
def zlibCompress (data output : Bytes) : Rounds Fault Compressed :=
  match D.deflateInit with
  | none => return ⟨false, output, 0, []⟩
  | some state => loop (D.chunkRound data output)
      ⟨0, .alloc chunkSize, .alloc chunkSize, ⟨0, 0, 0, state⟩, [], 0, [], []⟩

end Zlib

end Code

/-! ### What the manual says -/

section Contract

variable {σ : Type}

/-- The bytes that the call has left. -/
def DeflateCall.rest (c : DeflateCall) : Bytes := c.input.drop c.consumed

namespace Zlib

/-- After `Z_FINISH` the stream may only be finished, with what was left of the input. -/
def Follows (calls : List DeflateCall) (flush : Flush) (input : Bytes) : Prop :=
  ∀ c ∈ calls.getLast?, c.flush = .finish → flush = .finish ∧ input = c.rest

variable (D : Zlib σ)

/-- A call, and what it has done. -/
def call (s : σ) (flush : Flush) (input : Bytes) (availOut : ℕ) : DeflateCall :=
  let r := D.deflate s flush input availOut
  ⟨flush, input, r.consumed, r.produced, r.ret⟩

section Call

variable (s : σ) (flush : Flush) (input : Bytes) (availOut : ℕ)

@[simp] theorem call_ret :
    (D.call s flush input availOut).ret = (D.deflate s flush input availOut).ret := rfl

@[simp] theorem call_produced :
    (D.call s flush input availOut).produced = (D.deflate s flush input availOut).produced := rfl

@[simp] theorem call_consumed :
    (D.call s flush input availOut).consumed = (D.deflate s flush input availOut).consumed := rfl

@[simp] theorem call_rest : (D.call s flush input availOut).rest =
    input.drop (D.deflate s flush input availOut).consumed := rfl

end Call

/-- The states of a stream, with the calls that have led to them. None was an error, and each
might follow those before it. -/
inductive Stream : List DeflateCall → σ → Prop
  | start {s : σ} : D.deflateInit = some s → Stream [] s
  | next {calls : List DeflateCall} {s : σ} {flush : Flush} {input : Bytes} {availOut : ℕ} :
      Stream calls s → Follows calls flush input → 0 < availOut →
        (D.deflate s flush input availOut).ret ≠ .streamError →
          Stream (calls ++ [D.call s flush input availOut])
            (D.deflate s flush input availOut).state

/-- Finishing the stream puts out nothing any more. -/
def Delivered (s : σ) : Prop := ∀ availOut, (D.deflate s .finish [] availOut).produced = []

/-- What the manual says of a call with room for output: it takes all of its input before it
leaves room, it says that the stream has ended only after `Z_FINISH` and when all is put out, and
it says so once it leaves room. From so much input a stream makes only so much output. -/
structure Contract : Prop where
  consumes : ∀ {calls s flush input availOut}, D.Stream calls s → Follows calls flush input →
    0 < availOut → (D.deflate s flush input availOut).ret ≠ .streamError →
      (D.deflate s flush input availOut).produced.length < availOut →
        (D.deflate s flush input availOut).consumed = input.length
  ends : ∀ {calls s flush input availOut}, D.Stream calls s → Follows calls flush input →
    0 < availOut → (D.deflate s flush input availOut).ret = .streamEnd →
      flush = .finish ∧ D.Delivered (D.deflate s flush input availOut).state
  finishes : ∀ {calls s input availOut}, D.Stream calls s → Follows calls .finish input →
    0 < availOut → (D.deflate s .finish input availOut).ret ≠ .streamError →
      (D.deflate s .finish input availOut).produced.length < availOut →
        (D.deflate s .finish input availOut).ret = .streamEnd
  bounded : ∀ n, ∃ limit, ∀ {calls s}, D.Stream calls s →
    (calls.flatMap DeflateCall.taken).length ≤ n →
      (calls.flatMap DeflateCall.produced).length ≤ limit

end Zlib

end Contract

/-! ### What is fed -/

section Feeding

variable {σ : Type} {flush : Flush} {chunk rest : Bytes} {calls : List DeflateCall}

/-- The calls were given a chunk, each what the one before has left of it. -/
inductive Feeds (flush : Flush) (chunk : Bytes) : List DeflateCall → Bytes → Prop
  | nil : Feeds flush chunk [] chunk
  | snoc {calls : List DeflateCall} {c : DeflateCall} :
      Feeds flush chunk calls c.input → c.flush = flush →
        Feeds flush chunk (calls ++ [c]) c.rest

/-- A chunk was passed to `deflate`. -/
def Fed.Passed (f : Fed) : Prop := f.calls ≠ [] ∧ ∃ rest, Feeds f.flush f.chunk f.calls rest

/-- The chunks are the input from its start on. Only the last one is passed with `Z_FINISH`, and
that exactly if nothing of the input is behind it. -/
structure InOrder (data : Bytes) (fed : List Fed) : Prop where
  chunks : fed.flatMap Fed.chunk <+: data
  last : ∃ first last, fed = first ++ [last] ∧ (∀ f ∈ first, f.flush = .noFlush) ∧
    (last.flush = .finish ↔ fed.flatMap Fed.chunk = data)
  passed : ∀ f ∈ fed, f.Passed

/-- `false` is returned, `output` is as it was, and the stream was ended once. -/
structure Compressed.Failed (r : Compressed) (output : Bytes) : Prop where
  ok : r.ok = false
  output : r.output = output
  ended : r.ended = 1

/-- The chunks are the input, all of it was taken once, and what `deflate` has made of it is
returned. Nothing is left in the stream, which was ended once. -/
structure Compressed.Succeeded (D : Zlib σ) (r : Compressed) (data : Bytes) : Prop where
  ok : r.ok = true
  chunks : r.fed.flatMap Fed.chunk = data
  taken : r.calls.flatMap DeflateCall.taken = data
  output : r.output = r.calls.flatMap DeflateCall.produced
  delivered : ∃ s, D.Stream r.calls s ∧ D.Delivered s
  ended : r.ended = 1

/-- The input is fed in order. After an error nothing is returned, and all of it otherwise. -/
structure Compressed.FeedsOnce (D : Zlib σ) (r : Compressed) (data output : Bytes) : Prop where
  inOrder : InOrder data r.fed
  failed : (∃ c ∈ r.calls, c.ret = .streamError) → r.Failed output
  succeeded : (∀ c ∈ r.calls, c.ret ≠ .streamError) → r.Succeeded D data

theorem Feeds.taken_append_rest (h : Feeds flush chunk calls rest) :
    calls.flatMap DeflateCall.taken ++ rest = chunk := by
  induction h with
  | nil => rfl
  | @snoc calls c _ _ ih =>
    rw [List.flatMap_append, List.flatMap_singleton, List.append_assoc, DeflateCall.taken,
      DeflateCall.rest, List.take_append_drop, ih]

theorem Feeds.flush_eq (h : Feeds flush chunk calls rest) : ∀ c ∈ calls, c.flush = flush := by
  induction h with
  | nil => exact List.forall_mem_nil _
  | snoc _ hflush ih => exact List.forall_mem_append.mpr ⟨ih, List.forall_mem_singleton.mpr hflush⟩

theorem Feeds.length_taken_le (h : Feeds flush chunk calls rest) :
    (calls.flatMap DeflateCall.taken).length ≤ chunk.length := by
  rw [← h.taken_append_rest, List.length_append]
  exact Nat.le_add_right _ _

theorem Zlib.Stream.no_error {D : Zlib σ} {s : σ} (h : D.Stream calls s) :
    ∀ c ∈ calls, c.ret ≠ .streamError := by
  induction h with
  | start => exact List.forall_mem_nil _
  | next _ _ _ hret ih => exact List.forall_mem_append.mpr ⟨ih, List.forall_mem_singleton.mpr hret⟩

end Feeding

/-! ### How the function is left -/

section Exits

variable {σ : Type} {D : Zlib σ} {flush : Flush} {data output : Bytes} {s : Compressing σ}

/-- The call was made of this library. -/
def Zlib.Made (D : Zlib σ) (c : DeflateCall) : Prop :=
  ∃ state availOut, c = D.call state c.flush c.input availOut

/-- The stream was not ended yet, and only the library was called. -/
structure Compressing.Running (D : Zlib σ) (s : Compressing σ) : Prop where
  ended : s.ended = 0
  calls : ∀ c ∈ s.calls, D.Made c
  fed : ∀ c ∈ s.fed.flatMap Fed.calls, D.Made c

/-- The stream was ended once, `output` is as it was if `false` is returned, and only the library was
called. -/
structure Compressed.Released (D : Zlib σ) (r : Compressed) (output : Bytes) : Prop where
  ended : r.ended = 1
  output : r.ok = false → r.output = output
  calls : ∀ c ∈ r.calls, D.Made c

theorem deflateRound_post {r : Round (Compressing σ) (DeflateRet × Compressing σ)}
    (hs : s.Running D) (h : D.deflateRound flush s = .ok r) :
    r.Post (Compressing.Running D) (fun a => a.2.Running D) := by
  rw [Zlib.deflateRound] at h
  obtain ⟨input, -, h⟩ := bind_ok h
  obtain ⟨out, -, h⟩ := bind_ok h
  have hcalls : ∀ c ∈ s.calls ++ [D.call s.strm.state flush input chunkSize], D.Made c :=
    List.forall_mem_append.mpr ⟨hs.calls, List.forall_mem_singleton.mpr ⟨_, _, rfl⟩⟩
  by_cases hret : (D.deflate s.strm.state flush input chunkSize).ret = .streamError
  · rw [if_pos hret] at h
    cases h
    exact ⟨hs.ended, hcalls, hs.fed⟩
  · rw [if_neg hret] at h
    obtain ⟨text, -, h⟩ := bind_ok h
    obtain rfl := Except.ok.inj h
    split_ifs
    · exact ⟨hs.ended, hcalls, hs.fed⟩
    · exact ⟨hs.ended, hcalls, hs.fed⟩

/-- The inner loop does not end the stream. -/
theorem deflateLoop_returns {a : DeflateRet × Compressing σ} (hs : s.Running D)
    (h : Returns (D.deflateLoop flush s) a) : a.2.Running D :=
  loop_returns (I := Compressing.Running D) (Q := fun a => a.2.Running D)
    (fun _ _ hs hr => deflateRound_post hs hr.lift) hs h

theorem afterChunk_post {ret : DeflateRet} (hs : s.Running D) :
    (s.afterChunk output flush ret).Post (Compressing.Running D)
      (fun r => r.Released D output) := by
  have hended : s.deflateEnd.ended = 1 := by rw [Compressing.deflateEnd, hs.ended]
  have hfailed : (s.deflateEnd.exit false output).Released D output :=
    ⟨hended, fun _ => rfl, hs.fed⟩
  rw [Compressing.afterChunk]
  split_ifs
  · exact hfailed
  · exact hfailed
  · exact hs
  · exact hfailed
  · exact ⟨hended, fun h => Bool.noConfusion h, hs.fed⟩

theorem chunkRound_post {r : Round (Compressing σ) Compressed} (hs : s.Running D)
    (h : Returns (D.chunkRound data output s) r) :
    r.Post (Compressing.Running D) (fun r => r.Released D output) := by
  rw [Zlib.chunkRound] at h
  obtain ⟨chunk, -, h⟩ := h.bind
  obtain ⟨inBuf, -, h⟩ := h.bind
  obtain ⟨a, hloop, h⟩ := h.bind
  rw [← h.pure]
  have hleft : a.2.Running D := by
    refine deflateLoop_returns ?_ hloop
    exact ⟨hs.ended, List.forall_mem_nil _, hs.fed⟩
  refine afterChunk_post ⟨hleft.ended, hleft.calls, ?_⟩
  -- the calls of the inner loop go to its chunk
  rw [Compressing.record, List.flatMap_append, List.flatMap_singleton]
  exact List.forall_mem_append.mpr ⟨hleft.fed, hleft.calls⟩

/-- Whatever `deflate` does, every exit ends the stream once, and those that return `false` leave
`output` as it was. -/
theorem Zlib.zlibCompress_released {r : Compressed} (hinit : D.deflateInit ≠ none)
    (h : Returns (D.zlibCompress data output) r) : r.Released D output := by
  obtain ⟨state, hstate⟩ := Option.ne_none_iff_exists'.mp hinit
  rw [Zlib.zlibCompress, hstate] at h
  exact loop_returns (I := Compressing.Running D) (Q := fun r => r.Released D output)
    (fun _ _ => chunkRound_post) ⟨rfl, List.forall_mem_nil _, List.forall_mem_nil _⟩ h

end Exits

/-! ### The inner loop -/

section Inner

variable {σ : Type} {D : Zlib σ} {flush : Flush} {chunk rest : Bytes}
  {before : List DeflateCall} {s₀ s : Compressing σ}

/-- The variables after a call of `deflate`. -/
def Compressing.advance (s : Compressing σ) (c : DeflateCall) (state : σ) (out : Buffer) :
    Compressing σ :=
  { s with
    strm := ⟨s.strm.nextIn + c.consumed, s.strm.availIn - c.consumed,
      chunkSize - c.produced.length, state⟩
    out := out
    calls := s.calls ++ [c] }

/-- The variables when the output of the call was put into `ss`. -/
def Compressing.collect (s : Compressing σ) (bytes : Bytes) : Compressing σ :=
  { s with ss := s.ss ++ bytes }

/-- In the inner loop, `rest` of the chunk is left. It began in the state `s₀`, after the calls
`before`. -/
structure Deflating (D : Zlib σ) (flush : Flush) (chunk : Bytes) (before : List DeflateCall)
    (s₀ s : Compressing σ) (rest : Bytes) : Prop where
  pos : s.pos = s₀.pos
  fed : s.fed = s₀.fed
  ended : s.ended = s₀.ended
  inBuf : s.inBuf.Filled chunkSize chunk
  out : s.out.size = chunkSize
  nextIn : s.strm.nextIn + rest.length = chunk.length
  availIn : s.strm.availIn = rest.length
  rest_eq : chunk.drop s.strm.nextIn = rest
  feeds : Feeds flush chunk s.calls rest
  stream : D.Stream (before ++ s.calls) s.strm.state
  follows : Zlib.Follows (before ++ s.calls) flush rest
  ss : s.ss = s₀.ss ++ s.calls.flatMap DeflateCall.produced

/-- How the inner loop is left: after an error, or when the chunk was taken and, if it is the last
one, the stream has ended. -/
inductive Left (D : Zlib σ) (flush : Flush) (chunk : Bytes) (before : List DeflateCall)
    (s₀ : Compressing σ) : DeflateRet × Compressing σ → Prop
  | error {s : Compressing σ} {rest : Bytes} : s.pos = s₀.pos → s.fed = s₀.fed →
      s.ended = s₀.ended → s.calls ≠ [] → Feeds flush chunk s.calls rest →
        (∃ c ∈ s.calls, c.ret = .streamError) → Left D flush chunk before s₀ (.streamError, s)
  | taken {ret : DeflateRet} {s : Compressing σ} : Deflating D flush chunk before s₀ s [] →
      s.calls ≠ [] → ret ≠ .streamError →
        (flush = .finish → ret = .streamEnd ∧ D.Delivered s.strm.state) →
          Left D flush chunk before s₀ (ret, s)

namespace Deflating

/-- A round of the loop is a call of `deflate` with what is left of the chunk. -/
theorem deflateRound_eq (h : Deflating D flush chunk before s₀ s rest) :
    ∃ out : Buffer, out.size = chunkSize ∧
      let c := D.call s.strm.state flush rest chunkSize
      let s' := s.advance c (D.deflate s.strm.state flush rest chunkSize).state out
      D.deflateRound flush s = .ok (
        if c.ret = .streamError then .done (c.ret, s')
        else if chunkSize - c.produced.length = 0 then .again (s'.collect c.produced)
        else .done (c.ret, s'.collect c.produced)) := by
  have hread : s.inBuf.read s.strm.nextIn s.strm.availIn = .ok rest := by
    rw [h.availIn, h.inBuf.read_drop _ _ h.nextIn, h.rest_eq]
  have hfit := (D.deflate s.strm.state flush rest chunkSize).produced_le
  obtain ⟨out, hwrite, hfilled⟩ := Buffer.Filled.rewrite h.out hfit
  have hsub := Nat.sub_sub_self hfit
  have hout := hfilled.read _ rfl
  refine ⟨out, hfilled.size_eq, ?_⟩
  intro c s'
  simp only [Zlib.deflateRound, hread, ok_bind, hwrite, hsub, hout, pure_eq_ok]
  by_cases hret : c.ret = .streamError
  · rw [if_pos hret]
    exact if_pos hret
  · rw [if_neg hret]
    exact if_neg hret

/-- What a call that is no error has left of the chunk is what is left in the loop. -/
theorem next (h : Deflating D flush chunk before s₀ s rest) {out : Buffer}
    (hout : out.size = chunkSize)
    (hret : (D.deflate s.strm.state flush rest chunkSize).ret ≠ .streamError) :
    let c := D.call s.strm.state flush rest chunkSize
    Deflating D flush chunk before s₀
      ((s.advance c (D.deflate s.strm.state flush rest chunkSize).state out).collect c.produced)
      c.rest where
  pos := h.pos
  fed := h.fed
  ended := h.ended
  inBuf := h.inBuf
  out := hout
  nextIn := by
    have hle := (D.deflate s.strm.state flush rest chunkSize).consumed_le
    have hnext := h.nextIn
    simp only [Compressing.collect, Compressing.advance, Zlib.call_consumed, Zlib.call_rest,
      List.length_drop]
    omega
  availIn := by
    simp only [Compressing.collect, Compressing.advance, Zlib.call_consumed, Zlib.call_rest,
      List.length_drop, h.availIn]
  rest_eq := by
    simp only [Compressing.collect, Compressing.advance, Zlib.call_consumed, Zlib.call_rest,
      ← List.drop_drop, h.rest_eq]
  feeds := .snoc h.feeds rfl
  stream := by
    simp only [Compressing.collect, Compressing.advance, ← List.append_assoc]
    exact .next h.stream h.follows chunkSize_pos hret
  follows := by
    intro c hc hflush
    simp only [Compressing.collect, Compressing.advance, ← List.append_assoc,
      List.getLast?_concat] at hc
    obtain rfl := Option.mem_some_iff.mp hc
    exact ⟨hflush, rfl⟩
  ss := by
    simp only [Compressing.collect, Compressing.advance, h.ss, List.flatMap_append,
      List.flatMap_singleton, List.append_assoc]

/-- The loop is left after an error. -/
theorem left_error (h : Deflating D flush chunk before s₀ s rest) {out : Buffer}
    (hret : (D.deflate s.strm.state flush rest chunkSize).ret = .streamError) :
    let c := D.call s.strm.state flush rest chunkSize
    Left D flush chunk before s₀
      (c.ret, s.advance c (D.deflate s.strm.state flush rest chunkSize).state out) := by
  intro c
  have hc : c.ret = .streamError := hret
  rw [hc]
  have hfeeds : Feeds flush chunk (s.calls ++ [c]) c.rest := .snoc h.feeds rfl
  exact .error h.pos h.fed h.ended (List.append_ne_nil_of_right_ne_nil _ (List.cons_ne_nil _ _))
    hfeeds ⟨c, List.mem_append_right _ (List.mem_singleton_self c), hc⟩

/-- The loop is left with room for output: then all of the chunk was taken. -/
theorem left_taken (hD : D.Contract) (h : Deflating D flush chunk before s₀ s rest) {out : Buffer}
    (hout : out.size = chunkSize)
    (hret : (D.deflate s.strm.state flush rest chunkSize).ret ≠ .streamError)
    (hroom : (D.deflate s.strm.state flush rest chunkSize).produced.length < chunkSize) :
    let c := D.call s.strm.state flush rest chunkSize
    Left D flush chunk before s₀ (c.ret,
      (s.advance c (D.deflate s.strm.state flush rest chunkSize).state out).collect
        c.produced) := by
  intro c
  have hconsumed := hD.consumes h.stream h.follows chunkSize_pos hret hroom
  have hrest : c.rest = [] := by
    rw [Zlib.call_rest, hconsumed, List.drop_length]
  have hnext := h.next hout hret
  dsimp only at hnext
  rw [hrest] at hnext
  refine .taken hnext (List.append_ne_nil_of_right_ne_nil _ (List.cons_ne_nil _ _)) hret ?_
  rintro rfl
  have hend := hD.finishes h.stream h.follows chunkSize_pos hret hroom
  exact ⟨hend, (hD.ends h.stream h.follows chunkSize_pos hend).2⟩

end Deflating

/-- **The inner loop** ends, after an error or when the chunk was taken. -/
theorem deflateLoop_ends (hD : D.Contract) (h : Deflating D flush chunk before s₀ s rest) :
    ∃ a, Ends (D.deflateLoop flush s) a ∧ Left D flush chunk before s₀ a := by
  obtain ⟨limit, hlimit⟩ :=
    hD.bounded ((before.flatMap DeflateCall.taken).length + chunk.length)
  -- the output of the calls so far
  have hle : ∀ {s rest}, Deflating D flush chunk before s₀ s rest →
      ((before ++ s.calls).flatMap DeflateCall.produced).length ≤ limit := by
    intro s rest h
    refine hlimit h.stream ?_
    rw [List.flatMap_append, List.length_append]
    exact Nat.add_le_add_left h.feeds.length_taken_le _
  refine loop_ends (I := fun s => ∃ rest, Deflating D flush chunk before s₀ s rest)
    (fun s => limit - ((before ++ s.calls).flatMap DeflateCall.produced).length) ?_ ⟨rest, h⟩
  rintro s ⟨rest, h⟩
  obtain ⟨out, hout, hround⟩ := h.deflateRound_eq
  dsimp only at hround
  by_cases hret : (D.call s.strm.state flush rest chunkSize).ret = .streamError
  · rw [if_pos hret] at hround
    exact .inl ⟨_, .lift hround, h.left_error hret⟩
  rw [if_neg hret] at hround
  by_cases hfull : chunkSize - (D.call s.strm.state flush rest chunkSize).produced.length = 0
  · -- the output is full: there is more of it than before
    rw [if_pos hfull] at hround
    have hnext := h.next hout hret
    refine .inr ⟨_, .lift hround, ⟨_, hnext⟩, ?_⟩
    have hlen := hle hnext
    have hpos := chunkSize_pos
    simp only [Compressing.collect, Compressing.advance, ← List.append_assoc, List.flatMap_append,
      List.flatMap_singleton, List.length_append] at hlen ⊢
    omega
  · rw [if_neg hfull] at hround
    exact .inl ⟨_, .lift hround, h.left_taken hD hout hret (Nat.lt_of_sub_ne_zero hfull)⟩

end Inner

/-! ### The outer loop -/

section Outer

variable {σ : Type} {D : Zlib σ} {data output : Bytes} {s : Compressing σ}

/-- The chunk at a place of the input. -/
def chunkAt (data : Bytes) (pos : ℕ) : Bytes := (data.drop pos).take chunkSize

/-- What it is passed with. -/
def flushAt (data : Bytes) (pos : ℕ) : Flush :=
  if pos + (chunkAt data pos).length ≥ data.length then .finish else .noFlush

theorem length_chunkAt (data : Bytes) (pos : ℕ) :
    (chunkAt data pos).length = min chunkSize (data.length - pos) := by
  rw [chunkAt, List.length_take, List.length_drop]

theorem take_append_chunkAt (data : Bytes) (pos : ℕ) :
    data.take pos ++ chunkAt data pos = data.take (pos + (chunkAt data pos).length) := by
  rw [List.take_add, length_chunkAt, chunkAt, ← List.length_drop, ← List.take_eq_take_min]

theorem flushAt_eq_finish_iff (data : Bytes) (pos : ℕ) :
    flushAt data pos = .finish ↔ data.take (pos + (chunkAt data pos).length) = data := by
  rw [List.take_eq_self_iff, flushAt]
  split_ifs with hend
  · exact iff_of_true rfl hend
  · exact iff_of_false (by decide) hend

/-- After a round of the outer loop, the input was taken up to `pos`. -/
structure Taken (D : Zlib σ) (data : Bytes) (s : Compressing σ) : Prop where
  pos_le : s.pos ≤ data.length
  inBuf : s.inBuf.size = chunkSize
  out : s.out.size = chunkSize
  ended : s.ended = 0
  chunks : s.fed.flatMap Fed.chunk = data.take s.pos
  taken : (s.fed.flatMap Fed.calls).flatMap DeflateCall.taken = data.take s.pos
  passed : ∀ f ∈ s.fed, f.Passed
  stream : D.Stream (s.fed.flatMap Fed.calls) s.strm.state
  ss : s.ss = (s.fed.flatMap Fed.calls).flatMap DeflateCall.produced

/-- Before a round, nothing of it was passed with `Z_FINISH`. -/
structure Feeding (D : Zlib σ) (data : Bytes) (s : Compressing σ) : Prop
    extends Taken D data s where
  noFlush : ∀ f ∈ s.fed, f.flush = .noFlush

/-- The variables when the next chunk is in the buffer. -/
def Compressing.load (s : Compressing σ) (data : Bytes) (inBuf : Buffer) : Compressing σ :=
  { s with
    pos := s.pos + (chunkAt data s.pos).length
    inBuf := inBuf
    strm := { s.strm with nextIn := 0, availIn := (chunkAt data s.pos).length }
    calls := [] }

section AfterChunk

variable {flush : Flush} {ret : DeflateRet}

theorem afterChunk_error :
    s.afterChunk output flush .streamError = .done (s.deflateEnd.exit false output) := if_pos rfl

theorem afterChunk_again (hret : ret ≠ .streamError) (havail : s.strm.availIn = 0) :
    s.afterChunk output .noFlush ret = .again s := by
  rw [Compressing.afterChunk, if_neg hret, if_neg (not_not.mpr havail), if_pos (by decide)]

theorem afterChunk_done (havail : s.strm.availIn = 0) :
    s.afterChunk output .finish .streamEnd = .done (s.deflateEnd.exit true s.ss) := by
  rw [Compressing.afterChunk, if_neg (by decide), if_neg (not_not.mpr havail),
    if_neg (by decide), if_neg (by decide)]

end AfterChunk

namespace Feeding

/-- A stream that was not finished can be given anything. -/
theorem follows (h : Feeding D data s) (flush : Flush) (input : Bytes) :
    Zlib.Follows (s.fed.flatMap Fed.calls) flush input := by
  intro c hc hfinish
  obtain ⟨f, hf, hcf⟩ := List.mem_flatMap.mp (List.mem_of_getLast? hc)
  obtain ⟨rest, hfeeds⟩ := (h.passed f hf).2
  rw [hfeeds.flush_eq c hcf, h.noFlush f hf] at hfinish
  cases hfinish

/-- A round begins with a call of the inner loop for the next chunk. -/
theorem chunkRound_begins (h : Feeding D data s) (output : Bytes) :
    ∃ inBuf, Deflating D (flushAt data s.pos) (chunkAt data s.pos) (s.fed.flatMap Fed.calls)
        (s.load data inBuf) (s.load data inBuf) (chunkAt data s.pos) ∧
      ∀ ret s', Ends (D.deflateLoop (flushAt data s.pos) (s.load data inBuf)) (ret, s') →
        Ends (D.chunkRound data output s)
          ((s'.record (chunkAt data s.pos) (flushAt data s.pos)).afterChunk output
            (flushAt data s.pos) ret) := by
  have hcopy : stringCopy data chunkSize s.pos = .ok (chunkAt data s.pos) :=
    if_neg (Nat.not_lt.mpr h.pos_le)
  have hfit : (chunkAt data s.pos).length ≤ chunkSize := by
    rw [length_chunkAt]
    exact min_le_left _ _
  obtain ⟨inBuf, hwrite, hfilled⟩ := Buffer.Filled.rewrite h.inBuf hfit
  refine ⟨inBuf, ?_, fun ret s' hloop => ?_⟩
  · refine ⟨rfl, rfl, rfl, hfilled, h.out, Nat.zero_add _, rfl, List.drop_zero, .nil, ?_, ?_, ?_⟩
    · rw [Compressing.load, List.append_nil]
      exact h.stream
    · rw [Compressing.load, List.append_nil]
      exact h.follows _ _
    · exact (List.append_nil _).symm
  · exact (Ends.lift hcopy).bind ((Ends.lift hwrite).bind (hloop.bind (.pure _)))

/-- The chunks are in order when the next one was passed. -/
theorem inOrder (h : Feeding D data s) {last : Fed} (hchunk : last.chunk = chunkAt data s.pos)
    (hflush : last.flush = flushAt data s.pos) (hpassed : last.Passed) :
    InOrder data (s.fed ++ [last]) := by
  have hchunks : (s.fed ++ [last]).flatMap Fed.chunk =
      data.take (s.pos + (chunkAt data s.pos).length) := by
    rw [List.flatMap_append, List.flatMap_singleton, h.chunks, hchunk, take_append_chunkAt]
  refine ⟨?_, ⟨s.fed, last, rfl, h.noFlush, ?_⟩,
    List.forall_mem_append.mpr ⟨h.passed, List.forall_mem_singleton.mpr hpassed⟩⟩
  · rw [hchunks]
    exact List.take_prefix _ _
  · rw [hchunks, hflush]
    exact flushAt_eq_finish_iff data s.pos

/-- The next chunk was taken. -/
theorem taken_next (h : Feeding D data s) {flush : Flush} {inBuf : Buffer} {s' : Compressing σ}
    (hleft : Deflating D flush (chunkAt data s.pos) (s.fed.flatMap Fed.calls)
      (s.load data inBuf) s' []) (hcalls : s'.calls ≠ []) :
    Taken D data (s'.record (chunkAt data s.pos) flush) where
  pos_le := by
    have hle := h.pos_le
    simp only [Compressing.record, hleft.pos, Compressing.load, length_chunkAt]
    omega
  inBuf := hleft.inBuf.size_eq
  out := hleft.out
  ended := hleft.ended.trans h.ended
  chunks := by
    simp only [Compressing.record, hleft.fed, hleft.pos, Compressing.load, List.flatMap_append,
      List.flatMap_singleton, h.chunks, take_append_chunkAt]
  taken := by
    have hchunk := hleft.feeds.taken_append_rest
    rw [List.append_nil] at hchunk
    simp only [Compressing.record, hleft.fed, hleft.pos, Compressing.load, List.flatMap_append,
      List.flatMap_singleton, h.taken, hchunk, take_append_chunkAt]
  passed := by
    simp only [Compressing.record, hleft.fed, Compressing.load]
    exact List.forall_mem_append.mpr
      ⟨h.passed, List.forall_mem_singleton.mpr ⟨hcalls, [], hleft.feeds⟩⟩
  stream := by
    simp only [Compressing.record, hleft.fed, Compressing.load, List.flatMap_append,
      List.flatMap_singleton]
    exact hleft.stream
  ss := by
    simp only [Compressing.record, hleft.fed, hleft.ss, Compressing.load, List.flatMap_append,
      List.flatMap_singleton, h.ss]

/-- The inner loop has met an error. -/
theorem failed (h : Feeding D data s) {inBuf : Buffer} {s' : Compressing σ} {rest : Bytes}
    (hfed : s'.fed = (s.load data inBuf).fed) (hended : s'.ended = (s.load data inBuf).ended)
    (hcalls : s'.calls ≠ [])
    (hfeeds : Feeds (flushAt data s.pos) (chunkAt data s.pos) s'.calls rest)
    (herror : ∃ c ∈ s'.calls, c.ret = .streamError) (output : Bytes) :
    (((s'.record (chunkAt data s.pos) (flushAt data s.pos)).deflateEnd).exit false
      output).FeedsOnce D data output := by
  have hfed' : s'.fed = s.fed := hfed
  have hended' : s'.ended + 1 = 1 := by rw [hended, Compressing.load, h.ended]
  refine ⟨?_, fun _ => ⟨rfl, rfl, hended'⟩, fun hno => ?_⟩
  · simp only [Compressing.exit, Compressing.deflateEnd, Compressing.record, hfed']
    exact h.inOrder rfl rfl ⟨hcalls, rest, hfeeds⟩
  · obtain ⟨c, hc, hret⟩ := herror
    refine absurd hret (hno c ?_)
    simp only [Compressed.calls, Compressing.exit, Compressing.deflateEnd, Compressing.record,
      List.flatMap_append, List.flatMap_singleton]
    exact List.mem_append_right _ hc

/-- The last chunk was taken, and the stream has ended. -/
theorem succeeded (h : Feeding D data s) {inBuf : Buffer} {s' : Compressing σ}
    (hlast : flushAt data s.pos = .finish)
    (hleft : Deflating D (flushAt data s.pos) (chunkAt data s.pos) (s.fed.flatMap Fed.calls)
      (s.load data inBuf) s' []) (hcalls : s'.calls ≠ [])
    (hdelivered : D.Delivered s'.strm.state) (output : Bytes) :
    (((s'.record (chunkAt data s.pos) (flushAt data s.pos)).deflateEnd).exit true
      s'.ss).FeedsOnce D data output := by
  have htaken := h.taken_next hleft hcalls
  have hended : s'.ended + 1 = 1 := by rw [hleft.ended, Compressing.load, h.ended]
  have hpos : s'.pos = s.pos + (chunkAt data s.pos).length := hleft.pos
  have hall : data.take s'.pos = data := by
    rw [hpos]
    exact (flushAt_eq_finish_iff data s.pos).mp hlast
  refine ⟨?_, ?_, fun _ => ⟨rfl, ?_, ?_, htaken.ss, ⟨_, htaken.stream, hdelivered⟩, hended⟩⟩
  · have hfed : s'.fed = s.fed := hleft.fed
    simp only [Compressing.exit, Compressing.deflateEnd, Compressing.record, hfed]
    exact h.inOrder rfl rfl ⟨hcalls, [], hleft.feeds⟩
  · rintro ⟨c, hc, hret⟩
    exact absurd hret (htaken.stream.no_error c hc)
  · exact htaken.chunks.trans hall
  · exact htaken.taken.trans hall

/-- A chunk that is not the last one was taken. -/
theorem next (h : Feeding D data s) {inBuf : Buffer} {s' : Compressing σ}
    (hmore : flushAt data s.pos = .noFlush)
    (hleft : Deflating D .noFlush (chunkAt data s.pos) (s.fed.flatMap Fed.calls)
      (s.load data inBuf) s' []) (hcalls : s'.calls ≠ []) :
    Feeding D data (s'.record (chunkAt data s.pos) .noFlush) ∧
      data.length - (s'.record (chunkAt data s.pos) .noFlush).pos < data.length - s.pos := by
  refine ⟨⟨h.taken_next hleft hcalls, ?_⟩, ?_⟩
  · simp only [Compressing.record, hleft.fed, Compressing.load]
    exact List.forall_mem_append.mpr ⟨h.noFlush, List.forall_mem_singleton.mpr rfl⟩
  · -- the chunk is not empty, as something of the input is behind it
    have hpos : s'.pos = s.pos + (chunkAt data s.pos).length := hleft.pos
    have hbehind : ¬s.pos + (chunkAt data s.pos).length ≥ data.length := by
      intro hend
      rw [flushAt, if_pos hend] at hmore
      cases hmore
    have hchunk := chunkSize_pos
    rw [length_chunkAt] at hpos hbehind
    simp only [Compressing.record, hpos]
    omega

/-- A round of the outer loop feeds more of the input, or is the last one. -/
theorem chunkRound_ends (hD : D.Contract) (h : Feeding D data s) (output : Bytes) :
    (∃ r, Ends (D.chunkRound data output s) (.done r) ∧ r.FeedsOnce D data output) ∨
      ∃ s', Ends (D.chunkRound data output s) (.again s') ∧ Feeding D data s' ∧
        data.length - s'.pos < data.length - s.pos := by
  obtain ⟨inBuf, hstart, hround⟩ := h.chunkRound_begins output
  obtain ⟨⟨ret, s'⟩, hloop, hleft⟩ := deflateLoop_ends hD hstart
  have hends := hround ret s' hloop
  cases hleft with
  | error hpos hfed hended hcalls hfeeds herror =>
    left
    rw [afterChunk_error] at hends
    exact ⟨_, hends, h.failed hfed hended hcalls hfeeds herror output⟩
  | taken hdeflating hcalls hret hfinish =>
    have havail : ∀ flush, (s'.record (chunkAt data s.pos) flush).strm.availIn = 0 :=
      fun _ => hdeflating.availIn
    cases hlast : flushAt data s.pos with
    | finish =>
      left
      obtain ⟨rfl, hdelivered⟩ := hfinish hlast
      have hdone := h.succeeded hlast hdeflating hcalls hdelivered output
      rw [hlast] at hends hdone
      rw [afterChunk_done (havail .finish)] at hends
      exact ⟨_, hends, hdone⟩
    | noFlush =>
      right
      rw [hlast] at hdeflating hends
      rw [afterChunk_again hret (havail .noFlush)] at hends
      exact ⟨_, hends, h.next hlast hdeflating hcalls⟩

end Feeding

/-- Nothing was fed yet. -/
theorem feeding_start {state : σ} (hinit : D.deflateInit = some state) (data : Bytes) :
    Feeding D data
      ⟨0, .alloc chunkSize, .alloc chunkSize, ⟨0, 0, 0, state⟩, [], 0, [], []⟩ where
  pos_le := Nat.zero_le _
  inBuf := rfl
  out := rfl
  ended := rfl
  chunks := rfl
  taken := rfl
  passed := List.forall_mem_nil _
  stream := .start hinit
  ss := rfl
  noFlush := List.forall_mem_nil _

end Outer

/-! ### A library -/

namespace Zlib

/-- A library that keeps its input until the stream is finished, and then puts out a text. -/
def keeping (text : Bytes) : Zlib (Option Bytes) where
  deflateInit := some none
  deflate s flush input availOut :=
    match flush with
    | .noFlush => ⟨s, input.length, [], .ok, le_rfl, Nat.zero_le _⟩
    | .finish => {
        state := some ((s.getD text).drop availOut)
        consumed := input.length
        produced := (s.getD text).take availOut
        ret := if (s.getD text).length ≤ availOut then .streamEnd else .ok
        consumed_le := le_rfl
        produced_le := List.length_take_le _ _ }

section Keeping

variable {text : Bytes} {s : Option Bytes} {input : Bytes} {availOut : ℕ}

theorem keeping_delivered : (keeping text).Delivered (some []) := fun _ => List.take_nil

theorem keeping_streamEnd_iff :
    ((keeping text).deflate s .finish input availOut).ret = .streamEnd ↔
      (s.getD text).length ≤ availOut := by
  change (if _ then _ else _) = _ ↔ _
  split_ifs with hle
  · exact iff_of_true rfl hle
  · exact iff_of_false (by decide) hle

theorem keeping_no_error {flush : Flush} :
    ((keeping text).deflate s flush input availOut).ret ≠ .streamError := by
  cases flush with
  | noFlush =>
    intro h
    cases h
  | finish =>
    change (if _ then _ else _) ≠ _
    split_ifs <;> decide

/-- Where finishing puts out nothing, nothing is kept. -/
theorem keeping_of_delivered (h : (keeping text).Delivered s) : s.getD text = [] := by
  have htake : (s.getD text).take (s.getD text).length = [] := h (s.getD text).length
  rwa [List.take_length] at htake

/-- What was put out, and what is kept, is the text. -/
theorem keeping_stream {calls : List DeflateCall} (h : (keeping text).Stream calls s) :
    calls.flatMap DeflateCall.produced ++ s.getD text = text := by
  induction h with
  | start hinit =>
    obtain rfl := Option.some.inj hinit
    rfl
  | @next calls s flush input availOut _ _ _ _ ih =>
    rw [List.flatMap_append, List.flatMap_singleton, List.append_assoc]
    cases flush with
    | noFlush => exact ih
    | finish =>
      change _ ++ ((s.getD text).take availOut ++ (s.getD text).drop availOut) = text
      rw [List.take_append_drop, ih]

theorem keeping_contract (text : Bytes) : (keeping text).Contract where
  consumes {_ _ flush _ _} _ _ _ _ _ := by
    cases flush with
    | noFlush => rfl
    | finish => rfl
  ends {_ s flush _ availOut} _ _ _ hret := by
    cases flush with
    | noFlush => cases hret
    | finish =>
      refine ⟨rfl, ?_⟩
      change (keeping text).Delivered (some ((s.getD text).drop availOut))
      rw [List.drop_eq_nil_of_le (keeping_streamEnd_iff.mp hret)]
      exact keeping_delivered
  finishes {_ s _ availOut} _ _ _ _ hroom := by
    have htake : ((s.getD text).take availOut).length < availOut := hroom
    rw [List.length_take] at htake
    exact keeping_streamEnd_iff.mpr (by omega)
  bounded _ := ⟨text.length, fun {calls s} h _ => by
    conv_rhs => rw [← keeping_stream h, List.length_append]
    exact Nat.le_add_right _ _⟩

end Keeping

end Zlib

/-! ### Compression -/

namespace Zlib

variable {σ : Type} {D : Zlib σ}

theorem zlibCompress_of_none (hinit : D.deflateInit = none) (data output : Bytes) :
    Ends (D.zlibCompress data output) ⟨false, output, 0, []⟩ := by
  rw [zlibCompress, hinit]
  exact .pure _

theorem zlibCompress_of_some (hD : D.Contract) {state : σ} (hinit : D.deflateInit = some state)
    (data output : Bytes) :
    ∃ r, Ends (D.zlibCompress data output) r ∧ r.FeedsOnce D data output := by
  rw [zlibCompress, hinit]
  exact loop_ends (fun s => data.length - s.pos)
    (fun _ hs => Feeding.chunkRound_ends hD hs output) (feeding_start hinit data)

/-- **Compression.** `zlib_compress` comes to its end. If there is a stream, the input is fed to it
once and in order, and only its last chunk with `Z_FINISH`. What `deflate` has made of it is
returned, and the stream was ended once; after an error the output is as it was. -/
theorem zlibCompress_feeds_once (hD : D.Contract) (data output : Bytes) :
    ∃ r, Ends (D.zlibCompress data output) r ∧
      (D.deflateInit = none → r = ⟨false, output, 0, []⟩) ∧
      (D.deflateInit ≠ none → r.FeedsOnce D data output) := by
  cases hinit : D.deflateInit with
  | none =>
    exact ⟨_, zlibCompress_of_none hinit data output, fun _ => rfl, fun h => absurd rfl h⟩
  | some state =>
    obtain ⟨r, hends, hfed⟩ := zlibCompress_of_some hD hinit data output
    exact ⟨r, hends, fun h => absurd h (Option.some_ne_none state), fun _ => hfed⟩

/-- What is made of the letter `a`. -/
theorem zlibCompress_feeds_once_letter :
    let D := keeping [0x78, 0xDA, 0x4B, 0x04, 0x00, 0x00, 0x62, 0x00, 0x62]
    ∃ r, Ends (D.zlibCompress [97] []) r ∧ r.FeedsOnce D [97] [] := by
  intro D
  obtain ⟨r, hends, -, hfed⟩ := zlibCompress_feeds_once (keeping_contract _) [97] []
  exact ⟨r, hends, hfed (Option.some_ne_none _)⟩

/-! ### The function that is computed -/

/-- What is returned, with another `output`. -/
def withOutput (output : Bytes) (r : Compressed) : Compressed :=
  if r.ok then r else { r with output := output }

theorem afterChunk_output (s : Compressing σ) (output : Bytes) (flush : Flush) (ret : DeflateRet) :
    s.afterChunk output flush ret = Round.map (withOutput output) (s.afterChunk [] flush ret) := by
  simp only [Compressing.afterChunk]
  split_ifs <;> rfl

/-- `output` is only returned. -/
theorem zlibCompress_output (D : Zlib σ) (data output : Bytes) :
    D.zlibCompress data output = withOutput output <$> D.zlibCompress data [] := by
  have hround : ∀ s, D.chunkRound data output s =
      Round.map (withOutput output) <$> D.chunkRound data [] s := by
    intro s
    simp only [chunkRound, map_bind, map_pure, afterChunk_output _ output]
  simp only [zlibCompress]
  cases D.deflateInit with
  | none => rfl
  | some state => exact loop_map (withOutput output) hround _

/-- A text that is returned is what a complete stream has made of the input. -/
theorem zlibCompress_stream (hD : D.Contract) (data : Bytes) :
    ∃ r, Ends (D.zlibCompress data []) r ∧
      (r.ok = true → ∃ calls s, D.Stream calls s ∧ D.Delivered s ∧
        calls.flatMap DeflateCall.taken = data ∧
          calls.flatMap DeflateCall.produced = r.output) := by
  cases hinit : D.deflateInit with
  | none => exact ⟨_, zlibCompress_of_none hinit data [], fun hok => Bool.noConfusion hok⟩
  | some state =>
    obtain ⟨r, hends, hfed⟩ := zlibCompress_of_some hD hinit data []
    refine ⟨r, hends, fun hok => ?_⟩
    have hno : ∀ c ∈ r.calls, c.ret ≠ .streamError := by
      intro c hc hret
      have hfailed := (hfed.failed ⟨c, hc, hret⟩).ok
      rw [hok] at hfailed
      cases hfailed
    have hdone := hfed.succeeded hno
    obtain ⟨s, hstream, hdelivered⟩ := hdone.delivered
    exact ⟨r.calls, s, hstream, hdelivered, hdone.taken, hdone.output.symm⟩

variable (D) in
/-- `zlib_compress` returns what this function says: a text, or nothing. -/
def Computes (zlib : Bytes → Option Bytes) : Prop :=
  ∀ data output, ∃ r, Ends (D.zlibCompress data output) r ∧
    r.ok = (zlib data).isSome ∧ r.output = (zlib data).getD output

/-- `zlib_compress` computes a function of its input, whose texts are what complete streams make
of it. -/
theorem zlibCompress_computes (hD : D.Contract) :
    ∃ zlib : Bytes → Option Bytes, D.Computes zlib ∧
      ∀ data text, zlib data = some text → ∃ calls s, D.Stream calls s ∧ D.Delivered s ∧
        calls.flatMap DeflateCall.taken = data ∧ calls.flatMap DeflateCall.produced = text := by
  choose result hends hstream using zlibCompress_stream hD
  refine ⟨fun data => if (result data).ok then some (result data).output else none,
    fun data output => ⟨withOutput output (result data), ?_, ?_⟩, fun data text htext => ?_⟩
  · rw [zlibCompress_output]
    exact (hends data).map
  · cases hok : (result data).ok with
    | true => simp only [withOutput, hok, if_true, Option.isSome_some, Option.getD_some, and_self]
    | false => simp only [withOutput, hok, if_false, Option.isSome_none, Option.getD_none, and_self,
        Bool.false_eq_true]
  · obtain ⟨hok, rfl⟩ : (result data).ok = true ∧ (result data).output = text := by
      simpa only [Option.ite_none_right_eq_some, Option.some.injEq] using htext
    exact hstream data hok

/-- With the library that puts out a text, this is what is computed. -/
theorem keeping_computes (text : Bytes) : (keeping text).Computes fun _ => some text := by
  intro data output
  have hinit : (keeping text).deflateInit = some none := rfl
  obtain ⟨r, hends, hfed⟩ := zlibCompress_of_some (keeping_contract text) hinit data output
  have hreleased := zlibCompress_released (Option.some_ne_none none) hends.returns
  -- no call of this library is an error
  have hno : ∀ c ∈ r.calls, c.ret ≠ .streamError := by
    intro c hc
    obtain ⟨s, availOut, hcall⟩ := hreleased.calls c hc
    rw [hcall, call_ret]
    exact keeping_no_error
  have hdone := hfed.succeeded hno
  obtain ⟨s, hstream, hdelivered⟩ := hdone.delivered
  refine ⟨r, hends, hdone.ok, ?_⟩
  have htext := keeping_stream hstream
  rwa [keeping_of_delivered hdelivered, List.append_nil, ← hdone.output] at htext

end Zlib

end TestCluster.Common
