import TestCluster.Semantics.Machine
import TestCluster.Skynet.SocketBuffer

/-!
# Reading a socket

A coroutine reads a socket (`socket.lua`) by size, by line, up to its end, or what there is; where
the buffer does not have it, the coroutine waits. A message of the socket thread is put into the
buffer and wakes the coroutine if that has now what it waits for; it goes on before the next message
is handled. The end of the socket wakes it in any case. A size of zero is never there: a coroutine
that asks for it waits for a message, and gets false with all that is in the buffer.

A step is `none` where the source violates an assertion or the buffer is read outside its nodes.

## Main definitions

* `Request`, `ReadResult` — what a coroutine asks for, and what it gets
* `Socket.call`, `Socket.resume` — the functions up to the point where they wait, and behind it
* `Socket.data`, `Socket.closed` — the handlers of the messages
* `Reading.step` — a coroutine that reads, and its socket

## Main results

* `reads_exactly` — the bytes that came are read in order, once, in pieces that were asked for; a
  coroutine waits only for what is not there
-/

namespace TestCluster.Skynet

open Semantics

/-- What a coroutine calls: `socket.read` without and with a size, `socket.readline`,
`socket.readall` and `socket.block`. -/
inductive Request
  | some
  | size (sz : ℕ)
  | line (sep : Bytes)
  | all
  | block
deriving DecidableEq

/-- What the call returns: a string, false with a string (which is empty where `socket.readall` returns
false alone), nil, or whether the socket is connected. -/
inductive ReadResult
  | ok (ret : Bytes)
  | failed (rest : Bytes)
  | nothing
  | blocked (connected : Bool)
deriving DecidableEq

/-- `read_required`: a number, a string, or a boolean. -/
inductive ReadRequired
  | no
  | size (sz : ℕ)
  | line (sep : Bytes)
  | all
deriving DecidableEq

/-- The fields of a socket, with the request of the coroutine `co` that waits. -/
structure Socket where
  buffer : SocketBuffer
  connected : Bool
  readRequired : ReadRequired
  bufferLimit : Option ℕ
  co : Option Request

/-- What is taken out of the buffer: for a call, which leaves the socket like this, or because it is
over its limit. -/
inductive Taken
  | read (r : Request) (result : ReadResult) (s : Socket)
  | cleared (bytes : Bytes)

namespace Socket

/-- A socket after `connect`. -/
def opened (bufferLimit : Option ℕ) : Socket := ⟨.empty, true, .no, bufferLimit, none⟩

/-- `s.read_required = required`, `suspend(s)` -/
def await (s : Socket) (r : Request) (required : ReadRequired) :
    Option (Socket × Option ReadResult) :=
  if s.readRequired = .no ∧ s.co = none then
    some ({ s with readRequired := required, co := some r }, none)
  else none

/-- All bytes are returned, with false. -/
def failWith (s : Socket) : Socket × ReadResult :=
  let (ret, buffer) := lreadall s.buffer
  ({ s with buffer := buffer }, .failed ret)

/-- All bytes are returned, with false if there are none. -/
def takeSome (s : Socket) : Socket × ReadResult :=
  let (ret, buffer) := lreadall s.buffer
  ({ s with buffer := buffer }, if ret ≠ [] then .ok ret else .failed ret)

/-- A call, up to the point where the coroutine waits. -/
def call (s : Socket) : Request → Option (Socket × Option ReadResult)
  | .some =>
    let (s, result) := s.takeSome
    match result with
    | .ok ret => some (s, some (.ok ret))
    | result => if s.connected then s.await .some (.size 0) else some (s, some result)
  | .size sz =>
    (lpopbuffer s.buffer sz).bind fun (ret, buffer) =>
      let s := { s with buffer := buffer }
      match ret with
      | some ret => some (s, some (.ok ret))
      | none =>
        if s.connected then s.await (.size sz) (.size sz)
        else some (s.failWith.1, some s.failWith.2)
  | .line sep =>
    (lreadline s.buffer sep).bind fun (ret, buffer) =>
      let s := { s with buffer := buffer }
      match ret with
      | some ret => some (s, some (.ok ret))
      | none =>
        if s.connected then s.await (.line sep) (.line sep)
        else some (s.failWith.1, some s.failWith.2)
  | .all =>
    if s.connected then s.await .all .all else some (s.takeSome.1, some s.takeSome.2)
  | .block => if s.connected then s.await .block (.size 0) else some (s, some (.blocked false))

/-- What a call does when the coroutine goes on. -/
def resume (s : Socket) : Request → Option (Socket × ReadResult)
  | .some => some s.takeSome
  | .size sz =>
    (lpopbuffer s.buffer sz).map fun (ret, buffer) =>
      let s := { s with buffer := buffer }
      match ret with
      | some ret => (s, .ok ret)
      | none => s.failWith
  | .line sep =>
    if s.connected then
      (lreadline s.buffer sep).map fun (ret, buffer) =>
        let s := { s with buffer := buffer }
        match ret with
        | some ret => (s, .ok ret)
        | none => (s, .nothing)
    else some s.failWith
  | .all =>
    if s.connected then none
    else
      let (ret, buffer) := lreadall s.buffer
      some ({ s with buffer := buffer }, .ok ret)
  | .block => some (s, .blocked s.connected)

/-- `wakeup`, and the coroutine that goes on. -/
def wakeup (s : Socket) : Option (Socket × List Taken) :=
  match s.co with
  | none => some (s, [])
  | some r => ({ s with co := none }.resume r).map fun (s, result) => (s, [.read r result s])

/-- `SKYNET_SOCKET_TYPE_DATA` -/
def data (s : Socket) (msg : Bytes) : Option (Socket × List Taken) :=
  let s := { s with buffer := lpushbuffer s.buffer msg }
  match s.readRequired with
  | .size sz =>
    if sz ≤ s.buffer.size then { s with readRequired := .no }.wakeup else some (s, [])
  | required =>
    if s.bufferLimit.any (· < s.buffer.size) then
      some ({ s with buffer := lclearbuffer s.buffer }, [.cleared (lreadall s.buffer).1])
    else
      match required with
      | .line sep =>
        (s.buffer.find sep).bind fun found =>
          if found.isSome then { s with readRequired := .no }.wakeup else some (s, [])
      | _ => some (s, [])

/-- `SKYNET_SOCKET_TYPE_CLOSE` and, for a socket that was connected, `SKYNET_SOCKET_TYPE_ERROR`. -/
def closed (s : Socket) : Option (Socket × List Taken) := { s with connected := false }.wakeup

end Socket

/-- What happens: a message, or a call of the coroutine. -/
inductive SocketAction
  | data (msg : Bytes)
  | closed
  | call (r : Request)

/-- The separator of a line is not empty. -/
def Request.Proper (r : Request) : Prop := ∀ sep, r = .line sep → sep ≠ []

/-- Messages and separators are not empty. -/
def SocketAction.Proper : SocketAction → Prop
  | .data msg => msg ≠ []
  | .closed => True
  | .call r => r.Proper

/-- A socket, with what was taken out of its buffer. -/
structure SocketReader where
  socket : Socket
  log : List Taken

/-- One action. A coroutine that waits does not call. -/
def SocketReader.step (t : SocketReader) : SocketAction → Option SocketReader
  | .data msg => (t.socket.data msg).map fun (s, taken) => ⟨s, t.log ++ taken⟩
  | .closed => t.socket.closed.map fun (s, taken) => ⟨s, t.log ++ taken⟩
  | .call r =>
    if t.socket.co.isSome then some t
    else (t.socket.call r).map fun (s, result) =>
      ⟨s, t.log ++ result.toList.map (.read r · s)⟩

/-- The bytes that are gone from the buffer. -/
def Taken.bytes : Taken → Bytes
  | .read (.line sep) (.ok ret) _ => ret ++ sep
  | .read _ (.ok ret) _ => ret
  | .read _ (.failed rest) _ => rest
  | .read _ _ _ => []
  | .cleared bytes => bytes

/-- A call returned what it was asked for: some bytes, so many bytes, a line without a separator in
it, all up to the end of the socket, or whether the socket is connected and has bytes. It returned
false with all that was there, where that is not what it was asked for and the socket has ended; for
a size of zero it always returned false. -/
def Taken.Served : Taken → Prop
  | .read .some (.ok ret) s => ret ≠ [] ∧ s.buffer.contents = []
  | .read (.size sz) (.ok ret) _ => ret.length = sz ∧ sz ≠ 0
  | .read (.line sep) (.ok ret) _ => IsFirst sep (ret ++ sep) ret.length
  | .read .all (.ok _) s => s.buffer.contents = [] ∧ s.connected = false
  | .read .block (.blocked connected) s =>
    connected = s.connected ∧ (connected = true → s.buffer.contents ≠ [])
  | .read .some (.failed rest) s => rest = [] ∧ s.buffer.contents = [] ∧ s.connected = false
  | .read (.size sz) (.failed rest) s =>
    s.buffer.contents = [] ∧ (sz = 0 ∨ rest.length < sz ∧ s.connected = false)
  | .read (.line sep) (.failed rest) s =>
    (∀ k, ¬ sep <+: rest.drop k) ∧ s.buffer.contents = [] ∧ s.connected = false
  | .read .all (.failed rest) s => rest = [] ∧ s.buffer.contents = [] ∧ s.connected = false
  | .read _ _ _ => False
  | .cleared _ => True

/-- The buffer of a connected socket has what is asked for. -/
def Request.Ready (contents : Bytes) : Request → Prop
  | .some => contents ≠ []
  | .size sz => sz ≤ contents.length
  | .line sep => ∃ k, sep <+: contents.drop k
  | .all => False
  | .block => contents ≠ []

/-- The buffer does not have what is asked for, so that the coroutine has to wait. -/
def Request.Unserved (contents : Bytes) : Request → Prop
  | .some => contents = []
  | .size sz => contents.length < sz ∨ sz = 0
  | .line sep => ∀ k, ¬ sep <+: contents.drop k
  | .all => True
  | .block => True

/-- What `read_required` is while a coroutine waits. -/
def Request.required : Request → ReadRequired
  | .some => .size 0
  | .size sz => .size sz
  | .line sep => .line sep
  | .all => .all
  | .block => .size 0

/-- A coroutine waits for what is not there, with `read_required` set; while the socket is connected
this is not set otherwise. -/
structure Socket.Inv (s : Socket) : Prop where
  buffer : s.buffer.Ok
  idle : s.co = none → s.connected = true → s.readRequired = .no
  waits : ∀ r, s.co = some r → s.connected = true ∧ s.readRequired = r.required ∧
    r.Unserved s.buffer.contents ∧ r.Proper

/-- What was taken out of the buffer, and what is left. -/
structure Socket.Yields (s : Socket) (taken : List Taken) (s' : Socket) : Prop where
  bytes : s.buffer.contents = taken.flatMap Taken.bytes ++ s'.buffer.contents
  served : ∀ e ∈ taken, e.Served

theorem Request.required_ne_no (r : Request) : r.required ≠ .no := by
  cases r <;> exact nofun

theorem Request.proper_size (sz : ℕ) : (Request.size sz).Proper := by
  intro sep h
  cases h

theorem Taken.nil_ne_read (r : Request) (result : ReadResult) (s : Socket) :
    [] ≠ [Taken.read r result s] := by
  intro h
  cases h

theorem Taken.cleared_ne_read {bytes : Bytes} (r : Request) (result : ReadResult) (s : Socket) :
    [Taken.cleared bytes] ≠ [Taken.read r result s] := by
  intro h
  cases h

theorem Request.eq_all {r : Request} (h : r.required = .all) : r = .all := by
  cases r <;> cases h
  rfl

theorem Request.eq_line {r : Request} {sep : Bytes} (h : r.required = .line sep) :
    r = .line sep := by
  cases r <;> cases h
  rfl

/-- The bytes that came so far are those that were taken and those in the buffer, and every call got
what it asked for. -/
structure SocketInv (received : Bytes) (t : SocketReader) : Prop where
  socket : t.socket.Inv
  bytes : received = t.log.flatMap Taken.bytes ++ t.socket.buffer.contents
  served : ∀ e ∈ t.log, e.Served

/-- What was taken for a call, and what is left. -/
structure Socket.Gives (s : Socket) (r : Request) (s' : Socket) (result : ReadResult) : Prop where
  buffer : s'.buffer.Ok
  bytes : s.buffer.contents = (Taken.read r result s').bytes ++ s'.buffer.contents
  served : (Taken.read r result s').Served
  others : s' = { s with buffer := s'.buffer }

namespace Socket

variable {s : Socket} {r : Request}

theorem failWith_eq (h : s.buffer.Ok) :
    s.failWith = ({ s with buffer := .empty }, .failed s.buffer.contents) := by
  rw [failWith, lreadall_spec h]

theorem takeSome_eq (h : s.buffer.Ok) : s.takeSome = ({ s with buffer := .empty },
    if s.buffer.contents ≠ [] then .ok s.buffer.contents else .failed s.buffer.contents) := by
  rw [takeSome, lreadall_spec h]

/-- All that is left is returned with false. -/
theorem gives_failWith (h : s.buffer.Ok)
    (hserved : (Taken.read r (.failed s.buffer.contents) { s with buffer := .empty }).Served) :
    s.Gives r s.failWith.1 s.failWith.2 := by
  rw [failWith_eq h]
  refine ⟨SocketBuffer.ok_empty, ?_, hserved, rfl⟩
  cases r <;> exact (List.append_nil _).symm

/-- What is left is less than so many bytes, and the socket has ended; or no bytes were asked for. -/
theorem gives_failWith_size {sz : ℕ} (h : s.buffer.Ok)
    (hfew : s.buffer.contents.length < sz ∨ sz = 0) (hended : sz = 0 ∨ s.connected = false) :
    s.Gives (.size sz) s.failWith.1 s.failWith.2 := by
  apply gives_failWith h
  refine ⟨rfl, ?_⟩
  rcases hended with hzero | hconnected
  · exact .inl hzero
  · exact hfew.symm.imp_right fun hlt => ⟨hlt, hconnected⟩

/-- What is left has no separator in it, and the socket has ended. -/
theorem gives_failWith_line {sep : Bytes} (h : s.buffer.Ok)
    (hnot : ∀ k, ¬ sep <+: s.buffer.contents.drop k) (hended : s.connected = false) :
    s.Gives (.line sep) s.failWith.1 s.failWith.2 :=
  gives_failWith h ⟨hnot, rfl, hended⟩

/-- What there is is returned. -/
theorem gives_takeSome_some (h : s.buffer.Ok)
    (hready : s.buffer.contents = [] → s.connected = false) :
    s.Gives .some s.takeSome.1 s.takeSome.2 := by
  rw [takeSome_eq h]
  dsimp only
  split_ifs with hne
  · exact ⟨SocketBuffer.ok_empty, (List.append_nil _).symm, ⟨hne, rfl⟩, rfl⟩
  · have hnil : s.buffer.contents = [] := not_not.mp hne
    exact ⟨SocketBuffer.ok_empty, (List.append_nil _).symm, ⟨hnil, rfl, hready hnil⟩, rfl⟩

/-- What there is at the end of the socket is returned. -/
theorem gives_takeSome_all (h : s.buffer.Ok) (hended : s.connected = false) :
    s.Gives .all s.takeSome.1 s.takeSome.2 := by
  rw [takeSome_eq h]
  dsimp only
  split_ifs with hne
  · exact ⟨SocketBuffer.ok_empty, (List.append_nil _).symm, ⟨rfl, hended⟩, rfl⟩
  · exact ⟨SocketBuffer.ok_empty, (List.append_nil _).symm, ⟨not_not.mp hne, rfl, hended⟩, rfl⟩

/-- So many bytes are returned. -/
theorem gives_size {sz : ℕ} {buffer : SocketBuffer} (hok : buffer.Ok)
    (hcontents : buffer.contents = s.buffer.contents.drop sz) (hpos : 0 < sz)
    (hle : sz ≤ s.buffer.contents.length) :
    s.Gives (.size sz) { s with buffer := buffer } (.ok (s.buffer.contents.take sz)) := by
  refine ⟨hok, ?_, ⟨List.length_take_of_le hle, hpos.ne'⟩, rfl⟩
  show s.buffer.contents = s.buffer.contents.take sz ++ buffer.contents
  rw [hcontents, List.take_append_drop]

/-- A line is returned, without the separator. -/
theorem gives_line {sep line : Bytes} {buffer : SocketBuffer} (hok : buffer.Ok)
    (hcontents : s.buffer.contents = line ++ sep ++ buffer.contents)
    (hfirst : IsFirst sep s.buffer.contents line.length) :
    s.Gives (.line sep) { s with buffer := buffer } (.ok line) := by
  refine ⟨hok, hcontents, ?_, rfl⟩
  rw [hcontents] at hfirst
  apply hfirst.of_append
  rw [List.drop_left]

/-- A coroutine that goes on gets what it asked for, or that the socket has ended. -/
theorem gives_resume (h : s.buffer.Ok) (hr : r.Proper)
    (hready : s.connected = true → r.Ready s.buffer.contents)
    (hended : s.connected = false → r.Unserved s.buffer.contents) :
    ∃ s' result, s.resume r = some (s', result) ∧ s.Gives r s' result := by
  have hconnected : s.connected ≠ true → s.connected = false := Bool.eq_false_of_not_eq_true
  cases r with
  | some =>
    refine ⟨_, _, rfl, gives_takeSome_some h fun hnil => hconnected fun hc => ?_⟩
    exact hready hc hnil
  | size sz =>
    rcases lpopbuffer_spec h sz with ⟨hpop, hfew⟩ | ⟨buffer, hpop, hok, hcontents, hpos, hle⟩
    · refine ⟨_, _, by rw [resume, hpop]; rfl, gives_failWith_size h hfew ?_⟩
      -- less is there than was asked for, so the socket has ended, or nothing was asked for
      refine hfew.symm.imp_right fun hlt => hconnected fun hc => ?_
      exact absurd (hready hc) (Nat.not_le.mpr hlt)
    · exact ⟨_, _, by rw [resume, hpop]; rfl, gives_size hok hcontents hpos hle⟩
  | line sep =>
    cases hc : s.connected with
    | false => exact ⟨_, _, by rw [resume, hc]; rfl, gives_failWith_line h (hended hc) hc⟩
    | true =>
      obtain ⟨k, hk⟩ : ∃ k, sep <+: s.buffer.contents.drop k := hready hc
      rcases lreadline_spec h (hr sep rfl) with
        ⟨-, -, hnot⟩ | ⟨line, buffer, hread, hok, hcontents, hfirst, -⟩
      · -- the separator is there
        exact absurd hk (hnot k)
      · exact ⟨_, _, by rw [resume, if_pos hc, hread]; rfl, gives_line hok hcontents hfirst⟩
  | all =>
    by_cases hc : s.connected = true
    · exact (hready hc).elim
    · exact ⟨{ s with buffer := .empty }, .ok s.buffer.contents,
        by rw [resume, if_neg hc, lreadall_spec h],
        SocketBuffer.ok_empty, (List.append_nil _).symm, ⟨rfl, hconnected hc⟩, rfl⟩
  | block => exact ⟨s, _, rfl, h, rfl, ⟨rfl, hready⟩, rfl⟩

theorem Yields.nil {s' : Socket} (h : s.buffer.contents = s'.buffer.contents) :
    s.Yields [] s' := by
  refine ⟨h, fun e he => ?_⟩
  cases he

theorem Gives.yields {s' : Socket} {result : ReadResult} (h : s.Gives r s' result) :
    s.Yields [.read r result s'] s' := by
  refine ⟨?_, List.forall_mem_singleton.mpr h.served⟩
  rw [List.flatMap_singleton]
  exact h.bytes

/-- The coroutine that waits gets what it asked for, or that the socket has ended. -/
theorem wakeup_spec (h : s.buffer.Ok) (hidle : s.connected = true → s.readRequired = .no)
    (hproper : ∀ r, s.co = some r → r.Proper)
    (hready : s.connected = true → ∀ r, s.co = some r → r.Ready s.buffer.contents)
    (hended : s.connected = false → ∀ r, s.co = some r → r.Unserved s.buffer.contents) :
    ∃ s' taken, s.wakeup = some (s', taken) ∧ s'.Inv ∧ s.Yields taken s' ∧
      s'.connected = s.connected := by
  cases hco : s.co with
  | none =>
    refine ⟨s, [], by rw [wakeup, hco], ⟨h, fun _ => hidle, ?_⟩, .nil rfl, rfl⟩
    intro r hr
    cases hco.symm.trans hr
  | some r =>
    obtain ⟨s', result, hresume, hgives⟩ := gives_resume (s := { s with co := none }) h
      (hproper r hco) (fun hc => hready hc r hco) fun hc => hended hc r hco
    refine ⟨s', [.read r result s'], ?_, ?_, ⟨hgives.yields.bytes, hgives.yields.served⟩,
      by rw [hgives.others]⟩
    · rw [wakeup, hco]
      simp only [hresume, Option.map_some]
    · rw [hgives.others]
      refine ⟨hgives.buffer, fun _ => hidle, fun r' hr' => ?_⟩
      cases hr'

theorem await_eq {required : ReadRequired} (hidle : s.readRequired = .no) (hco : s.co = none) :
    s.await r required = some ({ s with readRequired := required, co := some r }, none) :=
  if_pos ⟨hidle, hco⟩

/-- A coroutine gets what it asks for if that is there or the socket has ended; else it waits. -/
theorem call_spec (h : s.buffer.Ok) (hr : r.Proper)
    (hidle : s.connected = true → s.readRequired = .no) (hco : s.co = none) :
    (∃ s' result, s.call r = some (s', some result) ∧ s.Gives r s' result) ∨
      (s.call r = some ({ s with readRequired := r.required, co := some r }, none) ∧
        s.connected = true ∧ r.Unserved s.buffer.contents) := by
  have hended : ¬ s.connected = true → s.connected = false := Bool.eq_false_of_not_eq_true
  cases r with
  | some =>
    by_cases hne : s.buffer.contents = []
    · have hresult : s.takeSome = (s, .failed s.buffer.contents) := by
        rw [takeSome_eq h, if_neg (not_not.mpr hne), ← h.eq_empty hne]
      by_cases hconnected : s.connected = true
      · refine .inr ⟨?_, hconnected, hne⟩
        simp only [call, hresult, if_pos hconnected]
        exact await_eq (hidle hconnected) hco
      · refine .inl ⟨_, _, ?_, gives_takeSome_some h fun _ => hended hconnected⟩
        simp only [call, hresult, if_neg hconnected]
    · refine .inl ⟨_, _, ?_, gives_takeSome_some h fun hnil => absurd hnil hne⟩
      simp only [call, takeSome_eq h, if_pos hne]
  -- `lpopbuffer` has returned nothing: a connected socket waits, another one gives up
  | size sz =>
    rcases lpopbuffer_spec h sz with ⟨hpop, hfew⟩ | ⟨buffer, hpop, hok, hcontents, hpos, hle⟩
    · by_cases hconnected : s.connected = true
      · refine .inr ⟨?_, hconnected, hfew⟩
        rw [call, hpop, Option.bind_some]
        dsimp only
        rw [if_pos hconnected]
        exact await_eq (hidle hconnected) hco
      · refine .inl ⟨_, _, ?_, gives_failWith_size h hfew (.inr (hended hconnected))⟩
        rw [call, hpop, Option.bind_some]
        exact if_neg hconnected
    · exact .inl ⟨_, _, by rw [call, hpop]; rfl, gives_size hok hcontents hpos hle⟩
  | line sep =>
    rcases lreadline_spec h (hr sep rfl) with
      ⟨hread, -, hnot⟩ | ⟨line, buffer, hread, hok, hcontents, hfirst, -⟩
    · by_cases hconnected : s.connected = true
      · refine .inr ⟨?_, hconnected, hnot⟩
        rw [call, hread, Option.bind_some]
        dsimp only
        rw [if_pos hconnected]
        exact await_eq (hidle hconnected) hco
      · refine .inl ⟨_, _, ?_, gives_failWith_line h hnot (hended hconnected)⟩
        rw [call, hread, Option.bind_some]
        exact if_neg hconnected
    · exact .inl ⟨_, _, by rw [call, hread]; rfl, gives_line hok hcontents hfirst⟩
  | all =>
    by_cases hconnected : s.connected = true
    · refine .inr ⟨?_, hconnected, trivial⟩
      rw [call, if_pos hconnected]
      exact await_eq (hidle hconnected) hco
    · exact .inl ⟨_, _, if_neg hconnected, gives_takeSome_all h (hended hconnected)⟩
  | block =>
    by_cases hconnected : s.connected = true
    · refine .inr ⟨?_, hconnected, trivial⟩
      rw [call, if_pos hconnected]
      exact await_eq (hidle hconnected) hco
    · refine .inl ⟨s, _, if_neg hconnected, h, rfl, ⟨(hended hconnected).symm, fun hc => ?_⟩, rfl⟩
      cases hc

/-- The buffer changes, and a coroutine that waits has to go on waiting. -/
theorem Inv.change (h : s.Inv) {buffer : SocketBuffer} (hok : buffer.Ok)
    (hco : ∀ r, s.co = some r → r.Unserved buffer.contents) : { s with buffer := buffer }.Inv := by
  refine ⟨hok, h.idle, fun r hr => ?_⟩
  obtain ⟨hconnected, hrequired, -, hproper⟩ := h.waits r hr
  exact ⟨hconnected, hrequired, hco r hr, hproper⟩

/-- All bytes are cleared. -/
theorem yields_cleared :
    s.Yields [.cleared s.buffer.contents] { s with buffer := .empty } := by
  refine ⟨?_, List.forall_mem_singleton.mpr trivial⟩
  rw [List.flatMap_singleton]
  exact (List.append_nil _).symm

theorem inv_call (h : s.Inv) (hr : r.Proper) (hco : s.co = none) :
    ∃ s' result, s.call r = some (s', result) ∧ s'.Inv ∧
      s.Yields (result.toList.map (.read r · s')) s' ∧ s'.connected = s.connected := by
  rcases call_spec h.buffer hr (h.idle hco) hco with
    ⟨s', result, hcall, hgives⟩ | ⟨hcall, hconnected, hunserved⟩
  · refine ⟨s', some result, hcall, ?_, hgives.yields, by rw [hgives.others]⟩
    rw [hgives.others]
    exact ⟨hgives.buffer, h.idle, fun r hr => absurd (hco.symm.trans hr) nofun⟩
  · refine ⟨_, none, hcall, ⟨h.buffer, nofun, fun r' hr' => ?_⟩, .nil rfl, rfl⟩
    obtain rfl := Option.some.inj hr'
    exact ⟨hconnected, rfl, hunserved, hr⟩

theorem inv_closed (h : s.Inv) :
    ∃ s' taken, s.closed = some (s', taken) ∧ s'.Inv ∧
      { s with connected := false }.Yields taken s' ∧ s'.connected = false :=
  wakeup_spec (s := { s with connected := false }) h.buffer nofun
    (fun r hr => (h.waits r hr).2.2.2) nofun fun _ r hr => (h.waits r hr).2.2.1

/-- A message, while a number of bytes is waited for. -/
theorem data_of_size {sz : ℕ} (msg : Bytes) (h : s.readRequired = .size sz) :
    s.data msg =
      if sz ≤ (lpushbuffer s.buffer msg).size then
        { s with buffer := lpushbuffer s.buffer msg, readRequired := .no }.wakeup
      else some ({ s with buffer := lpushbuffer s.buffer msg }, []) := by
  obtain ⟨buffer, connected, required, limit, co⟩ := s
  obtain rfl : required = .size sz := h
  rfl

/-- A message, while nobody waits or all bytes are waited for. -/
theorem data_of_other (msg : Bytes) (h : s.readRequired = .no ∨ s.readRequired = .all) :
    s.data msg =
      if s.bufferLimit.any (· < (lpushbuffer s.buffer msg).size) then
        some ({ s with buffer := lclearbuffer (lpushbuffer s.buffer msg) },
          [.cleared (lreadall (lpushbuffer s.buffer msg)).1])
      else some ({ s with buffer := lpushbuffer s.buffer msg }, []) := by
  obtain ⟨buffer, connected, required, limit, co⟩ := s
  rcases h with h | h <;>
  · obtain rfl := h
    rfl

/-- A message, while a line is waited for. -/
theorem data_of_line {sep : Bytes} (msg : Bytes) (h : s.readRequired = .line sep) :
    s.data msg =
      if s.bufferLimit.any (· < (lpushbuffer s.buffer msg).size) then
        some ({ s with buffer := lclearbuffer (lpushbuffer s.buffer msg) },
          [.cleared (lreadall (lpushbuffer s.buffer msg)).1])
      else ((lpushbuffer s.buffer msg).find sep).bind fun found =>
        if found.isSome then
          { s with buffer := lpushbuffer s.buffer msg, readRequired := .no }.wakeup
        else some ({ s with buffer := lpushbuffer s.buffer msg }, []) := by
  obtain ⟨buffer, connected, required, limit, co⟩ := s
  obtain rfl : required = .line sep := h
  rfl

/-- What becomes of a message with which the buffer is this: the coroutine is woken if what it waits
for is there; else it waits on, or the buffer is over its limit. -/
inductive Handled (s : Socket) (msg : Bytes) (buffer : SocketBuffer) : Prop
  | woken (hdata : s.data msg = { s with buffer := buffer, readRequired := .no }.wakeup)
      (hready : ∀ r, s.co = some r → r.Ready buffer.contents)
  | kept (hdata : s.data msg = some ({ s with buffer := buffer }, []))
      (hwaits : ∀ r, s.co = some r → r.Unserved buffer.contents)
  | cleared (hdata : s.data msg = some ({ s with buffer := .empty }, [.cleared buffer.contents]))
      (hwaits : ∀ r, s.co = some r → r.Unserved [])

theorem Inv.required (h : s.Inv) (hr : s.co = some r) : r.required = s.readRequired :=
  (h.waits r hr).2.1.symm

/-- With a message there is something in the buffer. -/
theorem contents_push_ne_nil {msg : Bytes} (h : s.buffer.Ok) (hmsg : msg ≠ []) :
    (lpushbuffer s.buffer msg).contents ≠ [] := by
  rw [contents_lpushbuffer h]
  exact List.append_ne_nil_of_right_ne_nil _ hmsg

/-- A coroutine waits for a number of bytes, for some bytes or for the socket. -/
theorem handled_of_size {sz : ℕ} {msg : Bytes} (h : s.Inv) (hmsg : msg ≠ [])
    (hreq : s.readRequired = .size sz) : s.Handled msg (lpushbuffer s.buffer msg) := by
  have hsize := (h.buffer.push hmsg).size
  have hdata := data_of_size msg hreq
  split_ifs at hdata with hle
  · refine .woken hdata fun r hr => ?_
    have hsz := (h.required hr).trans hreq
    cases r with
    | some => exact contents_push_ne_nil h.buffer hmsg
    | size sz' =>
      obtain rfl := ReadRequired.size.inj hsz
      exact hle.trans hsize.le
    | block => exact contents_push_ne_nil h.buffer hmsg
    | _ => cases hsz
  · refine .kept hdata fun r hr => ?_
    have hsz := (h.required hr).trans hreq
    cases r with
    | some =>
      obtain rfl := ReadRequired.size.inj hsz
      exact absurd (Nat.zero_le _) hle
    | size sz' =>
      obtain rfl := ReadRequired.size.inj hsz
      exact .inl (hsize ▸ Nat.lt_of_not_le hle)
    | block => trivial
    | _ => cases hsz

/-- Nobody waits, or a coroutine for all bytes: it is not woken. -/
theorem handled_of_other {msg : Bytes} (h : s.Inv) (hmsg : msg ≠ [])
    (hreq : s.readRequired = .no ∨ s.readRequired = .all) :
    s.Handled msg (lpushbuffer s.buffer msg) := by
  have hall : ∀ r, s.co = some r → r = .all := by
    intro r hr
    rcases hreq with hreq | hreq
    · exact absurd ((h.required hr).trans hreq) r.required_ne_no
    · exact Request.eq_all ((h.required hr).trans hreq)
  have hdata := data_of_other msg hreq
  split_ifs at hdata
  · rw [lclearbuffer, lreadall_spec (h.buffer.push hmsg)] at hdata
    exact .cleared hdata fun r hr => hall r hr ▸ trivial
  · exact .kept hdata fun r hr => hall r hr ▸ trivial

/-- A coroutine waits for a line. -/
theorem handled_of_line {sep msg : Bytes} (h : s.Inv) (hmsg : msg ≠ [])
    (hreq : s.readRequired = .line sep) : s.Handled msg (lpushbuffer s.buffer msg) := by
  have hok := h.buffer.push hmsg
  have hline : ∀ r, s.co = some r → r = .line sep :=
    fun r hr => Request.eq_line ((h.required hr).trans hreq)
  have hdata := data_of_line msg hreq
  split_ifs at hdata
  · rw [lclearbuffer, lreadall_spec hok] at hdata
    refine .cleared hdata fun r hr => ?_
    obtain rfl := hline r hr
    intro k hk
    -- an empty buffer has no separator in it
    rw [List.drop_nil, List.prefix_nil] at hk
    exact (h.waits _ hr).2.2.2 sep rfl hk
  · rcases find_spec hok sep with ⟨hfind, hnot⟩ | ⟨k, hfind, hfirst, -⟩
    · refine .kept (by rw [hdata, hfind]; rfl) fun r hr => ?_
      obtain rfl := hline r hr
      refine hnot.resolve_left fun hnil => contents_push_ne_nil h.buffer hmsg ?_
      rw [SocketBuffer.contents, hnil, List.flatten_nil, List.drop_nil]
    · refine .woken (by rw [hdata, hfind]; rfl) fun r hr => ?_
      obtain rfl := hline r hr
      exact ⟨k, hfirst.1⟩

theorem handled_data {msg : Bytes} (h : s.Inv) (hmsg : msg ≠ []) :
    s.Handled msg (lpushbuffer s.buffer msg) := by
  cases hreq : s.readRequired with
  | size sz => exact handled_of_size h hmsg hreq
  | no => exact handled_of_other h hmsg (.inl hreq)
  | all => exact handled_of_other h hmsg (.inr hreq)
  | line sep => exact handled_of_line h hmsg hreq

/-- A message is put into the buffer, and a coroutine that waits gets what it asked for if that is
there now. -/
theorem inv_data {msg : Bytes} (h : s.Inv) (hmsg : msg ≠ []) :
    ∃ s' taken, s.data msg = some (s', taken) ∧ s'.Inv ∧
      { s with buffer := lpushbuffer s.buffer msg }.Yields taken s' ∧
        s'.connected = s.connected := by
  have hok := h.buffer.push hmsg
  rcases handled_data h hmsg with ⟨hdata, hready⟩ | ⟨hdata, hwaits⟩ | ⟨hdata, hwaits⟩
  · have hnot : ∀ r, s.co = some r → s.connected ≠ false := by
      intro r hr hc
      cases (h.waits r hr).1.symm.trans hc
    obtain ⟨s', taken, hwakeup, hinv, hyields, hconnected⟩ := wakeup_spec
      (s := { s with buffer := lpushbuffer s.buffer msg, readRequired := .no }) hok (fun _ => rfl)
      (fun r hr => (h.waits r hr).2.2.2) (fun _ => hready) fun hc r hr => absurd hc (hnot r hr)
    exact ⟨s', taken, hdata.trans hwakeup, hinv, ⟨hyields.bytes, hyields.served⟩, hconnected⟩
  · exact ⟨_, _, hdata, h.change hok hwaits, .nil rfl, rfl⟩
  · exact ⟨_, _, hdata, h.change SocketBuffer.ok_empty hwaits,
      yields_cleared (s := { s with buffer := lpushbuffer s.buffer msg }), rfl⟩

end Socket

/-- The bytes of a message. -/
def SocketAction.bytes : SocketAction → Bytes
  | .data msg => msg
  | _ => []

namespace SocketInv

variable {received : Bytes} {t : SocketReader}

theorem opened (bufferLimit : Option ℕ) : SocketInv [] ⟨.opened bufferLimit, []⟩ := by
  refine ⟨⟨SocketBuffer.ok_empty, fun _ _ => rfl, fun r hr => ?_⟩, rfl, fun e he => ?_⟩
  · cases hr
  · cases he

/-- What is taken goes to the log. -/
theorem take (h : SocketInv received t) {s s' : Socket} {taken : List Taken} {more : Bytes}
    (hs : s.buffer.contents = t.socket.buffer.contents ++ more) (hinv : s'.Inv)
    (hyields : s.Yields taken s') : SocketInv (received ++ more) ⟨s', t.log ++ taken⟩ := by
  refine ⟨hinv, ?_, fun e he => ?_⟩
  · rw [h.bytes, List.append_assoc, ← hs, hyields.bytes, List.flatMap_append, List.append_assoc]
  · rcases List.mem_append.mp he with he | he
    · exact h.served e he
    · exact hyields.served e he

/-- One action violates no assertion and keeps the invariant. -/
theorem step (h : SocketInv received t) {a : SocketAction} (ha : a.Proper) :
    ∃ t', t.step a = some t' ∧ SocketInv (received ++ a.bytes) t' := by
  cases a with
  | data msg =>
    obtain ⟨s', taken, hdata, hinv, hyields, -⟩ := Socket.inv_data h.socket ha
    refine ⟨⟨s', t.log ++ taken⟩, by rw [SocketReader.step, hdata]; rfl, ?_⟩
    exact h.take (contents_lpushbuffer h.socket.buffer) hinv hyields
  | closed =>
    obtain ⟨s', taken, hclosed, hinv, hyields, -⟩ := Socket.inv_closed h.socket
    refine ⟨⟨s', t.log ++ taken⟩, by rw [SocketReader.step, hclosed]; rfl, ?_⟩
    exact h.take (s := { t.socket with connected := false }) (List.append_nil _).symm hinv hyields
  | call r =>
    rw [SocketReader.step]
    show ∃ t', _ ∧ SocketInv (received ++ []) t'
    split_ifs with hco
    · exact ⟨t, rfl, by rwa [List.append_nil]⟩
    · rw [Option.not_isSome_iff_eq_none] at hco
      obtain ⟨s', result, hcall, hinv, hyields, -⟩ := Socket.inv_call h.socket (r := r) ha hco
      refine ⟨_, by rw [hcall]; rfl, ?_⟩
      exact h.take (List.append_nil _).symm hinv hyields

/-- A whole run. -/
theorem run {as : List SocketAction} (h : SocketInv received t) (has : ∀ a ∈ as, a.Proper) :
    ∃ t', Semantics.run SocketReader.step t as = some t' ∧
      SocketInv (received ++ as.flatMap SocketAction.bytes) t' := by
  induction as generalizing received t with
  | nil =>
    rw [List.flatMap_nil, List.append_nil]
    exact ⟨t, rfl, h⟩
  | cons a as ih =>
    obtain ⟨t₁, hstep, h₁⟩ := h.step (has a List.mem_cons_self)
    obtain ⟨t', hrun, h'⟩ := ih h₁ fun b hb => has b (List.mem_cons_of_mem _ hb)
    refine ⟨t', by rw [run_cons, hstep]; exact hrun, ?_⟩
    rwa [List.flatMap_cons, ← List.append_assoc]

end SocketInv

end TestCluster.Skynet
