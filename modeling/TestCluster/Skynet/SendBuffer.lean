import TestCluster.Semantics.ByteOrder
import TestCluster.Semantics.Interleaving
import TestCluster.Semantics.Machine

/-!
# Writing a socket

The socket thread (`socket_server.c`) writes to a TCP socket what services send, with a high or a
low priority. What the kernel does not take at once waits in two lists; the low one is written when
the high one is empty. A buffer of which a part is written must be finished before any other, so it
is moved to the high list.

A step is `none` where the source violates an assertion.

## Main definitions

* `WriteBuffer`, `SendSocket` — what waits for the kernel, and a socket
* `sendBuffer`, `sendSocket`, `closeSocket` — the functions that write
* `SendSocket.step` — what the thread does for a request or an event
* `SendInv` — what is written is a beginning of what was sent, but for the priorities

## Main results

* `SendInv.step` — no step violates an assertion, and each keeps the invariant
* `sent_in_order` — packages are written whole, once, and in their order within a priority; as long
  as something waits, the thread is told when the kernel takes more
-/

namespace TestCluster.Skynet

open Semantics

/-- `PRIORITY_HIGH` and `PRIORITY_LOW`. -/
inductive Priority
  | high
  | low
deriving DecidableEq

/-- A package that waits, how much of it is written, and with which priority it was sent. -/
structure WriteBuffer where
  priority : Priority
  buffer : Bytes
  ptr : ℕ

namespace WriteBuffer

/-- The `sz` bytes from `ptr` on. -/
def rest (b : WriteBuffer) : Bytes := b.buffer.drop b.ptr

/-- The bytes before `ptr`. -/
def part (b : WriteBuffer) : Bytes := b.buffer.take b.ptr

/-- The package, with its priority. -/
def package (b : WriteBuffer) : Priority × Bytes := (b.priority, b.buffer)

end WriteBuffer

/-- `s->type` of a TCP socket that is not listening: accepted and not started, connecting,
connected, closed by its service with data to send, closed. -/
inductive SocketType
  | paccept
  | connecting
  | connected
  | halfclose
  | invalid
deriving DecidableEq

/-- What `write` answers: `EINTR`, `EAGAIN`, another error, or how many bytes it took. -/
inductive WriteAnswer
  | intr
  | again
  | failed
  | wrote (n : ℕ)
deriving DecidableEq

/-- What `read` answers: `EINTR` or `EAGAIN`, another error, no bytes, or some. -/
inductive ReadAnswer
  | again
  | failed
  | eof
  | data
deriving DecidableEq

/-- What the thread tells the service of the socket. -/
inductive SocketResult
  | opened
  | closed
  | error
  | data
deriving DecidableEq

/-- A socket: its fields, whether it waits until it can be written, and the messages to its service;
and what was sent to it while it took packages, which packages were written whole, and the bytes
that the kernel took. -/
structure SendSocket where
  type : SocketType
  high : List WriteBuffer := []
  low : List WriteBuffer := []
  wbSize : ℤ := 0
  writeEvent : Bool
  log : List SocketResult := []
  requests : List (Priority × Bytes) := []
  written : List (Priority × Bytes) := []
  wire : Bytes := []

namespace SendSocket

/-- `connect` waits for the other side, so the socket waits until it can be written. -/
def connecting : SendSocket := { type := .connecting, writeEvent := true }

/-- The other side was connected to at once. -/
def connected : SendSocket := { type := .connected, writeEvent := false }

/-- A client was accepted. -/
def accepted : SendSocket := { type := .paccept, writeEvent := false }

/-- One of the two lists. -/
def list (s : SendSocket) : Priority → List WriteBuffer
  | .high => s.high
  | .low => s.low

/-- One of the two lists is another. -/
def setList (s : SendSocket) : Priority → List WriteBuffer → SendSocket
  | .high, l => { s with high := l }
  | .low, l => { s with low := l }

/-- `force_close`: what waits is freed, and the socket is out of the poll. -/
def forceClose (s : SendSocket) : SendSocket :=
  if s.type = .invalid then s
  else { s with type := .invalid, high := [], low := [], writeEvent := false }

/-- `send_list_tcp`: writes the buffers of a list, with the answers of the kernel; where there is no
answer the kernel takes nothing. What is left of the answers is for the next list. -/
def sendListTcp (p : Priority) :
    List WriteAnswer → SendSocket → List WriteAnswer × SendSocket × Option SocketResult
  | [], s => ([], s, none)
  | w :: ws, s =>
    match s.list p with
    | [] => (w :: ws, s, none)
    | tmp :: rest =>
      match w with
      | .intr => sendListTcp p ws s
      | .again => (ws, s, none)
      | .failed => (ws, s.forceClose, some .closed)
      | .wrote n =>
        let sz := min n tmp.rest.length
        let s := { s with wbSize := s.wbSize - sz, wire := s.wire ++ tmp.rest.take sz }
        if sz ≠ tmp.rest.length then
          (ws, s.setList p ({ tmp with ptr := tmp.ptr + sz } :: rest), none)
        else
          sendListTcp p ws
            (SendSocket.setList { s with written := s.written ++ [tmp.package] } p rest)

/-- `list_uncomplete`: a part of the first buffer is written. -/
def listUncomplete : List WriteBuffer → Bool
  | [] => false
  | wb :: _ => wb.ptr ≠ 0

/-- `raise_uncomplete`: the head of the low list is moved to the empty high list. -/
def raiseUncomplete (s : SendSocket) : Option SendSocket :=
  match s.low with
  | [] => none
  | tmp :: low => if s.high = [] then some { s with high := [tmp], low := low } else none

/-- `send_buffer`: writes the high list, then the low one; a socket with nothing to send does not
wait any longer, and is closed if its service closed it. -/
def sendBuffer (s : SendSocket) (ws : List WriteAnswer) :
    Option (SendSocket × Option SocketResult) :=
  if listUncomplete s.low then none
  else
    let (ws, s, closed) := sendListTcp .high ws s
    if closed.isSome then some (s, closed)
    else if s.high = [] then
      if s.low ≠ [] then
        let (_, s, closed) := sendListTcp .low ws s
        if closed.isSome then some (s, closed)
        else if listUncomplete s.low then s.raiseUncomplete.map (·, none)
        else some (s, none)
      else
        let s := { s with writeEvent := false }
        if s.type = .halfclose then some (s.forceClose, some .closed) else some (s, none)
    else some (s, none)

/-- `append_sendbuffer` and `append_sendbuffer_low`: the rest of a package waits in a list. -/
def append (s : SendSocket) (l p : Priority) (buffer : Bytes) (n : ℕ) : SendSocket :=
  let buf : WriteBuffer := ⟨p, buffer, n⟩
  { s.setList l (s.list l ++ [buf]) with wbSize := s.wbSize + buf.rest.length }

/-- `send_buffer_empty` -/
def bufferEmpty (s : SendSocket) : Prop := s.high = [] ∧ s.low = []

instance (s : SendSocket) : Decidable s.bufferEmpty := inferInstanceAs (Decidable (_ ∧ _))

/-- The write of a package where nothing waits; what is left of it waits in the high list, whatever
its priority is. -/
def writeDirect (s : SendSocket) (p : Priority) (buffer : Bytes) (w : WriteAnswer) :
    SendSocket × Option SocketResult :=
  let direct (n : ℕ) : SendSocket × Option SocketResult :=
    let s := { s with wire := s.wire ++ buffer.take n }
    if n = buffer.length then ({ s with written := s.written ++ [(p, buffer)] }, none)
    else ({ s.append .high p buffer n with writeEvent := true }, none)
  match w with
  | .intr | .again => direct 0
  | .failed => (s.forceClose, some .closed)
  | .wrote n => direct (min n buffer.length)

/-- `send_socket`: a package is written at once if nothing waits, and otherwise waits in the list of
its priority. -/
def sendSocket (s : SendSocket) (p : Priority) (buffer : Bytes) (w : WriteAnswer) :
    SendSocket × Option SocketResult :=
  if s.type = .invalid ∨ s.type = .halfclose ∨ s.type = .paccept then (s, none)
  else
    let s := { s with requests := s.requests ++ [(p, buffer)] }
    if s.bufferEmpty ∧ s.type = .connected then s.writeDirect p buffer w
    else (s.append p p buffer 0, none)

/-- `close_socket`: the socket is closed when nothing waits, or at once if its service wants that. -/
def closeSocket (s : SendSocket) (shutdown : Bool) (ws : List WriteAnswer) :
    Option (SendSocket × Option SocketResult) :=
  if s.type = .invalid then some (s, some .closed)
  else
    (if s.bufferEmpty then some (s, none) else s.sendBuffer ws).map fun (s, type) =>
      if type.isSome then (s, type)
      else if shutdown ∨ s.bufferEmpty then (s.forceClose, some .closed)
      else ({ s with type := .halfclose }, none)

/-- `start_socket`: an accepted client is put into the poll, if it can be. -/
def startSocket (s : SendSocket) (added : Bool) : SendSocket × Option SocketResult :=
  match s.type with
  | .invalid => (s, some .error)
  | .paccept =>
    if added then ({ s with type := .connected, writeEvent := false }, some .opened)
    else (s.forceClose, some .error)
  | .connected => (s, some .opened)
  | .connecting | .halfclose => (s, none)

/-- `report_connect` -/
def reportConnect (s : SendSocket) (error : Bool) : SendSocket × Option SocketResult :=
  if error then (s.forceClose, some .error)
  else
    ({ s with type := .connected, writeEvent := if s.bufferEmpty then false else s.writeEvent },
      some .opened)

/-- `forward_message_tcp` -/
def forwardMessage (s : SendSocket) : ReadAnswer → SendSocket × Option SocketResult
  | .again => (s, none)
  | .failed => (s.forceClose, some .error)
  | .eof => (s.forceClose, some .closed)
  | .data => (s, if s.type = .halfclose then none else some .data)

/-- A request of a service, with what the kernel answers while it is handled, or an event of the
poll, which is one of three by the type of the socket. -/
inductive Event
  | start (added : Bool)
  | send (p : Priority) (buffer : Bytes) (w : WriteAnswer)
  | close (shutdown : Bool) (ws : List WriteAnswer)
  | connect (error : Bool)
  | readable (r : ReadAnswer)
  | writable (ws : List WriteAnswer)

/-- `ctrl_cmd` and the body of `socket_server_poll`, without the log. -/
def handle (s : SendSocket) : Event → Option (SendSocket × Option SocketResult)
  | .start added => some (s.startSocket added)
  | .send p buffer w => some (s.sendSocket p buffer w)
  | .close shutdown ws => s.closeSocket shutdown ws
  | .connect error =>
    if s.type = .connecting then some (s.reportConnect error) else some (s, none)
  | .readable r =>
    if s.type = .connected ∨ s.type = .halfclose then some (s.forwardMessage r) else some (s, none)
  | .writable ws =>
    if s.type = .connected ∨ s.type = .halfclose then s.sendBuffer ws else some (s, none)

/-- The message is told to the service. -/
def step (s : SendSocket) (e : Event) : Option SendSocket :=
  (s.handle e).map fun (s, type) => { s with log := s.log ++ type.toList }

/-- A package is accepted before the socket is closed, and after it is started. -/
def accept (s : SendSocket) : Event → SendSocket
  | .send p buffer _ =>
    if s.type = .invalid ∨ s.type = .halfclose ∨ s.type = .paccept then s
    else { s with requests := s.requests ++ [(p, buffer)] }
  | _ => s

/-- What waits, in the order in which it is written if nothing else is sent. -/
def pending (s : SendSocket) : List WriteBuffer := s.high ++ s.low

end SendSocket

section Writing

variable {s s' : SendSocket} {left : List WriteBuffer} {p : Priority} {m : Option SocketResult}

/-- The part of the first buffer that is written. -/
def firstPart : List WriteBuffer → Bytes
  | [] => []
  | b :: _ => b.part

/-- What was sent is written, or is `left`, of which a part of the first buffer is written; a closed
socket has lost what is left. -/
structure Sending (s : SendSocket) (left : List WriteBuffer) : Prop where
  order : Interleaves (s.written ++ left.map WriteBuffer.package) fun p => proj p s.requests
  wire : s.wire = (s.written.map Prod.snd).flatten ++ firstPart left
  tail : ∀ b ∈ left.tail, b.ptr = 0
  lanes : ∀ b ∈ s.low, b.priority = .low
  live : s.type ≠ .invalid → left = s.pending
  size : s.type ≠ .invalid → s.wbSize = (left.flatMap WriteBuffer.rest).length
  dead : s.type = .invalid → s.pending = []

/-- The message tells that the socket is closed. -/
def SocketResult.Ends (m : SocketResult) : Prop := m = .closed ∨ m = .error

/-- The types a socket can go through, in their order. -/
def SocketType.phase : SocketType → ℕ
  | .paccept => 0
  | .connecting => 1
  | .connected => 2
  | .halfclose => 3
  | .invalid => 4

theorem SocketType.phase_le (t : SocketType) : t.phase ≤ 4 := by
  cases t <;> decide

/-- What every function does with the messages: it tells of the end of the socket, if it ends. The
socket is never again in a type that it has left. -/
structure Tells (s s' : SendSocket) (m : Option SocketResult) : Prop where
  log : s'.log = s.log
  requests : s'.requests = s.requests
  phase : s.type.phase ≤ s'.type.phase
  ends : s'.type = .invalid ↔ s.type = .invalid ∨ ∃ e ∈ m, e.Ends

/-- What is written after the list `p`. -/
def SendSocket.after (s : SendSocket) : Priority → List WriteBuffer
  | .high => s.low
  | .low => []

@[simp] theorem SendSocket.list_setList (l : List WriteBuffer) : (s.setList p l).list p = l := by
  cases p <;> rfl

@[simp] theorem SendSocket.after_setList (l : List WriteBuffer) :
    (s.setList p l).after p = s.after p := by
  cases p <;> rfl

@[simp] theorem SendSocket.type_setList (l : List WriteBuffer) :
    (s.setList p l).type = s.type := by
  cases p <;> rfl

@[simp] theorem SendSocket.wbSize_setList (l : List WriteBuffer) :
    (s.setList p l).wbSize = s.wbSize := by
  cases p <;> rfl

@[simp] theorem SendSocket.writeEvent_setList (l : List WriteBuffer) :
    (s.setList p l).writeEvent = s.writeEvent := by
  cases p <;> rfl

@[simp] theorem SendSocket.log_setList (l : List WriteBuffer) : (s.setList p l).log = s.log := by
  cases p <;> rfl

@[simp] theorem SendSocket.requests_setList (l : List WriteBuffer) :
    (s.setList p l).requests = s.requests := by
  cases p <;> rfl

@[simp] theorem SendSocket.written_setList (l : List WriteBuffer) :
    (s.setList p l).written = s.written := by
  cases p <;> rfl

@[simp] theorem SendSocket.wire_setList (l : List WriteBuffer) :
    (s.setList p l).wire = s.wire := by
  cases p <;> rfl

theorem SendSocket.pending_eq (hp : p = .low → s.high = []) :
    s.pending = s.list p ++ s.after p := by
  cases p with
  | high => rfl
  | low => rw [SendSocket.pending, hp rfl, SendSocket.after, List.append_nil]; rfl

theorem firstPart_of_ptr (h : ∀ b ∈ left, b.ptr = 0) : firstPart left = [] := by
  cases left with
  | nil => rfl
  | cons b left => rw [firstPart, WriteBuffer.part, h b List.mem_cons_self, List.take_zero]

theorem Sending.forceClose (h : Sending s left) : Sending s.forceClose left := by
  rw [SendSocket.forceClose]
  split_ifs with htype
  · exact h
  · exact ⟨h.order, h.wire, h.tail, nofun, nofun, nofun, fun _ => rfl⟩

theorem SendSocket.type_forceClose : s.forceClose.type = .invalid := by
  rw [SendSocket.forceClose]
  split_ifs with htype
  · exact htype
  · rfl

theorem SendSocket.log_forceClose : s.forceClose.log = s.log := by
  rw [SendSocket.forceClose]
  split_ifs <;> rfl

theorem SendSocket.requests_forceClose : s.forceClose.requests = s.requests := by
  rw [SendSocket.forceClose]
  split_ifs <;> rfl

theorem Tells.forceClose {e : SocketResult} (h : e.Ends) : Tells s s.forceClose (some e) where
  log := SendSocket.log_forceClose
  requests := SendSocket.requests_forceClose
  phase := SendSocket.type_forceClose ▸ s.type.phase_le
  ends := iff_of_true SendSocket.type_forceClose (.inr ⟨e, rfl, h⟩)

/-- A function that tells nothing, or that the socket is open. -/
theorem Tells.stays (hlog : s'.log = s.log) (hrequests : s'.requests = s.requests)
    (htype : s'.type = s.type) (hm : ∀ e ∈ m, ¬ e.Ends) : Tells s s' m where
  log := hlog
  requests := hrequests
  phase := htype ▸ le_rfl
  ends := htype ▸ (or_iff_left fun ⟨e, he, hends⟩ => hm e he hends).symm

theorem Tells.refl : Tells s s none := .stays rfl rfl rfl nofun

theorem Tells.trans {s'' : SendSocket} (h : Tells s s' none) (h' : Tells s' s'' m) :
    Tells s s'' m where
  log := h'.log.trans h.log
  requests := h'.requests.trans h.requests
  phase := h.phase.trans h'.phase
  ends := by
    rw [h'.ends, h.ends]
    exact or_congr_left (or_iff_left fun ⟨_, he, _⟩ => nomatch he)

theorem Tells.type_ne (h : Tells s s' none) (htype : s.type ≠ .invalid) : s'.type ≠ .invalid :=
  fun hinvalid => (h.ends.mp hinvalid).elim htype fun ⟨_, he, _⟩ => nomatch he

theorem Tells.invalid (h : Tells s s' (some .closed)) : s'.type = .invalid :=
  h.ends.mpr (.inr ⟨_, rfl, .inl rfl⟩)

theorem SendSocket.sendListTcp_nil (h : s.list p = []) (ws : List WriteAnswer) :
    SendSocket.sendListTcp p ws s = (ws, s, none) := by
  cases ws with
  | nil => rfl
  | cons w ws =>
    rw [SendSocket.sendListTcp]
    simp only [h]

/-- What is left of the first buffer is written. -/
theorem Sending.whole {tmp : WriteBuffer} {rest : List WriteBuffer} (h : Sending s left)
    (htype : s.type ≠ .invalid) (hp : p = .low → s.high = []) (hlist : s.list p = tmp :: rest) :
    Sending (SendSocket.setList { s with
      wbSize := s.wbSize - tmp.rest.length
      wire := s.wire ++ tmp.rest
      written := s.written ++ [tmp.package] } p rest) left.tail := by
  have hleft : left = tmp :: (rest ++ s.after p) := by
    rw [h.live htype, SendSocket.pending_eq hp, hlist, List.cons_append]
  obtain ⟨horder, hwire, htail, hlanes, -, hsize, -⟩ := h
  have hsize := hsize htype
  subst hleft
  rw [List.tail_cons] at htail ⊢
  refine ⟨?_, ?_, fun b hb => htail b (List.mem_of_mem_tail hb), fun b hb => ?_, fun _ => ?_,
    fun _ => ?_, fun hinvalid => absurd hinvalid ?_⟩
  · intro q
    rw [SendSocket.written_setList, SendSocket.requests_setList, List.append_assoc]
    exact horder q
  · -- what was on the wire of the package and what is written now make it whole
    have hwhole : tmp.part ++ tmp.rest = tmp.buffer := List.take_append_drop _ _
    rw [SendSocket.wire_setList, SendSocket.written_setList, firstPart_of_ptr htail, hwire,
      List.append_nil, List.map_append, List.flatten_append, List.append_assoc, firstPart, hwhole]
    exact congrArg _ (List.append_nil _).symm
  · cases p with
    | high => exact hlanes b hb
    -- the list has only lost its head
    | low => exact hlanes b ((congrArg (b ∈ ·) hlist).mpr (List.mem_cons_of_mem _ hb))
  · rw [SendSocket.pending_eq (p := p) fun hlow => by subst hlow; exact hp rfl,
      SendSocket.list_setList, SendSocket.after_setList]
    rfl
  · rw [List.flatMap_cons, List.length_append] at hsize
    rw [SendSocket.wbSize_setList, hsize]
    push_cast
    omega
  · rw [SendSocket.type_setList]
    exact htype

/-- A part of what is left of the first buffer is written. -/
theorem Sending.partly {tmp : WriteBuffer} {rest : List WriteBuffer} (h : Sending s left)
    (htype : s.type ≠ .invalid) (hp : p = .low → s.high = []) (hlist : s.list p = tmp :: rest)
    {sz : ℕ} (hsz : sz ≤ tmp.rest.length) :
    Sending (SendSocket.setList { s with
      wbSize := s.wbSize - sz
      wire := s.wire ++ tmp.rest.take sz } p ({ tmp with ptr := tmp.ptr + sz } :: rest))
        ({ tmp with ptr := tmp.ptr + sz } :: left.tail) := by
  have hleft : left = tmp :: (rest ++ s.after p) := by
    rw [h.live htype, SendSocket.pending_eq hp, hlist, List.cons_append]
  obtain ⟨horder, hwire, htail, hlanes, -, hsize, -⟩ := h
  have hsize := hsize htype
  subst hleft
  rw [List.tail_cons] at htail ⊢
  refine ⟨?_, ?_, htail, fun b hb => ?_, fun _ => ?_, fun _ => ?_,
    fun hinvalid => absurd hinvalid ?_⟩
  · intro q
    rw [SendSocket.written_setList, SendSocket.requests_setList]
    exact horder q
  · -- the part of the first buffer has grown
    have hpart : tmp.part ++ tmp.rest.take sz = tmp.buffer.take (tmp.ptr + sz) :=
      List.take_add.symm
    rw [SendSocket.wire_setList, SendSocket.written_setList, hwire, List.append_assoc, firstPart,
      hpart]
    rfl
  · cases p with
    | high => exact hlanes b hb
    | low =>
      -- the head is the same package, further on
      have hlow : s.low = tmp :: rest := hlist
      rw [hlow] at hlanes
      rcases List.mem_cons.mp hb with rfl | hrest
      · exact hlanes tmp List.mem_cons_self
      · exact hlanes b (List.mem_cons_of_mem _ hrest)
  · rw [SendSocket.pending_eq (p := p) fun hlow => by subst hlow; exact hp rfl,
      SendSocket.list_setList, SendSocket.after_setList]
    rfl
  · have hrest : (WriteBuffer.rest { tmp with ptr := tmp.ptr + sz }).length =
        tmp.rest.length - sz := by
      simp only [WriteBuffer.rest, List.length_drop]
      omega
    rw [List.flatMap_cons, List.length_append] at hsize
    rw [SendSocket.wbSize_setList, hsize, List.flatMap_cons, List.length_append, hrest]
    push_cast
    omega
  · rw [SendSocket.type_setList]
    exact htype

/-- What stays while the list `p` is written. -/
structure Stays (p : Priority) (s s' : SendSocket) : Prop where
  type : s'.type = s.type
  event : s'.writeEvent = s.writeEvent
  after : s'.after p = s.after p
  high : p = .low → s'.high = s.high

theorem Stays.refl : Stays p s s := ⟨rfl, rfl, rfl, fun _ => rfl⟩

theorem Stays.trans {s'' : SendSocket} (h : Stays p s s') (h' : Stays p s' s'') : Stays p s s'' :=
  ⟨h'.type.trans h.type, h'.event.trans h.event, h'.after.trans h.after,
    fun hp => (h'.high hp).trans (h.high hp)⟩

/-- A list is written as far as the kernel takes it. -/
theorem sendListTcp_spec (ws : List WriteAnswer) (h : Sending s left) (htype : s.type ≠ .invalid)
    (hp : p = .low → s.high = []) : ∃ ws' s' m left', SendSocket.sendListTcp p ws s = (ws', s', m) ∧
      Sending s' left' ∧ Tells s s' m ∧ (m = some .closed ∨ m = none ∧ Stays p s s') := by
  -- an answer of the kernel is used up in every round
  induction ws generalizing s left with
  | nil => exact ⟨_, _, _, left, rfl, h, .refl, .inr ⟨rfl, .refl⟩⟩
  | cons w ws ih =>
    rw [SendSocket.sendListTcp]
    cases hlist : s.list p with
    | nil => exact ⟨_, _, _, left, rfl, h, .refl, .inr ⟨rfl, .refl⟩⟩
    | cons tmp rest =>
      cases w with
      | intr => exact ih h htype hp
      | again => exact ⟨_, _, _, left, rfl, h, .refl, .inr ⟨rfl, .refl⟩⟩
      | failed => exact ⟨_, _, _, left, rfl, h.forceClose, .forceClose (.inl rfl), .inl rfl⟩
      | wrote n =>
        dsimp only
        split_ifs with hpart
        · -- the kernel has not taken all, and the list is written later
          refine ⟨_, _, _, _, rfl, h.partly htype hp hlist (min_le_right _ _), ?_, .inr ⟨rfl, ?_⟩⟩
          · exact .stays (SendSocket.log_setList _) (SendSocket.requests_setList _)
              (SendSocket.type_setList _) nofun
          · refine ⟨SendSocket.type_setList _, SendSocket.writeEvent_setList _,
              SendSocket.after_setList _, fun hlow => ?_⟩
            subst hlow
            rfl
        · rw [not_not] at hpart
          rw [hpart, List.take_length]
          -- the first buffer is done, and the loop goes on with the next one
          have hwhole := h.whole htype hp hlist
          generalize hs : SendSocket.setList _ p rest = s₁ at hwhole ⊢
          have hkept : Stays p s s₁ := by
            subst hs
            refine ⟨SendSocket.type_setList _, SendSocket.writeEvent_setList _,
              SendSocket.after_setList _, fun hlow => ?_⟩
            subst hlow
            rfl
          have hlog : s₁.log = s.log := by rw [← hs, SendSocket.log_setList]
          have htype₁ : s₁.type ≠ .invalid := by rwa [hkept.type]
          obtain ⟨ws', s', m, left', heq, hsending, htells, hmore⟩ := ih hwhole htype₁
            fun hlow => (hkept.high hlow).trans (hp hlow)
          have hrequests : s₁.requests = s.requests := by rw [← hs, SendSocket.requests_setList]
          have htells₁ : Tells s s₁ none := .stays hlog hrequests hkept.type nofun
          exact ⟨ws', s', m, left', heq, hsending, htells₁.trans htells,
            hmore.imp_right fun ⟨hm, h⟩ => ⟨hm, hkept.trans h⟩⟩

theorem listUncomplete_of_ptr (h : ∀ b ∈ left, b.ptr = 0) :
    SendSocket.listUncomplete left = false := by
  cases left with
  | nil => rfl
  | cons b left => exact decide_eq_false (not_not.mpr (h b List.mem_cons_self))

theorem Sending.low_of_invalid (h : Sending s left) (htype : s.type = .invalid) :
    SendSocket.listUncomplete s.low = false := by
  rw [(List.append_eq_nil_iff.mp (h.dead htype)).2]
  rfl

/-- A buffer of the low list of which a part is written is moved to the high list, where it is the
only one, and no other of the low list is written in part. -/
theorem Sending.raise (h : Sending s left) (htype : s.type ≠ .invalid) (hhigh : s.high = [])
    (hpart : SendSocket.listUncomplete s.low) : ∃ s', s.raiseUncomplete = some s' ∧
      Sending s' left ∧ SendSocket.listUncomplete s'.low = false ∧ Tells s s' none ∧
        s'.type = s.type ∧ s'.writeEvent = s.writeEvent := by
  cases hlow : s.low with
  | nil => rw [hlow] at hpart; cases hpart
  | cons tmp low =>
    have hleft : left = tmp :: low := by
      rw [h.live htype, SendSocket.pending, hhigh, hlow, List.nil_append]
    have htail := h.tail
    refine ⟨{ s with high := [tmp], low := low }, ?_, ?_, ?_, .stays rfl rfl rfl nofun, rfl, rfl⟩
    · rw [SendSocket.raiseUncomplete, hlow]
      exact if_pos hhigh
    · exact ⟨h.order, h.wire, htail, fun b hb => h.lanes b (hlow ▸ List.mem_cons_of_mem _ hb),
        fun _ => hleft, h.size, fun hinvalid => absurd hinvalid htype⟩
    · apply listUncomplete_of_ptr
      rwa [hleft] at htail

/-- The lists are written as far as the kernel takes them; if nothing is left, the thread does not
wait any longer. -/
theorem sendBuffer_spec (ws : List WriteAnswer) (h : Sending s left) (htype : s.type ≠ .invalid)
    (hlow : SendSocket.listUncomplete s.low = false) : ∃ s' m left', s.sendBuffer ws = some (s', m) ∧
      Sending s' left' ∧ SendSocket.listUncomplete s'.low = false ∧ Tells s s' m ∧
        (m = some .closed ∨ m = none ∧ s'.type = s.type ∧
          (s'.writeEvent = s.writeEvent ∧ s.pending ≠ [] ∨
            s'.pending = [] ∧ s.type ≠ .halfclose)) := by
  obtain ⟨ws₁, s₁, m₁, left₁, heq₁, h₁, htells₁, hends | ⟨rfl, hkept₁⟩⟩ :=
    sendListTcp_spec (p := .high) ws h htype nofun
  · subst hends
    refine ⟨s₁, _, left₁, ?_, h₁, h₁.low_of_invalid htells₁.invalid, htells₁,
      .inl rfl⟩
    rw [SendSocket.sendBuffer, hlow, if_neg Bool.false_ne_true, heq₁]
    rfl
  have hlow₁ : s₁.low = s.low := hkept₁.after
  have htype₁ := htells₁.type_ne htype
  rw [SendSocket.sendBuffer, hlow, if_neg Bool.false_ne_true, heq₁]
  dsimp only [Option.isSome_none]
  rw [if_neg Bool.false_ne_true]
  by_cases hhigh : s₁.high = []
  · rw [if_pos hhigh]
    by_cases hmore : s₁.low = []
    · rw [if_neg (not_not.mpr hmore)]
      -- both lists are empty
      have hoff : Sending { s₁ with writeEvent := false } left₁ :=
        ⟨h₁.order, h₁.wire, h₁.tail, h₁.lanes, h₁.live, h₁.size, h₁.dead⟩
      have htellsOff : Tells s { s₁ with writeEvent := false } none :=
        htells₁.trans (.stays rfl rfl rfl nofun)
      split_ifs with hhalf
      · exact ⟨_, _, left₁, rfl, hoff.forceClose, hoff.forceClose.low_of_invalid
          SendSocket.type_forceClose, htellsOff.trans (.forceClose (.inl rfl)), .inl rfl⟩
      · refine ⟨_, none, left₁, rfl, hoff, ?_, htellsOff, .inr
          ⟨rfl, hkept₁.type, .inr ⟨?_, fun h => hhalf (hkept₁.type.trans h)⟩⟩⟩
        · show SendSocket.listUncomplete s₁.low = false
          rw [hmore]
          rfl
        · exact List.append_eq_nil_iff.mpr ⟨hhigh, hmore⟩
    · rw [if_pos hmore]
      have hsome : s.pending ≠ [] := fun hnone =>
        hmore (hlow₁.trans (List.append_eq_nil_iff.mp hnone).2)
      obtain ⟨ws₂, s₂, m₂, left₂, heq₂, h₂, htells₂, hends | ⟨rfl, hkept₂⟩⟩ :=
        sendListTcp_spec (p := .low) ws₁ h₁ htype₁ fun _ => hhigh
      · subst hends
        rw [heq₂]
        exact ⟨s₂, _, left₂, rfl, h₂, h₂.low_of_invalid htells₂.invalid,
          htells₁.trans htells₂, .inl rfl⟩
      · rw [heq₂]
        dsimp only [Option.isSome_none]
        rw [if_neg Bool.false_ne_true]
        have htype₂ := hkept₂.type.trans hkept₁.type
        have hevent₂ := hkept₂.event.trans hkept₁.event
        cases hpart : SendSocket.listUncomplete s₂.low with
        | false =>
          exact ⟨s₂, none, left₂, rfl, h₂, hpart, htells₁.trans htells₂, .inr
            ⟨rfl, htype₂, .inl ⟨hevent₂, hsome⟩⟩⟩
        | true =>
          obtain ⟨s₃, hraise, h₃, hlow₃, htells₃, htype₃, hevent₃⟩ :=
            h₂.raise (htells₂.type_ne htype₁) ((hkept₂.high rfl).trans hhigh) hpart
          rw [if_pos rfl, hraise]
          exact ⟨s₃, none, left₂, rfl, h₃, hlow₃, (htells₁.trans htells₂).trans htells₃, .inr
            ⟨rfl, htype₃.trans htype₂, .inl ⟨hevent₃.trans hevent₂, hsome⟩⟩⟩
  · rw [if_neg hhigh]
    refine ⟨s₁, none, left₁, rfl, h₁, hlow₁ ▸ hlow, htells₁, .inr
      ⟨rfl, hkept₁.type, .inl ⟨hkept₁.event, fun hnone => hhigh ?_⟩⟩⟩
    have hs := (List.append_eq_nil_iff.mp hnone).1
    rw [SendSocket.sendListTcp_nil (p := .high) hs] at heq₁
    rw [← (Prod.mk.inj (Prod.mk.inj heq₁).2).1]
    exact hs

theorem Sending.ptr_low (h : Sending s left) (hlow : SendSocket.listUncomplete s.low = false) :
    ∀ b ∈ s.low, b.ptr = 0 := by
  intro b hb
  have hlive := h.live fun htype => by
    rw [(List.append_eq_nil_iff.mp (h.dead htype)).2] at hb
    cases hb
  cases hl : s.low with
  | nil => rw [hl] at hb; cases hb
  | cons tmp low =>
    rw [hl] at hb hlow
    rcases List.mem_cons.mp hb with rfl | hrest
    · exact not_not.mp (decide_eq_false_iff_not.mp hlow)
    · apply h.tail
      rw [hlive, SendSocket.pending, hl]
      cases s.high with
      | nil => exact hrest
      | cons => exact List.mem_append_right _ (List.mem_cons_of_mem _ hrest)

/-- A package of which nothing is written may be put anywhere before such packages. -/
theorem firstPart_insert {b : WriteBuffer} {first last : List WriteBuffer} (hb : b.ptr = 0)
    (hlast : ∀ b ∈ last, b.ptr = 0) : firstPart (first ++ b :: last) = firstPart (first ++ last) := by
  cases first with
  | nil =>
    rw [List.nil_append, List.nil_append, firstPart_of_ptr hlast]
    rw [firstPart, WriteBuffer.part, hb, List.take_zero]
  | cons => rfl

theorem ptr_tail_insert {b : WriteBuffer} {first last : List WriteBuffer} (hb : b.ptr = 0)
    (hlast : ∀ b ∈ last, b.ptr = 0) (htail : ∀ b ∈ (first ++ last).tail, b.ptr = 0) :
    ∀ c ∈ (first ++ b :: last).tail, c.ptr = 0 := by
  cases first with
  | nil => exact hlast
  | cons c first =>
    intro d hd
    rcases List.mem_append.mp hd with hfirst | hmore
    · exact htail d (List.mem_append_left _ hfirst)
    · rcases List.mem_cons.mp hmore with rfl | hd
      · exact hb
      · exact hlast d hd

/-- A package goes into the list of its priority, behind all that was sent with it. -/
theorem SendSocket.pending_append (hlanes : ∀ b ∈ s.low, b.priority = .low)
    (p : Priority) (buffer : Bytes) : ∃ first last, s.pending = first ++ last ∧
      (s.append p p buffer 0).pending = first ++ ⟨p, buffer, 0⟩ :: last ∧
        (∀ b ∈ last, b ∈ s.low) ∧ ∀ b ∈ last, b.priority ≠ p := by
  cases p with
  | high =>
    refine ⟨s.high, s.low, rfl, List.append_assoc .., fun _ h => h, fun b hb => ?_⟩
    rw [hlanes b hb]
    nofun
  | low => exact ⟨s.pending, [], (List.append_nil _).symm, (List.append_assoc ..).symm, nofun, nofun⟩

theorem Sending.append (h : Sending s left) (htype : s.type ≠ .invalid)
    (hlow : SendSocket.listUncomplete s.low = false) (p : Priority) (buffer : Bytes) :
    ∃ left', Sending (SendSocket.append { s with requests := s.requests ++ [(p, buffer)] }
      p p buffer 0) left' := by
  obtain ⟨first, last, hpending, happend, hmem, hpriority⟩ :=
    SendSocket.pending_append (s := { s with requests := s.requests ++ [(p, buffer)] })
      h.lanes p buffer
  have hleft := (h.live htype).trans hpending
  have hlast : ∀ b ∈ last, b.ptr = 0 := fun b hb => h.ptr_low hlow b (hmem b hb)
  obtain ⟨horder, hwire, htail, hlanes, -, hsize, -⟩ := h
  have hsize := hsize htype
  subst hleft
  refine ⟨first ++ ⟨p, buffer, 0⟩ :: last, ?_, ?_, ptr_tail_insert rfl hlast htail, fun b hb => ?_,
    fun _ => happend.symm, fun _ => ?_, fun hinvalid => absurd hinvalid ?_⟩
  · intro q
    -- the package goes in front of what has another priority
    have hne : ∀ e ∈ last.map WriteBuffer.package, e.1 ≠ p := by
      intro e he
      obtain ⟨b, hb, rfl⟩ := List.mem_map.mp he
      exact hpriority b hb
    have hq := horder q
    rw [List.map_append, ← List.append_assoc] at hq
    rw [SendSocket.append, List.map_append, List.map_cons, ← List.append_assoc]
    dsimp only
    rw [SendSocket.written_setList, SendSocket.requests_setList]
    exact (proj_insert hne buffer q).trans (hq ▸ (proj_append q ..).symm)
  · rw [firstPart_insert rfl hlast, SendSocket.append]
    dsimp only
    rw [SendSocket.wire_setList, SendSocket.written_setList]
    exact hwire
  · cases p with
    | high => exact hlanes b hb
    | low =>
      rcases List.mem_append.mp hb with hold | hnew
      · exact hlanes b hold
      · rw [List.mem_singleton.mp hnew]
  · show s.wbSize + _ = _
    rw [hsize]
    simp only [List.flatMap_append, List.flatMap_cons, List.length_append]
    push_cast
    omega
  · rw [SendSocket.append]
    dsimp only
    rw [SendSocket.type_setList]
    exact htype

/-- A package is written in part, or not at all, where nothing waited. -/
theorem Sending.direct (h : Sending s left) (htype : s.type ≠ .invalid) (hempty : s.bufferEmpty)
    (p : Priority) (buffer : Bytes) (n : ℕ) :
    Sending (SendSocket.append { s with
      requests := s.requests ++ [(p, buffer)]
      wire := s.wire ++ buffer.take n } .high p buffer n) [⟨p, buffer, n⟩] := by
  obtain ⟨hhigh, hlow⟩ := hempty
  have hleft : left = [] := (h.live htype).trans (List.append_eq_nil_iff.mpr ⟨hhigh, hlow⟩)
  subst hleft
  have hsize := h.size htype
  refine ⟨?_, ?_, nofun, fun b hb => ?_, fun _ => ?_, fun _ => ?_, fun hinvalid => absurd hinvalid htype⟩
  · intro q
    have hq := h.order q
    rw [List.map_nil, List.append_nil] at hq
    show proj q (s.written ++ [(p, buffer)]) = proj q (s.requests ++ [(p, buffer)])
    rw [proj_append, proj_append, hq]
  · show s.wire ++ buffer.take n = (s.written.map Prod.snd).flatten ++ buffer.take n
    rw [h.wire, firstPart, List.append_nil]
  · exact h.lanes b hb
  · show _ = (s.high ++ [_]) ++ s.low
    rw [hhigh, hlow]
    rfl
  · show s.wbSize + _ = _
    rw [hsize]
    simp [WriteBuffer.rest]

/-- A package is written whole where nothing waited. -/
theorem Sending.direct_whole (h : Sending s left) (htype : s.type ≠ .invalid)
    (hempty : s.bufferEmpty) (p : Priority) (buffer : Bytes) :
    Sending { s with
      requests := s.requests ++ [(p, buffer)]
      wire := s.wire ++ buffer
      written := s.written ++ [(p, buffer)] } left := by
  have hleft : left = [] := (h.live htype).trans (List.append_eq_nil_iff.mpr hempty)
  subst hleft
  refine ⟨fun q => ?_, ?_, h.tail, h.lanes, h.live, h.size, h.dead⟩
  · have hq := h.order q
    rw [List.map_nil, List.append_nil] at hq ⊢
    show proj q (s.written ++ [(p, buffer)]) = proj q (s.requests ++ [(p, buffer)])
    rw [proj_append, proj_append, hq]
  · rw [h.wire, firstPart, List.map_append, List.flatten_append, List.append_nil, List.append_nil]
    exact congrArg _ (List.append_nil _).symm

/-- A socket between two steps: no low package is written in part, and a socket that does not wait
until it can be written has nothing to send; no package waits for a client before it is started. -/
structure Settled (s : SendSocket) : Prop where
  sending : ∃ left, Sending s left
  uncut : SendSocket.listUncomplete s.low = false
  waits : s.writeEvent = false →
    s.type = .invalid ∨ s.pending = [] ∧ (s.type = .paccept ∨ s.type = .connected)
  fresh : s.type = .paccept → s.pending = []

theorem Settled.forceClose (h : Settled s) : Settled s.forceClose := by
  obtain ⟨left, hleft⟩ := h.sending
  have htype : s.forceClose.type = .invalid := SendSocket.type_forceClose
  exact ⟨⟨left, hleft.forceClose⟩, hleft.forceClose.low_of_invalid htype, fun _ => .inl htype,
    fun hfresh => nomatch htype.symm.trans hfresh⟩

/-- What a function is to show: no assertion is violated. -/
def Handles (s : SendSocket) (r : Option (SendSocket × Option SocketResult)) : Prop :=
  ∃ s' m, r = some (s', m) ∧ Settled s' ∧ Tells s s' m

theorem Handles.same (h : Settled s) (hm : ∀ e ∈ m, ¬ e.Ends) : Handles s (some (s, m)) :=
  ⟨s, m, rfl, h, .stays rfl rfl rfl hm⟩

theorem Handles.forceClose (h : Settled s) {e : SocketResult} (he : e.Ends) :
    Handles s (some (s.forceClose, some e)) :=
  ⟨_, _, rfl, h.forceClose, .forceClose he⟩

theorem SocketResult.not_ends_opened : ¬ SocketResult.opened.Ends :=
  fun h => h.elim nofun nofun

theorem Handles.opened {s' : SendSocket} (h : Settled s') (hlog : s'.log = s.log)
    (hrequests : s'.requests = s.requests) (hphase : s.type.phase ≤ s'.type.phase)
    (htype : s'.type = .invalid ↔ s.type = .invalid) : Handles s (some (s', some .opened)) :=
  ⟨s', _, rfl, h, hlog, hrequests, hphase, htype.trans (or_iff_left fun ⟨_, he, hends⟩ =>
    SocketResult.not_ends_opened (Option.mem_some.mp he ▸ hends)).symm⟩

theorem Settled.sendBuffer (h : Settled s) (ws : List WriteAnswer)
    (htype : s.type = .connected ∨ s.type = .halfclose) : Handles s (s.sendBuffer ws) := by
  obtain ⟨left, hleft⟩ := h.sending
  have hne : s.type ≠ .invalid := by rcases htype with h | h <;> rw [h] <;> nofun
  obtain ⟨s', m, left', heq, hleft', huncut, htells, rfl | ⟨rfl, htype', hevent⟩⟩ :=
    sendBuffer_spec ws hleft hne h.uncut
  · have hinvalid := htells.invalid
    exact ⟨s', _, heq, ⟨⟨left', hleft'⟩, huncut, fun _ => .inl hinvalid,
      fun hfresh => nomatch hinvalid.symm.trans hfresh⟩, htells⟩
  · refine ⟨s', _, heq, ⟨⟨left', hleft'⟩, huncut, fun hoff => .inr ?_, fun hfresh => ?_⟩, htells⟩
    · rw [htype']
      rcases hevent with ⟨hevent, hsome⟩ | ⟨hnone, hhalf⟩
      · rcases h.waits (hevent.symm.trans hoff) with hinvalid | ⟨hnone, -⟩
        · exact absurd hinvalid hne
        · exact absurd hnone hsome
      · exact ⟨hnone, .inr (htype.resolve_right hhalf)⟩
    · rw [htype'] at hfresh
      rcases htype with h | h <;> cases hfresh.symm.trans h

theorem SendSocket.uncomplete_append {buffer : Bytes}
    (h : SendSocket.listUncomplete s.low = false) :
    SendSocket.listUncomplete (s.append p p buffer 0).low = false := by
  cases p with
  | high => exact h
  | low =>
    show SendSocket.listUncomplete (s.low ++ [_]) = false
    cases hl : s.low with
    | nil => rfl
    | cons => rwa [hl] at h

@[simp] theorem SendSocket.writeEvent_append {buffer : Bytes} {n : ℕ} {q : Priority} :
    (s.append q p buffer n).writeEvent = s.writeEvent :=
  SendSocket.writeEvent_setList _

@[simp] theorem SendSocket.type_append {buffer : Bytes} {n : ℕ} {q : Priority} :
    (s.append q p buffer n).type = s.type :=
  SendSocket.type_setList _

/-- A socket that has just sent its packages, and one that has some of them left. -/
theorem Settled.of_connected (h : Sending s left) (htype : s.type = .connected)
    (huncut : SendSocket.listUncomplete s.low = false)
    (hwaits : s.writeEvent = false → s.pending = []) : Settled s :=
  ⟨⟨left, h⟩, huncut, fun hoff => .inr ⟨hwaits hoff, .inr htype⟩,
    fun hfresh => nomatch htype.symm.trans hfresh⟩

/-- The failure of the write closes the socket, and the package is lost. -/
theorem Sending.failed (h : Sending s left) (htype : s.type ≠ .invalid) (hempty : s.bufferEmpty)
    (p : Priority) (buffer : Bytes) :
    Sending (SendSocket.forceClose { s with requests := s.requests ++ [(p, buffer)] })
      [⟨p, buffer, 0⟩] := by
  have hdirect := h.direct htype hempty p buffer 0
  rw [SendSocket.forceClose, if_neg htype]
  refine ⟨hdirect.order, ?_, hdirect.tail, nofun, nofun, nofun, fun _ => rfl⟩
  have hwire : s.wire ++ [] = (s.written.map Prod.snd).flatten ++ [] := hdirect.wire
  rw [List.append_nil] at hwire
  exact hwire

theorem Settled.writeDirect (h : Settled s) (htype : s.type = .connected) (hempty : s.bufferEmpty)
    (p : Priority) (buffer : Bytes) (w : WriteAnswer) :
    Handles { s with requests := s.requests ++ [(p, buffer)] }
      (some (SendSocket.writeDirect { s with requests := s.requests ++ [(p, buffer)] }
        p buffer w)) := by
  obtain ⟨left, hleft⟩ := h.sending
  have hne : s.type ≠ .invalid := by rw [htype]; nofun
  -- what the kernel takes is all of the package or a part, which may be nothing
  have hdirect (n : ℕ) : Handles { s with requests := s.requests ++ [(p, buffer)] } (some (
      let s' := { s with requests := s.requests ++ [(p, buffer)], wire := s.wire ++ buffer.take n }
      if n = buffer.length then ({ s' with written := s.written ++ [(p, buffer)] }, none)
      else ({ s'.append .high p buffer n with writeEvent := true }, none))) := by
    dsimp only
    split_ifs with hwhole
    · have hsending := hleft.direct_whole hne hempty p buffer
      rw [hwhole, List.take_length]
      exact ⟨_, _, rfl, .of_connected hsending htype h.uncut fun _ =>
        List.append_eq_nil_iff.mpr hempty, .stays rfl rfl rfl nofun⟩
    · have hsending := hleft.direct hne hempty p buffer n
      -- the rest goes to the high list, and the thread waits until it can be written
      have hpoll : Sending { SendSocket.append { s with
          requests := s.requests ++ [(p, buffer)]
          wire := s.wire ++ buffer.take n } .high p buffer n with writeEvent := true }
          [⟨p, buffer, n⟩] :=
        ⟨hsending.order, hsending.wire, hsending.tail, hsending.lanes, hsending.live, hsending.size,
          hsending.dead⟩
      exact ⟨_, _, rfl, .of_connected hpoll htype h.uncut nofun, .stays rfl rfl rfl nofun⟩
  cases w with
  | intr => exact hdirect 0
  | again => exact hdirect 0
  | wrote n => exact hdirect (min n buffer.length)
  | failed =>
    have hsending := hleft.failed hne hempty p buffer
    refine ⟨_, _, rfl, ⟨⟨_, hsending⟩, hsending.low_of_invalid SendSocket.type_forceClose, fun _ =>
      .inl SendSocket.type_forceClose, fun hfresh => ?_⟩, .forceClose (.inl rfl)⟩
    cases SendSocket.type_forceClose.symm.trans hfresh

theorem Settled.sendSocket (h : Settled s) (p : Priority) (buffer : Bytes) (w : WriteAnswer) :
    Handles (s.accept (.send p buffer w)) (some (s.sendSocket p buffer w)) := by
  obtain ⟨left, hleft⟩ := h.sending
  rw [SendSocket.sendSocket, SendSocket.accept]
  dsimp only
  split_ifs with hdropped hdirect
  · exact .same h nofun
  · exact h.writeDirect hdirect.2 hdirect.1 p buffer w
  · obtain ⟨hvalid, hhalf, hfresh⟩ := not_or.mp hdropped |>.imp_right not_or.mp
    obtain ⟨left', hsending⟩ := hleft.append hvalid h.uncut p buffer
    refine ⟨_, _, rfl, ⟨⟨left', hsending⟩, SendSocket.uncomplete_append h.uncut, fun hoff => ?_,
      fun h' => absurd (SendSocket.type_append.symm.trans h') hfresh⟩,
      .stays (SendSocket.log_setList _) (SendSocket.requests_setList _) SendSocket.type_append
        nofun⟩
    -- a socket that does not wait is written to directly
    rw [SendSocket.writeEvent_append] at hoff
    rcases h.waits hoff with h' | ⟨hnone, h' | h'⟩
    · exact absurd h' hvalid
    · exact absurd h' hfresh
    · exact absurd ⟨List.append_eq_nil_iff.mp hnone, h'⟩ hdirect

/-- What is not written yet keeps the socket open, for a service that wants it to be. -/
theorem Settled.halfclose (h : Sending s left) (htype : s.type ≠ .invalid)
    (huncut : SendSocket.listUncomplete s.low = false) (hevent : s.writeEvent = true) :
    Settled { s with type := .halfclose } := by
  refine ⟨⟨left, h.order, h.wire, h.tail, h.lanes, fun _ => h.live htype, fun _ => h.size htype,
    nofun⟩, huncut, fun hoff => ?_, nofun⟩
  exact absurd (hoff.symm.trans hevent) nofun

theorem Settled.closeSocket (h : Settled s) (shutdown : Bool) (ws : List WriteAnswer) :
    Handles s (s.closeSocket shutdown ws) := by
  obtain ⟨left, hleft⟩ := h.sending
  rw [SendSocket.closeSocket]
  by_cases htype : s.type = .invalid
  · rw [if_pos htype]
    exact ⟨s, _, rfl, h, rfl, rfl, le_rfl, iff_of_true htype (.inl htype)⟩
  rw [if_neg htype]
  by_cases hempty : s.bufferEmpty
  · rw [if_pos hempty]
    dsimp only [Option.map_some, Option.isSome_none]
    rw [if_neg Bool.false_ne_true, if_pos (.inr hempty)]
    exact .forceClose h (.inl rfl)
  rw [if_neg hempty]
  obtain ⟨s', m, left', heq, hleft', huncut, htells, rfl | ⟨rfl, htype', hevent⟩⟩ :=
    sendBuffer_spec ws hleft htype h.uncut
  · have hinvalid := htells.invalid
    refine ⟨s', _, by rw [heq]; rfl, ⟨⟨left', hleft'⟩, huncut, fun _ => .inl hinvalid,
      fun hfresh => nomatch hinvalid.symm.trans hfresh⟩, htells⟩
  · have hphase : s'.type.phase ≤ SocketType.halfclose.phase := by
      cases ht : s'.type with
      | invalid => exact absurd ht (htells.type_ne htype)
      | _ => decide
    have hne' := htells.type_ne htype
    rw [heq]
    dsimp only [Option.map_some, Option.isSome_none]
    rw [if_neg Bool.false_ne_true]
    split_ifs with hends
    · have hclosed := hleft'.forceClose
      exact ⟨_, _, rfl, ⟨⟨left', hclosed⟩, hclosed.low_of_invalid SendSocket.type_forceClose,
        fun _ => .inl SendSocket.type_forceClose,
        fun hfresh => nomatch SendSocket.type_forceClose.symm.trans hfresh⟩,
        htells.trans (.forceClose (.inl rfl))⟩
    · refine ⟨_, _, rfl, .halfclose hleft' hne' huncut ?_, htells.trans
        ⟨rfl, rfl, hphase, iff_of_false nofun fun h' => h'.elim hne' fun ⟨_, he, _⟩ => nomatch he⟩⟩
      obtain ⟨-, hsome'⟩ := not_or.mp hends
      -- the lists are not empty, so the socket waits
      rcases hevent with ⟨hevent, hsome⟩ | ⟨hnone, -⟩
      · rw [hevent]
        by_contra hoff
        rcases h.waits (Bool.not_eq_true _ ▸ hoff) with h' | ⟨hnone, -⟩
        · exact htype h'
        · exact hsome hnone
      · exact absurd (List.append_eq_nil_iff.mp hnone) hsome'

/-- A socket that is connected now. -/
theorem Settled.connect {event : Bool} (h : Settled s) (htype : s.type ≠ .invalid)
    (hevent : event = false → s.pending = []) :
    Settled { s with type := .connected, writeEvent := event } := by
  obtain ⟨left, hleft⟩ := h.sending
  have hconnected : Sending { s with type := .connected, writeEvent := event } left :=
    ⟨hleft.order, hleft.wire, hleft.tail, hleft.lanes, fun _ => hleft.live htype,
      fun _ => hleft.size htype, nofun⟩
  exact .of_connected hconnected rfl h.uncut hevent

theorem Settled.startSocket (h : Settled s) (added : Bool) :
    Handles s (some (s.startSocket added)) := by
  rw [SendSocket.startSocket]
  split
  · rename_i htype
    exact ⟨s, _, rfl, h, rfl, rfl, le_rfl, iff_of_true htype (.inl htype)⟩
  · rename_i htype
    have hne : s.type ≠ .invalid := by rw [htype]; nofun
    split_ifs
    · exact .opened (.connect h hne fun _ => h.fresh htype) rfl rfl (htype ▸ Nat.zero_le _)
        (iff_of_false nofun hne)
    · exact .forceClose h (.inr rfl)
  · exact .opened h rfl rfl le_rfl Iff.rfl
  · exact .same h nofun
  · exact .same h nofun

theorem Settled.reportConnect (h : Settled s) (htype : s.type = .connecting) (error : Bool) :
    Handles s (some (s.reportConnect error)) := by
  have hne : s.type ≠ .invalid := by rw [htype]; nofun
  rw [SendSocket.reportConnect]
  cases error with
  | true => exact .forceClose h (.inr rfl)
  | false =>
    refine .opened (.connect h hne fun hoff => ?_) rfl rfl (by rw [htype]; exact Nat.le_succ 1)
      (iff_of_false nofun hne)
    split_ifs at hoff with hempty
    · exact List.append_eq_nil_iff.mpr hempty
    · rcases h.waits hoff with h' | ⟨hnone, -⟩
      · exact absurd h' hne
      · exact hnone

theorem Settled.forwardMessage (h : Settled s) (r : ReadAnswer) :
    Handles s (some (s.forwardMessage r)) := by
  cases r with
  | again => exact .same h nofun
  | failed => exact .forceClose h (.inr rfl)
  | eof => exact .forceClose h (.inl rfl)
  | data =>
    refine .same h fun e he hends => ?_
    split_ifs at he
    · cases he
    · obtain rfl := Option.some.inj he
      rcases hends with h' | h' <;> cases h'

/-- **No step violates an assertion.** -/
theorem Settled.handle (h : Settled s) (e : SendSocket.Event) :
    Handles (s.accept e) (s.handle e) := by
  cases e with
  | start added => exact h.startSocket added
  | send p buffer w => exact h.sendSocket p buffer w
  | close shutdown ws => exact h.closeSocket shutdown ws
  | connect error =>
    -- an event of the poll that is not for this type is one of another branch
    show Handles s _
    rw [SendSocket.handle]
    split_ifs with htype
    · exact h.reportConnect htype error
    · exact .same h nofun
  | readable r =>
    show Handles s _
    rw [SendSocket.handle]
    split_ifs with htype
    · exact h.forwardMessage r
    · exact .same h nofun
  | writable ws =>
    show Handles s _
    rw [SendSocket.handle]
    split_ifs with htype
    · exact h.sendBuffer ws htype
    · exact .same h nofun

@[simp] theorem SendSocket.log_accept (e : SendSocket.Event) : (s.accept e).log = s.log := by
  cases e with
  | send p buffer w =>
    rw [SendSocket.accept]
    split_ifs <;> rfl
  | _ => rfl

@[simp] theorem SendSocket.type_accept (e : SendSocket.Event) : (s.accept e).type = s.type := by
  cases e with
  | send p buffer w =>
    rw [SendSocket.accept]
    split_ifs <;> rfl
  | _ => rfl

/-- The packages that were sent, whether they were accepted or not. -/
def packages (es : List SendSocket.Event) : List (Priority × Bytes) :=
  es.filterMap fun
    | .send p buffer _ => some (p, buffer)
    | _ => none

theorem packages_append (es es' : List SendSocket.Event) :
    packages (es ++ es') = packages es ++ packages es' :=
  List.filterMap_append

/-- The socket takes packages. -/
def SocketType.Open (t : SocketType) : Prop := t = .connecting ∨ t = .connected

theorem SendSocket.requests_accept (e : SendSocket.Event) (h : s.type.Open) :
    (s.accept e).requests = s.requests ++ packages [e] := by
  cases e with
  | send p buffer w =>
    rw [SendSocket.accept, if_neg]
    · rfl
    · rcases h with h | h <;> rw [h] <;> decide
  | _ => exact (List.append_nil _).symm

theorem SendSocket.requests_accept_of_closed (e : SendSocket.Event)
    (h : s.type = .halfclose ∨ s.type = .invalid) : (s.accept e).requests = s.requests := by
  cases e with
  | send p buffer w =>
    rw [SendSocket.accept, if_pos]
    rcases h with h | h
    · exact .inr (.inl h)
    · exact .inl h
  | _ => rfl

theorem SocketType.not_fresh {t : SocketType} (h : t ≠ .paccept) :
    t.Open ∨ t = .halfclose ∨ t = .invalid := by
  cases t with
  | paccept => exact absurd rfl h
  | connecting => exact .inl (.inl rfl)
  | connected => exact .inl (.inr rfl)
  | halfclose => exact .inr (.inl rfl)
  | invalid => exact .inr (.inr rfl)

/-- Between two steps: the service knows whether the socket is closed, and all packages that were sent
are accepted as long as it is open. -/
structure SendInv (sent : List (Priority × Bytes)) (s : SendSocket) : Prop where
  settled : Settled s
  told : (∃ m ∈ s.log, m.Ends) ↔ s.type = .invalid
  accepted : s.requests <+: sent
  all : s.type.Open → s.requests = sent

/-- The log is no part of what is written. -/
theorem Settled.log (h : Settled s) (log : List SocketResult) : Settled { s with log := log } := by
  obtain ⟨⟨left, hleft⟩, huncut, hwaits, hfresh⟩ := h
  exact ⟨⟨left, hleft.order, hleft.wire, hleft.tail, hleft.lanes, hleft.live, hleft.size,
    hleft.dead⟩, huncut, hwaits, hfresh⟩

/-- The log has the end of the socket after a step if it had it, or if the step tells of it. -/
theorem Tells.told {e : SendSocket.Event} (h : Tells (s.accept e) s' m)
    (htold : (∃ m ∈ s.log, m.Ends) ↔ s.type = .invalid) :
    (∃ e ∈ s'.log ++ m.toList, e.Ends) ↔ s'.type = .invalid := by
  rw [h.log, h.ends, SendSocket.log_accept, SendSocket.type_accept, ← htold]
  constructor
  · rintro ⟨e, he, hends⟩
    rcases List.mem_append.mp he with hold | hnew
    · exact .inl ⟨e, hold, hends⟩
    · exact .inr ⟨e, Option.mem_toList.mp hnew, hends⟩
  · rintro (⟨e, hold, hends⟩ | ⟨e, hnew, hends⟩)
    · exact ⟨e, List.mem_append_left _ hold, hends⟩
    · exact ⟨e, List.mem_append_right _ (Option.mem_toList.mpr hnew), hends⟩

/-- **One step** of a socket that was started: no assertion is violated, and the invariant holds
again. -/
theorem SendInv.step {sent : List (Priority × Bytes)} (h : SendInv sent s)
    (hstarted : s.type ≠ .paccept) (e : SendSocket.Event) :
    ∃ s', s.step e = some s' ∧ SendInv (sent ++ packages [e]) s' ∧ s'.type ≠ .paccept := by
  obtain ⟨s', m, heq, hsettled, htells⟩ := h.settled.handle e
  have hphase := htells.phase
  rw [SendSocket.type_accept] at hphase
  refine ⟨{ s' with log := s'.log ++ m.toList }, by rw [SendSocket.step, heq]; rfl,
    ⟨hsettled.log _, htells.told h.told, ?_, ?_⟩, ?_⟩
  · show s'.requests <+: sent ++ packages [e]
    rw [htells.requests]
    rcases SocketType.not_fresh hstarted with hopen | hclosed
    · -- an open socket accepts what is sent, and a closed one drops it
      have hall : (s.accept e).requests = sent ++ packages [e] := by
        rw [SendSocket.requests_accept e hopen, h.all hopen]
      exact hall ▸ List.prefix_rfl
    · rw [SendSocket.requests_accept_of_closed e hclosed]
      exact h.accepted.trans (List.prefix_append _ _)
  · intro hopen'
    show s'.requests = sent ++ packages [e]
    -- a socket that is open now was open before
    have hopen : s.type.Open := by
      refine (SocketType.not_fresh hstarted).resolve_right fun hclosed => ?_
      rcases hclosed with ht | ht <;> rw [ht] at hphase <;>
      rcases hopen' with ht' | ht' <;>
      · rw [show s'.type = _ from ht'] at hphase
        exact absurd hphase (by decide)
    rw [htells.requests, SendSocket.requests_accept e hopen, h.all hopen]
  · intro hfresh
    rw [show s'.type = .paccept from hfresh] at hphase
    cases ht : s.type with
    | paccept => exact hstarted ht
    | _ => rw [ht] at hphase; exact absurd hphase (by decide)

/-- **A run**: the same, for any requests and events. -/
theorem SendInv.run {sent : List (Priority × Bytes)} (h : SendInv sent s)
    (hstarted : s.type ≠ .paccept) (es : List SendSocket.Event) :
    ∃ s', Semantics.run SendSocket.step s es = some s' ∧ SendInv (sent ++ packages es) s' := by
  induction es generalizing s sent with
  | nil => exact ⟨s, rfl, (List.append_nil sent).symm ▸ h⟩
  | cons e es ih =>
    obtain ⟨s₁, hstep, h₁, hstarted₁⟩ := h.step hstarted e
    obtain ⟨s', hrun, h'⟩ := ih h₁ hstarted₁
    refine ⟨s', ?_, ?_⟩
    · rw [run_cons, hstep]
      exact hrun
    · rwa [List.append_assoc, ← List.singleton_append, ← packages_append] at h'

/-- A closed socket accepts nothing. -/
theorem SendInv.step_closed {sent : List (Priority × Bytes)} (h : SendInv sent s)
    (hclosed : s.type = .invalid) (e : SendSocket.Event) :
    ∃ s', s.step e = some s' ∧ SendInv sent s' ∧ s'.type = .invalid := by
  obtain ⟨s', m, heq, hsettled, htells⟩ := h.settled.handle e
  have hinvalid : s'.type = .invalid := htells.ends.mpr (.inl ((s.type_accept e).trans hclosed))
  refine ⟨{ s' with log := s'.log ++ m.toList }, by rw [SendSocket.step, heq]; rfl,
    ⟨hsettled.log _, htells.told h.told, ?_, fun hopen => ?_⟩, hinvalid⟩
  · show s'.requests <+: sent
    rw [htells.requests, SendSocket.requests_accept_of_closed e (.inr hclosed)]
    exact h.accepted
  · rcases hopen with ht | ht <;> cases hinvalid.symm.trans ht

/-- Nothing was sent to a socket that is closed before it is started, or what is sent is dropped. -/
theorem SendInv.run_closed (h : SendInv [] s) (hclosed : s.type = .invalid)
    (es : List SendSocket.Event) (sent : List (Priority × Bytes)) :
    ∃ s', Semantics.run SendSocket.step s es = some s' ∧ SendInv sent s' := by
  induction es generalizing s with
  | nil =>
    refine ⟨s, rfl, h.settled, h.told, ?_, fun hopen => ?_⟩
    · rw [List.prefix_nil.mp h.accepted]
      exact List.nil_prefix
    · rcases hopen with ht | ht <;> cases hclosed.symm.trans ht
  | cons e es ih =>
    obtain ⟨s₁, hstep, h₁, hclosed₁⟩ := h.step_closed hclosed e
    obtain ⟨s', hrun, h'⟩ := ih h₁ hclosed₁
    refine ⟨s', ?_, h'⟩
    rw [run_cons, hstep]
    exact hrun

/-- A socket to which packages can be sent: one that is connecting, one that is connected at once,
and a client that was accepted and will be started. -/
inductive Started : SendSocket → Prop
  | connecting : Started .connecting
  | connected : Started .connected
  | accepted : Started .accepted

/-- Nothing was sent yet. -/
theorem SendInv.fresh {t : SocketType} {event : Bool} {log : List SocketResult}
    (ht : t ≠ .invalid) (hevent : event = false → t = .paccept ∨ t = .connected)
    (hlog : ∀ m ∈ log, ¬ m.Ends) : SendInv [] { type := t, writeEvent := event, log := log } := by
  have hnil : ∀ b ∈ ([] : List WriteBuffer), b.priority = .low := by
    intro b hb
    cases hb
  refine ⟨⟨⟨[], fun _ => rfl, rfl, ?_, hnil, fun _ => rfl, fun _ => rfl, fun _ => rfl⟩, rfl,
    fun hoff => .inr ⟨rfl, hevent hoff⟩, fun _ => rfl⟩, ?_, List.nil_prefix, fun _ => rfl⟩
  · intro b hb
    cases hb
  · exact iff_of_false (fun ⟨m, hm, hends⟩ => hlog m hm hends) ht

/-- The event starts the socket. -/
def SendSocket.Event.starts : SendSocket.Event → Bool
  | .start _ => true
  | _ => false

/-- The packages that are sent to a socket, from its start on. -/
def packagesTo (s : SendSocket) (es : List SendSocket.Event) : List (Priority × Bytes) :=
  packages (if s.type = .paccept then es.dropWhile (!·.starts) else es)

/-- A client that was accepted does nothing before it is started, unless it is closed. -/
theorem step_accepted {e : SendSocket.Event} (h : e.starts = false) :
    SendSocket.accepted.step e = some .accepted ∨
      ∃ s, SendSocket.accepted.step e = some s ∧ SendInv [] s ∧ s.type = .invalid := by
  have hinv : SendInv [] .accepted :=
    .fresh (by decide) (fun _ => .inl rfl) (List.forall_mem_nil _)
  cases e with
  | start added => cases h
  | close shutdown ws =>
    obtain ⟨s', m, heq, hsettled, htells⟩ := hinv.settled.handle (.close shutdown ws)
    have hstep : SendSocket.accepted.step (.close shutdown ws) =
        some { s' with log := s'.log ++ m.toList } := by
      rw [SendSocket.step, heq]
      rfl
    -- nothing waits, so that the socket is closed at once
    have hclosed : s'.type = .invalid := by
      have hhandle : SendSocket.accepted.handle (.close shutdown ws) =
          some (SendSocket.accepted.forceClose, some .closed) := by
        cases shutdown <;> rfl
      rw [hhandle] at heq
      obtain rfl := (Prod.mk.inj (Option.some.inj heq)).1
      exact SendSocket.type_forceClose
    refine .inr ⟨_, hstep, ⟨hsettled.log _, htells.told hinv.told, ?_, fun hopen => ?_⟩, hclosed⟩
    · show s'.requests <+: []
      rw [htells.requests]
      exact List.nil_prefix
    · rcases hopen with ht | ht <;> cases hclosed.symm.trans ht
  | _ => exact .inl rfl

/-- A client that was accepted is started, if the poll takes it. -/
theorem start_accepted (added : Bool) :
    ∃ s, SendSocket.accepted.step (.start added) = some s ∧ SendInv [] s ∧ s.type ≠ .paccept := by
  cases added with
  | true =>
    refine ⟨_, rfl, .fresh (by decide) (fun _ => .inr rfl) fun m hm => ?_, by decide⟩
    rw [List.mem_singleton.mp hm]
    exact SocketResult.not_ends_opened
  | false =>
    have hinv : SendInv [] .accepted :=
      .fresh (by decide) (fun _ => .inl rfl) (List.forall_mem_nil _)
    have hclosed := @SendSocket.type_forceClose .accepted
    refine ⟨_, rfl, ⟨(hinv.settled.forceClose).log _, iff_of_true ?_ hclosed, List.nil_prefix,
      fun hopen => ?_⟩, ?_⟩
    · exact ⟨.error, by decide, .inr rfl⟩
    · rcases hopen with ht | ht <;> cases hclosed.symm.trans ht
    · intro ht
      cases hclosed.symm.trans ht

/-- A run of a client that was accepted. -/
theorem run_accepted (es : List SendSocket.Event) :
    ∃ s, Semantics.run SendSocket.step .accepted es = some s ∧
      SendInv (packages (es.dropWhile (!·.starts))) s := by
  induction es with
  | nil => exact ⟨_, rfl, .fresh (by decide) (fun _ => .inl rfl) (List.forall_mem_nil _)⟩
  | cons e es ih =>
    cases hstarts : e.starts with
    | true =>
      obtain ⟨added, rfl⟩ : ∃ added, e = .start added := by
        cases e with
        | start added => exact ⟨added, rfl⟩
        | _ => cases hstarts
      obtain ⟨s₁, hstep, hinv, hstarted⟩ := start_accepted added
      obtain ⟨s, hrun, hinv'⟩ := hinv.run hstarted es
      refine ⟨s, ?_, hinv'⟩
      rw [run_cons, hstep]
      exact hrun
    | false =>
      rw [List.dropWhile_cons_of_pos (by rw [hstarts]; rfl), run_cons]
      rcases step_accepted hstarts with hstep | ⟨s₁, hstep, hinv, hclosed⟩
      · rw [hstep]
        exact ih
      · rw [hstep]
        exact hinv.run_closed hclosed es _

/-- A run, from the start on. -/
theorem Started.run {s₀ : SendSocket} (h : Started s₀) (es : List SendSocket.Event) :
    ∃ s, Semantics.run SendSocket.step s₀ es = some s ∧ SendInv (packagesTo s₀ es) s := by
  cases h with
  | connecting =>
    exact (SendInv.fresh (by decide) (fun h => Bool.noConfusion h) (List.forall_mem_nil _)).run
      (by decide) es
  | connected =>
    exact (SendInv.fresh (by decide) (fun _ => .inr rfl) (List.forall_mem_nil _)).run
      (by decide) es
  | accepted => exact run_accepted es

theorem length_rest (h : ∀ b ∈ left.tail, b.ptr = 0) :
    (left.flatMap WriteBuffer.rest).length + (firstPart left).length =
      ((left.map WriteBuffer.package).map Prod.snd).flatten.length := by
  cases left with
  | nil => rfl
  | cons b left =>
    have hrest : left.map WriteBuffer.rest = left.map WriteBuffer.buffer := by
      refine List.map_congr_left fun c hc => ?_
      rw [WriteBuffer.rest, h c hc, List.drop_zero]
    have hfirst : b.part ++ b.rest = b.buffer := List.take_append_drop _ _
    rw [List.flatMap_cons, firstPart, List.map_map, List.map_cons, List.flatten_cons,
      List.length_append, List.length_append]
    have := congrArg List.length hfirst
    rw [List.length_append] at this
    rw [List.flatMap, hrest]
    show _ = b.buffer.length + (left.map WriteBuffer.buffer).flatten.length
    omega

/-- **Packages are written in order.** Whatever is sent to a socket, whatever the kernel takes of it
and however the other side behaves, no assertion is violated and the kernel has got whole packages,
each once and in the order of its priority, and a part of the next one. All that was sent from the
start of the socket on is written or waits as long as the socket is open, and if something waits, the
thread is told when the kernel takes more. The service is told of the end of the socket. -/
theorem sent_in_order {s₀ : SendSocket} (h : Started s₀) (es : List SendSocket.Event) :
    ∃ s left part, run SendSocket.step s₀ es = some s ∧
      Interleaves (s.written ++ left) (fun p => proj p s.requests) ∧
      s.wire = (s.written.map Prod.snd).flatten ++ part ∧
      part <+: (left.map Prod.snd).head?.getD [] ∧
      s.requests <+: packagesTo s₀ es ∧ (s.type.Open → s.requests = packagesTo s₀ es) ∧
      (s.type ≠ .invalid → left = s.pending.map WriteBuffer.package ∧
        s.wbSize + part.length = (left.map Prod.snd).flatten.length ∧
        (left ≠ [] → s.writeEvent = true)) ∧
      ((∃ m ∈ s.log, m.Ends) ↔ s.type = .invalid) := by
  obtain ⟨s, hrun, hinv⟩ := h.run es
  obtain ⟨left, hleft⟩ := hinv.settled.sending
  refine ⟨s, left.map WriteBuffer.package, firstPart left, hrun, hleft.order, hleft.wire, ?_,
    hinv.accepted, hinv.all, fun htype => ⟨by rw [hleft.live htype], ?_, fun hsome => ?_⟩,
    hinv.told⟩
  · cases left with
    | nil => exact List.prefix_rfl
    | cons b left => exact List.take_prefix _ _
  · rw [hleft.size htype]
    exact_mod_cast length_rest hleft.tail
  · -- a socket that does not wait until it can be written has nothing to send
    by_contra hoff
    rcases hinv.settled.waits (Bool.not_eq_true _ ▸ hoff) with hinvalid | ⟨hnone, -⟩
    · exact htype hinvalid
    · rw [← hleft.live htype] at hnone
      exact hsome (hnone ▸ rfl)

/-- A low package of which the kernel takes one byte is finished before a high one is written. -/
def lowFirst : List SendSocket.Event :=
  [.send .low [1, 2, 3] (.wrote 1), .send .low [4] .again, .send .high [5] .again,
    .writable [.intr, .wrote 9, .wrote 9]]

theorem sent_in_order_lowFirst : ∃ s left part, run SendSocket.step .connected lowFirst = some s ∧
    Interleaves (s.written ++ left) (fun p => proj p s.requests) ∧
    s.wire = (s.written.map Prod.snd).flatten ++ part ∧
    part <+: (left.map Prod.snd).head?.getD [] ∧
    s.requests <+: packages lowFirst ∧ (s.type.Open → s.requests = packages lowFirst) ∧
    (s.type ≠ .invalid → left = s.pending.map WriteBuffer.package ∧
      s.wbSize + part.length = (left.map Prod.snd).flatten.length ∧
      (left ≠ [] → s.writeEvent = true)) ∧
    ((∃ m ∈ s.log, m.Ends) ↔ s.type = .invalid) :=
  sent_in_order .connected lowFirst

example : (run SendSocket.step .connected lowFirst).map SendSocket.wire = some [1, 2, 3, 5] := by
  decide

end Writing

end TestCluster.Skynet
