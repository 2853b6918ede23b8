import Mathlib.Data.Nat.Bitwise
import TestCluster.Semantics.ByteOrder
import TestCluster.Semantics.Chains
import TestCluster.Semantics.Framing
import TestCluster.Semantics.RingBuffer

/-!
# Packages from sockets

A gate gets the bytes of many sockets in chunks and cuts packages off (`lua-netpack.c`): two bytes
with the size, the high one first, and the data. What is left of a chunk is kept under the number of
the socket in a table of lists; if a chunk has just one package it is returned, and if it has more,
they are put in a queue that grows, from which the gate takes them.

A function returns `none` where the source reads outside a chunk or violates an assertion.

## Main definitions

* `Uncomplete`, `NetQueue` — a package that is not complete yet, and `struct queue`
* `filterData`, `lfilter`, `lpop` — `netpack.filter` and `netpack.pop`
* `pending` — the bytes of a socket that are kept

## Main results

* `filterData_spec` — a chunk is cut off behind what was kept of its socket
-/

namespace TestCluster.Skynet

open Semantics

/-- `struct netpack` -/
structure NetPackage where
  id : ℕ
  size : ℕ
  buffer : Bytes
deriving DecidableEq, Inhabited

/-- `struct uncomplete`: the buffer holds the bytes that were read; if `read` is -1 there is one half
of a size only. -/
structure Uncomplete where
  id : ℕ
  size : ℕ
  buffer : Bytes
  read : ℤ
  header : ℕ
deriving DecidableEq

/-- `QUEUESIZE` -/
def queueSize : ℕ := 1024

/-- `HASHSIZE` -/
def hashSize : ℕ := 4096

/-- `struct queue`: the packages, and the lists of what is not complete. -/
structure NetQueue where
  queue : RingBuffer NetPackage
  hash : Chains Uncomplete ℕ

/-- `hash_fd` -/
def hashFd (fd : ℕ) : ℕ := (fd >>> 24 + fd >>> 12 + fd) % 2 ^ 32 % hashSize

/-- The capacity after `expand_queue`. -/
def enlarged (cap : ℕ) : ℕ := cap + queueSize

theorem lt_enlarged (cap : ℕ) (_ : 0 < cap) : cap < enlarged cap :=
  Nat.lt_add_of_pos_right (by decide)

namespace NetQueue

def empty : NetQueue := ⟨.empty queueSize (by decide) fun _ => default, fun _ => []⟩

/-- `push_data` -/
def pushData (q : NetQueue) (np : NetPackage) : NetQueue :=
  { q with queue := q.queue.push enlarged lt_enlarged np }

/-- The package is put in front of the list of its socket. -/
def save (q : NetQueue) (uc : Uncomplete) : NetQueue :=
  { q with hash := Chains.insert hashFd Uncomplete.id q.hash uc }

end NetQueue

/-- `get_queue`: the first package makes the queue. -/
def getQueue (q : Option NetQueue) : NetQueue := q.getD .empty

/-- `find_uncomplete`, which takes out what it finds. -/
def findUncomplete (q : Option NetQueue) (fd : ℕ) : Option (Uncomplete × NetQueue) :=
  q.bind fun q => (Chains.find hashFd Uncomplete.id q.hash fd).map fun uc =>
    (uc, { q with hash := Chains.erase hashFd Uncomplete.id q.hash fd })

/-- `read_size` -/
def readSize (high low : UInt8) : ℕ := high.toNat <<< 8 ||| low.toNat

/-- One byte is kept, which is a half of a size. -/
def saveHeader (q : Option NetQueue) (fd : ℕ) (b : UInt8) : NetQueue :=
  (getQueue q).save ⟨fd, 0, [], -1, b.toNat⟩

/-- The beginning of a package is kept. -/
def saveStart (q : Option NetQueue) (fd size : ℕ) (buffer : Bytes) : NetQueue :=
  (getQueue q).save ⟨fd, size, buffer, buffer.length, 0⟩

/-- `push_more`, with a bound on its calls. -/
def pushMore : ℕ → Option NetQueue → ℕ → Bytes → Option NetQueue
  | 0, _, _, _ => none
  | _ + 1, _, _, [] => none
  | _ + 1, q, fd, [b] => some (saveHeader q fd b)
  | calls + 1, q, fd, b₀ :: b₁ :: buffer =>
    let packSize := readSize b₀ b₁
    if buffer.length < packSize then some (saveStart q fd packSize buffer)
    else
      let q := (getQueue q).pushData ⟨fd, packSize, buffer.take packSize⟩
      let buffer := buffer.drop packSize
      if buffer.length > 0 then pushMore calls (some q) fd buffer else some q

/-- What `netpack.filter` returns behind the queue. -/
inductive Filtered
  | nothing
  | data (fd : ℕ) (msg : Bytes) (sz : ℕ)
  | more
  | error (fd : ℕ) (msg : Bytes)
  | open (fd : ℕ) (msg : Bytes)
  | close (fd : ℕ)
  | warning (fd : ℕ) (size : ℕ)
deriving DecidableEq

/-- The part of `filter_data_` that completes a size of which one byte was kept. -/
def completeSize (uc : Uncomplete) (buffer : Bytes) : Option (Uncomplete × Bytes) :=
  if uc.read < 0 then
    if uc.read = -1 then
      match buffer with
      | [] => none
      | b :: buffer =>
        some ({ uc with size := b.toNat ||| uc.header <<< 8, buffer := [], read := 0 }, buffer)
    else none
  else some (uc, buffer)

/-- The part of `filter_data_` that fills a package of which a part was kept. -/
def fill (q : NetQueue) (fd : ℕ) (uc : Uncomplete) (buffer : Bytes) :
    Option (Option NetQueue × Filtered) :=
  let need := (uc.size - uc.read).toNat
  if (buffer.length : ℤ) < uc.size - uc.read then
    some (some (q.save { uc with buffer := uc.buffer ++ buffer, read := uc.read + buffer.length }),
      .nothing)
  else
    let pack := uc.buffer ++ buffer.take need
    let buffer := buffer.drop need
    if buffer.length = 0 then some (some q, .data fd pack uc.size)
    else
      (pushMore buffer.length (some (q.pushData ⟨fd, uc.size, pack⟩)) fd buffer).map fun q =>
        (some q, .more)

/-- `filter_data` -/
def filterData (q : Option NetQueue) (fd : ℕ) (buffer : Bytes) :
    Option (Option NetQueue × Filtered) :=
  match findUncomplete q fd with
  | some (uc, q) => (completeSize uc buffer).bind fun r => fill q fd r.1 r.2
  | none =>
    match buffer with
    | [] => none
    | [b] => some (some (saveHeader q fd b), .nothing)
    | b₀ :: b₁ :: buffer =>
      let packSize := readSize b₀ b₁
      if buffer.length < packSize then some (some (saveStart q fd packSize buffer), .nothing)
      else if buffer.length = packSize then some (q, .data fd buffer packSize)
      else
        let q := (getQueue q).pushData ⟨fd, packSize, buffer.take packSize⟩
        let buffer := buffer.drop packSize
        (pushMore buffer.length (some q) fd buffer).map fun q => (some q, .more)

/-- The messages of the socket thread, with the number of the socket. -/
inductive SocketMessage
  | data (id : ℕ) (buffer : Bytes)
  | connect (id : ℕ)
  | close (id : ℕ)
  | accept (id : ℕ) (ud : ℕ) (buffer : Bytes)
  | error (id : ℕ) (buffer : Bytes)
  | warning (id : ℕ) (ud : ℕ)

/-- `close_uncomplete` -/
def closeUncomplete (q : Option NetQueue) (fd : ℕ) : Option NetQueue :=
  match findUncomplete q fd with
  | some (_, q) => some q
  | none => q

/-- `netpack.filter` -/
def lfilter (q : Option NetQueue) : SocketMessage → Option (Option NetQueue × Filtered)
  | .data id buffer => filterData q id buffer
  | .connect _ => some (q, .nothing)
  | .close id => some (closeUncomplete q id, .close id)
  | .accept _ ud buffer => some (q, .open ud buffer)
  | .error id buffer => some (closeUncomplete q id, .error id buffer)
  | .warning id ud => some (q, .warning id ud)

/-- `netpack.pop` -/
def lpop (q : Option NetQueue) : Option (NetPackage × Option NetQueue) :=
  q.bind fun q => q.queue.pop.map fun r => (r.1, some { q with queue := r.2 })

/-- `netpack.tostring`, of a buffer that has as many bytes. -/
def ltostring (msg : Bytes) (sz : ℕ) : Option Bytes :=
  if sz ≤ msg.length then some (msg.take sz) else none

/-! ### What is kept of a socket -/

/-- The bytes of a package that is not complete. -/
def Uncomplete.bytes (uc : Uncomplete) : Bytes :=
  if uc.read < 0 then [UInt8.ofNat uc.header] else beBytes 2 uc.size ++ uc.buffer

/-- Half of a size, or a part of a package. -/
def Uncomplete.Good (uc : Uncomplete) : Prop :=
  uc.read = -1 ∧ uc.header < 256 ∨
    uc.read = uc.buffer.length ∧ uc.buffer.length < uc.size ∧ uc.size < 256 ^ 2

/-- What holds of the table. -/
structure NetQueue.Sound (q : NetQueue) : Prop where
  chains : Chains.Sound hashFd Uncomplete.id q.hash
  good : ∀ h, ∀ uc ∈ q.hash h, uc.Good

/-- The bytes that are kept of a socket. -/
def NetQueue.pending (q : NetQueue) (fd : ℕ) : Bytes :=
  ((Chains.find hashFd Uncomplete.id q.hash fd).map Uncomplete.bytes).getD []

/-- The packages in the queue. -/
def NetQueue.packages (q : NetQueue) : List NetPackage := q.queue.toList

theorem readSize_eq (high low : UInt8) : readSize high low = beNat [high, low] := by
  rw [readSize, ← Nat.shiftLeft_add_eq_or_of_lt low.toNat_lt, Nat.shiftLeft_eq]
  simp [beNat, leNat]
  omega

theorem beBytes_readSize (high low : UInt8) : beBytes 2 (readSize high low) = [high, low] := by
  have h := leBytes_leNat [low, high]
  rw [readSize_eq, beBytes, beNat]
  exact congrArg List.reverse h

theorem readSize_lt (high low : UInt8) : readSize high low < 256 ^ 2 := by
  rw [readSize_eq]
  exact beNat_lt [high, low]

namespace NetQueue

theorem sound_empty : empty.Sound := ⟨Chains.sound_empty, fun _ _ h => absurd h List.not_mem_nil⟩

@[simp] theorem pending_empty (fd : ℕ) : empty.pending fd = [] := rfl

@[simp] theorem packages_empty : empty.packages = [] := RingBuffer.toList_empty _ _ _

@[simp] theorem packages_pushData (q : NetQueue) (np : NetPackage) :
    (q.pushData np).packages = q.packages ++ [np] :=
  RingBuffer.toList_push enlarged lt_enlarged q.queue np

@[simp] theorem pending_pushData (q : NetQueue) (np : NetPackage) (fd : ℕ) :
    (q.pushData np).pending fd = q.pending fd := rfl

theorem Sound.pushData {q : NetQueue} (h : q.Sound) (np : NetPackage) : (q.pushData np).Sound :=
  ⟨h.chains, h.good⟩

@[simp] theorem packages_save (q : NetQueue) (uc : Uncomplete) :
    (q.save uc).packages = q.packages := rfl

theorem pending_save (q : NetQueue) (uc : Uncomplete) (fd : ℕ) :
    (q.save uc).pending fd = if uc.id = fd then uc.bytes else q.pending fd := by
  rw [pending, save, Chains.find_insert]
  split_ifs
  · rfl
  · rfl

theorem Sound.save {q : NetQueue} (h : q.Sound) {uc : Uncomplete} (hgood : uc.Good)
    (hnone : Chains.find hashFd Uncomplete.id q.hash uc.id = none) : (q.save uc).Sound :=
  ⟨h.chains.insert hnone, Chains.forall_insert h.good hgood⟩

end NetQueue

/-! ### Cutting off packages -/

/-- The package of a socket with these bytes. -/
def packageOf (fd : ℕ) (msg : Bytes) : NetPackage := ⟨fd, msg.length, msg⟩

/-- The stream of a socket, with what was kept before it, is cut into these packages, and nothing
changes for another socket. -/
structure Cutting (q q' : NetQueue) (fd : ℕ) (stream : Bytes) (msgs : List Bytes) : Prop where
  sound : q'.Sound
  cuts : Cuts 2 beNat stream msgs (q'.pending fd)
  other : ∀ d, d ≠ fd → q'.pending d = q.pending d

section Cutting

variable {q : NetQueue} {fd : ℕ}

/-- One byte is kept. -/
theorem cutting_saveHeader (h : q.Sound) (hnone : Chains.find hashFd Uncomplete.id q.hash fd = none)
    (b : UInt8) : Cutting q (saveHeader (some q) fd b) fd [b] [] := by
  constructor
  · exact h.save (.inl ⟨rfl, b.toNat_lt⟩) hnone
  · have hpending : (saveHeader (some q) fd b).pending fd = [b] := by
      rw [saveHeader, NetQueue.pending_save, if_pos rfl]
      simp [Uncomplete.bytes]
    rw [hpending]
    exact .rest (.inl (Nat.lt_succ_self 1))
  · intro d hd
    rw [saveHeader, NetQueue.pending_save, if_neg hd.symm]
    rfl

/-- The beginning of a package is kept. -/
theorem cutting_saveStart (h : q.Sound) (hnone : Chains.find hashFd Uncomplete.id q.hash fd = none)
    {b₀ b₁ : UInt8} {buffer : Bytes} (hlt : buffer.length < readSize b₀ b₁) :
    Cutting q (saveStart (some q) fd (readSize b₀ b₁) buffer) fd (b₀ :: b₁ :: buffer) [] := by
  constructor
  · exact h.save (.inr ⟨rfl, hlt, readSize_lt b₀ b₁⟩) hnone
  · have hpending : (saveStart (some q) fd (readSize b₀ b₁) buffer).pending fd =
        b₀ :: b₁ :: buffer := by
      rw [saveStart, NetQueue.pending_save, if_pos rfl]
      simp [Uncomplete.bytes, beBytes_readSize]
    rw [hpending]
    apply Cuts.rest
    right
    simp only [List.length_cons, List.take_succ_cons, List.take_zero, ← readSize_eq]
    omega
  · intro d hd
    rw [saveStart, NetQueue.pending_save, if_neg hd.symm]
    rfl

/-- A package in front of a stream. -/
theorem cuts_package {b₀ b₁ : UInt8} {buffer : Bytes} (hle : readSize b₀ b₁ ≤ buffer.length)
    {msgs : List Bytes} {r : Bytes} (h : Cuts 2 beNat (buffer.drop (readSize b₀ b₁)) msgs r) :
    Cuts 2 beNat (b₀ :: b₁ :: buffer) (buffer.take (readSize b₀ b₁) :: msgs) r := by
  have hsplit : b₀ :: b₁ :: buffer = [b₀, b₁] ++
      (buffer.take (readSize b₀ b₁) ++ buffer.drop (readSize b₀ b₁)) := by
    rw [List.take_append_drop]
    rfl
  rw [hsplit]
  refine Cuts.frame rfl ?_ h
  rw [List.length_take_of_le hle, readSize_eq]

/-- A package in front of a stream goes to the queue. -/
theorem Cutting.package {q' : NetQueue} {np : NetPackage} {b₀ b₁ : UInt8} {buffer : Bytes}
    {msgs : List Bytes} (hle : readSize b₀ b₁ ≤ buffer.length)
    (h : Cutting (q.pushData np) q' fd (buffer.drop (readSize b₀ b₁)) msgs) :
    Cutting q q' fd (b₀ :: b₁ :: buffer) (buffer.take (readSize b₀ b₁) :: msgs) :=
  ⟨h.sound, cuts_package hle h.cuts, h.other⟩

/-- Nothing is cut off if nothing was kept. -/
theorem cutting_nil (h : q.Sound) (hnone : Chains.find hashFd Uncomplete.id q.hash fd = none) :
    Cutting q q fd [] [] := by
  refine ⟨h, ?_, fun d _ => rfl⟩
  rw [NetQueue.pending, hnone]
  exact .rest (.inl Nat.zero_lt_two)

/-- `push_more`: the packages go to the queue, and what is left over is kept. -/
theorem pushMore_spec (calls : ℕ) (buffer : Bytes) (hcalls : buffer.length ≤ calls)
    (hne : buffer ≠ []) (h : q.Sound)
    (hnone : Chains.find hashFd Uncomplete.id q.hash fd = none) :
    ∃ q' msgs, pushMore calls (some q) fd buffer = some q' ∧ Cutting q q' fd buffer msgs ∧
      q'.packages = q.packages ++ msgs.map (packageOf fd) := by
  -- every call takes a package of two bytes at least
  induction calls generalizing q buffer with
  | zero => exact absurd (List.length_eq_zero_iff.mp (Nat.le_zero.mp hcalls)) hne
  | succ calls ih =>
    match buffer with
    | [] => exact absurd rfl hne
    | [b] => exact ⟨_, [], rfl, cutting_saveHeader h hnone b, (List.append_nil _).symm⟩
    | b₀ :: b₁ :: buffer =>
      rw [pushMore]
      -- the size is known, but the package does not end in the chunk
      by_cases hlt : buffer.length < readSize b₀ b₁
      · exact ⟨_, [], if_pos hlt, cutting_saveStart h hnone hlt, (List.append_nil _).symm⟩
      have hle := not_lt.mp hlt
      have hpack : (⟨fd, readSize b₀ b₁, buffer.take (readSize b₀ b₁)⟩ : NetPackage) =
          packageOf fd (buffer.take (readSize b₀ b₁)) := by
        rw [packageOf, List.length_take_of_le hle]
      simp only [if_neg hlt, hpack]
      have hsound := h.pushData (packageOf fd (buffer.take (readSize b₀ b₁)))
      split_ifs with hrest
      · obtain ⟨q', msgs, hmore, hcut, hpackages⟩ := ih (buffer.drop (readSize b₀ b₁))
          (by simp only [List.length_cons] at hcalls; rw [List.length_drop]; omega)
          (List.ne_nil_of_length_pos hrest) hsound hnone
        refine ⟨q', _, hmore, hcut.package hle, ?_⟩
        rw [hpackages, NetQueue.packages_pushData, List.map_cons, List.append_assoc]
        rfl
      · -- the chunk ends with the package
        have hnil : buffer.drop (readSize b₀ b₁) = [] :=
          List.length_eq_zero_iff.mp (Nat.le_zero.mp (not_lt.mp hrest))
        have hcut := cutting_nil hsound hnone
        rw [← hnil] at hcut
        exact ⟨_, _, rfl, hcut.package hle, NetQueue.packages_pushData _ _⟩

/-! ### `filter_data_` -/

/-- What `filter_data_` returns for a chunk in which packages end. -/
def Returned (q q' : NetQueue) (fd : ℕ) (msgs : List Bytes) (r : Filtered) : Prop :=
  r = .nothing ∧ msgs = [] ∧ q'.packages = q.packages ∨
    (∃ msg, r = .data fd msg msg.length ∧ msgs = [msg] ∧ q'.packages = q.packages) ∨
    r = .more ∧ q'.packages = q.packages ++ msgs.map (packageOf fd)

/-- A package of which a part was kept. -/
theorem fill_spec (h : q.Sound) {uc : Uncomplete} (hid : uc.id = fd)
    (hnone : Chains.find hashFd Uncomplete.id q.hash fd = none) (hread : uc.read = uc.buffer.length)
    (hle : uc.buffer.length ≤ uc.size) (hsize : uc.size < 256 ^ 2) (buffer : Bytes) :
    ∃ q' r msgs, fill q fd uc buffer = some (some q', r) ∧
      Cutting q q' fd (beBytes 2 uc.size ++ (uc.buffer ++ buffer)) msgs ∧
      Returned q q' fd msgs r := by
  have hneed : (uc.size - uc.read).toNat = uc.size - uc.buffer.length := by omega
  rw [fill, hneed]
  by_cases hlt : (buffer.length : ℤ) < uc.size - uc.read
  · -- it is still not complete
    refine ⟨_, .nothing, [], if_pos hlt, ⟨?_, ?_, ?_⟩, .inl ⟨rfl, rfl, rfl⟩⟩
    · refine h.save (.inr ⟨?_, ?_, hsize⟩) (by simpa [hid] using hnone)
      · simp only [List.length_append, Nat.cast_add, hread]
      · simp only [List.length_append]
        omega
    · rw [NetQueue.pending_save, if_pos hid]
      simp only [Uncomplete.bytes]
      rw [if_neg (by omega)]
      apply Cuts.rest
      right
      rw [List.take_left' (length_beBytes 2 _), beNat_beBytes_of_lt hsize]
      simp only [List.length_append, length_beBytes]
      omega
    · intro d hd
      rw [NetQueue.pending_save, if_neg (by simpa [hid] using hd.symm)]
  · rw [if_neg hlt]
    have hge : uc.size - uc.buffer.length ≤ buffer.length := by omega
    generalize hmsg : uc.buffer ++ buffer.take (uc.size - uc.buffer.length) = msg
    generalize hrest : buffer.drop (uc.size - uc.buffer.length) = rest
    have hlength : msg.length = uc.size := by
      rw [← hmsg, List.length_append, List.length_take_of_le hge]
      omega
    have hstream : uc.buffer ++ buffer = msg ++ rest := by
      rw [← hmsg, ← hrest, List.append_assoc, List.take_append_drop]
    -- the bytes of the size, of what was kept and of the chunk begin with the package
    have hcuts {msgs : List Bytes} {r : Bytes} (hcuts : Cuts 2 beNat rest msgs r) :
        Cuts 2 beNat (beBytes 2 uc.size ++ (uc.buffer ++ buffer)) (msg :: msgs) r := by
      rw [hstream]
      refine .frame (length_beBytes 2 _) ?_ hcuts
      rw [hlength, beNat_beBytes_of_lt hsize]
    simp only
    split_ifs with hnil
    · -- the chunk ends with the package
      have hrest : rest = [] := List.length_eq_zero_iff.mp hnil
      have hcut := cutting_nil h hnone
      refine ⟨q, _, [msg], rfl, ⟨h, hcuts ?_, fun d _ => rfl⟩, ?_⟩
      · rw [hrest]
        exact hcut.cuts
      · exact .inr (.inl ⟨msg, by rw [hlength], rfl, rfl⟩)
    · -- more packages follow in the chunk
      obtain ⟨q', msgs, hmore, hcut, hpackages⟩ := pushMore_spec rest.length rest le_rfl
        (fun hrest => hnil (by rw [hrest]; rfl)) (h.pushData ⟨fd, uc.size, msg⟩) hnone
      refine ⟨q', .more, msg :: msgs, ?_, ⟨hcut.sound, hcuts hcut.cuts, hcut.other⟩,
        .inr (.inr ⟨rfl, ?_⟩)⟩
      · rw [hmore]
        rfl
      · rw [hpackages, NetQueue.packages_pushData, List.map_cons, List.append_assoc, packageOf,
          hlength]
        rfl

/-- With another byte the size of a package is complete. -/
theorem completeSize_spec {uc : Uncomplete} (h : uc.Good) {buffer : Bytes} (hne : buffer ≠ []) :
    ∃ uc' buffer', completeSize uc buffer = some (uc', buffer') ∧ uc'.id = uc.id ∧
      uc'.read = uc'.buffer.length ∧ uc'.buffer.length ≤ uc'.size ∧ uc'.size < 256 ^ 2 ∧
      uc.bytes ++ buffer = beBytes 2 uc'.size ++ (uc'.buffer ++ buffer') := by
  rcases h with ⟨hread, hheader⟩ | ⟨hread, hlt, hsize⟩
  · obtain ⟨b, buffer', rfl⟩ := List.exists_cons_of_ne_nil hne
    have hbyte : (UInt8.ofNat uc.header).toNat = uc.header := by
      rw [UInt8.toNat_ofNat']
      exact Nat.mod_eq_of_lt hheader
    have hread_eq : b.toNat ||| uc.header <<< 8 = readSize (.ofNat uc.header) b := by
      rw [readSize, hbyte, Nat.or_comm]
    refine ⟨{ uc with size := readSize (.ofNat uc.header) b, buffer := [], read := 0 }, buffer',
      ?_, rfl, rfl, Nat.zero_le _, readSize_lt _ _, ?_⟩
    · simp only [completeSize, hread, hread_eq]
      rfl
    · simp [Uncomplete.bytes, hread, beBytes_readSize]
  · have hpos : ¬ uc.read < 0 := by omega
    refine ⟨uc, buffer, ?_, rfl, hread, hlt.le, hsize, ?_⟩
    · unfold completeSize
      exact if_neg hpos
    · rw [Uncomplete.bytes, if_neg hpos, List.append_assoc]

/-- What is found of a socket is taken out of its chain, and the other sockets keep theirs. -/
theorem sound_erase (h : q.Sound) (fd : ℕ) :
    NetQueue.Sound { q with hash := Chains.erase hashFd Uncomplete.id q.hash fd } ∧
      Chains.find hashFd Uncomplete.id (Chains.erase hashFd Uncomplete.id q.hash fd) fd = none ∧
      ∀ d, d ≠ fd → NetQueue.pending
        { q with hash := Chains.erase hashFd Uncomplete.id q.hash fd } d = q.pending d := by
  refine ⟨⟨h.chains.erase fd, Chains.forall_erase h.good fd⟩, ?_, fun d hd => ?_⟩
  · rw [Chains.find_erase h.chains, if_pos rfl]
  · rw [NetQueue.pending, Chains.find_erase h.chains, if_neg hd]
    rfl

theorem findUncomplete_eq (q : Option NetQueue) (fd : ℕ) :
    findUncomplete q fd =
      (Chains.find hashFd Uncomplete.id (getQueue q).hash fd).map fun uc =>
        (uc, { getQueue q with hash := Chains.erase hashFd Uncomplete.id (getQueue q).hash fd }) := by
  cases q <;> rfl

/-- A chunk of a socket of which something was kept. -/
theorem filterData_kept {q : Option NetQueue} (h : (getQueue q).Sound) {uc : Uncomplete}
    (hkept : Chains.find hashFd Uncomplete.id (getQueue q).hash fd = some uc) {buffer : Bytes}
    (hne : buffer ≠ []) :
    ∃ q' r msgs, filterData q fd buffer = some (q', r) ∧
      Cutting (getQueue q) (getQueue q') fd ((getQueue q).pending fd ++ buffer) msgs ∧
      Returned (getQueue q) (getQueue q') fd msgs r := by
  obtain ⟨hsound, hnone, hother⟩ := sound_erase h fd
  have hpending : (getQueue q).pending fd = uc.bytes := by rw [NetQueue.pending, hkept]; rfl
  obtain ⟨uc', buffer', hsize, hid', hread', hle', hsize', hbytes⟩ :=
    completeSize_spec (Chains.forall_find h.good hkept) hne
  obtain ⟨q', r, msgs, hfill, hcut, hreturned⟩ :=
    fill_spec hsound (hid'.trans (Chains.mem_of_find hkept).2) hnone hread' hle' hsize' buffer'
  refine ⟨some q', r, msgs, ?_, ⟨hcut.sound, ?_, fun d hd => ?_⟩, hreturned⟩
  · unfold filterData
    rw [findUncomplete_eq, hkept, Option.map_some]
    simp only [hsize, Option.bind_some, hfill]
  · rw [hpending, hbytes]
    exact hcut.cuts
  · exact (hcut.other d hd).trans (hother d hd)

/-- A chunk that is just one package. -/
theorem cutting_whole (h : q.Sound)
    (hnone : Chains.find hashFd Uncomplete.id q.hash fd = none) {b₀ b₁ : UInt8} {buffer : Bytes}
    (heq : buffer.length = readSize b₀ b₁) : Cutting q q fd (b₀ :: b₁ :: buffer) [buffer] := by
  have htake : buffer.take (readSize b₀ b₁) = buffer := List.take_of_length_le heq.le
  have hdrop : buffer.drop (readSize b₀ b₁) = [] := List.drop_of_length_le heq.le
  have hcuts := (cutting_nil h hnone).cuts
  rw [← hdrop] at hcuts
  have hpackage := cuts_package heq.ge hcuts
  rw [htake] at hpackage
  exact ⟨h, hpackage, fun d _ => rfl⟩

/-- A chunk of a socket of which nothing was kept. -/
theorem filterData_fresh {q : Option NetQueue} (h : (getQueue q).Sound)
    (hkept : Chains.find hashFd Uncomplete.id (getQueue q).hash fd = none) {buffer : Bytes}
    (hne : buffer ≠ []) :
    ∃ q' r msgs, filterData q fd buffer = some (q', r) ∧
      Cutting (getQueue q) (getQueue q') fd ((getQueue q).pending fd ++ buffer) msgs ∧
      Returned (getQueue q) (getQueue q') fd msgs r := by
  have hpending : (getQueue q).pending fd = [] := by rw [NetQueue.pending, hkept]; rfl
  unfold filterData
  rw [hpending, List.nil_append, findUncomplete_eq, hkept, Option.map_none]
  match buffer with
  | [] => exact absurd rfl hne
  | [b] =>
    exact ⟨_, .nothing, [], rfl, cutting_saveHeader h hkept b, .inl ⟨rfl, rfl, rfl⟩⟩
  | b₀ :: b₁ :: buffer =>
    dsimp only
    by_cases hlt : buffer.length < readSize b₀ b₁
    · exact ⟨_, .nothing, [], if_pos hlt, cutting_saveStart h hkept hlt, .inl ⟨rfl, rfl, rfl⟩⟩
    rw [if_neg hlt]
    have hle := not_lt.mp hlt
    by_cases heq : buffer.length = readSize b₀ b₁
    · exact ⟨q, .data fd buffer (readSize b₀ b₁), [buffer], if_pos heq,
        cutting_whole h hkept heq, .inr (.inl ⟨buffer, by rw [heq], rfl, rfl⟩)⟩
    rw [if_neg heq]
    -- more packages follow in the chunk
    obtain ⟨q', msgs, hmore, hcut, hpackages⟩ := pushMore_spec
      (buffer.drop (readSize b₀ b₁)).length (buffer.drop (readSize b₀ b₁)) le_rfl
      (fun hnil => by rw [List.drop_eq_nil_iff] at hnil; omega)
      (h.pushData (packageOf fd (buffer.take (readSize b₀ b₁)))) hkept
    have hpack : (⟨fd, readSize b₀ b₁, buffer.take (readSize b₀ b₁)⟩ : NetPackage) =
        packageOf fd (buffer.take (readSize b₀ b₁)) := by
      rw [packageOf, List.length_take_of_le hle]
    refine ⟨some q', .more, _, ?_, hcut.package hle, .inr (.inr ⟨rfl, ?_⟩)⟩
    · rw [hpack, hmore]
      rfl
    · change q'.packages = _
      rw [hpackages, NetQueue.packages_pushData, List.map_cons, List.append_assoc]
      rfl

/-- **Chunks.** A chunk is cut off behind what was kept of its socket: the packages that end in it
are returned or put in the queue, in their order, and the rest is kept. -/
theorem filterData_spec {q : Option NetQueue} (h : (getQueue q).Sound) (fd : ℕ) {buffer : Bytes}
    (hne : buffer ≠ []) :
    ∃ q' r msgs, filterData q fd buffer = some (q', r) ∧
      Cutting (getQueue q) (getQueue q') fd ((getQueue q).pending fd ++ buffer) msgs ∧
      Returned (getQueue q) (getQueue q') fd msgs r := by
  cases hkept : Chains.find hashFd Uncomplete.id (getQueue q).hash fd with
  | some uc => exact filterData_kept h hkept hne
  | none => exact filterData_fresh h hkept hne

end Cutting

/-- **Close.** Nothing is kept of a socket that was closed. -/
theorem closeUncomplete_spec {q : Option NetQueue} (h : (getQueue q).Sound) (fd : ℕ) :
    (getQueue (closeUncomplete q fd)).Sound ∧
      (getQueue (closeUncomplete q fd)).packages = (getQueue q).packages ∧
      ∀ d, (getQueue (closeUncomplete q fd)).pending d =
        if d = fd then [] else (getQueue q).pending d := by
  cases q with
  | none =>
    refine ⟨h, rfl, fun d => ?_⟩
    change NetQueue.empty.pending d = if d = fd then [] else NetQueue.empty.pending d
    simp
  | some q =>
    rw [closeUncomplete, findUncomplete, Option.bind_some]
    -- what is found is taken out of its chain, and the other sockets keep theirs
    cases hkept : Chains.find hashFd Uncomplete.id q.hash fd with
    | none =>
      refine ⟨h, rfl, fun d => ?_⟩
      change q.pending d = if d = fd then [] else q.pending d
      split_ifs with hd
      · rw [hd, NetQueue.pending, hkept]
        rfl
      · rfl
    | some uc =>
      refine ⟨⟨h.chains.erase fd, Chains.forall_erase h.good fd⟩, rfl, fun d => ?_⟩
      change NetQueue.pending { q with hash := Chains.erase hashFd Uncomplete.id q.hash fd } d =
        if d = fd then [] else q.pending d
      have hchains : Chains.Sound hashFd Uncomplete.id q.hash := h.chains
      simp only [NetQueue.pending, Chains.find_erase hchains]
      split_ifs
      · rfl
      · rfl

end TestCluster.Skynet
