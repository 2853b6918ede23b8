import Mathlib.Data.List.Infix
import TestCluster.Semantics.ByteOrder

/-!
# The buffer of a socket

What comes from a socket is kept in a list of nodes, one for each message, and is taken out as so
many bytes, as a line, or altogether (`lua-socket.c`). Seen from outside this is one string of
bytes, wherever the nodes end.

A function returns `none` where the source reads outside the nodes or violates an assertion. The
pool of nodes that are not in use is not modelled.

## Main definitions

* `SocketBuffer` — `struct socket_buffer`
* `lpushbuffer`, `lpopbuffer`, `lreadall`, `lreadline` — the functions of the driver
* `SocketBuffer.contents` — the bytes of the buffer

## Main results

* `lpopbuffer_spec`, `lreadall_spec` — the front of the bytes, or all of them
* `lreadline_spec` — the bytes in front of the first separator
-/

namespace TestCluster.Skynet

open Semantics

/-- `struct socket_buffer` -/
structure SocketBuffer where
  size : ℕ
  offset : ℕ
  nodes : List Bytes
deriving DecidableEq

namespace SocketBuffer

/-- `lnewbuffer` -/
def empty : SocketBuffer := ⟨0, 0, []⟩

/-- The bytes of the buffer. -/
def contents (sb : SocketBuffer) : Bytes := sb.nodes.flatten.drop sb.offset

end SocketBuffer

/-- `lpushbuffer`, which returns the size of the buffer too. -/
def lpushbuffer (sb : SocketBuffer) (msg : Bytes) : SocketBuffer :=
  { sb with nodes := sb.nodes ++ [msg], size := sb.size + msg.length }

/-- The loop of `pop_lstring`: the string, and the nodes and the offset that are left. -/
def popLoop : List Bytes → ℕ → ℕ → ℕ → Option (Bytes × List Bytes × ℕ)
  | [], _, _, _ => none
  | current :: nodes, offset, sz, skip =>
    let bytes := current.length - offset
    if sz ≤ bytes then
      let str := if skip < sz then (current.drop offset).take (sz - skip) else []
      some (str, if bytes = sz then (nodes, 0) else (current :: nodes, offset + sz))
    else
      let str := if skip < sz then (current.drop offset).take (min (sz - skip) bytes) else []
      if sz - bytes = 0 then some (str, nodes, 0)
      else (popLoop nodes 0 (sz - bytes) skip).map fun r => (str ++ r.1, r.2)

/-- `pop_lstring`, without the size of the buffer. -/
def popLstring (nodes : List Bytes) (offset sz skip : ℕ) : Option (Bytes × List Bytes × ℕ) :=
  match nodes with
  | [] => none
  | current :: rest =>
    if sz < current.length - offset then
      some ((current.drop offset).take (sz - skip), nodes, offset + sz)
    else if sz = current.length - offset then
      some ((current.drop offset).take (sz - skip), rest, 0)
    else popLoop nodes offset sz skip

/-- `lpopbuffer` -/
def lpopbuffer (sb : SocketBuffer) (sz : ℕ) : Option (Option Bytes × SocketBuffer) :=
  if sb.size < sz ∨ sz = 0 then some (none, sb)
  else (popLstring sb.nodes sb.offset sz 0).map fun (str, nodes, offset) =>
    (some str, ⟨sb.size - sz, offset, nodes⟩)

/-- The loop of `lreadall`: the string, and the offset that is left. -/
def readallLoop : List Bytes → ℕ → Bytes × ℕ
  | [], offset => ([], offset)
  | current :: nodes, offset =>
    let r := readallLoop nodes 0
    (current.drop offset ++ r.1, r.2)

/-- `lreadall` -/
def lreadall (sb : SocketBuffer) : Bytes × SocketBuffer :=
  let r := readallLoop sb.nodes sb.offset
  (r.1, ⟨0, r.2, []⟩)

/-- `check_sep` -/
def checkSep : List Bytes → ℕ → Bytes → Option Bool
  | [], _, _ => none
  | node :: nodes, start, sep =>
    let sz := node.length - start
    if sz ≥ sep.length then some ((node.drop start).take sep.length == sep)
    else if 0 < sz ∧ (node.drop start).take sz ≠ sep.take sz then some false
    else checkSep nodes 0 (sep.drop sz)

/-- The loop of `lreadline`, with the number of rounds that are left: where the separator is. -/
def findSep (sep : Bytes) : ℕ → ℕ → List Bytes → ℕ → Option (Option ℕ)
  | 0, _, _, _ => some none
  | _ + 1, _, [], _ => none
  | count + 1, i, current :: nodes, start =>
    match checkSep (current :: nodes) start sep with
    | none => none
    | some true => some (some i)
    | some false =>
      if start + 1 = current.length then
        match nodes with
        | [] => some none
        | _ :: _ => findSep sep count (i + 1) nodes 0
      else findSep sep count (i + 1) (current :: nodes) (start + 1)

/-- The part of `lreadline` that finds the separator. -/
def SocketBuffer.find (sb : SocketBuffer) (sep : Bytes) : Option (Option ℕ) :=
  if sb.nodes = [] then some none else findSep sep (sb.size + 1 - sep.length) 0 sb.nodes sb.offset

/-- `lreadline` with a pool. Without one it says whether there is a separator. -/
def lreadline (sb : SocketBuffer) (sep : Bytes) : Option (Option Bytes × SocketBuffer) :=
  match sb.find sep with
  | none => none
  | some none => some (none, sb)
  | some (some i) =>
    (popLstring sb.nodes sb.offset (i + sep.length) sep.length).map fun (str, nodes, offset) =>
      (some str, ⟨sb.size - (i + sep.length), offset, nodes⟩)

/-- `lclearbuffer` -/
def lclearbuffer (sb : SocketBuffer) : SocketBuffer := (lreadall sb).2

/-- Every node has bytes that were not taken. -/
def NodesOk : List Bytes → ℕ → Prop
  | [], offset => offset = 0
  | node :: nodes, offset => offset < node.length ∧ ∀ n ∈ nodes, n ≠ []

/-- The size is that of the bytes, and every node has some of them. -/
structure SocketBuffer.Ok (sb : SocketBuffer) : Prop where
  nodes : NodesOk sb.nodes sb.offset
  size : sb.size = sb.contents.length

section Nodes

variable {node : Bytes} {nodes : List Bytes} {offset sz : ℕ}

theorem NodesOk.tail (h : NodesOk (node :: nodes) offset) : NodesOk nodes 0 := by
  cases nodes with
  | nil => rfl
  | cons next nodes =>
    obtain ⟨hnext, hnodes⟩ := List.forall_mem_cons.mp h.2
    exact ⟨List.length_pos_iff.mpr hnext, hnodes⟩

theorem drop_flatten_cons (h : offset ≤ node.length) :
    (node :: nodes).flatten.drop offset = node.drop offset ++ nodes.flatten := by
  rw [List.flatten_cons, List.drop_append_of_le_length h]

/-- Bytes are copied only where there are more than are skipped. -/
theorem take_if_lt {bytes : Bytes} {n : ℕ} (hn : sz - skip = 0 → n = 0) :
    (if skip < sz then bytes.take n else []) = bytes.take n := by
  split_ifs with h
  · rfl
  · rw [hn (by omega), List.take_zero]

/-- The loop takes bytes from the front, and all but `skip` of them are in the string. -/
theorem popLoop_spec (skip : ℕ) (hok : NodesOk nodes offset) (hpos : 0 < sz)
    (hle : sz ≤ (nodes.flatten.drop offset).length) :
    ∃ nodes' offset', popLoop nodes offset sz skip =
        some ((nodes.flatten.drop offset).take (sz - skip), nodes', offset') ∧
      NodesOk nodes' offset' ∧ nodes'.flatten.drop offset' = (nodes.flatten.drop offset).drop sz := by
  -- the loop goes on while a node has fewer bytes than are still wanted
  induction nodes generalizing offset sz with
  | nil =>
    rw [List.flatten_nil, List.drop_nil, List.length_nil] at hle
    omega
  | cons current nodes ih =>
    have hlt := hok.1
    have hbytes : (current.drop offset).length = current.length - offset := List.length_drop
    rw [drop_flatten_cons hlt.le] at hle ⊢
    rw [List.length_append] at hle
    rw [popLoop]
    dsimp only
    by_cases hfits : sz ≤ current.length - offset
    · rw [if_pos hfits, take_if_lt id, List.take_append_of_le_length (by omega)]
      -- the node is used up, or keeps what is behind the string
      by_cases hlast : current.length - offset = sz
      · refine ⟨nodes, 0, by rw [if_pos hlast], hok.tail, ?_⟩
        rw [← hlast, ← hbytes, List.drop_left, List.drop_zero]
      · refine ⟨current :: nodes, offset + sz, by rw [if_neg hlast], ⟨by omega, hok.2⟩, ?_⟩
        rw [drop_flatten_cons (by omega), ← List.drop_drop,
          List.drop_append_of_le_length (by omega)]
    · obtain ⟨nodes', offset', hloop, hok', hdrop⟩ :=
        @ih 0 (sz - (current.length - offset)) hok.tail (by omega) (by
          rw [List.drop_zero]
          omega)
      refine ⟨nodes', offset', ?_, hok', ?_⟩
      · rw [if_neg hfits, take_if_lt (by omega), if_neg (by omega), hloop, Option.map_some,
          List.drop_zero, List.take_append, hbytes, ← hbytes, ← List.take_eq_take_min,
          Nat.sub_right_comm]
      · -- nothing of this node is left
        have hall : (current.drop offset).drop sz = [] := List.drop_eq_nil_of_le (by omega)
        rw [hdrop, List.drop_zero, List.drop_append, hall, List.nil_append, hbytes]

/-- The first cases of `pop_lstring` are a round of the loop. -/
theorem popLstring_eq_popLoop :
    popLstring nodes offset sz skip = popLoop nodes offset sz skip := by
  cases nodes with
  | nil => rfl
  | cons current nodes =>
    rw [popLstring]
    split_ifs with hlt heq
    · rw [popLoop]
      dsimp only
      rw [if_pos hlt.le, take_if_lt id, if_neg (by omega)]
    · rw [popLoop]
      dsimp only
      rw [if_pos heq.le, take_if_lt id, if_pos heq.symm]
    · rfl

/-- A string is in front if its parts are. -/
theorem prefix_append_iff {xs ys sep : Bytes} (h : xs.length ≤ sep.length) :
    sep <+: xs ++ ys ↔ xs = sep.take xs.length ∧ sep.drop xs.length <+: ys := by
  constructor
  · rintro ⟨t, ht⟩
    have hxs : xs = sep.take xs.length := by
      have := congrArg (List.take xs.length) ht
      rw [List.take_left, List.take_append_of_le_length h] at this
      exact this.symm
    refine ⟨hxs, t, ?_⟩
    have := congrArg (List.drop xs.length) ht
    rwa [List.drop_left, List.drop_append_of_le_length h] at this
  · rintro ⟨hxs, t, ht⟩
    refine ⟨t, ?_⟩
    rw [← List.take_append_drop xs.length sep, ← hxs, List.append_assoc, ht]

/-- The separator is compared with the bytes from the start on, across the nodes. -/
theorem checkSep_spec {start : ℕ} {sep : Bytes} (hok : NodesOk nodes start) (hne : nodes ≠ [])
    (hle : sep.length ≤ (nodes.flatten.drop start).length) :
    checkSep nodes start sep = some (decide (sep <+: nodes.flatten.drop start)) := by
  induction nodes generalizing start sep with
  | nil => exact absurd rfl hne
  | cons node nodes ih =>
    have hlt := hok.1
    have hbytes : (node.drop start).length = node.length - start := List.length_drop
    rw [drop_flatten_cons hlt.le] at hle ⊢
    rw [List.length_append] at hle
    rw [checkSep, ← hbytes]
    split_ifs with hin hdiff
    · -- the separator ends in this node
      apply congrArg some
      rw [Bool.eq_iff_iff, beq_iff_eq, decide_eq_true_iff, List.prefix_iff_eq_take,
        List.take_append_of_le_length hin, eq_comm]
    · -- it differs from the bytes of this node
      have hnot : ¬ sep <+: node.drop start ++ nodes.flatten := by
        intro h
        apply hdiff.2
        rw [List.take_length]
        exact ((prefix_append_iff (by omega)).mp h).1
      rw [decide_eq_false hnot]
    · -- the node has a part of it, and the rest is compared with the next one
      have hsame : node.drop start = sep.take (node.drop start).length := by
        by_contra h
        apply hdiff
        rw [List.take_length]
        exact ⟨by omega, h⟩
      have hlen : (sep.drop (node.drop start).length).length ≤ nodes.flatten.length := by
        rw [List.length_drop]
        omega
      have hrest : nodes ≠ [] := by
        rintro rfl
        rw [List.flatten_nil, List.length_nil] at hle
        omega
      rw [ih hok.tail hrest (by rwa [List.drop_zero]), List.drop_zero]
      simp only [prefix_append_iff (Nat.le_of_not_le hin), ← hsame, true_and]

/-- The separator is here for the first time. -/
def IsFirst (sep bytes : Bytes) (i : ℕ) : Prop :=
  sep <+: bytes.drop i ∧ ∀ j < i, ¬ sep <+: bytes.drop j

theorem IsFirst.succ {sep bytes : Bytes} {k : ℕ} (h : IsFirst sep (bytes.drop 1) k)
    (hnot : ¬ sep <+: bytes) : IsFirst sep bytes (k + 1) := by
  refine ⟨by rw [Nat.add_comm, ← List.drop_drop]; exact h.1, fun j hj => ?_⟩
  cases j with
  | zero => rwa [List.drop_zero]
  | succ j =>
    rw [Nat.add_comm, ← List.drop_drop]
    exact h.2 j (by omega)

/-- What is found in all the bytes is found in those it is in. -/
theorem IsFirst.of_append {sep bytes rest : Bytes} {k : ℕ} (h : IsFirst sep (bytes ++ rest) k)
    (hk : sep <+: bytes.drop k) : IsFirst sep bytes k := by
  refine ⟨hk, fun j hj hpre => h.2 j hj (hpre.trans ?_)⟩
  rw [List.drop_append]
  exact List.prefix_append _ _

theorem NodesOk.pos (h : NodesOk nodes offset) (hne : nodes ≠ []) :
    0 < (nodes.flatten.drop offset).length := by
  cases nodes with
  | nil => exact absurd rfl hne
  | cons node nodes =>
    have hlt := h.1
    rw [drop_flatten_cons hlt.le, List.length_append, List.length_drop]
    omega

/-- Where the separator is not at the start, the loop goes on behind the first byte, or it has come
to the last. -/
theorem findSep_step {start : ℕ} {sep : Bytes} (i count : ℕ) (hok : NodesOk nodes start)
    (hne : nodes ≠ []) (hcheck : checkSep nodes start sep = some false) :
    (findSep sep (count + 1) i nodes start = some none ∧ (nodes.flatten.drop start).drop 1 = []) ∨
      ∃ nodes' start', NodesOk nodes' start' ∧ nodes' ≠ [] ∧
        nodes'.flatten.drop start' = (nodes.flatten.drop start).drop 1 ∧
          findSep sep (count + 1) i nodes start = findSep sep count (i + 1) nodes' start' := by
  cases nodes with
  | nil => exact absurd rfl hne
  | cons current nodes =>
    have hlt := hok.1
    simp only [findSep, hcheck, List.drop_drop]
    split_ifs with hlast
    · rw [hlast, drop_flatten_cons le_rfl, List.drop_length, List.nil_append]
      cases nodes with
      | nil => exact .inl ⟨rfl, rfl⟩
      | cons next nodes => exact .inr ⟨next :: nodes, 0, hok.tail, nofun, rfl, rfl⟩
    · exact .inr ⟨current :: nodes, start + 1, ⟨by omega, hok.2⟩, nofun, rfl, rfl⟩

/-- The rounds find the first separator, if there is one. -/
theorem findSep_spec {start i len : ℕ} {sep : Bytes} (hok : NodesOk nodes start) (hne : nodes ≠ [])
    (hlen : (nodes.flatten.drop start).length = len) :
    (∃ k, findSep sep (len + 1 - sep.length) i nodes start = some (some (i + k)) ∧
        IsFirst sep (nodes.flatten.drop start) k) ∨
      (findSep sep (len + 1 - sep.length) i nodes start = some none ∧
        ∀ k, ¬ sep <+: (nodes.flatten.drop start).drop k) := by
  -- a round moves the start by one byte, into the next node if need be
  induction len generalizing nodes start i with
  | zero => exact absurd hlen (hok.pos hne).ne'
  | succ len ih =>
    rcases Nat.lt_or_ge (len + 1) sep.length with hlong | hle
    · refine .inr ⟨by rw [Nat.sub_eq_zero_of_le (by omega)]; rfl, fun k h => ?_⟩
      -- fewer bytes are left than the separator has
      have hpre := h.length_le
      rw [List.length_drop] at hpre
      omega
    · have hcheck : checkSep nodes start sep = some (decide (sep <+: nodes.flatten.drop start)) :=
        checkSep_spec hok hne (by omega)
      rw [show len + 1 + 1 - sep.length = len + 1 - sep.length + 1 by omega]
      by_cases hhere : sep <+: nodes.flatten.drop start
      · refine .inl ⟨0, ?_, by rwa [List.drop_zero], nofun⟩
        rw [decide_eq_true hhere] at hcheck
        cases nodes with
        | nil => exact absurd rfl hne
        | cons current nodes => simp only [findSep, hcheck, Nat.add_zero]
      · rw [decide_eq_false hhere] at hcheck
        rcases findSep_step i (len + 1 - sep.length) hok hne hcheck with
          ⟨hend, hnil⟩ | ⟨nodes', start', hok', hne', hdrop, heq⟩
        · refine .inr ⟨hend, fun k h => ?_⟩
          cases k with
          | zero => exact hhere (by rwa [List.drop_zero] at h)
          | succ k =>
            rw [Nat.add_comm, ← List.drop_drop, hnil, List.drop_nil, List.prefix_nil] at h
            exact hhere (h ▸ List.nil_prefix)
        · have hlen' : (nodes'.flatten.drop start').length = len := by
            rw [hdrop, List.length_drop, hlen]
            rfl
          rw [heq]
          rcases ih (i := i + 1) hok' hne' hlen' with ⟨k, hfind, hfirst⟩ | ⟨hnone, hnot⟩
          · refine .inl ⟨k + 1, by rw [hfind, Nat.add_right_comm, Nat.add_assoc], ?_⟩
            rw [hdrop] at hfirst
            exact hfirst.succ hhere
          · refine .inr ⟨hnone, fun k h => ?_⟩
            cases k with
            | zero => exact hhere (by rwa [List.drop_zero] at h)
            | succ k =>
              rw [Nat.add_comm, ← List.drop_drop, ← hdrop] at h
              exact hnot k h

end Nodes

/-! ### The buffer as a string -/

section Buffer

variable {sb : SocketBuffer} {sz : ℕ} {sep msg : Bytes}

theorem SocketBuffer.ok_empty : SocketBuffer.empty.Ok := ⟨rfl, rfl⟩

theorem NodesOk.le {nodes : List Bytes} {offset : ℕ} (h : NodesOk nodes offset) :
    offset ≤ nodes.flatten.length := by
  cases nodes with
  | nil => exact Nat.le_of_eq h
  | cons node nodes =>
    have hlt := h.1
    rw [List.flatten_cons, List.length_append]
    omega

theorem NodesOk.push {nodes : List Bytes} {offset : ℕ} (h : NodesOk nodes offset)
    (hmsg : msg ≠ []) : NodesOk (nodes ++ [msg]) offset := by
  cases nodes with
  | nil =>
    obtain rfl : offset = 0 := h
    exact ⟨List.length_pos_iff.mpr hmsg, nofun⟩
  | cons node nodes =>
    refine ⟨h.1, fun n hn => ?_⟩
    rcases List.mem_append.mp hn with hn | hn
    · exact h.2 n hn
    · rwa [List.mem_singleton.mp hn]

theorem SocketBuffer.Ok.eq_empty (h : sb.Ok) (hnil : sb.contents = []) : sb = .empty := by
  obtain ⟨size, offset, nodes⟩ := sb
  cases nodes with
  | nil =>
    obtain rfl : offset = 0 := h.nodes
    obtain rfl : size = 0 := h.size
    rfl
  | cons node nodes =>
    have hpos := h.nodes.pos (List.cons_ne_nil _ _)
    exact absurd (List.length_eq_zero_iff.mpr hnil) hpos.ne'

/-- A message is put behind the bytes. -/
theorem contents_lpushbuffer (h : sb.Ok) : (lpushbuffer sb msg).contents = sb.contents ++ msg := by
  show (sb.nodes ++ [msg]).flatten.drop sb.offset = sb.nodes.flatten.drop sb.offset ++ msg
  rw [List.flatten_append, List.drop_append_of_le_length h.nodes.le, List.flatten_singleton]

theorem SocketBuffer.Ok.push (h : sb.Ok) (hmsg : msg ≠ []) : (lpushbuffer sb msg).Ok := by
  refine ⟨h.nodes.push hmsg, ?_⟩
  rw [contents_lpushbuffer h, List.length_append, ← h.size]
  rfl

/-- Bytes are taken from the front, and all but `skip` of them are in the string. -/
theorem popLstring_spec (skip : ℕ) (h : sb.Ok) (hpos : 0 < sz) (hle : sz ≤ sb.contents.length) :
    ∃ nodes offset, popLstring sb.nodes sb.offset sz skip =
        some (sb.contents.take (sz - skip), nodes, offset) ∧
      (SocketBuffer.mk (sb.size - sz) offset nodes).Ok ∧
        (SocketBuffer.mk (sb.size - sz) offset nodes).contents = sb.contents.drop sz := by
  obtain ⟨nodes, offset, hloop, hok, hdrop⟩ := popLoop_spec skip h.nodes hpos hle
  refine ⟨nodes, offset, ?_, ⟨hok, ?_⟩, hdrop⟩
  · rw [popLstring_eq_popLoop, hloop]
    rfl
  · show sb.size - sz = (nodes.flatten.drop offset).length
    rw [hdrop, List.length_drop, h.size]
    rfl

/-- **So many bytes are taken from the front**, if there are as many and they are not none. -/
theorem lpopbuffer_spec (h : sb.Ok) (sz : ℕ) :
    (lpopbuffer sb sz = some (none, sb) ∧ (sb.contents.length < sz ∨ sz = 0)) ∨
      ∃ sb', lpopbuffer sb sz = some (some (sb.contents.take sz), sb') ∧ sb'.Ok ∧
        sb'.contents = sb.contents.drop sz ∧ 0 < sz ∧ sz ≤ sb.contents.length := by
  rw [lpopbuffer, h.size]
  split_ifs with hfew
  · exact .inl ⟨rfl, hfew⟩
  · obtain ⟨nodes, offset, hpop, hok, hcontents⟩ :=
      popLstring_spec 0 h (by omega : 0 < sz) (by omega)
    refine .inr ⟨⟨sb.size - sz, offset, nodes⟩, ?_, hok, hcontents, by omega, by omega⟩
    rw [hpop, ← h.size]
    rfl

theorem readallLoop_eq {nodes : List Bytes} {offset : ℕ} (h : NodesOk nodes offset) :
    readallLoop nodes offset = (nodes.flatten.drop offset, 0) := by
  induction nodes generalizing offset with
  | nil =>
    obtain rfl : offset = 0 := h
    rfl
  | cons node nodes ih =>
    rw [readallLoop, ih h.tail, drop_flatten_cons h.1.le, List.drop_zero]

/-- All bytes are taken. -/
theorem lreadall_spec (h : sb.Ok) : lreadall sb = (sb.contents, .empty) := by
  rw [lreadall, readallLoop_eq h.nodes]
  rfl

/-- The separator that is found is the first. -/
theorem find_spec (h : sb.Ok) (sep : Bytes) :
    (sb.find sep = some none ∧ (sb.nodes = [] ∨ ∀ k, ¬ sep <+: sb.contents.drop k)) ∨
      ∃ k, sb.find sep = some (some k) ∧ IsFirst sep sb.contents k ∧ sb.nodes ≠ [] := by
  rw [SocketBuffer.find]
  split_ifs with hnil
  · exact .inl ⟨rfl, .inl hnil⟩
  · rw [h.size]
    rcases findSep_spec (i := 0) h.nodes hnil rfl with ⟨k, hfind, hfirst⟩ | ⟨hnone, hnot⟩
    · exact .inr ⟨k, by rw [← Nat.zero_add k]; exact hfind, hfirst, hnil⟩
    · exact .inl ⟨hnone, .inr hnot⟩

/-- **A line is the bytes in front of the first separator**, which is taken too. -/
theorem lreadline_spec (h : sb.Ok) (hsep : sep ≠ []) :
    (lreadline sb sep = some (none, sb) ∧ sb.find sep = some none ∧
        ∀ k, ¬ sep <+: sb.contents.drop k) ∨
      ∃ line sb', lreadline sb sep = some (some line, sb') ∧ sb'.Ok ∧
        sb.contents = line ++ sep ++ sb'.contents ∧ IsFirst sep sb.contents line.length ∧
          ∃ k, sb.find sep = some (some k) := by
  rcases find_spec h sep with ⟨hnone, hnot⟩ | ⟨k, hfind, hfirst, hne⟩
  · refine .inl ⟨by rw [lreadline, hnone], hnone, ?_⟩
    rcases hnot with hnil | hnot
    · intro k hk
      rw [SocketBuffer.contents, hnil, List.flatten_nil, List.drop_nil, List.drop_nil,
        List.prefix_nil] at hk
      exact hsep hk
    · exact hnot
  · -- the line and the separator are popped, and the separator is left out
    obtain ⟨t, ht⟩ := hfirst.1
    have hpos : 0 < sep.length := List.length_pos_iff.mpr hsep
    have hlen : k + sep.length ≤ sb.contents.length := by
      have := congrArg List.length ht
      rw [List.length_append, List.length_drop] at this
      omega
    obtain ⟨nodes, offset, hpop, hok, hcontents⟩ :=
      popLstring_spec sep.length h (by omega : 0 < k + sep.length) hlen
    rw [Nat.add_sub_cancel] at hpop
    have hline : (sb.contents.take k).length = k := List.length_take_of_le (by omega)
    refine .inr ⟨sb.contents.take k, ⟨sb.size - (k + sep.length), offset, nodes⟩, ?_, hok, ?_, ?_,
      k, hfind⟩
    · rw [lreadline, hfind]
      dsimp only
      rw [hpop]
      rfl
    · rw [hcontents, ← List.drop_drop, ← ht, List.drop_left, List.append_assoc, ht,
        List.take_append_drop]
    · rwa [hline]

end Buffer

end TestCluster.Skynet
