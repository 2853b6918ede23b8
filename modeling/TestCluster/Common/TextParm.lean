import TestCluster.Semantics.Decimal

/-!
# Text parameters

`TextParm` of `Pack.h` and `Pack.cpp`: a map of strings that is written as a text of the form
`key=value key=value `, without an escape for the separators. Reading copies each key and each
value into a buffer of a fixed size first.

The characters of a stream that are left are what the index of the loops stands for: it is moved
by taking the first of them away. The memory behind a stream ends with a terminator.

## Main definitions

* `TextParm` — the map, and the text it was last written to or read from
* `TextParm.serilize`, `TextParm.deserilize` — the map is written and read
* `TextParm.insertInt`, `TextParm.getInt`, `TextParm.insertUint`, `TextParm.getUint` — numbers
  in the map
* `Writable` — the maps whose text says what they are

## Main results

* `TextParm.deserilize_serilize` — a written map is read back, and reading comes to an end
* `TextParm.inBounds_iff` — where the buffers are large enough
-/

namespace TestCluster.Common

open Semantics

/-- The size of the buffers, and the length of the longest stream. -/
def textLimit : ℕ := 10000

/-- `' '` -/
def space : UInt8 := 32

/-- `'='` -/
def equals : UInt8 := 61

/-- `std::map<std::string, std::string>`. -/
abbrev StringMap := Std.ExtTreeMap Bytes Bytes

/-- The characters in front of the first terminator. -/
def upToNul (s : Bytes) : Bytes := s.takeWhile (· ≠ 0)

/-- A loop that copies characters up to `stop`: the buffer, the number of characters in it, and
what is left. -/
def copyUntil (stop : UInt8) : Bytes → Buffer → ℕ → Except Fault (Buffer × ℕ × Bytes)
  | [], text, n => .ok (text, n, [])
  | c :: rest, text, n =>
    if c = stop then
      .ok (text, n, c :: rest)
    else do
      let text ← text.write n [c]
      copyUntil stop rest text (n + 1)

/-- One field: it is copied and terminated, and what stopped the copying is skipped. With the
buffer, the string that it holds, and what is left. -/
def copyField (stop : UInt8) (rest : Bytes) (text : Buffer) :
    Except Fault (Buffer × Bytes × Bytes) := do
  let (text, n, rest) ← copyUntil stop rest text 0
  let text ← text.write n [0]
  let field ← text.read 0 (n + 1)
  return (text, upToNul field, rest.tail)

/-- The loop of `deserilize`, for at most as many rounds as the first argument says; `none` if
it has not come to its end. -/
def scan : ℕ → Bytes → (key value : Buffer) → StringMap → Except Fault (Option StringMap)
  | _, [], _, _, tempMap => .ok (some tempMap)
  | 0, _ :: _, _, _, _ => .ok none
  | rounds + 1, c :: rest, key, value, tempMap =>
    if c = space then
      scan rounds rest key value tempMap
    else do
      let (key, k, rest) ← copyField equals (c :: rest) key
      let (value, v, rest) ← copyField space rest value
      scan rounds rest key value (tempMap.insert k v)

/-- A `TextParm`: `m_data` and `m_stream`. -/
structure TextParm where
  data : StringMap
  stream : Bytes

namespace TextParm

variable (p : TextParm)

/-- `TextParm::deserilize`. -/
def deserilize (stream : Bytes) (len : ℕ) : Except Fault (Option TextParm) :=
  if len > textLimit then
    .ok (some p)
  else do
    let rest ← readAt stream 0 len
    match ← scan len rest (Buffer.alloc textLimit) (Buffer.alloc textLimit) ∅ with
    | none => return none
    | some tempMap => return some ⟨tempMap, upToNul stream⟩

/-- `TextParm::serilize`. -/
def serilize : TextParm where
  data := p.data
  stream := p.data.foldl (fun s key value => s ++ key ++ [equals] ++ value ++ [space]) []

/-- `serilize_size`. -/
def serilizeSize : ℕ := p.stream.length

/-- A number is printed into a buffer of ten bytes, and becomes the value of a key. -/
def insertNumber (key : Bytes) (n : ℤ) : Except Fault TextParm := do
  let v ← (Buffer.alloc 10).write 0 (decimal n ++ [0])
  let text ← v.read 0 ((decimal n).length + 1)
  return { p with data := p.data.insert key (upToNul text) }

/-- `insert_int`. -/
def insertInt (key : Bytes) (value : Int32) : Except Fault TextParm :=
  p.insertNumber key value.toInt

/-- `insert_uint`. -/
def insertUint (key : Bytes) (value : UInt32) : Except Fault TextParm :=
  p.insertNumber key value.toNat

/-- `get_string`. -/
def getString (key : Bytes) : Bytes := p.data[key]?.getD []

/-- `get_int`. -/
def getInt (key : Bytes) : ℤ := atoi (p.getString key)

/-- `get_uint`. -/
def getUint (key : Bytes) : ℕ := toUInt32 (strtoul (p.getString key))

end TextParm

/-! ### One field -/

section Field

variable (stop : UInt8) {text : Buffer} {size n : ℕ} {pre : Bytes}

theorem upToNul_terminated (s : Bytes) : upToNul (s ++ [0]) = upToNul s := by
  induction s with
  | nil => rfl
  | cons c s ih =>
    rw [upToNul] at ih ⊢
    rw [List.cons_append, upToNul, List.takeWhile_cons, List.takeWhile_cons, ih, upToNul]

theorem upToNul_of_notMem {s : Bytes} (h : 0 ∉ s) : upToNul s = s :=
  List.takeWhile_eq_self_iff.mpr fun _ hc => decide_eq_true fun hzero => h (hzero ▸ hc)

/-- The characters up to `stop` are in the buffer, where they fit. -/
theorem copyUntil_eq (h : text.Filled size pre) (rest : Bytes)
    (hfit : pre.length + (rest.takeWhile (· ≠ stop)).length ≤ size) :
    ∃ text', copyUntil stop rest text pre.length =
        .ok (text', (pre ++ rest.takeWhile (· ≠ stop)).length, rest.dropWhile (· ≠ stop)) ∧
      text'.Filled size (pre ++ rest.takeWhile (· ≠ stop)) := by
  induction rest generalizing text pre with
  | nil => exact ⟨text, by simp [copyUntil], by simpa using h⟩
  | cons c rest ih =>
    by_cases hstop : c = stop
    · exact ⟨text, by simp [copyUntil, hstop], by simpa [hstop] using h⟩
    · have htake : (c :: rest).takeWhile (· ≠ stop) = c :: rest.takeWhile (· ≠ stop) := by
        simp [hstop]
      have hdrop : (c :: rest).dropWhile (· ≠ stop) = rest.dropWhile (· ≠ stop) := by
        simp [hstop]
      rw [htake, List.length_cons] at hfit
      obtain ⟨text₁, hwrite, hfilled⟩ := h.write pre.length [c] rfl
        (by rw [List.length_singleton]; omega)
      obtain ⟨text', hcopy, hfilled'⟩ := ih hfilled
        (by rw [List.length_append, List.length_singleton]; omega)
      rw [List.append_assoc, List.singleton_append] at hcopy hfilled'
      rw [htake, hdrop]
      refine ⟨text', ?_, hfilled'⟩
      rw [List.length_append, List.length_singleton] at hcopy
      rw [copyUntil, if_neg hstop, hwrite, ok_bind, hcopy]

theorem copyUntil_start (hsize : text.size = size) (rest : Bytes)
    (hfit : (rest.takeWhile (· ≠ stop)).length ≤ size) :
    ∃ text', copyUntil stop rest text 0 =
        .ok (text', (rest.takeWhile (· ≠ stop)).length, rest.dropWhile (· ≠ stop)) ∧
      text'.Filled size (rest.takeWhile (· ≠ stop)) := by
  have hempty : text.Filled size [] :=
    ⟨hsize, Nat.zero_le _, fun _ h => absurd h (Nat.not_lt_zero _)⟩
  exact copyUntil_eq stop hempty rest (by rw [List.length_nil]; omega)

/-- Characters that do not fit leave the buffer. -/
theorem copyUntil_overflow (rest : Bytes)
    (hover : text.size < n + (rest.takeWhile (· ≠ stop)).length) (hn : n ≤ text.size) :
    copyUntil stop rest text n = .error .outOfBounds := by
  induction rest generalizing text n with
  | nil =>
    rw [List.takeWhile_nil, List.length_nil] at hover
    omega
  | cons c rest ih =>
    by_cases hstop : c = stop
    · simp only [hstop, ne_eq, not_true_eq_false, decide_false, Bool.false_eq_true,
        not_false_eq_true, List.takeWhile_cons_of_neg, List.length_nil] at hover
      omega
    · have htake : (c :: rest).takeWhile (· ≠ stop) = c :: rest.takeWhile (· ≠ stop) := by
        simp [hstop]
      rw [htake, List.length_cons] at hover
      rw [copyUntil, if_neg hstop]
      by_cases hfit : n + [c].length ≤ text.size
      · rw [Buffer.write_eq_ok hfit, ok_bind]
        exact ih (by rw [Buffer.size_set]; omega) hfit
      · rw [Buffer.write, if_neg hfit, error_bind]

/-- A field and its terminator fit. -/
theorem copyField_eq (hsize : text.size = size) (rest : Bytes)
    (hfit : (rest.takeWhile (· ≠ stop)).length < size) :
    ∃ text', text'.size = size ∧ copyField stop rest text =
      .ok (text', upToNul (rest.takeWhile (· ≠ stop)), (rest.dropWhile (· ≠ stop)).tail) := by
  obtain ⟨text₁, hcopy, hfilled⟩ := copyUntil_start stop hsize rest hfit.le
  obtain ⟨text', hwrite, hfilled'⟩ := hfilled.write _ [0] rfl
    (by rw [List.length_singleton]; omega)
  have hread := hfilled'.read ((rest.takeWhile (· ≠ stop)).length + 1)
    (by rw [List.length_append, List.length_singleton])
  refine ⟨text', hfilled'.size_eq, ?_⟩
  simp only [copyField, hcopy, hwrite, hread, ok_bind, pure_eq_ok, upToNul_terminated]

/-- A field that does not fit with its terminator leaves the buffer. -/
theorem copyField_overflow (hsize : text.size = size) (rest : Bytes)
    (hover : size ≤ (rest.takeWhile (· ≠ stop)).length) :
    copyField stop rest text = .error .outOfBounds := by
  rcases Nat.eq_or_lt_of_le hover with heq | hlt
  · obtain ⟨text₁, hcopy, hfilled⟩ := copyUntil_start stop hsize rest heq.ge
    -- the characters fit, and the terminator behind them does not
    have hwrite : text₁.write (rest.takeWhile (· ≠ stop)).length [0] = .error .outOfBounds := by
      rw [Buffer.write, if_neg (by rw [hfilled.size_eq, List.length_singleton]; omega)]
    simp only [copyField, hcopy, hwrite, ok_bind, error_bind]
  · rw [copyField, copyUntil_overflow stop rest (by omega) (Nat.zero_le _), error_bind]

theorem length_of_copyUntil {rest rest' : Bytes} {text' : Buffer} {n' : ℕ}
    (h : copyUntil stop rest text n = .ok (text', n', rest')) : rest'.length ≤ rest.length := by
  induction rest generalizing text n with
  | nil =>
    cases h
    exact le_rfl
  | cons c rest ih =>
    rw [copyUntil] at h
    split_ifs at h
    · cases h
      exact le_rfl
    · cases hwrite : text.write n [c] with
      | ok text₁ =>
        rw [hwrite, ok_bind] at h
        exact (ih h).trans (Nat.le_succ _)
      | error e =>
        rw [hwrite, error_bind] at h
        cases h

/-- Copying a field moves on by one character at least. -/
theorem length_of_copyField {rest rest' field : Bytes} {text' : Buffer}
    (h : copyField stop rest text = .ok (text', field, rest')) :
    rest'.length ≤ rest.length - 1 := by
  unfold copyField at h
  cases hcopy : copyUntil stop rest text 0 with
  | error e =>
    rw [hcopy, error_bind] at h
    cases h
  | ok r =>
    obtain ⟨text₁, n, rest₁⟩ := r
    rw [hcopy, ok_bind] at h
    cases hwrite : text₁.write n [0] with
    | error e =>
      simp only [hwrite, error_bind] at h
      cases h
    | ok text₂ =>
      simp only [hwrite, ok_bind] at h
      cases hread : text₂.read 0 (n + 1) with
      | error e =>
        rw [hread, error_bind] at h
        cases h
      | ok bytes =>
        rw [hread, ok_bind] at h
        cases h
        rw [List.length_tail]
        exact Nat.sub_le_sub_right (length_of_copyUntil stop hcopy) 1

end Field

/-! ### The loop -/

section Loop

variable {rounds : ℕ} {rest : Bytes} {key value : Buffer} {tempMap : StringMap}

theorem scan_nil (rounds : ℕ) (key value : Buffer) (tempMap : StringMap) :
    scan rounds [] key value tempMap = .ok (some tempMap) := by
  cases rounds <;> rfl

/-- A round that reads an entry. -/
theorem scan_entry (hne : rest ≠ []) (hhead : rest.head? ≠ some space) :
    scan (rounds + 1) rest key value tempMap = (do
      let (key, k, rest) ← copyField equals rest key
      let (value, v, rest) ← copyField space rest value
      scan rounds rest key value (tempMap.insert k v)) := by
  cases rest with
  | nil => exact absurd rfl hne
  | cons c rest =>
    have hspace : c ≠ space := fun h => hhead (h ▸ rfl)
    rw [scan, if_neg hspace]

/-- An entry whose fields fit is put into the map, and the loop goes on behind it. -/
theorem scan_entry_eq (rounds : ℕ) (tempMap : StringMap) (hne : rest ≠ [])
    (hhead : rest.head? ≠ some space)
    (hkey : key.size = textLimit) (hvalue : value.size = textLimit) {tail : Bytes}
    (htail : (rest.dropWhile (· ≠ equals)).tail = tail)
    (hfit : (rest.takeWhile (· ≠ equals)).length < textLimit)
    (hfit' : (tail.takeWhile (· ≠ space)).length < textLimit) :
    ∃ key' value' : Buffer, key'.size = textLimit ∧ value'.size = textLimit ∧
      scan (rounds + 1) rest key value tempMap =
        scan rounds (tail.dropWhile (· ≠ space)).tail key' value'
          (tempMap.insert (upToNul (rest.takeWhile (· ≠ equals)))
            (upToNul (tail.takeWhile (· ≠ space)))) := by
  obtain ⟨key', hkey', hk⟩ := copyField_eq equals hkey rest hfit
  obtain ⟨value', hvalue', hv⟩ := copyField_eq space hvalue tail hfit'
  refine ⟨key', value', hkey', hvalue', ?_⟩
  rw [scan_entry hne hhead, hk, ok_bind]
  simp only [htail, hv, ok_bind]

/-- The loop comes to its end in as many rounds as there are characters. -/
theorem scan_terminates (h : rest.length ≤ rounds) (key value : Buffer) (tempMap : StringMap) :
    scan rounds rest key value tempMap ≠ .ok none := by
  induction rounds generalizing rest key value tempMap with
  | zero =>
    rw [List.length_eq_zero_iff.mp (Nat.le_zero.mp h), scan_nil]
    intro hnone
    cases hnone
  | succ rounds ih =>
    cases rest with
    | nil =>
      rw [scan_nil]
      intro hnone
      cases hnone
    | cons c rest =>
      rw [List.length_cons] at h
      rw [scan]
      split_ifs with hspace
      · exact ih (by omega) key value tempMap
      · cases hk : copyField equals (c :: rest) key with
        | error e =>
          rw [error_bind]
          intro hnone
          cases hnone
        | ok r =>
          obtain ⟨key', k, rest₁⟩ := r
          have hlen := length_of_copyField equals hk
          rw [List.length_cons] at hlen
          simp only [ok_bind]
          cases hv : copyField space rest₁ value with
          | error e =>
            rw [error_bind]
            intro hnone
            cases hnone
          | ok r =>
            obtain ⟨value', v, rest₂⟩ := r
            have hlen' := length_of_copyField space hv
            simp only [ok_bind]
            exact ih (by omega) key' value' _

theorem length_takeWhile_le (stop : UInt8) (rest : Bytes) :
    (rest.takeWhile (· ≠ stop)).length ≤ rest.length :=
  (List.takeWhile_sublist _).length_le

theorem length_skip_le (stop : UInt8) (rest : Bytes) :
    ((rest.dropWhile (· ≠ stop)).tail).length ≤ rest.length - 1 := by
  rw [List.length_tail]
  exact Nat.sub_le_sub_right (List.dropWhile_sublist _).length_le 1

/-- A stream that is shorter than the buffers is read. -/
theorem scan_of_lt (h : rest.length ≤ rounds) (hlt : rest.length < textLimit)
    (hkey : key.size = textLimit) (hvalue : value.size = textLimit) (tempMap : StringMap) :
    ∃ m, scan rounds rest key value tempMap = .ok (some m) := by
  induction rounds generalizing rest key value tempMap with
  | zero =>
    rw [List.length_eq_zero_iff.mp (Nat.le_zero.mp h), scan_nil]
    exact ⟨_, rfl⟩
  | succ rounds ih =>
    by_cases hne : rest = []
    · rw [hne, scan_nil]
      exact ⟨_, rfl⟩
    · have hpos := List.length_pos_iff.mpr hne
      by_cases hhead : rest.head? = some space
      · obtain ⟨rest', rfl⟩ := List.head?_eq_some_iff.mp hhead
        rw [List.length_cons] at h hlt
        rw [scan, if_pos rfl]
        exact ih (by omega) (by omega) hkey hvalue tempMap
      · have htake := length_takeWhile_le equals rest
        have htail := length_skip_le equals rest
        have htake' := length_takeWhile_le space (rest.dropWhile (· ≠ equals)).tail
        have htail' := length_skip_le space (rest.dropWhile (· ≠ equals)).tail
        obtain ⟨key', value', hkey', hvalue', hscan⟩ := scan_entry_eq rounds tempMap hne hhead
          hkey hvalue rfl (by omega) (by omega)
        rw [hscan]
        exact ih (by omega) (by omega) hkey' hvalue' _

end Loop

/-! ### A map that is written and read -/

/-- The text of an entry. -/
def entryText (e : Bytes × Bytes) : Bytes := e.1 ++ equals :: (e.2 ++ [space])

/-- An entry whose text says where its key and its value end. -/
structure PlainEntry (e : Bytes × Bytes) : Prop where
  key : equals ∉ e.1 ∧ 0 ∉ e.1 ∧ e.1.head? ≠ some space
  value : space ∉ e.2 ∧ 0 ∉ e.2

/-- A map whose text says what it is. -/
def Writable (m : StringMap) : Prop := ∀ k v, m[k]? = some v → PlainEntry (k, v)

section Entries

variable {stop : UInt8} {s : Bytes}

/-- What stands in front of the first `stop`. -/
theorem takeWhile_stop (h : stop ∉ s) (rest : Bytes) :
    (s ++ stop :: rest).takeWhile (· ≠ stop) = s := by
  have hall : ∀ c ∈ s, decide (c ≠ stop) = true := by
    intro c hc
    exact decide_eq_true fun heq => h (heq ▸ hc)
  rw [List.takeWhile_append_of_pos hall, List.takeWhile_cons_of_neg (by simp), List.append_nil]

/-- What is left when the first `stop` is skipped. -/
theorem dropWhile_stop (h : stop ∉ s) (rest : Bytes) :
    ((s ++ stop :: rest).dropWhile (· ≠ stop)).tail = rest := by
  have hall : ∀ c ∈ s, decide (c ≠ stop) = true := by
    intro c hc
    exact decide_eq_true fun heq => h (heq ▸ hc)
  rw [List.dropWhile_append_of_pos hall, List.dropWhile_cons_of_neg (by simp), List.tail_cons]

theorem entryText_append (e : Bytes × Bytes) (rest : Bytes) :
    entryText e ++ rest = e.1 ++ equals :: (e.2 ++ space :: rest) := by
  simp [entryText]

theorem PlainEntry.head?_entryText {e : Bytes × Bytes} (h : PlainEntry e) (rest : Bytes) :
    (entryText e ++ rest).head? ≠ some space := by
  rw [entryText_append]
  cases hcons : e.1 with
  | nil =>
    rw [List.nil_append, List.head?_cons]
    decide
  | cons c k =>
    have hhead := h.key.2.2
    rwa [hcons, List.head?_cons] at hhead

/-- The entries of a text are put into the map one after the other. -/
theorem scan_entries {l : List (Bytes × Bytes)} (hplain : ∀ e ∈ l, PlainEntry e) {rounds : ℕ}
    {key value : Buffer} (hrounds : (l.flatMap entryText).length ≤ rounds)
    (hlt : (l.flatMap entryText).length < textLimit) (hkey : key.size = textLimit)
    (hvalue : value.size = textLimit) (m : StringMap) :
    scan rounds (l.flatMap entryText) key value m =
      .ok (some (l.foldl (fun m e => m.insert e.1 e.2) m)) := by
  induction l generalizing rounds key value m with
  | nil => exact scan_nil rounds key value m
  | cons e l ih =>
    obtain ⟨he, hl⟩ := List.forall_mem_cons.mp hplain
    have hlen : (entryText e).length = e.1.length + e.2.length + 2 := by
      simp [entryText]
      omega
    rw [List.flatMap_cons, List.length_append, hlen] at hrounds hlt
    obtain ⟨rounds, rfl⟩ : ∃ n, rounds = n + 1 := ⟨rounds - 1, by omega⟩
    have hhead := he.head?_entryText (l.flatMap entryText)
    rw [List.flatMap_cons, entryText_append]
    rw [entryText_append] at hhead
    -- the key ends at its separator, and the value at the next one
    have hfit : ((e.1 ++ equals :: (e.2 ++ space :: l.flatMap entryText)).takeWhile
        (· ≠ equals)).length < textLimit := by
      rw [takeWhile_stop he.key.1]
      omega
    have hfit' : ((e.2 ++ space :: l.flatMap entryText).takeWhile (· ≠ space)).length <
        textLimit := by
      rw [takeWhile_stop he.value.1]
      omega
    obtain ⟨key', value', hkey', hvalue', hscan⟩ := scan_entry_eq rounds m (by simp) hhead
      hkey hvalue (dropWhile_stop he.key.1 _) hfit hfit'
    rw [hscan, takeWhile_stop he.key.1, takeWhile_stop he.value.1, dropWhile_stop he.value.1,
      upToNul_of_notMem he.key.2.1, upToNul_of_notMem he.value.2, List.foldl_cons]
    exact ih hl (by omega) (by omega) hkey' hvalue' _

end Entries

namespace TextParm

variable {p : TextParm}

theorem serilize_stream (p : TextParm) :
    p.serilize.stream = p.data.toList.flatMap entryText := by
  have hloop : ∀ (l : List (Bytes × Bytes)) (s : Bytes),
      l.foldl (fun s e => s ++ e.1 ++ [equals] ++ e.2 ++ [space]) s =
        s ++ l.flatMap entryText := by
    intro l
    induction l with
    | nil =>
      intro s
      rw [List.foldl_nil, List.flatMap_nil, List.append_nil]
    | cons e l ih =>
      intro s
      rw [List.foldl_cons, ih, List.flatMap_cons]
      simp [entryText]
  rw [serilize, Std.ExtTreeMap.foldl_eq_foldl_toList, hloop, List.nil_append]

/-- The entries of a map, put into an empty one, are the map. -/
theorem foldl_insert_toList (m : StringMap) :
    m.toList.foldl (fun m e => m.insert e.1 e.2) (∅ : StringMap) = m := by
  rw [← Std.ExtTreeMap.ofList_eq_foldl]
  apply Std.ExtTreeMap.ext_getElem?
  intro k
  cases hk : m[k]? with
  | some v =>
    exact Std.ExtTreeMap.getElem?_ofList_of_mem Std.ReflOrd.compare_self
      Std.ExtTreeMap.distinct_keys_toList (Std.ExtTreeMap.mem_toList_iff_getElem?_eq_some.mpr hk)
  | none =>
    apply Std.ExtTreeMap.getElem?_ofList_of_contains_eq_false
    rw [Std.ExtTreeMap.map_fst_toList_eq_keys, ← Bool.not_eq_true, List.contains_iff_mem,
      Std.ExtTreeMap.mem_keys, Std.ExtTreeMap.mem_iff_isSome_getElem?, hk]
    exact Bool.false_ne_true

/-- The text of a map is read back. -/
theorem deserilize_stream (p q : TextParm) (hdata : Writable p.data)
    (hlen : p.serilize.serilizeSize < textLimit) :
    ∃ r, q.deserilize p.serilize.stream p.serilize.serilizeSize = .ok (some r) ∧
      r.data = p.data := by
  have hplain : ∀ e ∈ p.data.toList, PlainEntry e := fun e he =>
    hdata e.1 e.2 (Std.ExtTreeMap.mem_toList_iff_getElem?_eq_some.mp he)
  rw [serilizeSize] at hlen ⊢
  have hread := readAt_zero p.serilize.stream
  have hrounds : (p.data.toList.flatMap entryText).length ≤ p.serilize.stream.length := by
    rw [serilize_stream]
  have hscan := scan_entries hplain hrounds (by rwa [← serilize_stream])
    (Buffer.size_alloc textLimit) (Buffer.size_alloc textLimit) ∅
  rw [← serilize_stream, foldl_insert_toList] at hscan
  refine ⟨⟨p.data, upToNul p.serilize.stream⟩, ?_, rfl⟩
  simp only [deserilize, if_neg (not_lt.mpr hlen.le), hread, hscan, ok_bind, pure_eq_ok]

/-- Reading comes to an end. -/
theorem deserilize_ne_none (q : TextParm) (stream : Bytes) (len : ℕ) :
    q.deserilize stream len ≠ .ok none := by
  intro hnone
  rw [deserilize] at hnone
  split_ifs at hnone
  · cases hnone
  · cases hread : readAt stream 0 len with
    | error e =>
      rw [hread] at hnone
      cases hnone
    | ok rest =>
      rw [hread, ok_bind] at hnone
      have hrest : rest.length ≤ len := (length_of_readAt hread).le
      have hend := scan_terminates hrest (Buffer.alloc textLimit) (Buffer.alloc textLimit) ∅
      cases hscan : scan len rest (Buffer.alloc textLimit) (Buffer.alloc textLimit) ∅ with
      | error e =>
        rw [hscan] at hnone
        cases hnone
      | ok m =>
        cases m with
        | none => exact absurd hscan hend
        | some m =>
          rw [hscan] at hnone
          cases hnone

/-- **Text parameters are read back.** A map whose keys and values leave the separators
recognizable, and whose text is shorter than the buffers, is read back from its text. Reading
comes to an end on every stream, and a stream beyond the limit leaves everything as it is. -/
theorem deserilize_serilize (p q : TextParm) (hdata : Writable p.data)
    (hlen : p.serilize.serilizeSize < textLimit) :
    (∃ r, q.deserilize p.serilize.stream p.serilize.serilizeSize = .ok (some r) ∧
      r.data = p.data) ∧
    (∀ (stream : Bytes) (len : ℕ), q.deserilize stream len ≠ .ok none) ∧
    ∀ (stream : Bytes) (len : ℕ), textLimit < len → q.deserilize stream len = .ok (some q) := by
  refine ⟨deserilize_stream p q hdata hlen, q.deserilize_ne_none, ?_⟩
  intro stream len hlimit
  rw [deserilize, if_pos hlimit]

/-- An empty key, a key with a space in it, an empty value, and one that is a separator. -/
def shape : StringMap :=
  ((∅ : StringMap).insert [97, 32, 98] [61]).insert [] []

theorem deserilize_serilize_shape :
    ∃ r, deserilize ⟨∅, []⟩ (serilize ⟨shape, []⟩).stream 8 = .ok (some r) ∧ r.data = shape := by
  have hplain : Writable shape := by
    intro k v h
    rw [shape, Std.ExtTreeMap.getElem?_insert, Std.ExtTreeMap.getElem?_insert] at h
    split_ifs at h with hempty hspace
    · obtain rfl := Std.compare_eq_iff_eq.mp hempty
      obtain rfl := Option.some.inj h
      exact ⟨by decide, by decide⟩
    · obtain rfl := Std.compare_eq_iff_eq.mp hspace
      obtain rfl := Option.some.inj h
      exact ⟨by decide, by decide⟩
    · rw [Std.ExtTreeMap.getElem?_empty] at h
      cases h
  have hsize : (serilize ⟨shape, []⟩).serilizeSize = 8 := by decide +kernel
  have hread := (deserilize_serilize ⟨shape, []⟩ ⟨∅, []⟩ hplain (by rw [hsize]; decide)).1
  rwa [hsize] at hread

/-! ### The size of the buffers -/

/-- A stream whose first entry fills the buffer of the key. -/
def Overlong (rest : Bytes) : Prop :=
  rest.length = textLimit ∧ rest.head? ≠ some space ∧ equals ∉ rest

/-- A stream of the greatest length is read, unless it is one overlong key. -/
theorem scan_of_le {rest : Bytes} (hle : rest.length ≤ textLimit) {key value : Buffer}
    (hkey : key.size = textLimit) (hvalue : value.size = textLimit) (tempMap : StringMap) :
    (¬ Overlong rest ∧ ∃ m, scan rest.length rest key value tempMap = .ok (some m)) ∨
      Overlong rest ∧ scan rest.length rest key value tempMap = .error .outOfBounds := by
  rcases Nat.lt_or_eq_of_le hle with hlt | heq
  · exact .inl ⟨fun h => absurd h.1 hlt.ne, scan_of_lt le_rfl hlt hkey hvalue tempMap⟩
  · have hne : rest ≠ [] := List.length_pos_iff.mp (heq ▸ by decide)
    obtain ⟨rounds, hrounds⟩ : ∃ n, rest.length = n + 1 := ⟨rest.length - 1, by rw [heq]; rfl⟩
    by_cases hhead : rest.head? = some space
    · obtain ⟨rest', rfl⟩ := List.head?_eq_some_iff.mp hhead
      refine .inl ⟨fun h => h.2.1 hhead, ?_⟩
      rw [List.length_cons] at heq
      rw [List.length_cons, scan, if_pos rfl]
      exact scan_of_lt le_rfl (by omega) hkey hvalue tempMap
    · have htake := length_takeWhile_le equals rest
      by_cases hsep : equals ∈ rest
      · -- the key ends in front of the separator, and the value has less than what is left
        have hfit : (rest.takeWhile (· ≠ equals)).length < rest.length := by
          refine lt_of_le_of_ne htake fun hall => ?_
          have hself := (List.takeWhile_prefix _).eq_of_length hall
          have hnot := List.takeWhile_eq_self_iff.mp hself equals hsep
          simp at hnot
        have htail := length_skip_le equals rest
        have htake' := length_takeWhile_le space (rest.dropWhile (· ≠ equals)).tail
        have htail' := length_skip_le space (rest.dropWhile (· ≠ equals)).tail
        have hpos : 0 < textLimit := by decide
        obtain ⟨key', value', hkey', hvalue', hscan⟩ := scan_entry_eq rounds tempMap hne hhead
          hkey hvalue rfl (by omega) (by omega)
        rw [hrounds, hscan]
        exact .inl ⟨fun h => h.2.2 hsep, scan_of_lt (by omega) (by omega) hkey' hvalue' _⟩
      · have hself : rest.takeWhile (· ≠ equals) = rest :=
          List.takeWhile_eq_self_iff.mpr fun c hc => decide_eq_true fun h => hsep (h ▸ hc)
        refine .inr ⟨⟨heq, hhead, hsep⟩, ?_⟩
        rw [hrounds, scan_entry hne hhead,
          copyField_overflow equals hkey rest (by rw [hself, heq]), error_bind]

/-- Reading leaves the buffers exactly for one overlong key. -/
theorem deserilize_inBounds_iff (p : TextParm) {stream : Bytes} {len : ℕ}
    (hlen : len ≤ textLimit) (hstream : len ≤ stream.length) :
    p.deserilize stream len ≠ .error .outOfBounds ↔ ¬ Overlong (stream.take len) := by
  have hread : readAt stream 0 len = .ok (stream.take len) := by
    rw [readAt, if_pos (by omega), List.drop_zero]
  have htake : (stream.take len).length = len := by rw [List.length_take, min_eq_left hstream]
  have hscan := scan_of_le (htake.trans_le hlen) (Buffer.size_alloc textLimit)
    (Buffer.size_alloc textLimit) ∅
  rw [htake] at hscan
  rcases hscan with ⟨hover, m, hscan⟩ | ⟨hover, hscan⟩
  · have hok : p.deserilize stream len = .ok (some ⟨m, upToNul stream⟩) := by
      simp only [deserilize, if_neg (not_lt.mpr hlen), hread, hscan, ok_bind, pure_eq_ok]
    rw [hok]
    exact iff_of_true (fun h => by cases h) hover
  · have herror : p.deserilize stream len = .error .outOfBounds := by
      simp only [deserilize, if_neg (not_lt.mpr hlen), hread, hscan, ok_bind, error_bind]
    rw [herror]
    exact iff_of_false (not_not_intro rfl) (not_not_intro hover)

/-- A number whose text is shorter than the buffer is in the map, and no other. -/
theorem insertNumber_eq (p : TextParm) (key : Bytes) (n : ℤ) :
    p.insertNumber key n =
      if -10 ^ 8 < n ∧ n < 10 ^ 9 then .ok { p with data := p.data.insert key (decimal n) }
      else .error .outOfBounds := by
  have hlen : (decimal n ++ [0]).length = (decimal n).length + 1 := by
    rw [List.length_append, List.length_singleton]
  have hfits := length_decimal_lt_iff (n := n) (show 2 < 10 by decide)
  split_ifs with hrange
  · have hlt : (decimal n).length < 10 := hfits.mpr hrange
    obtain ⟨v, hwrite, hfilled⟩ := (Buffer.Filled.alloc 10).write 0 (decimal n ++ [0]) rfl
      (by omega)
    have hread := hfilled.read ((decimal n).length + 1) hlen
    have hzero : 0 ∉ decimal n := by
      intro hmem
      rcases mem_decimal hmem with heq | ⟨hlow, -⟩
      · exact absurd heq (by decide)
      · exact absurd hlow (by decide)
    simp only [insertNumber, hwrite, hread, ok_bind, pure_eq_ok, List.nil_append,
      upToNul_terminated, upToNul_of_notMem hzero]
  · have hge : ¬ (decimal n).length < 10 := fun h => hrange (hfits.mp h)
    have hwrite : (Buffer.alloc 10).write 0 (decimal n ++ [0]) = .error .outOfBounds := by
      rw [Buffer.write, Buffer.size_alloc, if_neg (by omega)]
    rw [insertNumber, hwrite, error_bind]

theorem getString_insert (p : TextParm) (key v : Bytes) :
    getString { p with data := p.data.insert key v } key = v := by
  rw [getString, Std.ExtTreeMap.getElem?_insert_self, Option.getD_some]

/-- **The buffers of text parameters.** Reading a stream leaves the buffers exactly if the
stream has the greatest length and is one key without a separator. A number fits its buffer, and
is read back, exactly if its text has at most nine characters. -/
theorem inBounds_iff (p : TextParm) :
    (∀ (stream : Bytes) (len : ℕ), len ≤ textLimit → len ≤ stream.length →
      (p.deserilize stream len ≠ .error .outOfBounds ↔ ¬ Overlong (stream.take len))) ∧
    (∀ (key : Bytes) (value : Int32),
      (∃ q, p.insertInt key value = .ok q ∧ q.getInt key = value.toInt) ↔
        -10 ^ 8 < value.toInt ∧ value.toInt < 10 ^ 9) ∧
    ∀ (key : Bytes) (value : UInt32),
      (∃ q, p.insertUint key value = .ok q ∧ q.getUint key = value.toNat) ↔
        value.toNat < 10 ^ 9 := by
  refine ⟨fun stream len => p.deserilize_inBounds_iff, fun key value => ?_, fun key value => ?_⟩
  · rw [insertInt, insertNumber_eq]
    split_ifs with hrange
    · have hget : getInt { p with data := p.data.insert key (decimal value.toInt) } key =
          value.toInt := by
        rw [getInt, getString_insert, atoi_decimal ⟨value.le_toInt, value.toInt_lt⟩]
      exact iff_of_true ⟨_, rfl, hget⟩ hrange
    · exact iff_of_false (fun ⟨_, h, _⟩ => by cases h) hrange
  · have hlt := value.toNat_lt
    rw [insertUint, insertNumber_eq]
    split_ifs with hrange
    · have hget : getUint { p with data := p.data.insert key (decimal value.toNat) } key =
          value.toNat := by
        rw [getUint, getString_insert, strtoul_decimal hlt, toUInt32_natCast hlt]
      exact iff_of_true ⟨_, rfl, hget⟩ (by omega)
    · exact iff_of_false (fun ⟨_, h, _⟩ => by cases h) (by omega)

theorem inBounds_iff_short :
    deserilize ⟨∅, []⟩ [97, 61, 98] 3 ≠ .error .outOfBounds ∧
      ∃ q, insertInt ⟨∅, []⟩ [97] (-5) = .ok q ∧ q.getInt [97] = -5 :=
  ⟨((inBounds_iff ⟨∅, []⟩).1 [97, 61, 98] 3 (by decide) (by decide)).mpr
      fun h => absurd h.1 (by decide),
    ((inBounds_iff ⟨∅, []⟩).2.1 [97] (-5)).mpr (by decide)⟩

/-- A stream of the greatest length without a separator, the least `int`, and an `int` and a
`uint32_t` of ten digits: each leaves its buffer. -/
theorem buffers_overrun :
    deserilize ⟨∅, []⟩ (List.replicate textLimit 97) textLimit = .error .outOfBounds ∧
      insertInt ⟨∅, []⟩ [97] (-2147483648) = .error .outOfBounds ∧
      insertInt ⟨∅, []⟩ [97] 2147483647 = .error .outOfBounds ∧
      insertUint ⟨∅, []⟩ [97] 4294967295 = .error .outOfBounds := by
  refine ⟨?_, ?_, ?_, ?_⟩
  · have hover : Overlong ((List.replicate textLimit 97).take textLimit) := by
      rw [List.take_replicate, min_self]
      refine ⟨List.length_replicate, ?_, ?_⟩
      · rw [List.head?_replicate]
        decide
      · intro hmem
        exact absurd (List.eq_of_mem_replicate hmem) (by decide)
    have hnot := mt (deserilize_inBounds_iff ⟨∅, []⟩ le_rfl List.length_replicate.ge).mp
      (not_not_intro hover)
    exact not_not.mp hnot
  · rw [insertInt, insertNumber_eq, if_neg (by decide)]
  · rw [insertInt, insertNumber_eq, if_neg (by decide)]
  · rw [insertUint, insertNumber_eq, if_neg (by decide)]


end TextParm

end TestCluster.Common
