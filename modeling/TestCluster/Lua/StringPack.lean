import TestCluster.Semantics.Memory

/-!
# Packing strings in Lua

`string.format`, `string.pack` and `string.unpack` of Lua's `lstrlib.c`, for the options of
integers, fixed-length strings and byte order. The options of floats, of strings with a
length or a final zero, of padding and of alignment are left out; without `!` nothing is
aligned.

## Main definitions

* `format` — `string.format`, for `%d`
* `getoption` — one option of a format is read
* `strPack`, `strUnpack` — `str_pack` and `str_unpack`

## Main results

* `getnum_format` — a formatted length is read back, unless it is too long for `getnum`
* `scan_option` — packing and unpacking go through a format option by option
* `packItem_uint`, `packItem_char`, `unpackItem_uint`, `unpackItem_char` — what one option does
-/

namespace TestCluster.Lua

open Semantics

/-- A Lua value that is packed or unpacked. -/
inductive Value
  | integer (n : Int64)
  | string (s : Bytes)
  deriving DecidableEq, Repr

/-! ### Formats -/

/-- `%d`. -/
def formatInteger (n : ℤ) : List Char :=
  if n < 0 then '-' :: Nat.toDigits 10 n.natAbs else Nat.toDigits 10 n.natAbs

/-- `string.format`, for formats with no other directive than `%d`. -/
def format : List Char → List ℤ → List Char
  | '%' :: 'd' :: fmt, n :: args => formatInteger n ++ format fmt args
  | c :: fmt, args => c :: format fmt args
  | [], _ => []

/-- `MAXSIZE`. -/
def maxSize : ℕ := 2 ^ 31 - 1

/-- `MAXINTSIZE`. -/
def maxIntSize : ℕ := 16

/-- `SZINT`. -/
def szInt : ℕ := 8

/-- `digit`. -/
def digit (c : Char) : Bool := '0' ≤ c && c ≤ '9'

/-- The loop of `getnum`, which has read `a`. -/
def getnumLoop : ℕ → List Char → ℕ × List Char
  | a, c :: fmt =>
    if digit c && a ≤ (maxSize - 9) / 10 then getnumLoop (a * 10 + (c.toNat - 48)) fmt
    else (a, c :: fmt)
  | a, [] => (a, [])

/-- `getnum`, without the default value. -/
def getnum : List Char → Option ℕ × List Char
  | c :: fmt =>
    if digit c then
      let r := getnumLoop (c.toNat - 48) fmt
      (some r.1, r.2)
    else (none, c :: fmt)
  | [] => (none, [])

/-- `getnumlimit`. -/
def getnumlimit (fmt : List Char) (df : ℕ) : Except Fault (ℕ × List Char) :=
  let r := getnum fmt
  let sz := r.1.getD df
  if sz > maxIntSize ∨ sz = 0 then .error (.raised "integral size out of limits")
  else .ok (sz, r.2)

/-- `KOption`. -/
inductive KOption
  | int
  | uint
  | char
  | nop
  deriving DecidableEq, Repr

/-- `getoption`: the option, its size, the byte order from there on and the rest of the
format. -/
def getoption (islittle : Bool) (opt : Char) (fmt : List Char) :
    Except Fault (KOption × ℕ × Bool × List Char) :=
  match opt with
  | 'b' => .ok (.int, 1, islittle, fmt)
  | 'B' => .ok (.uint, 1, islittle, fmt)
  | 'h' => .ok (.int, 2, islittle, fmt)
  | 'H' => .ok (.uint, 2, islittle, fmt)
  | 'l' => .ok (.int, 8, islittle, fmt)
  | 'L' => .ok (.uint, 8, islittle, fmt)
  | 'j' => .ok (.int, szInt, islittle, fmt)
  | 'J' => .ok (.uint, szInt, islittle, fmt)
  | 'T' => .ok (.uint, 8, islittle, fmt)
  | 'i' => (getnumlimit fmt 4).map fun r => (.int, r.1, islittle, r.2)
  | 'I' => (getnumlimit fmt 4).map fun r => (.uint, r.1, islittle, r.2)
  | 'c' =>
    match getnum fmt with
    | (some size, fmt) => .ok (.char, size, islittle, fmt)
    | (none, _) => .error (.raised "missing size for format option 'c'")
  | ' ' => .ok (.nop, 0, islittle, fmt)
  | '<' => .ok (.nop, 0, true, fmt)
  | '>' => .ok (.nop, 0, false, fmt)
  | '=' => .ok (.nop, 0, true, fmt)
  | _ => .error (.raised "invalid format option")

/-- A loop over the options of a format. Every option takes a character of it. -/
def scan {σ : Type} (item : σ → KOption → ℕ → Bool → Except Fault σ) :
    (fuel : ℕ) → Bool → List Char → σ → Except Fault σ
  | fuel + 1, islittle, opt :: fmt, s => do
    let (option, size, islittle, fmt) ← getoption islittle opt fmt
    let s ← item s option size islittle
    scan item fuel islittle fmt s
  | _, _, _, s => .ok s

/-! ### Packing -/

/-- `packint`. -/
def packint (n : UInt64) (islittle : Bool) (size : ℕ) (neg : Bool) : Bytes :=
  let bytes := leBytes (min size szInt) n.toNat ++
    List.replicate (size - szInt) (if neg then 0xff else 0)
  if islittle then bytes else bytes.reverse

/-- What `str_pack` does for one option: the buffer grows, an argument is taken. -/
def packItem (s : Bytes × List Value) (option : KOption) (size : ℕ) (islittle : Bool) :
    Except Fault (Bytes × List Value) :=
  match option, s.2 with
  | .int, .integer n :: args =>
    if size < szInt ∧ ¬ (-2 ^ (size * 8 - 1) ≤ n.toInt ∧ n.toInt < 2 ^ (size * 8 - 1)) then
      .error (.raised "integer overflow")
    else .ok (s.1 ++ packint n.toUInt64 islittle size (n.toInt < 0), args)
  | .uint, .integer n :: args =>
    if size < szInt ∧ ¬ n.toUInt64.toNat < 2 ^ (size * 8) then
      .error (.raised "unsigned overflow")
    else .ok (s.1 ++ packint n.toUInt64 islittle size false, args)
  | .char, .string str :: args =>
    .ok (s.1 ++ (str.take size ++ List.replicate (size - str.length) 0), args)
  | .nop, args => .ok (s.1, args)
  | .char, _ => .error (.raised "string expected")
  | _, _ => .error (.raised "number expected")

/-- `str_pack`. -/
def strPack (fmt : List Char) (args : List Value) : Except Fault Bytes :=
  (scan packItem fmt.length true fmt ([], args)).map Prod.fst

/-! ### Unpacking -/

/-- `unpackint`, of the bytes of the field. -/
def unpackint (field : Bytes) (islittle issigned : Bool) : Except Fault Int64 :=
  let bytes := if islittle then field else field.reverse
  let res := UInt64.ofNat (leNat (bytes.take szInt))
  if field.length < szInt then
    if issigned then
      -- sign extension: the sign bit and all above it are taken away again
      let mask := UInt64.ofNat (2 ^ (field.length * 8 - 1))
      .ok ((res ^^^ mask) - mask).toInt64
    else .ok res.toInt64
  else
    let mask : UInt8 := if !issigned || 0 ≤ res.toInt64.toInt then 0 else 0xff
    if (bytes.drop szInt).all (· == mask) then .ok res.toInt64
    else .error (.raised "integer does not fit into Lua Integer")

/-- What `str_unpack` does for one option: the position moves, a result is pushed. -/
def unpackItem (data : Bytes) (s : ℕ × List Value) (option : KOption) (size : ℕ)
    (islittle : Bool) : Except Fault (ℕ × List Value) :=
  if s.1 + size > data.length then .error (.raised "data string too short")
  else
    let field := (data.drop s.1).take size
    match option with
    | .int => (unpackint field islittle true).map fun n => (s.1 + size, s.2 ++ [.integer n])
    | .uint => (unpackint field islittle false).map fun n => (s.1 + size, s.2 ++ [.integer n])
    | .char => .ok (s.1 + size, s.2 ++ [.string field])
    | .nop => .ok (s.1 + size, s.2)

/-- `str_unpack`, from the position `init` on, which is counted from 1; without the position
that it returns last. -/
def strUnpack (fmt : List Char) (data : Bytes) (init : ℕ) : Except Fault (List Value) :=
  if init - 1 > data.length then .error (.raised "initial position out of string")
  else (scan (unpackItem data) fmt.length true fmt (init - 1, [])).map Prod.snd

/-! ### Numerals -/

theorem digit_digitChar : ∀ {d : ℕ}, d < 10 → digit d.digitChar = true := by
  decide

theorem digitChar_toNat : ∀ {d : ℕ}, d < 10 → d.digitChar.toNat - 48 = d := by
  decide

/-- A format that goes on with something else than a digit. -/
theorem head_not_digit {c : Char} (h : digit c = false) (fmt : List Char) :
    ∀ c' ∈ (c :: fmt).head?, digit c' = false := by
  rintro c' ⟨⟩
  exact h

/-- A numeral with at most nine digits, or a small one with ten, is read to its end. -/
theorem getnum_toDigits {n : ℕ} (h : n ≤ maxSize - 8) (rest : List Char) :
    getnum (Nat.toDigits 10 n ++ rest) = ((some (getnumLoop n rest).1), (getnumLoop n rest).2) := by
  induction n using Nat.strong_induction_on generalizing rest with
  | _ n ih =>
    by_cases hsmall : n < 10
    · rw [Nat.toDigits_of_lt_base hsmall, List.singleton_append, getnum,
        if_pos (digit_digitChar hsmall), digitChar_toNat hsmall]
    · have hdigit : n % 10 < 10 := Nat.mod_lt _ (by decide)
      have hhead : n / 10 ≤ (maxSize - 9) / 10 := by
        simp only [maxSize] at h ⊢
        omega
      rw [Nat.toDigits_of_base_le (by decide) (Nat.not_lt.mp hsmall), List.append_assoc,
        ih (n / 10) (by omega) (by omega), List.singleton_append, getnumLoop,
        if_pos (by simp [digit_digitChar hdigit, hhead]), digitChar_toNat hdigit,
        Nat.div_add_mod']

/-- A numeral that no digit follows is read back. -/
theorem getnum_format {n : ℕ} (h : n ≤ maxSize - 8) {rest : List Char}
    (hrest : ∀ c ∈ rest.head?, digit c = false) :
    getnum (formatInteger n ++ rest) = (some n, rest) := by
  have hneg : ¬ (n : ℤ) < 0 := by omega
  have hloop : getnumLoop n rest = (n, rest) := by
    cases rest with
    | nil => rfl
    | cons c rest => rw [getnumLoop, hrest c rfl, Bool.false_and, if_neg Bool.false_ne_true]
  rw [formatInteger, if_neg hneg, Int.natAbs_natCast, getnum_toDigits h, hloop]

/-- What is not a number is no numeral. -/
theorem getnum_negative {n : ℤ} (h : n < 0) (rest : List Char) :
    (getnum (formatInteger n ++ rest)).1 = none := by
  rw [formatInteger, if_pos h]
  rfl

/-! ### Options -/

theorem getnumLoop_length (a : ℕ) (fmt : List Char) : (getnumLoop a fmt).2.length ≤ fmt.length := by
  induction fmt generalizing a with
  | nil => exact le_rfl
  | cons c fmt ih =>
    rw [getnumLoop]
    split_ifs
    · exact (ih _).trans (Nat.le_succ _)
    · exact le_rfl

theorem getnum_length (fmt : List Char) : (getnum fmt).2.length ≤ fmt.length := by
  cases fmt with
  | nil => exact le_rfl
  | cons c fmt =>
    rw [getnum]
    split_ifs
    · exact (getnumLoop_length _ _).trans (Nat.le_succ _)
    · exact le_rfl

theorem getnumlimit_length {fmt rest : List Char} {df size : ℕ}
    (h : getnumlimit fmt df = .ok (size, rest)) : rest.length ≤ fmt.length := by
  rw [getnumlimit] at h
  split_ifs at h
  obtain ⟨_, rfl⟩ := Prod.mk.inj (Except.ok.inj h)
  exact getnum_length fmt

/-- Reading an option never gives characters back. -/
theorem getoption_length {islittle islittle' : Bool} {opt : Char} {fmt rest : List Char}
    {option : KOption} {size : ℕ}
    (h : getoption islittle opt fmt = .ok (option, size, islittle', rest)) :
    rest.length ≤ fmt.length := by
  -- an option with an optional size takes the digits behind it
  have hlimit : ∀ o : KOption, ((getnumlimit fmt 4).map fun r => (o, r.1, islittle, r.2)) =
      .ok (option, size, islittle', rest) → rest.length ≤ fmt.length := by
    intro o h
    cases hnum : getnumlimit fmt 4 with
    | error e => rw [hnum] at h; exact nomatch h
    | ok r =>
      rw [hnum] at h
      have hrest : r.2 = rest := congrArg (fun x => x.2.2.2) (Except.ok.inj h)
      rw [← hrest]
      exact getnumlimit_length hnum
  unfold getoption at h
  split at h
  case h_10 => exact hlimit _ h
  case h_11 => exact hlimit _ h
  case h_12 =>
    have hnum := getnum_length fmt
    split at h
    next heq =>
      have hrest := congrArg (fun x => x.2.2.2.length) (Except.ok.inj h)
      rw [heq] at hnum
      exact hrest.symm.trans_le hnum
    next => exact nomatch h
  case h_17 => exact nomatch h
  all_goals exact (congrArg (fun x => x.2.2.2.length) (Except.ok.inj h)).ge

section Scan

variable {σ : Type} {item : σ → KOption → ℕ → Bool → Except Fault σ} {s s' : σ}
  {islittle islittle' : Bool} {opt : Char} {fmt rest : List Char} {option : KOption} {size : ℕ}

/-- More steps than characters make no difference. -/
theorem scan_of_le {fuel : ℕ} (h : fmt.length ≤ fuel) :
    scan item fuel islittle fmt s = scan item fmt.length islittle fmt s := by
  induction fuel using Nat.strong_induction_on generalizing islittle fmt s with
  | _ fuel ih =>
    cases fmt with
    | nil => cases fuel <;> rfl
    | cons opt fmt =>
      obtain ⟨fuel, rfl⟩ : ∃ n, fuel = n + 1 := ⟨fuel - 1, by
        rw [List.length_cons] at h; omega⟩
      rw [List.length_cons, Nat.add_le_add_iff_right] at h
      rw [List.length_cons, scan, scan]
      cases hopt : getoption islittle opt fmt with
      | error e => rfl
      | ok r =>
        obtain ⟨option, size, islittle', rest⟩ := r
        have hrest := getoption_length hopt
        simp only [ok_bind]
        cases item s option size islittle' with
        | error e => rfl
        | ok s' =>
          -- both sides go on with enough steps for the rest
          simp only [ok_bind]
          rw [ih fuel (Nat.lt_succ_self _) (hrest.trans h)]
          rcases Nat.lt_or_ge fmt.length (fuel + 1) with hlt | hge
          · rw [ih fmt.length hlt hrest]
          · omega

/-- One option is read and done. -/
theorem scan_option (hopt : getoption islittle opt fmt = .ok (option, size, islittle', rest)) :
    scan item (opt :: fmt).length islittle (opt :: fmt) s =
      item s option size islittle' >>= scan item rest.length islittle' rest := by
  rw [List.length_cons, scan, hopt]
  simp only [ok_bind]
  congr 1
  funext s'
  exact scan_of_le (getoption_length hopt)

/-- An option that is not understood. -/
theorem scan_error {e : Fault} (hopt : getoption islittle opt fmt = .error e) :
    scan item (opt :: fmt).length islittle (opt :: fmt) s = .error e := by
  rw [List.length_cons, scan, hopt]
  rfl

end Scan

/-- `I` with no size. -/
theorem getoption_uint (islittle : Bool) {fmt : List Char}
    (h : ∀ c ∈ fmt.head?, digit c = false) :
    getoption islittle 'I' fmt = .ok (.uint, 4, islittle, fmt) := by
  have hnum : getnum fmt = (none, fmt) := by
    cases fmt with
    | nil => rfl
    | cons c fmt => rw [getnum, h c rfl, if_neg Bool.false_ne_true]
  simp [getoption, getnumlimit, hnum, maxIntSize, Except.map]

/-- `c` with a size that was formatted. -/
theorem getoption_char (islittle : Bool) {n : ℕ} (h : n ≤ maxSize - 8) {rest : List Char}
    (hrest : ∀ c ∈ rest.head?, digit c = false) :
    getoption islittle 'c' (formatInteger n ++ rest) = .ok (.char, n, islittle, rest) := by
  simp only [getoption, getnum_format h hrest]

/-- `c` with a negative size. -/
theorem getoption_char_negative (islittle : Bool) {n : ℤ} (h : n < 0) (rest : List Char) :
    getoption islittle 'c' (formatInteger n ++ rest) =
      .error (.raised "missing size for format option 'c'") := by
  have hnum := getnum_negative h rest
  simp only [getoption]
  split
  next heq => rw [heq] at hnum; exact nomatch hnum
  next => rfl

/-! ### One option -/

/-- An unsigned number that fits is packed most significant byte first. -/
theorem packItem_uint {n size : ℕ} (b : Bytes) (x : Int64) (args : List Value)
    (hx : x.toUInt64.toNat = n) (hsize : size ≤ szInt) (h : n < 256 ^ size) :
    packItem (b, .integer x :: args) .uint size false = .ok (b ++ beBytes size n, args) := by
  have hpow : 2 ^ (size * 8) = 256 ^ size := by
    rw [Nat.mul_comm, Nat.pow_mul]
  have hfit : ¬ (size < szInt ∧ ¬ n < 2 ^ (size * 8)) := fun hover => hover.2 (hpow ▸ h)
  simp only [packItem, packint, hx, if_neg hfit, min_eq_left hsize, Nat.sub_eq_zero_of_le hsize]
  simp [beBytes]

/-- A string is packed at its own length. -/
theorem packItem_char (b str : Bytes) (args : List Value) (islittle : Bool) :
    packItem (b, .string str :: args) .char str.length islittle = .ok (b ++ str, args) := by
  simp [packItem]

/-- A number is unpacked most significant byte first. -/
theorem unpackint_uint {field : Bytes} (h : field.length ≤ szInt) :
    unpackint field false false = .ok (UInt64.ofNat (beNat field)).toInt64 := by
  have hlen : field.reverse.length ≤ szInt := by simpa using h
  have htake : field.reverse.take szInt = field.reverse := List.take_of_length_le hlen
  have hdrop : field.reverse.drop szInt = [] := List.drop_of_length_le hlen
  simp [unpackint, htake, hdrop, beNat]

section Unpack

variable {data : Bytes} {pos : ℕ}

theorem unpackItem_nop (h : pos ≤ data.length) (results : List Value) (islittle : Bool) :
    unpackItem data (pos, results) .nop 0 islittle = .ok (pos, results) :=
  if_neg (Nat.not_lt.mpr h)

theorem unpackItem_char {size : ℕ} (h : pos + size ≤ data.length) (results : List Value)
    (islittle : Bool) :
    unpackItem data (pos, results) .char size islittle =
      .ok (pos + size, results ++ [.string ((data.drop pos).take size)]) :=
  if_neg (Nat.not_lt.mpr h)

/-- A number is read inside the string. -/
theorem unpackItem_uint {size : ℕ} (h : pos + size ≤ data.length)
    (hsize : size ≤ szInt) (results : List Value) :
    unpackItem data (pos, results) .uint size false =
      .ok (pos + size,
        results ++ [.integer (UInt64.ofNat (beNat ((data.drop pos).take size))).toInt64]) := by
  have hlen : ((data.drop pos).take size).length ≤ szInt :=
    (List.length_take_le _ _).trans hsize
  simp only [unpackItem, if_neg (Nat.not_lt.mpr h), unpackint_uint hlen]
  rfl

end Unpack

end TestCluster.Lua
