import TestCluster.BeeCluster.LuaValue
import TestCluster.Lua.Dispatcher
import TestCluster.Semantics.Machine
import TestCluster.Semantics.Memo

/-!
# The caches of `protobuf.lua`

What a field is read and written with depends on its type, which the environment knows that was
made from the registered schemas. `protobuf.lua` keeps what it has looked up, in four tables:
the readers, the writers, the patterns, and the default values of the fields of a type.
`M.reload_pb_file` puts a new environment in the place of the old one, and leaves the tables as
they are.

The functions of `protobuf.c` are a parameter. What is encoded is a message: fields with names,
whose values are plain, messages, or lists.

## Main definitions

* `Pbc` — the functions of `protobuf.c`
* `Pbc.readerOf`, `Pbc.writerOf`, `Pbc.patternOf`, `Pbc.defaultOf` — what an environment
  determines
* `Protobuf` — the environment and the tables, with the lookups
* `encodeMessage` — a message is written, for any way to find the writers
* `Protobuf.Follows` — everything that is looked up is what the environment determines
* `Protobuf.Agrees` — what the tables hold is what an environment determines

## Main results

* `Protobuf.follows_iff` — all lookups follow an environment exactly if the tables agree with it
* `Protobuf.follows_of_agrees` — they follow the new schemas in every run in which the tables
  agree with them at every reload
-/

namespace TestCluster.Skynet

open Semantics
open TestCluster.Lua (literal)

/-! ### Fields -/

/-- How a field is read or written. A message field has the type of its messages. -/
inductive Accessor
  | int
  | real
  | bool
  | string
  | message (type : Bytes)
  | intRepeated
  | realRepeated
  | boolRepeated
  | stringRepeated
  | messageRepeated (type : Bytes)
  deriving DecidableEq, Repr

/-- The entry of a table of accessors, `none` where it has none. The tables `_reader` and
`_writer` have the same entries. -/
def accessor (t : ℕ) (msg : Bytes) : Option Accessor :=
  match t with
  | 1 => some .int
  | 2 => some .real
  | 3 => some .bool
  | 4 => some .string
  | 5 => some .string
  | 6 => some (.message msg)
  | 7 => some .int
  | 8 => some .int
  | 9 => some .string
  | 10 => some .int
  | 11 => some .int
  | 129 => some .intRepeated
  | 130 => some .realRepeated
  | 131 => some .boolRepeated
  | 132 => some .stringRepeated
  | 133 => some .stringRepeated
  | 134 => some (.messageRepeated msg)
  | 135 => some .intRepeated
  | 136 => some .intRepeated
  | 137 => some .stringRepeated
  | 138 => some .intRepeated
  | 139 => some .intRepeated
  | _ => none

/-- `_reader[t](msg)`. -/
def reader (t : ℕ) (msg : Bytes) : Option Accessor := accessor t msg

/-- `_writer[t](msg)`. -/
def writer (t : ℕ) (msg : Bytes) : Option Accessor := accessor t msg

/-- `_pattern_type[t]`. -/
def patternType (t : ℕ) : Option (Bytes × Bytes) :=
  match t with
  | 1 => some (literal "%d", literal "i")
  | 2 => some (literal "%F", literal "r")
  | 3 => some (literal "%d", literal "b")
  | 4 => some (literal "%d", literal "i")
  | 5 => some (literal "%s", literal "s")
  | 6 => some (literal "%s", literal "m")
  | 7 => some (literal "%D", literal "d")
  | 8 => some (literal "%d", literal "i")
  | 9 => some (literal "%s", literal "s")
  | 10 => some (literal "%D", literal "d")
  | 11 => some (literal "%D", literal "d")
  | 129 => some (literal "%a", literal "I")
  | 130 => some (literal "%a", literal "R")
  | 131 => some (literal "%a", literal "B")
  | 132 => some (literal "%a", literal "I")
  | 133 => some (literal "%a", literal "S")
  | 134 => some (literal "%a", literal "M")
  | 135 => some (literal "%a", literal "D")
  | 136 => some (literal "%a", literal "I")
  | 137 => some (literal "%a", literal "S")
  | 138 => some (literal "%a", literal "D")
  | 139 => some (literal "%a", literal "D")
  | _ => none

/-! ### What an environment determines -/

/-- The functions of `protobuf.c`: `_env_new`, `_env_register` (`none` where it raises),
`_env_type`, `_rmessage_new` of an empty message (whether there is one), what a reader then
finds in a field, `_wmessage_new`, `_pattern_new`, `_pattern_size`, and `_decode` (whether it
succeeds). -/
structure Pbc (E V C : Type) where
  envNew : E
  envRegister : E → Bytes → Option E
  envType : E → (type key : Bytes) → ℕ × Bytes
  rmessageNew : E → (type : Bytes) → Bool
  rmessage : E → (type : Bytes) → Accessor → (key : Bytes) → Option V
  wmessageNew : E → (type : Bytes) → Bool
  patternNew : E → (message cpat : Bytes) → Option C
  patternSize : Bytes → ℕ
  decode : E → (type buffer : Bytes) → Bool

/-- What `_pattern_create` returns. -/
structure Pattern (C : Type) where
  cobj : C
  format : Bytes
  size : ℕ
  deriving DecidableEq, Repr

/-- The message behind the default values of a type: the environment it was made in, and the
fields that were read. -/
structure DefaultInst (E V : Type) where
  env : E
  fields : Memo Bytes V

namespace Pbc

variable {E V C : Type} (c : Pbc E V C) (env : E)

/-- `_decode_type_meta:__index`, for a type and a field. -/
def readerOf (key : Bytes × Bytes) : Option Accessor :=
  let (t, msg) := c.envType env key.1 key.2
  reader t msg

/-- `_encode_type_meta:__index`. -/
def writerOf (key : Bytes × Bytes) : Option Accessor :=
  let (t, msg) := c.envType env key.1 key.2
  writer t msg

/-- The words of a pattern, `[^ ]+`. -/
def patternWords (pattern : Bytes) : List Bytes :=
  (pattern.splitOnP fun b => b = 32).filter (· ≠ [])

/-- `_pattern_create`; `none` where it raises, or returns nothing. -/
def patternOf (pattern : Bytes) : Option (Pattern C) :=
  match patternWords pattern with
  | [] => none
  | message :: fields => do
    let parts ← fields.mapM fun v =>
      (patternType (c.envType env message v).1).map fun t => (v ++ 32 :: t.1, t.2)
    let cobj ← c.patternNew env message (64 :: [32].intercalate (parts.map Prod.fst))
    let format := (parts.map Prod.snd).flatten
    return ⟨cobj, format, c.patternSize format⟩

/-- `assert(decode_message(typename, ""))`. -/
def defaultInst (type : Bytes) : Option (DefaultInst E V) :=
  if c.rmessageNew env type then some ⟨env, .empty⟩ else none

/-- The default value of a field, `none` where looking for it raises. -/
def defaultOf (type key : Bytes) : Option (Option V) :=
  if c.rmessageNew env type then
    (c.readerOf env (type, key)).map fun r => c.rmessage env type r key
  else
    none

/-- An environment with schemas: `c._env_register(P_tmp, buffer)` for each of them. -/
def load (buffers : List Bytes) : Option E := buffers.foldlM c.envRegister c.envNew

end Pbc

/-! ### Messages that are written -/

mutual

/-- What a field is set to. -/
inductive FieldValue
  | plain (v : LuaValue)
  | message (fields : Fields)
  | list (values : FieldValues)

/-- The fields of a message, in the order of `pairs`. -/
inductive Fields
  | nil
  | cons (k : Bytes) (v : FieldValue) (rest : Fields)

/-- The values of a list. -/
inductive FieldValues
  | nil
  | cons (v : FieldValue) (rest : FieldValues)

end

/-- A call of a function of `protobuf.c` that writes: `_wmessage_int`, `_wmessage_real`,
`_wmessage_string`, and `_wmessage_message` with the end of the message it begins. -/
inductive Written
  | int (k : Bytes) (v : LuaValue)
  | real (k : Bytes) (v : LuaValue)
  | string (k : Bytes) (v : LuaValue)
  | enter (k : Bytes)
  | leave
  deriving DecidableEq, Repr

/-- `v and 1 or 0`. -/
def oneOrZero (v : LuaValue) : LuaValue := .number (if v.truthy then 1 else 0)

/-- What a writer does with a plain value. -/
def writePlain (w : Accessor) (k : Bytes) (v : LuaValue) : Except Fault (List Written) :=
  match w with
  | .int => .ok [.int k v]
  | .real => .ok [.real k v]
  | .bool => .ok [.int k (oneOrZero v)]
  | .string => .ok [.string k v]
  | .message _ => .error (.raised "table expected")
  | _ => .error (.raised "table expected")

/-- The writers that go through a list. -/
def Accessor.repeated : Accessor → Bool
  | intRepeated => true
  | realRepeated => true
  | boolRepeated => true
  | stringRepeated => true
  | messageRepeated _ => true
  | _ => false

/-- What a writer does with a table that it does not look into: `ipairs` finds nothing in a
message. -/
def writeTable (w : Accessor) (k : Bytes) : Except Fault (List Written) :=
  if w.repeated then .ok []
  else if w = .bool then .ok [.int k (.number 1)]
  else .error (.raised "no table expected")

/-- What a writer of a repeated field does with one plain value of the list. -/
def writeItem (w : Accessor) (k : Bytes) (v : LuaValue) : Except Fault (List Written) :=
  match w with
  | .intRepeated => .ok [.int k v]
  | .realRepeated => .ok [.real k v]
  | .boolRepeated => .ok [.int k (oneOrZero v)]
  | .stringRepeated => .ok [.string k v]
  | _ => .error (.raised "table expected")

/-- What it does with one that is a table. -/
def writeTableItem (w : Accessor) (k : Bytes) : Except Fault (List Written) :=
  if w = .boolRepeated then .ok [.int k (.number 1)]
  else .error (.raised "no table expected")

section Encode

variable {σ : Type} (find : (type key : Bytes) → StateM σ (Option Accessor))

mutual

/-- `encode_message`, with the lookup of a writer. -/
def encodeMessage (type : Bytes) : Fields → ExceptT Fault (StateM σ) (List Written)
  | .nil => pure []
  | .cons k v rest => do
    match ← find type k with
    | none => throw (.raised (cString k))
    | some w =>
      let calls ← write w k v
      let calls' ← encodeMessage type rest
      return calls ++ calls'

/-- A writer is called for a value. -/
def write (w : Accessor) (k : Bytes) : FieldValue → ExceptT Fault (StateM σ) (List Written)
  | .plain v => liftExcept (writePlain w k v)
  | .message fields =>
    match w with
    | .message type => do
      let calls ← encodeMessage type fields
      return .enter k :: calls ++ [.leave]
    | w => liftExcept (writeTable w k)
  | .list values =>
    match w, values with
    | .message _, .nil => pure [.enter k, .leave]
    -- the keys of a list are no fields
    | .message _, _ => throw (.raised "1")
    | w, values => if w.repeated then writeItems w k values else liftExcept (writeTable w k)

/-- The loop of the writers of repeated fields. -/
def writeItems (w : Accessor) (k : Bytes) :
    FieldValues → ExceptT Fault (StateM σ) (List Written)
  | .nil => pure []
  | .cons v rest => do
    let calls ← (match w with
      | .messageRepeated type => write (.message type) k v
      | w => liftExcept (match v with
        | .plain v => writeItem w k v
        | _ => writeTableItem w k))
    let calls' ← writeItems w k rest
    return calls ++ calls'

end

/-! ### Two ways to find the writers -/

variable {τ : Type} {R : σ → τ → Prop} {find}
  {find' : (type key : Bytes) → StateM τ (Option Accessor)}

/-- From related states the same writers are found. -/
def SameWriters (R : σ → τ → Prop) (find : (type key : Bytes) → StateM σ (Option Accessor))
    (find' : (type key : Bytes) → StateM τ (Option Accessor)) : Prop :=
  ∀ type key s t, R s t → ((find type key).run s).1 = ((find' type key).run t).1 ∧
    R ((find type key).run s).2 ((find' type key).run t).2

mutual

/-- Where the same writers are found, the same message is written. -/
theorem encodeMessage_alike (hfind : SameWriters R find find') (type : Bytes) (fields : Fields) :
    Alike R (encodeMessage find type fields) (encodeMessage find' type fields) := by
  cases fields with
  | nil => exact .pure []
  | cons k v rest =>
    rw [encodeMessage, encodeMessage]
    refine (Alike.lift (hfind type k)).bind fun w => ?_
    cases w with
    | none => exact .throw _
    | some w =>
      refine (write_alike hfind w k v).bind fun calls => ?_
      exact (encodeMessage_alike hfind type rest).bind fun calls' => .pure _

theorem write_alike (hfind : SameWriters R find find') (w : Accessor) (k : Bytes)
    (v : FieldValue) : Alike R (write find w k v) (write find' w k v) := by
  cases v with
  | plain v =>
    rw [write, write]
    exact .of_except _
  | message fields =>
    rw [write.eq_def, write.eq_def]
    cases w with
    | message type =>
      exact (encodeMessage_alike hfind type fields).bind fun calls => .pure _
    | _ => exact .of_except _
  | list values =>
    have hitems := fun w => writeItems_alike hfind w k values
    rw [write.eq_def, write.eq_def]
    cases w with
    | message type =>
      cases values with
      | nil => exact .pure _
      | cons v rest => exact .throw _
    | _ =>
      simp only
      split_ifs
      · exact hitems _
      · exact .of_except _

/-- The same for the values of a list. -/
theorem writeItems_alike (hfind : SameWriters R find find') (w : Accessor) (k : Bytes)
    (values : FieldValues) :
    Alike R (writeItems find w k values) (writeItems find' w k values) := by
  cases values with
  | nil =>
    rw [writeItems, writeItems]
    exact .pure []
  | cons v rest =>
    have hrest := writeItems_alike hfind w k rest
    rw [writeItems.eq_def, writeItems.eq_def]
    refine Alike.bind ?_ fun calls => hrest.bind fun calls' => .pure _
    cases w with
    | messageRepeated type => exact write_alike hfind (.message type) k v
    | _ => exact .of_except _

end

end Encode

/-- The message that an environment writes, without a table of writers. -/
def Pbc.encodeWith {E V C : Type} (c : Pbc E V C) (env : E) (type : Bytes) (t : Fields) :
    Except Fault (List Written) :=
  if c.wmessageNew env type then
    ((encodeMessage (fun type key => pure (c.writerOf env (type, key))) type t).run.run ()).1
  else
    .error (.raised (cString type))

/-! ### The module -/

/-- `P` and the tables. `reloaded` are the schemas of the last `M.reload_pb_file`, unless others
were registered since; nothing reads it. -/
structure Protobuf (E V C : Type) where
  env : E
  decodeTypeCache : Memo (Bytes × Bytes) Accessor
  encodeTypeCache : Memo (Bytes × Bytes) Accessor
  patternCache : Memo Bytes (Pattern C)
  defaultCache : Memo Bytes (DefaultInst E V)
  reloaded : Option (List Bytes)

/-- What is called: `M.register`, `M.reload_pb_file`, `M.encode`, `M.decode`, `M.pack` or
`M.unpack` with a pattern, and a field of a decoded message, either one that was not set or one
that is read. -/
inductive ProtobufEvent
  | register (buffer : Bytes)
  | reload (buffers : List Bytes)
  | encode (type : Bytes) (t : Fields)
  | decode (type buffer : Bytes)
  | pattern (pattern : Bytes)
  | default (type key : Bytes)
  | field (type key : Bytes)

namespace Protobuf

variable {E V C : Type} (c : Pbc E V C)

/-- The module when it is loaded. -/
def init : Protobuf E V C where
  env := c.envNew
  decodeTypeCache := .empty
  encodeTypeCache := .empty
  patternCache := .empty
  defaultCache := .empty
  reloaded := none

variable (s : Protobuf E V C)

/-- `decode_type_cache[type][key]`. -/
def readerFor (type key : Bytes) : Option Accessor × Protobuf E V C :=
  let (func, cache) := s.decodeTypeCache.lookup (c.readerOf s.env) (type, key)
  (func, { s with decodeTypeCache := cache })

/-- `encode_type_cache[type][key]`. -/
def writerFor (type key : Bytes) : Option Accessor × Protobuf E V C :=
  let (func, cache) := s.encodeTypeCache.lookup (c.writerOf s.env) (type, key)
  (func, { s with encodeTypeCache := cache })

/-- `_pattern_cache[pattern]`. -/
def patternFor (pattern : Bytes) : Option (Pattern C) × Protobuf E V C :=
  let (pat, cache) := s.patternCache.lookup (c.patternOf s.env) pattern
  (pat, { s with patternCache := cache })

/-- `default_table`: the message behind it. -/
def defaultTable (type : Bytes) : Option (DefaultInst E V) × Protobuf E V C :=
  let (inst, cache) := s.defaultCache.lookup (c.defaultInst s.env) type
  (inst, { s with defaultCache := cache })

/-- `default_inst[key]` by `_R_meta:__index`, for the default message of the type; the result is
`none` where this raises. -/
def defaultFor (type key : Bytes) : Option (Option V) × Protobuf E V C :=
  match s.defaultTable c type with
  | (none, s) => (none, s)
  | (some inst, s) =>
    match inst.fields key with
    | some v => (some (some v), s)
    | none =>
      match s.readerFor c type key with
      | (none, s) => (none, s)
      | (some r, s) =>
        let v := c.rmessage inst.env type r key
        let inst := { inst with fields := Function.update inst.fields key v }
        (some v, { s with defaultCache := Function.update s.defaultCache type (some inst) })

/-- `M.encode`. -/
def encode (type : Bytes) (t : Fields) : Except Fault (List Written) × Protobuf E V C :=
  if c.wmessageNew s.env type then
    (encodeMessage (fun type key s => s.writerFor c type key) type t).run.run s
  else
    (.error (.raised (cString type)), s)

/-- `M.register`. -/
def register (buffer : Bytes) : Protobuf E V C :=
  match c.envRegister s.env buffer with
  | some env => { s with env := env, reloaded := none }
  | none => s

/-- `M.reload_pb_file`. -/
def reloadPbFile (buffers : List Bytes) : Protobuf E V C :=
  match c.load buffers with
  | some env => { s with env := env, reloaded := some buffers }
  | none => s

/-- The module after a call. -/
def call : ProtobufEvent → Protobuf E V C
  | .register buffer => s.register c buffer
  | .reload buffers => s.reloadPbFile c buffers
  | .encode type t => (s.encode c type t).2
  | .decode type buffer =>
    if c.decode s.env type buffer then (s.defaultTable c type).2 else s
  | .pattern pattern => (s.patternFor c pattern).2
  | .default type key => (s.defaultFor c type key).2
  | .field type key => (s.readerFor c type key).2

/-- One step of the module. -/
def step (e : ProtobufEvent) : Option (Protobuf E V C) := some (s.call c e)

/-- Everything that is looked up is what the environment determines. -/
structure Follows (env : E) : Prop where
  reader : ∀ type key, (s.readerFor c type key).1 = c.readerOf env (type, key)
  writer : ∀ type key, (s.writerFor c type key).1 = c.writerOf env (type, key)
  pattern : ∀ pattern, (s.patternFor c pattern).1 = c.patternOf env pattern
  default : ∀ type key, (s.defaultFor c type key).1 = c.defaultOf env type key
  encode : ∀ type t, (s.encode c type t).1 = c.encodeWith env type t

/-- A default message is the one of the environment: the fields that were read, and those that
were not. -/
structure DefaultAgrees (inst : DefaultInst E V) (env : E)
    (type : Bytes) : Prop where
  read : ∀ key v, inst.fields key = some v → c.defaultOf env type key = some (some v)
  unread : ∀ key r, inst.fields key = none → c.readerOf env (type, key) = some r →
    c.defaultOf env type key = some (c.rmessage inst.env type r key)

/-- What the tables hold is what the environment determines. -/
structure Agrees (env : E) : Prop where
  readers : s.decodeTypeCache.Agrees (c.readerOf env)
  writers : s.encodeTypeCache.Agrees (c.writerOf env)
  patterns : s.patternCache.Agrees (c.patternOf env)
  defaults : ∀ type inst, s.defaultCache type = some inst → DefaultAgrees c inst env type

/-- What is in the tables at a reload means the same in the new schemas. -/
def agreesAtReload : ProtobufEvent → Prop
  | .reload buffers => ∀ env, c.load buffers = some env → s.Agrees c env
  | _ => True

/-! ### Lookups in tables that agree -/

variable {c s} {env : E} {type key : Bytes}

/-- The tables agree with the environment that the module has. -/
def Current (c : Pbc E V C) (env : E) (s : Protobuf E V C) : Prop := s.env = env ∧ s.Agrees c env

theorem Current.readerFor (h : s.Current c env) (type key : Bytes) :
    (s.readerFor c type key).1 = c.readerOf env (type, key) ∧
      (s.readerFor c type key).2.Current c env := by
  obtain ⟨rfl, hs⟩ := h
  exact ⟨hs.readers.lookup_fst (type, key), rfl, hs.readers.lookup_snd (type, key), hs.writers,
    hs.patterns, hs.defaults⟩

theorem Current.writerFor (h : s.Current c env) (type key : Bytes) :
    (s.writerFor c type key).1 = c.writerOf env (type, key) ∧
      (s.writerFor c type key).2.Current c env := by
  obtain ⟨rfl, hs⟩ := h
  exact ⟨hs.writers.lookup_fst (type, key), rfl, hs.readers, hs.writers.lookup_snd (type, key),
    hs.patterns, hs.defaults⟩

theorem Current.patternFor (h : s.Current c env) (pattern : Bytes) :
    (s.patternFor c pattern).1 = c.patternOf env pattern ∧
      (s.patternFor c pattern).2.Current c env := by
  obtain ⟨rfl, hs⟩ := h
  exact ⟨hs.patterns.lookup_fst pattern, rfl, hs.readers, hs.writers,
    hs.patterns.lookup_snd pattern, hs.defaults⟩

/-- A default message that no field was read of. -/
theorem defaultAgrees_fresh (htype : c.rmessageNew env type) :
    DefaultAgrees c ⟨env, .empty⟩ env type where
  read key v hread := by cases hread
  unread key r _ hr := by rw [Pbc.defaultOf, if_pos htype, hr, Option.map_some]

theorem Current.update_default (h : s.Current c env) {inst : DefaultInst E V}
    (hinst : DefaultAgrees c inst env type) :
    Current c env { s with defaultCache := Function.update s.defaultCache type (some inst) } := by
  refine ⟨h.1, h.2.readers, h.2.writers, h.2.patterns, fun type' inst' hmap => ?_⟩
  rcases update_cases hmap with ⟨rfl, hnew⟩ | ⟨-, hold⟩
  · obtain rfl := Option.some.inj hnew
    exact hinst
  · exact h.2.defaults type' inst' hold

/-- The default message of a type: there is one if the environment has the type, and it agrees. -/
theorem Current.defaultTable (h : s.Current c env) (type : Bytes) :
    (s.defaultTable c type).2.Current c env ∧
      match (s.defaultTable c type).1 with
      | some inst => DefaultAgrees c inst env type
      | none => c.rmessageNew env type = false := by
  obtain ⟨rfl, hs⟩ := id h
  unfold Protobuf.defaultTable
  cases hmap : s.defaultCache type with
  | some inst =>
    rw [Memo.lookup_of_some hmap]
    exact ⟨h, hs.defaults type inst hmap⟩
  | none =>
    rw [Memo.lookup_of_none hmap]
    cases htype : c.rmessageNew s.env type with
    | true =>
      have hinst : c.defaultInst s.env type = some ⟨s.env, .empty⟩ := by
        rw [Pbc.defaultInst, if_pos htype]
      simp only [hinst]
      exact ⟨h.update_default (defaultAgrees_fresh htype), defaultAgrees_fresh htype⟩
    | false =>
      have hinst : c.defaultInst s.env type = none := by
        rw [Pbc.defaultInst, if_neg (by rw [htype]; exact Bool.false_ne_true)]
      have hsame : Function.update s.defaultCache type none = s.defaultCache := by
        rw [← hmap, Function.update_eq_self]
      simp only [hinst, hsame]
      exact ⟨h, trivial⟩

/-- A field that is read for the first time. -/
theorem DefaultAgrees.update {inst : DefaultInst E V} (h : DefaultAgrees c inst env type)
    (hnone : inst.fields key = none) {v : Option V} (hv : c.defaultOf env type key = some v) :
    DefaultAgrees c { inst with fields := Function.update inst.fields key v } env type where
  read key' v' hread := by
    rcases update_cases hread with ⟨rfl, hnew⟩ | ⟨-, hold⟩
    · rw [hv, hnew]
    · exact h.read key' v' hold
  unread key' r hunread hr := by
    rcases update_cases hunread with ⟨rfl, -⟩ | ⟨-, hold⟩
    · exact h.unread key' r hnone hr
    · exact h.unread key' r hold hr

theorem defaultOf_of_reader_none (h : c.readerOf env (type, key) = none) :
    c.defaultOf env type key = none := by
  rw [Pbc.defaultOf, h, Option.map_none, ite_self]

theorem Current.defaultFor (h : s.Current c env) (type key : Bytes) :
    (s.defaultFor c type key).1 = c.defaultOf env type key ∧
      (s.defaultFor c type key).2.Current c env := by
  have htable := h.defaultTable type
  unfold Protobuf.defaultFor
  generalize s.defaultTable c type = r at htable
  obtain ⟨inst, s₁⟩ := r
  obtain ⟨h₁, hinst⟩ := htable
  cases inst with
  | none =>
    have htype : c.rmessageNew env type = false := hinst
    refine ⟨?_, h₁⟩
    rw [Pbc.defaultOf, if_neg (by rw [htype]; exact Bool.false_ne_true)]
  | some inst =>
    have hagrees : DefaultAgrees c inst env type := hinst
    simp only
    cases hread : inst.fields key with
    | some v => exact ⟨(hagrees.read key v hread).symm, h₁⟩
    | none =>
      -- the field is read with the reader that the environment determines
      have hreader := h₁.readerFor type key
      generalize s₁.readerFor c type key = r at hreader
      obtain ⟨func, s₂⟩ := r
      obtain ⟨hfunc, h₂⟩ := hreader
      have hfunc' : func = c.readerOf env (type, key) := hfunc
      cases func with
      | none => exact ⟨(defaultOf_of_reader_none hfunc'.symm).symm, h₂⟩
      | some r =>
        have hvalue := hagrees.unread key r hread hfunc'.symm
        exact ⟨hvalue.symm, h₂.update_default (hagrees.update hread hvalue)⟩

theorem Current.encode (h : s.Current c env) (type : Bytes) (t : Fields) :
    (s.encode c type t).1 = c.encodeWith env type t ∧ (s.encode c type t).2.Current c env := by
  have hfind : SameWriters (fun (s : Protobuf E V C) (_ : Unit) => s.Current c env)
      (fun type key s => s.writerFor c type key)
      (fun type key => pure (c.writerOf env (type, key))) :=
    fun type key s _ hs => hs.writerFor type key
  have halike := encodeMessage_alike hfind type t s () h
  unfold Protobuf.encode Pbc.encodeWith
  rw [h.1]
  split_ifs
  · exact halike
  · exact ⟨rfl, h⟩

/-- **Tables that agree.** All lookups follow the environment of the module exactly if the tables
agree with it. -/
theorem follows_iff : s.Follows c s.env ↔ s.Agrees c s.env := by
  constructor
  · intro h
    refine ⟨Memo.agrees_iff.mpr fun key => h.reader key.1 key.2,
      Memo.agrees_iff.mpr fun key => h.writer key.1 key.2,
      Memo.agrees_iff.mpr fun pattern => h.pattern pattern, fun type inst hmap => ?_⟩
    have htable : s.defaultTable c type = (some inst, s) := by
      rw [Protobuf.defaultTable, Memo.lookup_of_some hmap]
    refine ⟨fun key v hread => ?_, fun key r hunread hr => ?_⟩
    · rw [← h.default type key, Protobuf.defaultFor, htable]
      simp only [hread]
    · have hreader := h.reader type key
      rw [hr] at hreader
      obtain ⟨s', hs'⟩ : ∃ s', s.readerFor c type key = (some r, s') := ⟨_, Prod.ext hreader rfl⟩
      rw [← h.default type key, Protobuf.defaultFor, htable]
      simp only [hunread, hs']
  · intro h
    have hcurrent : s.Current c s.env := ⟨rfl, h⟩
    exact ⟨fun type key => (hcurrent.readerFor type key).1,
      fun type key => (hcurrent.writerFor type key).1,
      fun pattern => (hcurrent.patternFor pattern).1,
      fun type key => (hcurrent.defaultFor type key).1,
      fun type t => (hcurrent.encode type t).1⟩

/-! ### Runs -/

theorem defaultFor_reloaded (s : Protobuf E V C) (type key : Bytes) :
    (s.defaultFor c type key).2.reloaded = s.reloaded := by
  have htable : (s.defaultTable c type).2.reloaded = s.reloaded := rfl
  unfold Protobuf.defaultFor
  generalize s.defaultTable c type = r at htable
  obtain ⟨inst, s₁⟩ := r
  cases inst with
  | none => exact htable
  | some inst =>
    simp only
    cases inst.fields key with
    | some v => exact htable
    | none =>
      have hreader : (s₁.readerFor c type key).2.reloaded = s₁.reloaded := rfl
      generalize s₁.readerFor c type key = r at hreader
      obtain ⟨func, s₂⟩ := r
      cases func <;> exact hreader.trans htable

theorem encode_reloaded (s : Protobuf E V C) (type : Bytes) (t : Fields) :
    (s.encode c type t).2.reloaded = s.reloaded := by
  have hfind : SameWriters
      (fun s₁ s₂ : Protobuf E V C => s₁ = s₂ ∧ s₁.reloaded = s.reloaded)
      (fun type key s => s.writerFor c type key) (fun type key s => s.writerFor c type key) := by
    rintro type key s₁ s₂ ⟨rfl, hs⟩
    exact ⟨rfl, rfl, hs⟩
  unfold Protobuf.encode
  split_ifs
  · exact (encodeMessage_alike hfind type t s s ⟨rfl, rfl⟩).2.2
  · rfl

/-- The tables agree with the schemas that were loaded last, unless others were registered
since. -/
def Loaded (c : Pbc E V C) (s : Protobuf E V C) : Prop :=
  ∀ buffers, s.reloaded = some buffers → c.load buffers = some s.env ∧ s.Agrees c s.env

theorem Loaded.of_current {s' : Protobuf E V C} (h : s.Loaded c)
    (hreloaded : s'.reloaded = s.reloaded) (hcurrent : s.Current c s.env → s'.Current c s.env) :
    s'.Loaded c := by
  intro buffers hbuffers
  obtain ⟨hload, hagrees⟩ := h buffers (hreloaded ▸ hbuffers)
  obtain ⟨henv, hagrees'⟩ := hcurrent ⟨rfl, hagrees⟩
  rw [henv]
  exact ⟨hload, hagrees'⟩

theorem Loaded.step {e : ProtobufEvent} {s' : Protobuf E V C} (h : s.Loaded c)
    (hok : s.agreesAtReload c e) (hs : step c s e = some s') : s'.Loaded c := by
  obtain rfl := Option.some.inj hs
  cases e with
  | register buffer =>
    show Loaded c (s.register c buffer)
    unfold Protobuf.register
    cases c.envRegister s.env buffer with
    | none => exact h
    | some env =>
      intro buffers hbuffers
      cases hbuffers
  | reload buffers =>
    show Loaded c (s.reloadPbFile c buffers)
    unfold Protobuf.reloadPbFile
    cases hload : c.load buffers with
    | none => exact h
    | some env =>
      intro buffers' hbuffers
      obtain rfl := Option.some.inj hbuffers
      have hagrees := hok env hload
      exact ⟨hload, hagrees.readers, hagrees.writers, hagrees.patterns, hagrees.defaults⟩
  | encode type t => exact h.of_current (encode_reloaded s type t) fun hs => (hs.encode type t).2
  | decode type buffer =>
    have hcall : s.call c (.decode type buffer) =
        if c.decode s.env type buffer then (s.defaultTable c type).2 else s := rfl
    rw [hcall]
    split_ifs
    · exact h.of_current rfl fun hs => (hs.defaultTable type).1
    · exact h
  | pattern pattern => exact h.of_current rfl fun hs => (hs.patternFor pattern).2
  | default type key =>
    exact h.of_current (defaultFor_reloaded s type key) fun hs => (hs.defaultFor type key).2
  | field type key => exact h.of_current rfl fun hs => (hs.readerFor type key).2

/-- **Lookups after a reload.** In a run in which the tables agree with the new schemas at every
reload, everything that is looked up after a reload is what an environment with the new schemas
determines. -/
theorem follows_of_agrees (h : Reachable (step c) (agreesAtReload c) (init c) s)
    {buffers : List Bytes} (hbuffers : s.reloaded = some buffers) :
    ∃ env, c.load buffers = some env ∧ s.Follows c env := by
  have hloaded : s.Loaded c := by
    apply h.invariant
    · intro buffers hbuffers
      cases hbuffers
    · intro s e s' hs hok hstep
      exact hs.step hok hstep
  obtain ⟨hload, hagrees⟩ := hloaded buffers hbuffers
  exact ⟨s.env, hload, follows_iff.mpr hagrees⟩

/-- Two schemas that have different types for the field `id`: a number in the first one, and
strings everywhere else. -/
def twoSchemas : Pbc (List Bytes) LuaValue Unit where
  envNew := []
  envRegister env buffer := some (env ++ [buffer])
  envType env _ key := if env = [[1]] ∧ key = literal "id" then (1, []) else (5, [])
  rmessageNew _ _ := true
  rmessage _ _ r _ := some (if r = .int then .number 0 else .string [])
  wmessageNew _ _ := true
  patternNew _ _ _ := some ()
  patternSize pattern := pattern.length
  decode _ _ _ := true

/-- A message is encoded, and then the second schema is loaded. -/
def encodeAndReload (t : Fields) : List ProtobufEvent :=
  [.register [1], .encode (literal "T") t, .reload [[2]]]

/-- The message has a field that is the same in both schemas. -/
theorem follows_of_agrees_name : ∃ s, run (step twoSchemas) (init twoSchemas)
      (encodeAndReload (.cons (literal "name") (.plain (.string [120])) .nil)) = some s ∧
    ∃ env, twoSchemas.load [[2]] = some env ∧ s.Follows twoSchemas env := by
  refine ⟨_, rfl, follows_of_agrees (.next (.next (.next .start ?_ rfl) ?_ rfl) ?_ rfl) rfl⟩
  · trivial
  · trivial
  · intro env henv
    obtain rfl := Option.some.inj henv
    refine ⟨Memo.agrees_empty _, ?_, Memo.agrees_empty _, fun type inst hmap => by cases hmap⟩
    intro key w hw
    have hw' : Function.update Memo.empty (literal "T", literal "name") (some Accessor.string) key =
        some w := hw
    rcases update_cases hw' with ⟨rfl, hnew⟩ | ⟨-, hold⟩
    · rw [← hnew]
      rfl
    · cases hold

/-- The message has a field that is a number in the first schema and a string in the second one:
its writer stays the one for numbers. -/
theorem reload_keeps_writer : ∃ s, run (step twoSchemas) (init twoSchemas)
      (encodeAndReload (.cons (literal "id") (.plain (.number 1)) .nil)) = some s ∧
    s.reloaded = some [[2]] ∧ (s.writerFor twoSchemas (literal "T") (literal "id")).1 = some .int ∧
    ¬ ∃ env, twoSchemas.load [[2]] = some env ∧ s.Follows twoSchemas env := by
  refine ⟨_, rfl, rfl, rfl, ?_⟩
  rintro ⟨env, henv, hfollows⟩
  obtain rfl := Option.some.inj henv
  have hwriter := hfollows.writer (literal "T") (literal "id")
  exact absurd hwriter (by decide)

end Protobuf

end TestCluster.Skynet
