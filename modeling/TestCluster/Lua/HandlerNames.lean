import TestCluster.Lua.Dispatcher
import Mathlib.Data.List.Basic

/-!
# The names that handlers are registered under

`M:regs` of `dispatcher.lua` looks for the handler of a message under the last match of `%a+`
in the full name of the message. A name is a sequence of identifiers with dots between them, and
an identifier may have digits and underscores in it, which `%a` does not match.

## Main definitions

* `Handler` — a handler, with the object it is registered for
* `registerAll` — the calls of `M:regs` that a service makes
* `Qualified`, `lastIdentifier` — the names of messages
* `BindsByName` — messages run the handlers that have their names

## Main results

* `bindsByName_iff` — they do for every table of handlers exactly if the last identifiers have
  only letters in them
-/

namespace TestCluster.Lua

open Semantics

/-! ### Registration -/

/-- What is registered: `{f = f, obj = obj}`. -/
structure Handler (F O : Type) where
  f : F
  obj : Option O
  deriving DecidableEq, Repr

variable {F O : Type}

/-- What `M:_reg` puts into the map for the handlers of the table `ftable`. -/
def handlers (ftable : Bytes → Option F) (obj : Option O) : Bytes → Option (Handler F O) :=
  fun funcname => (ftable funcname).map fun f => ⟨f, obj⟩

/-- Calls of `M:regs`, each for some names and an object. -/
def registerAll (ftable : Bytes → Option F) :
    Dispatcher (Handler F O) → List (List Bytes × Option O) →
      Except Fault (Dispatcher (Handler F O))
  | d, [] => .ok d
  | d, (names, obj) :: calls => do
    let (d, _clientNames) ← Dispatcher.regs (handlers ftable obj) d names
    registerAll ftable d calls

/-! ### Names -/

/-- `'.'` -/
def period : UInt8 := 46

/-- A letter or an underscore. -/
def startsIdentifier (b : UInt8) : Bool := isalpha b || b = 95

/-- A letter, an underscore or a digit. -/
def inIdentifier (b : UInt8) : Bool := startsIdentifier b || (48 ≤ b && b ≤ 57)

/-- An identifier. -/
def Identifier (s : Bytes) : Prop :=
  (∃ b ∈ s.head?, startsIdentifier b) ∧ ∀ b ∈ s, inIdentifier b

/-- Identifiers with dots between them. -/
inductive Qualified : Bytes → Prop
  | single {id : Bytes} : Identifier id → Qualified id
  | package {id name : Bytes} : Identifier id → Qualified name → Qualified (id ++ period :: name)

/-- What stands behind the last dot. -/
def lastIdentifier (name : Bytes) : Bytes := (name.splitOnP fun b => b = period).getLastD []

theorem lastIdentifier_of_notMem {s : Bytes} (h : period ∉ s) : lastIdentifier s = s := by
  rw [lastIdentifier, List.splitOnP_eq_singleton]
  · rfl
  · intro b hb
    exact decide_eq_false fun heq => h (heq ▸ hb)

theorem lastIdentifier_package (s name : Bytes) :
    lastIdentifier (s ++ period :: name) = lastIdentifier name := by
  have hsplit := List.splitOnP_append_cons (p := fun b => decide (b = period)) s name
    (decide_eq_true rfl)
  have hne := List.splitOnP_ne_nil (fun b => decide (b = period)) name
  rw [lastIdentifier, hsplit, List.getLastD_eq_getLast?, List.getLast?_append_of_ne_nil _ hne,
    lastIdentifier, List.getLastD_eq_getLast?]

namespace Identifier

variable {id : Bytes}

theorem ne_nil (h : Identifier id) : id ≠ [] := by
  rintro rfl
  obtain ⟨⟨b, hb, -⟩, -⟩ := h
  cases hb

theorem period_notMem (h : Identifier id) : period ∉ id := fun hmem =>
  absurd (h.2 period hmem) (by decide)

theorem lastIdentifier_eq (h : Identifier id) : lastIdentifier id = id :=
  lastIdentifier_of_notMem h.period_notMem

end Identifier

/-- The last identifier of a name is one. -/
theorem Qualified.identifier {name : Bytes} (h : Qualified name) :
    Identifier (lastIdentifier name) := by
  induction h with
  | single hid => rwa [hid.lastIdentifier_eq]
  | package _ _ ih => rwa [lastIdentifier_package]

/-! ### The name that a handler is looked up under -/

/-- Letters and nothing else. -/
def Alphabetic (s : Bytes) : Prop := ∀ b ∈ s, isalpha b

instance (s : Bytes) : Decidable (Alphabetic s) := inferInstanceAs (Decidable (∀ b ∈ s, _))

theorem splitOnP_all {p : UInt8 → Bool} {s piece : Bytes} (h : piece ∈ s.splitOnP p) :
    ∀ b ∈ piece, p b = false := by
  induction s generalizing piece with
  | nil =>
    rw [List.splitOnP_nil, List.mem_singleton] at h
    subst h
    intro b hb
    cases hb
  | cons c s ih =>
    rw [List.splitOnP_cons_eq_if_modifyHead] at h
    split_ifs at h with hc
    · rcases List.mem_cons.mp h with rfl | h
      · intro b hb
        cases hb
      · exact ih h
    · -- the first piece of the rest has one character more
      obtain ⟨first, pieces, hsplit⟩ := List.exists_cons_of_ne_nil (List.splitOnP_ne_nil p s)
      rw [hsplit, List.modifyHead_cons] at h
      rcases List.mem_cons.mp h with rfl | h
      · intro b hb
        rcases List.mem_cons.mp hb with rfl | hb
        · exact Bool.not_eq_true _ ▸ hc
        · exact ih (hsplit ▸ List.mem_cons_self) b hb
      · exact ih (hsplit ▸ List.mem_cons_of_mem _ h)

theorem gmatchAlpha_alphabetic {name word : Bytes} (h : word ∈ gmatchAlpha name) :
    Alphabetic word := by
  intro b hb
  have hfalse := splitOnP_all (List.mem_filter.mp h).1 b hb
  simpa using hfalse

theorem gmatchAlpha_of_alphabetic {word : Bytes} (h : Alphabetic word) (hne : word ≠ []) :
    gmatchAlpha word = [word] := by
  rw [gmatchAlpha, List.splitOnP_eq_singleton, List.filter_cons_of_pos (by simpa using hne),
    List.filter_nil]
  intro b hb
  rw [h b hb, Bool.not_true]

theorem gmatchAlpha_package (s name : Bytes) :
    gmatchAlpha (s ++ period :: name) = gmatchAlpha s ++ gmatchAlpha name := by
  rw [gmatchAlpha, List.splitOnP_append_cons _ _ (by decide), List.filter_append, gmatchAlpha,
    gmatchAlpha]

/-- A last identifier of letters is the last match. -/
theorem Qualified.getLast?_gmatchAlpha {name : Bytes} (h : Qualified name)
    (halpha : Alphabetic (lastIdentifier name)) :
    (gmatchAlpha name).getLast? = some (lastIdentifier name) := by
  induction h with
  | single hid =>
    rw [hid.lastIdentifier_eq] at halpha ⊢
    rw [gmatchAlpha_of_alphabetic halpha hid.ne_nil, List.getLast?_singleton]
  | package _ _ ih =>
    rw [lastIdentifier_package] at halpha ⊢
    rw [gmatchAlpha_package, List.getLast?_append, ih halpha, Option.some_or]

/-- Any other last identifier is no match. -/
theorem getLast?_gmatchAlpha_ne {name : Bytes} (halpha : ¬ Alphabetic (lastIdentifier name)) :
    (gmatchAlpha name).getLast? ≠ some (lastIdentifier name) := fun h =>
  halpha (gmatchAlpha_alphabetic (List.mem_of_getLast? h))

/-! ### Messages and their handlers -/

/-- What is made of what a handler returns. -/
def reply {M : Type} (session : ℤ) : Option (Bytes × M) → Except Fault Unit
  | none => .ok ()
  | some _rsp =>
    if session > 0 then .error (.raised "attempt to index a nil value (field '?')") else .ok ()

namespace Dispatcher

/-- A message of this name runs the handler and no other: what comes of it is what the handler
returns or raises. -/
def Runs (d : Dispatcher F) (name : Bytes) (h : F) : Prop :=
  ∀ (M : Type) (call : F → Int64 → Option M → Except Fault (Option (Bytes × M))) (uid : Int64)
    (msg : Option M) (session : ℤ),
    d.dispatch call uid name msg session = call h uid msg >>= reply session

/-- A message of this name runs no handler. -/
def RunsNone (d : Dispatcher F) (name : Bytes) : Prop :=
  ∀ (M : Type) (call : F → Int64 → Option M → Except Fault (Option (Bytes × M))) (uid : Int64)
    (msg : Option M) (session : ℤ), d.dispatch call uid name msg session = .ok ()

theorem runs_of_some {d : Dispatcher F} {name : Bytes} {h : F} (hmap : d.map name = some h) :
    d.Runs name h := by
  intro M call uid msg session
  unfold dispatch
  simp only [hmap]
  cases call h uid msg with
  | error e => rfl
  | ok rsp =>
    simp only [ok_bind]
    cases rsp <;> rfl

theorem runsNone_of_none {d : Dispatcher F} {name : Bytes} (hmap : d.map name = none) :
    d.RunsNone name := by
  intro M call uid msg session
  unfold dispatch
  simp only [hmap]

end Dispatcher

/-- The handlers of these names are the ones that the table has under their last identifiers. -/
structure BoundByName (ftable : Bytes → Option F) (d : Dispatcher (Handler F O))
    (names : List Bytes) : Prop where
  bound : ∀ name ∈ names, (d.map name).map Handler.f = ftable (lastIdentifier name)
  apart : (∀ k k' f, ftable k = some f → ftable k' = some f → k = k') →
    ∀ name ∈ names, ∀ name' ∈ names, lastIdentifier name ≠ lastIdentifier name' →
      ∀ h h', d.map name = some h → d.map name' = some h' → h.f ≠ h'.f
  runs : ∀ name ∈ names, ∀ h, d.map name = some h → d.Runs name h
  runsNone : ∀ name ∈ names, d.map name = none → d.RunsNone name

/-- The calls of `M:regs` register the names for whatever handlers there are. -/
def BindsByName (calls : List (List Bytes × Option O)) : Prop :=
  ∀ (F : Type) (ftable : Bytes → Option F), ∃ d, registerAll ftable Dispatcher.new calls = .ok d ∧
    BoundByName ftable d (calls.flatMap Prod.fst)

theorem BoundByName.of_bound {ftable : Bytes → Option F} {d : Dispatcher (Handler F O)}
    {names : List Bytes}
    (h : ∀ name ∈ names, (d.map name).map Handler.f = ftable (lastIdentifier name)) :
    BoundByName ftable d names where
  bound := h
  apart hinj name hname name' hname' hne e e' he he' heq := by
    have hf := h name hname
    have hf' := h name' hname'
    rw [he, Option.map_some] at hf
    rw [he', Option.map_some] at hf'
    exact hne (hinj _ _ _ hf.symm (heq ▸ hf'.symm))
  runs name _ e he := Dispatcher.runs_of_some he
  runsNone name _ he := Dispatcher.runsNone_of_none he

/-! ### What is registered -/

section Registered

variable {ftable : Bytes → Option F} {d d' : Dispatcher (Handler F O)} {name : Bytes}

/-- Everything in the map was found under the last match. -/
def Found (ftable : Bytes → Option F) (d : Dispatcher (Handler F O)) : Prop :=
  ∀ name h, d.map name = some h → (gmatchAlpha name).getLast?.bind ftable = some h.f

theorem found_new : Found ftable (Dispatcher.new : Dispatcher (Handler F O)) := by
  intro name h hmap
  cases hmap

/-- Where the last match has a handler the name is bound to it. -/
theorem reg_of_some (obj : Option O) {f : F}
    (h : (gmatchAlpha name).getLast?.bind ftable = some f) :
    (d.reg (handlers ftable obj) name).1 = d.bind name ⟨f, obj⟩ := by
  have hbind : (gmatchAlpha name).getLast?.bind (handlers ftable obj) = some ⟨f, obj⟩ := by
    obtain ⟨word, hword, hf⟩ := Option.bind_eq_some_iff.mp h
    rw [hword, Option.bind_some, handlers, hf, Option.map_some]
  simp only [Dispatcher.reg, hbind]

/-- Where it has none nothing is bound. -/
theorem reg_of_none (obj : Option O) (h : (gmatchAlpha name).getLast?.bind ftable = none) :
    (d.reg (handlers ftable obj) name).1 = d := by
  have hbind : (gmatchAlpha name).getLast?.bind (handlers ftable obj) = none := by
    rw [Option.bind_eq_none_iff] at h ⊢
    intro word hword
    rw [handlers, h word hword, Option.map_none]
  simp only [Dispatcher.reg, hbind]

theorem reg_funcname (ftable : Bytes → Option F) (d : Dispatcher (Handler F O)) (name : Bytes)
    (obj : Option O) :
    (d.reg (handlers ftable obj) name).2.2 = (gmatchAlpha name).getLast? := by
  simp only [Dispatcher.reg]
  cases (gmatchAlpha name).getLast?.bind (handlers ftable obj) <;> rfl

theorem Found.reg (h : Found ftable d) (obj : Option O) (name : Bytes) :
    Found ftable (d.reg (handlers ftable obj) name).1 := by
  cases hf : (gmatchAlpha name).getLast?.bind ftable with
  | none => rwa [reg_of_none obj hf]
  | some f =>
    rw [reg_of_some obj hf]
    intro key e he
    by_cases hkey : key = name
    · subst hkey
      have hmap : (some ⟨f, obj⟩ : Option (Handler F O)) = some e := by
        simpa only [Dispatcher.bind, if_true] using he
      obtain rfl := Option.some.inj hmap
      exact hf
    · exact h key e (by simpa only [Dispatcher.bind, if_neg hkey] using he)

/-- A name that is registered is bound as the last match says, and all others stay. -/
theorem reg_map (h : Found ftable d) (obj : Option O) (key : Bytes) :
    ((d.reg (handlers ftable obj) name).1.map key).map Handler.f =
      if key = name then (gmatchAlpha name).getLast?.bind ftable
      else (d.map key).map Handler.f := by
  cases hf : (gmatchAlpha name).getLast?.bind ftable with
  | none =>
    rw [reg_of_none obj hf]
    split_ifs with hkey
    · subst hkey
      cases hmap : d.map key with
      | none => rfl
      | some e =>
      rw [h key e hmap] at hf
      cases hf
    · rfl
  | some f =>
    rw [reg_of_some obj hf]
    by_cases hkey : key = name
    · simp only [Dispatcher.bind, if_pos hkey, Option.map_some]
    · simp only [Dispatcher.bind, if_neg hkey]

/-- A name has been registered, under its last identifier. -/
def Bound (ftable : Bytes → Option F) (d : Dispatcher (Handler F O)) (name : Bytes) : Prop :=
  (d.map name).map Handler.f = ftable (lastIdentifier name)

/-- A name of a message that ends in letters. -/
def Lettered (name : Bytes) : Prop := Qualified name ∧ Alphabetic (lastIdentifier name)

theorem Lettered.getLast? (h : Lettered name) :
    (gmatchAlpha name).getLast? = some (lastIdentifier name) :=
  h.1.getLast?_gmatchAlpha h.2

theorem Bound.reg {key : Bytes} (hb : Bound ftable d key) (h : Found ftable d) (obj : Option O)
    (hname : Lettered name) : Bound ftable (d.reg (handlers ftable obj) name).1 key := by
  rw [Bound, reg_map h]
  split_ifs with hkey
  · rw [hkey, hname.getLast?, Option.bind_some]
  · exact hb

theorem bound_reg (h : Found ftable d) (obj : Option O) (hname : Lettered name) :
    Bound ftable (d.reg (handlers ftable obj) name).1 name := by
  rw [Bound, reg_map h, if_pos rfl, hname.getLast?, Option.bind_some]

/-- One call of `M:regs`: it does not raise, it binds its names, and what was bound stays. -/
theorem regs_lettered (h : Found ftable d) (obj : Option O) {names : List Bytes}
    (hnames : ∀ name ∈ names, Lettered name) :
    ∃ d' clientNames, Dispatcher.regs (handlers ftable obj) d names = .ok (d', clientNames) ∧
      Found ftable d' ∧ (∀ name ∈ names, Bound ftable d' name) ∧
      ∀ key, Bound ftable d key → Bound ftable d' key := by
  induction names generalizing d with
  | nil => exact ⟨d, [], rfl, h, List.forall_mem_nil _, fun _ => id⟩
  | cons name names ih =>
    obtain ⟨hname, hrest⟩ := List.forall_mem_cons.mp hnames
    obtain ⟨d', clientNames, hregs, hfound, hbound, hkeep⟩ := ih (h.reg obj name) hrest
    have hfuncname := (reg_funcname ftable d name obj).trans hname.getLast?
    refine ⟨d', if (lastIdentifier name).take 1 ≠ literal "i" then name :: clientNames
      else clientNames, ?_, hfound, ?_, fun key hkey => hkeep key (hkey.reg h obj hname)⟩
    · rw [Dispatcher.regs]
      simp only [hfuncname, hregs, ok_bind, pure_eq_ok]
    · rintro key (_ | ⟨_, hkey⟩)
      · exact hkeep name (bound_reg h obj hname)
      · exact hbound key hkey

/-- All calls of `M:regs`. -/
theorem registerAll_lettered (h : Found ftable d) {calls : List (List Bytes × Option O)}
    (hcalls : ∀ name ∈ calls.flatMap Prod.fst, Lettered name) :
    ∃ d', registerAll ftable d calls = .ok d' ∧
      (∀ name ∈ calls.flatMap Prod.fst, Bound ftable d' name) ∧
      ∀ key, Bound ftable d key → Bound ftable d' key := by
  induction calls generalizing d with
  | nil => exact ⟨d, rfl, List.forall_mem_nil _, fun _ => id⟩
  | cons call calls ih =>
    obtain ⟨names, obj⟩ := call
    rw [List.flatMap_cons] at hcalls ⊢
    obtain ⟨d₁, clientNames, hregs, hfound, hbound₁, hkeep₁⟩ := regs_lettered h obj
      fun name hname => hcalls name (List.mem_append_left _ hname)
    obtain ⟨d', hall, hbound, hkeep⟩ := ih hfound
      fun name hname => hcalls name (List.mem_append_right _ hname)
    refine ⟨d', ?_, ?_, fun key hkey => hkeep key (hkeep₁ key hkey)⟩
    · rw [registerAll, hregs, ok_bind]
      exact hall
    · intro name hname
      rcases List.mem_append.mp hname with hname | hname
      · exact hkeep name (hbound₁ name hname)
      · exact hbound name hname

theorem Found.regs (h : Found ftable d) {obj : Option O} {names : List Bytes}
    {clientNames : List Bytes}
    (hregs : Dispatcher.regs (handlers ftable obj) d names = .ok (d', clientNames)) :
    Found ftable d' := by
  induction names generalizing d clientNames with
  | nil =>
    cases hregs
    exact h
  | cons name names ih =>
    rw [Dispatcher.regs] at hregs
    simp only [reg_funcname] at hregs
    cases hlast : (gmatchAlpha name).getLast? with
    | none =>
      simp only [hlast] at hregs
      cases hregs
    | some word =>
      simp only [hlast] at hregs
      cases hrest : Dispatcher.regs (handlers ftable obj)
          (d.reg (handlers ftable obj) name).1 names with
      | error e =>
        rw [hrest, error_bind] at hregs
        cases hregs
      | ok r =>
        obtain ⟨d₁, names₁⟩ := r
        rw [hrest, ok_bind] at hregs
        cases hregs
        exact ih (h.reg obj name) hrest

theorem Found.registerAll (h : Found ftable d) {calls : List (List Bytes × Option O)}
    (hall : registerAll ftable d calls = .ok d') : Found ftable d' := by
  induction calls generalizing d with
  | nil =>
    cases hall
    exact h
  | cons call calls ih =>
    obtain ⟨names, obj⟩ := call
    rw [Lua.registerAll] at hall
    cases hregs : Dispatcher.regs (handlers ftable obj) d names with
    | error e =>
      rw [hregs, error_bind] at hall
      cases hall
    | ok r =>
      obtain ⟨d₁, clientNames⟩ := r
      rw [hregs, ok_bind] at hall
      exact ih (h.regs hregs) hall

end Registered

/-- **Handlers by name.** Calls of `M:regs` with names of messages bind each name to the handler
that has its last identifier, whatever handlers there are, exactly if all last identifiers are
made of letters. -/
theorem bindsByName_iff (calls : List (List Bytes × Option O))
    (hcalls : ∀ name ∈ calls.flatMap Prod.fst, Qualified name) :
    BindsByName calls ↔ ∀ name ∈ calls.flatMap Prod.fst, Alphabetic (lastIdentifier name) := by
  constructor
  · intro h name hname
    by_contra halpha
    -- the one handler has the name of the message, and is not found under the last match
    obtain ⟨d, hall, hbound⟩ :=
      h Unit fun key => if key = lastIdentifier name then some () else none
    have hfound := found_new.registerAll hall
    have hmap := hbound.bound name hname
    rw [if_pos rfl, Option.map_eq_some_iff] at hmap
    obtain ⟨e, he, -⟩ := hmap
    obtain ⟨word, hword, hf⟩ := Option.bind_eq_some_iff.mp (hfound name e he)
    split_ifs at hf with hlast
    exact getLast?_gmatchAlpha_ne halpha (hlast ▸ hword)
  · intro halpha F ftable
    have hnew : Found ftable (Dispatcher.new : Dispatcher (Handler F O)) := found_new
    obtain ⟨d, hall, hbound, -⟩ := registerAll_lettered hnew
      fun name hname => ⟨hcalls name hname, halpha name hname⟩
    exact ⟨d, hall, .of_bound hbound⟩

/-- `"pb.PingREQ"` and `"pb.TestMsg"`, in two calls. -/
theorem bindsByName_iff_two :
    BindsByName [([literal "pb.PingREQ"], (none : Option Unit)),
      ([literal "pb.TestMsg"], some ())] := by
  have hpb : Identifier (literal "pb") := ⟨⟨112, rfl, by decide⟩, List.all_eq_true.mp rfl⟩
  have hping : Identifier (literal "PingREQ") := ⟨⟨80, rfl, by decide⟩, List.all_eq_true.mp rfl⟩
  have htest : Identifier (literal "TestMsg") := ⟨⟨84, rfl, by decide⟩, List.all_eq_true.mp rfl⟩
  refine (bindsByName_iff _ ?_).mpr ?_
  · intro name hname
    rcases List.mem_pair.mp hname with rfl | rfl
    · exact .package hpb (.single hping)
    · exact .package hpb (.single htest)
  · intro name hname
    rcases List.mem_pair.mp hname with rfl | rfl
    · exact List.all_eq_true.mp rfl
    · exact List.all_eq_true.mp rfl

/-- Two handlers, one of which has a digit in its name. -/
def loginHandlers : Bytes → Option ℕ := fun funcname =>
  if funcname = literal "Login" then some 1
  else if funcname = literal "Login2" then some 2
  else none

/-- Both messages are bound to the handler of `"Login"`. -/
theorem login2_runs_login :
    Qualified (literal "pb.Login") ∧ Qualified (literal "pb.Login2") ∧
    ∃ d : Dispatcher (Handler ℕ Unit),
      registerAll loginHandlers .new [([literal "pb.Login", literal "pb.Login2"], none)] = .ok d ∧
      (d.map (literal "pb.Login")).map Handler.f = some 1 ∧
      (d.map (literal "pb.Login2")).map Handler.f = some 1 ∧
      loginHandlers (lastIdentifier (literal "pb.Login2")) = some 2 ∧
      ¬ BoundByName loginHandlers d [literal "pb.Login", literal "pb.Login2"] := by
  have hpb : Identifier (literal "pb") := ⟨⟨112, rfl, by decide⟩, List.all_eq_true.mp rfl⟩
  have hlogin : Identifier (literal "Login") := ⟨⟨76, rfl, by decide⟩, List.all_eq_true.mp rfl⟩
  have hlogin2 : Identifier (literal "Login2") := ⟨⟨76, rfl, by decide⟩, List.all_eq_true.mp rfl⟩
  refine ⟨.package hpb (.single hlogin), .package hpb (.single hlogin2), _, rfl, rfl, rfl, rfl,
    fun h => ?_⟩
  have hbound := h.bound (literal "pb.Login2") (List.mem_cons_of_mem _ List.mem_cons_self)
  cases hbound

end TestCluster.Lua
