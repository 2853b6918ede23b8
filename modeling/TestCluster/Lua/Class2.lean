import TestCluster.Semantics.Inherit
import TestCluster.Semantics.Machine

/-!
# Classes that copy their methods

`class2` of `luaext.lua`. A method is assigned to the table `vtbl` of its class. A lookup that
finds nothing in it asks that of the superclass, and copies what it gets. The fields that
`class2` makes itself are assigned to the class instead.

An object is made step by step: its constructors run in between, and can do whatever the rest of
the program can. It has no fields of its own here, which Lua would look up first.

## Main definitions

* `Value`, `Key`, `State` — the values, the keys of a class, and all classes and objects
* `State.assign`, `State.index`, `State.create` — `__newindex`, `__index` and `create`
* `State.Correct` — lookups give what was assigned last on the nearest class that has the method,
  and constructors are run in the order of the chain
* `State.keepsCopies` — an assignment leaves no other copies of a method than of its new value

## Main results

* `State.correct_of_keepsCopies` — lookups and constructors are right in every run in which the
  assignments keep the copies right
-/

namespace TestCluster.Lua.Class2

open Semantics

/-! ### The code -/

/-- A class: where its table is, and the class that it was made with for `super`. -/
abbrev Class := Lineage ℕ

/-- The keys of a class: the fields that `class2` makes, and the names of methods. -/
inductive Key (K : Type)
  | ctor
  | super
  | new
  | method (name : K)
  deriving DecidableEq, Repr

/-- The values other than `nil`. -/
inductive Value (F D : Type)
  | false
  | table (c : Class)
  | new (c : Class)
  | function (f : F)
  | other (d : D)
  deriving DecidableEq, Repr

namespace Value

variable {F D : Type}

/-- The value as a condition. -/
def truthy : Value F D → Bool
  | .false => Bool.false
  | _ => true

/-- The value can be called. -/
def callable : Value F D → Bool
  | .new _ => true
  | .function _ => true
  | _ => Bool.false

end Value

/-- The constructor that a value of `ctor` stands for. -/
def constructor? {F D : Type} (v : Option (Value F D)) : Option (Value F D) :=
  v.filter Value.truthy

/-- What a call of `create` has still to do. -/
inductive Frame
  | enter (c : Class)
  | leave (c : Class)
  deriving DecidableEq, Repr

/-- An object that `new` makes: the calls of `create` that did not end, and its metatable. The
constructors that were called and the classes that had their turns, with what was assigned to
`ctor` then, are kept for the statements about them. -/
structure Object (F D : Type) where
  classType : Class
  frames : List Frame
  metatable : Option Class
  calls : List (Class × Value F D)
  turns : List (Class × Option (Value F D))

/-- Tables of all classes. -/
abbrev Tables (K F D : Type) := Class → Key K → Option (Value F D)

/-- The classes that `_class` has an entry for, their own fields, the tables in `_class`, and the
objects. What was assigned last is kept for the statements about it. -/
structure State (K F D : Type) where
  classes : List Class
  fields : Tables K F D
  vtbl : Tables K F D
  objects : ℕ → Option (Object F D)
  assigned : Tables K F D

/-- What a program does with classes: a call of `class2`, the assignment `c[k] = v`, a call of the
function that was made for `c.new`, a step of it, and the lookup of a key of an object. -/
inductive Event (K F D : Type)
  | class2 (c : Class)
  | assign (c : Class) (k : Key K) (v : Option (Value F D))
  | new (c : Class) (o : ℕ)
  | create (o : ℕ)
  | lookup (o : ℕ) (k : Key K)

section Code

variable {K F D : Type} [DecidableEq K]

/-- The assignment of a value in one of the tables. -/
def Tables.put (t : Tables K F D) (c : Class) (k : Key K) (v : Option (Value F D)) :
    Tables K F D :=
  Function.update t c (Function.update (t c) k v)

/-- The function `__index` of the table of a class, after what the table has itself. -/
def index (vtbl : Tables K F D) (k : Key K) : Class → Option (Value F D) × Tables K F D
  | .root i => (vtbl (.root i) k, vtbl)
  | .sub i super =>
    match vtbl (.sub i super) k with
    | some v => (some v, vtbl)
    | none =>
      let (ret, vtbl) := index vtbl k super
      (ret, vtbl.put (.sub i super) k ret)

/-- The fields of a class when `class2` returns it. -/
def newFields (c : Class) : Key K → Option (Value F D)
  | .ctor => some .false
  | .super => c.parent?.map .table
  | .new => some (.new c)
  | .method _ => none

namespace State

variable (s : State K F D)

/-- Nothing was done. -/
def start : State K F D where
  classes := []
  fields _ _ := none
  vtbl _ _ := none
  objects _ := none
  assigned _ _ := none

/-- `class2`. -/
def class2 (c : Class) : State K F D :=
  { s with
    classes := c :: s.classes
    fields := Function.update s.fields c (newFields c)
    vtbl := Function.update s.vtbl c fun _ => none }

/-- An assignment: to a field that the class has, or else by `__newindex`. -/
def assign (c : Class) (k : Key K) (v : Option (Value F D)) : State K F D :=
  let s := { s with assigned := s.assigned.put c k v }
  match s.fields c k with
  | some _ => { s with fields := s.fields.put c k v }
  | none => { s with vtbl := s.vtbl.put c k v }

/-- The function `new`, up to its call of `create`. -/
def new (c : Class) (o : ℕ) : State K F D :=
  { s with objects := Function.update s.objects o (some ⟨c, [.enter c], none, [], []⟩) }

/-- The next step of `create`, or `setmetatable` when it has returned. A constructor that cannot
be called is an error; superclasses that are not classes are not followed. -/
def create (obj : Object F D) : Option (Object F D) :=
  match obj.frames with
  | .enter c :: frames =>
    match s.fields c .super with
    | none | some .false => some { obj with frames := .leave c :: frames }
    | some (.table super) => some { obj with frames := .enter super :: .leave c :: frames }
    | some _ => none
  | .leave c :: frames =>
    let obj := { obj with frames := frames, turns := obj.turns ++ [(c, s.assigned c .ctor)] }
    match constructor? (s.fields c .ctor) with
    | none => some obj
    | some f => if f.callable then some { obj with calls := obj.calls ++ [(c, f)] } else none
  | [] =>
    match obj.metatable with
    | none => some { obj with metatable := some obj.classType }
    | some _ => none

/-- The lookup of a key of an object. -/
def lookup (obj : Object F D) (k : Key K) : Option (Value F D) × State K F D :=
  match obj.metatable with
  | none => (none, s)
  | some c =>
    let (ret, vtbl) := index s.vtbl k c
    (ret, { s with vtbl := vtbl })

/-- One step of the program. -/
def step : Event K F D → Option (State K F D)
  | .class2 c =>
    if c ∉ s.classes ∧ ∀ p ∈ c.parent?, p ∈ s.classes then some (s.class2 c) else none
  | .assign c k v => if c ∈ s.classes then some (s.assign c k v) else none
  | .new c o => if c ∈ s.classes ∧ (s.objects o).isNone then some (s.new c o) else none
  | .create o => do
    let obj ← s.objects o
    let obj ← s.create obj
    some { s with objects := Function.update s.objects o (some obj) }
  | .lookup o k => (s.objects o).map fun obj => (s.lookup obj k).2

end State

end Code

/-! ### What is right, and when -/

section Statements

variable {K F D : Type}

/-- What all classes have under one key. -/
def Tables.slice (t : Tables K F D) (k : Key K) : Class → Option (Value F D) := fun c => t c k

/-- The call of the constructor that a class had when it had its turn. -/
def turnCall (t : Class × Option (Value F D)) : Option (Class × Value F D) :=
  (constructor? t.2).map fun f => (t.1, f)

/-- Each class of the chain had one turn, from the root on, and the constructors that were called
are those that the classes had then, each once. -/
structure Object.Constructed (obj : Object F D) : Prop where
  order : obj.turns.map Prod.fst = obj.classType.chain.reverse
  calls : obj.calls = obj.turns.filterMap turnCall
  once : (obj.calls.map Prod.fst).Nodup

variable [DecidableEq K]

namespace State

variable (s : State K F D)

/-- For the objects that are finished, a lookup of a method gives what was assigned last to the
nearest class that has it, and the constructors were run. -/
structure Correct : Prop where
  lookup : ∀ o obj n, s.objects o = some obj → obj.metatable.isSome →
    (s.lookup obj (.method n)).1 = walk (s.assigned.slice (.method n)) obj.classType
  constructed : ∀ o obj, s.objects o = some obj → obj.metatable.isSome → obj.Constructed

/-- The classes that inherit the key from the class have no copy of it, or one of the value that
they inherit after the assignment. -/
def copiesAgree (c : Class) (k : Key K) (v : Option (Value F D)) : Prop :=
  ∀ d ∈ s.classes, Under (s.assigned.slice k) c d →
    s.vtbl d k = none ∨ s.vtbl d k = v.or (inherited (s.assigned.slice k) c)

/-- An assignment that leaves lookups and constructors right: of a method that no class below has
a copy of; of a constructor as long as the class has its field `ctor`; of the superclass that is
there already. -/
def keepsCopies : Event K F D → Prop
  | .assign c (.method n) v => s.copiesAgree c (.method n) v
  | .assign c .ctor v => (s.fields c .ctor).isSome ∨ constructor? v = none
  | .assign c .super v => c.parent? = none ∨ v = c.parent?.map .table
  | _ => True

end State

end Statements

/-! ### Lookups -/

section Lookups

variable {K F D : Type} [DecidableEq K] {vtbl : Tables K F D} {k k' : Key K}

omit [DecidableEq K] in
@[simp] theorem Tables.slice_apply (t : Tables K F D) (k : Key K) (c : Class) :
    t.slice k c = t c k := rfl

theorem Tables.put_slice (t : Tables K F D) (c : Class) (k : Key K) (v : Option (Value F D)) :
    (t.put c k v).slice k = Function.update (t.slice k) c v := by
  funext d
  rcases eq_or_ne d c with rfl | hne
  · simp [put]
  · simp [put, hne]

theorem Tables.put_slice_of_ne (t : Tables K F D) (c : Class) (v : Option (Value F D))
    (hk : k' ≠ k) : (t.put c k v).slice k' = t.slice k' := by
  funext d
  rcases eq_or_ne d c with rfl | hne
  · simp [put, hk]
  · simp [put, hne]

theorem Tables.put_of_ne (t : Tables K F D) (k : Key K) (v : Option (Value F D)) {c d : Class}
    (hne : d ≠ c) : t.put c k v d = t d :=
  Function.update_of_ne hne _ _

/-- A lookup copies nothing of other keys. -/
theorem index_slice_of_ne (hk : k' ≠ k) (c : Class) :
    (index vtbl k c).2.slice k' = vtbl.slice k' := by
  induction c with
  | root i => rfl
  | sub i p ih =>
    rw [index]
    cases vtbl (.sub i p) k with
    | some v => rfl
    | none => exact (Tables.put_slice_of_ne _ _ _ hk).trans ih

/-- A lookup copies nothing into other classes than those of the chain. -/
theorem index_of_notMem {c d : Class} (hd : d ∉ c.chain) :
    (index vtbl k c).2 d k' = vtbl d k' := by
  induction c with
  | root i => rfl
  | sub i p ih =>
    rw [Lineage.chain, List.mem_cons, not_or] at hd
    rw [index]
    cases vtbl (.sub i p) k with
    | some v => rfl
    | none => exact (congrFun (Tables.put_of_ne _ _ _ hd.1) k').trans (ih hd.2)

theorem index_of_some {c : Class} {v : Value F D} (h : vtbl c k = some v) :
    index vtbl k c = (some v, vtbl) := by
  cases c with
  | root i => rw [index, h]
  | sub i p => simp only [index, h]

/-- **Lookups.** Where the copies are faithful a lookup gives what the walk finds, and the copies
that it makes are faithful. -/
theorem index_faithful {own : Class → Option (Value F D)} (h : Faithful (vtbl.slice k) own)
    (c : Class) : (index vtbl k c).1 = walk own c ∧ Faithful ((index vtbl k c).2.slice k) own := by
  induction c with
  | root i =>
    refine ⟨?_, h⟩
    change vtbl (.root i) k = _
    cases hc : vtbl (.root i) k with
    | some v => exact (h.sound _ v hc).symm
    | none => exact (h.walk_of_none hc).symm
  | sub i p ih =>
    rw [index]
    cases hc : vtbl (.sub i p) k with
    | some v => exact ⟨(h.sound _ v hc).symm, h⟩
    | none =>
      obtain ⟨hret, hcopies⟩ := ih
      refine ⟨hret.trans (h.walk_of_none hc).symm, ?_⟩
      -- the tables of the superclasses have changed, and that of this class has not
      have hkept : (index vtbl k p).2.slice k (.sub i p) = none := by
        rw [Tables.slice_apply, index_of_notMem (Lineage.sub_notMem_chain i p), hc]
      change Faithful (((index vtbl k p).2.put (.sub i p) k (index vtbl k p).1).slice k) own
      rw [Tables.put_slice, hret]
      exact hcopies.copy hkept

end Lookups

/-! ### Constructors -/

/-- The classes that a call of `create` has still to go through. -/
def Frame.todo : Frame → List Class
  | .enter c => c.chain.reverse
  | .leave c => [c]

section Constructors

variable {K F D : Type} [DecidableEq K] {s : State K F D} {obj obj' : Object F D}

/-- The classes that had their turns are the first of the chain, and `create` has still to go
through the others. -/
structure Object.Inv (obj : Object F D) : Prop where
  order : obj.turns.map Prod.fst ++ obj.frames.flatMap Frame.todo = obj.classType.chain.reverse
  calls : obj.calls = obj.turns.filterMap turnCall
  metatable : ∀ c ∈ obj.metatable, c = obj.classType ∧ obj.frames = []

theorem turnCalls_sublist (turns : List (Class × Option (Value F D))) :
    ((turns.filterMap turnCall).map Prod.fst).Sublist (turns.map Prod.fst) := by
  induction turns with
  | nil => exact List.Sublist.slnil
  | cons t turns ih =>
    rw [List.filterMap_cons, turnCall]
    cases constructor? t.2 with
    | none => exact ih.cons _
    | some f => exact ih.cons_cons _

namespace Object.Inv

theorem new (c : Class) : (⟨c, [.enter c], none, [], []⟩ : Object F D).Inv where
  order := by simp [Frame.todo]
  calls := rfl
  metatable _ hc := by cases hc

theorem mem_chain {frame : Frame} {c : Class} (h : obj.Inv) (hframe : frame ∈ obj.frames)
    (hc : c ∈ frame.todo) : c ∈ obj.classType.chain := by
  rw [← List.mem_reverse, ← h.order]
  exact List.mem_append_right _ (List.mem_flatMap.mpr ⟨frame, hframe, hc⟩)

/-- The constructors of an object that is finished were run. -/
theorem constructed (h : obj.Inv) (hfinished : obj.metatable.isSome) : obj.Constructed := by
  obtain ⟨c, hc⟩ := Option.isSome_iff_exists.mp hfinished
  have horder : obj.turns.map Prod.fst = obj.classType.chain.reverse := by
    rw [← h.order, (h.metatable c hc).2, List.flatMap_nil, List.append_nil]
  refine ⟨horder, h.calls, ?_⟩
  rw [h.calls]
  apply (turnCalls_sublist obj.turns).nodup
  rw [horder]
  exact List.nodup_reverse.mpr (Lineage.chain_nodup _)

/-- `create` goes on to the superclass, or else to the class itself. -/
theorem enter {c : Class} {frames : List Frame} (h : obj.Inv)
    (hframes : obj.frames = .enter c :: frames) :
    { obj with
      frames := (c.parent?.map Frame.enter).toList ++ Frame.leave c :: frames }.Inv where
  order := by
    rw [← h.order, hframes]
    cases c with
    | root i => rfl
    | sub i p => simp [Frame.todo, Lineage.chain, Lineage.parent?]
  calls := h.calls
  metatable d hd := by
    have hnil := (h.metatable d hd).2
    rw [hframes] at hnil
    cases hnil

/-- A class has its turn. -/
theorem leave {c : Class} {frames : List Frame} (h : obj.Inv)
    (hframes : obj.frames = .leave c :: frames) (v : Option (Value F D)) :
    { obj with
      frames := frames
      turns := obj.turns ++ [(c, v)]
      calls := obj.calls ++ (turnCall (c, v)).toList }.Inv where
  order := by
    rw [← h.order, hframes]
    simp [Frame.todo]
  calls := by
    simp only [h.calls, List.filterMap_append]
    cases hcall : turnCall (c, v) with
    | none => simp [hcall]
    | some f => simp [hcall]
  metatable d hd := by
    have hnil := (h.metatable d hd).2
    rw [hframes] at hnil
    cases hnil

/-- The object gets its metatable. -/
theorem finish (h : obj.Inv) (hframes : obj.frames = []) :
    { obj with frames := [], metatable := some obj.classType }.Inv where
  order := by rw [← h.order, hframes]
  calls := h.calls
  metatable _ hc := ⟨(Option.mem_some_iff.mp hc).symm, rfl⟩

end Object.Inv

end Constructors

/-! ### All runs -/

section Runs

namespace State

variable {K F D : Type} [DecidableEq K] {s s' : State K F D}

/-- The fields of a class: its superclass, the constructor that was assigned, and no methods. -/
structure OwnFields (c : Class) (fields : Key K → Option (Value F D))
    (ctor : Option (Value F D)) : Prop where
  super : fields .super = c.parent?.map .table
  ctor : constructor? (fields .ctor) = constructor? ctor
  methods : ∀ n, fields (.method n) = none

/-- The superclasses are there, the fields are what was assigned, the copies are faithful, and the
objects are under way. -/
structure Inv (s : State K F D) : Prop where
  closed : ∀ i p, .sub i p ∈ s.classes → p ∈ s.classes
  unused : ∀ c ∉ s.classes, ∀ k, s.vtbl c k = none ∧ s.assigned c k = none
  fields : ∀ c ∈ s.classes, OwnFields c (s.fields c) (s.assigned c .ctor)
  faithful : ∀ n, Faithful (s.vtbl.slice (.method n)) (s.assigned.slice (.method n))
  objects : ∀ o obj, s.objects o = some obj → obj.classType ∈ s.classes ∧ obj.Inv

namespace Inv

omit [DecidableEq K] in
theorem start : (start : State K F D).Inv where
  closed _ _ h := absurd h List.not_mem_nil
  unused _ _ _ := ⟨rfl, rfl⟩
  fields _ h := absurd h List.not_mem_nil
  faithful _ := Faithful.empty
  objects o obj h := by cases h

theorem correct (h : s.Inv) : s.Correct where
  lookup o obj n hobj hfinished := by
    obtain ⟨c, hc⟩ := Option.isSome_iff_exists.mp hfinished
    obtain rfl := ((h.objects o obj hobj).2.metatable c hc).1
    rw [State.lookup, hc]
    exact (index_faithful (h.faithful n) obj.classType).1
  constructed o obj hobj := (h.objects o obj hobj).2.constructed

omit [DecidableEq K] in
theorem class2 {c : Class} (h : s.Inv) (hnew : c ∉ s.classes)
    (hsuper : ∀ p ∈ c.parent?, p ∈ s.classes) : (s.class2 c).Inv := by
  have hvtbl : Function.update s.vtbl c (fun _ => none) = s.vtbl := by
    rw [Function.update_eq_self_iff]
    funext k
    exact ((h.unused c hnew k).1).symm
  constructor
  · intro i p hp
    rcases List.mem_cons.mp hp with rfl | hp
    · exact List.mem_cons_of_mem _ (hsuper p rfl)
    · exact List.mem_cons_of_mem _ (h.closed i p hp)
  · intro d hd k
    have hd' : d ∉ s.classes := fun hmem => hd (List.mem_cons_of_mem _ hmem)
    change Function.update s.vtbl c (fun _ => none) d k = none ∧ _
    rw [hvtbl]
    exact h.unused d hd' k
  · intro d hd
    change OwnFields d (Function.update s.fields c (newFields c) d) (s.assigned d .ctor)
    rcases List.mem_cons.mp hd with rfl | hd
    · rw [Function.update_self, (h.unused d hnew .ctor).2]
      exact ⟨rfl, rfl, fun _ => rfl⟩
    · have hne : d ≠ c := fun heq => hnew (heq ▸ hd)
      rw [Function.update_of_ne hne]
      exact h.fields d hd
  · intro n
    change Faithful (Tables.slice (Function.update s.vtbl c (fun _ => none)) _) _
    rw [hvtbl]
    exact h.faithful n
  · intro o obj hobj
    obtain ⟨hknown, hinv⟩ := h.objects o obj hobj
    exact ⟨List.mem_cons_of_mem _ hknown, hinv⟩

omit [DecidableEq K] in
/-- The next step of `create` is one of the three kinds. -/
theorem create {obj obj' : Object F D} (h : s.Inv) (hknown : obj.classType ∈ s.classes)
    (hobj : obj.Inv) (hcreate : s.create obj = some obj') :
    obj'.classType = obj.classType ∧ obj'.Inv := by
  have hmem : ∀ frame ∈ obj.frames, ∀ c ∈ frame.todo, c ∈ s.classes := fun frame hframe c hc =>
    Lineage.mem_of_mem_chain h.closed hknown (hobj.mem_chain hframe hc)
  rw [State.create] at hcreate
  cases hframes : obj.frames with
  | nil =>
    simp only [hframes] at hcreate
    cases hmeta : obj.metatable with
    | none =>
      simp only [hmeta] at hcreate
      cases hcreate
      exact ⟨rfl, hobj.finish hframes⟩
    | some c =>
      simp only [hmeta] at hcreate
      cases hcreate
  | cons frame frames =>
    rw [hframes] at hmem
    cases frame with
    | enter c =>
      have hsuper := (h.fields c (hmem _ List.mem_cons_self c (by simp [Frame.todo,
        Lineage.mem_chain_self]))).super
      have hnext := hobj.enter hframes
      simp only [hframes, hsuper] at hcreate
      cases c with
      | root i =>
        cases hcreate
        exact ⟨rfl, hnext⟩
      | sub i p =>
        cases hcreate
        exact ⟨rfl, hnext⟩
    | leave c =>
      have hctor := (h.fields c (hmem _ List.mem_cons_self c (List.mem_singleton_self c))).ctor
      have hnext := hobj.leave hframes (s.assigned c .ctor)
      rw [turnCall, ← hctor] at hnext
      simp only [hframes] at hcreate
      cases hcall : constructor? (s.fields c .ctor) with
      | none =>
        simp only [hcall, Option.map_none, Option.toList_none, List.append_nil] at hcreate hnext
        cases hcreate
        exact ⟨rfl, hnext⟩
      | some f =>
        simp only [hcall, Option.map_some, Option.toList_some] at hcreate hnext
        split_ifs at hcreate
        cases hcreate
        exact ⟨rfl, hnext⟩

theorem lookup {obj : Object F D} (h : s.Inv) (hknown : obj.classType ∈ s.classes)
    (hobj : obj.Inv) (k : Key K) : (s.lookup obj k).2.Inv := by
  rw [State.lookup]
  cases hmeta : obj.metatable with
  | none => exact h
  | some c =>
    obtain rfl := (hobj.metatable c hmeta).1
    refine ⟨h.closed, fun d hd k' => ?_, h.fields, fun n => ?_, h.objects⟩
    · have hout : d ∉ obj.classType.chain := fun hin =>
        hd (Lineage.mem_of_mem_chain h.closed hknown hin)
      refine ⟨?_, (h.unused d hd k').2⟩
      exact (index_of_notMem hout).trans (h.unused d hd k').1
    · change Faithful ((index s.vtbl k obj.classType).2.slice (.method n)) _
      rcases eq_or_ne (.method n) k with rfl | hne
      · exact (index_faithful (h.faithful n) obj.classType).2
      · rw [index_slice_of_ne hne]
        exact h.faithful n

omit [DecidableEq K] in
theorem update_objects {obj : Object F D} (h : s.Inv) (hknown : obj.classType ∈ s.classes)
    (hobj : obj.Inv) (o : ℕ) :
    { s with objects := Function.update s.objects o (some obj) }.Inv where
  closed := h.closed
  unused := h.unused
  fields := h.fields
  faithful := h.faithful
  objects o' obj' h' := by
    rcases update_cases h' with ⟨-, hnew⟩ | ⟨-, hold⟩
    · cases hnew
      exact ⟨hknown, hobj⟩
    · exact h.objects o' obj' hold

end Inv

/-! ### Assignments -/

section Assign

variable {c : Class} {k : Key K} {v w : Option (Value F D)}

theorem assign_of_some {w : Value F D} (h : s.fields c k = some w) : s.assign c k v =
    { s with assigned := s.assigned.put c k v, fields := s.fields.put c k v } := by
  simp only [assign, h]

theorem assign_of_none (h : s.fields c k = none) : s.assign c k v =
    { s with assigned := s.assigned.put c k v, vtbl := s.vtbl.put c k v } := by
  simp only [assign, h]

/-- A class that has the field gets its new value. -/
theorem OwnFields.put (h : OwnFields c (s.fields c) (s.assigned c .ctor))
    (hkeeps : s.keepsCopies (.assign c k v)) {w : Value F D} (hk : s.fields c k = some w) :
    OwnFields c (s.fields.put c k v c) (s.assigned.put c k v c .ctor) := by
  simp only [Tables.put, Function.update_self]
  cases k with
  | ctor => exact ⟨h.super, by simp, h.methods⟩
  | super =>
    have hv : v = c.parent?.map .table := by
      rcases hkeeps with hroot | hsame
      · rw [h.super, hroot] at hk
        cases hk
      · exact hsame
    exact ⟨hv, h.ctor, h.methods⟩
  | new => exact ⟨h.super, h.ctor, h.methods⟩
  | method n =>
    rw [h.methods] at hk
    cases hk

/-- A class that does not have the field keeps the others. -/
theorem OwnFields.keep (h : OwnFields c (s.fields c) (s.assigned c .ctor))
    (hkeeps : s.keepsCopies (.assign c k v)) (hk : s.fields c k = none) :
    OwnFields c (s.fields c) (s.assigned.put c k v c .ctor) := by
  simp only [Tables.put, Function.update_self]
  cases k with
  | ctor =>
    have hv : constructor? v = none := by
      rcases hkeeps with hfield | hv
      · rw [hk] at hfield
        cases hfield
      · exact hv
    exact ⟨h.super, by rw [hk, Function.update_self, hv]; rfl, h.methods⟩
  | super => exact ⟨h.super, h.ctor, h.methods⟩
  | new => exact ⟨h.super, h.ctor, h.methods⟩
  | method n => exact ⟨h.super, h.ctor, h.methods⟩

/-- The copies of the other classes are right after an assignment. -/
theorem Inv.faithful_put (h : s.Inv) (hkeeps : s.keepsCopies (.assign c k v)) (n : K) :
    Faithful ((s.vtbl.put c k v).slice (.method n)) ((s.assigned.put c k v).slice (.method n)) := by
  rcases eq_or_ne (.method n) k with rfl | hne
  · rw [Tables.put_slice, Tables.put_slice, (h.faithful n).assign_iff]
    intro d hd
    by_cases hknown : d ∈ s.classes
    · exact hkeeps d hknown hd
    · exact Or.inl (h.unused d hknown _).1
  · rw [Tables.put_slice_of_ne _ _ _ hne, Tables.put_slice_of_ne _ _ _ hne]
    exact h.faithful n

/-- A field is no method. -/
theorem Inv.faithful_field (h : s.Inv) (hc : c ∈ s.classes) {w : Value F D}
    (hk : s.fields c k = some w) (n : K) :
    Faithful (s.vtbl.slice (.method n)) ((s.assigned.put c k v).slice (.method n)) := by
  have hne : .method n ≠ k := by
    rintro rfl
    rw [(h.fields c hc).methods] at hk
    cases hk
  rw [Tables.put_slice_of_ne _ _ _ hne]
  exact h.faithful n

theorem Inv.assign (h : s.Inv) (hc : c ∈ s.classes) (hkeeps : s.keepsCopies (.assign c k v)) :
    (s.assign c k v).Inv := by
  have hunused : ∀ d ∉ s.classes, d ≠ c := fun d hd heq => hd (heq ▸ hc)
  cases hk : s.fields c k with
  | some w =>
    rw [assign_of_some hk]
    refine ⟨h.closed, fun d hd k' => ?_, fun d hd => ?_, h.faithful_field hc hk, h.objects⟩
    · dsimp only
      rw [Tables.put_of_ne _ _ _ (hunused d hd)]
      exact h.unused d hd k'
    · rcases eq_or_ne d c with rfl | hne
      · exact (h.fields d hd).put hkeeps hk
      · dsimp only
        rw [Tables.put_of_ne _ _ _ hne, Tables.put_of_ne _ _ _ hne]
        exact h.fields d hd
  | none =>
    rw [assign_of_none hk]
    refine ⟨h.closed, fun d hd k' => ?_, fun d hd => ?_, h.faithful_put hkeeps, h.objects⟩
    · dsimp only
      rw [Tables.put_of_ne _ _ _ (hunused d hd), Tables.put_of_ne _ _ _ (hunused d hd)]
      exact h.unused d hd k'
    · rcases eq_or_ne d c with rfl | hne
      · exact (h.fields d hd).keep hkeeps hk
      · dsimp only
        rw [Tables.put_of_ne _ _ _ hne]
        exact h.fields d hd

/-- After an assignment the lookups of all classes are right exactly if the copies agree with
it. -/
theorem Inv.index_assign_iff {n : K} (h : s.Inv) (hc : c ∈ s.classes) :
    (∀ d ∈ s.classes, (index (s.assign c (.method n) v).vtbl (.method n) d).1 =
      walk ((s.assign c (.method n) v).assigned.slice (.method n)) d) ↔
      s.copiesAgree c (.method n) v := by
  rw [assign_of_none ((h.fields c hc).methods n)]
  constructor
  · intro hright d hd hunder
    cases hcopy : s.vtbl d (.method n) with
    | none => exact Or.inl rfl
    | some w =>
      -- a copy is returned by the lookup
      have hkept : s.vtbl.put c (.method n) v d (.method n) = some w := by
        rw [Tables.put_of_ne _ _ _ hunder.ne, hcopy]
      have hwalk := hright d hd
      rw [index_of_some hkept, Tables.put_slice, walk_update_under v hunder] at hwalk
      exact Or.inr hwalk
  · intro hcopies d hd
    exact (index_faithful (h.faithful_put (k := .method n) hcopies n) d).1

end Assign

theorem Inv.step {e : Event K F D} (h : s.Inv) (hkeeps : s.keepsCopies e)
    (hstep : s.step e = some s') : s'.Inv := by
  cases e with
  | class2 c =>
    rw [State.step] at hstep
    split_ifs at hstep with hok
    cases hstep
    exact h.class2 hok.1 hok.2
  | assign c k v =>
    rw [State.step] at hstep
    split_ifs at hstep with hc
    cases hstep
    exact h.assign hc hkeeps
  | new c o =>
    rw [State.step] at hstep
    split_ifs at hstep with hok
    cases hstep
    exact h.update_objects hok.1 (Object.Inv.new c) o
  | create o =>
    simp only [State.step, Option.bind_eq_bind, Option.bind_eq_some_iff] at hstep
    obtain ⟨obj, hobj, obj', hcreate, hnext⟩ := hstep
    obtain ⟨hknown, hinv⟩ := h.objects o obj hobj
    obtain ⟨hsame, hinv'⟩ := h.create hknown hinv hcreate
    cases hnext
    exact h.update_objects (hsame ▸ hknown) hinv' o
  | lookup o k =>
    obtain ⟨obj, hobj, rfl⟩ := Option.map_eq_some_iff.mp hstep
    obtain ⟨hknown, hinv⟩ := h.objects o obj hobj
    exact h.lookup hknown hinv k

/-- **Copied methods.** In a run in which each assignment leaves the copies right, all lookups
give what was assigned last to the nearest class of the chain that has the method, and all objects
were made by the constructors of their chains, from the root on and each once. -/
theorem correct_of_keepsCopies (h : Reachable step keepsCopies (start : State K F D) s) :
    s.Correct := by
  have hinv : s.Inv := h.invariant Inv.start fun _ _ _ hs hok hstep => hs.step hok hstep
  exact hinv.correct

instance [DecidableEq F] [DecidableEq D] (s : State K F D) (e : Event K F D) :
    Decidable (s.keepsCopies e) :=
  match e with
  | .class2 _ => inferInstanceAs (Decidable True)
  | .assign c k v =>
    match k with
    | .ctor => inferInstanceAs (Decidable ((s.fields c .ctor).isSome ∨ constructor? v = none))
    | .super => inferInstanceAs (Decidable (c.parent? = none ∨ v = c.parent?.map .table))
    | .new => inferInstanceAs (Decidable True)
    | .method n => inferInstanceAs (Decidable (∀ d ∈ s.classes,
        Under (s.assigned.slice (.method n)) c d → _ ∨ _))
  | .new _ _ => inferInstanceAs (Decidable True)
  | .create _ => inferInstanceAs (Decidable True)
  | .lookup _ _ => inferInstanceAs (Decidable True)

/-- A class. -/
def base : Class := .root 0

/-- A class with the superclass `base`. -/
def derived : Class := .sub 1 base

/-- Both classes have constructors, and the method of `base` is looked up on an object of
`derived`, which gets its own one then. -/
theorem correct_derived : ∃ s : State ℕ ℕ ℕ, Reachable step keepsCopies start s ∧ s.Correct ∧
    (s.objects 0).map Object.calls = some [(base, .function 0), (derived, .function 1)] := by
  have hrun : run (fun (s : State ℕ ℕ ℕ) e => if s.keepsCopies e then s.step e else none) start
      [.class2 base, .class2 derived, .assign base .ctor (some (.function 0)),
        .assign derived .ctor (some (.function 1)),
        .assign base (.method 0) (some (.function 2)), .new derived 0, .create 0, .create 0,
        .create 0, .create 0, .create 0, .lookup 0 (.method 0),
        .assign derived (.method 0) (some (.function 3)), .lookup 0 (.method 0)] = some _ := rfl
  have hreach := Reachable.of_guarded_run hrun
  exact ⟨_, hreach, correct_of_keepsCopies hreach, rfl⟩

/-- A method of `base` is looked up on an object of `derived` and then assigned anew: the object
still has the old one. -/
theorem copy_stays : ∃ (s : State ℕ ℕ ℕ) (obj : Object ℕ ℕ),
    Reachable step anyStep start s ∧ s.objects 0 = some obj ∧
    (s.lookup obj (.method 0)).1 = some (.function 2) ∧
    walk (s.assigned.slice (.method 0)) obj.classType = some (.function 3) ∧ ¬ s.Correct := by
  have hrun : run step (start : State ℕ ℕ ℕ)
      [.class2 base, .class2 derived, .assign base (.method 0) (some (.function 2)),
        .new derived 0, .create 0, .create 0, .create 0, .create 0, .create 0,
        .lookup 0 (.method 0), .assign base (.method 0) (some (.function 3))] = some _ := rfl
  refine ⟨_, _, Reachable.of_run hrun, rfl, rfl, rfl, fun h => ?_⟩
  have hlookup : (some (.function 2) : Option (Value ℕ ℕ)) = some (.function 3) :=
    h.lookup 0 _ 0 rfl rfl
  cases hlookup

end State

end Runs

end TestCluster.Lua.Class2
