import TestCluster.BeeCluster.Names
import TestCluster.Semantics.Table

/-!
# Both directions in one table

`register_name` of `bee_clusterd.lua` maps names to addresses and addresses to names, in one
table. `command.register` forgets the name that the address had before, and `command.unregister`
forgets a name and its address.

## Main definitions

* `NameDaemon` — the table, and the sockets with their agents
* `NameDaemon.register`, `NameDaemon.unregister`, `NameDaemon.queryname` — the commands
* `NameDaemon.ofNames` — the one table that stands for the two of a `Registry`

## Main results

* `NameDaemon.registered_names` — names and addresses correspond to each other in every run
* `Names.nameDaemon_reachable` — a run of the daemon and its agents is one of the daemon here
-/

namespace TestCluster.BeeCluster

open Semantics

/-! ### The commands -/

/-- A key of `register_name`, or a value in it. A string is never equal to a number. -/
inductive NameKey (A : Type)
  | name (name : ServiceName)
  | addr (addr : A)
  deriving DecidableEq, Repr

/-- A number that a command gets for an address. A NaN cannot be a key. -/
inductive AddressArg (A : Type)
  | number (a : A)
  | nan
  deriving DecidableEq, Repr

/-- What a command comes to: whether it raises, what it answers, and the sockets whose agents
are sent a `namechange`. -/
structure CommandReply (A : Type) where
  raised : Bool
  answer : Option (NameKey A)
  namechange : ℕ → Bool

/-- The daemon: `register_name`, and the sockets with `cluster_agent`. -/
structure NameDaemon (A : Type) where
  registerName : NameKey A → Option (NameKey A)
  sockets : Sockets

/-- A command arrives, from the service `source`, or the gate or the launcher reports. -/
inductive NameCommand (A : Type)
  | register (source : A) (name : ServiceName) (addr : Option (AddressArg A))
  | unregister (name : ServiceName)
  | queryname (name : ServiceName)
  | socket (e : SocketEvent)
  deriving DecidableEq, Repr

/-- `type(service) == "number"`. -/
def AgentEntry.isNumber : Option AgentEntry → Bool
  | some (.agent _) => true
  | some (.launching _) => false
  | none => false

namespace NameDaemon

variable {A : Type} [DecidableEq A]

/-- No name is registered, and no socket was opened. -/
def init (A : Type) : NameDaemon A := ⟨fun _ => none, .init⟩

variable (s : NameDaemon A)

/-- `register_name[key] = value`. -/
def set (key : NameKey A) (value : Option (NameKey A)) : NameDaemon A :=
  { s with registerName := Function.update s.registerName key value }

omit [DecidableEq A] in
/-- `clearnamecache`: the agents that are sent a message. -/
def clearnamecache (fd : ℕ) : Bool := AgentEntry.isNumber (s.sockets.clusterAgent fd)

/-- `register_name[old_name] = nil` and `clearnamecache()`, where the address has a name. -/
def forget (addr : A) : NameDaemon A × (ℕ → Bool) :=
  match s.registerName (.addr addr) with
  | some oldName => (s.set oldName none, s.clearnamecache)
  | none => (s, fun _ => false)

/-- `command.register`. -/
def register (source : A) (name : ServiceName) (addr : Option (AddressArg A)) :
    NameDaemon A × CommandReply A :=
  if s.registerName (.name name) = none then
    match addr.getD (.number source) with
    | .number addr =>
      let (s, namechange) := s.forget addr
      ((s.set (.addr addr) (some (.name name))).set (.name name) (some (.addr addr)),
        ⟨false, none, namechange⟩)
    -- there is no old name, and the assignment raises
    | .nan => (s, ⟨true, none, fun _ => false⟩)
  else
    (s, ⟨true, none, fun _ => false⟩)

/-- `command.unregister`. -/
def unregister (name : ServiceName) : NameDaemon A × CommandReply A :=
  match s.registerName (.name name) with
  | none => (s, ⟨false, none, fun _ => false⟩)
  | some addr => ((s.set addr none).set (.name name) none, ⟨false, none, s.clearnamecache⟩)

omit [DecidableEq A] in
/-- `command.queryname`. -/
def queryname (name : ServiceName) : NameDaemon A × CommandReply A :=
  (s, ⟨false, s.registerName (.name name), fun _ => false⟩)

/-- A command, with what it comes to. -/
def exec (s : NameDaemon A) : NameCommand A → Option (NameDaemon A × CommandReply A)
  | .register source name addr => some (s.register source name addr)
  | .unregister name => some (s.unregister name)
  | .queryname name => some (s.queryname name)
  | .socket e => (s.sockets.step e).map fun sockets =>
    ({ s with sockets := sockets }, ⟨false, none, fun _ => false⟩)

/-- One event. -/
def step (s : NameDaemon A) (c : NameCommand A) : Option (NameDaemon A) :=
  (s.exec c).map Prod.fst

/-! ### The invariant -/

/-- The table pairs names and addresses up, each with one of the other kind. -/
structure Inv (s : NameDaemon A) : Prop where
  pairing : Pairing s.registerName
  name : ∀ n v, s.registerName (.name n) = some v → ∃ a, v = .addr a
  addr : ∀ a v, s.registerName (.addr a) = some v → ∃ n, v = .name n
  sockets : s.sockets.Inv

variable {s} {s' : NameDaemon A} {c : NameCommand A} {r : CommandReply A}

omit [DecidableEq A] in
theorem inv_init : (init A).Inv where
  pairing := pairing_empty
  name _ _ h := nomatch h
  addr _ _ h := nomatch h
  sockets := Sockets.inv_init

theorem set_of_ne {k k' : NameKey A} (h : k' ≠ k) (v : Option (NameKey A)) :
    (s.set k v).registerName k' = s.registerName k' :=
  Function.update_of_ne h ..

/-- A value that was not assigned was there before. -/
theorem set_eq_some {k k' v' : NameKey A} {v : Option (NameKey A)}
    (h : (s.set k v).registerName k' = some v') :
    (k' = k ∧ v = some v') ∨ s.registerName k' = some v' :=
  (update_cases h).imp_right And.right

theorem set_set (k : NameKey A) (v v' : Option (NameKey A)) :
    (s.set k v).set k v' = s.set k v' := by
  simp only [set, Function.update_idem]

/-- A name and an address that are free are paired. -/
theorem Inv.pair (h : s.Inv) {n : ServiceName} {a : A} (hname : s.registerName (.name n) = none)
    (haddr : s.registerName (.addr a) = none) :
    ((s.set (.addr a) (some (.name n))).set (.name n) (some (.addr a))).Inv := by
  have hne : NameKey.addr a ≠ .name n := fun heq => nomatch heq
  refine ⟨h.pairing.pair haddr hname hne, fun n' v hv => ?_, fun a' v hv => ?_, h.sockets⟩
  · rcases set_eq_some hv with ⟨-, hnew⟩ | hv
    · exact ⟨a, (Option.some.inj hnew).symm⟩
    · rcases set_eq_some hv with ⟨heq, -⟩ | hv
      · exact nomatch heq
      · exact h.name n' v hv
  · rcases set_eq_some hv with ⟨heq, -⟩ | hv
    · exact nomatch heq
    · rcases set_eq_some hv with ⟨-, hnew⟩ | hv
      · exact ⟨n, (Option.some.inj hnew).symm⟩
      · exact h.addr a' v hv

/-- A pair is taken out. -/
theorem Inv.unpair (h : s.Inv) {k v : NameKey A} (hk : s.registerName k = some v) :
    ((s.set v none).set k none).Inv := by
  have hkept : ∀ {k' v'}, ((s.set v none).set k none).registerName k' = some v' →
      s.registerName k' = some v' := by
    intro k' v' hk'
    rcases set_eq_some hk' with ⟨-, hnone⟩ | hk'
    · exact nomatch hnone
    · rcases set_eq_some hk' with ⟨-, hnone⟩ | hk'
      · exact nomatch hnone
      · exact hk'
  exact ⟨h.pairing.unpair hk, fun n' v' hk' => h.name n' v' (hkept hk'),
    fun a' v' hk' => h.addr a' v' (hkept hk'), h.sockets⟩

/-- The name that the address had is forgotten, and the address is paired with the new one. -/
theorem Inv.bind (h : s.Inv) {n : ServiceName} (hfree : s.registerName (.name n) = none) (a : A) :
    (((s.forget a).1.set (.addr a) (some (.name n))).set (.name n) (some (.addr a))).Inv := by
  unfold forget
  cases hold : s.registerName (.addr a) with
  | none => exact h.pair hfree hold
  | some oldName =>
    -- the name is still free when the pair of the address is out
    have hname : ((s.set oldName none).set (.addr a) none).registerName (.name n) = none := by
      have hne : (NameKey.name n : NameKey A) ≠ .addr a := fun heq => nomatch heq
      rw [set_of_ne hne]
      by_cases heq : NameKey.name n = oldName
      · rw [heq]
        exact Function.update_self ..
      · rw [set_of_ne heq, hfree]
    have hpair := (h.unpair hold).pair hname (Function.update_self ..)
    rwa [set_set] at hpair

/-- **Every event keeps the invariant.** -/
theorem Inv.exec (h : s.Inv) (hs : s.exec c = some (s', r)) : s'.Inv := by
  cases c with
  | register source name addr =>
    have hs := congrArg Prod.fst (Option.some.inj hs)
    unfold NameDaemon.register at hs
    split_ifs at hs with hfree
    · split at hs
      next a _ =>
        obtain rfl := hs
        exact h.bind hfree a
      · obtain rfl := hs
        exact h
    · obtain rfl := hs
      exact h
  | unregister name =>
    have hs := congrArg Prod.fst (Option.some.inj hs)
    unfold NameDaemon.unregister at hs
    split at hs
    · obtain rfl := hs
      exact h
    next v hv =>
      obtain rfl := hs
      exact h.unpair hv
  | queryname name =>
    obtain rfl := congrArg Prod.fst (Option.some.inj hs)
    exact h
  | socket e =>
    obtain ⟨sockets, hstep, hs⟩ := Option.map_eq_some_iff.mp hs
    obtain rfl := congrArg Prod.fst hs
    exact ⟨h.pairing, h.name, h.addr, h.sockets.step hstep⟩

/-! ### Who is told -/

/-- A command after which a name does not resolve as before clears the caches. -/
theorem clearnamecache_of_lost (hs : s.exec c = some (s', r)) {n : ServiceName} {v : NameKey A}
    (hn : s.registerName (.name n) = some v) (hlost : s'.registerName (.name n) ≠ some v) :
    r.namechange = s.clearnamecache := by
  cases c with
  | register source name addr =>
    have hs := Option.some.inj hs
    unfold NameDaemon.register at hs
    split_ifs at hs with hfree
    · split at hs
      next a _ =>
        cases hold : s.registerName (.addr a) with
        | some oldName =>
          simp only [forget, hold] at hs
          obtain ⟨-, rfl⟩ := Prod.mk.inj hs
          rfl
        | none =>
          -- nothing was forgotten, and the new name is another one
          simp only [forget, hold] at hs
          obtain ⟨rfl, -⟩ := Prod.mk.inj hs
          refine absurd ?_ hlost
          have hname : (NameKey.name n : NameKey A) ≠ .name name := by
            intro heq
            rw [heq, hfree] at hn
            exact nomatch hn
          have haddr : (NameKey.name n : NameKey A) ≠ .addr a := fun heq => nomatch heq
          rw [set_of_ne hname, set_of_ne haddr, hn]
      · obtain ⟨rfl, -⟩ := Prod.mk.inj hs
        exact absurd hn hlost
    · obtain ⟨rfl, -⟩ := Prod.mk.inj hs
      exact absurd hn hlost
  | unregister name =>
    have hs := Option.some.inj hs
    unfold NameDaemon.unregister at hs
    split at hs
    · obtain ⟨rfl, -⟩ := Prod.mk.inj hs
      exact absurd hn hlost
    · obtain ⟨-, rfl⟩ := Prod.mk.inj hs
      rfl
  | queryname name =>
    obtain ⟨rfl, -⟩ := Prod.mk.inj (Option.some.inj hs)
    exact absurd hn hlost
  | socket e =>
    obtain ⟨sockets, -, hs⟩ := Option.map_eq_some_iff.mp hs
    obtain ⟨rfl, -⟩ := Prod.mk.inj hs
    exact absurd hn hlost

omit [DecidableEq A] in
/-- An agent that was launched, and was not told to exit, is sent the message. -/
theorem Inv.told (h : s.Inv) {fd agent : ℕ} (hlaunch : s.sockets.launch fd = .done agent)
    (hexits : agent ∉ s.sockets.exits) : s.clearnamecache fd = true := by
  cases h.sockets.entries fd with
  | notBegun hl => exact nomatch hl.symm.trans hlaunch
  | launching closed hl =>
    rcases hl with hl | hl
    · exact nomatch hl.symm.trans hlaunch
    · exact nomatch hl.symm.trans hlaunch
  | serving _ _ hentry =>
    rw [clearnamecache, hentry]
    rfl
  | exited hl _ _ hcount =>
    obtain rfl := Launch.done.inj (hl.symm.trans hlaunch)
    exact absurd (List.count_eq_zero_of_not_mem hexits) (by rw [hcount]; exact Nat.one_ne_zero)

theorem inv_of_reachable (h : Reachable step anyStep (init A) s) : s.Inv := by
  apply h.invariant inv_init
  intro s c s' hinv _ hs
  obtain ⟨⟨s₁, r⟩, hexec, rfl⟩ := Option.map_eq_some_iff.mp hs
  exact hinv.exec hexec

/-- **Names and addresses correspond to each other**, in every run: the table is an involution
between them, without two keys for one value. A name that is taken is not registered again, a
query answers no name, and where a name does not resolve as before, every agent that was
launched and not told to exit is sent a message. -/
theorem registered_names (h : Reachable step anyStep (init A) s) :
    (∀ k v, s.registerName k = some v ↔ s.registerName v = some k) ∧
      (∀ k k' v, s.registerName k = some v → s.registerName k' = some v → k = k') ∧
      (∀ n v, s.registerName (.name n) = some v → ∃ a, v = .addr a) ∧
      (∀ a v, s.registerName (.addr a) = some v → ∃ n, v = .name n) ∧
      (∀ source name addr, s.registerName (.name name) ≠ none →
        s.exec (.register source name addr) = some (s, ⟨true, none, fun _ => false⟩)) ∧
      (∀ name s' r, s.exec (.queryname name) = some (s', r) →
        s' = s ∧ r.answer = s.registerName (.name name) ∧ ∀ n, r.answer ≠ some (.name n)) ∧
      ∀ c s' r n v, s.exec c = some (s', r) → s.registerName (.name n) = some v →
        s'.registerName (.name n) ≠ some v →
        ∀ fd agent, s.sockets.launch fd = .done agent → agent ∉ s.sockets.exits →
          r.namechange fd = true := by
  have hinv := inv_of_reachable h
  refine ⟨fun k v => hinv.pairing.iff, fun k k' v => hinv.pairing.inj, hinv.name, hinv.addr,
    ?_, ?_, ?_⟩
  · intro source name addr htaken
    rw [NameDaemon.exec, NameDaemon.register, if_neg htaken]
  · intro name s' r hs
    obtain ⟨rfl, rfl⟩ := Prod.mk.inj (Option.some.inj hs)
    refine ⟨rfl, rfl, fun n hn => ?_⟩
    obtain ⟨a, ha⟩ := hinv.name name _ hn
    exact nomatch ha
  · intro c s' r n v hs hn hlost fd agent hlaunch hexits
    rw [clearnamecache_of_lost hs hn hlost]
    exact hinv.told hlaunch hexits

/-- A service registers itself under another name, while an agent serves a socket. -/
def renamed : List (NameCommand ℕ) :=
  [.socket (.open 7), .socket (.launched 7 9), .register 5 [0x61] none, .register 5 [0x62] none]

theorem registered_names_renamed :
    ∃ s, run step (init ℕ) renamed = some s ∧ s.registerName (.name [0x61]) = none ∧
      s.registerName (.name [0x62]) = some (.addr 5) ∧
      s.registerName (.addr 5) = some (.name [0x62]) ∧
      ∀ s' r, s.exec (.unregister [0x62]) = some (s', r) → r.namechange 7 = true := by
  have hrun : run step (init ℕ) renamed = some _ := rfl
  obtain ⟨hiff, -, -, -, -, -, htold⟩ := registered_names (.of_run hrun)
  refine ⟨_, hrun, rfl, rfl, (hiff (.name [0x62]) (.addr 5)).mp rfl, fun s' r hs => ?_⟩
  refine htold _ s' r [0x62] (.addr 5) hs rfl ?_ 7 9 rfl (by decide)
  obtain ⟨rfl, -⟩ := Prod.mk.inj (Option.some.inj hs)
  decide

end NameDaemon

/-! ### The two tables of a registry -/

/-- The one table with both directions. -/
def Registry.registerName (r : Registry) : NameKey ℕ → Option (NameKey ℕ)
  | .name n => (r.byName n).map .addr
  | .addr a => (r.byAddr a).map .name

namespace Registry

variable (r : Registry) (name : ServiceName) (addr : ℕ)

theorem registerName_drop :
    (r.drop name).registerName = Function.update r.registerName (.name name) none := by
  funext k
  cases k with
  | name n =>
    by_cases hn : n = name
    · subst hn
      simp [registerName, drop]
    · simp [registerName, drop, hn]
  | addr a => simp [registerName, drop]

theorem registerName_bind :
    (r.bind name addr).registerName =
      Function.update (Function.update r.registerName (.addr addr) (some (.name name)))
        (.name name) (some (.addr addr)) := by
  funext k
  cases k with
  | name n =>
    by_cases hn : n = name
    · subst hn
      simp [registerName, bind]
    · simp [registerName, bind, hn]
  | addr a =>
    by_cases ha : a = addr
    · subst ha
      simp [registerName, bind]
    · simp [registerName, bind, ha]

theorem registerName_release :
    (r.release name addr).registerName =
      Function.update (Function.update r.registerName (.addr addr) none) (.name name) none := by
  funext k
  cases k with
  | name n =>
    by_cases hn : n = name
    · subst hn
      simp [registerName, release]
    · simp [registerName, release, hn]
  | addr a =>
    by_cases ha : a = addr
    · subst ha
      simp [registerName, release]
    · simp [registerName, release, ha]

end Registry

namespace NameDaemon

/-- The daemon without its agents. -/
def ofNames (w : Names) : NameDaemon ℕ := ⟨w.registry.registerName, w.sockets⟩

variable {w w' : Names} {name : ServiceName} {addr : ℕ}

theorem register_ofNames (hfree : w.registry.byName name = none) :
    ((ofNames w).register addr name none).1 = ofNames (w.register name addr) := by
  have hname : (ofNames w).registerName (.name name) = none := by
    simp [ofNames, Registry.registerName, hfree]
  rw [NameDaemon.register, if_pos hname, Names.register, if_pos hfree]
  cases hold : w.registry.byAddr addr with
  | none =>
    have haddr : (ofNames w).registerName (.addr addr) = none := by
      simp [ofNames, Registry.registerName, hold]
    simp only [Option.getD_none, forget, haddr, Names.dropOld, hold]
    simp only [ofNames, NameDaemon.set, Names.changed, Registry.registerName_bind]
  | some oldName =>
    have haddr : (ofNames w).registerName (.addr addr) = some (.name oldName) := by
      simp [ofNames, Registry.registerName, hold]
    simp only [Option.getD_none, forget, haddr, Names.dropOld, hold]
    simp only [ofNames, NameDaemon.set, Names.clearnamecache, Names.changed,
      Registry.registerName_bind, Registry.registerName_drop]

theorem unregister_ofNames (w : Names) (name : ServiceName) :
    ((ofNames w).unregister name).1 = ofNames (w.unregister name) := by
  cases hbound : w.registry.byName name with
  | none =>
    have hname : (ofNames w).registerName (.name name) = none := by
      simp [ofNames, Registry.registerName, hbound]
    simp only [NameDaemon.unregister, hname, Names.unregister, hbound]
  | some addr =>
    have hname : (ofNames w).registerName (.name name) = some (.addr addr) := by
      simp [ofNames, Registry.registerName, hbound]
    simp only [NameDaemon.unregister, hname, Names.unregister, hbound]
    simp only [ofNames, NameDaemon.set, Names.clearnamecache, Names.changed,
      Registry.registerName_release]

end NameDaemon

open NameDaemon

/-- **A run of the daemon and its agents is one of the daemon with its one table.** -/
theorem Names.nameDaemon_reachable {ok : Names → NameEvent → Prop} {w : Names}
    (h : Reachable Names.step ok Names.init w) :
    Reachable NameDaemon.step anyStep (NameDaemon.init ℕ) (ofNames w) := by
  have hinit : ofNames Names.init = NameDaemon.init ℕ := by
    unfold ofNames NameDaemon.init
    congr 1
    funext k
    cases k <;> rfl
  rw [← hinit]
  apply h.project
  intro w e w' _ hs
  cases Names.stepCase_of_step hs with
  | @socket e sockets _ hstep =>
    refine Or.inr ⟨.socket e, trivial, ?_⟩
    have hsockets : (ofNames w).sockets.step e = some sockets := hstep
    rw [NameDaemon.step, NameDaemon.exec, hsockets]
    rfl
  | register name addr =>
    by_cases hfree : w.registry.byName name = none
    · refine Or.inr ⟨.register addr name none, trivial, ?_⟩
      exact congrArg some (register_ofNames hfree)
    · left
      rw [Names.register, if_neg hfree]
  | unregister name =>
    exact Or.inr ⟨.unregister name, trivial, congrArg some (unregister_ofNames ..)⟩
  | @deliver _ _ m =>
    left
    cases m <;> rfl
  | _ => exact Or.inl rfl

/-- In the registry of the daemon and its agents the two tables are each the inverse of the
other. -/
theorem Names.byName_iff_byAddr {ok : Names → NameEvent → Prop} {w : Names}
    (h : Reachable Names.step ok Names.init w) (name : ServiceName) (addr : ℕ) :
    w.registry.byName name = some addr ↔ w.registry.byAddr addr = some name := by
  have hiff := (inv_of_reachable (nameDaemon_reachable h)).pairing
    |>.iff (k := NameKey.name name) (v := .addr addr)
  simpa [ofNames, Registry.registerName] using hiff

end TestCluster.BeeCluster
