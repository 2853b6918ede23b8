import TestCluster.BeeCluster.Frame

/-!
# Reloading the configuration

`loadconfig` applies a table entry by entry while it checks it, so an invalid entry
leaves everything before it applied. The reload is all or nothing exactly when no entry
is invalid, or nothing before the first invalid one differs from what is recorded.

## Main definitions

* `Daemon.AllOrNothing` — a failed reload changes nothing, a successful one tells every
  sender whose address changed
* `Daemon.Recorded` — what an entry of the table says is recorded already

## Main results

* `loadconfig_scheduled` — a reload that returns has scheduled the reopenings
* `allOrNothing_iff` — when a reload is all or nothing
-/

namespace TestCluster.BeeCluster.Clusterd

open Semantics

/-! ### Keys -/

/-- The setting of an entry determines its key. -/
theorem key_of_setting {e : ConfigKey × ConfigValue} {name : String} {value : ConfigValue}
    (h : parseEntry e = .setting name value) :
    e.1 = .name (String.ofList ('_' :: '_' :: name.toList)) := by
  obtain ⟨key, v⟩ := e
  cases key with
  | other id => exact nomatch h
  | name key =>
    simp only [parseEntry] at h
    split at h
    · rename_i rest hkey
      obtain ⟨rfl, _⟩ := Parsed.setting.inj h
      rw [String.toList_ofList, ← hkey, String.ofList_toList]
    · cases v with
      | boolean b => cases b <;> exact nomatch h
      | _ => exact nomatch h

/-- The node of an entry is its key. -/
theorem key_of_address {e : ConfigKey × ConfigValue} {name : String} {address : NodeAddress}
    (h : parseEntry e = .address name address) : e.1 = .name name := by
  obtain ⟨key, v⟩ := e
  cases key with
  | other id => exact nomatch h
  | name key =>
    simp only [parseEntry] at h
    split at h
    · exact nomatch h
    · cases v with
      | string s => rw [(Parsed.address.inj h).1]
      | boolean b =>
        cases b with
        | false => rw [(Parsed.address.inj h).1]
        | true => exact nomatch h
      | _ => exact nomatch h

namespace Daemon

variable {d d' : Daemon}

/-! ### What one entry does -/

theorem wakeNamequery_tables (d : Daemon) (name : String) :
    ∃ woken, d.wakeNamequery name = { d with woken := woken } := by
  unfold wakeNamequery
  split
  · exact ⟨d.woken, rfl⟩
  · split <;> exact ⟨_, rfl⟩

theorem loadAddress_tables (d : Daemon) (name : String) (address : NodeAddress) :
    ∃ woken, (d.loadAddress name address).1 =
      { (d.setAddress name address).1 with woken := woken } := by
  simp only [loadAddress]
  split_ifs
  · exact ⟨_, rfl⟩
  · exact wakeNamequery_tables _ name

theorem loadAddress_config (d : Daemon) (name : String) (address : NodeAddress) :
    (d.loadAddress name address).1.config = d.config := by
  have hset : (d.setAddress name address).1.config = d.config := by
    unfold setAddress
    split_ifs <;> rfl
  obtain ⟨woken, hwoken⟩ := loadAddress_tables d name address
  rw [hwoken]
  exact hset

theorem loadAddress_nodeAddress (d : Daemon) (name : String) (address : NodeAddress) :
    (d.loadAddress name address).1.nodeAddress =
      Function.update d.nodeAddress name (some address) := by
  have hset : (d.setAddress name address).1.nodeAddress =
      Function.update d.nodeAddress name (some address) := by
    unfold setAddress
    split_ifs with hchanged
    · rfl
    · rfl
    · rw [← not_not.mp hchanged, Function.update_eq_self]
  obtain ⟨woken, hwoken⟩ := loadAddress_tables d name address
  rw [hwoken]
  exact hset

/-- A sender has to be told when its address changed. -/
theorem loadAddress_snd {name : String} {address : NodeAddress}
    (hchanged : d.nodeAddress name ≠ some address) (hsender : (d.nodeSender name).isSome) :
    (d.loadAddress name address).2 = true := by
  simp [loadAddress, setAddress, hchanged, hsender]

/-! ### A table that was applied -/

/-- What an entry says is recorded already. -/
def Recorded (d : Daemon) : Parsed → Prop
  | .setting name value => d.config name = some value
  | .address name address => d.nodeAddress name = some address
  | .invalid => False

instance (d : Daemon) (p : Parsed) : Decidable (d.Recorded p) :=
  match p with
  | .setting name value => inferInstanceAs (Decidable (d.config name = some value))
  | .address name address => inferInstanceAs (Decidable (d.nodeAddress name = some address))
  | .invalid => inferInstanceAs (Decidable False)

theorem Recorded.of_eq {p : Parsed} (h : d'.Recorded p) (hconfig : d'.config = d.config)
    (haddress : d'.nodeAddress = d.nodeAddress) : d.Recorded p := by
  cases p with
  | setting name value => exact (congrFun hconfig name).symm.trans h
  | address name address => exact (congrFun haddress name).symm.trans h
  | invalid => exact h

theorem loadLoop_config_of_ne {name : String} (reload : List String)
    {tmp : List (ConfigKey × ConfigValue)}
    (h : ∀ e ∈ tmp, ∀ value, parseEntry e ≠ .setting name value) :
    (d.loadLoop reload tmp).1.config name = d.config name := by
  apply loadLoop_keeps (P := fun d' => d'.config name = d.config name) reload rfl
  · intro d' e he name' value hentry hsame
    have hne : name ≠ name' := by
      rintro rfl
      exact h e he value hentry
    exact (Function.update_of_ne hne ..).trans hsame
  · intro d' e he name' address hentry hsame
    rw [loadAddress_config, hsame]

theorem loadLoop_nodeAddress_of_ne {name : String} (reload : List String)
    {tmp : List (ConfigKey × ConfigValue)}
    (h : ∀ e ∈ tmp, ∀ address, parseEntry e ≠ .address name address) :
    (d.loadLoop reload tmp).1.nodeAddress name = d.nodeAddress name := by
  apply loadLoop_keeps (P := fun d' => d'.nodeAddress name = d.nodeAddress name) reload rfl
  · intro d' e he name' value hentry hsame
    exact hsame
  · intro d' e he name' address hentry hsame
    have hne : name ≠ name' := by
      rintro rfl
      exact h e he address hentry
    rw [loadAddress_nodeAddress, Function.update_of_ne hne, hsame]

/-- Every entry before the first invalid one is recorded in the end, since no later entry
has its key. -/
theorem loadLoop_recorded (reload : List String) {tmp : List (ConfigKey × ConfigValue)}
    (hkeys : (tmp.map Prod.fst).Nodup) :
    ∀ e ∈ tmp.takeWhile (fun e => parseEntry e ≠ .invalid),
      (d.loadLoop reload tmp).1.Recorded (parseEntry e) := by
  induction tmp generalizing d reload with
  | nil => exact fun _ h => nomatch h
  | cons e rest ih =>
    rw [List.map_cons, List.nodup_cons] at hkeys
    -- no later entry has the same key
    have hfresh : ∀ e' ∈ rest, e'.1 ≠ e.1 := fun e' he' hkey =>
      hkeys.1 (hkey ▸ List.mem_map_of_mem he')
    intro e' he'
    unfold loadLoop
    cases he : parseEntry e with
    | invalid => simp [he] at he'
    | setting name value =>
      rw [List.takeWhile_cons_of_pos (by simp [he]), List.mem_cons] at he'
      rcases he' with rfl | he'
      · simp only [Recorded, he]
        rw [loadLoop_config_of_ne]
        · exact Function.update_self ..
        · intro e₁ he₁ value₁ heq
          exact hfresh e₁ he₁ ((key_of_setting heq).trans (key_of_setting he).symm)
      · exact ih _ hkeys.2 e' he'
    | address name address =>
      rw [List.takeWhile_cons_of_pos (by simp [he]), List.mem_cons] at he'
      rcases he' with rfl | he'
      · simp only [Recorded, he]
        rw [loadLoop_nodeAddress_of_ne, loadAddress_nodeAddress]
        · exact Function.update_self ..
        · intro e₁ he₁ address₁ heq
          exact hfresh e₁ he₁ ((key_of_address heq).trans (key_of_address he).symm)
      · exact ih _ hkeys.2 e' he'

theorem loadLoop_raises (reload : List String) {tmp : List (ConfigKey × ConfigValue)} :
    (d.loadLoop reload tmp).2 = none ↔ ∃ e ∈ tmp, parseEntry e = .invalid := by
  induction tmp generalizing d reload with
  | nil => simp [loadLoop]
  | cons e rest ih =>
    unfold loadLoop
    cases he : parseEntry e with
    | setting name value => simp [ih, he]
    | address name address => simp [ih, he]
    | invalid => simp [he]

/-! ### Reopenings -/

/-- The loop lists every node whose address it changed and that has a sender. -/
theorem loadLoop_reload (reload : List String) {tmp : List (ConfigKey × ConfigValue)}
    {names : List String} (h : d.loadLoop reload tmp = (d', some names)) :
    reload ⊆ names ∧ ∀ name, d'.nodeAddress name ≠ d.nodeAddress name →
      (d.nodeSender name).isSome → name ∈ names := by
  induction tmp generalizing d reload with
  | nil =>
    obtain ⟨rfl, hnames⟩ := Prod.mk.inj h
    obtain rfl := Option.some.inj hnames
    exact ⟨List.Subset.refl _, fun name hne _ => absurd rfl hne⟩
  | cons e rest ih =>
    unfold loadLoop at h
    cases he : parseEntry e with
    | setting name value =>
      simp only [he] at h
      have hrest := ih _ h
      exact hrest
    | invalid =>
      simp only [he] at h
      cases (Prod.mk.inj h).2
    | address name address =>
      simp only [he] at h
      obtain ⟨hsub, hlisted⟩ := ih _ h
      have hsame := (Reloaded.loadAddress d name address).nodeSender
      refine ⟨fun name' hname' => hsub ?_, fun name' hchanged hsender => ?_⟩
      · split_ifs
        · exact List.mem_append_left _ hname'
        · exact hname'
      · -- the address changed after this entry, or by it
        by_cases hlater : d'.nodeAddress name' = (d.loadAddress name address).1.nodeAddress name'
        · rw [hlater, loadAddress_nodeAddress] at hchanged
          have hname : name' = name := by
            by_contra hne
            exact hchanged (Function.update_of_ne hne ..)
          subst hname
          rw [Function.update_self] at hchanged
          rw [if_pos (loadAddress_snd hchanged.symm hsender)] at hsub
          exact hsub (List.mem_append_right _ (List.mem_singleton_self _))
        · exact hlisted name' hlater (by rw [hsame]; exact hsender)

theorem forks_scheduled {names : List String} {name : String} (h : name ∈ names) (d : Daemon) :
    ∃ co, d.nextCo ≤ co ∧ (names.foldl fork d).pc co = .forked name := by
  induction names generalizing d with
  | nil => exact nomatch h
  | cons name' names ih =>
    rw [List.foldl_cons]
    rcases List.mem_cons.mp h with rfl | h
    · refine ⟨d.nextCo, le_rfl, ?_⟩
      rw [(Reloaded.forks (d.fork name) names).pc _ (Nat.lt_succ_self _)]
      exact Function.update_self ..
    · obtain ⟨co, hle, hco⟩ := ih h (d.fork name')
      exact ⟨co, (Nat.le_succ _).trans hle, hco⟩

theorem forks_tables (names : List String) (d : Daemon) :
    (names.foldl fork d).nodeAddress = d.nodeAddress ∧
      (names.foldl fork d).nodeChannel = d.nodeChannel := by
  induction names generalizing d with
  | nil => exact ⟨rfl, rfl⟩
  | cons name names ih => exact ih (d.fork name)

theorem loadDone_eq (d : Daemon) (names : List String) :
    ∃ woken, d.loadDone names = names.foldl fork { d with woken := woken } := by
  unfold loadDone
  split_ifs
  · exact ⟨_, rfl⟩
  · exact ⟨d.woken, rfl⟩

/-! ### `loadconfig` -/

theorem loadconfig_of_none {tmp : List (ConfigKey × ConfigValue)}
    (h : (d.loadLoop [] tmp).2 = none) : d.loadconfig tmp = ((d.loadLoop [] tmp).1, false) := by
  unfold loadconfig
  generalize d.loadLoop [] tmp = r at h
  obtain ⟨d', names⟩ := r
  obtain rfl : names = none := h
  rfl

theorem loadconfig_of_some {tmp : List (ConfigKey × ConfigValue)} {names : List String}
    (h : d.loadLoop [] tmp = (d', some names)) :
    d.loadconfig tmp = (d'.loadDone names, true) := by
  unfold loadconfig
  rw [h]

/-- `loadconfig` raises exactly when an entry is invalid. -/
theorem loadconfig_raises {tmp : List (ConfigKey × ConfigValue)} :
    (d.loadconfig tmp).2 = false ↔ ∃ e ∈ tmp, parseEntry e = .invalid := by
  rw [← loadLoop_raises (d := d) []]
  cases h : d.loadLoop [] tmp with
  | mk d' names =>
    cases names with
    | none => rw [loadconfig_of_none (by rw [h]), h]; simp
    | some names => rw [loadconfig_of_some h]; simp

/-- A reload that returns has scheduled a reopening of every node whose address changed
and that has a sender. -/
theorem loadconfig_scheduled {tmp : List (ConfigKey × ConfigValue)} {name : String}
    (hreturns : (d.loadconfig tmp).2 = true)
    (hchanged : (d.loadconfig tmp).1.nodeAddress name ≠ d.nodeAddress name)
    (hsender : (d.nodeSender name).isSome) :
    ∃ co, d.nextCo ≤ co ∧ (d.loadconfig tmp).1.pc co = .forked name := by
  have hloop := Reloaded.loadLoop d [] tmp
  cases h : d.loadLoop [] tmp with
  | mk d' names =>
    cases names with
    | none =>
      rw [loadconfig_of_none (by rw [h])] at hreturns
      exact nomatch hreturns
    | some names =>
      rw [h] at hloop
      rw [loadconfig_of_some h] at hchanged ⊢
      obtain ⟨woken, hdone⟩ := loadDone_eq d' names
      rw [hdone] at hchanged ⊢
      rw [(forks_tables names _).1] at hchanged
      have hmem := (loadLoop_reload [] h).2 name hchanged hsender
      obtain ⟨co, hle, hco⟩ := forks_scheduled hmem { d' with woken := woken }
      exact ⟨co, hloop.nextCo.trans hle, hco⟩

/-! ### Channels -/

/-- Where every channel has a sender, a reload keeps only the channels of the nodes whose
address it leaves as it was. -/
theorem setAddress_nodeChannel {name k : String} {address : NodeAddress} {c : ℕ}
    (hsender : d.nodeChannel k = some c → (d.nodeSender k).isSome)
    (h : (d.setAddress name address).1.nodeChannel k = some c) :
    d.nodeChannel k = some c ∧
      (d.setAddress name address).1.nodeAddress k = d.nodeAddress k := by
  by_cases hk : k = name
  · subst hk
    unfold setAddress at h ⊢
    split_ifs at h ⊢ with hchanged hsome
    · simp at h
    · exact absurd (hsender h) hsome
    · exact ⟨h, rfl⟩
  · unfold setAddress at h ⊢
    split_ifs at h ⊢ with hchanged hsome
    · exact ⟨(Function.update_of_ne hk ..).symm.trans h, Function.update_of_ne hk ..⟩
    · exact ⟨h, Function.update_of_ne hk ..⟩
    · exact ⟨h, rfl⟩

theorem loadLoop_nodeChannel {k : String} {c : ℕ} (reload : List String)
    {tmp : List (ConfigKey × ConfigValue)}
    (hsender : ∀ c, d.nodeChannel k = some c → (d.nodeSender k).isSome)
    (h : (d.loadLoop reload tmp).1.nodeChannel k = some c) :
    d.nodeChannel k = some c ∧ (d.loadLoop reload tmp).1.nodeAddress k = d.nodeAddress k := by
  -- a channel that is left has outlived every entry, and no sender is given up
  have hkept : (d.loadLoop reload tmp).1.nodeSender = d.nodeSender ∧
      ∀ c, (d.loadLoop reload tmp).1.nodeChannel k = some c → d.nodeChannel k = some c ∧
        (d.loadLoop reload tmp).1.nodeAddress k = d.nodeAddress k := by
    apply loadLoop_keeps (P := fun d' => d'.nodeSender = d.nodeSender ∧
      ∀ c, d'.nodeChannel k = some c → d.nodeChannel k = some c ∧
        d'.nodeAddress k = d.nodeAddress k) reload
    · exact ⟨rfl, fun _ hc => ⟨hc, rfl⟩⟩
    · intro d' _ _ name value _ hd'
      exact hd'
    · rintro d' _ _ name address _ ⟨hsame, hchannels⟩
      refine ⟨(Reloaded.loadAddress d' name address).nodeSender.trans hsame, fun c hc => ?_⟩
      obtain ⟨woken, hload⟩ := loadAddress_tables d' name address
      rw [hload] at hc ⊢
      have hsender' : d'.nodeChannel k = some c → (d'.nodeSender k).isSome := by
        intro hc
        rw [hsame]
        exact hsender c (hchannels c hc).1
      obtain ⟨hold, haddress⟩ := setAddress_nodeChannel hsender' hc
      exact ⟨(hchannels c hold).1, haddress.trans (hchannels c hold).2⟩
  exact hkept.2 c h

theorem loadconfig_nodeChannel {k : String} {c : ℕ} {tmp : List (ConfigKey × ConfigValue)}
    (hsender : ∀ c, d.nodeChannel k = some c → (d.nodeSender k).isSome)
    (h : (d.loadconfig tmp).1.nodeChannel k = some c) :
    d.nodeChannel k = some c ∧ (d.loadconfig tmp).1.nodeAddress k = d.nodeAddress k := by
  cases hloop : d.loadLoop [] tmp with
  | mk d' names =>
    have hchannel := @loadLoop_nodeChannel d k c [] tmp hsender
    rw [hloop] at hchannel
    cases names with
    | none =>
      rw [loadconfig_of_none (by rw [hloop]), hloop] at h ⊢
      exact hchannel h
    | some names =>
      obtain ⟨woken, hdone⟩ := loadDone_eq d' names
      rw [loadconfig_of_some hloop, hdone] at h ⊢
      rw [(forks_tables names _).2] at h
      rw [(forks_tables names _).1]
      exact hchannel h

/-! ### States that differ in who was woken -/

/-- Nothing but the woken coroutines differs. -/
def Rewoken (d d' : Daemon) : Prop := ∃ woken, d' = { d with woken := woken }

namespace Rewoken

theorem setAddress (h : Rewoken d d') (name : String) (address : NodeAddress) :
    Rewoken (d.setAddress name address).1 (d'.setAddress name address).1 ∧
      (d'.setAddress name address).2 = (d.setAddress name address).2 := by
  obtain ⟨woken, rfl⟩ := h
  unfold Daemon.setAddress
  split_ifs <;> exact ⟨⟨woken, rfl⟩, rfl⟩

theorem loadAddress (h : Rewoken d d') (name : String) (address : NodeAddress) :
    Rewoken (d.loadAddress name address).1 (d'.loadAddress name address).1 ∧
      (d'.loadAddress name address).2 = (d.loadAddress name address).2 := by
  obtain ⟨⟨woken, hset⟩, hsnd⟩ := h.setAddress name address
  obtain ⟨woken₁, h₁⟩ := loadAddress_tables d name address
  obtain ⟨woken₂, h₂⟩ := loadAddress_tables d' name address
  refine ⟨⟨woken₂, ?_⟩, hsnd⟩
  rw [h₁, h₂, hset]

theorem loadLoop (h : Rewoken d d') (reload : List String)
    (tmp : List (ConfigKey × ConfigValue)) :
    Rewoken (d.loadLoop reload tmp).1 (d'.loadLoop reload tmp).1 ∧
      (d'.loadLoop reload tmp).2 = (d.loadLoop reload tmp).2 := by
  induction tmp generalizing d d' reload with
  | nil => exact ⟨h, rfl⟩
  | cons e rest ih =>
    unfold Daemon.loadLoop
    cases parseEntry e with
    | setting name value =>
      obtain ⟨woken, rfl⟩ := h
      exact ih ⟨woken, rfl⟩ _
    | address name address =>
      obtain ⟨hload, hsnd⟩ := h.loadAddress name address
      simp only [hsnd]
      exact ih hload _
    | invalid => exact ⟨h, rfl⟩

theorem forks (h : Rewoken d d') (names : List String) :
    Rewoken (names.foldl fork d) (names.foldl fork d') := by
  induction names generalizing d d' with
  | nil => exact h
  | cons name names ih =>
    obtain ⟨woken, rfl⟩ := h
    exact ih ⟨woken, rfl⟩

theorem loadDone (h : Rewoken d d') (names : List String) :
    Rewoken (d.loadDone names) (d'.loadDone names) := by
  obtain ⟨woken, rfl⟩ := h
  refine forks ?_ names
  have hsame : ({ d with woken := woken } : Daemon).nowaiting = d.nowaiting := rfl
  rw [hsame]
  split_ifs
  · exact ⟨_, rfl⟩
  · exact ⟨woken, rfl⟩

theorem loadconfig (h : Rewoken d d') (tmp : List (ConfigKey × ConfigValue)) :
    Rewoken (d.loadconfig tmp).1 (d'.loadconfig tmp).1 := by
  obtain ⟨hloop, hsnd⟩ := h.loadLoop [] tmp
  cases hnames : (d.loadLoop [] tmp).2 with
  | none =>
    rw [loadconfig_of_none hnames, loadconfig_of_none (hsnd.trans hnames)]
    exact hloop
  | some names =>
    rw [loadconfig_of_some (Prod.ext rfl hnames),
      loadconfig_of_some (Prod.ext rfl (hsnd.trans hnames))]
    exact hloop.loadDone names

/-- A loop that only repeats what is recorded, and then raises, changes nothing. -/
theorem of_recorded (reload : List String) {tmp : List (ConfigKey × ConfigValue)}
    (hrecorded : ∀ e ∈ tmp.takeWhile (fun e => parseEntry e ≠ .invalid), d.Recorded (parseEntry e))
    (hraises : ∃ e ∈ tmp, parseEntry e = .invalid) :
    Rewoken d (d.loadLoop reload tmp).1 := by
  induction tmp generalizing d reload with
  | nil => simp at hraises
  | cons e rest ih =>
    unfold Daemon.loadLoop
    cases he : parseEntry e with
    | invalid => exact ⟨d.woken, rfl⟩
    | setting name value =>
      rw [List.takeWhile_cons_of_pos (by simp [he]), List.forall_mem_cons] at hrecorded
      have hvalue : d.config name = some value := by simpa only [Recorded, he] using hrecorded.1
      have hsame : ({ d with config := Function.update d.config name (some value) } : Daemon) = d :=
        by rw [← hvalue, Function.update_eq_self]
      simp only [hsame]
      exact ih _ hrecorded.2 (by simpa [he] using hraises)
    | address name address =>
      rw [List.takeWhile_cons_of_pos (by simp [he]), List.forall_mem_cons] at hrecorded
      have haddress : d.nodeAddress name = some address := by
        simpa only [Recorded, he] using hrecorded.1
      -- the address is recorded already, so nothing changes but who is woken
      have hset : (d.setAddress name address).1 = d := by simp [Daemon.setAddress, haddress]
      obtain ⟨woken, hload⟩ := loadAddress_tables d name address
      rw [hset] at hload
      simp only [hload]
      obtain ⟨woken', hrest⟩ := ih (d := { d with woken := woken }) _ hrecorded.2
        (by simpa [he] using hraises)
      exact ⟨woken', hrest⟩

end Rewoken

/-! ### All or nothing -/

/-- A reload that raises leaves the settings, the addresses, the channels and the
scheduled reopenings as they were; one that returns has scheduled a reopening of every
node whose address changed and that has a sender; and a correct reload after one that
raised has the outcome of the correct one alone. -/
structure AllOrNothing (d : Daemon) (tmp : List (ConfigKey × ConfigValue)) : Prop where
  raises : (d.loadconfig tmp).2 = false →
    (d.loadconfig tmp).1.config = d.config ∧ (d.loadconfig tmp).1.nodeAddress = d.nodeAddress ∧
      (d.loadconfig tmp).1.nodeChannel = d.nodeChannel ∧ (d.loadconfig tmp).1.pc = d.pc
  returns : (d.loadconfig tmp).2 = true → ∀ name,
    (d.loadconfig tmp).1.nodeAddress name ≠ d.nodeAddress name → (d.nodeSender name).isSome →
      ∃ co, d.nextCo ≤ co ∧ (d.loadconfig tmp).1.pc co = .forked name
  corrected : (d.loadconfig tmp).2 = false → ∀ tmp', (d.loadconfig tmp').2 = true →
    ((d.loadconfig tmp).1.loadconfig tmp').1.nodeAddress = (d.loadconfig tmp').1.nodeAddress ∧
      ((d.loadconfig tmp).1.loadconfig tmp').1.pc = (d.loadconfig tmp').1.pc

theorem AllOrNothing.of_rewoken {tmp : List (ConfigKey × ConfigValue)}
    (h : (d.loadconfig tmp).2 = false → Rewoken d (d.loadconfig tmp).1) : d.AllOrNothing tmp where
  raises hraises := by
    obtain ⟨woken, heq⟩ := h hraises
    rw [heq]
    exact ⟨rfl, rfl, rfl, rfl⟩
  returns hreturns _ hchanged hsender := loadconfig_scheduled hreturns hchanged hsender
  corrected hraises tmp' _ := by
    obtain ⟨woken, heq⟩ := (h hraises).loadconfig tmp'
    rw [heq]
    exact ⟨rfl, rfl⟩

end Daemon

open Daemon

/-- A reload is all or nothing exactly when no entry is invalid, or when every entry that
is visited before the first invalid one is recorded already. -/
theorem allOrNothing_iff (d : Daemon) (tmp : List (ConfigKey × ConfigValue))
    (hkeys : (tmp.map Prod.fst).Nodup) :
    d.AllOrNothing tmp ↔
      (∀ e ∈ tmp, parseEntry e ≠ .invalid) ∨
        ∀ e ∈ tmp.takeWhile (fun e => parseEntry e ≠ .invalid), d.Recorded (parseEntry e) := by
  constructor
  · intro h
    refine or_iff_not_imp_left.mpr fun hinvalid e he => ?_
    have hraises : (d.loadconfig tmp).2 = false := loadconfig_raises.mpr (by simpa using hinvalid)
    have hloop : (d.loadconfig tmp).1 = (d.loadLoop [] tmp).1 := by
      rw [loadconfig_of_none ((loadLoop_raises []).mpr (loadconfig_raises.mp hraises))]
    obtain ⟨hconfig, haddress, _, _⟩ := h.raises hraises
    -- the entries before the invalid one are recorded, so they were before
    have hrecorded := loadLoop_recorded (d := d) [] hkeys e he
    rw [← hloop] at hrecorded
    exact hrecorded.of_eq hconfig haddress
  · rintro (hvalid | hrecorded)
    · refine .of_rewoken fun hraises => ?_
      obtain ⟨e, he, hinvalid⟩ := loadconfig_raises.mp hraises
      exact absurd hinvalid (hvalid e he)
    · refine .of_rewoken fun hraises => ?_
      have hinvalid := loadconfig_raises.mp hraises
      rw [loadconfig_of_none ((loadLoop_raises []).mpr hinvalid)]
      exact .of_recorded [] hrecorded hinvalid

/-- A node is open at its first address when the table moves it and repeats it for
another node. -/
theorem allOrNothing_iff_moved :
    ∃ d, run step init [.reload [(.name "n", .string "a:1")], .lookup "n", .launched 0,
        .changed 0] = some d ∧
      d.AllOrNothing [(.name "n", .string "b:2"), (.name "m", .boolean false)] ∧
      ¬ d.AllOrNothing [(.name "n", .string "b:2"), (.name "m", .boolean true)] := by
  refine ⟨_, rfl, ?_, ?_⟩
  · exact (allOrNothing_iff _ _ (by decide)).mpr (.inl (by decide))
  · rw [allOrNothing_iff _ _ (by decide)]
    decide

/-- A node is open at its first address. The table moves it, but has a value for another
node that is not an address: the move stays recorded, the channel is dropped and no
reopening is scheduled. The corrected table then schedules none either, though alone it
would; the sender stays at the first address. -/
theorem invalid_reload_applied :
    ∃ d, run step init [.reload [(.name "n", .string "a:1")], .lookup "n", .launched 0,
        .changed 0] = some d ∧
      (let r := d.loadconfig [(.name "n", .string "b:2"), (.name "m", .number 5)]
       let corrected := r.1.loadconfig [(.name "n", .string "b:2"), (.name "m", .boolean false)]
       let alone := d.loadconfig [(.name "n", .string "b:2"), (.name "m", .boolean false)]
       (d.nodeAddress "n", d.nodeChannel "n") = (some (.at "a:1"), some 0) ∧ r.2 = false ∧
       (r.1.nodeAddress "n", r.1.nodeChannel "n", r.1.pc 1) = (some (.at "b:2"), none, .idle) ∧
       corrected.2 = true ∧ corrected.1.pc 1 = .idle ∧ alone.1.pc 1 = .forked "n" ∧
       corrected.1.sender 0 = some ⟨"n", false, [(.to (some ("a", "1")), true)], false⟩) ∧
      ¬ d.AllOrNothing [(.name "n", .string "b:2"), (.name "m", .number 5)] := by
  refine ⟨_, rfl, by decide, fun h => ?_⟩
  have haddress := congrFun (h.raises (by decide)).2.1 "n"
  exact absurd haddress (by decide)

end TestCluster.BeeCluster.Clusterd
