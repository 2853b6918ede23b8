import TestCluster.BeeCluster.Clusterd

/-!
# What an event of the cluster daemon leaves alone

`open_channel` moves the coroutine that runs it and touches `connecting`; `loadconfig`
forks coroutines and touches the addresses. Everything else is as it was.

## Main definitions

* `Daemon.Quiet` — what `open_channel` leaves alone
* `Daemon.Reloaded` — what `loadconfig` leaves alone

## Main results

* `Quiet.openChannel`, `Quiet.leave`, `Reloaded.loadconfig`
* `step_pc` — an event moves only the coroutine it resumes
-/

namespace TestCluster.BeeCluster.Clusterd

namespace Daemon

variable {d : Daemon} {co : ℕ} {key : String} {ct : ℕ}

/-! ### What the elementary operations do -/

theorem foldl_wakeup (cos : List ℕ) (d : Daemon) :
    cos.foldl wakeup d =
      { d with woken := fun co => d.woken co || (decide (co ∈ cos) && (d.pc co).sleeping) } := by
  induction cos generalizing d with
  | nil => simp
  | cons co cos ih =>
    rw [List.foldl_cons, ih]
    simp only [wakeup]
    congr 1
    funext co'
    by_cases h : co' = co
    · subst h
      simp only [Function.update_self]
      cases (d.pc co').sleeping <;> simp
    · simp [h]

theorem release_eq (d : Daemon) (key : String) (ct : ℕ) :
    d.release key ct =
      { d with
        connecting := Function.update d.connecting key none
        woken := fun co =>
          d.woken co || (decide (co ∈ (d.entry ct).waiters) && (d.pc co).sleeping) } := by
  rw [release, foldl_wakeup]

@[simp] theorem setPc_pc (d : Daemon) (co : ℕ) (pc : Pc) :
    (d.setPc co pc).pc = Function.update d.pc co pc := rfl

theorem setPc_pc_self (d : Daemon) (co : ℕ) (pc : Pc) : (d.setPc co pc).pc co = pc :=
  Function.update_self ..

@[simp] theorem setPc_connecting (d : Daemon) (co : ℕ) (pc : Pc) :
    (d.setPc co pc).connecting = d.connecting := rfl

@[simp] theorem setPc_entry (d : Daemon) (co : ℕ) (pc : Pc) : (d.setPc co pc).entry = d.entry := rfl

@[simp] theorem setPc_woken (d : Daemon) (co : ℕ) (pc : Pc) : (d.setPc co pc).woken = d.woken := rfl

@[simp] theorem setPc_nextCo (d : Daemon) (co : ℕ) (pc : Pc) :
    (d.setPc co pc).nextCo = d.nextCo := rfl

@[simp] theorem setPc_nextEntry (d : Daemon) (co : ℕ) (pc : Pc) :
    (d.setPc co pc).nextEntry = d.nextEntry := rfl

theorem waitOn_pc (d : Daemon) (co : ℕ) (key : String) (ct : ℕ) :
    (d.waitOn co key ct).pc = Function.update d.pc co (.queued key ct) := rfl

theorem awaitAddress_pc (d : Daemon) (co : ℕ) (key : String) (ct : ℕ) :
    (d.awaitAddress co key ct).pc = Function.update d.pc co (.naming key ct) := rfl

theorem openChannel_of_some (h : d.connecting key = some ct) :
    d.openChannel co key = d.waitOn co key ct := by
  simp only [openChannel, h]

theorem openChannel_of_none (h : d.connecting key = none) :
    d.openChannel co key =
      if d.nodeAddress key = none ∧ d.nowaiting = false then
        (d.enter key).awaitAddress co key d.nextEntry
      else
        (d.enter key).proceed co key d.nextEntry := by
  simp only [openChannel, h]
  rfl

theorem lookup_of_some {node : String} {c : ℕ} (h : d.nodeChannel node = some c) :
    d.lookup node = ({ d with nextCo := d.nextCo + 1 } : Daemon).finish d.nextCo true (some c) := by
  simp only [lookup, h]

theorem lookup_of_none {node : String} (h : d.nodeChannel node = none) :
    d.lookup node =
      (({ d with nextCo := d.nextCo + 1 } : Daemon).setPc d.nextCo .running).openChannel
        d.nextCo node := by
  simp only [lookup, h]

theorem launched_pc (d : Daemon) (co : ℕ) (key : String) (ct : ℕ) (address : String) :
    ∃ c, (d.launched co key ct address).pc =
      Function.update d.pc co (.changing key ct address c) := by
  unfold launched
  split <;> exact ⟨_, rfl⟩

theorem leave_eq (address : NodeAddress) (succ : Bool) (c : Option ℕ) :
    d.leave co key ct address succ c =
      if d.nodeAddress key ≠ some address then (d.release key ct).openChannel co key
      else (d.release key ct).finish co succ c := by
  rw [leave, release_eq]

/-! ### What `open_channel` leaves alone -/

/-- Only the coroutine moved: the tables of addresses and senders are as they were. -/
structure Quiet (co : ℕ) (d d' : Daemon) : Prop where
  config : d'.config = d.config
  nodeAddress : d'.nodeAddress = d.nodeAddress
  nodeSender : d'.nodeSender = d.nodeSender
  nodeSenderClosed : d'.nodeSenderClosed = d.nodeSenderClosed
  nodeChannel : d'.nodeChannel = d.nodeChannel
  sender : d'.sender = d.sender
  nextSender : d'.nextSender = d.nextSender
  pc : ∀ co', co' ≠ co → d'.pc co' = d.pc co'

namespace Quiet

theorem trans {d₁ d₂ d₃ : Daemon} (h : Quiet co d₁ d₂) (h' : Quiet co d₂ d₃) : Quiet co d₁ d₃ where
  config := h'.config.trans h.config
  nodeAddress := h'.nodeAddress.trans h.nodeAddress
  nodeSender := h'.nodeSender.trans h.nodeSender
  nodeSenderClosed := h'.nodeSenderClosed.trans h.nodeSenderClosed
  nodeChannel := h'.nodeChannel.trans h.nodeChannel
  sender := h'.sender.trans h.sender
  nextSender := h'.nextSender.trans h.nextSender
  pc co' hne := (h'.pc co' hne).trans (h.pc co' hne)

theorem setPc (co : ℕ) (d : Daemon) (pc : Pc) : Quiet co d (d.setPc co pc) :=
  ⟨rfl, rfl, rfl, rfl, rfl, rfl, rfl, fun _ hne => Function.update_of_ne hne ..⟩

/-- A new coroutine is counted. -/
theorem count (co : ℕ) (d : Daemon) : Quiet co d { d with nextCo := d.nextCo + 1 } :=
  ⟨rfl, rfl, rfl, rfl, rfl, rfl, rfl, fun _ _ => rfl⟩

theorem finish (co : ℕ) (d : Daemon) (succ : Bool) (c : Option ℕ) :
    Quiet co d (d.finish co succ c) :=
  setPc co d _

theorem release (co : ℕ) (d : Daemon) (key : String) (ct : ℕ) : Quiet co d (d.release key ct) := by
  rw [release_eq]
  exact ⟨rfl, rfl, rfl, rfl, rfl, rfl, rfl, fun _ _ => rfl⟩

theorem enter (co : ℕ) (d : Daemon) (key : String) : Quiet co d (d.enter key) :=
  ⟨rfl, rfl, rfl, rfl, rfl, rfl, rfl, fun _ _ => rfl⟩

theorem waitOn (co : ℕ) (d : Daemon) (key : String) (ct : ℕ) : Quiet co d (d.waitOn co key ct) :=
  ⟨rfl, rfl, rfl, rfl, rfl, rfl, rfl, fun _ hne => Function.update_of_ne hne ..⟩

theorem awaitAddress (co : ℕ) (d : Daemon) (key : String) (ct : ℕ) :
    Quiet co d (d.awaitAddress co key ct) :=
  ⟨rfl, rfl, rfl, rfl, rfl, rfl, rfl, fun _ hne => Function.update_of_ne hne ..⟩

theorem proceed (co : ℕ) (d : Daemon) (key : String) (ct : ℕ) :
    Quiet co d (d.proceed co key ct) := by
  have hend : ∀ succ c, Quiet co d ((d.release key ct).finish co succ c) := fun succ c =>
    (release co d key ct).trans (finish co _ succ c)
  unfold Daemon.proceed
  split
  · split <;> exact setPc co d _
  · split
    · exact hend _ _
    · split_ifs
      · exact hend _ _
      · exact setPc co d _
  · exact hend _ _

theorem openChannel (co : ℕ) (d : Daemon) (key : String) : Quiet co d (d.openChannel co key) := by
  cases hct : d.connecting key with
  | some ct =>
    rw [openChannel_of_some hct]
    exact waitOn co d key ct
  | none =>
    rw [openChannel_of_none hct]
    split_ifs
    · exact (enter co d key).trans (awaitAddress co _ key _)
    · exact (enter co d key).trans (proceed co _ key _)

theorem leave (co : ℕ) (d : Daemon) (key : String) (ct : ℕ) (address : NodeAddress) (succ : Bool)
    (c : Option ℕ) : Quiet co d (d.leave co key ct address succ c) := by
  rw [leave_eq]
  split_ifs
  · exact (release co d key ct).trans (openChannel co _ key)
  · exact (release co d key ct).trans (finish co _ succ c)

theorem requeue (co : ℕ) (d : Daemon) (key : String) (ct : ℕ) :
    Quiet co d (d.requeue co key ct) := by
  unfold Daemon.requeue
  split
  · exact waitOn co d key _
  · split <;> exact finish co d _ _

end Quiet

/-! ### What `loadconfig` leaves alone -/

/-- No entry, no sender and no coroutine was touched; new coroutines were forked. -/
structure Reloaded (d d' : Daemon) : Prop where
  nodeSender : d'.nodeSender = d.nodeSender
  nodeSenderClosed : d'.nodeSenderClosed = d.nodeSenderClosed
  connecting : d'.connecting = d.connecting
  entry : d'.entry = d.entry
  sender : d'.sender = d.sender
  nextEntry : d'.nextEntry = d.nextEntry
  nextSender : d'.nextSender = d.nextSender
  nextCo : d.nextCo ≤ d'.nextCo
  pc : ∀ co, co < d.nextCo → d'.pc co = d.pc co
  forked : ∀ co, d'.pc co = d.pc co ∨ co < d'.nextCo ∧ ∃ name, d'.pc co = .forked name
  woken : ∀ co, d'.woken co = false → d.woken co = false

/-- **Loop rule.** What every assignment keeps, the loop of `loadconfig` keeps, wherever it
comes to its end. -/
theorem loadLoop_keeps {P : Daemon → Prop} (reload : List String)
    {tmp : List (ConfigKey × ConfigValue)} (h : P d)
    (hsetting : ∀ d, ∀ e ∈ tmp, ∀ name value, parseEntry e = .setting name value → P d →
      P { d with config := Function.update d.config name (some value) })
    (haddress : ∀ d, ∀ e ∈ tmp, ∀ name address, parseEntry e = .address name address → P d →
      P (d.loadAddress name address).1) : P (d.loadLoop reload tmp).1 := by
  induction tmp generalizing d reload with
  | nil => exact h
  | cons e rest ih =>
    have hsetting' := fun d e' he' => hsetting d e' (List.mem_cons_of_mem e he')
    have haddress' := fun d e' he' => haddress d e' (List.mem_cons_of_mem e he')
    unfold loadLoop
    cases he : parseEntry e with
    | setting name value =>
      exact ih _ (hsetting d e List.mem_cons_self name value he h) hsetting' haddress'
    | address name address =>
      exact ih _ (haddress d e List.mem_cons_self name address he h) hsetting' haddress'
    | invalid => exact h

namespace Reloaded

theorem refl (d : Daemon) : Reloaded d d :=
  ⟨rfl, rfl, rfl, rfl, rfl, rfl, rfl, le_rfl, fun _ _ => rfl, fun _ => .inl rfl, fun _ => id⟩

theorem trans {d₁ d₂ d₃ : Daemon} (h : Reloaded d₁ d₂) (h' : Reloaded d₂ d₃) : Reloaded d₁ d₃ where
  nodeSender := h'.nodeSender.trans h.nodeSender
  nodeSenderClosed := h'.nodeSenderClosed.trans h.nodeSenderClosed
  connecting := h'.connecting.trans h.connecting
  entry := h'.entry.trans h.entry
  sender := h'.sender.trans h.sender
  nextEntry := h'.nextEntry.trans h.nextEntry
  nextSender := h'.nextSender.trans h.nextSender
  nextCo := h.nextCo.trans h'.nextCo
  pc co hlt := (h'.pc co (hlt.trans_le h.nextCo)).trans (h.pc co hlt)
  forked co := by
    rcases h'.forked co with heq | hforked
    · rw [heq]
      exact (h.forked co).imp_right fun hforked => ⟨hforked.1.trans_le h'.nextCo, hforked.2⟩
    · exact .inr hforked
  woken co hwoken := h.woken co (h'.woken co hwoken)

theorem wakeup (d : Daemon) (co : ℕ) : Reloaded d (d.wakeup co) := by
  refine ⟨rfl, rfl, rfl, rfl, rfl, rfl, rfl, le_rfl, fun _ _ => rfl, fun _ => .inl rfl, ?_⟩
  intro co' hwoken
  by_cases hco : co' = co
  · subst hco
    have hwoken : (d.woken co' || (d.pc co').sleeping) = false := by
      simpa only [Daemon.wakeup, Function.update_self] using hwoken
    exact (Bool.or_eq_false_iff.mp hwoken).1
  · simpa only [Daemon.wakeup, Function.update_of_ne hco] using hwoken

theorem wakeNamequery (d : Daemon) (name : String) : Reloaded d (d.wakeNamequery name) := by
  unfold Daemon.wakeNamequery
  split
  · exact refl d
  · split
    · exact refl d
    · exact wakeup d _

theorem wakeNamequeries (d : Daemon) : Reloaded d d.wakeNamequeries :=
  ⟨rfl, rfl, rfl, rfl, rfl, rfl, rfl, le_rfl, fun _ _ => rfl, fun _ => .inl rfl,
    fun _ hwoken => (Bool.or_eq_false_iff.mp hwoken).1⟩

theorem setAddress (d : Daemon) (name : String) (address : NodeAddress) :
    Reloaded d (d.setAddress name address).1 := by
  unfold Daemon.setAddress
  split_ifs <;>
    exact ⟨rfl, rfl, rfl, rfl, rfl, rfl, rfl, le_rfl, fun _ _ => rfl, fun _ => .inl rfl,
      fun _ => id⟩

theorem loadAddress (d : Daemon) (name : String) (address : NodeAddress) :
    Reloaded d (d.loadAddress name address).1 := by
  have hset := setAddress d name address
  unfold Daemon.loadAddress
  generalize d.setAddress name address = r at hset
  simp only
  split_ifs
  · exact hset
  · exact hset.trans (wakeNamequery r.1 name)

theorem setting (d : Daemon) (name : String) (value : ConfigValue) :
    Reloaded d { d with config := Function.update d.config name (some value) } :=
  ⟨rfl, rfl, rfl, rfl, rfl, rfl, rfl, le_rfl, fun _ _ => rfl, fun _ => .inl rfl, fun _ => id⟩

theorem loadLoop (d : Daemon) (reload : List String) (tmp : List (ConfigKey × ConfigValue)) :
    Reloaded d (d.loadLoop reload tmp).1 := by
  apply loadLoop_keeps reload (refl d)
  · intro d' _ _ name value _ h
    exact h.trans (setting d' name value)
  · intro d' _ _ name address _ h
    exact h.trans (loadAddress d' name address)

theorem fork (d : Daemon) (name : String) : Reloaded d (d.fork name) := by
  refine ⟨rfl, rfl, rfl, rfl, rfl, rfl, rfl, Nat.le_succ _, fun co hlt => ?_, fun co => ?_,
    fun _ => id⟩
  · exact Function.update_of_ne (Nat.ne_of_lt hlt) ..
  · by_cases hco : co = d.nextCo
    · subst hco
      exact .inr ⟨Nat.lt_succ_self _, name, Function.update_self ..⟩
    · exact .inl (Function.update_of_ne hco ..)

theorem forks (d : Daemon) (names : List String) : Reloaded d (names.foldl Daemon.fork d) := by
  induction names generalizing d with
  | nil => exact refl d
  | cons name names ih => exact (fork d name).trans (ih _)

theorem loadDone (d : Daemon) (reload : List String) : Reloaded d (d.loadDone reload) := by
  unfold Daemon.loadDone
  split_ifs
  · exact (wakeNamequeries d).trans (forks _ reload)
  · exact forks d reload

theorem loadconfig (d : Daemon) (tmp : List (ConfigKey × ConfigValue)) :
    Reloaded d (d.loadconfig tmp).1 := by
  have hloop := loadLoop d [] tmp
  unfold Daemon.loadconfig
  generalize d.loadLoop [] tmp = r at hloop
  obtain ⟨d', reload⟩ := r
  cases reload with
  | none => exact hloop
  | some reload => exact hloop.trans (loadDone d' reload)

end Reloaded

/-! ### Events -/

/-- The coroutine an event resumes. -/
def resumes : Event → Option ℕ
  | .run co => some co
  | .launched co => some co
  | .launchFailed co => some co
  | .changed co => some co
  | .changeFailed co => some co
  | _ => none

/-- An event moves no coroutine but the one it resumes. -/
theorem step_pc {e : Event} {d' : Daemon} (hs : step d e = some d') (hlt : co < d.nextCo)
    (hne : resumes e ≠ some co) : d'.pc co = d.pc co := by
  have hresumed : ∀ {co₁}, resumes e = some co₁ → co ≠ co₁ := by
    rintro _ h rfl
    exact hne h
  -- only the coroutine that runs goes on
  have hrun : ∀ {co₁ : ℕ} {d₁ : Daemon}, co ≠ co₁ → Quiet co₁ d₁ d' →
      d₁.pc = Function.update d.pc co₁ .running → d'.pc co = d.pc co := by
    intro co₁ d₁ hco hquiet hpc
    rw [hquiet.pc co hco, hpc, Function.update_of_ne hco]
  cases stepCase_of_step hs with
  | lookup node =>
    have hco : co ≠ d.nextCo := Nat.ne_of_lt hlt
    cases hchannel : d.nodeChannel node with
    | some c =>
      rw [lookup_of_some hchannel]
      exact Function.update_of_ne hco ..
    | none =>
      rw [lookup_of_none hchannel] at hrun ⊢
      exact hrun hco (.openChannel ..) rfl
  | reload tmp => exact (Reloaded.loadconfig d tmp).pc co hlt
  | forked => exact hrun (hresumed rfl) (.openChannel ..) rfl
  | queued => exact hrun (hresumed rfl) (.requeue ..) rfl
  | naming => exact hrun (hresumed rfl) (.proceed ..) rfl
  | @launched co₁ key ct address =>
    obtain ⟨c, hc⟩ := launched_pc d co₁ key ct address
    rw [hc, Function.update_of_ne (hresumed rfl)]
  | launchFailed => exact Function.update_of_ne (hresumed rfl) ..
  | changed => exact hrun (hresumed rfl) (.leave ..) rfl
  | closed => exact hrun (hresumed rfl) (.leave ..) rfl
  | changeFailed => exact hrun (hresumed rfl) (.leave ..) rfl
  | closeFailed => exact hrun (hresumed rfl) (.leave ..) rfl

end Daemon

end TestCluster.BeeCluster.Clusterd
