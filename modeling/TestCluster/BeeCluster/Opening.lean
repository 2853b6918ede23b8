import TestCluster.BeeCluster.Frame
import TestCluster.Semantics.Table

/-!
# Opening a channel

At most one coroutine at a time owns the entry of a node, and a coroutine that waits
unwoken waits in that entry. So when the owner clears the entry, all its waiters are
woken, and the next lookup opens the channel again.

## Main definitions

* `Daemon.Owning` — entries, their owners and their waiters
* `Daemon.Released` — an entry was given up, and its waiters were woken

## Main results

* `Owning.step` — every event keeps `Owning`
* `Owned.step` — every event but a failed launch for the node leaves its entry with an owner
* `released_iff` — an owner gives its entry up unless its launch failed
-/

namespace TestCluster.BeeCluster.Clusterd

open Semantics

namespace Daemon

variable {d : Daemon} {co co' : ℕ} {key key' : String} {ct ct' : ℕ}

/-! ### Owners and waiters -/

/-- An owner's entry is the current one of its node, and no other coroutine owns it. A
coroutine that waits and was not woken waits in the current entry. -/
structure Owning (d : Daemon) : Prop where
  current : ∀ co key ct, (d.pc co).owned = some (key, ct) → d.connecting key = some ct
  unique : ∀ co co' key ct, (d.pc co).owned = some (key, ct) →
    (d.pc co').owned = some (key, ct) → co = co'
  waiting : ∀ co key ct, d.pc co = .queued key ct → d.woken co = false →
    d.connecting key = some ct ∧ co ∈ (d.entry ct).waiters
  numbered : ∀ key ct, d.connecting key = some ct → ct < d.nextEntry
  idle : ∀ co, d.nextCo ≤ co → d.pc co = .idle

/-- No coroutine but `co` owns an entry of the node. -/
def OwnedOnlyBy (d : Daemon) (co : ℕ) (key : String) : Prop :=
  ∀ co' ct, co' ≠ co → (d.pc co').owned ≠ some (key, ct)

namespace Owning

/-- A coroutine comes to a stop where it owns an entry that is current and has no other
owner, or waits in the current entry, or neither. -/
theorem setPc (h : d.Owning) {pc : Pc} (hlt : co < d.nextCo)
    (howned : ∀ key ct, pc.owned = some (key, ct) →
      d.connecting key = some ct ∧ d.OwnedOnlyBy co key)
    (hqueued : ∀ key ct, pc = .queued key ct → d.woken co = false →
      d.connecting key = some ct ∧ co ∈ (d.entry ct).waiters) : (d.setPc co pc).Owning where
  current co' key ct hco' := by
    rw [setPc_pc] at hco'
    by_cases hco : co' = co
    · subst hco
      rw [Function.update_self] at hco'
      exact (howned key ct hco').1
    · rw [Function.update_of_ne hco] at hco'
      exact h.current co' key ct hco'
  unique co₁ co₂ key ct h₁ h₂ := by
    rw [setPc_pc] at h₁ h₂
    -- the coroutine whose place changes owns no entry of another one
    by_cases hco₁ : co₁ = co <;> by_cases hco₂ : co₂ = co
    · rw [hco₁, hco₂]
    · subst hco₁
      rw [Function.update_self] at h₁
      rw [Function.update_of_ne hco₂] at h₂
      exact absurd h₂ ((howned key ct h₁).2 co₂ ct hco₂)
    · subst hco₂
      rw [Function.update_self] at h₂
      rw [Function.update_of_ne hco₁] at h₁
      exact absurd h₁ ((howned key ct h₂).2 co₁ ct hco₁)
    · rw [Function.update_of_ne hco₁] at h₁
      rw [Function.update_of_ne hco₂] at h₂
      exact h.unique co₁ co₂ key ct h₁ h₂
  waiting co' key ct hpc hwoken := by
    rcases update_cases hpc with ⟨rfl, hnew⟩ | ⟨-, hold⟩
    · exact hqueued key ct hnew hwoken
    · exact h.waiting co' key ct hold hwoken
  numbered := h.numbered
  idle co' hle := by
    have hco : co' ≠ co := by rintro rfl; exact absurd hlt (Nat.not_lt.mpr hle)
    rw [setPc_pc, Function.update_of_ne hco]
    exact h.idle co' hle

/-- A coroutine stops where it neither owns nor waits. -/
theorem setPc_free (h : d.Owning) {pc : Pc} (hlt : co < d.nextCo) (howned : pc.owned = none)
    (hqueued : ∀ key ct, pc ≠ .queued key ct) : (d.setPc co pc).Owning :=
  h.setPc hlt (fun _ _ hsome => nomatch howned.symm.trans hsome)
    (fun key ct hpc => absurd hpc (hqueued key ct))

/-- The coroutine that comes to run leaves a node without an owner, if it was its owner. -/
theorem ownedOnlyBy_setPc (h : d.Owning) (howned : (d.pc co).owned = some (key, ct)) (pc : Pc) :
    (d.setPc co pc).OwnedOnlyBy co key := by
  intro co' ct' hne hco'
  rw [setPc_pc, Function.update_of_ne hne] at hco'
  have hcurrent := (h.current co' key ct' hco').symm.trans (h.current co key ct howned)
  obtain rfl := Option.some.inj hcurrent
  exact hne (h.unique co' co key ct' hco' howned)

/-- What neither moves a coroutine nor touches `connecting` keeps `Owning`, as long as
no waiter is dropped or put back to sleep. -/
theorem of_same (h : d.Owning) {d' : Daemon} (hpc : d'.pc = d.pc)
    (hconnecting : d'.connecting = d.connecting)
    (hwoken : ∀ co key ct, d.pc co = .queued key ct → d'.woken co = false → d.woken co = false)
    (hwaiters : ∀ ct, (d.entry ct).waiters ⊆ (d'.entry ct).waiters)
    (hnextEntry : d'.nextEntry = d.nextEntry) (hnextCo : d.nextCo ≤ d'.nextCo) : d'.Owning where
  current := by rw [hpc, hconnecting]; exact h.current
  unique := by rw [hpc]; exact h.unique
  waiting co key ct hq hw := by
    rw [hpc] at hq
    obtain ⟨hcurrent, hmem⟩ := h.waiting co key ct hq (hwoken co key ct hq hw)
    exact ⟨by rw [hconnecting, hcurrent], hwaiters ct hmem⟩
  numbered := by rw [hconnecting, hnextEntry]; exact h.numbered
  idle co hle := by rw [hpc]; exact h.idle co (hnextCo.trans hle)

/-- An entry that keeps its waiters leaves every entry with its waiters. -/
private theorem waiters_subset_update {entry : ℕ → Entry} {e : Entry}
    (he : e.waiters = (entry ct).waiters) (ct' : ℕ) :
    (entry ct').waiters ⊆ (Function.update entry ct e ct').waiters := by
  by_cases hct : ct' = ct
  · subst hct
    rw [Function.update_self, he]
    exact List.Subset.refl _
  · rw [Function.update_of_ne hct]
    exact List.Subset.refl _

/-- An entry with more in it, and a coroutine that runs put to sleep. -/
private theorem of_entry (h : d.Owning) (ct : ℕ) (e : Entry) (hpc : d.pc co = .running)
    (he : (d.entry ct).waiters ⊆ e.waiters) :
    ({ d with
      entry := Function.update d.entry ct e
      woken := Function.update d.woken co false } : Daemon).Owning := by
  refine h.of_same rfl rfl (fun co' key' ct' hq hw => ?_) (fun ct' => ?_) rfl le_rfl
  · have hne : co' ≠ co := by
      rintro rfl
      exact nomatch hpc.symm.trans hq
    simpa [hne] using hw
  · by_cases hct' : ct' = ct
    · subst hct'; simpa using he
    · simp [hct']

/-- A coroutine waits in the current entry of the node. -/
theorem waitOn (h : d.Owning) (hlt : co < d.nextCo) (hpc : d.pc co = .running)
    (hct : d.connecting key = some ct) : (d.waitOn co key ct).Owning := by
  have hentry := h.of_entry ct { d.entry ct with waiters := (d.entry ct).waiters ++ [co] } hpc
    (by simp)
  refine hentry.setPc hlt (fun _ _ hsome => nomatch hsome) ?_
  intro key' ct' hq _
  obtain ⟨rfl, rfl⟩ := Pc.queued.inj hq
  exact ⟨hct, by simp⟩

/-- The owner gives up the entry of its node, and every waiter is woken. -/
theorem release (h : d.Owning) (hfree : ∀ co ct, (d.pc co).owned ≠ some (key, ct))
    (hct : d.connecting key = some ct) : (d.release key ct).Owning := by
  rw [release_eq]
  refine ⟨?_, h.unique, ?_, ?_, h.idle⟩
  · intro co' key' ct' hco'
    have hne : key' ≠ key := by rintro rfl; exact hfree co' ct' hco'
    simpa [hne] using h.current co' key' ct' hco'
  · intro co' key' ct' hpc hwoken
    have hpc : d.pc co' = .queued key' ct' := hpc
    simp only [hpc, Pc.sleeping, Bool.and_true, Bool.or_eq_false_iff, decide_eq_false_iff_not]
      at hwoken
    obtain ⟨hcurrent, hmem⟩ := h.waiting co' key' ct' hpc hwoken.1
    -- a waiter of this node waits in this entry, and was woken
    have hne : key' ≠ key := by
      rintro rfl
      obtain rfl := Option.some.inj (hct.symm.trans hcurrent)
      exact hwoken.2 hmem
    exact ⟨by simpa [hne] using hcurrent, hmem⟩
  · intro key' ct' hct'
    by_cases hne : key' = key
    · subst hne; simp at hct'
    · exact h.numbered key' ct' (by simpa [hne] using hct')

/-- A new entry is made for a node that has none. -/
theorem enter (h : d.Owning) (hct : d.connecting key = none) : (d.enter key).Owning := by
  -- the other entries belong to other nodes and have smaller numbers
  have hne : ∀ {key' ct'}, d.connecting key' = some ct' → key' ≠ key ∧ ct' ≠ d.nextEntry := by
    rintro key' ct' hct'
    refine ⟨?_, Nat.ne_of_lt (h.numbered key' ct' hct')⟩
    rintro rfl
    exact nomatch hct.symm.trans hct'
  refine ⟨?_, h.unique, ?_, ?_, h.idle⟩
  · intro co' key' ct' hco'
    have hcurrent := h.current co' key' ct' hco'
    simpa [Daemon.enter, (hne hcurrent).1] using hcurrent
  · intro co' key' ct' hpc hwoken
    obtain ⟨hcurrent, hmem⟩ := h.waiting co' key' ct' hpc hwoken
    simpa [Daemon.enter, (hne hcurrent).1, (hne hcurrent).2] using And.intro hcurrent hmem
  · intro key' ct' hct'
    by_cases hkey : key' = key
    · subst hkey
      obtain rfl : d.nextEntry = ct' := by simpa [Daemon.enter] using hct'
      exact Nat.lt_succ_self _
    · have hold : d.connecting key' = some ct' := by simpa [Daemon.enter, hkey] using hct'
      exact Nat.lt_succ_of_lt (h.numbered key' ct' hold)

theorem finish (h : d.Owning) (hlt : co < d.nextCo) (succ : Bool) (c : Option ℕ) :
    (d.finish co succ c).Owning := by
  cases succ <;> exact h.setPc_free hlt rfl (by simp)

/-- From the address on: the coroutine keeps the entry, or gives it up and ends. -/
theorem proceed (h : d.Owning) (hlt : co < d.nextCo) (howned : (d.pc co).owned = none)
    (hct : d.connecting key = some ct) (honly : d.OwnedOnlyBy co key) :
    (d.proceed co key ct).Owning := by
  -- either the coroutine keeps the entry
  have hkeep : ∀ pc : Pc, pc.owned = some (key, ct) → (d.setPc co pc).Owning := by
    intro pc hpc
    refine h.setPc hlt (fun key' ct' hsome => ?_) (fun key' ct' hq => ?_)
    · obtain ⟨rfl, rfl⟩ := Prod.mk.inj (Option.some.inj (hpc.symm.trans hsome))
      exact ⟨hct, honly⟩
    · rw [hq] at hpc
      exact nomatch hpc
  -- or it gives the entry up and returns
  have hend : ∀ succ c, ((d.release key ct).finish co succ c).Owning := by
    intro succ c
    refine (h.release ?_ hct).finish ?_ succ c
    · intro co' ct'
      by_cases hco : co' = co
      · rw [hco, howned]; simp
      · exact honly co' ct' hco
    · rw [release_eq]; exact hlt
  unfold Daemon.proceed
  split
  · split <;> exact hkeep _ rfl
  · split
    · exact hend _ _
    · split_ifs
      · exact hend _ _
      · exact hkeep _ rfl
  · exact hend _ _

/-- The coroutine waits for the address, as the owner of the entry. -/
theorem awaitAddress (h : d.Owning) (hlt : co < d.nextCo) (hpc : d.pc co = .running)
    (hct : d.connecting key = some ct) (honly : d.OwnedOnlyBy co key) :
    (d.awaitAddress co key ct).Owning := by
  have hentry := h.of_entry ct { d.entry ct with namequery := some co } hpc (List.Subset.refl _)
  refine hentry.setPc hlt ?_ (fun _ _ hq => nomatch hq)
  intro key' ct' hsome
  obtain ⟨rfl, rfl⟩ := Prod.mk.inj (Option.some.inj hsome)
  exact ⟨hct, honly⟩

/-- `open_channel` from its first line. -/
theorem openChannel (h : d.Owning) (hlt : co < d.nextCo) (hpc : d.pc co = .running)
    (key : String) : (d.openChannel co key).Owning := by
  cases hct : d.connecting key with
  | some ct =>
    rw [openChannel_of_some hct]
    exact h.waitOn hlt hpc hct
  | none =>
    -- without an entry nobody owns one
    have honly : d.OwnedOnlyBy co key := by
      intro co' ct' _ hco'
      exact nomatch hct.symm.trans (h.current co' key ct' hco')
    have henter := h.enter hct
    have hcurrent : (d.enter key).connecting key = some d.nextEntry := Function.update_self ..
    rw [openChannel_of_none hct]
    split_ifs
    · exact henter.awaitAddress hlt hpc hcurrent honly
    · exact henter.proceed hlt (congrArg Pc.owned hpc) hcurrent honly

/-- The end of `open_channel`: the entry is given up, and perhaps a new one is made. -/
theorem leave (h : d.Owning) (hlt : co < d.nextCo) (hpc : d.pc co = .running)
    (hct : d.connecting key = some ct) (honly : d.OwnedOnlyBy co key) (address : NodeAddress)
    (succ : Bool) (c : Option ℕ) : (d.leave co key ct address succ c).Owning := by
  have hrelease : (d.release key ct).Owning := by
    refine h.release (fun co' ct' => ?_) hct
    by_cases hco : co' = co
    · rw [hco, hpc]; exact fun hsome => nomatch hsome
    · exact honly co' ct' hco
  rw [leave_eq]
  split_ifs
  · exact hrelease.openChannel (by rw [release_eq]; exact hlt) (by rw [release_eq]; exact hpc) key
  · exact hrelease.finish (by rw [release_eq]; exact hlt) succ c

theorem requeue (h : d.Owning) (hlt : co < d.nextCo) (hpc : d.pc co = .running)
    (key : String) (ct : ℕ) : (d.requeue co key ct).Owning := by
  unfold Daemon.requeue
  split
  · rename_i hct
    exact h.waitOn hlt hpc hct
  · split <;> exact h.finish hlt _ _

/-- The call of a sender has ended. -/
theorem called (h : d.Owning) (c : ℕ) (change : Change) (succ : Bool) :
    (d.called c change succ).Owning :=
  h.of_same rfl rfl (fun _ _ _ _ hw => hw) (fun _ => List.Subset.refl _) rfl le_rfl

/-- A sender was launched: its coroutine keeps the entry. -/
theorem launched (h : d.Owning) {address : String} (hlt : co < d.nextCo)
    (hpc : d.pc co = .launching key ct address) : (d.launched co key ct address).Owning := by
  have howned : (d.pc co).owned = some (key, ct) := congrArg Pc.owned hpc
  have hset : ∀ c, (d.setPc co (.changing key ct address c)).Owning := by
    intro c
    refine h.setPc hlt (fun key' ct' hsome => ?_) (fun _ _ hq => nomatch hq)
    obtain ⟨rfl, rfl⟩ := Prod.mk.inj (Option.some.inj hsome)
    refine ⟨h.current co key ct howned, fun co' ct' hne hco' => ?_⟩
    obtain rfl := Option.some.inj ((h.current co' key ct' hco').symm.trans
      (h.current co key ct howned))
    exact hne (h.unique co' co key ct' hco' howned)
  unfold Daemon.launched
  split
  · exact (hset _).of_same rfl rfl (fun _ _ _ _ hw => hw) (fun _ => List.Subset.refl _) rfl le_rfl
  · exact (hset _).of_same rfl rfl (fun _ _ _ _ hw => hw) (fun _ => List.Subset.refl _) rfl le_rfl

/-- A reload only adds coroutines that own nothing, and only wakes others. -/
theorem reloaded (h : d.Owning) {d' : Daemon} (hd : Reloaded d d') : d'.Owning := by
  -- only a coroutine that was forked is not where it was
  have hold : ∀ {co}, (∀ name, d'.pc co ≠ .forked name) → d'.pc co = d.pc co := by
    intro co hforked
    rcases hd.forked co with heq | ⟨_, name, hname⟩
    · exact heq
    · exact absurd hname (hforked name)
  have howner : ∀ {co key ct}, (d'.pc co).owned = some (key, ct) →
      (d.pc co).owned = some (key, ct) := by
    intro co key ct howned
    rwa [hold fun name hname => by rw [hname] at howned; exact nomatch howned] at howned
  refine ⟨?_, ?_, ?_, ?_, ?_⟩
  · intro co key ct howned
    rw [hd.connecting]
    exact h.current co key ct (howner howned)
  · exact fun co co' key ct howned howned' =>
      h.unique co co' key ct (howner howned) (howner howned')
  · intro co key ct hpc hwoken
    rw [hold (by simp [hpc])] at hpc
    rw [hd.connecting, hd.entry]
    exact h.waiting co key ct hpc (hd.woken co hwoken)
  · rw [hd.connecting, hd.nextEntry]
    exact h.numbered
  · intro co hle
    rcases hd.forked co with heq | ⟨hlt, _⟩
    · exact heq.trans (h.idle co (hd.nextCo.trans hle))
    · exact absurd hlt (Nat.not_lt.mpr hle)

/-! ### Events -/

theorem lt_nextCo (h : d.Owning) (hpc : d.pc co ≠ .idle) : co < d.nextCo :=
  Nat.lt_of_not_le fun hle => hpc (h.idle co hle)

/-- The owner of an entry is one of the coroutines. -/
theorem lt_of_owned (h : d.Owning) (howned : (d.pc co).owned = some (key, ct)) : co < d.nextCo := by
  apply h.lt_nextCo
  intro hidle
  rw [hidle] at howned
  exact nomatch howned

theorem lookup (h : d.Owning) (node : String) : (d.lookup node).Owning := by
  have hmore : ({ d with nextCo := d.nextCo + 1 } : Daemon).Owning :=
    h.of_same rfl rfl (fun _ _ _ _ hw => hw) (fun _ => List.Subset.refl _) rfl (Nat.le_succ _)
  cases hchannel : d.nodeChannel node with
  | some c =>
    rw [lookup_of_some hchannel]
    exact hmore.finish (Nat.lt_succ_self _) true (some c)
  | none =>
    rw [lookup_of_none hchannel]
    have hrun : (Daemon.setPc _ d.nextCo .running).Owning :=
      hmore.setPc_free (Nat.lt_succ_self _) rfl (by simp)
    exact hrun.openChannel (Nat.lt_succ_self _) (Function.update_self ..) node

/-- The owner of an entry runs, and leaves it. -/
private theorem leave_owner (h : d.Owning) (howned : (d.pc co).owned = some (key, ct))
    {d' : Daemon} (h' : d'.Owning) (hpc : d'.pc = Function.update d.pc co .running)
    (hconnecting : d'.connecting = d.connecting) (hnext : d'.nextCo = d.nextCo)
    (address : NodeAddress) (succ : Bool) (c : Option ℕ) :
    (d'.leave co key ct address succ c).Owning := by
  have hlt : co < d'.nextCo := by
    rw [hnext]
    exact h.lt_of_owned howned
  refine h'.leave hlt ?_ ?_ ?_ address succ c
  · rw [hpc, Function.update_self]
  · rw [hconnecting, h.current co key ct howned]
  · have honly := h.ownedOnlyBy_setPc howned .running
    intro co' ct' hne
    rw [hpc]
    exact honly co' ct' hne

private theorem changed (h : d.Owning) (hrun : (d.setPc co .running).Owning) {address : String}
    {c : ℕ} (hpc : d.pc co = .changing key ct address c) :
    (d.changed co key ct address c).Owning := by
  let d₁ := (d.setPc co .running).called c (.to (hostPort address)) true
  have hopened : ({ d₁ with
      nodeChannel := Function.update d₁.nodeChannel key (some c)
      entry := Function.update d₁.entry ct { d₁.entry ct with channel := some c }
      nodeSenderClosed := Function.update d₁.nodeSenderClosed key false } : Daemon).Owning :=
    (hrun.called c _ true).of_same rfl rfl (fun _ _ _ _ hw => hw) (waiters_subset_update rfl)
      rfl le_rfl
  exact h.leave_owner (congrArg Pc.owned hpc) hopened rfl rfl rfl _ _ _

private theorem closed (h : d.Owning) (hrun : (d.setPc co .running).Owning) {c : ℕ}
    (hpc : d.pc co = .closing key ct c) : (d.closed co key ct c).Owning := by
  let d₁ := (d.setPc co .running).called c .off true
  have hclosed : ({ d₁ with
      nodeSenderClosed := Function.update d₁.nodeSenderClosed key true } : Daemon).Owning :=
    (hrun.called c .off true).of_same rfl rfl (fun _ _ _ _ hw => hw)
      (fun _ => List.Subset.refl _) rfl le_rfl
  exact h.leave_owner (congrArg Pc.owned hpc) hclosed rfl rfl rfl _ _ _

/-- Every event keeps `Owning`. -/
theorem step (h : d.Owning) {e : Event} {d' : Daemon} (hs : step d e = some d') : d'.Owning := by
  have hlt : ∀ {co pc}, d.pc co = pc → pc ≠ .idle → co < d.nextCo := by
    rintro co _ rfl hpc
    exact h.lt_nextCo hpc
  -- a coroutine that runs is at no place that others rely on
  have hrun : ∀ {co pc}, d.pc co = pc → pc ≠ .idle → (d.setPc co .running).Owning :=
    fun hpc hne => h.setPc_free (hlt hpc hne) rfl (by simp)
  cases stepCase_of_step hs with
  | lookup node => exact h.lookup node
  | reload tmp => exact h.reloaded (.loadconfig d tmp)
  | forked hpc =>
    exact (hrun hpc (by simp)).openChannel (hlt hpc (by simp)) (Function.update_self ..) _
  | queued hpc =>
    exact (hrun hpc (by simp)).requeue (hlt hpc (by simp)) (Function.update_self ..) _ _
  | naming hpc =>
    have howned := congrArg Pc.owned hpc
    refine (hrun hpc (by simp)).proceed (hlt hpc (by simp)) ?_ (h.current _ _ _ howned)
      (h.ownedOnlyBy_setPc howned .running)
    rw [setPc_pc_self]
    rfl
  | launched hpc => exact h.launched (hlt hpc (by simp)) hpc
  | launchFailed hpc => exact h.setPc_free (hlt hpc (by simp)) rfl (by simp)
  | changed hpc => exact h.changed (hrun hpc (by simp)) hpc
  | closed hpc => exact h.closed (hrun hpc (by simp)) hpc
  | changeFailed hpc =>
    exact h.leave_owner (congrArg Pc.owned hpc) ((hrun hpc (by simp)).called _ _ _) rfl rfl rfl
      _ _ _
  | closeFailed hpc =>
    exact h.leave_owner (congrArg Pc.owned hpc) ((hrun hpc (by simp)).called _ _ _) rfl rfl rfl
      _ _ _

end Owning

/-! ### Where `open_channel` comes to a stop -/

/-- The coroutine comes to a stop as the owner of the entry `ct` of the node, or the node
is left without an entry. -/
def Settled (d d' : Daemon) (co : ℕ) (key : String) (ct : ℕ) : Prop :=
  d'.connecting = Function.update d.connecting key none ∨
    (d'.pc co).owned = some (key, ct) ∧
      d'.connecting = Function.update d.connecting key (some ct)

namespace Settled

theorem of_release (d : Daemon) (co : ℕ) (key : String) (ct ct' : ℕ) (succ : Bool)
    (c : Option ℕ) : Settled d ((d.release key ct).finish co succ c) co key ct' := by
  refine .inl ?_
  rw [release_eq]
  rfl

/-- The coroutine stops as the owner of the entry the node has. -/
theorem of_owned {pc : Pc} (hct : d.connecting key = some ct) (hpc : pc.owned = some (key, ct)) :
    Settled d (d.setPc co pc) co key ct := by
  refine .inr ⟨?_, ?_⟩
  · rw [setPc_pc_self, hpc]
  · rw [setPc_connecting, ← hct, Function.update_eq_self]

theorem proceed (hct : d.connecting key = some ct) : Settled d (d.proceed co key ct) co key ct := by
  unfold Daemon.proceed
  split
  · split <;> exact of_owned hct rfl
  · split
    · exact of_release ..
    · split_ifs
      · exact of_release ..
      · exact of_owned hct rfl
  · exact of_release ..

theorem openChannel (hct : d.connecting key = none) :
    Settled d (d.openChannel co key) co key d.nextEntry := by
  rw [openChannel_of_none hct]
  split_ifs
  · refine .inr ⟨?_, rfl⟩
    rw [awaitAddress_pc, Function.update_self]
    rfl
  · have hcurrent : (d.enter key).connecting key = some d.nextEntry := Function.update_self ..
    refine (proceed hcurrent).imp (fun hnone => ?_) fun ⟨howned, hsome⟩ => ⟨howned, ?_⟩
    · rw [hnone, Daemon.enter, Function.update_idem]
    · rw [hsome, Daemon.enter, Function.update_idem]

theorem leave (d : Daemon) (co : ℕ) (key : String) (ct : ℕ) (address : NodeAddress) (succ : Bool)
    (c : Option ℕ) : Settled d (d.leave co key ct address succ c) co key d.nextEntry := by
  rw [leave_eq]
  split_ifs
  · have hnone : (d.release key ct).connecting = Function.update d.connecting key none := by
      rw [release_eq]
    have hnext : (d.release key ct).nextEntry = d.nextEntry := by rw [release_eq]
    have hopen : Settled (d.release key ct) _ co key _ :=
      openChannel (by rw [hnone, Function.update_self])
    simpa only [Settled, hnone, hnext, Function.update_idem] using hopen
  · exact of_release ..

/-- Once settled, the node has no other entry than the one the coroutine owns. -/
theorem connecting_ne {d' : Daemon} (h : Settled d d' co key ct')
    (hct : ct' = ct → (d'.pc co).owned ≠ some (key, ct)) : d'.connecting key ≠ some ct := by
  intro hsome
  rcases h with hnone | ⟨howned, hconnecting⟩
  · rw [hnone, Function.update_self] at hsome
    exact nomatch hsome
  · rw [hconnecting, Function.update_self, Option.some.injEq] at hsome
    exact hct hsome (hsome ▸ howned)

end Settled

/-! ### Entries with an owner -/

/-- The entry of the node in `connecting` has an owner. -/
def Owned (d : Daemon) (n : String) : Prop :=
  ∀ ct, d.connecting n = some ct → ∃ co, (d.pc co).owned = some (n, ct)

/-- The entry of the node has an owner other than `co`, unless the node is `key`. -/
def OwnedBut (d : Daemon) (n : String) (co : ℕ) (key : String) : Prop :=
  ∀ ct, n ≠ key → d.connecting n = some ct → ∃ co', co' ≠ co ∧ (d.pc co').owned = some (n, ct)

/-- The steps in which no launch of a sender of the node fails. -/
def launchesReturn (n : String) (d : Daemon) : Event → Prop
  | .launchFailed co => (d.pc co).node ≠ some n
  | _ => True

instance (n : String) (d : Daemon) (e : Event) : Decidable (launchesReturn n d e) :=
  match e with
  | .launchFailed co => inferInstanceAs (Decidable ((d.pc co).node ≠ some n))
  | .lookup _ | .reload _ | .run _ | .launched _ | .changed _ | .changeFailed _ => .isTrue trivial

namespace Owned

variable {n : String}

theorem ownedBut_of_owner (h : d.Owned n) (howned : (d.pc co).owned = some (key, ct)) :
    d.OwnedBut n co key := by
  intro ct' hne hct'
  obtain ⟨co', hco'⟩ := h ct' hct'
  refine ⟨co', ?_, hco'⟩
  rintro rfl
  exact hne (Prod.mk.inj (Option.some.inj (hco'.symm.trans howned))).1

theorem ownedBut_of_none (h : d.Owned n) (howned : (d.pc co).owned = none) (key : String) :
    d.OwnedBut n co key := by
  intro ct' _ hct'
  obtain ⟨co', hco'⟩ := h ct' hct'
  refine ⟨co', ?_, hco'⟩
  rintro rfl
  cases hco'.symm.trans howned

/-- A coroutine that settles leaves every entry with an owner. -/
theorem of_settled {d₁ d' : Daemon} (h : d.OwnedBut n co key)
    (hpc : ∀ co', co' ≠ co → d'.pc co' = d.pc co') (hconnecting : d₁.connecting = d.connecting)
    (hsettled : Settled d₁ d' co key ct) : d'.Owned n := by
  intro ct' hct'
  by_cases hkey : n = key
  · subst hkey
    -- the entry is gone, or the coroutine owns it
    rcases hsettled with hnone | ⟨howned, hsome⟩
    · rw [hnone, Function.update_self] at hct'
      cases hct'
    · rw [hsome, Function.update_self] at hct'
      obtain rfl := Option.some.inj hct'
      exact ⟨co, howned⟩
  · have hold : d.connecting n = some ct' := by
      rcases hsettled with hnone | ⟨_, hsome⟩
      · rwa [hnone, Function.update_of_ne hkey, hconnecting] at hct'
      · rwa [hsome, Function.update_of_ne hkey, hconnecting] at hct'
    obtain ⟨co', hne, hco'⟩ := h ct' hkey hold
    exact ⟨co', by rw [hpc co' hne, hco']⟩

/-- Where no owner loses its entry and no entry is new, every entry keeps its owner. -/
theorem of_owned {d' : Daemon} (h : d.Owned n) (hconnecting : d'.connecting = d.connecting)
    (howned : ∀ co ct, (d.pc co).owned = some (n, ct) → (d'.pc co).owned = some (n, ct)) :
    d'.Owned n := by
  intro ct hct
  rw [hconnecting] at hct
  obtain ⟨co, hco⟩ := h ct hct
  exact ⟨co, howned co ct hco⟩

/-- A coroutine that owns nothing moves. -/
theorem of_quiet {d' : Daemon} (h : d.Owned n) (hnone : (d.pc co).owned = none)
    (hquiet : Quiet co d d') (hconnecting : d'.connecting = d.connecting) : d'.Owned n := by
  refine h.of_owned hconnecting fun co' ct howned => ?_
  have hne : co' ≠ co := by
    rintro rfl
    cases howned.symm.trans hnone
  rw [hquiet.pc co' hne, howned]

/-- A coroutine that owns nothing runs `open_channel` from its first line. -/
theorem openChannel (h : d.Owned n) (hnone : (d.pc co).owned = none) (key : String) :
    (d.openChannel co key).Owned n := by
  have hquiet := Quiet.openChannel co d key
  cases hct : d.connecting key with
  | some ct =>
    refine h.of_quiet hnone hquiet ?_
    rw [openChannel_of_some hct]
    rfl
  | none =>
    exact of_settled (h.ownedBut_of_none hnone key) hquiet.pc rfl (.openChannel hct)

theorem requeue (h : d.Owned n) (hnone : (d.pc co).owned = none) (key : String) (ct : ℕ) :
    (d.requeue co key ct).Owned n := by
  refine h.of_quiet hnone (.requeue co d key ct) ?_
  unfold Daemon.requeue
  split
  · rfl
  · split <;> rfl

theorem setPc_running (h : d.Owned n) (hnone : (d.pc co).owned = none) :
    (d.setPc co .running).Owned n ∧ ((d.setPc co .running).pc co).owned = none := by
  refine ⟨h.of_quiet hnone (.setPc co d .running) rfl, ?_⟩
  rw [setPc_pc_self]
  rfl

/-- An owner runs, and settles. -/
private theorem of_owner (h : d.Owned n) (howned : (d.pc co).owned = some (key, ct))
    {d₁ d' : Daemon} (hquiet : Quiet co d₁ d') (hsettled : Settled d₁ d' co key ct')
    (hpc : d₁.pc = Function.update d.pc co .running)
    (hconnecting : d₁.connecting = d.connecting) : d'.Owned n := by
  refine of_settled (h.ownedBut_of_owner howned) (fun co' hne => ?_) hconnecting hsettled
  rw [hquiet.pc co' hne, hpc, Function.update_of_ne hne]

/-- A coroutine moves, and stays where it owns what it owned. -/
theorem setPc_owned (h : d.Owned n) {pc : Pc} (howned : pc.owned = (d.pc co).owned) :
    (d.setPc co pc).Owned n := by
  refine h.of_owned rfl fun co' ct hco' => ?_
  by_cases hco : co' = co
  · rw [hco, setPc_pc_self, howned, ← hco, hco']
  · rwa [setPc_pc, Function.update_of_ne hco]

/-- Every event but a failed launch for the node leaves its entry with an owner. -/
theorem step (h : d.Owned n) (hown : d.Owning) {e : Event} {d' : Daemon}
    (hs : step d e = some d') (he : launchesReturn n d e) : d'.Owned n := by
  cases stepCase_of_step hs with
  | lookup node =>
    have hnone : (d.pc d.nextCo).owned = none := by rw [hown.idle d.nextCo le_rfl]; rfl
    have hmore : ({ d with nextCo := d.nextCo + 1 } : Daemon).Owned n := h
    cases hchannel : d.nodeChannel node with
    | some c =>
      rw [lookup_of_some hchannel]
      exact hmore.of_quiet hnone (.finish ..) rfl
    | none =>
      rw [lookup_of_none hchannel]
      obtain ⟨hrun, hnone⟩ := hmore.setPc_running hnone
      exact hrun.openChannel hnone node
  | reload tmp =>
    have hreload := Reloaded.loadconfig d tmp
    refine h.of_owned hreload.connecting fun co ct howned => ?_
    rw [hreload.pc co (hown.lt_of_owned howned), howned]
  | forked hpc =>
    obtain ⟨hrun, hnone⟩ := h.setPc_running (congrArg Pc.owned hpc)
    exact hrun.openChannel hnone _
  | queued hpc =>
    obtain ⟨hrun, hnone⟩ := h.setPc_running (congrArg Pc.owned hpc)
    exact hrun.requeue hnone _ _
  | naming hpc =>
    have howned := congrArg Pc.owned hpc
    exact h.of_owner howned (.proceed ..) (.proceed (hown.current _ _ _ howned)) rfl rfl
  | @launched co key ct address hpc =>
    -- the owner goes on from one place of an owner to another
    have hset (c : ℕ) : (d.setPc co (.changing key ct address c)).Owned n :=
      h.setPc_owned (congrArg Pc.owned hpc).symm
    unfold Daemon.launched
    split
    · exact hset _
    · exact hset _
  | @launchFailed co key ct address hpc =>
    have hne : n ≠ key := by
      rintro rfl
      exact he (congrArg Pc.node hpc)
    -- the owner of the entry of another node has failed
    intro ct' hct'
    obtain ⟨co', hco', howned'⟩ := h.ownedBut_of_owner (congrArg Pc.owned hpc) ct' hne hct'
    exact ⟨co', by rwa [setPc_pc, Function.update_of_ne hco']⟩
  | changed hpc => exact h.of_owner (congrArg Pc.owned hpc) (.leave ..) (.leave ..) rfl rfl
  | closed hpc => exact h.of_owner (congrArg Pc.owned hpc) (.leave ..) (.leave ..) rfl rfl
  | changeFailed hpc => exact h.of_owner (congrArg Pc.owned hpc) (.leave ..) (.leave ..) rfl rfl
  | closeFailed hpc => exact h.of_owner (congrArg Pc.owned hpc) (.leave ..) (.leave ..) rfl rfl

end Owned

/-! ### Leaving an entry -/

/-- An owner that leaves its entry clears it, unless its launch failed. -/
theorem connecting_ne_of_left (h : d.Owning) {e : Event} {d' : Daemon} (hs : step d e = some d')
    (howned : (d.pc co).owned = some (key, ct)) (hleft : (d'.pc co).owned ≠ some (key, ct))
    (he : e ≠ .launchFailed co) : d'.connecting key ≠ some ct := by
  have hlt : co < d.nextCo := h.lt_of_owned howned
  -- only its own resumption moves the owner
  have hresumed : resumes e = some co := by
    by_contra hne
    exact hleft (step_pc hs hlt hne ▸ howned)
  have hcurrent := h.current co key ct howned
  -- an entry that is made on the way out is a new one
  have hold : d.nextEntry ≠ ct := (Nat.ne_of_lt (h.numbered key ct hcurrent)).symm
  have hkey : ∀ {pc key' ct'}, d.pc co = pc → pc.owned = some (key', ct') →
      key' = key ∧ ct' = ct := by
    rintro _ key' ct' rfl hpc
    exact Prod.mk.inj (Option.some.inj (hpc.symm.trans howned))
  have hsettled : ∀ {d₁ : Daemon}, Settled d₁ d' co key d.nextEntry → d'.connecting key ≠ some ct :=
    fun hsettled => hsettled.connecting_ne fun heq => absurd heq hold
  cases stepCase_of_step hs with
  | lookup => exact nomatch hresumed
  | reload => exact nomatch hresumed
  | forked hpc =>
    obtain rfl := Option.some.inj hresumed
    rw [hpc] at howned
    exact nomatch howned
  | queued hpc =>
    obtain rfl := Option.some.inj hresumed
    rw [hpc] at howned
    exact nomatch howned
  | @naming co₁ key₁ ct₁ hpc =>
    obtain rfl := Option.some.inj hresumed
    obtain ⟨rfl, rfl⟩ := hkey hpc rfl
    have hproceed : Settled (d.setPc co₁ .running)
        ((d.setPc co₁ .running).proceed co₁ key₁ ct₁) co₁ key₁ ct₁ := .proceed hcurrent
    exact hproceed.connecting_ne fun _ => hleft
  | @launched co₁ key₁ ct₁ address hpc =>
    obtain rfl := Option.some.inj hresumed
    refine absurd ?_ hleft
    obtain ⟨rfl, rfl⟩ := hkey hpc rfl
    obtain ⟨c, hc⟩ := launched_pc d co₁ key₁ ct₁ address
    rw [hc, Function.update_self]
    rfl
  | launchFailed =>
    obtain rfl := Option.some.inj hresumed
    exact absurd rfl he
  | changed hpc =>
    obtain rfl := Option.some.inj hresumed
    obtain ⟨rfl, rfl⟩ := hkey hpc rfl
    exact hsettled (.leave ..)
  | closed hpc =>
    obtain rfl := Option.some.inj hresumed
    obtain ⟨rfl, rfl⟩ := hkey hpc rfl
    exact hsettled (.leave ..)
  | changeFailed hpc =>
    obtain rfl := Option.some.inj hresumed
    obtain ⟨rfl, rfl⟩ := hkey hpc rfl
    exact hsettled (.leave ..)
  | closeFailed hpc =>
    obtain rfl := Option.some.inj hresumed
    obtain ⟨rfl, rfl⟩ := hkey hpc rfl
    exact hsettled (.leave ..)

theorem owned_proceed {address : String} (haddress : d.nodeAddress key = some (.at address)) :
    ((d.proceed co key ct).pc co).owned = some (key, ct) := by
  simp only [Daemon.proceed, haddress]
  split <;> rw [setPc_pc_self] <;> rfl

/-- The entry was given up: the node does not refer to it any more, and every coroutine
queued in it was woken. -/
def Released (d : Daemon) (key : String) (ct : ℕ) : Prop :=
  d.connecting key ≠ some ct ∧ ∀ co, d.pc co = .queued key ct → d.woken co = true

theorem Owning.released (h : d.Owning) (hct : d.connecting key ≠ some ct) : d.Released key ct := by
  refine ⟨hct, fun co hpc => ?_⟩
  by_contra hwoken
  exact hct (h.waiting co key ct hpc (by simpa using hwoken)).1

theorem owning_init : init.Owning :=
  ⟨fun _ _ _ h => (nomatch h), fun _ _ _ _ h => (nomatch h), fun _ _ _ h => (nomatch h),
    fun _ _ h => (nomatch h), fun _ _ => rfl⟩

theorem owning_of_reachable {ok : Daemon → Event → Prop} (h : Reachable step ok init d) :
    d.Owning :=
  h.invariant owning_init fun _ _ _ hinv _ hs => hinv.step hs

theorem owned_of_reachable {n : String} (h : Reachable step (launchesReturn n) init d) :
    d.Owned n :=
  h.invariant' (I := fun d => d.Owned n) (fun _ hct => by cases hct)
    fun _ _ _ hr hinv hok hs => hinv.step (owning_of_reachable hr) hs hok

end Daemon

open Daemon

/-- When the owner of an entry leaves `open_channel`, the entry is given up and its
waiters are woken, exactly if what ended was not a failed launch. In a run in which no
launch for a node failed, this node can be opened by the next lookup when nobody opens it. -/
theorem released_iff (d : Daemon) :
    (Reachable step anyStep init d → ∀ e d' co key ct, step d e = some d' →
      (d.pc co).owned = some (key, ct) → (d'.pc co).owned ≠ some (key, ct) →
        (d'.Released key ct ↔ e ≠ .launchFailed co)) ∧
    (∀ key address, Reachable step (launchesReturn key) init d →
      (∀ co ct, (d.pc co).owned ≠ some (key, ct)) → d.nodeChannel key = none →
        d.nodeAddress key = some (.at address) →
          ∃ d', step d (.lookup key) = some d' ∧
            (d'.pc d.nextCo).owned = some (key, d.nextEntry)) := by
  refine ⟨fun hr e d' co key ct hs howned hleft => ⟨fun hreleased => ?_, fun he => ?_⟩, ?_⟩
  · rintro rfl
    have hcurrent := (owning_of_reachable hr).current co key ct howned
    cases stepCase_of_step hs with
    | launchFailed => exact hreleased.1 hcurrent
  · have hown := owning_of_reachable hr
    exact (hown.step hs).released (connecting_ne_of_left hown hs howned hleft he)
  · intro key address hr hfree hchannel haddress
    -- an entry would have a live owner
    have hct : d.connecting key = none := by
      rw [Option.eq_none_iff_forall_ne_some]
      intro ct hct
      obtain ⟨co, howned⟩ := owned_of_reachable hr ct hct
      exact hfree co ct howned
    refine ⟨_, rfl, ?_⟩
    have hrun : (({ d with nextCo := d.nextCo + 1 } : Daemon).setPc d.nextCo .running).connecting
        key = none := hct
    rw [lookup_of_none hchannel, openChannel_of_none hrun,
      if_neg fun habsent => Option.some_ne_none _ (haddress.symm.trans habsent.1)]
    exact owned_proceed haddress

/-- The channel of a node is opened: its entry is given up, and the lookup that waited is
woken. Another node can be opened although the launch for this one has failed. -/
theorem released_iff_opened :
    (∃ d d', run step init [.reload [(.name "n", .string "a:1")], .lookup "n", .lookup "n",
        .launched 0] = some d ∧
      step d (.changed 0) = some d' ∧ (d.pc 1) = .queued "n" 0 ∧ d'.Released "n" 0) ∧
    ∃ d d', run step init [.reload [(.name "n", .string "a:1"), (.name "m", .string "bad")],
        .lookup "m", .launchFailed 0] = some d ∧
      step d (.lookup "n") = some d' ∧ (d'.pc d.nextCo).owned = some ("n", 1) := by
  refine ⟨⟨_, _, rfl, rfl, by decide, ?_⟩, ?_⟩
  · have hreach := @Reachable.of_run _ _ step init _
      [.reload [(.name "n", .string "a:1")], .lookup "n", .lookup "n", .launched 0] rfl
    exact ((released_iff _).1 hreach (.changed 0) _ 0 "n" 0 rfl rfl (by decide)).mpr (by simp)
  · have hreach := @Reachable.of_guarded_run _ _ step (launchesReturn "n") init _ _
      [.reload [(.name "n", .string "a:1"), (.name "m", .string "bad")], .lookup "m",
        .launchFailed 0] rfl
    have hopened := (released_iff _).2 "n" "a:1" hreach ?_ rfl rfl
    · obtain ⟨d', hs, howned⟩ := hopened
      exact ⟨_, d', rfl, hs, howned⟩
    · intro co ct howned
      have hlt : co < 1 := (owning_of_reachable hreach).lt_of_owned howned
      obtain rfl : co = 0 := Nat.lt_one_iff.mp hlt
      cases howned

/-- A node is configured without a port, so that its sender cannot be launched: its
entry stays behind, the second lookup is never woken, and after the address has been
corrected a third lookup only queues behind it. -/
theorem launchFailed_not_released :
    ∃ d d', run step init [.reload [(.name "n", .string "bad")], .lookup "n", .lookup "n"] =
      some d ∧
      step d (.launchFailed 0) = some d' ∧
      hostPort "bad" = none ∧ (d.pc 0).owned = some ("n", 0) ∧ d'.pc 0 = .raised ∧
      ¬ d'.Released "n" 0 ∧
      (run step d' [.reload [(.name "n", .string "a:1")], .lookup "n"]).map
        (fun d => [(d.pc 1, d.woken 1), (d.pc 2, d.woken 2)]) =
          some [(.queued "n" 0, false), (.queued "n" 0, false)] := by
  refine ⟨_, _, rfl, rfl, by decide, by decide, by decide, ?_, by decide⟩
  rintro ⟨hconnecting, _⟩
  exact hconnecting (by decide)

end TestCluster.BeeCluster.Clusterd
