import TestCluster.Skynet.Timer

/-!
# Timers fire in their tick

The runs of `skynet_timer.c`: any thread calls `skynet_timeout` at any moment when the lock is
free, also while the timer thread dispatches a list, and the timer thread calls
`skynet_updatetime`, which calls `timer_update` once for every centisecond that has passed.

## Main definitions

* `TimerState`, `TimerState.step` — the wheel, the clock and where the timer thread is
* `firedBy` — the messages that are due by a tick, told by what was set
* `timersOf`, `immediateOf` — what is asked for with and without a delay

## Main results

* `timers_fire_in_their_tick` — in every run the timer thread has pushed exactly the messages that
  are due, each in its tick, in the order in which the timers were set; what is asked for without a
  delay is pushed at once
-/

namespace TestCluster.Skynet

open Semantics

/-- Where the timer thread is: in the loop of `skynet_updatetime`, or in `dispatch_list` before or
after the shift; the number of calls of `timer_update` that it still owes after this one. -/
inductive TimerPc
  | looping (owed : ℕ)
  | dispatching (shifted : Bool) (list : List TimerNode) (owed : ℕ)
  deriving DecidableEq, Repr

/-- The nodes that `dispatch_list` has still to push. -/
def TimerPc.list : TimerPc → List TimerNode
  | .looping _ => []
  | .dispatching _ list _ => list

/-- The calls of `timer_update` that are owed. -/
def TimerPc.owed : TimerPc → ℕ
  | .looping owed => owed
  | .dispatching _ _ owed => owed

/-- The state of `skynet_timer.c`. No step reads the last four fields: the ticks without end, the
timers that were set, the messages that the timer thread has pushed with their ticks, and those
that `skynet_timeout` has pushed itself. -/
structure TimerState where
  ti : Timer
  current : ℕ
  currentPoint : ℕ
  pc : TimerPc
  ticks : ℕ
  set : List TimerNode
  fired : List (ℕ × TimerEvent)
  immediate : List TimerEvent

/-- What happens: a thread calls `skynet_timeout`, the timer thread reads the clock, calls
`timer_update`, or pushes the next message of `dispatch_list`. -/
inductive TimerInput
  | timeout (handle : ℕ) (time : ℤ) (session : ℕ)
  | updatetime (cp : ℕ)
  | update
  | push
  deriving DecidableEq, Repr

namespace TimerState

/-- `skynet_timer_init`, with what `systime` and `gettime` return. -/
def init (current currentPoint : ℕ) : TimerState where
  ti := ⟨fun _ => [], 0⟩
  current := current
  currentPoint := currentPoint
  pc := .looping 0
  ticks := 0
  set := []
  fired := []
  immediate := []

/-- `skynet_timeout`. -/
def timeout (s : TimerState) (handle : ℕ) (time : ℤ) (session : ℕ) : TimerState :=
  if time ≤ 0 then { s with immediate := s.immediate ++ [⟨handle, session⟩] }
  else
    let node := s.ti.newNode ⟨handle, session⟩ time.toNat s.ticks
    { s with ti := s.ti.addNode node, set := s.set ++ [node] }

/-- `skynet_updatetime` up to its loop. -/
def updatetime (s : TimerState) (cp : ℕ) : TimerState :=
  if cp < s.currentPoint then { s with currentPoint := cp }
  else if cp ≠ s.currentPoint then
    let diff := (cp - s.currentPoint) % 2 ^ 32
    { s with currentPoint := cp, current := s.current + diff, pc := .looping diff }
  else s

/-- The second `timer_execute` of `timer_update`, up to where the lock is given up. -/
def afterShift (s : TimerState) (owed : ℕ) : TimerState :=
  match s.ti.execute with
  | some (list, ti) => { s with ti, pc := .dispatching true list owed }
  | none => { s with pc := .looping owed }

/-- `timer_update` from the first `timer_execute` on, up to where the lock is given up. -/
def beforeShift (s : TimerState) (owed : ℕ) : Option TimerState :=
  match s.ti.execute with
  | some (list, ti) => some { s with ti, pc := .dispatching false list owed }
  | none => s.ti.shift.map fun ti => { s with ti, ticks := s.ticks + 1 }.afterShift owed

/-- `dispatch_list` pushes a message; behind the last one the lock is taken again. -/
def push (s : TimerState) : Option TimerState :=
  match s.pc with
  | .dispatching shifted (node :: list) owed =>
    let s := { s with fired := s.fired ++ [(s.ticks, node.event)] }
    if list ≠ [] then some { s with pc := .dispatching shifted list owed }
    else if shifted then some (s.afterShift owed)
    else s.beforeShift owed
  | _ => none

/-- One step. The time of `skynet_timeout` is an `int`. -/
def step (s : TimerState) : TimerInput → Option TimerState
  | .timeout handle time session => if time < 2 ^ 31 then some (s.timeout handle time session)
      else none
  | .updatetime cp => if s.pc = .looping 0 then some (s.updatetime cp) else none
  | .update =>
    match s.pc with
    | .looping (owed + 1) => s.beforeShift owed
    | _ => none
  | .push => s.push

end TimerState

/-- The messages that are due at a tick, in the order in which their timers were set. -/
def dueAt (set : List TimerNode) (tick : ℕ) : List (ℕ × TimerEvent) :=
  (set.filter fun n => decide (n.due = tick)).map fun n => (tick, n.event)

/-- The messages that are due by a tick. -/
def firedBy (set : List TimerNode) (ticks : ℕ) : List (ℕ × TimerEvent) :=
  (List.range (ticks + 1)).flatMap (dueAt set)

theorem firedBy_succ (set : List TimerNode) (ticks : ℕ) :
    firedBy set (ticks + 1) = firedBy set ticks ++ dueAt set (ticks + 1) := by
  rw [firedBy, List.range_succ, List.flatMap_append]
  simp [firedBy]

/-- A timer that is due later is not among the messages of the ticks so far. -/
theorem firedBy_append {set : List TimerNode} {ticks : ℕ} {node : TimerNode}
    (h : ticks < node.due) : firedBy (set ++ [node]) ticks = firedBy set ticks := by
  refine List.flatMap_congr fun tick htick => ?_
  have hne : node.due ≠ tick := by
    have := List.mem_range.mp htick
    omega
  rw [dueAt, List.filter_append, List.filter_singleton]
  simp [hne, dueAt]

/-- The timers of the near list of a tick are the ones that are due in it. -/
theorem place_eq_tick_iff {now : ℕ} {n : TimerNode} (h : now < n.due) :
    place (now + 1) n.due = .near ((now + 1) % 2 ^ 32 &&& timeNearMask) ↔ n.due = now + 1 := by
  have hmask : timeNearMask = 2 ^ 8 - 1 := rfl
  rw [place_eq_near_iff, hmask, Nat.and_two_pow_sub_one_eq_mod]
  omega

/-! ### The invariant -/

/-- What holds in every state: the timers ahead are where they belong, the messages due so far have
been pushed or are being pushed, and the clock is as far ahead as ticks are owed. -/
structure TimerInv (start : ℕ) (s : TimerState) : Prop where
  time_eq : s.ti.time = s.ticks % 2 ^ 32
  filed : Filed (fun n => place s.ticks n.due) s.ti.lists
    (s.set.filter fun n => decide (s.ticks < n.due))
  kept : ∀ n ∈ s.set, s.ticks < n.due → Kept s.ticks n
  fired_eq : s.fired ++ s.pc.list.map (fun n => (s.ticks, n.event)) = firedBy s.set s.ticks
  dispatching : ∀ shifted list owed, s.pc = .dispatching shifted list owed →
    shifted = true ∧ list ≠ []
  current_eq : s.current = start + s.ticks + s.pc.owed

theorem timerInv_init (current currentPoint : ℕ) :
    TimerInv current (TimerState.init current currentPoint) where
  time_eq := rfl
  filed := filed_empty _
  kept := by
    intro n hn
    cases hn
  fired_eq := rfl
  dispatching := by
    intro shifted list owed h
    cases h
  current_eq := rfl

namespace TimerInv

variable {start : ℕ} {s s' : TimerState}

/-- The near list of a tick that has begun is empty: its timers have been taken out. -/
theorem execute_eq_none (h : TimerInv start s) : s.ti.execute = none := by
  have hnil : s.ti.lists (.near (s.ti.time &&& timeNearMask)) = [] := by
    rw [List.eq_nil_iff_forall_not_mem]
    intro n hn
    obtain ⟨hmem, hplace⟩ := h.filed.mem_iff.mp hn
    have hlt : s.ticks < n.due := by simpa using (List.mem_filter.mp hmem).2
    obtain ⟨hblock, hidx⟩ := place_eq_near_iff.mp hplace
    have hmask : timeNearMask = 2 ^ 8 - 1 := rfl
    rw [h.time_eq, hmask, Nat.and_two_pow_sub_one_eq_mod] at hidx
    omega
  rw [Timer.execute, if_pos hnil]

/-- What follows the shift: the near list of the tick is taken out to be dispatched. -/
theorem afterShift (now : ℕ) {owed : ℕ} (hticks : s.ticks = now + 1)
    (htime : s.ti.time = (now + 1) % 2 ^ 32)
    (hfiled : Filed (fun n => place (now + 1) n.due) s.ti.lists
      (s.set.filter fun n => decide (now < n.due)))
    (hkept : ∀ n ∈ s.set, now < n.due → Kept now n) (hfired : s.fired = firedBy s.set now)
    (hcurrent : s.current = start + s.ticks + owed) : TimerInv start (s.afterShift owed) := by
  -- the near list of the tick has the timers that are due in it
  have hlist : s.ti.lists (.near (s.ti.time &&& timeNearMask)) =
      s.set.filter fun n => decide (n.due = now + 1) := by
    rw [hfiled, List.filter_filter, htime]
    refine List.filter_congr fun n _ => ?_
    by_cases hlt : now < n.due
    · simp only [place_eq_tick_iff hlt, hlt, decide_true, Bool.and_true]
    · have hne : n.due ≠ now + 1 := by omega
      simp [hlt, hne]
  have hkept' : ∀ n ∈ s.set, now + 1 < n.due → Kept (now + 1) n := by
    intro n hn hlt
    obtain ⟨hexpire, -, hdue⟩ := hkept n hn (by omega)
    exact ⟨hexpire, hlt, by omega⟩
  rw [TimerState.afterShift, Timer.execute]
  by_cases hnil : s.ti.lists (.near (s.ti.time &&& timeNearMask)) = []
  · -- nothing is due in the tick
    rw [if_pos hnil]
    rw [hlist, List.filter_eq_nil_iff] at hnil
    have hahead : (s.set.filter fun n => decide (now < n.due)) =
        s.set.filter fun n => decide (now + 1 < n.due) := by
      refine List.filter_congr fun n hn => ?_
      have hne : n.due ≠ now + 1 := by simpa using hnil n hn
      rw [decide_eq_decide]
      omega
    have hdue : dueAt s.set (now + 1) = [] := by
      rw [dueAt, List.filter_eq_nil_iff.mpr hnil, List.map_nil]
    constructor
    · simpa [hticks] using htime
    · simpa [hticks, hahead] using hfiled
    · simpa [hticks] using hkept'
    · simp [TimerPc.list, hticks, firedBy_succ, hdue, hfired]
    · intro shifted list owed' h
      cases h
    · exact hcurrent
  · -- the list is taken out, and the others belong where they were
    rw [if_neg hnil]
    have hahead : (s.set.filter fun n => decide (now < n.due)).filter (fun n => decide
        (place (now + 1) n.due ≠ .near ((now + 1) % 2 ^ 32 &&& timeNearMask))) =
        s.set.filter fun n => decide (now + 1 < n.due) := by
      rw [List.filter_filter]
      refine List.filter_congr fun n _ => ?_
      by_cases hlt : now < n.due
      · simp only [ne_eq, place_eq_tick_iff hlt, hlt, decide_true, Bool.and_true,
          decide_eq_decide]
        omega
      · have hlt' : ¬ now + 1 < n.due := by omega
        simp [hlt, hlt']
    constructor
    · simpa [Timer.linkClear, hticks] using htime
    · have htake := hfiled.take (.near ((now + 1) % 2 ^ 32 &&& timeNearMask))
      rw [hahead] at htake
      simpa [Timer.linkClear, hticks, htime] using htake
    · simpa [hticks] using hkept'
    · simp only [Timer.linkClear, TimerPc.list, hlist, hticks, firedBy_succ, hfired]
      rfl
    · intro shifted list owed' h
      cases h
      exact ⟨rfl, hnil⟩
    · exact hcurrent

/-- A call of `timer_update` does not fail. -/
theorem beforeShift (h : TimerInv start s) (owed : ℕ) (hlist : s.pc.list = [])
    (howed : s.pc.owed = owed + 1) :
    ∃ s', s.beforeShift owed = some s' ∧ TimerInv start s' := by
  obtain ⟨T, hshift, htime, hfiled⟩ := shift_filed h.filed h.time_eq fun n hn => by
    obtain ⟨hmem, hlt⟩ := List.mem_filter.mp hn
    exact h.kept n hmem (by simpa using hlt)
  have hfired := h.fired_eq
  have hcurrent := h.current_eq
  rw [hlist, List.map_nil, List.append_nil] at hfired
  refine ⟨_, by rw [TimerState.beforeShift, h.execute_eq_none, hshift]; rfl, ?_⟩
  refine TimerInv.afterShift s.ticks rfl htime hfiled h.kept hfired ?_
  change s.current = start + (s.ticks + 1) + owed
  omega

theorem timeout (h : TimerInv start s) (handle : ℕ) {time : ℤ} (session : ℕ)
    (hlt : time < 2 ^ 31) : TimerInv start (s.timeout handle time session) := by
  rw [TimerState.timeout]
  split_ifs with hpos
  · exact ⟨h.time_eq, h.filed, h.kept, h.fired_eq, h.dispatching, h.current_eq⟩
  generalize hnode : s.ti.newNode ⟨handle, session⟩ time.toNat s.ticks = node
  have hexpire : node.expire = node.due % 2 ^ 32 := by
    have := h.time_eq
    rw [← hnode, Timer.newNode]
    simp only
    omega
  have hkept : Kept s.ticks node := by
    refine ⟨hexpire, ?_, ?_⟩ <;> rw [← hnode, Timer.newNode] <;> simp only <;> omega
  -- the node is filed by its wrapped expiry, where it belongs by the tick it is due at
  have hslot : slotFor node.expire s.ti.time = place s.ticks node.due := by
    rw [hexpire, h.time_eq]
    exact slotFor_eq_place (le_of_lt hkept.lt_due) hkept.due_lt
  constructor
  · exact h.time_eq
  · have hahead : (s.set ++ [node]).filter (fun n => decide (s.ticks < n.due)) =
        s.set.filter (fun n => decide (s.ticks < n.due)) ++ [node] := by
      rw [List.filter_append, List.filter_singleton]
      simp [hkept.lt_due]
    have hfile := h.filed.file node
    rw [← hahead, file, ← hslot] at hfile
    exact hfile
  · intro n hn hahead
    rcases List.mem_append.mp hn with hn | hn
    · exact h.kept n hn hahead
    · obtain rfl := List.mem_singleton.mp hn
      exact hkept
  · exact h.fired_eq.trans (firedBy_append hkept.lt_due).symm
  · exact h.dispatching
  · exact h.current_eq

theorem updatetime (h : TimerInv start s) {cp : ℕ} (hpc : s.pc = .looping 0) :
    TimerInv start (s.updatetime cp) := by
  have hfired := h.fired_eq
  have hcurrent := h.current_eq
  rw [hpc] at hfired hcurrent
  rw [TimerState.updatetime]
  split_ifs
  · exact ⟨h.time_eq, h.filed, h.kept, h.fired_eq, h.dispatching, h.current_eq⟩
  · refine ⟨h.time_eq, h.filed, h.kept, hfired, fun _ _ _ => by rintro ⟨⟩, ?_⟩
    change s.current + _ = start + s.ticks + _
    rw [hcurrent]
    rfl
  · exact h

/-- A message is pushed, and behind the last one of the list the call of `timer_update` ends. -/
theorem push (h : TimerInv start s) {node : TimerNode} {list : List TimerNode} {owed : ℕ}
    (hpc : s.pc = .dispatching true (node :: list) owed) :
    ∃ s', s.push = some s' ∧ TimerInv start s' := by
  have hfired := h.fired_eq
  have hcurrent := h.current_eq
  rw [hpc] at hfired hcurrent
  rw [TimerState.push, hpc]
  simp only [if_true]
  by_cases hlist : list = []
  · -- behind the last message the lock is taken again, and the near list is empty by now
    subst hlist
    refine ⟨_, rfl, ?_⟩
    have hexecute := h.execute_eq_none
    rw [TimerState.afterShift, hexecute]
    exact ⟨h.time_eq, h.filed, h.kept, by simpa [TimerPc.list] using hfired,
      fun _ _ _ => by rintro ⟨⟩, hcurrent⟩
  · refine ⟨_, if_pos hlist, h.time_eq, h.filed, h.kept, ?_, ?_, hcurrent⟩
    · simpa [TimerPc.list] using hfired
    · rintro _ _ _ ⟨⟩
      exact ⟨rfl, hlist⟩

/-- **Step lemma.** -/
theorem step (h : TimerInv start s) (e : TimerInput) (hs : s.step e = some s') :
    TimerInv start s' := by
  cases e with
  | timeout handle time session =>
    rw [TimerState.step] at hs
    split_ifs at hs with hlt
    obtain rfl := Option.some.inj hs
    exact h.timeout handle session hlt
  | updatetime cp =>
    rw [TimerState.step] at hs
    split_ifs at hs with hpc
    obtain rfl := Option.some.inj hs
    exact h.updatetime hpc
  | update =>
    rw [TimerState.step] at hs
    cases hpc : s.pc with
    | looping owed =>
      rw [hpc] at hs
      cases owed with
      -- no call is owed, and `timer_update` is not called
      | zero => cases hs
      | succ owed =>
        obtain ⟨s₁, hs₁, hinv⟩ := h.beforeShift owed (by rw [hpc]; rfl) (by rw [hpc]; rfl)
        obtain rfl := Option.some.inj (hs₁.symm.trans hs)
        exact hinv
    | dispatching shifted list owed =>
      rw [hpc] at hs
      cases hs
  | push =>
    cases hpc : s.pc with
    | looping owed =>
      rw [TimerState.step, TimerState.push, hpc] at hs
      cases hs
    | dispatching shifted list owed =>
      -- between two pushes the list is not empty, and the shift is done
      obtain ⟨rfl, hne⟩ := h.dispatching _ _ _ hpc
      obtain ⟨node, list, rfl⟩ := List.exists_cons_of_ne_nil hne
      obtain ⟨s₁, hs₁, hinv⟩ := h.push hpc
      obtain rfl := Option.some.inj (hs₁.symm.trans hs)
      exact hinv

end TimerInv

theorem timerInv_of_reachable {current currentPoint : ℕ} {s : TimerState}
    (h : Reachable TimerState.step anyStep (TimerState.init current currentPoint) s) :
    TimerInv current s :=
  h.invariant (timerInv_init current currentPoint) fun _ e _ hinv _ hs => hinv.step e hs

/-! ### What is asked for -/

/-- The messages that are asked for with a delay. -/
def timersOf (es : List TimerInput) : List TimerEvent :=
  es.filterMap fun
    | .timeout handle time session => if time ≤ 0 then none else some ⟨handle, session⟩
    | _ => none

/-- The messages that are asked for without one. -/
def immediateOf (es : List TimerInput) : List TimerEvent :=
  es.filterMap fun
    | .timeout handle time session => if time ≤ 0 then some ⟨handle, session⟩ else none
    | _ => none

/-- Nothing is set, and nothing is pushed by a thread that asks. -/
structure SameAsked (s s' : TimerState) : Prop where
  set : s'.set = s.set
  immediate : s'.immediate = s.immediate

section Asked

variable {s s' : TimerState}

theorem SameAsked.afterShift (owed : ℕ) : SameAsked s (s.afterShift owed) := by
  rw [TimerState.afterShift]
  split <;> exact ⟨rfl, rfl⟩

theorem SameAsked.beforeShift {owed : ℕ} (h : s.beforeShift owed = some s') : SameAsked s s' := by
  rw [TimerState.beforeShift] at h
  split at h
  · obtain rfl := Option.some.inj h
    exact ⟨rfl, rfl⟩
  · obtain ⟨ti, -, rfl⟩ := Option.map_eq_some_iff.mp h
    have hafter := @SameAsked.afterShift { s with ti, ticks := s.ticks + 1 } owed
    exact ⟨hafter.set, hafter.immediate⟩

theorem SameAsked.push (h : s.push = some s') : SameAsked s s' := by
  rw [TimerState.push] at h
  split at h
  · split_ifs at h
    · obtain rfl := Option.some.inj h
      exact ⟨rfl, rfl⟩
    · obtain rfl := Option.some.inj h
      exact ⟨SameAsked.afterShift _ |>.set, SameAsked.afterShift _ |>.immediate⟩
    · exact ⟨(SameAsked.beforeShift h).set, (SameAsked.beforeShift h).immediate⟩
  · cases h

theorem SameAsked.updatetime (cp : ℕ) : SameAsked s (s.updatetime cp) := by
  rw [TimerState.updatetime]
  split_ifs <;> exact ⟨rfl, rfl⟩

/-- What a step asks for. -/
theorem asked_step {e : TimerInput} (h : s.step e = some s') :
    s'.set.map TimerNode.event = s.set.map TimerNode.event ++ timersOf [e] ∧
      s'.immediate = s.immediate ++ immediateOf [e] := by
  have hsame : SameAsked s s' → timersOf [e] = [] → immediateOf [e] = [] →
      s'.set.map TimerNode.event = s.set.map TimerNode.event ++ timersOf [e] ∧
        s'.immediate = s.immediate ++ immediateOf [e] := by
    intro hsame htimers himmediate
    rw [htimers, himmediate, List.append_nil, List.append_nil, hsame.set, hsame.immediate]
    exact ⟨rfl, rfl⟩
  cases e with
  | timeout handle time session =>
    rw [TimerState.step] at h
    split_ifs at h
    obtain rfl := Option.some.inj h
    simp only [TimerState.timeout, timersOf, immediateOf, List.filterMap_cons, List.filterMap_nil]
    split_ifs
    · exact ⟨(List.append_nil _).symm, rfl⟩
    · exact ⟨List.map_append, (List.append_nil _).symm⟩
  | updatetime cp =>
    rw [TimerState.step] at h
    split_ifs at h
    obtain rfl := Option.some.inj h
    exact hsame (.updatetime cp) rfl rfl
  | update =>
    rw [TimerState.step] at h
    split at h
    · exact hsame (.beforeShift h) rfl rfl
    · cases h
  | push => exact hsame (.push h) rfl rfl

/-- What a run asks for. -/
theorem asked_run {es : List TimerInput} (h : run TimerState.step s es = some s') :
    s'.set.map TimerNode.event = s.set.map TimerNode.event ++ timersOf es ∧
      s'.immediate = s.immediate ++ immediateOf es := by
  induction es generalizing s with
  | nil =>
    obtain rfl := Option.some.inj h
    exact ⟨(List.append_nil _).symm, (List.append_nil _).symm⟩
  | cons e es ih =>
    rw [run_cons] at h
    obtain ⟨s₁, hstep, hrun⟩ := Option.bind_eq_some_iff.mp h
    obtain ⟨hset, himmediate⟩ := asked_step hstep
    obtain ⟨hset', himmediate'⟩ := ih hrun
    rw [hset', hset, himmediate', himmediate, List.append_assoc, List.append_assoc, timersOf,
      timersOf, immediateOf, immediateOf, ← List.filterMap_append, ← List.filterMap_append]
    exact ⟨rfl, rfl⟩

end Asked

/-- **Timers fire in their tick.** In every run, whichever threads set timers and whenever they do,
also while the timer thread is dispatching, the messages that the timer thread has pushed, with
those that it is pushing, are the ones that are due by now: tick by tick, in the order in which the
timers were set, each once. A timer is set for each message that is asked for with a delay, and one
without a delay was pushed at once. The clock is ahead of the ticks by the calls of `timer_update`
that are owed, and the timer thread can go on until none is. -/
theorem timers_fire_in_their_tick {current currentPoint : ℕ} {es : List TimerInput} {s : TimerState}
    (h : run TimerState.step (TimerState.init current currentPoint) es = some s) :
    s.fired ++ s.pc.list.map (fun n => (s.ticks, n.event)) = firedBy s.set s.ticks ∧
      s.set.map TimerNode.event = timersOf es ∧ s.immediate = immediateOf es ∧
      s.current = current + s.ticks + s.pc.owed ∧
      (s.pc ≠ .looping 0 → ∃ s', s.step .update = some s' ∨ s.step .push = some s') := by
  have hinv := timerInv_of_reachable (.of_run h)
  obtain ⟨hset, himmediate⟩ := asked_run h
  refine ⟨hinv.fired_eq, hset, himmediate, hinv.current_eq, fun hpc => ?_⟩
  cases hcase : s.pc with
  | looping owed =>
    cases owed with
    | zero => exact absurd hcase hpc
    | succ owed =>
      obtain ⟨s', hs', -⟩ :=
        hinv.beforeShift owed (by rw [hcase]; rfl) (by rw [hcase]; rfl)
      exact ⟨s', .inl (by rw [TimerState.step, hcase]; exact hs')⟩
  | dispatching shifted list owed =>
    obtain ⟨rfl, hne⟩ := hinv.dispatching _ _ _ hcase
    obtain ⟨node, list, rfl⟩ := List.exists_cons_of_ne_nil hne
    obtain ⟨s', hs', -⟩ := hinv.push hcase
    exact ⟨s', .inr hs'⟩

/-- A timer of two ticks and one of one tick are set in this order, and a third one while the timer
thread is between a shift and a push; one message is asked for without a delay. -/
def threeTimers : List TimerInput :=
  [.timeout 5 2 1, .timeout 5 1 2, .updatetime 101, .update, .timeout 7 1 3, .timeout 7 0 4, .push,
    .updatetime 102, .update, .push, .push]

theorem timers_fire_in_their_tick_three :
    ∃ s, run TimerState.step (TimerState.init 50 100) threeTimers = some s ∧
      s.fired = [(1, ⟨5, 2⟩), (2, ⟨5, 1⟩), (2, ⟨7, 3⟩)] ∧
      s.fired ++ s.pc.list.map (fun n => (s.ticks, n.event)) = firedBy s.set s.ticks ∧
      s.set.map TimerNode.event = [⟨5, 1⟩, ⟨5, 2⟩, ⟨7, 3⟩] ∧ s.immediate = [⟨7, 4⟩] ∧
      s.current = 50 + s.ticks + s.pc.owed ∧
      (s.pc ≠ .looping 0 → ∃ s', s.step .update = some s' ∨ s.step .push = some s') := by
  have hrun : ∃ s, run TimerState.step (TimerState.init 50 100) threeTimers = some s ∧
      s.fired = [(1, ⟨5, 2⟩), (2, ⟨5, 1⟩), (2, ⟨7, 3⟩)] := ⟨_, rfl, by decide⟩
  obtain ⟨s, hs, hfired⟩ := hrun
  exact ⟨s, hs, hfired, timers_fire_in_their_tick hs⟩

end TestCluster.Skynet
