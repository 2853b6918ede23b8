import TestCluster.Semantics.Filing
import TestCluster.Semantics.Machine
import Mathlib.Tactic.IntervalCases

/-!
# The timing wheel

`skynet_timer.c`: timers that were set with `skynet_timeout` are kept in lists, 256 near ones for
the ticks of the present block of 256 and four levels of 64 further ones for later blocks. The
timer thread calls `timer_update` once for every centisecond: it dispatches the near list of the
tick, and at the start of a block it files the timers of one further list again. The lock is given
up while a list is dispatched, so that other threads can set timers in between.

Here are the lists, and where a timer is filed; the runs are in `TestCluster.Skynet.Timeouts`.

## Main definitions

* `Timer` — the lists and the tick, `add_node`, `timer_shift`
* `place` — where a timer is filed, told without masks

## Main results

* `slotFor_eq_place` — `add_node` files a timer where it belongs
* `shift_filed` — `timer_shift` keeps all timers where they belong
-/

namespace TestCluster.Skynet

open Semantics

/-- `TIME_NEAR_SHIFT`. -/
def timeNearShift : ℕ := 8

/-- `TIME_NEAR`. -/
def timeNear : ℕ := 1 <<< timeNearShift

/-- `TIME_LEVEL_SHIFT`. -/
def timeLevelShift : ℕ := 6

/-- `TIME_LEVEL`. -/
def timeLevel : ℕ := 1 <<< timeLevelShift

/-- `TIME_NEAR_MASK`. -/
def timeNearMask : ℕ := timeNear - 1

/-- `TIME_LEVEL_MASK`. -/
def timeLevelMask : ℕ := timeLevel - 1

/-- `struct timer_event`. -/
structure TimerEvent where
  handle : ℕ
  session : ℕ
  deriving DecidableEq, Repr

/-- `struct timer_node` and the event behind it. No function reads `due`, the tick at which the
timer is due if ticks are counted without end; `expire` is a `uint32_t`. -/
structure TimerNode where
  expire : ℕ
  event : TimerEvent
  due : ℕ
  deriving DecidableEq, Repr

/-- The lists of `struct timer`. -/
inductive Slot
  | near (idx : ℕ)
  | t (level idx : ℕ)
  deriving DecidableEq, Repr

/-- `struct timer`: a list of nodes for each slot, and the tick, a `uint32_t`. -/
structure Timer where
  lists : Slot → List TimerNode
  time : ℕ

/-- `link`: a node is put at the end of a list. -/
def Timer.link (T : Timer) (slot : Slot) (node : TimerNode) : Timer :=
  { T with lists := Function.update T.lists slot (T.lists slot ++ [node]) }

/-- `link_clear`: the nodes of a list, which is empty then. -/
def Timer.linkClear (T : Timer) (slot : Slot) : List TimerNode × Timer :=
  (T.lists slot, { T with lists := Function.update T.lists slot [] })

/-- The loop of `add_node`: the first level whose block has both times in it. -/
def findLevel (time currentTime : ℕ) : (rounds i mask : ℕ) → ℕ
  | 0, i, _ => i
  | rounds + 1, i, mask =>
    if time ||| (mask - 1) = currentTime ||| (mask - 1) then i
    else findLevel time currentTime rounds (i + 1) (mask <<< timeLevelShift)

/-- The list that `add_node` chooses. -/
def slotFor (time currentTime : ℕ) : Slot :=
  if time ||| timeNearMask = currentTime ||| timeNearMask then
    .near (time &&& timeNearMask)
  else
    let i := findLevel time currentTime 3 0 (timeNear <<< timeLevelShift)
    .t i ((time >>> (timeNearShift + i * timeLevelShift)) &&& timeLevelMask)

/-- `add_node`. -/
def Timer.addNode (T : Timer) (node : TimerNode) : Timer :=
  T.link (slotFor node.expire T.time) node

/-- The node of `timer_add`; `now` is the tick, counted without end. -/
def Timer.newNode (T : Timer) (event : TimerEvent) (time now : ℕ) : TimerNode :=
  ⟨(time + T.time) % 2 ^ 32, event, time + now⟩

/-- `move_list`: the nodes of a list are filed again. -/
def Timer.moveList (T : Timer) (level idx : ℕ) : Timer :=
  let (current, T) := T.linkClear (.t level idx)
  current.foldl Timer.addNode T

/-- The loop of `timer_shift`. The levels are 0 to 3, and so are the rounds: `none` if the loop
leaves them. -/
def Timer.shiftLoop (T : Timer) (ct : ℕ) : (rounds mask time i : ℕ) → Option Timer
  | 0, _, _, _ => none
  | rounds + 1, mask, time, i =>
    if ct &&& (mask - 1) = 0 then
      let idx := time &&& timeLevelMask
      if idx ≠ 0 then some (T.moveList i idx)
      else T.shiftLoop ct rounds (mask <<< timeLevelShift) (time >>> timeLevelShift) (i + 1)
    else some T

/-- `timer_shift`. -/
def Timer.shift (T : Timer) : Option Timer :=
  let ct := (T.time + 1) % 2 ^ 32
  let T := { T with time := ct }
  if ct = 0 then some (T.moveList 3 0)
  else T.shiftLoop ct 4 timeNear (ct >>> timeNearShift) 0

/-- The test of the loop of `timer_execute`: the near list of the tick, taken out, if there are
nodes in it. -/
def Timer.execute (T : Timer) : Option (List TimerNode × Timer) :=
  let idx := T.time &&& timeNearMask
  if T.lists (.near idx) = [] then none else some (T.linkClear (.near idx))

/-! ### Where a timer belongs -/

/-- The list of a timer that is due at the tick `due`, at the tick `now`. Ticks are counted
without end here. -/
def place (now due : ℕ) : Slot :=
  if due / 2 ^ 8 = now / 2 ^ 8 then .near (due % 2 ^ 8)
  else if due / 2 ^ 14 = now / 2 ^ 14 then .t 0 (due / 2 ^ 8 % 2 ^ 6)
  else if due / 2 ^ 20 = now / 2 ^ 20 then .t 1 (due / 2 ^ 14 % 2 ^ 6)
  else if due / 2 ^ 26 = now / 2 ^ 26 then .t 2 (due / 2 ^ 20 % 2 ^ 6)
  else .t 3 (due / 2 ^ 26 % 2 ^ 6)

theorem or_mask_eq_iff (k a b : ℕ) :
    a ||| (2 ^ k - 1) = b ||| (2 ^ k - 1) ↔ a / 2 ^ k = b / 2 ^ k := by
  simp only [← Nat.shiftRight_eq_div_pow]
  constructor
  · intro h
    apply Nat.eq_of_testBit_eq
    intro i
    have hbit := congrArg (fun n => n.testBit (k + i)) h
    simpa [Nat.testBit_or, Nat.testBit_two_pow_sub_one] using hbit
  · intro h
    apply Nat.eq_of_testBit_eq
    intro i
    rw [Nat.testBit_or, Nat.testBit_or, Nat.testBit_two_pow_sub_one]
    by_cases hi : i < k
    · simp [hi]
    · have hbit := congrArg (fun n => n.testBit (i - k)) h
      simp only [Nat.testBit_shiftRight] at hbit
      rw [Nat.add_sub_cancel' (not_lt.mp hi)] at hbit
      simp [hi, hbit]

/-- The list that `add_node` chooses, with divisions for masks. -/
theorem slotFor_eq (time currentTime : ℕ) : slotFor time currentTime =
    if time / 2 ^ 8 = currentTime / 2 ^ 8 then .near (time % 2 ^ 8)
    else if time / 2 ^ 14 = currentTime / 2 ^ 14 then .t 0 (time / 2 ^ 8 % 2 ^ 6)
    else if time / 2 ^ 20 = currentTime / 2 ^ 20 then .t 1 (time / 2 ^ 14 % 2 ^ 6)
    else if time / 2 ^ 26 = currentTime / 2 ^ 26 then .t 2 (time / 2 ^ 20 % 2 ^ 6)
    else .t 3 (time / 2 ^ 26 % 2 ^ 6) := by
  have hnear := or_mask_eq_iff 8 time currentTime
  have h0 := or_mask_eq_iff 14 time currentTime
  have h1 := or_mask_eq_iff 20 time currentTime
  have h2 := or_mask_eq_iff 26 time currentTime
  have hnearMask : timeNearMask = 2 ^ 8 - 1 := rfl
  have hlevelMask : timeLevelMask = 2 ^ 6 - 1 := rfl
  have hmask : timeNear <<< timeLevelShift = 2 ^ 14 := rfl
  have hmask' : 2 ^ 14 <<< timeLevelShift = 2 ^ 20 := rfl
  have hmask'' : 2 ^ 20 <<< timeLevelShift = 2 ^ 26 := rfl
  rw [slotFor, hnearMask, hlevelMask, hmask]
  simp only [findLevel, hmask', hmask'', hnear, h0, h1, h2, Nat.and_two_pow_sub_one_eq_mod,
    Nat.shiftRight_eq_div_pow]
  split_ifs <;> rfl

section Place

variable {now due : ℕ}

/-- `add_node` files a timer where it belongs: less than `2 ^ 31` ticks ahead the wrapped ticks
tell the same as the unwrapped ones. -/
theorem slotFor_eq_place (h : now ≤ due) (hlt : due < now + 2 ^ 31) :
    slotFor (due % 2 ^ 32) (now % 2 ^ 32) = place now due := by
  have hnear : due % 2 ^ 32 / 2 ^ 8 = now % 2 ^ 32 / 2 ^ 8 ↔ due / 2 ^ 8 = now / 2 ^ 8 := by omega
  have h0 : due % 2 ^ 32 / 2 ^ 14 = now % 2 ^ 32 / 2 ^ 14 ↔ due / 2 ^ 14 = now / 2 ^ 14 := by omega
  have h1 : due % 2 ^ 32 / 2 ^ 20 = now % 2 ^ 32 / 2 ^ 20 ↔ due / 2 ^ 20 = now / 2 ^ 20 := by omega
  have h2 : due % 2 ^ 32 / 2 ^ 26 = now % 2 ^ 32 / 2 ^ 26 ↔ due / 2 ^ 26 = now / 2 ^ 26 := by omega
  have e : due % 2 ^ 32 % 2 ^ 8 = due % 2 ^ 8 := by omega
  have e0 : due % 2 ^ 32 / 2 ^ 8 % 2 ^ 6 = due / 2 ^ 8 % 2 ^ 6 := by omega
  have e1 : due % 2 ^ 32 / 2 ^ 14 % 2 ^ 6 = due / 2 ^ 14 % 2 ^ 6 := by omega
  have e2 : due % 2 ^ 32 / 2 ^ 20 % 2 ^ 6 = due / 2 ^ 20 % 2 ^ 6 := by omega
  have e3 : due % 2 ^ 32 / 2 ^ 26 % 2 ^ 6 = due / 2 ^ 26 % 2 ^ 6 := by omega
  rw [slotFor_eq, place]
  simp only [hnear, h0, h1, h2, e, e0, e1, e2, e3]

theorem place_eq_near_iff {idx : ℕ} :
    place now due = .near idx ↔ due / 2 ^ 8 = now / 2 ^ 8 ∧ due % 2 ^ 8 = idx := by
  rw [place]
  split_ifs <;> simp <;> omega

/-- The timers of a list of a level are due in the block of the level above, and in a later one
of its own. -/
theorem place_eq_t_iff {level idx : ℕ} (h : level ≤ 3) :
    place now due = .t level idx ↔
      due / 2 ^ (8 + 6 * level) ≠ now / 2 ^ (8 + 6 * level) ∧
      (level < 3 → due / 2 ^ (14 + 6 * level) = now / 2 ^ (14 + 6 * level)) ∧
      due / 2 ^ (8 + 6 * level) % 2 ^ 6 = idx := by
  rw [place]
  interval_cases level <;> split_ifs <;> simp <;> omega

theorem level_le_of_place {level idx : ℕ} (h : place now due = .t level idx) :
    level ≤ 3 := by
  rw [place] at h
  split_ifs at h <;> cases h <;> decide

end Place

/-! ### The list that is filed again -/

/-- The list that `timer_shift` files again when the tick becomes `now`. -/
def cascade (now : ℕ) : Option (ℕ × ℕ) :=
  if now % 2 ^ 8 ≠ 0 then none
  else if now / 2 ^ 8 % 2 ^ 6 ≠ 0 then some (0, now / 2 ^ 8 % 2 ^ 6)
  else if now / 2 ^ 14 % 2 ^ 6 ≠ 0 then some (1, now / 2 ^ 14 % 2 ^ 6)
  else if now / 2 ^ 20 % 2 ^ 6 ≠ 0 then some (2, now / 2 ^ 20 % 2 ^ 6)
  else some (3, now / 2 ^ 26 % 2 ^ 6)

/-- The list that is filed again is that of a block that begins. -/
theorem cascade_eq_some {now level idx : ℕ} (h : cascade now = some (level, idx)) :
    level ≤ 3 ∧ now % 2 ^ (8 + 6 * level) = 0 ∧ now / 2 ^ (8 + 6 * level) % 2 ^ 6 = idx ∧
      (level < 3 → idx ≠ 0) := by
  rw [cascade] at h
  split_ifs at h with h8 h0 h1 h2 <;> cases h
  · exact ⟨by decide, by simpa using h8, rfl, fun _ => h0⟩
  · exact ⟨by decide, by simp only [Nat.reduceMul, Nat.reduceAdd]; omega, rfl, fun _ => h1⟩
  · exact ⟨by decide, by simp only [Nat.reduceMul, Nat.reduceAdd]; omega, rfl, fun _ => h2⟩
  · exact ⟨by decide, by simp only [Nat.reduceMul, Nat.reduceAdd]; omega, rfl,
      fun h => absurd h (by decide)⟩

/-- Where a block begins, its list is filed again, or one of a level above. -/
theorem exists_cascade {now level : ℕ} (hlevel : level ≤ 3) (h : now % 2 ^ (8 + 6 * level) = 0) :
    ∃ level' idx, cascade now = some (level', idx) ∧ level ≤ level' := by
  rw [cascade]
  have h8 : ¬ now % 2 ^ 8 ≠ 0 := by
    interval_cases level <;> omega
  rw [if_neg h8]
  split_ifs with h0 h1 h2
  · exact ⟨_, _, rfl, by interval_cases level <;> omega⟩
  · exact ⟨_, _, rfl, by interval_cases level <;> omega⟩
  · exact ⟨_, _, rfl, by interval_cases level <;> omega⟩
  · exact ⟨_, _, rfl, hlevel⟩

/-- Only the timers of the list that is filed again belong somewhere else at the next tick. -/
theorem place_shift {now due : ℕ} (h : now < due)
    (hother : ∀ level idx, cascade (now + 1) = some (level, idx) → place now due ≠ .t level idx) :
    place (now + 1) due = place now due := by
  cases hp : place now due with
  | near idx =>
    -- its block does not end before it is due
    obtain ⟨hblock, hidx⟩ := place_eq_near_iff.mp hp
    exact place_eq_near_iff.mpr ⟨by omega, hidx⟩
  | t level idx =>
    have hlevel := level_le_of_place hp
    obtain ⟨hlow, hhigh, hidx⟩ := (place_eq_t_iff hlevel).mp hp
    refine (place_eq_t_iff hlevel).mpr ⟨fun hbegun => ?_, fun hlt => ?_, hidx⟩
    · -- the block of the timer would begin, so that its list would be filed again
      have hzero : (now + 1) % 2 ^ (8 + 6 * level) = 0 := by
        interval_cases level <;> simp only [Nat.reduceMul, Nat.reduceAdd] at * <;> omega
      obtain ⟨level', idx', hcascade, hle⟩ := exists_cascade hlevel hzero
      obtain ⟨hlevel', hzero', hidx', -⟩ := cascade_eq_some hcascade
      rcases hle.eq_or_lt with rfl | hlt
      · have hsame : idx = idx' := by rw [← hidx, ← hidx', hbegun]
        exact hother level idx' hcascade (hsame ▸ hp)
      · -- a block of a level above begins, too, but the timer is due in the old one
        have hold := hhigh (by omega)
        have hzero'' : (now + 1) % 2 ^ (14 + 6 * level) = 0 := by
          have hdvd : 2 ^ (14 + 6 * level) ∣ 2 ^ (8 + 6 * level') := pow_dvd_pow 2 (by omega)
          exact Nat.mod_eq_zero_of_dvd (hdvd.trans (Nat.dvd_of_mod_eq_zero hzero'))
        interval_cases level <;> simp only [Nat.reduceMul, Nat.reduceAdd] at * <;> omega
    · have hold := hhigh hlt
      interval_cases level <;> simp only [Nat.reduceMul, Nat.reduceAdd] at * <;> omega

/-- The timers of the list that is filed again go to lists that are empty: a timer that is in one
of these would have been due before. -/
theorem place_moved {now due due' level idx : ℕ} (h : now < due) (hlt : due < now + 2 ^ 31)
    (h' : now < due') (hcascade : cascade (now + 1) = some (level, idx))
    (hp : place now due = .t level idx) : place now due' ≠ place (now + 1) due := by
  obtain ⟨hlevel, hzero, hidx, hpos⟩ := cascade_eq_some hcascade
  obtain ⟨hlow, hhigh, hidx'⟩ := (place_eq_t_iff hlevel).mp hp
  -- the timer is due in the block that begins
  have hblock : due / 2 ^ (8 + 6 * level) = (now + 1) / 2 ^ (8 + 6 * level) := by
    interval_cases level <;> simp only [Nat.reduceMul, Nat.reduceAdd] at * <;> omega
  intro heq
  cases hp' : place (now + 1) due with
  | near idx' =>
    rw [hp'] at heq
    obtain ⟨hsame, -⟩ := place_eq_near_iff.mp heq
    interval_cases level <;> simp only [Nat.reduceMul, Nat.reduceAdd] at * <;> omega
  | t level' idx' =>
    have hlevel' := level_le_of_place hp'
    obtain ⟨hlow', -, -⟩ := (place_eq_t_iff hlevel').mp hp'
    -- it is filed on a level below, in whose lists all timers are due before the block begins
    have hbelow : level' < level := by
      by_contra hge
      have hdvd : 2 ^ (8 + 6 * level) ∣ 2 ^ (8 + 6 * level') := pow_dvd_pow 2 (by omega)
      obtain ⟨c, hc⟩ := hdvd
      rw [hc, ← Nat.div_div_eq_div_mul, ← Nat.div_div_eq_div_mul, hblock] at hlow'
      exact hlow' rfl
    rw [hp'] at heq
    obtain ⟨-, hhigh', -⟩ := (place_eq_t_iff hlevel').mp heq
    have hold := hhigh' (by omega)
    have hzero' : (now + 1) % 2 ^ (14 + 6 * level') = 0 := by
      have hdvd : 2 ^ (14 + 6 * level') ∣ 2 ^ (8 + 6 * level) := pow_dvd_pow 2 (by omega)
      exact Nat.mod_eq_zero_of_dvd (hdvd.trans (Nat.dvd_of_mod_eq_zero hzero))
    interval_cases level' <;> simp only [Nat.reduceMul, Nat.reduceAdd] at * <;> omega

/-! ### The shift -/

/-- One round of the loop of `timer_shift`, with divisions for masks. -/
theorem shiftLoop_succ (T : Timer) (ct rounds k i : ℕ) :
    T.shiftLoop ct (rounds + 1) (2 ^ k) (ct / 2 ^ k) i =
      if ct % 2 ^ k = 0 then
        if ct / 2 ^ k % 2 ^ 6 ≠ 0 then some (T.moveList i (ct / 2 ^ k % 2 ^ 6))
        else T.shiftLoop ct rounds (2 ^ (k + 6)) (ct / 2 ^ (k + 6)) (i + 1)
      else some T := by
  have hmask : 2 ^ k <<< timeLevelShift = 2 ^ (k + 6) := by
    rw [Nat.shiftLeft_eq, ← pow_add, timeLevelShift]
  have htime : (ct / 2 ^ k) >>> timeLevelShift = ct / 2 ^ (k + 6) := by
    rw [Nat.shiftRight_eq_div_pow, Nat.div_div_eq_div_mul, ← pow_add, timeLevelShift]
  have hlevelMask : timeLevelMask = 2 ^ 6 - 1 := rfl
  rw [Timer.shiftLoop, hmask, htime, hlevelMask]
  simp only [Nat.and_two_pow_sub_one_eq_mod]

/-- The loop of `timer_shift` ends in its four rounds, at the list that is filed again. -/
theorem shift_eq {T : Timer} {now : ℕ} (h : T.time = now % 2 ^ 32) :
    T.shift = some (match cascade (now + 1) with
      | none => { T with time := (now + 1) % 2 ^ 32 }
      | some (level, idx) => ({ T with time := (now + 1) % 2 ^ 32 } : Timer).moveList level idx) := by
  have hct : (T.time + 1) % 2 ^ 32 = (now + 1) % 2 ^ 32 := by omega
  have hmask : timeNear = 2 ^ 8 := rfl
  have htime : ((now + 1) % 2 ^ 32) >>> timeNearShift = (now + 1) % 2 ^ 32 / 2 ^ 8 := by
    rw [Nat.shiftRight_eq_div_pow, timeNearShift]
  rw [Timer.shift, hct, hmask, htime]
  simp only [shiftLoop_succ, cascade]
  generalize now + 1 = m
  generalize ({ T with time := m % 2 ^ 32 } : Timer) = T'
  -- the wrap does not touch the bits that the levels look at
  have e : m % 2 ^ 32 % 2 ^ 8 = m % 2 ^ 8 := by omega
  have e0 : m % 2 ^ 32 / 2 ^ 8 % 2 ^ 6 = m / 2 ^ 8 % 2 ^ 6 := by omega
  have e1 : m % 2 ^ 32 / 2 ^ 14 % 2 ^ 6 = m / 2 ^ 14 % 2 ^ 6 := by omega
  have e2 : m % 2 ^ 32 / 2 ^ 20 % 2 ^ 6 = m / 2 ^ 20 % 2 ^ 6 := by omega
  have e3 : m % 2 ^ 32 / 2 ^ 26 % 2 ^ 6 = m / 2 ^ 26 % 2 ^ 6 := by omega
  simp only [e, e0, e1, e2, e3, Nat.reduceAdd]
  by_cases hzero : m % 2 ^ 32 = 0
  · -- the first tick of a period of `2 ^ 32`
    have z : ¬ m % 2 ^ 8 ≠ 0 := by omega
    have z0 : ¬ m / 2 ^ 8 % 2 ^ 6 ≠ 0 := by omega
    have z1 : ¬ m / 2 ^ 14 % 2 ^ 6 ≠ 0 := by omega
    have z2 : ¬ m / 2 ^ 20 % 2 ^ 6 ≠ 0 := by omega
    have z3 : m / 2 ^ 26 % 2 ^ 6 = 0 := by omega
    rw [if_pos hzero, if_neg z, if_neg z0, if_neg z1, if_neg z2, z3]
  rw [if_neg hzero]
  -- the rounds go up as long as the blocks of their levels begin
  by_cases hnear : m % 2 ^ 8 = 0
  · have hnear' : ¬ m % 2 ^ 8 ≠ 0 := not_not.mpr hnear
    rw [if_pos hnear, if_neg hnear']
    by_cases h0 : m / 2 ^ 8 % 2 ^ 6 = 0
    · have hlow : m % 2 ^ 32 % 2 ^ 14 = 0 := by omega
      rw [if_neg (not_not.mpr h0), if_neg (not_not.mpr h0), if_pos hlow]
      by_cases h1 : m / 2 ^ 14 % 2 ^ 6 = 0
      · have hlow : m % 2 ^ 32 % 2 ^ 20 = 0 := by omega
        rw [if_neg (not_not.mpr h1), if_neg (not_not.mpr h1), if_pos hlow]
        by_cases h2 : m / 2 ^ 20 % 2 ^ 6 = 0
        · have hlow : m % 2 ^ 32 % 2 ^ 26 = 0 := by omega
          have h3 : m / 2 ^ 26 % 2 ^ 6 ≠ 0 := by omega
          rw [if_neg (not_not.mpr h2), if_neg (not_not.mpr h2), if_pos hlow, if_pos h3]
        · rw [if_pos h2, if_pos h2]
      · rw [if_pos h1, if_pos h1]
    · rw [if_pos h0, if_pos h0]
  · rw [if_neg hnear, if_pos hnear]

/-- `move_list`: a list is taken out, and its nodes are filed again. -/
theorem moveList_eq (T : Timer) (level idx : ℕ) :
    T.moveList level idx =
      ⟨fileAll (fun n => slotFor n.expire T.time) (Function.update T.lists (.t level idx) [])
        (T.lists (.t level idx)), T.time⟩ := by
  have hfold (as : List TimerNode) (T : Timer) : as.foldl Timer.addNode T =
      ⟨fileAll (fun n => slotFor n.expire T.time) T.lists as, T.time⟩ := by
    induction as generalizing T with
    | nil => rfl
    | cons a as ih =>
      rw [List.foldl_cons, ih]
      rfl
  rw [Timer.moveList, Timer.linkClear]
  exact hfold _ _

/-- The timers that are kept in the lists at the tick `now`: less than `2 ^ 31` ticks ahead, and
with the wrapped tick in their node. -/
structure Kept (now : ℕ) (node : TimerNode) : Prop where
  expire_eq : node.expire = node.due % 2 ^ 32
  lt_due : now < node.due
  due_lt : node.due < now + 2 ^ 31

/-- **The shift.** `timer_shift` does not fail, and leaves every timer where it belongs at the next
tick. -/
theorem shift_filed {T : Timer} {now : ℕ} {items : List TimerNode}
    (h : Filed (fun n => place now n.due) T.lists items) (htime : T.time = now % 2 ^ 32)
    (hkept : ∀ n ∈ items, Kept now n) :
    ∃ T', T.shift = some T' ∧ T'.time = (now + 1) % 2 ^ 32 ∧
      Filed (fun n => place (now + 1) n.due) T'.lists items := by
  rw [shift_eq htime]
  cases hcascade : cascade (now + 1) with
  | none =>
    refine ⟨_, rfl, rfl, h.congr fun n hn => place_shift (hkept n hn).lt_due ?_⟩
    intro level idx hsome
    cases hcascade.symm.trans hsome
  | some block =>
    obtain ⟨level, idx⟩ := block
    refine ⟨_, congrArg some (moveList_eq _ level idx), rfl, ?_⟩
    -- the nodes are filed by their wrapped ticks, which tell the same
    have hslot : ∀ n ∈ T.lists (.t level idx),
        slotFor n.expire ((now + 1) % 2 ^ 32) = place (now + 1) n.due := by
      intro n hn
      obtain ⟨hexpire, hlt, hdue⟩ := hkept n (h.mem_iff.mp hn).1
      rw [hexpire]
      exact slotFor_eq_place hlt (by omega)
    have hrefile := h.refile (fun n => place (now + 1) n.due) (.t level idx)
      (fun n hn hne => place_shift (hkept n hn).lt_due fun level' idx' hsome => by
        cases hcascade.symm.trans hsome
        exact hne)
      (fun n hn hp => .inr ?_)
    · exact (congrArg (fun lists => Filed _ lists items) (fileAll_congr _ hslot)).mpr hrefile
    · -- a timer in the list it goes to would be due before
      rw [List.eq_nil_iff_forall_not_mem]
      intro n' hn'
      obtain ⟨hmem, hp'⟩ := h.mem_iff.mp hn'
      exact place_moved (hkept n hn).lt_due (hkept n hn).due_lt (hkept n' hmem).lt_due hcascade hp
        hp'

end TestCluster.Skynet
