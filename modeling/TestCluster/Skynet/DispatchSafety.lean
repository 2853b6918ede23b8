import TestCluster.Skynet.DispatchSteps

/-!
# Safety of the dispatcher

Whatever the threads do and in whatever order, no assertion is violated and no queue is used after
it was freed; a service is used too early or too late in two circumstances only, which are exactly
when an action fails. A service is called by one thread at a time, with every message that was
pushed, once and in order, unless the message is dropped after the service has ended; and nothing is
left over when the threads come to rest.

## Main results

* `DispatchInv.step` — every step keeps the invariant
* `dispatch_fails_iff`, `messages_taken_in_order`, `nothing_left_at_rest`
-/

namespace TestCluster.Skynet

open Semantics

namespace DispatchInv

variable {p p' : Pool Shared Worker} {e : DispatchEvent}

/-- **Step lemma.** Every step keeps the invariant. -/
theorem step (h : DispatchInv p) (hok : unrecurring p e) (hstep : dispatchStep p e = some p') :
    DispatchInv p' := by
  cases e with
  | worker weight =>
    obtain rfl := Option.some.inj hstep
    exact h.spawn rfl rfl rfl rfl trivial
  | send handle msg =>
    obtain rfl := Option.some.inj hstep
    exact h.spawn rfl rfl rfl rfl trivial
  | launch handle =>
    obtain rfl := Option.some.inj hstep
    exact h.spawn rfl rfl rfl rfl trivial
  | retire handle =>
    obtain rfl := Option.some.inj hstep
    exact h.spawn rfl rfl rfl rfl (.inl rfl)
  | run i ok =>
    rw [dispatchStep, Pool.advance] at hstep
    cases ht : p.threads[i]? with
    | none =>
      rw [ht] at hstep
      obtain rfl := Option.some.inj hstep
      exact h
    | some t =>
      simp only [ht, Worker.act] at hstep
      by_cases hunlucky : t.pc.Unlucky p
      · rw [h.fails ok hunlucky] at hstep
        cases hstep
      · obtain ⟨r, hr, hinv⟩ := h.goes ht ok (by simpa [unrecurring, ht] using hok) hunlucky
        rw [hr] at hstep
        obtain rfl := Option.some.inj hstep
        exact hinv

/-- The steps that fail are the unlucky actions. -/
theorem step_eq_none_iff (h : DispatchInv p) :
    dispatchStep p e = none ↔
      ∃ i ok t, e = .run i ok ∧ p.threads[i]? = some t ∧ t.pc.Unlucky p := by
  constructor
  · intro hnone
    cases e with
    | run i ok =>
      rw [dispatchStep, Pool.advance] at hnone
      cases ht : p.threads[i]? with
      | none =>
        rw [ht] at hnone
        cases hnone
      | some t =>
        simp only [ht, Worker.act, Option.map_eq_none_iff] at hnone
        refine ⟨i, ok, t, rfl, ht, ?_⟩
        by_contra hlucky
        by_cases hgiven : t.pc.given = none
        · obtain ⟨r, hr, -⟩ := h.goes ht ok (by simp [hgiven]) hlucky
          rw [hr] at hnone
          cases hnone
        · -- a registration does not fail
          cases hpc : t.pc with
          | launching handle =>
            rw [hpc] at hnone
            cases hnone
          | _ =>
            apply hgiven
            rw [hpc]
            rfl
    | _ => cases hnone
  · rintro ⟨i, ok, t, rfl, ht, hunlucky⟩
    simp only [dispatchStep, Pool.advance, ht, Worker.act, h.fails ok hunlucky, Option.map_none]

end DispatchInv

/-! ### What holds in every run -/

/-- The process before anything is launched. -/
def processStart : Pool Shared Worker := ⟨.init, []⟩

theorem dispatchInv_start : DispatchInv processStart where
  sound := fun _ => Sound.default
  fresh := fun _ _ => rfl
  unique := by
    intro c hc
    cases hc
  listed := by
    intro c hc
    cases hc
  relies := by
    intro t ht
    cases ht

theorem dispatchInv_of_reachable {p : Pool Shared Worker}
    (h : Reachable dispatchStep unrecurring processStart p) : DispatchInv p :=
  h.invariant dispatchInv_start fun _ _ _ hinv hok hstep => hinv.step hok hstep

theorem Service.placed_le_one (v : Service) : v.placed ≤ 1 := by
  rw [Service.placed]
  cases v.queue with
  | none => exact Nat.zero_le _
  | some mq =>
    simp only
    split_ifs <;> omega

theorem Pc.count_inside_le (pc : Pc) (c : ℕ) : pc.inside.count c ≤ pc.tokens.count c := by
  cases pc with
  | calling q i n msg => exact le_rfl
  | creating c' => exact le_rfl
  | _ => exact Nat.zero_le _

/-- **Safety.** In every run of the process in which no handle recurs, the actions that fail are
exactly the pushes to a service before its launch has created the queue, and the uses that the
launch makes of the service after it has let go of it, when the service has been deleted; and at
most one thread is in the callback or in the `init` function of a service. -/
theorem dispatch_fails_iff {p : Pool Shared Worker}
    (h : Reachable dispatchStep unrecurring processStart p) :
    (∀ e, dispatchStep p e = none ↔
      ∃ i ok t, e = .run i ok ∧ p.threads[i]? = some t ∧ t.pc.Unlucky p) ∧
      ∀ (c i j : ℕ) (t t' : Worker), p.threads[i]? = some t → p.threads[j]? = some t' →
        c ∈ t.pc.inside → c ∈ t'.pc.inside → i = j := by
  have hinv := dispatchInv_of_reachable h
  constructor
  · exact fun e => hinv.step_eq_none_iff
  · intro c i j t t' hi hj ht ht'
    -- a thread that is in a service has its token, of which there is one at most
    have hinside : ∀ {pc : Pc}, c ∈ pc.inside → pc.tokens.count c ≠ 0 := by
      intro pc hpc
      have := List.count_pos_iff.mpr hpc
      have := pc.count_inside_le c
      omega
    have hle : Pool.total p.threads (fun t => t.pc.tokens.count c) ≤ 1 := by
      have htokens := (hinv.sound c).tokens_eq
      have hplaced := (p.shared.services c).placed_le_one
      rw [tokensOf] at htokens
      omega
    exact Pool.eq_of_total_le_one hle hi hj (hinside ht) (hinside ht')

/-- The same thread again and again. -/
def runs (n i : ℕ) : List DispatchEvent := List.replicate n (.run i true)

/-- A service is launched and gets a message before it is ready, and a second one; a worker takes the
first, and while it is in the callback with the second, a third comes and the service is retired. -/
def oneService : List DispatchEvent :=
  [.launch 5] ++ runs 3 0 ++ [.send 5 ⟨7, 1, 0, 0⟩] ++ runs 3 1 ++ runs 6 0 ++
    [.worker (some 0), .send 5 ⟨7, 2, 0, 0⟩] ++ runs 3 3 ++ runs 10 2 ++
    [.send 5 ⟨7, 3, 0, 0⟩] ++ runs 3 4 ++ [.retire 5] ++ runs 2 5

/-- The worker comes back from the callback, deletes the service and drops what is left; a second
service gets the handle of the first one, and a message. -/
def twoServices : List DispatchEvent :=
  oneService ++ runs 8 2 ++ [.launch 5] ++ runs 9 6 ++ [.send 5 ⟨7, 4, 0, 0⟩] ++ runs 3 7 ++
    runs 10 2

/-- A message comes when the handle of the service can be found and its queue does not exist. -/
def earlyMessage : List DispatchEvent :=
  [.launch 5] ++ runs 2 0 ++ [.send 5 ⟨7, 1, 0, 0⟩] ++ runs 1 1

/-- The service is retired when its launch has let go of it. -/
def earlyEnd : List DispatchEvent :=
  [.launch 5] ++ runs 5 0 ++ [.retire 5] ++ runs 3 1

/-- A run in which no handle recurs, executed. -/
def guarded (es : List DispatchEvent) : Option (Pool Shared Worker) :=
  run (fun p e => if unrecurring p e then dispatchStep p e else none) processStart es

theorem dispatch_fails_iff_one :
    (∃ p, guarded oneService = some p ∧
      p.threads.map (fun t => t.pc.inside) = [[], [], [0], [], [], []] ∧
      (∀ e, dispatchStep p e ≠ none) ∧
      ∀ (c i j : ℕ) (t t' : Worker), p.threads[i]? = some t → p.threads[j]? = some t' →
        c ∈ t.pc.inside → c ∈ t'.pc.inside → i = j) ∧
      (∃ p, guarded earlyMessage = some p ∧ dispatchStep p (.run 1 true) = none) ∧
      ∃ p, guarded earlyEnd = some p ∧ dispatchStep p (.run 0 true) = none := by
  refine ⟨?_, ?_, ?_⟩
  · have hrun : ∃ p, guarded oneService = some p ∧
        p.threads.map (fun t => t.pc) = [.done, .done, .calling 0 0 0 ⟨7, 2, 0, 0⟩, .done, .done,
          .done] := ⟨_, rfl, by decide⟩
    obtain ⟨p, hp, hpcs⟩ := hrun
    obtain ⟨hfails, hinside⟩ := dispatch_fails_iff (.of_guarded_run hp)
    refine ⟨p, hp, ?_, ?_, hinside⟩
    · have hmap := congrArg (List.map Pc.inside) hpcs
      rw [List.map_map] at hmap
      exact hmap
    · intro e hnone
      obtain ⟨i, ok, t, -, ht, hunlucky⟩ := (hfails e).mp hnone
      have hmem : t.pc ∈ p.threads.map fun t => t.pc :=
        List.mem_map_of_mem (List.mem_of_getElem? ht)
      rw [hpcs] at hmem
      revert hunlucky
      generalize t.pc = pc at hmem
      simp only [List.mem_cons, List.not_mem_nil, or_false] at hmem
      rcases hmem with rfl | rfl | rfl | rfl | rfl | rfl <;> exact id
  · have hrun : ∃ p, guarded earlyMessage = some p ∧
        p.threads = [⟨none, .making 0⟩, ⟨none, .pushing 0 ⟨7, 1, 0, 0⟩⟩] := ⟨_, rfl, by decide⟩
    obtain ⟨p, hp, hthreads⟩ := hrun
    refine ⟨p, hp, ((dispatch_fails_iff (.of_guarded_run hp)).1 _).mpr
      ⟨1, true, ⟨none, .pushing 0 ⟨7, 1, 0, 0⟩⟩, rfl, by rw [hthreads]; rfl, ?_⟩⟩
    exact ⟨⟨none, .making 0⟩, by simp [hthreads], by simp [Pc.makes]⟩
  · have hrun : ∃ p, guarded earlyEnd = some p ∧ (p.shared.services 0).alive = false ∧
        p.threads[0]? = some ⟨none, .initialising 0⟩ := ⟨_, rfl, by decide⟩
    obtain ⟨p, hp, hgone, ht⟩ := hrun
    exact ⟨p, hp, ((dispatch_fails_iff (.of_guarded_run hp)).1 _).mpr
      ⟨0, true, ⟨none, .initialising 0⟩, rfl, ht, hgone⟩⟩

/-- A service whose messages were dropped is not in the table, and nobody has a reference to it. -/
theorem Sound.unheld_of_dropped {v : Service} {tokens refs dels makes : ℕ}
    (h : Sound v tokens refs dels makes) (hdropped : v.dropped ≠ []) :
    v.registered = false ∧ refs = 0 ∧ makes = 0 := by
  have hgone := h.dropped hdropped
  have hzero : v.ref = 0 := by
    by_contra hne
    rw [h.alive_of_ref (Nat.pos_of_ne_zero hne)] at hgone
    cases hgone
  have href := h.ref_eq
  rw [hzero] at href
  refine ⟨?_, by omega, by omega⟩
  by_contra hreg
  rw [if_pos (by simpa using hreg)] at href
  omega

/-- While messages wait, the flag of the queue is set, so that there is a token of it. -/
theorem Sound.token_of_waiting {v : Service} {tokens refs dels makes : ℕ}
    (h : Sound v tokens refs dels makes) (hwaiting : v.waiting ≠ []) : tokens = 1 := by
  rw [Service.waiting] at hwaiting
  rw [h.tokens_eq, Service.placed]
  cases hqueue : v.queue with
  | none =>
    rw [hqueue] at hwaiting
    exact absurd rfl hwaiting
  | some mq =>
    rw [hqueue] at hwaiting
    simp only at hwaiting ⊢
    rw [if_pos]
    left
    by_contra hflag
    exact hwaiting (h.idle mq hqueue (by simpa using hflag)).1

/-- **Messages.** In every run in which no handle recurs the messages that were pushed to a service
are, in their order, those that workers have taken for its callback, those that were dropped, and
those that wait. Messages are dropped only when the handle has been retired and no thread holds the
service, and while messages wait, the queue is in the list or in the hands of a thread. -/
theorem messages_taken_in_order {p : Pool Shared Worker}
    (h : Reachable dispatchStep unrecurring processStart p) (c : ℕ) :
    let v := p.shared.services c
    v.pushed = v.taken ++ v.dropped ++ v.waiting ∧
      (v.dropped ≠ [] → v.registered = false ∧ ∀ t ∈ p.threads, c ∉ t.pc.holds) ∧
      (v.waiting ≠ [] → c ∈ p.shared.global ∨ ∃ t ∈ p.threads, c ∈ t.pc.tokens) := by
  have hsound := (dispatchInv_of_reachable h).sound c
  refine ⟨hsound.log, ?_, ?_⟩
  · intro hdropped
    obtain ⟨hreg, hrefs, hmakes⟩ := hsound.unheld_of_dropped hdropped
    refine ⟨hreg, fun t ht hmem => ?_⟩
    -- what a thread holds is counted
    have hrefs' : t.pc.refs.count c ≤ refsOf p c := Pool.le_total ht fun t => t.pc.refs.count c
    have hmakes' : t.pc.makes.count c ≤ makesOf p c := Pool.le_total ht fun t => t.pc.makes.count c
    rcases List.mem_append.mp hmem with hmem | hmem
    · have := List.count_pos_iff.mpr hmem
      omega
    · have := List.count_pos_iff.mpr hmem
      omega
  · intro hwaiting
    have htokens := hsound.token_of_waiting hwaiting
    rw [tokensOf] at htokens
    by_cases hlisted : c ∈ p.shared.global
    · exact .inl hlisted
    · right
      rw [List.count_eq_zero_of_not_mem hlisted, Nat.zero_add] at htokens
      obtain ⟨t, ht, hne⟩ := Pool.exists_of_total_ne_zero (by rw [htokens]; exact Nat.one_ne_zero)
      exact ⟨t, ht, List.count_pos_iff.mp (Nat.pos_of_ne_zero hne)⟩

theorem messages_taken_in_order_two :
    ∃ p, guarded twoServices = some p ∧
      (p.shared.services 0).handle = (p.shared.services 1).handle ∧
      (p.shared.services 0).dropped = [⟨7, 3, 0, 0⟩] ∧
      (p.shared.services 1).taken = [⟨7, 4, 0, 0⟩] ∧
      ∀ c, let v := p.shared.services c
      v.pushed = v.taken ++ v.dropped ++ v.waiting ∧
        (v.dropped ≠ [] → v.registered = false ∧ ∀ t ∈ p.threads, c ∉ t.pc.holds) ∧
        (v.waiting ≠ [] → c ∈ p.shared.global ∨ ∃ t ∈ p.threads, c ∈ t.pc.tokens) := by
  have hrun : ∃ p, guarded twoServices = some p ∧
      (p.shared.services 0).handle = (p.shared.services 1).handle ∧
      (p.shared.services 0).dropped = [⟨7, 3, 0, 0⟩] ∧
      (p.shared.services 1).taken = [⟨7, 4, 0, 0⟩] := ⟨_, rfl, by decide⟩
  obtain ⟨p, hp, hhandle, hdropped, htaken⟩ := hrun
  exact ⟨p, hp, hhandle, hdropped, htaken, messages_taken_in_order (.of_guarded_run hp)⟩

/-- Threads that have come to rest have nothing in hand. -/
theorem total_at_rest {threads : List Worker}
    (hrest : ∀ t ∈ threads, t.pc = .working none ∨ t.pc = .done) {f : Pc → List ℕ}
    (hworking : f (.working none) = []) (hdone : f .done = []) (c : ℕ) :
    Pool.total threads (fun t => (f t.pc).count c) = 0 := by
  apply Pool.total_eq_zero
  intro t ht
  rcases hrest t ht with hpc | hpc
  · rw [hpc, hworking, List.count_nil]
  · rw [hpc, hdone, List.count_nil]

/-- A service in the table that nobody has in hand has no messages left. -/
theorem Sound.taken_at_rest {v : Service} (h : Sound v 0 0 0 0) (hreg : v.registered = true) :
    v.taken = v.pushed := by
  have href := h.ref_eq
  rw [hreg, if_pos rfl] at href
  have halive := h.alive_of_ref (by omega)
  obtain ⟨mq, hqueue, -⟩ := h.exists_queue halive
  -- its queue is not in the list, so that it is empty
  have hflag : mq.inGlobal = false := by
    have hplaced := h.tokens_eq
    rw [Service.placed, hqueue] at hplaced
    by_contra hflag
    simp [hflag] at hplaced
  have hlog := h.log
  rw [Service.waiting, hqueue] at hlog
  simp only [h.not_dropped halive, (h.idle mq hqueue hflag).1, List.append_nil] at hlog
  exact hlog.symm

/-- Of a service that is not in the table, and that nobody has in hand, nothing is left. -/
theorem Sound.spent_at_rest {v : Service} (h : Sound v 0 0 0 0) (hreg : ¬ v.registered = true) :
    v.spent ∧ v.pushed = v.taken ++ v.dropped := by
  have hgone := h.dels_eq
  rw [Nat.zero_add, h.ref_eq, if_neg hreg, if_pos rfl, Service.gone] at hgone
  have halive : v.alive = false := by
    by_contra halive
    rw [if_pos (by simpa using halive)] at hgone
    omega
  have hlog := h.log
  have hplaced := h.tokens_eq
  cases hqueue : v.queue with
  | none =>
    rw [Service.waiting, hqueue] at hlog
    exact ⟨by simp [Service.spent, halive, hqueue], by simpa using hlog⟩
  | some mq =>
    -- a marked queue would be a token that nobody has
    have hmarked := h.marked mq hqueue
    rw [halive] at hmarked
    simp [Service.placed, hqueue, hmarked] at hplaced

/-- **Rest.** When the list of queues is empty and the threads have come to rest, every message that
was pushed to a service that can still be reached has been taken, and every other service has been
freed with its queue. -/
theorem nothing_left_at_rest {p : Pool Shared Worker}
    (h : Reachable dispatchStep unrecurring processStart p) (hlist : p.shared.global = [])
    (hrest : ∀ t ∈ p.threads, t.pc = .working none ∨ t.pc = .done) (c : ℕ) :
    let v := p.shared.services c
    if v.registered then v.taken = v.pushed
    else v.spent ∧ v.pushed = v.taken ++ v.dropped := by
  have hsound := (dispatchInv_of_reachable h).sound c
  -- nobody has anything of the service in hand
  have htokens : tokensOf p c = 0 := by
    rw [tokensOf, hlist, List.count_nil, Nat.zero_add]
    exact total_at_rest hrest rfl rfl c
  have hrefs : refsOf p c = 0 := total_at_rest hrest rfl rfl c
  have hdels : delsOf p c = 0 := total_at_rest hrest rfl rfl c
  have hmakes : makesOf p c = 0 := total_at_rest hrest rfl rfl c
  rw [htokens, hrefs, hdels, hmakes] at hsound
  simp only
  split_ifs with hreg
  · exact hsound.taken_at_rest hreg
  · exact hsound.spent_at_rest hreg

theorem nothing_left_at_rest_two :
    ∃ p, guarded twoServices = some p ∧
      ∀ c, let v := p.shared.services c
      if v.registered then v.taken = v.pushed
      else v.spent ∧ v.pushed = v.taken ++ v.dropped := by
  have hrun : ∃ p, guarded twoServices = some p ∧
      p.shared.global = [] ∧ ∀ t ∈ p.threads, t.pc = .working none ∨ t.pc = .done :=
    ⟨_, rfl, by decide⟩
  obtain ⟨p, hp, hlist, hrest⟩ := hrun
  exact ⟨p, hp, nothing_left_at_rest (.of_guarded_run hp) hlist hrest⟩

end TestCluster.Skynet
