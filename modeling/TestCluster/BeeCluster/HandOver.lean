import Mathlib.Algebra.GroupWithZero.Nat
import TestCluster.BeeCluster.Queued

/-!
# Invocations handed over in order

Every event keeps the invariant of every node, and so every run hands the invocations for a
node over in the order in which they were made. Whatever waits in a queue can be worked
off, and each coroutine that waits is going to be woken.

## Main definitions

* `Traced` — the service, with the invocations made for each node
* `WorkedOff` — a run that works a queue off

## Main results

* `Traced.Inv.step` — every event keeps the invariant of every node
* `Traced.workedOff` — every queue can be worked off
* `handed_over` — what is sent for a node
-/

namespace TestCluster.BeeCluster.Cluster

open Semantics

variable {V S : Type} {node : String} [Zero V] {seri : Serializer V S} {s s' : Service V S}
  {q : ℕ}

/-! ### Events -/

omit [Zero V] in
theorem getQueue_taskQueue {node' : String} (h : s.taskQueue node' ≠ none) (node : String) :
    (s.getQueue node).1.taskQueue node' ≠ none := by
  cases hq : s.taskQueue node with
  | some q => simpa [Service.getQueue, hq] using h
  | none =>
    have hne : node' ≠ node := by
      rintro rfl
      exact h hq
    simpa [Service.getQueue, hq, hne] using h

/-- An invocation discards no queue. -/
theorem invoke_taskQueue {node' : String} (h : s.taskQueue node' ≠ none) (co : ℕ) (node : String)
    (invocation : Invocation V) : (s.invoke seri co node invocation).taskQueue node' ≠ none := by
  have hqueue := getQueue_taskQueue h node
  cases invocation with
  | call address args =>
    simp only [Service.invoke, Service.call]
    split
    · exact hqueue
    · exact h
  | send address args =>
    simp only [Service.invoke, Service.send]
    split
    · exact hqueue
    · exact h
  | query name =>
    simp only [Service.invoke, Service.query]
    split
    · exact hqueue
    · exact h

/-- The lookup of a queue begins. -/
theorem Inv.lookup {made : String → List (Message V S)} (h : Inv seri s made)
    (hdrainer : s.drainer q = .forked node) :
    Inv seri { s with drainer := Function.update s.drainer q (.looking node) } made := by
  have hq : s.taskQueue node = some q := (h node).drainers q (by rw [hdrainer]; rfl)
  -- the coroutine still works for the same node
  have hnode : ∀ q', ((Function.update s.drainer q (.looking node)) q').node =
      (s.drainer q').node := by
    intro q'
    by_cases hqq : q' = q
    · rw [hqq, Function.update_self, hdrainer]
      rfl
    · rw [Function.update_of_ne hqq]
  intro node'
  by_cases hne : node' = node
  · subst hne
    refine ⟨(h node').queue, fun q' hq' => (h node').drainers q' ((hnode q').symm.trans hq'),
      (h node').clients, ?_⟩
    cases (h node').queued hq with
    | asking _ hfound hsent hpends hclients =>
      exact .asking hq (.inr (Function.update_self ..)) hfound hsent
        (hpends.congr fun _ _ => ⟨rfl, rfl⟩) hclients
    | handing hconfirming => exact nomatch hdrainer.symm.trans hconfirming
    | waking hconfirming => exact nomatch hdrainer.symm.trans hconfirming
  · refine SameFor.nodeInv (s := s) ?_ (h node')
    refine ⟨rfl, rfl, rfl, le_rfl, fun q' hq' => ⟨rfl, Function.update_of_ne ?_ .., rfl⟩,
      fun q' hq' => (hnode q').symm.trans hq', fun _ _ _ => id, fun _ _ _ _ => ⟨rfl, rfl⟩⟩
    rintro rfl
    exact h.other hq hne hq'

/-- What an event can do: every case of `step`, with what it needs of the state. -/
inductive StepCase (seri : Serializer V S) (s : Service V S) : Event V → Service V S → Prop
  | invoke {co : ℕ} (node : String) (invocation : Invocation V)
      (hfree : (s.client co).sleeping = false) :
      StepCase seri s (.invoke co node invocation) (s.invoke seri co node invocation)
  | lookup {q : ℕ} {node : String} (hdrainer : s.drainer q = .forked node) :
      StepCase seri s (.lookup q)
        { s with drainer := Function.update s.drainer q (.looking node) }
  | found {q : ℕ} {node : String} (c : Option ℕ) (hdrainer : s.drainer q = .looking node) :
      StepCase seri s (.found q c) (s.found seri q node c)
  | confirm {q : ℕ} {node : String} {next : ℕ} (hdrainer : s.drainer q = .confirming node next)
      (hconfirmed : s.confirmed q = true) :
      StepCase seri s (.confirm q) (s.confirm seri q node next)
  | resume {co : ℕ} {node : String} {q : ℕ} {request : Request V S}
      (hwaiting : s.client co = .waiting node q request) (hwoken : s.woken co = true) :
      StepCase seri s (.resume co) (s.resume seri co node q request)
  | answered {co c : ℕ} (hcalling : s.client co = .calling c) :
      StepCase seri s (.answered co) (s.setClient co .free)

theorem stepCase_of_step {e : Event V} (h : step seri s e = some s') : StepCase seri s e s' := by
  cases e with
  | invoke co node invocation =>
    rw [step] at h
    split at h
    · obtain rfl := Option.some.inj h
      exact .invoke node invocation (congrArg Client.sleeping ‹_›)
    · obtain rfl := Option.some.inj h
      exact .invoke node invocation (congrArg Client.sleeping ‹_›)
    · exact nomatch h
  | lookup q =>
    rw [step] at h
    split at h
    · obtain rfl := Option.some.inj h
      exact .lookup ‹_›
    · exact nomatch h
  | found q c =>
    rw [step] at h
    split at h
    · obtain rfl := Option.some.inj h
      exact .found c ‹_›
    · exact nomatch h
  | confirm q =>
    rw [step] at h
    split at h
    · split_ifs at h with hconfirmed
      obtain rfl := Option.some.inj h
      exact .confirm ‹_› hconfirmed
    · exact nomatch h
  | resume co =>
    rw [step] at h
    split at h
    · split_ifs at h with hwoken
      obtain rfl := Option.some.inj h
      exact .resume ‹_› hwoken
    · exact nomatch h
  | answered co =>
    rw [step] at h
    split at h
    · obtain rfl := Option.some.inj h
      exact .answered ‹_›
    · exact nomatch h

/-! ### Runs -/

/-- A coroutine that goes on touches no table and no queue. -/
theorem resume_tables (s : Service V S) (co : ℕ) (node : String) (q : ℕ)
    (request : Request V S) :
    (s.resume seri co node q request).taskQueue = s.taskQueue ∧
      (s.resume seri co node q request).queue = s.queue ∧
      (s.resume seri co node q request).drainer = s.drainer ∧
      (s.resume seri co node q request).confirmed =
        Function.update s.confirmed q (s.confirmed q || (s.drainer q).sleeping) := by
  cases hfound : (s.queue q).sender with
  | none =>
    rw [Inv.resume_of_none hfound]
    exact ⟨rfl, rfl, rfl, rfl⟩
  | some c =>
    rw [Inv.resume_of_some hfound]
    exact ⟨rfl, rfl, rfl, rfl⟩

/-- The service, with the invocations made for each node since the last time that a queue
of the node was discarded without a sender. -/
structure Traced (V S : Type) where
  state : Service V S
  made : String → List (Invocation V)

namespace Traced

omit [Zero V] in
/-- Nothing was made yet. -/
def init (V S : Type) : Traced V S := ⟨Cluster.init V S, fun _ => []⟩

variable (seri) in
/-- One event, and what becomes of the invocations. -/
def step (t : Traced V S) (e : Event V) : Option (Traced V S) :=
  (Cluster.step seri t.state e).map fun s' =>
    ⟨s', fun node => if lost t.state s' node then [] else t.made node ++ e.invocations node⟩

/-- The invariant of every node, for the invocations made. -/
def Inv (seri : Serializer V S) (t : Traced V S) : Prop :=
  Cluster.Inv seri t.state fun node => (t.made node).map (Invocation.message seri)

variable {t t' : Traced V S}

theorem step_eq {e : Event V} (h : step seri t e = some t') :
    Cluster.step seri t.state e = some t'.state ∧ ∀ node,
      t'.made node = if lost t.state t'.state node then [] else
        t.made node ++ e.invocations node := by
  obtain ⟨s', hs', rfl⟩ := Option.map_eq_some_iff.mp h
  exact ⟨hs', fun _ => rfl⟩

theorem exists_step {e : Event V} {s' : Service V S} (h : Cluster.step seri t.state e = some s') :
    ∃ t', step seri t e = some t' ∧ t'.state = s' :=
  ⟨_, congrArg (Option.map _) h, rfl⟩

theorem inv_init : Inv seri (init V S) := fun _ =>
  ⟨fun _ hq => (nomatch hq), fun _ hq => (nomatch hq), fun _ _ _ hco => (nomatch hco),
    .unknown rfl rfl rfl rfl⟩

/-- Every event keeps the invariant of every node. -/
theorem Inv.step (h : Inv seri t) {e : Event V} (hs : step seri t e = some t') : Inv seri t' := by
  obtain ⟨hstep, hmade⟩ := step_eq hs
  have hinv : ∀ made', Cluster.Inv seri t'.state made' →
      (∀ node, (t'.made node).map (Invocation.message seri) = made' node) → Inv seri t' := by
    intro made' hmade' heq
    obtain rfl : (fun node => (t'.made node).map (Invocation.message seri)) = made' := funext heq
    exact hmade'
  -- an event that makes no invocation and loses no queue leaves the record as it is
  have hkept : (∀ node, e.invocations node = []) → (∀ node, ¬ lost t.state t'.state node) → ∀ node,
      (t'.made node).map (Invocation.message seri) =
        (t.made node).map (Invocation.message seri) := by
    intro he hlost node
    rw [hmade, if_neg (hlost node), he, List.append_nil]
  generalize t'.state = s' at *
  cases stepCase_of_step hstep with
  | @invoke co node invocation hfree =>
    refine hinv _ (h.invoke hfree node invocation) fun node' => ?_
    -- an invocation takes no queue away
    have hlost : ¬ lost t.state (t.state.invoke seri co node invocation) node' := fun hlost =>
      invoke_taskQueue hlost.1 co node invocation hlost.2.1
    rw [hmade, if_neg hlost, Event.invocations]
    by_cases hnode : node' = node
    · subst hnode
      simp
    · simp [hnode, Ne.symm hnode]
  | lookup hdrainer =>
    exact hinv _ (Cluster.Inv.lookup h hdrainer)
      (hkept (fun _ => rfl) fun node hlost => hlost.1 hlost.2.1)
  | @found q _ c hdrainer =>
    refine hinv _ (Cluster.Inv.found h hdrainer c) fun node => ?_
    have hnone : Event.invocations node (.found q c : Event V) = [] := rfl
    rw [hmade, hnone, List.append_nil]
    split_ifs <;> rfl
  | @confirm q _ _ hdrainer hconfirmed =>
    refine hinv _ (Cluster.Inv.confirm h hdrainer hconfirmed) fun node => ?_
    have hnone : Event.invocations node (.confirm q : Event V) = [] := rfl
    rw [hmade, hnone, List.append_nil]
    split_ifs <;> rfl
  | resume hwaiting hwoken =>
    refine hinv _ (Cluster.Inv.resume h hwaiting hwoken)
      (hkept (fun _ => rfl) fun node hlost => hlost.1 ?_)
    rw [← (resume_tables _ _ _ _ _).1]
    exact hlost.2.1
  | answered hcalling =>
    have hfree : (t.state.client _).sleeping = false := congrArg Client.sleeping hcalling
    have hsame : ∀ node, SameFor t.state (t.state.setClient _ .free) node :=
      SameFor.setClient hfree rfl
    exact hinv _ (Cluster.Inv.sameFor h hsame)
      (hkept (fun _ => rfl) fun node => (hsame node).not_lost)

theorem inv_of_reachable (h : Reachable (step seri) anyStep (init V S) t) : Inv seri t :=
  h.invariant inv_init fun _ _ _ hinv _ hs => hinv.step hs

end Traced

/-! ### The end of a queue -/

omit [Zero V] in
/-- The loop either discards the queue, or stops behind a later task. -/
theorem drain_cases (q : ℕ) (node : String) (c : Option ℕ) (s : Service V S) (i : ℕ)
    (rest : List (Task S)) :
    (drain seri q node c s i rest).taskQueue node = none ∧
        (drain seri q node c s i rest).sender node = c ∨
      ∃ next, i < next ∧ (drain seri q node c s i rest).drainer q = .confirming node next ∧
        (drain seri q node c s i rest).confirmed q = false ∧
        (drain seri q node c s i rest).queue = s.queue ∧
        (drain seri q node c s i rest).taskQueue = s.taskQueue := by
  induction rest generalizing s i with
  | nil => exact .inl ⟨Function.update_self .., Function.update_self ..⟩
  | cons task rest ih =>
    cases task with
    | coroutine co =>
      exact .inr ⟨i + 1, Nat.lt_succ_self i, Function.update_self .., Function.update_self .., rfl,
        rfl⟩
    | packed task =>
      -- handing over a push changes neither the queue nor the table
      have hpush : (s.push seri node c task).queue = s.queue ∧
          (s.push seri node c task).taskQueue = s.taskQueue := by
        cases c <;> exact ⟨rfl, rfl⟩
      refine (ih (s.push seri node c task) (i + 1)).imp id ?_
      rintro ⟨next, hlt, hdrainer, hconfirmed, hqueue, htaskQueue⟩
      exact ⟨next, (Nat.lt_succ_self i).trans hlt, hdrainer, hconfirmed, hqueue.trans hpush.1,
        htaskQueue.trans hpush.2⟩

/-- The events in which a queue is worked off, with the answer to its lookup. -/
def Event.worksOff (q : ℕ) (answer : Option ℕ) : Event V → Prop
  | .lookup q' => q' = q
  | .found q' c => q' = q ∧ c = answer
  | .confirm q' => q' = q
  | .resume _ => True
  | _ => False

namespace Traced

variable {t t' : Traced V S} {answer : Option ℕ}

/-- The queue of the node is worked off, and discarded, without any other event; where a
sender is found no invocation is lost. -/
def WorkedOff (seri : Serializer V S) (t : Traced V S) (node : String) (q : ℕ)
    (answer found : Option ℕ) : Prop :=
  ∃ es t', run (step seri) t es = some t' ∧ (∀ e ∈ es, e.worksOff q answer) ∧
    t'.state.taskQueue node = none ∧ t'.state.sender node = found ∧
    (found ≠ none → t'.made node = t.made node)

theorem WorkedOff.of_step {found : Option ℕ} {e : Event V} (hs : step seri t e = some t')
    (he : e.worksOff q answer) (hmade : t'.made node = t.made node)
    (h : WorkedOff seri t' node q answer found) : WorkedOff seri t node q answer found := by
  obtain ⟨es, t'', hrun, hes, hqueue, hsender, hkept⟩ := h
  refine ⟨e :: es, t'', ?_, ?_, hqueue, hsender, fun hfound => (hkept hfound).trans hmade⟩
  · rw [run_cons, hs]
    exact hrun
  · exact List.forall_mem_cons.mpr ⟨he, hes⟩

/-- An event that works off keeps the invocations, unless it discards the queue. -/
theorem made_of_worksOff {e : Event V} (hs : step seri t e = some t') (he : e.worksOff q answer)
    (hlost : ¬ lost t.state t'.state node) : t'.made node = t.made node := by
  obtain ⟨_, hmade⟩ := step_eq hs
  have hnone : e.invocations node = [] := by
    cases e with
    | invoke => exact he.elim
    | _ => rfl
  rw [hmade, if_neg hlost, hnone, List.append_nil]

/-- The loop was run to its next yield: the queue is discarded, or it is worked off from
there on. -/
theorem WorkedOff.of_drain {found : Option ℕ} {i : ℕ} {e : Event V} {s₁ : Service V S}
    (hs : step seri t e = some t') (he : e.worksOff q answer)
    (hstate : t'.state = drain seri q node found s₁ i ((s₁.queue q).tasks.drop i))
    (hqueue : s₁.taskQueue node = some q)
    (hrest : ∀ next, i < next → t'.state.drainer q = .confirming node next →
      t'.state.confirmed q = false → t'.state.queue q = s₁.queue q →
      t'.state.taskQueue node = some q → WorkedOff seri t' node q answer found) :
    WorkedOff seri t node q answer found := by
  -- the queue was discarded, or the loop waits behind a later task
  rcases drain_cases q node found s₁ i ((s₁.queue q).tasks.drop i) with
    ⟨hnone, hsender⟩ | ⟨next, hlt, hdrainer, hconfirmed, hqueues, htaskQueue⟩
  · rw [← hstate] at hnone hsender
    refine ⟨[e], t', by simp [hs], by simpa using he, hnone, hsender, fun hsome => ?_⟩
    exact made_of_worksOff hs he fun hlost => hsome (hsender.symm.trans hlost.2.2)
  · rw [← hstate] at hdrainer hconfirmed hqueues htaskQueue
    have hsome : t'.state.taskQueue node = some q := by rw [htaskQueue, hqueue]
    have hkept := made_of_worksOff hs he fun hlost : lost t.state t'.state node =>
      nomatch hsome.symm.trans hlost.2.1
    exact (hrest next hlt hdrainer hconfirmed (by rw [hqueues]) hsome).of_step hs he hkept

/-- A coroutine that was woken goes on, and then the loop does. -/
theorem WorkedOff.of_waking {found : Option ℕ} {next : ℕ} (hinv : Inv seri t)
    (hqueue : t.state.taskQueue node = some q)
    (hdrainer : t.state.drainer q = .confirming node next)
    (hconfirmed : t.state.confirmed q = false)
    (hrest : ∀ t', Inv seri t' → t'.state.taskQueue node = some q →
      t'.state.drainer q = .confirming node next → t'.state.confirmed q = true →
      t'.state.queue q = t.state.queue q → WorkedOff seri t' node q answer found) :
    WorkedOff seri t node q answer found := by
  -- the loop waits for a coroutine that was woken and has not confirmed yet
  obtain ⟨co, request, hwaiting, hwoken⟩ : ∃ co request,
      t.state.client co = .waiting node q request ∧ t.state.woken co = true := by
    cases (hinv node).queued hqueue with
    | asking hasking =>
      rw [hdrainer] at hasking
      exact absurd hasking (by simp)
    | handing _ htrue => exact nomatch hconfirmed.symm.trans htrue
    | waking _ _ _ hwaiting hwoken => exact ⟨_, _, hwaiting, hwoken⟩
  have hresume : Cluster.step seri t.state (.resume co) =
      some (t.state.resume seri co node q request) := by
    simp only [Cluster.step, hwaiting, hwoken, if_true]
  obtain ⟨t', hs, hstate⟩ := exists_step hresume
  obtain ⟨htaskQueue, hqueues, hdrainers, hconfirm⟩ :=
    @resume_tables _ _ _ seri t.state co node q request
  rw [← hstate] at htaskQueue hqueues hdrainers hconfirm
  have hsome : t'.state.taskQueue node = some q := by rw [htaskQueue, hqueue]
  have htrue : t'.state.confirmed q = true := by
    rw [hconfirm, Function.update_self, hdrainer]
    exact Bool.or_true _
  refine (hrest t' (hinv.step hs) hsome (by rw [hdrainers, hdrainer]) htrue
    (by rw [hqueues])).of_step hs trivial ?_
  have he : Event.worksOff q answer (.resume co : Event V) := trivial
  exact made_of_worksOff hs he fun hlost : lost _ _ node => nomatch hsome.symm.trans hlost.2.1

/-- The loop is not behind the end of the queue. -/
theorem next_le {next : ℕ} (hinv : Inv seri t) (hqueue : t.state.taskQueue node = some q)
    (hdrainer : t.state.drainer q = .confirming node next) :
    next ≤ (t.state.queue q).tasks.length := by
  cases (hinv node).queued hqueue with
  | asking hasking =>
    rw [hdrainer] at hasking
    exact absurd hasking (by simp)
  | handing hconfirming _ hnext =>
    exact (Drainer.confirming.inj (hdrainer.symm.trans hconfirming)).2 ▸ hnext
  | waking hconfirming _ hnext =>
    exact (Drainer.confirming.inj (hdrainer.symm.trans hconfirming)).2 ▸ hnext

/-- Where the loop goes on, what is left of the queue is worked off. The induction is on
the number of tasks behind the loop. -/
theorem workedOff_of_handing (n : ℕ) {next : ℕ} (hinv : Inv seri t)
    (hqueue : t.state.taskQueue node = some q)
    (hdrainer : t.state.drainer q = .confirming node next)
    (hconfirmed : t.state.confirmed q = true) (hn : (t.state.queue q).tasks.length - next < n) :
    WorkedOff seri t node q answer (t.state.queue q).sender := by
  induction n generalizing t next with
  | zero => exact absurd hn (Nat.not_lt_zero _)
  | succ n ih =>
    have hconfirm : Cluster.step seri t.state (.confirm q) =
        some (t.state.confirm seri q node next) := by
      simp only [Cluster.step, hdrainer, hconfirmed, if_true]
    obtain ⟨t₁, hs₁, hstate₁⟩ := exists_step hconfirm
    have hinv₁ := hinv.step hs₁
    refine WorkedOff.of_drain hs₁ (e := .confirm q) rfl hstate₁ hqueue ?_
    -- the loop has come further and waits; the coroutine that was woken goes on first
    intro next' hlt hdrainer₁ hconfirmed₁ hqueue₁ hsome₁
    refine .of_waking hinv₁ hsome₁ hdrainer₁ hconfirmed₁ ?_
    intro t₂ hinv₂ hsome₂ hdrainer₂ hconfirmed₂ hqueue₂
    have hle := next_le hinv₂ hsome₂ hdrainer₂
    rw [hqueue₂, hqueue₁] at hle
    have hrest := ih hinv₂ hsome₂ hdrainer₂ hconfirmed₂ (by rw [hqueue₂, hqueue₁]; omega)
    rwa [hqueue₂, hqueue₁] at hrest

theorem workedOff_of_waking {next : ℕ} (hinv : Inv seri t)
    (hqueue : t.state.taskQueue node = some q)
    (hdrainer : t.state.drainer q = .confirming node next)
    (hconfirmed : t.state.confirmed q = false) :
    WorkedOff seri t node q answer (t.state.queue q).sender := by
  refine .of_waking hinv hqueue hdrainer hconfirmed fun t' hinv' hsome hdrainer' htrue hsame => ?_
  rw [← hsame]
  exact workedOff_of_handing _ hinv' hsome hdrainer' htrue (Nat.lt_succ_self _)

/-- Where the lookup is under way, its answer comes, and the queue is worked off. -/
theorem workedOff_of_looking (hinv : Inv seri t) (hqueue : t.state.taskQueue node = some q)
    (hdrainer : t.state.drainer q = .looking node) : WorkedOff seri t node q answer answer := by
  have hfound : Cluster.step seri t.state (.found q answer) =
      some (t.state.found seri q node answer) := by
    simp only [Cluster.step, hdrainer]
  obtain ⟨t₁, hs₁, hstate₁⟩ := exists_step hfound
  refine WorkedOff.of_drain hs₁ (e := .found q answer) ⟨rfl, rfl⟩ (i := 0) hstate₁ hqueue ?_
  intro next _ hdrainer₁ hconfirmed₁ hqueue₁ hsome₁
  have hrest : WorkedOff seri t₁ node q answer (t₁.state.queue q).sender :=
    workedOff_of_waking (hinv.step hs₁) hsome₁ hdrainer₁ hconfirmed₁
  rw [hqueue₁] at hrest
  simpa using hrest

/-- What the lookup of a queue has found, or is going to be answered. -/
def outcome (t : Traced V S) (q : ℕ) (answer : Option ℕ) : Option ℕ :=
  match t.state.drainer q with
  | .confirming _ _ => (t.state.queue q).sender
  | _ => answer

/-- **Every queue can be worked off**, whatever its lookup is answered. -/
theorem workedOff (hinv : Inv seri t) (hqueue : t.state.taskQueue node = some q)
    (answer : Option ℕ) : WorkedOff seri t node q answer (t.outcome q answer) := by
  cases (hinv node).queued hqueue with
  | asking hasking =>
    rcases hasking with hforked | hlooking
    · -- the coroutine that was forked has not run yet: it looks the sender up first
      simp only [outcome, hforked]
      have hlookup : Cluster.step seri t.state (.lookup q) =
          some { t.state with drainer := Function.update t.state.drainer q (.looking node) } := by
        simp only [Cluster.step, hforked]
      obtain ⟨t₁, hs₁, hstate₁⟩ := exists_step hlookup
      have hsome₁ : t₁.state.taskQueue node = some q := by rw [hstate₁]; exact hqueue
      have hlooking₁ : t₁.state.drainer q = .looking node := by rw [hstate₁]; simp
      have he : Event.worksOff q answer (.lookup q : Event V) := rfl
      refine (workedOff_of_looking (hinv.step hs₁) hsome₁ hlooking₁).of_step hs₁ he ?_
      exact made_of_worksOff hs₁ he fun hlost : lost _ _ node => nomatch hsome₁.symm.trans hlost.2.1
    · simp only [outcome, hlooking]
      exact workedOff_of_looking hinv hqueue hlooking
  | handing hdrainer hconfirmed =>
    simp only [outcome, hdrainer]
    exact workedOff_of_handing _ hinv hqueue hdrainer hconfirmed (Nat.lt_succ_self _)
  | waking hdrainer hconfirmed =>
    simp only [outcome, hdrainer]
    exact workedOff_of_waking hinv hqueue hdrainer hconfirmed

end Traced

/-! ### Coroutines that wait -/

omit [Zero V] in
theorem drain_client (q : ℕ) (node : String) (c : Option ℕ) (s : Service V S) (i : ℕ)
    (rest : List (Task S)) : (drain seri q node c s i rest).client = s.client := by
  induction rest generalizing s i with
  | nil => rfl
  | cons task rest ih =>
    cases task with
    | coroutine co => rfl
    | packed task =>
      refine (ih (s.push seri node c task) (i + 1)).trans ?_
      cases c <;> rfl

theorem invoke_client {co co' : ℕ} (hne : co' ≠ co) (node : String) (invocation : Invocation V) :
    (s.invoke seri co node invocation).client co' = s.client co' := by
  have hqueue : (s.getQueue node).1.client = s.client := by
    unfold Service.getQueue
    split <;> rfl
  have hawait : ∀ request, (s.await co node request).client co' = s.client co' := fun request =>
    (Function.update_of_ne hne ..).trans (congrFun hqueue co')
  cases invocation with
  | call address args =>
    simp only [Service.invoke, Service.call]
    split
    · exact hawait _
    · exact Function.update_of_ne hne ..
  | send address args =>
    simp only [Service.invoke, Service.send]
    split
    · exact congrFun hqueue co'
    · rfl
  | query name =>
    simp only [Service.invoke, Service.query]
    split
    · exact hawait _
    · exact Function.update_of_ne hne ..

/-- A coroutine that waits goes on waiting, or raises where no sender was found, or sends
its request to the sender. -/
theorem step_waiting {co : ℕ} {request : Request V S} {e : Event V}
    (hwaiting : s.client co = .waiting node q request) (hs : step seri s e = some s') :
    s'.client co = .waiting node q request ∨
      match (s.queue q).sender with
      | none => s'.client co = .raised ∧ s'.sent = s.sent
      | some c => s'.client co = .calling c ∧
        s'.sent = s.sent ++ [⟨node, c, request.message seri⟩] := by
  cases stepCase_of_step hs with
  | @invoke co' _ invocation hfree =>
    -- whoever sleeps in a queue makes no invocation
    have hne : co ≠ co' := by
      rintro rfl
      rw [hwaiting] at hfree
      cases hfree
    exact .inl ((invoke_client hne _ invocation).trans hwaiting)
  | lookup => exact .inl hwaiting
  | found => exact .inl ((congrFun (drain_client ..) co).trans hwaiting)
  | confirm => exact .inl ((congrFun (drain_client ..) co).trans hwaiting)
  | @resume co' _ _ _ hwaiting' =>
    by_cases hco : co = co'
    · subst hco
      obtain ⟨rfl, rfl, rfl⟩ := Client.waiting.inj (hwaiting.symm.trans hwaiting')
      refine .inr ?_
      cases hfound : (s.queue q).sender with
      | none =>
        rw [Inv.resume_of_none hfound]
        exact ⟨Function.update_self .., rfl⟩
      | some c =>
        rw [Inv.resume_of_some hfound]
        exact ⟨Function.update_self .., rfl⟩
    · refine .inl (Eq.trans ?_ hwaiting)
      simp only [Service.resume]
      split <;> exact Function.update_of_ne hco ..
  | @answered co' c hcalling =>
    have hne : co ≠ co' := by
      rintro rfl
      cases hcalling.symm.trans hwaiting
    exact .inl ((Function.update_of_ne hne ..).trans hwaiting)

/-- While a queue is worked off, what was sent is the front of what was made, or nothing
where no sender was found. -/
theorem NodeInv.sentTo_queued {made : List (Message V S)} (h : NodeInv seri s node made)
    (hq : s.taskQueue node = some q) :
    match (s.queue q).sender with
    | none => s.sentTo node = []
    | some c => s.sentTo node <+: made.map (c, ·) := by
  have hhanded : ∀ {pending}, Handed (s.queue q).sender (s.sentTo node) pending made →
      match (s.queue q).sender with
      | none => s.sentTo node = []
      | some c => s.sentTo node <+: made.map (c, ·) := by
    intro pending hsent
    cases hfound : (s.queue q).sender with
    | none =>
      rw [hfound] at hsent
      exact hsent
    | some c =>
      rw [hfound] at hsent
      exact ⟨_, hsent⟩
  cases h.queued hq with
  | asking _ hfound hsent =>
    rw [hfound]
    exact hsent
  | handing _ _ _ hsent => exact hhanded hsent
  | waking _ _ _ _ _ hsent => exact hhanded hsent

/-- Where neither a sender nor a queue is there, an invocation forks a lookup. -/
theorem invoke_forked (hsender : s.sender node = none) (hqueue : s.taskQueue node = none) (co : ℕ)
    (invocation : Invocation V) :
    (s.invoke seri co node invocation).taskQueue node = some s.nextQueue ∧
      (s.invoke seri co node invocation).drainer s.nextQueue = .forked node := by
  cases invocation <;>
    simp [Service.invoke, Service.call, Service.send, Service.query, Service.await,
      Service.getQueue, Service.enqueue, Service.setClient, hsender, hqueue]

open Traced in
/-- Where the lookup has found a sender, what is sent for the node are the invocations made
for it, each once and in their order: a part of them from the front while the queue is
worked off, and all of them once it is. Where it has found none nothing is sent, whoever
waits in the queue raises, and the invocation after the queue was discarded starts another
lookup. Every queue can be worked off. -/
theorem handed_over {t : Traced V S} (hr : Reachable (Traced.step seri) anyStep (Traced.init V S) t)
    (node : String) :
    (∀ c, t.state.sender node = some c →
      t.state.sentTo node = (t.made node).map fun i => (c, i.message seri)) ∧
    (∀ q c, t.state.taskQueue node = some q → (t.state.queue q).sender = some c →
      t.state.sentTo node <+: (t.made node).map fun i => (c, i.message seri)) ∧
    (∀ q, t.state.taskQueue node = some q → (t.state.queue q).sender = none →
      t.state.sentTo node = []) ∧
    (∀ co q request, t.state.client co = .waiting node q request →
      t.state.taskQueue node = some q ∧ ∀ e t', Traced.step seri t e = some t' →
        t'.state.client co = .waiting node q request ∨
          match (t.state.queue q).sender with
          | none => t'.state.client co = .raised ∧ t'.state.sent = t.state.sent
          | some c => t'.state.client co = .calling c ∧
            t'.state.sent = t.state.sent ++ [⟨node, c, request.message seri⟩]) ∧
    (t.state.sender node = none → t.state.taskQueue node = none → t.state.sentTo node = [] ∧
      ∀ co invocation, t.state.client co = .free ∨ t.state.client co = .raised → ∃ t' q,
        Traced.step seri t (.invoke co node invocation) = some t' ∧
          t'.state.taskQueue node = some q ∧ t'.state.drainer q = .forked node) ∧
    ∀ q, t.state.taskQueue node = some q → ∀ answer,
      WorkedOff seri t node q answer (t.outcome q answer) := by
  have hinv := inv_of_reachable hr
  refine ⟨fun c hsender => ?_, fun q c hq hfound => ?_, fun q hq hfound => ?_,
    fun co q request hwaiting => ⟨(hinv node).clients co q request hwaiting, fun e t' hs =>
      step_waiting hwaiting (step_eq hs).1⟩,
    fun hsender hqueue =>
      ⟨((hinv node).of_unknown hsender hqueue).2, fun co invocation hfree => ?_⟩,
    fun q hq answer => workedOff hinv hq answer⟩
  · rw [((hinv node).of_known hsender).2, List.map_map]
    rfl
  · -- the front of what was made is handed over
    have hsent := (hinv node).sentTo_queued hq
    simp only [hfound, List.map_map] at hsent
    exact hsent
  · have hsent := (hinv node).sentTo_queued hq
    simpa only [hfound] using hsent
  · have hinvoke : Cluster.step seri t.state (.invoke co node invocation) =
        some (t.state.invoke seri co node invocation) := by
      rcases hfree with hfree | hraised
      · simp only [Cluster.step, hfree]
      · simp only [Cluster.step, hraised]
    obtain ⟨t', hs, hstate⟩ := exists_step hinvoke
    obtain ⟨htaskQueue, hforked⟩ := @invoke_forked _ _ _ _ seri _ hsender hqueue co invocation
    exact ⟨t', t.state.nextQueue, hs, by rw [hstate, htaskQueue], by rw [hstate, hforked]⟩

/-- Numbers, serialized as the list they are. -/
def numbers : Serializer ℕ (List ℕ) where
  pack args := args
  packstring address args := address :: args
  unpack task := (task.headD 0, task.tail)
  unpack_packstring _ _ := rfl

/-- A call and a push are made before the lookup is answered, a query while the call is
waited for, and a push once the sender is known. -/
theorem handed_over_four :
    ∃ t, run (Traced.step numbers) (Traced.init ℕ (List ℕ))
        [.invoke 0 "n" (.call 1 [10]), .invoke 1 "n" (.send 2 [20]), .lookup 0, .found 0 (some 5),
          .invoke 1 "n" (.query 3), .resume 0, .confirm 0, .resume 1, .confirm 0,
          .invoke 2 "n" (.send 4 [40])] = some t ∧
      t.state.sentTo "n" = [(5, ⟨.req, 1, [10]⟩), (5, ⟨.push, 2, [20]⟩), (5, ⟨.req, 0, [3]⟩),
        (5, ⟨.push, 4, [40]⟩)] := by
  have hreach := @Reachable.of_run _ _ (Traced.step numbers) (Traced.init ℕ (List ℕ)) _
    [.invoke 0 "n" (.call 1 [10]), .invoke 1 "n" (.send 2 [20]), .lookup 0, .found 0 (some 5),
      .invoke 1 "n" (.query 3), .resume 0, .confirm 0, .resume 1, .confirm 0,
      .invoke 2 "n" (.send 4 [40])] rfl
  exact ⟨_, rfl, ((handed_over hreach "n").1 5 (by decide)).trans (by decide)⟩

end TestCluster.BeeCluster.Cluster
