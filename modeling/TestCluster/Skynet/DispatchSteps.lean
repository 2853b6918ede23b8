import TestCluster.Skynet.DispatchInvariant

/-!
# The invariant of the dispatcher

Of all services together with all threads: every service is sound for what the list and the threads
have of it, and every thread can rely on what it has seen. An action that is about one service keeps
the invariant if the service stays sound with the changed numbers, and each action is shown to do so
on its own.

## Main definitions

* `tokensOf`, `refsOf`, `delsOf`, `makesOf` — what the threads have of a service
* `DispatchInv` — what holds in every reachable state
* `Pc.Unlucky` — the circumstances in which an action fails

## Main results

* `DispatchInv.update` — an action that is about one service keeps the invariant
* `DispatchInv.goes` — an action that is not unlucky does not fail and keeps the invariant
* `DispatchInv.fails` — an unlucky action fails
-/

namespace TestCluster.Skynet

open Semantics

/-- The tokens of a service: in the list, and in the hands of the threads. -/
def tokensOf (p : Pool Shared Worker) (c : ℕ) : ℕ :=
  p.shared.global.count c + Pool.total p.threads fun t => t.pc.tokens.count c

/-- The references to a service in the hands of the threads. -/
def refsOf (p : Pool Shared Worker) (c : ℕ) : ℕ := Pool.total p.threads fun t => t.pc.refs.count c

/-- The threads that delete a service. -/
def delsOf (p : Pool Shared Worker) (c : ℕ) : ℕ := Pool.total p.threads fun t => t.pc.dels.count c

/-- The threads that are to create the queue of a service. -/
def makesOf (p : Pool Shared Worker) (c : ℕ) : ℕ := Pool.total p.threads fun t => t.pc.makes.count c

/-- What holds in every reachable state. -/
structure DispatchInv (p : Pool Shared Worker) : Prop where
  sound : ∀ c, Sound (p.shared.services c) (tokensOf p c) (refsOf p c) (delsOf p c) (makesOf p c)
  fresh : ∀ c, p.shared.next ≤ c → p.shared.services c = {}
  unique : ∀ c < p.shared.next, ∀ d < p.shared.next, d ≠ c →
    (p.shared.services c).handle = (p.shared.services d).handle →
      (p.shared.services c).spent ∨ (p.shared.services d).spent
  listed : ∀ c ∈ p.shared.global, p.shared.Ready c
  relies : ∀ t ∈ p.threads, t.pc.Relies p.shared

/-- An action of a thread does not change the numbers of a service whose queue it moves at most from
the list to itself or back. -/
theorem counts_eq_of_frame {p : Pool Shared Worker} {i d : ℕ} {t : Worker}
    (ht : p.threads[i]? = some t) (s' : Shared) {pc' : Pc}
    (hframe : s'.global.count d + pc'.tokens.count d =
        p.shared.global.count d + t.pc.tokens.count d ∧
      pc'.refs.count d = t.pc.refs.count d ∧ pc'.dels.count d = t.pc.dels.count d ∧
      pc'.makes.count d = t.pc.makes.count d) :
    tokensOf ⟨s', p.threads.set i { t with pc := pc' }⟩ d = tokensOf p d ∧
      refsOf ⟨s', p.threads.set i { t with pc := pc' }⟩ d = refsOf p d ∧
      delsOf ⟨s', p.threads.set i { t with pc := pc' }⟩ d = delsOf p d ∧
      makesOf ⟨s', p.threads.set i { t with pc := pc' }⟩ d = makesOf p d := by
  have htokens := Pool.total_set ht { t with pc := pc' } fun t => t.pc.tokens.count d
  have hrefs := Pool.total_set ht { t with pc := pc' } fun t => t.pc.refs.count d
  have hdels := Pool.total_set ht { t with pc := pc' } fun t => t.pc.dels.count d
  have hmakes := Pool.total_set ht { t with pc := pc' } fun t => t.pc.makes.count d
  obtain ⟨hf₁, hf₂, hf₃, hf₄⟩ := hframe
  simp only [tokensOf, refsOf, delsOf, makesOf] at htokens hrefs hdels hmakes ⊢
  refine ⟨?_, ?_, ?_, ?_⟩ <;> omega

/-- The circumstances in which the next action of a thread fails: a push to a service whose queue is
still to be created, and what `skynet_context_new` does with the service that it no longer holds,
when the service has been deleted. -/
def Pc.Unlucky (p : Pool Shared Worker) : Pc → Prop
  | pushing c _ => ∃ t ∈ p.threads, c ∈ t.pc.makes
  | initialising c | announcing c | answering c => (p.shared.services c).alive = false
  | _ => False

namespace DispatchInv

variable {p : Pool Shared Worker} {i c : ℕ} {t : Worker}

theorem lt_next_of_queue (h : DispatchInv p) (hqueue : (p.shared.services c).queue ≠ none) :
    c < p.shared.next := by
  by_contra hle
  apply hqueue
  rw [h.fresh c (not_lt.mp hle)]

theorem lt_next_of_alive (h : DispatchInv p) (halive : (p.shared.services c).alive = true) :
    c < p.shared.next := by
  by_contra hle
  rw [h.fresh c (not_lt.mp hle)] at halive
  cases halive

/-- A service in the table has not been deleted. -/
theorem alive_of_registered (h : DispatchInv p) (hreg : (p.shared.services c).registered = true) :
    (p.shared.services c).alive = true := by
  apply (h.sound c).alive_of_ref
  have href := (h.sound c).ref_eq
  rw [if_pos hreg] at href
  omega

/-- As long as something is left of a service, no other service is found under its handle. -/
theorem find_eq (h : DispatchInv p) {c d : ℕ} (hlt : c < p.shared.next)
    (hleft : (p.shared.services c).spent = false)
    (hfind : p.shared.find (p.shared.services c).handle = some d) : d = c := by
  obtain ⟨hreg, hlt', -, hhandle⟩ := Shared.find_some hfind
  by_contra hne
  rcases h.unique c hlt d hlt' hne hhandle.symm with hspent | hspent
  · rw [hleft] at hspent
    cases hspent
  · rw [Service.not_spent_of_alive (h.alive_of_registered hreg)] at hspent
    cases hspent

/-- **Update.** An action of a thread that changes one service, and may use the list, keeps the
invariant if the service stays sound with the changed numbers and the other numbers are as they
were. -/
theorem update (h : DispatchInv p) (ht : p.threads[i]? = some t) {s' : Shared} {pc' : Pc} (c : ℕ)
    (hsound : ∀ T R D M,
      T + (p.shared.global.count c + t.pc.tokens.count c) =
        tokensOf p c + (s'.global.count c + pc'.tokens.count c) →
      R + t.pc.refs.count c = refsOf p c + pc'.refs.count c →
      D + t.pc.dels.count c = delsOf p c + pc'.dels.count c →
      M + t.pc.makes.count c = makesOf p c + pc'.makes.count c → Sound (s'.services c) T R D M)
    (hother : ∀ d, d ≠ c → s'.services d = p.shared.services d)
    (hframe : ∀ d, d ≠ c → s'.global.count d + pc'.tokens.count d =
        p.shared.global.count d + t.pc.tokens.count d ∧
      pc'.refs.count d = t.pc.refs.count d ∧ pc'.dels.count d = t.pc.dels.count d ∧
      pc'.makes.count d = t.pc.makes.count d)
    (hnext : ∀ d, d < s'.next ↔ d < p.shared.next ∨ d = c)
    (hunique : ∀ d < p.shared.next, d ≠ c →
      (s'.services c).handle = (p.shared.services d).handle →
        (s'.services c).spent ∨ (p.shared.services d).spent)
    (hadv : p.shared.Advances s')
    (hlisted : ∀ d ∈ s'.global, d ∈ p.shared.global ∨ s'.Ready d) (hrelies : pc'.Relies s') :
    DispatchInv ⟨s', p.threads.set i { t with pc := pc' }⟩ := by
  constructor
  · intro d
    by_cases hd : d = c
    · subst hd
      -- the sums over the threads change by what this thread has more or less
      apply hsound
      · have := Pool.total_set ht { t with pc := pc' } fun t => t.pc.tokens.count d
        simp only [tokensOf] at this ⊢
        omega
      · exact Pool.total_set ht { t with pc := pc' } fun t => t.pc.refs.count d
      · exact Pool.total_set ht { t with pc := pc' } fun t => t.pc.dels.count d
      · exact Pool.total_set ht { t with pc := pc' } fun t => t.pc.makes.count d
    · obtain ⟨h₁, h₂, h₃, h₄⟩ := counts_eq_of_frame ht s' (hframe d hd)
      rw [h₁, h₂, h₃, h₄]
      simpa only [hother d hd] using h.sound d
  · intro d hd
    have hlt := (hnext d).not.mp (not_lt.mpr hd)
    rw [not_or, not_lt] at hlt
    simp only [hother d hlt.2]
    exact h.fresh d hlt.1
  · -- one of two different services is not the one that changes
    intro d hd e he hne heq
    simp only at hd he heq ⊢
    rcases (hnext d).mp hd with hd | rfl
    · by_cases hdc : d = c
      · subst hdc
        rcases (hnext e).mp he with he | rfl
        · rw [hother e hne] at heq ⊢
          exact hunique e he hne heq
        · exact absurd rfl hne
      · rw [hother d hdc] at heq ⊢
        by_cases hec : e = c
        · subst hec
          exact (hunique d hd hdc heq.symm).symm
        · rw [hother e hec] at heq ⊢
          exact h.unique d hd e (((hnext e).mp he).resolve_right hec) hne heq
    · have hlt := ((hnext e).mp he).resolve_right hne
      rw [hother e hne] at heq ⊢
      exact hunique e hlt hne heq
  · intro d hd
    rcases hlisted d hd with hmem | hready
    · exact hadv.ready (h.listed d hmem)
    · exact hready
  · apply Pool.forall_set
    · intro t' ht'
      exact hadv.relies (h.relies t' ht')
    · exact hrelies

theorem advances_set {s : Shared} {v' : Service} (hadv : (s.services c).Advances v')
    (g' : List ℕ) : s.Advances { s.set c v' with global := g' } where
  next_le := le_rfl
  each := by
    intro d _
    by_cases hdc : d = c
    · subst hdc
      simpa [Shared.set] using hadv
    · simpa [Shared.set, hdc] using Service.Advances.rfl

/-- An action that changes one service, and may use the list. -/
theorem update_set (h : DispatchInv p) (ht : p.threads[i]? = some t) {v' : Service} {pc' : Pc}
    (c : ℕ) (g' : List ℕ) (hlt : c < p.shared.next)
    (hsound : ∀ T R D M,
      T + (p.shared.global.count c + t.pc.tokens.count c) =
        tokensOf p c + (g'.count c + pc'.tokens.count c) →
      R + t.pc.refs.count c = refsOf p c + pc'.refs.count c →
      D + t.pc.dels.count c = delsOf p c + pc'.dels.count c →
      M + t.pc.makes.count c = makesOf p c + pc'.makes.count c → Sound v' T R D M)
    (hframe : ∀ d, d ≠ c → g'.count d + pc'.tokens.count d =
        p.shared.global.count d + t.pc.tokens.count d ∧
      pc'.refs.count d = t.pc.refs.count d ∧ pc'.dels.count d = t.pc.dels.count d ∧
      pc'.makes.count d = t.pc.makes.count d)
    (hadv : (p.shared.services c).Advances v')
    (hlisted : ∀ d ∈ g', d ∈ p.shared.global ∨
      Shared.Ready { p.shared.set c v' with global := g' } d)
    (hrelies : pc'.Relies { p.shared.set c v' with global := g' }) :
    DispatchInv
      ⟨{ p.shared.set c v' with global := g' }, p.threads.set i { t with pc := pc' }⟩ := by
  refine h.update ht c ?_ ?_ hframe ?_ ?_ (advances_set hadv g') hlisted hrelies
  · intro T R D M hT hR hD hM
    simpa [Shared.set] using hsound T R D M hT hR hD hM
  · intro d hd
    simp [Shared.set, hd]
  · intro d
    refine ⟨Or.inl, ?_⟩
    rintro (hd | rfl)
    · exact hd
    · exact hlt
  · intro d hd hne heq
    simp only [Shared.set, Function.update_self] at heq ⊢
    exact (h.unique c hlt d hd hne (hadv.handle.symm.trans heq)).imp_left hadv.spent

/-- An action that changes no service, and may use the list. -/
theorem update_list (h : DispatchInv p) (ht : p.threads[i]? = some t) {pc' : Pc} (g' : List ℕ)
    (hframe : ∀ d, g'.count d + pc'.tokens.count d =
        p.shared.global.count d + t.pc.tokens.count d ∧
      pc'.refs.count d = t.pc.refs.count d ∧ pc'.dels.count d = t.pc.dels.count d ∧
      pc'.makes.count d = t.pc.makes.count d)
    (hlisted : ∀ d ∈ g', d ∈ p.shared.global ∨ p.shared.Ready d)
    (hrelies : pc'.Relies p.shared) :
    DispatchInv ⟨{ p.shared with global := g' }, p.threads.set i { t with pc := pc' }⟩ := by
  have hadv : p.shared.Advances { p.shared with global := g' } :=
    ⟨le_rfl, fun _ _ => Service.Advances.rfl⟩
  constructor
  · intro d
    obtain ⟨h₁, h₂, h₃, h₄⟩ :=
      counts_eq_of_frame ht { p.shared with global := g' } (hframe d)
    rw [h₁, h₂, h₃, h₄]
    exact h.sound d
  · exact h.fresh
  · exact h.unique
  · intro d hd
    rcases hlisted d hd with hmem | hready
    · exact h.listed d hmem
    · exact hready
  · apply Pool.forall_set
    · exact fun t' ht' => hadv.relies (h.relies t' ht')
    · exact hadv.relies hrelies

/-! ### The actions -/

/-- The next action of a thread does not fail and keeps the invariant. -/
def Goes (p : Pool Shared Worker) (i : ℕ) (t : Worker) (ok : Bool) : Prop :=
  ∃ r, t.pc.act t.weight ok p.shared = some r ∧
    DispatchInv ⟨r.1, p.threads.set i { t with pc := r.2 }⟩

variable {ok kept : Bool} {q nq n j w handle : ℕ} {msg : SkynetMessage} {k : After}

theorem tokens_le (ht : p.threads[i]? = some t) (c : ℕ) :
    p.shared.global.count c + t.pc.tokens.count c ≤ tokensOf p c := by
  have := Pool.le_total (List.mem_of_getElem? ht) fun t => t.pc.tokens.count c
  rw [tokensOf]
  omega

theorem refs_le (ht : p.threads[i]? = some t) (c : ℕ) : t.pc.refs.count c ≤ refsOf p c :=
  Pool.le_total (List.mem_of_getElem? ht) fun t => t.pc.refs.count c

theorem dels_le (ht : p.threads[i]? = some t) (c : ℕ) : t.pc.dels.count c ≤ delsOf p c :=
  Pool.le_total (List.mem_of_getElem? ht) fun t => t.pc.dels.count c

/-- A service that a thread holds is not freed. -/
theorem ref_pos (h : DispatchInv p) (ht : p.threads[i]? = some t) (hc : c ∈ t.pc.refs) :
    0 < (p.shared.services c).ref := by
  have hle := refs_le ht c
  have hpos := List.count_pos_iff.mpr hc
  have := (h.sound c).ref_eq
  omega

/-- A queue in the hands of a thread exists, and is not in the list. -/
theorem held (h : DispatchInv p) (ht : p.threads[i]? = some t) (hq : q ∈ t.pc.tokens) :
    q ∉ p.shared.global ∧ tokensOf p q = 1 ∧ ∃ mq, (p.shared.services q).queue = some mq ∧
      (mq.inGlobal = true ∨ mq.release = true) := by
  have hle := tokens_le ht q
  have hpos := List.count_pos_iff.mpr hq
  have hsound := h.sound q
  obtain ⟨m, hm⟩ : ∃ m, tokensOf p q = m + 1 := ⟨tokensOf p q - 1, by omega⟩
  rw [hm] at hsound
  obtain ⟨hzero, hqueue⟩ := hsound.exists_queue_of_token
  refine ⟨?_, by omega, hqueue⟩
  rw [← List.count_eq_zero]
  omega

/-- A service whose queue a thread is to create. -/
theorem made (h : DispatchInv p) {t : Worker} (ht : t ∈ p.threads) (hc : c ∈ t.pc.makes) :
    makesOf p c = 1 ∧ tokensOf p c = 0 ∧ (p.shared.services c).alive = true ∧
      (p.shared.services c).queue = none := by
  have hle : t.pc.makes.count c ≤ makesOf p c := Pool.le_total ht fun t => t.pc.makes.count c
  have hpos := List.count_pos_iff.mpr hc
  have hsound := h.sound c
  obtain ⟨m, hm⟩ : ∃ m, makesOf p c = m + 1 := ⟨makesOf p c - 1, by omega⟩
  rw [hm] at hsound
  obtain ⟨hzero, htokens, halive, hqueue⟩ := hsound.unmade
  exact ⟨by omega, htokens, halive, hqueue⟩

theorem relies_of (h : DispatchInv p) (ht : p.threads[i]? = some t) : t.pc.Relies p.shared :=
  h.relies t (List.mem_of_getElem? ht)

/-- A queue without a flag that is not marked is nowhere. -/
theorem not_listed (h : DispatchInv p) {mq : MessageQueue}
    (hqueue : (p.shared.services c).queue = some mq) (hflag : mq.inGlobal = false)
    (hrelease : mq.release = false) : c ∉ p.shared.global := by
  have htokens := (h.sound c).tokens_eq
  simp only [Service.placed, hqueue, hflag, hrelease, Bool.false_eq_true, or_self, if_false]
    at htokens
  rw [← List.count_eq_zero]
  rw [tokensOf] at htokens
  omega

/-- The pop of the list of queues. -/
theorem act_working_none (h : DispatchInv p) (ht : p.threads[i]? = some t)
    (hpc : t.pc = .working none) : Goes p i t ok := by
  rw [Goes, hpc]
  cases hglobal : p.shared.global with
  | nil =>
    refine ⟨(p.shared, .working none), by simp [Pc.act, hglobal], ?_⟩
    exact h.update_list ht p.shared.global (fun d => by simp [hpc]) (fun d hd => .inl hd)
      trivial
  | cons q global =>
    -- the token of the queue goes from the list to the thread
    refine ⟨({ p.shared with global := global }, .working (some q)), by simp [Pc.act, hglobal], ?_⟩
    apply h.update_list ht _
    · intro d
      simp [hpc, hglobal, Pc.tokens, Pc.refs, Pc.dels, Pc.makes, List.count_cons]
    · intro d hd
      exact .inl (by simp [hglobal, hd])
    · exact h.listed q (by simp [hglobal])

/-- `skynet_handle_grab` by a worker with a queue. -/
theorem act_working_some (h : DispatchInv p) (ht : p.threads[i]? = some t)
    (hpc : t.pc = .working (some q)) : Goes p i t ok := by
  obtain ⟨-, -, mq, hqueue, -⟩ := h.held ht (q := q) (by simp [hpc, Pc.tokens])
  have hlt := h.lt_next_of_queue (c := q) (by simp [hqueue])
  have hready := h.relies_of ht
  rw [hpc] at hready
  rw [Goes, hpc]
  cases hfind : p.shared.find (p.shared.services q).handle with
  | some c =>
    -- the handle is that of the service of the queue, of which the queue is left
    obtain rfl := h.find_eq hlt (Service.not_spent_of_queue hqueue) hfind
    obtain ⟨hreg, -⟩ := Shared.find_some hfind
    refine ⟨(p.shared.set c { p.shared.services c with ref := (p.shared.services c).ref + 1 },
      .looping c 0 1), by simp [Pc.act, hqueue, hfind], ?_⟩
    apply h.update_set ht c p.shared.global hlt
    · intro T R D M hT hR hD hM
      simp [hpc, Pc.tokens, Pc.refs, Pc.dels, Pc.makes] at hT hR hD hM
      subst hT hR hD hM
      exact (h.sound c).grab hreg
    · intro d hd
      simp [hpc, Pc.tokens, Pc.refs, Pc.dels, Pc.makes, hd.symm]
    · exact ⟨rfl, id, id, id, id, id⟩
    · exact fun d hd => .inl hd
    · refine ⟨hlt, ?_⟩
      simpa [Shared.set] using hready.2 hreg
  | none =>
    -- the handle has been retired: the worker has only the queue
    refine ⟨(p.shared, .absent q (.work none)), by simp [Pc.act, hqueue, hfind], ?_⟩
    apply h.update_list ht p.shared.global
    · intro d
      simp [hpc, Pc.tokens, Pc.refs, Pc.dels, Pc.makes, After.tokens]
    · exact fun d hd => .inl hd
    · exact ⟨hready, .inl rfl⟩

/-- `skynet_mq_pop` by a worker. -/
theorem act_looping (h : DispatchInv p) (ht : p.threads[i]? = some t)
    (hpc : t.pc = .looping q j n) : Goes p i t ok := by
  have href : 0 < (p.shared.services q).ref := h.ref_pos ht (by simp [hpc, Pc.refs])
  obtain ⟨-, htoken, mq, hqueue, -⟩ := h.held ht (q := q) (by simp [hpc, Pc.tokens])
  have hlt := h.lt_next_of_queue (c := q) (by simp [hqueue])
  have hbegun := h.relies_of ht
  have hsound := h.sound q
  rw [hpc] at hbegun
  rw [Goes, hpc]
  rcases mq.pop_spec with ⟨msg, mq', hpop, hlist, -, hrelease, hflag⟩ |
    ⟨mq', hpop, hnil, hnil', hrelease, hflag⟩
  · -- a message for the callback
    obtain ⟨htokens, hrefs, hdels, hmakes, hrelies⟩ := afterPop_holds t.weight q j n msg
    have hadv : (p.shared.services q).Advances { p.shared.services q with
        queue := some mq', taken := (p.shared.services q).taken ++ [msg] } :=
      Service.advances_of_queue hqueue _ _ id _ _ _
    refine ⟨(p.shared.set q { p.shared.services q with
        queue := some mq', taken := (p.shared.services q).taken ++ [msg] },
        afterPop t.weight q j n msg), by simp [Pc.act, hqueue, hpop], ?_⟩
    apply h.update_set ht q p.shared.global hlt
    · intro T R D M hT hR hD hM
      rw [htokens] at hT
      rw [hrefs] at hR
      rw [hdels] at hD
      rw [hmakes] at hM
      simp [hpc, Pc.tokens, Pc.refs, Pc.dels, Pc.makes] at hT hR hD hM
      subst hT hR hD hM
      exact hsound.take href hqueue hlist hrelease hflag
    · intro d hd
      rw [htokens, hrefs, hdels, hmakes]
      simp [hpc, Pc.tokens, Pc.refs, Pc.dels, Pc.makes]
    · exact hadv
    · exact fun d hd => .inl hd
    · apply hrelies
      exact (advances_set hadv _).begun hbegun
  · -- the queue is empty
    refine ⟨(p.shared.set q { p.shared.services q with queue := some mq' },
      .releasing q (.work none)), by simp [Pc.act, hqueue, hpop], ?_⟩
    apply h.update_set ht q p.shared.global hlt
    · intro T R D M hT hR hD hM
      simp [hpc, Pc.tokens, Pc.refs, Pc.dels, Pc.makes, After.tokens] at hT hR hD hM
      -- the worker gives the token up, as the flag is taken away
      have htok : tokensOf p q = T + 1 := by omega
      rw [htok] at hsound
      subst hR hD hM
      exact hsound.yield href hqueue (hnil'.trans hnil.symm) hnil hrelease hflag hbegun.2
    · intro d hd
      simp [hpc, Pc.tokens, Pc.refs, Pc.dels, Pc.makes, After.tokens, hd.symm]
    · exact Service.advances_of_queue hqueue _ _ id _ _ _
    · exact fun d hd => .inl hd
    · trivial

/-- `skynet_mq_length` -/
theorem act_measuring (h : DispatchInv p) (ht : p.threads[i]? = some t)
    (hpc : t.pc = .measuring q msg w) : Goes p i t ok := by
  obtain ⟨-, -, mq, hqueue, -⟩ := h.held ht (q := q) (by simp [hpc, Pc.tokens])
  have hbegun := h.relies_of ht
  rw [hpc] at hbegun
  rw [Goes, hpc]
  refine ⟨(p.shared, .calling q 0 (mq.length >>> w) msg), by simp [Pc.act, hqueue], ?_⟩
  apply h.update_list ht p.shared.global
  · intro d
    simp [hpc, Pc.tokens, Pc.refs, Pc.dels, Pc.makes]
  · exact fun d hd => .inl hd
  · exact hbegun

/-- The callback. -/
theorem act_calling (h : DispatchInv p) (ht : p.threads[i]? = some t)
    (hpc : t.pc = .calling q j n msg) : Goes p i t ok := by
  have halive := (h.sound q).alive_of_ref (h.ref_pos ht (by simp [hpc, Pc.refs]))
  obtain ⟨-, -, mq, hqueue, -⟩ := h.held ht (q := q) (by simp [hpc, Pc.tokens])
  have hbegun := h.relies_of ht
  rw [hpc] at hbegun
  obtain ⟨htokens, hrefs, hdels, hmakes⟩ := nextRound_holds q j n
  have hadv : (p.shared.services q).Advances { p.shared.services q with
      queue := some mq.takeOverload } := Service.advances_of_queue hqueue _ _ id _ _ _
  rw [Goes, hpc]
  refine ⟨(p.shared.set q { p.shared.services q with queue := some mq.takeOverload },
    nextRound q j n), by simp [Pc.act, hqueue, hbegun.2, halive], ?_⟩
  apply h.update_set ht q p.shared.global hbegun.1
  · intro T R D M hT hR hD hM
    rw [htokens] at hT
    rw [hrefs] at hR
    rw [hdels] at hD
    rw [hmakes] at hM
    simp [hpc, Pc.tokens, Pc.refs, Pc.dels, Pc.makes] at hT hR hD hM
    subst hT hR hD hM
    exact (h.sound q).takeOverload hqueue
  · intro d hd
    rw [htokens, hrefs, hdels, hmakes]
    simp [hpc, Pc.tokens, Pc.refs, Pc.dels, Pc.makes]
  · exact hadv
  · exact fun d hd => .inl hd
  · -- the next round, or the turn behind the last one
    have hbegun' := (advances_set hadv p.shared.global).begun hbegun
    rw [nextRound]
    split_ifs <;> exact hbegun'

/-- The pop of the list of queues behind the loop. -/
theorem act_turning (h : DispatchInv p) (ht : p.threads[i]? = some t)
    (hpc : t.pc = .turning q) : Goes p i t ok := by
  have halive := (h.sound q).alive_of_ref (h.ref_pos ht (by simp [hpc, Pc.refs]))
  have hbegun := h.relies_of ht
  rw [hpc] at hbegun
  rw [Goes, hpc]
  cases hglobal : p.shared.global with
  | nil =>
    -- no other queue is in the list, and the worker keeps this one
    refine ⟨(p.shared, .releasing q (.work (some q))), by simp [Pc.act, hglobal, halive], ?_⟩
    apply h.update_list ht p.shared.global
    · intro d
      simp [hpc, Pc.tokens, Pc.refs, Pc.dels, Pc.makes, After.tokens]
    · exact fun d hd => .inl hd
    · exact Shared.Begun.ready hbegun
  | cons nq global =>
    refine ⟨({ p.shared with global := global }, .swapping q nq),
      by simp [Pc.act, hglobal, halive], ?_⟩
    apply h.update_list ht _
    · intro d
      simp [hpc, hglobal, Pc.tokens, Pc.refs, Pc.dels, Pc.makes, List.count_cons]
      omega
    · intro d hd
      exact .inl (by simp [hglobal, hd])
    · exact ⟨hbegun, h.listed nq (by simp [hglobal])⟩

/-- The push of the queue, when there is another one. -/
theorem act_swapping (h : DispatchInv p) (ht : p.threads[i]? = some t)
    (hpc : t.pc = .swapping q nq) : Goes p i t ok := by
  obtain ⟨hout, -⟩ := h.held ht (q := q) (by simp [hpc, Pc.tokens])
  have hrelies := h.relies_of ht
  rw [hpc] at hrelies
  rw [Goes, hpc]
  refine ⟨({ p.shared with global := p.shared.global ++ [q] }, .releasing q (.work (some nq))),
    by simp [Pc.act, Shared.globalPush, hout], ?_⟩
  apply h.update_list ht _
  · intro d
    simp [hpc, Pc.tokens, Pc.refs, Pc.dels, Pc.makes, After.tokens, List.count_cons]
    omega
  · intro d hd
    -- the queue was in the hands of the thread, so it is in the list once
    rcases List.mem_append.mp hd with hmem | hmem
    · exact .inl hmem
    · obtain rfl := List.mem_singleton.mp hmem
      exact .inr hrelies.1.ready
  · exact hrelies.2

/-- `skynet_context_release` -/
theorem act_releasing (h : DispatchInv p) (ht : p.threads[i]? = some t)
    (hpc : t.pc = .releasing c k) : Goes p i t ok := by
  have href : 0 < (p.shared.services c).ref := h.ref_pos ht (by simp [hpc, Pc.refs])
  have hsound := h.sound c
  have halive := hsound.alive_of_ref href
  have hlt := h.lt_next_of_alive halive
  have hrelies := h.relies_of ht
  have hcount := refs_le ht c
  rw [hpc] at hrelies hcount
  rw [Goes, hpc]
  have hadv : (p.shared.services c).Advances { p.shared.services c with
      ref := (p.shared.services c).ref - 1 } := ⟨rfl, id, id, id, id, id⟩
  -- the last reference has the context deleted
  generalize hpc' : (if (p.shared.services c).ref = 1 then Pc.deleting c k
    else k.resume false) = pc'
  obtain ⟨htokens', hrefs', hdels', hmakes'⟩ : pc'.tokens = k.tokens ∧ pc'.refs = [] ∧
      (pc'.dels = if (p.shared.services c).ref = 1 then [c] else []) ∧ pc'.makes = [] := by
    rw [← hpc']
    split_ifs
    · exact ⟨rfl, rfl, rfl, rfl⟩
    · simp
  refine ⟨(p.shared.set c { p.shared.services c with ref := (p.shared.services c).ref - 1 }, pc'),
    by simp [Pc.act, href.ne', halive, hpc'], ?_⟩
  apply h.update_set ht c p.shared.global hlt
  · intro T R D M hT hR hD hM
    rw [htokens'] at hT
    rw [hrefs'] at hR
    rw [hdels'] at hD
    rw [hmakes'] at hM
    simp [hpc, Pc.tokens, Pc.refs, Pc.dels, Pc.makes] at hT hR hD hM
    have hdels : D = delsOf p c + if (p.shared.services c).ref = 1 then 1 else 0 := by
      split_ifs at hD ⊢ <;> simpa using hD
    rw [← hR] at hsound
    rw [hdels, hT, hM]
    exact hsound.release
  · intro d hd
    rw [htokens', hrefs', hdels', hmakes']
    split_ifs <;> simp [hpc, Pc.tokens, Pc.refs, Pc.dels, Pc.makes, hd.symm]
  · exact hadv
  · exact fun d hd => .inl hd
  · have hadv' := advances_set hadv p.shared.global
    rw [← hpc']
    split_ifs with hlast
    · -- nobody else holds the service, so its handle is not registered
      have hreg := hsound.ref_eq
      simp only [Pc.refs, List.count_singleton_self] at hcount
      refine ⟨hadv'.out ⟨hlt, ?_⟩, hadv'.after hrelies⟩
      by_contra hreg'
      rw [if_pos (by simpa using hreg')] at hreg
      omega
    · exact After.relies_resume (hadv'.after hrelies)

/-- `delete_context` -/
theorem act_deleting (h : DispatchInv p) (ht : p.threads[i]? = some t)
    (hpc : t.pc = .deleting c k) : Goes p i t ok := by
  have hsound := h.sound c
  have hcount := dels_le ht c
  have hrelies := h.relies_of ht
  rw [hpc] at hcount hrelies
  simp only [Pc.dels, List.count_singleton_self] at hcount
  -- this thread is the one that deletes the service
  obtain ⟨m, hm⟩ : ∃ m, delsOf p c = m + 1 := ⟨delsOf p c - 1, by omega⟩
  rw [hm] at hsound
  obtain ⟨-, halive, mq, hqueue, hrelease⟩ := hsound.deletes
  have hlt := h.lt_next_of_alive halive
  have hsound' := hsound.delete hqueue
  have hadv : (p.shared.services c).Advances { p.shared.services c with
      alive := false, queue := some mq.markRelease } :=
    Service.advances_of_queue hqueue _ _ (fun _ => rfl) _ _ _
  have hadv' (g' : List ℕ) := advances_set hadv g'
  rw [Goes, hpc]
  cases hflag : mq.inGlobal with
  -- the queue is in the list or with a worker, and whoever pops it next sees the mark
  | true =>
    rw [hflag] at hsound'
    refine ⟨(p.shared.set c { p.shared.services c with
      alive := false, queue := some mq.markRelease }, k.resume true),
      by simp [Pc.act, Service.inbox_eq halive, hqueue, hrelease, hflag], ?_⟩
    apply h.update_set ht c p.shared.global hlt
    · intro T R D M hT hR hD hM
      rw [After.tokens_resume] at hT
      rw [After.refs_resume] at hR
      rw [After.dels_resume] at hD
      rw [After.makes_resume] at hM
      simp [hpc, Pc.tokens, Pc.refs, Pc.dels, Pc.makes, hm] at hT hR hD hM
      subst hT hR hD hM
      exact hsound'
    · intro d hd
      rw [After.tokens_resume, After.refs_resume, After.dels_resume, After.makes_resume]
      simp [hpc, Pc.tokens, Pc.refs, Pc.dels, Pc.makes, hd.symm]
    · exact hadv
    · exact fun d hd => .inl hd
    · exact After.relies_resume_of_out ((hadv' _).after hrelies.2) ((hadv' _).out hrelies.1)
  | false =>
    rw [hflag] at hsound'
    -- nobody has the queue, so it can be linked
    have hout := h.not_listed hqueue hflag hrelease
    refine ⟨({ p.shared.set c { p.shared.services c with
        alive := false, queue := some mq.markRelease } with
      global := p.shared.global ++ [c] }, k.resume true),
      by simp [Pc.act, Service.inbox_eq halive, hqueue, hrelease, hflag, Shared.globalPush,
        Shared.set, hout], ?_⟩
    apply h.update_set ht c _ hlt
    · intro T R D M hT hR hD hM
      rw [After.tokens_resume] at hT
      rw [After.refs_resume] at hR
      rw [After.dels_resume] at hD
      rw [After.makes_resume] at hM
      simp [hpc, Pc.tokens, Pc.refs, Pc.dels, Pc.makes, hm] at hT hR hD hM
      obtain rfl : T = tokensOf p c + 1 := by omega
      subst hR hD hM
      exact hsound'
    · intro d hd
      rw [After.tokens_resume, After.refs_resume, After.dels_resume, After.makes_resume]
      simp [hpc, Pc.tokens, Pc.refs, Pc.dels, Pc.makes, hd.symm]
    · exact hadv
    · intro d hd
      rcases List.mem_append.mp hd with hmem | hmem
      · exact .inl hmem
      · obtain rfl := List.mem_singleton.mp hmem
        exact .inr ((hadv' _).out hrelies.1).ready
    · exact After.relies_resume_of_out ((hadv' _).after hrelies.2) ((hadv' _).out hrelies.1)

/-- `skynet_mq_release` -/
theorem act_absent (h : DispatchInv p) (ht : p.threads[i]? = some t)
    (hpc : t.pc = .absent q k) : Goes p i t ok := by
  obtain ⟨hout, -, mq, hqueue, -⟩ := h.held ht (q := q) (by simp [hpc, Pc.tokens])
  have hrelies := h.relies_of ht
  rw [hpc] at hrelies
  rw [Goes, hpc]
  cases hrelease : mq.release with
  -- the mark is set, and the queue is dropped
  | true =>
    refine ⟨(p.shared, .dropping q k), by simp [Pc.act, hqueue, hrelease], ?_⟩
    apply h.update_list ht p.shared.global
    · intro d
      simp [hpc, Pc.tokens, Pc.refs, Pc.dels, Pc.makes]
    · exact fun d hd => .inl hd
    · refine ⟨⟨hrelies.1.1, ?_⟩, hrelies.2⟩
      have hmarked := (h.sound q).marked mq hqueue
      simpa [hrelease] using hmarked
  -- the service is not deleted yet, and the queue goes back to the list
  | false =>
    refine ⟨({ p.shared with global := p.shared.global ++ [q] }, k.resume true),
      by simp [Pc.act, hqueue, hrelease, Shared.globalPush, hout], ?_⟩
    apply h.update_list ht _
    · intro d
      rw [After.tokens_resume, After.refs_resume, After.dels_resume, After.makes_resume]
      simp [hpc, Pc.tokens, Pc.refs, Pc.dels, Pc.makes, List.count_cons]
      omega
    · intro d hd
      rcases List.mem_append.mp hd with hmem | hmem
      · exact .inl hmem
      · obtain rfl := List.mem_singleton.mp hmem
        exact .inr hrelies.1
    · exact After.relies_resume_of_rest hrelies.2

/-- `_drop_queue` -/
theorem act_dropping (h : DispatchInv p) (ht : p.threads[i]? = some t)
    (hpc : t.pc = .dropping q k) : Goes p i t ok := by
  obtain ⟨hout, htoken, mq, hqueue, -⟩ := h.held ht (q := q) (by simp [hpc, Pc.tokens])
  have hsound := h.sound q
  have hrelies := h.relies_of ht
  rw [hpc] at hrelies
  obtain ⟨⟨hlt, hended⟩, hrest⟩ := hrelies
  rw [Goes, hpc]
  rcases mq.pop_spec with ⟨msg, mq', hpop, hlist, -, hrelease, hflag⟩ |
    ⟨mq', hpop, hnil, hnil', hrelease, hflag⟩
  · -- the next message is dropped
    have hadv : (p.shared.services q).Advances { p.shared.services q with
        queue := some mq', dropped := (p.shared.services q).dropped ++ [msg] } :=
      Service.advances_of_queue hqueue _ _ id _ _ _
    refine ⟨(p.shared.set q { p.shared.services q with
        queue := some mq', dropped := (p.shared.services q).dropped ++ [msg] }, .dropping q k),
      by simp [Pc.act, hqueue, hpop], ?_⟩
    apply h.update_set ht q p.shared.global hlt
    · intro T R D M hT hR hD hM
      simp [hpc, Pc.tokens, Pc.refs, Pc.dels, Pc.makes] at hT hR hD hM
      subst hT hR hD hM
      exact hsound.drop hqueue hended hlist hrelease hflag
    · intro d hd
      simp [hpc, Pc.tokens, Pc.refs, Pc.dels, Pc.makes]
    · exact hadv
    · exact fun d hd => .inl hd
    · exact ⟨(advances_set hadv _).ended ⟨hlt, hended⟩, hrest⟩
  · -- the queue is freed
    refine ⟨(p.shared.set q { p.shared.services q with queue := none }, k.resume true),
      by simp [Pc.act, hqueue, hpop, hout], ?_⟩
    apply h.update_set ht q p.shared.global hlt
    · intro T R D M hT hR hD hM
      rw [After.tokens_resume] at hT
      rw [After.refs_resume] at hR
      rw [After.dels_resume] at hD
      rw [After.makes_resume] at hM
      simp [hpc, Pc.tokens, Pc.refs, Pc.dels, Pc.makes] at hT hR hD hM
      have htok : tokensOf p q = T + 1 := by omega
      rw [htok] at hsound
      subst hR hD hM
      exact hsound.free hqueue hended hnil
    · intro d hd
      rw [After.tokens_resume, After.refs_resume, After.dels_resume, After.makes_resume]
      simp [hpc, Pc.tokens, Pc.refs, Pc.dels, Pc.makes, hd.symm]
    · exact Service.advances_of_queue hqueue _ _ id _ _ _
    · exact fun d hd => .inl hd
    · exact After.relies_resume_of_rest hrest

/-- `skynet_handle_grab` by a sender. -/
theorem act_sending (h : DispatchInv p) (ht : p.threads[i]? = some t)
    (hpc : t.pc = .sending handle msg) : Goes p i t ok := by
  rw [Goes, hpc]
  cases hfind : p.shared.find handle with
  | some c =>
    obtain ⟨hreg, hlt, -⟩ := Shared.find_some hfind
    refine ⟨(p.shared.set c { p.shared.services c with ref := (p.shared.services c).ref + 1 },
      .pushing c msg), by simp [Pc.act, hfind], ?_⟩
    apply h.update_set ht c p.shared.global hlt
    · intro T R D M hT hR hD hM
      simp [hpc, Pc.tokens, Pc.refs, Pc.dels, Pc.makes] at hT hR hD hM
      subst hT hR hD hM
      exact (h.sound c).grab hreg
    · intro d hd
      simp [hpc, Pc.tokens, Pc.refs, Pc.dels, Pc.makes, hd.symm]
    · exact ⟨rfl, id, id, id, id, id⟩
    · exact fun d hd => .inl hd
    · trivial
  | none =>
    -- the message has no receiver any more
    refine ⟨(p.shared, .done), by simp [Pc.act, hfind], ?_⟩
    apply h.update_list ht p.shared.global
    · intro d
      simp [hpc, Pc.tokens, Pc.refs, Pc.dels, Pc.makes]
    · exact fun d hd => .inl hd
    · trivial

/-- `skynet_mq_push`, when the queue has been created. -/
theorem act_pushing (h : DispatchInv p) (ht : p.threads[i]? = some t)
    (hpc : t.pc = .pushing c msg) (hmade : ∀ t' ∈ p.threads, c ∉ t'.pc.makes) :
    Goes p i t ok := by
  have href : 0 < (p.shared.services c).ref := h.ref_pos ht (by simp [hpc, Pc.refs])
  have hsound := h.sound c
  have halive := hsound.alive_of_ref href
  have hzero : makesOf p c = 0 := by
    apply Pool.total_eq_zero
    intro t' ht'
    exact List.count_eq_zero_of_not_mem (hmade t' ht')
  obtain ⟨mq, hqueue, hkept⟩ : ∃ mq, (p.shared.services c).queue = some mq ∧
      mq.release = false := by
    rw [hzero] at hsound
    exact hsound.exists_queue halive
  have hlt := h.lt_next_of_alive halive
  have hsound' := hsound.push href hqueue msg
  have hadv : (p.shared.services c).Advances { p.shared.services c with
      queue := some (mq.push msg), pushed := (p.shared.services c).pushed ++ [msg] } :=
    Service.advances_of_queue hqueue _ _ id _ _ _
  rw [Goes, hpc]
  cases hflag : mq.inGlobal with
  -- the flag says that somebody has the queue
  | true =>
    rw [hflag] at hsound'
    refine ⟨(p.shared.set c { p.shared.services c with
        queue := some (mq.push msg), pushed := (p.shared.services c).pushed ++ [msg] },
      .releasing c .done), by simp [Pc.act, Service.inbox_eq halive, hqueue, hflag], ?_⟩
    apply h.update_set ht c p.shared.global hlt
    · intro T R D M hT hR hD hM
      simp [hpc, Pc.tokens, Pc.refs, Pc.dels, Pc.makes, After.tokens] at hT hR hD hM
      subst hT hR hD hM
      exact hsound'
    · intro d hd
      simp [hpc, Pc.tokens, Pc.refs, Pc.dels, Pc.makes, After.tokens]
    · exact hadv
    · exact fun d hd => .inl hd
    · trivial
  | false =>
    rw [hflag] at hsound'
    -- nobody has it, so there is no token that the list could have
    have hout := h.not_listed hqueue hflag hkept
    have hready : p.shared.Ready c := ⟨hlt, fun _ => (hsound.idle mq hqueue hflag).2⟩
    refine ⟨({ p.shared.set c { p.shared.services c with
        queue := some (mq.push msg), pushed := (p.shared.services c).pushed ++ [msg] } with
      global := p.shared.global ++ [c] }, .releasing c .done),
      by simp [Pc.act, Service.inbox_eq halive, hqueue, hflag, Shared.globalPush, Shared.set,
        hout], ?_⟩
    apply h.update_set ht c _ hlt
    · intro T R D M hT hR hD hM
      simp [hpc, Pc.tokens, Pc.refs, Pc.dels, Pc.makes, After.tokens] at hT hR hD hM
      obtain rfl : T = tokensOf p c + 1 := by omega
      subst hR hD hM
      exact hsound'
    · intro d hd
      simp [hpc, Pc.tokens, Pc.refs, Pc.dels, Pc.makes, After.tokens, hd.symm]
    · exact hadv
    · intro d hd
      rcases List.mem_append.mp hd with hmem | hmem
      · exact .inl hmem
      · obtain rfl := List.mem_singleton.mp hmem
        exact .inr ((advances_set hadv _).ready hready)
    · trivial

/-- `skynet_handle_register` -/
theorem act_launching (h : DispatchInv p) (ht : p.threads[i]? = some t)
    (hpc : t.pc = .launching handle) (hunused : p.shared.Unused handle) : Goes p i t ok := by
  have hfresh := h.fresh p.shared.next le_rfl
  have hsound := h.sound p.shared.next
  have htokens := hsound.tokens_eq
  have href := hsound.ref_eq
  have hdels := hsound.dels_eq
  simp only [hfresh, Service.placed, Service.gone, Bool.false_eq_true, if_false, if_true]
    at htokens href hdels
  have hcount := tokens_le ht p.shared.next
  rw [Goes, hpc]
  refine ⟨({ p.shared.set p.shared.next
      { handle := handle, alive := true, ref := 2, registered := true }
    with next := p.shared.next + 1 }, .naming p.shared.next), rfl, ?_⟩
  refine h.update ht p.shared.next ?_ ?_ ?_ ?_ ?_ ?_ ?_ ?_
  · intro T R D M hT hR hD hM
    simp [hpc, Pc.tokens, Pc.refs, Pc.dels, Pc.makes, Shared.set] at hT hR hD hM
    -- two references, one of them that of this thread
    obtain ⟨rfl, rfl, rfl, rfl⟩ : T = 0 ∧ R = 0 ∧ D = 0 ∧ M = 1 := by omega
    simpa [Shared.set] using Sound.register handle
  · intro d hd
    simp [Shared.set, hd]
  · intro d hd
    simp [hpc, Pc.tokens, Pc.refs, Pc.dels, Pc.makes, Shared.set, hd.symm]
  · exact fun d => Nat.lt_succ_iff_lt_or_eq
  · intro d hd hne heq
    simp only [Shared.set, Function.update_self] at heq
    exact .inr (hunused d hd heq.symm)
  · refine ⟨Nat.le_succ _, ?_⟩
    intro d hd
    simpa [Shared.set, hd.ne] using Service.Advances.rfl
  · exact fun d hd => .inl hd
  · trivial

/-- The store of `ctx->handle`. -/
theorem act_naming (h : DispatchInv p) (ht : p.threads[i]? = some t)
    (hpc : t.pc = .naming c) : Goes p i t ok := by
  obtain ⟨-, -, halive, -⟩ := h.made (c := c) (List.mem_of_getElem? ht) (by simp [hpc, Pc.makes])
  have hlt := h.lt_next_of_alive halive
  rw [Goes, hpc]
  refine ⟨(p.shared.set c { p.shared.services c with stored := true }, .making c),
    by simp [Pc.act, halive], ?_⟩
  apply h.update_set ht c p.shared.global hlt
  · intro T R D M hT hR hD hM
    simp [hpc, Pc.tokens, Pc.refs, Pc.dels, Pc.makes] at hT hR hD hM
    subst hT hR hD hM
    exact (h.sound c).name
  · intro d hd
    simp [hpc, Pc.tokens, Pc.refs, Pc.dels, Pc.makes]
  · exact ⟨rfl, fun _ => rfl, id, id, id, id⟩
  · exact fun d hd => .inl hd
  · refine ⟨(p.shared.services c).handle, hlt, ?_⟩
    simp [Shared.set]

/-- `skynet_mq_create`, and the store of `ctx->queue`. -/
theorem act_making (h : DispatchInv p) (ht : p.threads[i]? = some t)
    (hpc : t.pc = .making c) : Goes p i t ok := by
  obtain ⟨hone, -, halive, -⟩ := h.made (c := c) (List.mem_of_getElem? ht) (by simp [hpc, Pc.makes])
  obtain ⟨handle, hnamed⟩ := hpc ▸ h.relies_of ht
  have hsound := h.sound c
  have hadv : (p.shared.services c).Advances { p.shared.services c with
      queue := some .create } := by
    refine ⟨rfl, id, id, id, id, ?_⟩
    rw [Service.not_spent_of_alive halive]
    intro hfalse
    cases hfalse
  rw [hone] at hsound
  rw [Goes, hpc]
  refine ⟨(p.shared.set c { p.shared.services c with queue := some .create }, .creating c),
    by simp [Pc.act, halive], ?_⟩
  apply h.update_set ht c p.shared.global hnamed.1
  · intro T R D M hT hR hD hM
    simp [hpc, Pc.tokens, Pc.refs, Pc.dels, Pc.makes, hone] at hT hR hD hM
    obtain ⟨rfl, rfl⟩ : T = tokensOf p c + 1 ∧ M = 0 := by omega
    subst hR hD
    exact hsound.make
  · intro d hd
    simp [hpc, Pc.tokens, Pc.refs, Pc.dels, Pc.makes, hd.symm]
  · exact hadv
  · exact fun d hd => .inl hd
  · exact ⟨handle, (advances_set hadv _).named hnamed⟩

/-- The end of the `init` function. -/
theorem act_creating (h : DispatchInv p) (ht : p.threads[i]? = some t)
    (hpc : t.pc = .creating c) : Goes p i t ok := by
  have halive := (h.sound c).alive_of_ref (h.ref_pos ht (by simp [hpc, Pc.refs]))
  obtain ⟨handle, hlt, hstored, -⟩ := hpc ▸ h.relies_of ht
  rw [Goes, hpc]
  refine ⟨(p.shared, .releasing c (if ok then .launch c
    else .fail c (p.shared.services c).handle)), by simp [Pc.act, halive], ?_⟩
  apply h.update_list ht p.shared.global
  · intro d
    cases ok <;> simp [hpc, Pc.tokens, Pc.refs, Pc.dels, Pc.makes, After.tokens]
  · exact fun d hd => .inl hd
  · cases ok with
    | true => exact rfl
    | false => exact ⟨hlt, hstored, rfl⟩

/-- `ctx->init = true`, of a service that is still there. -/
theorem act_initialising (h : DispatchInv p) (ht : p.threads[i]? = some t)
    (hpc : t.pc = .initialising c) (halive : (p.shared.services c).alive = true) :
    Goes p i t ok := by
  have hlt := h.lt_next_of_alive halive
  rw [Goes, hpc]
  refine ⟨(p.shared.set c { p.shared.services c with init := true }, .publishing c true),
    by simp [Pc.act, halive], ?_⟩
  apply h.update_set ht c p.shared.global hlt
  · intro T R D M hT hR hD hM
    simp [hpc, Pc.tokens, Pc.refs, Pc.dels, Pc.makes] at hT hR hD hM
    subst hT hR hD hM
    exact (h.sound c).initialise
  · intro d hd
    simp [hpc, Pc.tokens, Pc.refs, Pc.dels, Pc.makes]
  · exact ⟨rfl, id, fun _ => rfl, id, id, id⟩
  · exact fun d hd => .inl hd
  · refine ⟨hlt, fun _ => ?_⟩
    simp [Shared.set]

/-- The push to the list of queues at the end of `skynet_context_new`. -/
theorem act_publishing (h : DispatchInv p) (ht : p.threads[i]? = some t)
    (hpc : t.pc = .publishing c kept) : Goes p i t ok := by
  obtain ⟨hout, -⟩ := h.held ht (q := c) (by simp [hpc, Pc.tokens])
  have hready := h.relies_of ht
  rw [hpc] at hready
  rw [Goes, hpc]
  refine ⟨({ p.shared with global := p.shared.global ++ [c] },
    if kept then .announcing c else .done), by simp [Pc.act, Shared.globalPush, hout], ?_⟩
  apply h.update_list ht _
  · intro d
    cases kept <;> simp [hpc, Pc.tokens, Pc.refs, Pc.dels, Pc.makes]
  · intro d hd
    rcases List.mem_append.mp hd with hmem | hmem
    · exact .inl hmem
    · obtain rfl := List.mem_singleton.mp hmem
      exact .inr hready
  · cases kept <;> trivial

/-- What `skynet_context_new` and its caller read of a service that is still there. -/
theorem act_reading (h : DispatchInv p) (ht : p.threads[i]? = some t)
    (hpc : t.pc = .announcing c ∨ t.pc = .answering c)
    (halive : (p.shared.services c).alive = true) : Goes p i t ok := by
  have hinv (pc' : Pc) (hnext : pc' = .answering c ∨ pc' = .done) :
      DispatchInv ⟨p.shared, p.threads.set i { t with pc := pc' }⟩ := by
    apply h.update_list ht p.shared.global
    · intro d
      rcases hpc with hpc | hpc <;> rcases hnext with rfl | rfl <;>
        simp [hpc, Pc.tokens, Pc.refs, Pc.dels, Pc.makes]
    · exact fun d hd => .inl hd
    · rcases hnext with rfl | rfl <;> trivial
  rcases hpc with hpc | hpc
  · exact ⟨(p.shared, .answering c), by simp [hpc, Pc.act, halive], hinv _ (.inl rfl)⟩
  · exact ⟨(p.shared, .done), by simp [hpc, Pc.act, halive], hinv _ (.inr rfl)⟩

/-- `skynet_handle_retire` -/
theorem act_retiring (h : DispatchInv p) (ht : p.threads[i]? = some t)
    (hpc : t.pc = .retiring handle k) : Goes p i t ok := by
  have hrelies := h.relies_of ht
  rw [hpc] at hrelies
  rw [Goes, hpc]
  cases hfind : p.shared.find handle with
  | some c =>
    obtain ⟨hreg, hlt, -, hhandle⟩ := Shared.find_some hfind
    refine ⟨(p.shared.set c { p.shared.services c with registered := false }, .releasing c k),
      by simp [Pc.act, hfind], ?_⟩
    apply h.update_set ht c p.shared.global hlt
    · intro T R D M hT hR hD hM
      simp [hpc, Pc.tokens, Pc.refs, Pc.dels, Pc.makes] at hT hR hD hM
      subst hT hR hD hM
      exact (h.sound c).retire hreg
    · intro d hd
      simp [hpc, Pc.tokens, Pc.refs, Pc.dels, Pc.makes, hd.symm]
    · refine ⟨rfl, id, id, ?_, id, id⟩
      intro hfalse
      cases hfalse
    · exact fun d hd => .inl hd
    · -- the thread goes on with nothing, or after a launch that has failed
      rcases hrelies with rfl | ⟨q, rfl, hlt', -, rfl⟩
      · trivial
      · -- the queue is in its hands, so the handle is still that of this service
        obtain ⟨-, -, mq, hqueue, -⟩ := h.held ht (q := q) (by simp [hpc, Pc.tokens, After.tokens])
        obtain rfl := h.find_eq hlt' (Service.not_spent_of_queue hqueue) hfind
        refine ⟨hlt, ?_⟩
        simp [Shared.set]
  | none =>
    refine ⟨(p.shared, k.resume true), by simp [Pc.act, hfind], ?_⟩
    apply h.update_list ht p.shared.global
    · intro d
      rw [After.tokens_resume, After.refs_resume, After.dels_resume, After.makes_resume]
      simp [hpc, Pc.tokens, Pc.refs, Pc.dels, Pc.makes]
    · exact fun d hd => .inl hd
    · rcases hrelies with rfl | ⟨q, rfl, hnamed⟩
      · trivial
      · exact ⟨(Shared.out_of_find_none hfind hnamed).ready, .inr rfl⟩

/-- **Every action.** An action that is not unlucky does not fail, and keeps the invariant if no
handle recurs. -/
theorem goes (h : DispatchInv p) (ht : p.threads[i]? = some t) (ok : Bool)
    (hunused : ∀ handle ∈ t.pc.given, p.shared.Unused handle) (hlucky : ¬ t.pc.Unlucky p) :
    Goes p i t ok := by
  cases hpc : t.pc with
  | working q =>
    cases q with
    | none => exact h.act_working_none ht hpc
    | some q => exact h.act_working_some ht hpc
  | looping q j n => exact h.act_looping ht hpc
  | measuring q msg w => exact h.act_measuring ht hpc
  | calling q j n msg => exact h.act_calling ht hpc
  | turning q => exact h.act_turning ht hpc
  | swapping q nq => exact h.act_swapping ht hpc
  | releasing c k => exact h.act_releasing ht hpc
  | deleting c k => exact h.act_deleting ht hpc
  | absent q k => exact h.act_absent ht hpc
  | dropping q k => exact h.act_dropping ht hpc
  | sending handle msg => exact h.act_sending ht hpc
  | pushing c msg =>
    apply h.act_pushing ht hpc
    intro t' ht' hmem
    apply hlucky
    rw [hpc]
    exact ⟨t', ht', hmem⟩
  | launching handle => exact h.act_launching ht hpc (hunused handle (by rw [hpc]; rfl))
  | naming c => exact h.act_naming ht hpc
  | making c => exact h.act_making ht hpc
  | creating c => exact h.act_creating ht hpc
  | initialising c =>
    rw [hpc] at hlucky
    exact h.act_initialising ht hpc (by simpa [Pc.Unlucky] using hlucky)
  | publishing c kept => exact h.act_publishing ht hpc
  | announcing c =>
    rw [hpc] at hlucky
    exact h.act_reading ht (.inl hpc) (by simpa [Pc.Unlucky] using hlucky)
  | answering c =>
    rw [hpc] at hlucky
    exact h.act_reading ht (.inr hpc) (by simpa [Pc.Unlucky] using hlucky)
  | retiring handle k => exact h.act_retiring ht hpc
  | done =>
    refine ⟨(p.shared, .done), by simp [hpc, Pc.act], ?_⟩
    exact h.update_list ht p.shared.global (fun d => by simp [hpc]) (fun d hd => .inl hd) trivial

/-- An unlucky action fails. -/
theorem fails (h : DispatchInv p) (ok : Bool) (hunlucky : t.pc.Unlucky p) :
    t.pc.act t.weight ok p.shared = none := by
  cases hpc : t.pc with
  | pushing c msg =>
    rw [hpc] at hunlucky
    obtain ⟨t', ht', hmem⟩ := hunlucky
    obtain ⟨-, -, halive, hqueue⟩ := h.made ht' hmem
    simp [Pc.act, Service.inbox_eq halive, hqueue]
  | initialising c | announcing c | answering c =>
    rw [hpc] at hunlucky
    have hgone : (p.shared.services c).alive = false := hunlucky
    simp [Pc.act, hgone]
  | _ =>
    rw [hpc] at hunlucky
    exact hunlucky.elim

/-- A new thread that holds nothing. -/
theorem spawn (h : DispatchInv p) {t : Worker} (htokens : t.pc.tokens = []) (hrefs : t.pc.refs = [])
    (hdels : t.pc.dels = []) (hmakes : t.pc.makes = []) (hrelies : t.pc.Relies p.shared) :
    DispatchInv (p.spawn t) := by
  constructor
  · intro c
    simpa [tokensOf, refsOf, delsOf, makesOf, Pool.spawn, htokens, hrefs, hdels, hmakes]
      using h.sound c
  · exact h.fresh
  · exact h.unique
  · exact h.listed
  · intro t' ht'
    rcases List.mem_append.mp ht' with hmem | hmem
    · exact h.relies t' hmem
    · obtain rfl := List.mem_singleton.mp hmem
      exact hrelies

end DispatchInv

end TestCluster.Skynet
