import Mathlib.Order.Nat

/-!
# Programs with loops

A program that has loops is given a number of rounds, and has not come to its end when they are
used up. It ends with a value if it does so with any number that is large enough.

## Main definitions

* `Semantics.Rounds` — a program that can fail, and may not have come to its end
* `Semantics.Round`, `Semantics.loop` — what a round of a loop does, and the loop
* `Semantics.Ends`, `Semantics.Returns` — a program ends with a value, or may do so

## Main results

* `Ends.bind`, `Returns.bind` — programs one after the other
* `loop_ends` — a loop ends if an invariant is kept and a measure decreases
* `loop_returns` — what a loop returns if an invariant is kept
* `loop_map` — a loop whose last round returns something else
-/

namespace Semantics

variable {ε α β σ : Type}

/-- A program that gets a number of rounds. It returns nothing when they are used up. -/
abbrev Rounds (ε α : Type) := ReaderT ℕ (OptionT (Except ε)) α

/-- What the body of a loop does: another round follows, or the loop is left with a value. -/
inductive Round (σ α : Type)
  | again (s : σ)
  | done (a : α)

/-- The loop with so many rounds, each of which can use those that are left. -/
def loopUpTo (body : σ → Rounds ε (Round σ α)) : ℕ → σ → OptionT (Except ε) α
  | 0, _ => failure
  | n + 1, s => do
    match ← body s n with
    | .again s' => loopUpTo body n s'
    | .done a => pure a

/-- A loop that is left when its body says so. -/
def loop (body : σ → Rounds ε (Round σ α)) (s : σ) : Rounds ε α := fun n => loopUpTo body n s

/-- The program ends with the value, with any number of rounds that is large enough. -/
def Ends (p : Rounds ε α) (a : α) : Prop := ∃ n, ∀ m, n ≤ m → p m = (pure a : OptionT (Except ε) α)

/-- With some number of rounds, the program ends with the value. -/
def Returns (p : Rounds ε α) (a : α) : Prop := ∃ n, p n = (pure a : OptionT (Except ε) α)

theorem option_pure_injective :
    Function.Injective (pure : α → OptionT (Except ε) α) := by
  intro a b h
  exact Option.some.inj (Except.ok.inj h)

theorem option_bind_eq_pure {x : OptionT (Except ε) α} {f : α → OptionT (Except ε) β} {b : β}
    (h : x >>= f = pure b) : ∃ a, x = pure a ∧ f a = pure b := by
  cases x with
  | error e => cases h
  | ok result =>
    cases result with
    | none => cases h
    | some a => exact ⟨a, rfl, h⟩

namespace Ends

variable {p : Rounds ε α} {a : α}

theorem pure (a : α) : Ends (Pure.pure a : Rounds ε α) a := ⟨0, fun _ _ => rfl⟩

theorem lift {x : Except ε α} (h : x = .ok a) : Ends (liftM x : Rounds ε α) a := by
  subst h
  exact ⟨0, fun _ _ => rfl⟩

/-- **Sequence rule.** -/
theorem bind {f : α → Rounds ε β} {b : β} (hp : Ends p a) (hf : Ends (f a) b) :
    Ends (p >>= f) b := by
  obtain ⟨n, hn⟩ := hp
  obtain ⟨m, hm⟩ := hf
  refine ⟨max n m, fun k hk => ?_⟩
  change (p k >>= fun a => f a k) = _
  rw [hn k (le_trans (le_max_left n m) hk), pure_bind]
  exact hm k (le_trans (le_max_right n m) hk)

theorem map {g : α → β} (hp : Ends p a) : Ends (g <$> p) (g a) := by
  rw [map_eq_pure_bind]
  exact hp.bind (.pure (g a))

theorem returns (hp : Ends p a) : Returns p a := by
  obtain ⟨n, hn⟩ := hp
  exact ⟨n, hn n le_rfl⟩

end Ends

namespace Returns

variable {p : Rounds ε α} {a : α} {b : β}

/-- What is returned last follows what was returned first. -/
theorem bind {f : α → Rounds ε β} (h : Returns (p >>= f) b) :
    ∃ a, Returns p a ∧ Returns (f a) b := by
  obtain ⟨n, hn⟩ := h
  obtain ⟨a, ha, hb⟩ := option_bind_eq_pure hn
  exact ⟨a, ⟨n, ha⟩, ⟨n, hb⟩⟩

theorem pure {a' : α} (h : Returns (Pure.pure a' : Rounds ε α) a) : a' = a := by
  obtain ⟨n, hn⟩ := h
  exact option_pure_injective hn

theorem lift {x : Except ε α} (h : Returns (liftM x : Rounds ε α) a) : x = .ok a := by
  obtain ⟨n, hn⟩ := h
  cases x with
  | error e => cases hn
  | ok a' => rw [option_pure_injective hn]

end Returns

section Loop

variable {body : σ → Rounds ε (Round σ α)} {s s' : σ} {a : α}

theorem loop_done (h : Ends (body s) (.done a)) : Ends (loop body s) a := by
  obtain ⟨n, hn⟩ := h
  refine ⟨n + 1, fun m hm => ?_⟩
  cases m with
  | zero => exact absurd hm (Nat.not_succ_le_zero n)
  | succ m =>
    change (body s m >>= _) = _
    rw [hn m (Nat.le_of_succ_le_succ hm), pure_bind]

theorem loop_again (h : Ends (body s) (.again s')) (hrest : Ends (loop body s') a) :
    Ends (loop body s) a := by
  obtain ⟨n, hn⟩ := h
  obtain ⟨k, hk⟩ := hrest
  refine ⟨max n k + 1, fun m hm => ?_⟩
  cases m with
  | zero => exact absurd hm (Nat.not_succ_le_zero _)
  | succ m =>
    have hle := Nat.le_of_succ_le_succ hm
    change (body s m >>= _) = _
    rw [hn m (le_trans (le_max_left n k) hle), pure_bind]
    exact hk m (le_trans (le_max_right n k) hle)

/-- **Loop rule.** A loop whose body is left with what is wanted, or keeps the invariant and makes
the measure smaller, ends with what is wanted. -/
theorem loop_ends {I : σ → Prop} {Q : α → Prop} (μ : σ → ℕ)
    (hbody : ∀ s, I s → (∃ a, Ends (body s) (.done a) ∧ Q a) ∨
      ∃ s', Ends (body s) (.again s') ∧ I s' ∧ μ s' < μ s) (hs : I s) :
    ∃ a, Ends (loop body s) a ∧ Q a := by
  induction hm : μ s using Nat.strongRecOn generalizing s with
  | _ m ih =>
    rcases hbody s hs with ⟨a, hdone, ha⟩ | ⟨s', hagain, hs', hlt⟩
    · exact ⟨a, loop_done hdone, ha⟩
    · obtain ⟨a, hrest, ha⟩ := ih (μ s') (hm ▸ hlt) hs' rfl
      exact ⟨a, loop_again hagain hrest, ha⟩

/-- What a round has to establish, if another one follows and if the loop is left. -/
def Round.Post (I : σ → Prop) (Q : α → Prop) : Round σ α → Prop
  | .again s => I s
  | .done a => Q a

/-- What is returned by a loop that keeps an invariant. -/
theorem loop_returns {I : σ → Prop} {Q : α → Prop}
    (hbody : ∀ s r, I s → Returns (body s) r → r.Post I Q) (hs : I s)
    (h : Returns (loop body s) a) : Q a := by
  obtain ⟨n, hn⟩ := h
  change loopUpTo body n s = _ at hn
  induction n generalizing s with
  | zero => cases hn
  | succ n ih =>
    obtain ⟨r, hr, hrest⟩ := option_bind_eq_pure hn
    have hpost := hbody s r hs ⟨n, hr⟩
    cases r with
    | again s' => exact ih hpost hrest
    | done a' =>
      rw [← option_pure_injective hrest]
      exact hpost

/-- What a round does, with something else for the value that the loop is left with. -/
def Round.map (g : α → β) : Round σ α → Round σ β
  | .again s => .again s
  | .done a => .done (g a)

/-- A loop whose last round returns something else. -/
theorem loop_map {body' : σ → Rounds ε (Round σ β)} (g : α → β)
    (h : ∀ s, body' s = Round.map g <$> body s) (s : σ) : loop body' s = g <$> loop body s := by
  funext n
  change loopUpTo body' n s = g <$> loopUpTo body n s
  induction n generalizing s with
  | zero => rfl
  | succ n ih =>
    have hround : body' s n = Round.map g <$> body s n := congrFun (h s) n
    rw [loopUpTo, loopUpTo, hround, map_bind, bind_map_left]
    refine bind_congr fun r => ?_
    cases r with
    | again s' => exact ih s'
    | done a => exact (map_pure g a).symm

end Loop

end Semantics
