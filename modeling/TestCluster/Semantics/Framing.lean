import Mathlib.Data.List.Basic

/-!
# Streams cut into frames

A stream of items carries frames: a header of a fixed width, which says how many items follow, and
these. A receiver that gets the stream in chunks cuts off the frames that are complete and keeps the
rest, and what it cuts off altogether does not depend on the chunks.

## Main definitions

* `Semantics.Cuts` — a stream, its complete frames, and what is left over

## Main results

* `Cuts.append` — more of the stream is cut as if what was left over had come with it
* `Cuts.unique` — a stream is cut in one way
* `Cuts.exists_cuts`, `Cuts.flatten_of_framed` — any stream, and a stream of whole frames
-/

namespace Semantics

variable {α : Type*} {width : ℕ} {size : List α → ℕ}

/-- The stream is made of the frames with these bodies, and of a rest without a complete frame. -/
inductive Cuts (width : ℕ) (size : List α → ℕ) : List α → List (List α) → List α → Prop
  | rest {r : List α} (h : r.length < width ∨ r.length < width + size (r.take width)) :
      Cuts width size r [] r
  | frame {header body stream : List α} {bodies : List (List α)} {r : List α}
      (hheader : header.length = width) (hbody : body.length = size header)
      (h : Cuts width size stream bodies r) :
      Cuts width size (header ++ (body ++ stream)) (body :: bodies) r

namespace Cuts

variable {stream stream' more r r' : List α} {bodies bodies' : List (List α)}

/-- **Chunks.** What comes later is cut as if the rest had come with it. -/
theorem append (h : Cuts width size stream bodies r) (h' : Cuts width size (r ++ more) bodies' r') :
    Cuts width size (stream ++ more) (bodies ++ bodies') r' := by
  induction h with
  | rest _ => exact h'
  | frame hheader hbody _ ih =>
    rw [List.append_assoc, List.append_assoc, List.cons_append]
    exact .frame hheader hbody (ih h')

/-- A frame that is complete is not taken for a rest. -/
theorem not_rest {header body : List α} (hheader : header.length = width)
    (hbody : body.length = size header) :
    ¬ ((header ++ (body ++ stream)).length < width ∨ (header ++ (body ++ stream)).length <
      width + size ((header ++ (body ++ stream)).take width)) := by
  rw [List.take_left' hheader, List.length_append, List.length_append]
  omega

/-- **Uniqueness.** -/
theorem unique (h : Cuts width size stream bodies r) (h' : Cuts width size stream bodies' r') :
    bodies = bodies' ∧ r = r' := by
  induction h generalizing bodies' with
  | rest hrest =>
    cases h' with
    | rest _ => exact ⟨rfl, rfl⟩
    | frame hheader hbody _ => exact absurd hrest (not_rest hheader hbody)
  | @frame header body stream bodies r hheader hbody _ ih =>
    generalize hs : header ++ (body ++ stream) = s at h'
    cases h' with
    | rest hrest =>
      rw [← hs] at hrest
      exact absurd hrest (not_rest hheader hbody)
    | frame hheader' hbody' h' =>
      obtain ⟨rfl, htail⟩ := List.append_inj hs (hheader.trans hheader'.symm)
      obtain ⟨rfl, rfl⟩ := List.append_inj htail (hbody.trans hbody'.symm)
      obtain ⟨rfl, rfl⟩ := ih h'
      exact ⟨rfl, rfl⟩

/-- Every stream is cut in some way. -/
theorem exists_cuts (hwidth : 0 < width) (size : List α → ℕ) (stream : List α) :
    ∃ bodies r, Cuts width size stream bodies r := by
  induction hlen : stream.length using Nat.strongRecOn generalizing stream with
  | ind len ih =>
    by_cases hrest : stream.length < width ∨ stream.length < width + size (stream.take width)
    · exact ⟨[], stream, .rest hrest⟩
    · rw [not_or, Nat.not_lt, Nat.not_lt] at hrest
      have hheader : (stream.take width).length = width := List.length_take_of_le hrest.1
      have hbody : ((stream.drop width).take (size (stream.take width))).length =
          size (stream.take width) := by
        apply List.length_take_of_le
        rw [List.length_drop]
        omega
      obtain ⟨bodies, r, hcuts⟩ :=
        ih _ (by rw [List.length_drop, List.length_drop]; omega)
          ((stream.drop width).drop (size (stream.take width))) rfl
      have hframe := Cuts.frame hheader hbody hcuts
      rw [List.take_append_drop, List.take_append_drop] at hframe
      exact ⟨_, r, hframe⟩

/-- The frames of the beginning of a stream are frames of the stream. -/
theorem subset_of_append (hwidth : 0 < width) (h : Cuts width size stream bodies r)
    (h' : Cuts width size (stream ++ more) bodies' r') : bodies ⊆ bodies' := by
  obtain ⟨bodies'', r'', hrest⟩ := exists_cuts hwidth size (r ++ more)
  obtain ⟨rfl, -⟩ := (h.append hrest).unique h'
  exact List.subset_append_left _ _

/-- A stream of whole frames is cut into their bodies, with nothing left over. -/
theorem flatten_of_framed (hwidth : 0 < width) {frame : List α → List α}
    (hframe : ∀ b ∈ bodies, ∃ header, frame b = header ++ b ∧ header.length = width ∧
      b.length = size header) :
    Cuts width size (bodies.map frame).flatten bodies [] := by
  induction bodies with
  | nil => exact .rest (.inl hwidth)
  | cons b bodies ih =>
    obtain ⟨header, hb, hheader, hbody⟩ := hframe b List.mem_cons_self
    rw [List.map_cons, List.flatten_cons, hb, List.append_assoc]
    apply Cuts.frame hheader hbody
    apply ih
    exact fun b' hb' => hframe b' (List.mem_cons_of_mem _ hb')

end Cuts

end Semantics
