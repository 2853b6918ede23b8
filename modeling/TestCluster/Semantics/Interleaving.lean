import Mathlib.Data.List.Basic
import Mathlib.Logic.Function.Basic

/-!
# Interleaved streams and keyed demultiplexing

Several senders share one connection, so the receiver sees one trace in which the
elements of the streams are mixed, each stream in its own order. A *demultiplexer*
keeps a table of half-finished work indexed by a key it reads off each element.

If no two streams that are in progress at the same time use one key, the
demultiplexer treats each stream as if it had been alone: its outputs are an
interleaving of the outputs the streams give by themselves.

## Main definitions

* `Semantics.proj` — the elements of one stream in a tagged trace
* `Semantics.Interleaves` — a trace is an interleaving of a family of streams
* `Semantics.Between` — an element of `j` lies between two elements of `i`
* `Semantics.deliverAll` — a demultiplexer fed with a whole trace
* `Semantics.reactAll` — the reactions to one stream alone

## Main results

* `Interleaves.of_lanes` — streams that keep to lanes stay interleaved when the lanes do
* `deliverAll_interleaves` — demultiplexing an interleaving is an interleaving of
  the streams' own outputs, and the table ends empty
-/

namespace Semantics

variable {ι α ω κ σ : Type*}

section Projection

variable [DecidableEq ι]

/-- The elements of stream `i`, in their order in the trace. -/
def proj (i : ι) : List (ι × α) → List α
  | [] => []
  | (j, a) :: tr => if j = i then a :: proj i tr else proj i tr

@[simp] theorem proj_nil (i : ι) : proj i ([] : List (ι × α)) = [] := rfl

@[simp] theorem proj_cons_self (i : ι) (a : α) (tr : List (ι × α)) :
    proj i ((i, a) :: tr) = a :: proj i tr := by
  simp [proj]

theorem proj_cons_of_ne {i j : ι} (h : j ≠ i) (a : α) (tr : List (ι × α)) :
    proj i ((j, a) :: tr) = proj i tr := by
  simp [proj, h]

@[simp] theorem proj_append (i : ι) (tr tr' : List (ι × α)) :
    proj i (tr ++ tr') = proj i tr ++ proj i tr' := by
  induction tr with
  | nil => rfl
  | cons e tr ih =>
    obtain ⟨j, a⟩ := e
    by_cases h : j = i
    · subst h; simp [ih]
    · simp [proj_cons_of_ne h, ih]

theorem mem_proj_of_mem {i : ι} {a : α} {tr : List (ι × α)} (h : (i, a) ∈ tr) : a ∈ proj i tr := by
  induction tr with
  | nil => exact absurd h List.not_mem_nil
  | cons e tr ih =>
    obtain ⟨j, b⟩ := e
    by_cases hji : j = i
    · subst hji
      rcases List.mem_cons.mp h with heq | htail
      · simp [(Prod.mk.inj heq).2]
      · simpa using Or.inr (ih htail)
    · rw [proj_cons_of_ne hji]
      rcases List.mem_cons.mp h with heq | htail
      · exact absurd (Prod.mk.inj heq).1.symm hji
      · exact ih htail

theorem proj_eq_nil {i : ι} {tr : List (ι × α)} (h : ∀ e ∈ tr, e.1 ≠ i) : proj i tr = [] := by
  induction tr with
  | nil => rfl
  | cons e tr ih =>
    obtain ⟨he, htail⟩ := List.forall_mem_cons.mp h
    rw [proj_cons_of_ne he, ih htail]

/-- An element may as well come after elements of other streams. -/
theorem proj_insert {i : ι} {tr tr' : List (ι × α)} (h : ∀ e ∈ tr', e.1 ≠ i) (a : α) (j : ι) :
    proj j (tr ++ (i, a) :: tr') = proj j (tr ++ tr') ++ proj j [(i, a)] := by
  rw [proj_append, proj_append, List.append_assoc]
  by_cases hij : i = j
  · subst hij
    rw [proj_cons_self, proj_eq_nil h, proj_cons_self, proj_nil, List.nil_append]
  · rw [proj_cons_of_ne hij, proj_cons_of_ne hij, proj_nil, List.append_nil]

theorem mem_tags_of_proj_ne_nil {i : ι} {tr : List (ι × α)} (h : proj i tr ≠ []) :
    i ∈ tr.map Prod.fst := by
  induction tr with
  | nil => exact absurd rfl h
  | cons e tr ih =>
    obtain ⟨j, a⟩ := e
    by_cases hji : j = i
    · simp [hji]
    · rw [proj_cons_of_ne hji] at h
      simpa using Or.inr (ih h)

/-- Elements all tagged `i` belong to stream `i` and to no other. -/
theorem proj_tagged (i j : ι) (as : List α) :
    proj j (as.map (Prod.mk i)) = if i = j then as else [] := by
  induction as with
  | nil => simp
  | cons a as ih =>
    by_cases h : i = j
    · subst h; simpa using ih
    · simpa [proj_cons_of_ne h, h] using ih

theorem count_tags (i : ι) (tr : List (ι × α)) :
    (tr.map Prod.fst).count i = (proj i tr).length := by
  induction tr with
  | nil => rfl
  | cons e tr ih =>
    obtain ⟨j, a⟩ := e
    by_cases h : j = i
    · subst h; simp [ih]
    · simp [proj_cons_of_ne h, List.count_cons_of_ne h, ih]

theorem proj_map {β : Type*} (f : ι → α → β) (i : ι) (tr : List (ι × α)) :
    proj i (tr.map fun e => (e.1, f e.1 e.2)) = (proj i tr).map (f i) := by
  induction tr with
  | nil => rfl
  | cons e tr ih =>
    obtain ⟨j, a⟩ := e
    by_cases h : j = i
    · subst h; simpa using ih
    · simpa [proj_cons_of_ne h] using ih

/-- Each element replaced by a list of elements of the same stream. -/
theorem proj_flatMap {β : Type*} (f : ι → α → List β) (i : ι) (tr : List (ι × α)) :
    proj i (tr.flatMap fun e => (f e.1 e.2).map (Prod.mk e.1)) = (proj i tr).flatMap (f i) := by
  induction tr with
  | nil => rfl
  | cons e tr ih =>
    obtain ⟨j, a⟩ := e
    rw [List.flatMap_cons, proj_append, proj_tagged, ih]
    by_cases h : j = i
    · subst h; simp
    · simp [proj_cons_of_ne h, h]

/-- Reordering a trace reorders its streams. -/
theorem proj_perm {tr tr' : List (ι × α)} (h : tr.Perm tr') (i : ι) :
    (proj i tr).Perm (proj i tr') := by
  induction h with
  | nil => exact .nil
  | cons e _ ih =>
    obtain ⟨j, a⟩ := e
    by_cases hji : j = i
    · subst hji; simpa using ih
    · simpa [proj_cons_of_ne hji] using ih
  | swap e e' tr =>
    obtain ⟨j, a⟩ := e
    obtain ⟨j', a'⟩ := e'
    by_cases hj : j = i <;> by_cases hj' : j' = i
    · subst hj; subst hj'; simpa using List.Perm.swap a a' _
    · subst hj; simp [proj_cons_of_ne hj']
    · subst hj'; simp [proj_cons_of_ne hj]
    · simp [proj_cons_of_ne hj, proj_cons_of_ne hj']
  | trans _ _ ih ih' => exact ih.trans ih'

/-- The trace is an interleaving of the streams: it mixes them and keeps the order
of each. -/
def Interleaves (tr : List (ι × α)) (streams : ι → List α) : Prop :=
  ∀ i, proj i tr = streams i

theorem Interleaves.map {β : Type*} {tr : List (ι × α)} {streams : ι → List α}
    (h : Interleaves tr streams) (f : ι → α → β) :
    Interleaves (tr.map fun e => (e.1, f e.1 e.2)) fun i => (streams i).map (f i) := by
  intro i
  rw [proj_map, h i]

/-- Two families of streams that look the same through `f` and `g` have interleavings
that look the same. -/
theorem Interleaves.transfer {β γ : Type*} {f : α → γ} {g : β → γ} {tr : List (ι × α)}
    {streams : ι → List α} {streams' : ι → List β} (h : Interleaves tr streams)
    (heq : ∀ i, (streams i).map f = (streams' i).map g) :
    ∃ tr' : List (ι × β), tr.map (fun e => (e.1, f e.2)) = tr'.map (fun e => (e.1, g e.2)) ∧
      Interleaves tr' streams' := by
  induction tr generalizing streams streams' with
  | nil =>
    refine ⟨[], rfl, fun i => ?_⟩
    have hnil := heq i
    rw [← h i] at hnil
    exact (List.map_eq_nil_iff.mp hnil.symm).symm
  | cons e tr ih =>
    obtain ⟨i, a⟩ := e
    have hi := heq i
    rw [← h i, proj_cons_self, List.map_cons] at hi
    -- the first element of the other stream takes the place of this one
    obtain ⟨b, rest, hstream, hb, hrest⟩ := List.map_eq_cons_iff.mp hi.symm
    obtain ⟨tr', htr', hinter⟩ := @ih (fun j => proj j tr)
      (Function.update streams' i rest) (fun _ => rfl) (by
        intro j
        by_cases hji : j = i
        · subst hji; rw [Function.update_self, hrest]
        · rw [Function.update_of_ne hji, ← heq j, ← h j, proj_cons_of_ne (Ne.symm hji)])
    refine ⟨(i, b) :: tr', by simp [htr', hb], fun j => ?_⟩
    by_cases hji : j = i
    · subst hji
      rw [proj_cons_self, hinter, Function.update_self, hstream]
    · rw [proj_cons_of_ne (Ne.symm hji), hinter, Function.update_of_ne hji]

omit [DecidableEq ι] in
/-- What a lane of a trace has is what its streams have. -/
theorem proj_lane {π : Type*} [DecidableEq π] (lane : ι → π) (p : π) (tr : List (ι × α)) :
    proj p (tr.map fun e => (lane e.1, e.2)) =
      (tr.filter fun e => lane e.1 = p).map Prod.snd := by
  induction tr with
  | nil => rfl
  | cons e tr ih =>
    rw [List.map_cons, List.filter_cons]
    by_cases h : lane e.1 = p
    · subst h
      rw [proj_cons_self, ih, if_pos (decide_eq_true rfl), List.map_cons]
    · rw [proj_cons_of_ne h, ih, if_neg (by simpa using h)]

theorem proj_filter {q : ι × α → Prop} [DecidablePred q] {i : ι} (h : ∀ a, q (i, a))
    (tr : List (ι × α)) : proj i (tr.filter fun e => q e) = proj i tr := by
  induction tr with
  | nil => rfl
  | cons e tr ih =>
    obtain ⟨j, a⟩ := e
    rw [List.filter_cons]
    by_cases hji : j = i
    · subst hji
      rw [if_pos (decide_eq_true (h a)), proj_cons_self, proj_cons_self, ih]
    · rw [proj_cons_of_ne hji]
      split_ifs
      · rw [proj_cons_of_ne hji, ih]
      · exact ih

/-- Streams in a trace of one lane are found again in the trace of all lanes. -/
theorem proj_map_snd {π : Type*} [DecidableEq π] {lane : ι → π} {tr : List (π × (ι × α))}
    (h : ∀ e ∈ tr, lane e.2.1 = e.1) (i : ι) :
    proj i (tr.map Prod.snd) = proj i (proj (lane i) tr) := by
  induction tr with
  | nil => rfl
  | cons e tr ih =>
    obtain ⟨p, j, a⟩ := e
    obtain ⟨hp, htail⟩ := List.forall_mem_cons.mp h
    rw [List.map_cons]
    by_cases hji : j = i
    · subst hji
      rw [proj_cons_self, show p = lane j from hp.symm, proj_cons_self, proj_cons_self, ih htail]
    · rw [proj_cons_of_ne hji, ih htail]
      by_cases hlane : p = lane i
      · subst hlane
        rw [proj_cons_self, proj_cons_of_ne hji]
      · rw [proj_cons_of_ne hlane]

/-- **Lanes.** Streams that each keep to one lane are still interleaved when every lane keeps its
order. -/
theorem Interleaves.of_lanes {π : Type*} [DecidableEq π] {lane : ι → π} {tr : List (ι × α)}
    {streams : ι → List α} (h : Interleaves tr streams) {tr' : List (π × α)}
    (h' : Interleaves tr' fun p => proj p (tr.map fun e => (lane e.1, e.2))) :
    ∃ tr'' : List (ι × α), tr' = tr''.map (fun e => (lane e.1, e.2)) ∧ Interleaves tr'' streams := by
  have hsame (p : π) : (proj p (tr.map fun e => (lane e.1, e.2))).map id =
      (tr.filter fun e => lane e.1 = p).map Prod.snd := by
    rw [List.map_id, proj_lane]
  obtain ⟨lanes, heq, hlanes⟩ := h'.transfer hsame
  have hlane : ∀ e ∈ lanes, lane e.2.1 = e.1 := by
    intro e he
    have hmem := mem_proj_of_mem he
    rw [hlanes e.1] at hmem
    exact of_decide_eq_true (List.mem_filter.mp hmem).2
  refine ⟨lanes.map Prod.snd, ?_, fun i => ?_⟩
  · rw [List.map_map]
    refine ((List.map_id tr').symm.trans heq).trans (List.map_congr_left fun e he => ?_)
    exact Prod.ext (hlane e he).symm rfl
  · rw [proj_map_snd hlane, hlanes, proj_filter (q := fun e => lane e.1 = lane i) fun _ => rfl, h i]

end Projection

/-- In the trace, an element of stream `j` comes between two elements of stream `i`:
`j` is in progress while `i` is. -/
def Between (tr : List (ι × α)) (i j : ι) : Prop :=
  [i, j, i].Sublist (tr.map Prod.fst)

theorem between_map {β : Type*} (f : ι → α → β) {tr : List (ι × α)} {i j : ι} :
    Between (tr.map fun e => (e.1, f e.1 e.2)) i j ↔ Between tr i j := by
  rw [Between, Between, List.map_map]
  rfl

/-- A stream that something lies between has at least two elements. -/
theorem Between.two_le_length [DecidableEq ι] {tr : List (ι × α)} {i j : ι} (h : Between tr i j) :
    2 ≤ (proj i tr).length := by
  have htwice : [i, i].Sublist (tr.map Prod.fst) :=
    ((List.Sublist.refl [i]).cons j |>.cons_cons i).trans h
  have hcount := htwice.count_le i
  rw [count_tags] at hcount
  simpa using hcount

/-! ### Demultiplexers -/

section Demultiplexer

variable [DecidableEq κ] (key : α → κ) (react : Option σ → α → Option σ × List ω)

/-- One element: the entry under its key reacts, every other entry stays. -/
def deliver (t : κ → Option σ) (a : α) : (κ → Option σ) × List ω :=
  let r := react (t (key a)) a
  (Function.update t (key a) r.1, r.2)

/-- A whole trace, with the outputs in the order in which they appear. -/
def deliverAll : (κ → Option σ) → List α → (κ → Option σ) × List ω
  | t, [] => (t, [])
  | t, a :: as =>
    let r := deliver key react t a
    let r' := deliverAll r.1 as
    (r'.1, r.2 ++ r'.2)

/-- The reactions to one stream alone. -/
def reactAll : Option σ → List α → Option σ × List ω
  | s, [] => (s, [])
  | s, a :: as =>
    let r := react s a
    let r' := reactAll r.1 as
    (r'.1, r.2 ++ r'.2)

@[simp] theorem reactAll_nil (s : Option σ) : reactAll react s [] = (s, []) := rfl

theorem reactAll_cons (s : Option σ) (a : α) (as : List α) :
    reactAll react s (a :: as) =
      ((reactAll react (react s a).1 as).1, (react s a).2 ++ (reactAll react (react s a).1 as).2) :=
  rfl

theorem reactAll_append (s : Option σ) (as as' : List α) :
    reactAll react s (as ++ as') =
      ((reactAll react (reactAll react s as).1 as').1,
        (reactAll react s as).2 ++ (reactAll react (reactAll react s as).1 as').2) := by
  induction as generalizing s with
  | nil => rfl
  | cons a as ih => simp only [List.cons_append, reactAll_cons, ih, List.append_assoc]

/-- Items of one key concern the entry of that key only. -/
theorem deliverAll_of_key_eq (t : κ → Option σ) {k : κ} {as : List α} (h : ∀ a ∈ as, key a = k) :
    (deliverAll key react t as).1 k = (reactAll react (t k) as).1 ∧
      (deliverAll key react t as).2 = (reactAll react (t k) as).2 := by
  induction as generalizing t with
  | nil => exact ⟨rfl, rfl⟩
  | cons a as ih =>
    obtain ⟨rfl, has⟩ := List.forall_mem_cons.mp h
    have hentry : (deliver key react t a).1 (key a) = (react (t (key a)) a).1 :=
      Function.update_self _ _ _
    obtain ⟨hlast, hevents⟩ := ih (deliver key react t a).1 has
    rw [deliverAll, reactAll_cons, hlast, hevents, hentry]
    exact ⟨rfl, rfl⟩

/-- Streams in progress hold exactly the table's entries, under their own keys. -/
structure InProgress (keyOf : ι → κ) (loc : ι → Option σ) (t : κ → Option σ) : Prop where
  held : ∀ i, loc i ≠ none → t (keyOf i) = loc i
  owned : ∀ k, t k ≠ none → ∃ i, loc i ≠ none ∧ keyOf i = k
  apart : ∀ i j, i ≠ j → loc i ≠ none → loc j ≠ none → keyOf i ≠ keyOf j

omit [DecidableEq κ] in
/-- An empty table, with no stream in progress. -/
theorem InProgress.empty (keyOf : ι → κ) :
    InProgress keyOf (fun _ => none) (fun _ => (none : Option σ)) :=
  ⟨fun _ h => absurd rfl h, fun _ h => absurd rfl h, fun _ _ _ h => absurd rfl h⟩

variable [DecidableEq ι]

/-- One reaction of stream `i` keeps the table and the streams in step, provided no
other stream in progress has the key of `i`. -/
theorem InProgress.update {keyOf : ι → κ} {loc : ι → Option σ} {t : κ → Option σ}
    (h : InProgress keyOf loc t) {i : ι} (hfree : ∀ j, j ≠ i → loc j ≠ none → keyOf j ≠ keyOf i)
    (s : Option σ) :
    InProgress keyOf (Function.update loc i s) (Function.update t (keyOf i) s) := by
  constructor
  · intro j hj
    by_cases hji : j = i
    · subst hji; simp
    · rw [Function.update_of_ne hji] at hj ⊢
      rw [Function.update_of_ne (hfree j hji hj), h.held j hj]
  · intro k hk
    by_cases hki : k = keyOf i
    · subst hki
      exact ⟨i, by simpa using hk, rfl⟩
    · rw [Function.update_of_ne hki] at hk
      -- the key belongs to another stream, which is as it was
      obtain ⟨j, hj, rfl⟩ := h.owned k hk
      have hji : j ≠ i := fun hji => hki (hji ▸ rfl)
      exact ⟨j, by rwa [Function.update_of_ne hji], rfl⟩
  · intro j l hjl hj hl
    by_cases hji : j = i
    · subst hji
      rw [Function.update_of_ne hjl.symm] at hl
      exact (hfree l hjl.symm hl).symm
    · rw [Function.update_of_ne hji] at hj
      by_cases hli : l = i
      · subst hli; exact hfree j hji hj
      · rw [Function.update_of_ne hli] at hl
        exact h.apart j l hjl hj hl

omit [DecidableEq κ] [DecidableEq ι] in
/-- The entry a stream finds under its key is its own. -/
theorem InProgress.lookup {keyOf : ι → κ} {loc : ι → Option σ} {t : κ → Option σ}
    (h : InProgress keyOf loc t) {i : ι}
    (hfree : ∀ j, j ≠ i → loc j ≠ none → keyOf j ≠ keyOf i) : t (keyOf i) = loc i := by
  by_cases hi : loc i = none
  · rw [hi]
    by_contra hk
    obtain ⟨j, hj, hkey⟩ := h.owned _ hk
    by_cases hji : j = i
    · exact hj (hji ▸ hi)
    · exact hfree j hji hj hkey
  · exact h.held i hi

/-- **Demultiplexing an interleaving.** Each stream, alone, ends with nothing left in
progress. If streams that are in progress together have different keys, then the
demultiplexer ends with an empty table, and its outputs are an interleaving of the
streams' own outputs. -/
theorem deliverAll_of_inProgress (keyOf : ι → κ) (out : ι → List ω) {tr : List (ι × α)}
    {loc : ι → Option σ} {t : κ → Option σ}
    (hkey : ∀ e ∈ tr, key e.2 = keyOf e.1)
    (halone : ∀ i, reactAll react (loc i) (proj i tr) = (none, out i))
    (hprogress : InProgress keyOf loc t)
    (hbefore : ∀ i j, i ≠ j → loc i ≠ none → [j, i].Sublist (tr.map Prod.fst) →
      keyOf i ≠ keyOf j)
    (hbetween : ∀ i j, i ≠ j → Between tr i j → keyOf i ≠ keyOf j) :
    ∃ outs : List (ι × ω), deliverAll key react t (tr.map Prod.snd) =
      (fun _ => none, outs.map Prod.snd) ∧ Interleaves outs out := by
  induction tr generalizing loc t out with
  | nil =>
    have hnone : ∀ i, loc i = none := fun i => congrArg Prod.fst (halone i)
    have hout : ∀ i, out i = [] := fun i => (congrArg Prod.snd (halone i)).symm
    refine ⟨[], ?_, fun i => (hout i).symm⟩
    have ht : t = fun _ => none := by
      funext k
      by_contra hk
      obtain ⟨i, hi, -⟩ := hprogress.owned k hk
      exact hi (hnone i)
    simp [deliverAll, ht]
  | cons e tr ih =>
    obtain ⟨i, a⟩ := e
    have hkeya : key a = keyOf i := hkey (i, a) List.mem_cons_self
    -- a stream in progress has an element left, so its key is not the key of `i`
    have hfree : ∀ j, j ≠ i → loc j ≠ none → keyOf j ≠ keyOf i := by
      intro j hji hj
      refine hbefore j i hji hj ?_
      have hrest : proj j tr ≠ [] := by
        intro hnil
        have halone' := halone j
        rw [proj_cons_of_ne hji.symm, hnil] at halone'
        exact hj (congrArg Prod.fst halone')
      exact List.Sublist.cons_cons i
        (List.singleton_sublist.mpr (mem_tags_of_proj_ne_nil hrest))
    have hentry : t (keyOf i) = loc i := hprogress.lookup hfree
    set r := react (loc i) a with hr
    have hself := halone i
    rw [proj_cons_self, reactAll_cons, ← hr] at hself
    -- the streams after this element, and what they still have to put out
    have halone' : ∀ j, reactAll react (Function.update loc i r.1 j) (proj j tr) =
        (none, Function.update out i (reactAll react r.1 (proj i tr)).2 j) := by
      intro j
      by_cases hji : j = i
      · subst hji
        have hend : (reactAll react r.1 (proj j tr)).1 = none := congrArg Prod.fst hself
        rw [Function.update_self, Function.update_self]
        exact Prod.ext hend rfl
      · rw [Function.update_of_ne hji, Function.update_of_ne hji]
        simpa [proj_cons_of_ne (Ne.symm hji)] using halone j
    have hbefore' : ∀ j l, j ≠ l → Function.update loc i r.1 j ≠ none →
        [l, j].Sublist (tr.map Prod.fst) → keyOf j ≠ keyOf l := by
      intro j l hjl hj hsub
      by_cases hji : j = i
      · subst hji
        exact hbetween j l hjl (List.Sublist.cons_cons j hsub)
      · rw [Function.update_of_ne hji] at hj
        exact hbefore j l hjl hj (List.Sublist.cons i hsub)
    -- a stream that ends here frees its key; one that goes on still holds it
    obtain ⟨outs, hrun, hinter⟩ := ih _ (fun e he => hkey e (List.mem_cons_of_mem _ he)) halone'
      (hprogress.update hfree r.1) hbefore'
      (fun j l hjl hsub => hbetween j l hjl (List.Sublist.cons i hsub))
    refine ⟨r.2.map (Prod.mk i) ++ outs, ?_, ?_⟩
    · have hstep : deliver key react t a = (Function.update t (keyOf i) r.1, r.2) := by
        simp [deliver, hkeya, hentry, hr]
      simp [deliverAll, hstep, hrun, List.map_map, Function.comp_def]
    · intro j
      rw [proj_append, proj_tagged, hinter j]
      by_cases hji : j = i
      · subst hji
        simpa using congrArg Prod.snd hself
      · simp [Function.update_of_ne hji, Ne.symm hji]

/-- Demultiplexing from the empty table. -/
theorem deliverAll_interleaves (keyOf : ι → κ) (out : ι → List ω) {tr : List (ι × α)}
    {streams : ι → List α} (htr : Interleaves tr streams)
    (hkey : ∀ i, ∀ a ∈ streams i, key a = keyOf i)
    (halone : ∀ i, reactAll react none (streams i) = (none, out i))
    (hbetween : ∀ i j, i ≠ j → Between tr i j → keyOf i ≠ keyOf j) :
    ∃ outs : List (ι × ω), deliverAll key react (fun _ => none) (tr.map Prod.snd) =
      (fun _ => none, outs.map Prod.snd) ∧ Interleaves outs out := by
  refine deliverAll_of_inProgress key react keyOf out ?_ ?_ (InProgress.empty keyOf)
    (fun _ _ _ h => absurd rfl h) hbetween
  · rintro ⟨i, a⟩ he
    refine hkey i a ?_
    rw [← htr i]
    exact mem_proj_of_mem he
  · intro i
    rw [htr i]
    exact halone i

end Demultiplexer

end Semantics
