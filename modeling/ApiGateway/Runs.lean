import Mathlib.Data.List.Basic
import Mathlib.Data.List.Induction

/-!
# Runs of a partial step function

`step s e = some s'` says that the event `e` may happen in `s` and leads to `s'`;
`none` says that it may not happen there. A run is a finite list of events, so an
interleaving of any number of parties is a run of the machine that holds all of them.

The two rules proved here are the ones every machine of this development uses: an
invariant kept by the steps that meet a condition holds along a run of such steps,
and, when a step keeps the invariant exactly if it meets the condition, a run stays
inside the invariant exactly if all its steps meet it.
-/

namespace ApiGateway.Runs

set_option autoImplicit false

universe u v
variable {σ : Type u} {ε : Type v} (step : σ → ε → Option σ)

/-- The state a run ends in, if every event of it may happen where it stands. -/
def exec : σ → List ε → Option σ
  | s, [] => some s
  | s, e :: es => (step s e).bind fun t => exec t es

/-- Every event of the run meets `ok` in the state it happens in. -/
def StepsMeet (ok : σ → ε → Prop) : σ → List ε → Prop
  | _, [] => True
  | s, e :: es => ok s e ∧ ∀ t, step s e = some t → StepsMeet ok t es

/-- `t` is one of the states the run `es` passes through, its first and last included. -/
def Visits (s : σ) (es : List ε) (t : σ) : Prop :=
  ∃ before after, es = before ++ after ∧ exec step s before = some t

@[simp] theorem exec_nil (s : σ) : exec step s [] = some s := rfl

theorem exec_cons_iff {s t : σ} {e : ε} {es : List ε} :
    exec step s (e :: es) = some t ↔ ∃ s', step s e = some s' ∧ exec step s' es = some t := by
  simp only [exec, Option.bind_eq_some_iff]

theorem exec_append_iff {s t : σ} {es fs : List ε} :
    exec step s (es ++ fs) = some t ↔
      ∃ s', exec step s es = some s' ∧ exec step s' fs = some t := by
  induction es generalizing s with
  | nil => simp
  | cons e es ih =>
    simp only [List.cons_append, exec_cons_iff, ih]
    constructor
    · rintro ⟨s₁, h₁, s₂, h₂, h₃⟩
      exact ⟨s₂, ⟨s₁, h₁, h₂⟩, h₃⟩
    · rintro ⟨s₂, ⟨s₁, h₁, h₂⟩, h₃⟩
      exact ⟨s₁, h₁, s₂, h₂, h₃⟩

/-- What is observed of the end of a run is true of the state it ends in. -/
theorem exec_observe {β : Type v} (f : σ → Option β) {x : Option β} {s t : σ} {es : List ε}
    (ht : exec step s es = some t) (h : (exec step s es).bind f = x) : f t = x := by
  rw [ht] at h
  exact h

theorem StepsMeet.mono {ok ok' : σ → ε → Prop} (h : ∀ s e, ok s e → ok' s e) {s : σ} {es : List ε}
    (hs : StepsMeet step ok s es) : StepsMeet step ok' s es := by
  induction es generalizing s with
  | nil => trivial
  | cons e es ih => exact ⟨h s e hs.1, fun t ht => ih (hs.2 t ht)⟩

theorem StepsMeet.of_append {ok : σ → ε → Prop} {s : σ} {es fs : List ε}
    (h : StepsMeet step ok s (es ++ fs)) : StepsMeet step ok s es := by
  induction es generalizing s with
  | nil => trivial
  | cons e es ih => exact ⟨h.1, fun t ht => ih (h.2 t ht)⟩

theorem StepsMeet.of_append_right {ok : σ → ε → Prop} {s t : σ} {es fs : List ε}
    (h : StepsMeet step ok s (es ++ fs)) (he : exec step s es = some t) : StepsMeet step ok t fs := by
  induction es generalizing s with
  | nil =>
    cases he
    exact h
  | cons e es ih =>
    obtain ⟨s', hstep, hrest⟩ := (exec_cons_iff step).mp he
    exact ih (h.2 s' hstep) hrest

theorem stepsMeet_of_take {ok : σ → ε → Prop} {s : σ} {es : List ε}
    (h : ∀ n e t, es[n]? = some e → exec step s (es.take n) = some t → ok t e) :
    StepsMeet step ok s es := by
  induction es generalizing s with
  | nil => trivial
  | cons e es ih =>
    refine ⟨h 0 e s rfl rfl, ?_⟩
    intro t ht
    apply ih
    intro n e' t' he' ht'
    exact h (n + 1) e' t' he' ((exec_cons_iff step).mpr ⟨t, ht, ht'⟩)

theorem stepsMeet_cons_iff {ok : σ → ε → Prop} {s t : σ} {e : ε} {es : List ε} (h : step s e = some t) :
    StepsMeet step ok s (e :: es) ↔ ok s e ∧ StepsMeet step ok t es := by
  simp only [StepsMeet, h, Option.some.injEq, forall_eq']

instance decidableStepsMeet (ok : σ → ε → Prop) [∀ s e, Decidable (ok s e)] :
    ∀ s es, Decidable (StepsMeet step ok s es)
  | _, [] => isTrue trivial
  | s, e :: es =>
    match h : step s e with
    | none => decidable_of_iff (ok s e) (by simp [StepsMeet, h])
    | some t =>
      have := decidableStepsMeet ok t es
      decidable_of_iff (ok s e ∧ StepsMeet step ok t es) (stepsMeet_cons_iff step h).symm

/-- What the first state satisfies and every step that meets `ok` keeps holds at the end. -/
theorem exec_invariant (Inv : σ → Prop) {ok : σ → ε → Prop}
    (keep : ∀ s e t, Inv s → ok s e → step s e = some t → Inv t)
    {s t : σ} {es : List ε} (hs : Inv s) (hok : StepsMeet step ok s es)
    (he : exec step s es = some t) : Inv t := by
  induction es generalizing s with
  | nil =>
    cases he
    exact hs
  | cons e es ih =>
    obtain ⟨s', hstep, hrest⟩ := (exec_cons_iff step).mp he
    exact ih (keep s e s' hs hok.1 hstep) (hok.2 s' hstep) hrest

theorem visits_invariant (Inv : σ → Prop) {ok : σ → ε → Prop}
    (keep : ∀ s e t, Inv s → ok s e → step s e = some t → Inv t)
    {s t : σ} {es : List ε} (hs : Inv s) (hok : StepsMeet step ok s es)
    (hv : Visits step s es t) : Inv t := by
  obtain ⟨before, after, rfl, he⟩ := hv
  exact exec_invariant step Inv keep hs (hok.of_append step) he

theorem visits_inductive (Inv : σ → Prop) (keep : ∀ s e t, Inv s → step s e = some t → Inv t) {s t : σ}
    {es : List ε} (hs : Inv s) (hv : Visits step s es t) : Inv t := by
  have hall : StepsMeet step (fun _ _ => True) s es := stepsMeet_of_take step fun _ _ _ _ _ => trivial
  exact visits_invariant step Inv (fun a e b ha _ => keep a e b ha) hs hall hv

/-- The same with an invariant that speaks of the events so far. -/
theorem exec_history (Inv : List ε → σ → Prop) (keep : ∀ es s e t, Inv es s → step s e = some t → Inv (es ++ [e]) t)
    {s t : σ} {es : List ε} (hs : Inv [] s) (he : exec step s es = some t) : Inv es t := by
  induction es using List.reverseRecOn generalizing t with
  | nil =>
    cases he
    exact hs
  | append_singleton es e ih =>
    obtain ⟨s', hbefore, hlast⟩ := (exec_append_iff step).mp he
    obtain ⟨t', hstep, hnil⟩ := (exec_cons_iff step).mp hlast
    cases hnil
    exact keep es s' e t (ih hbefore) hstep

theorem visits_of_take (P : σ → Prop) {s u : σ} {es : List ε}
    (h : ∀ n t, n ≤ es.length → exec step s (es.take n) = some t → P t) (hu : Visits step s es u) : P u := by
  obtain ⟨before, after, rfl, he⟩ := hu
  refine h before.length u ?_ ?_
  · rw [List.length_append]
    exact Nat.le_add_right _ _
  · rw [List.take_left]
    exact he

theorem visits_start (s : σ) (es : List ε) : Visits step s es s := ⟨[], es, rfl, rfl⟩

theorem visits_cons {s s' t : σ} {e : ε} {es : List ε} (hstep : step s e = some s')
    (hv : Visits step s' es t) : Visits step s (e :: es) t := by
  obtain ⟨before, after, rfl, he⟩ := hv
  exact ⟨e :: before, after, rfl, (exec_cons_iff step).mpr ⟨s', hstep, he⟩⟩

theorem StepsMeet.and {ok ok' : σ → ε → Prop} {s : σ} {es : List ε} (h : StepsMeet step ok s es)
    (h' : StepsMeet step ok' s es) : StepsMeet step (fun t e => ok t e ∧ ok' t e) s es := by
  induction es generalizing s with
  | nil => trivial
  | cons e es ih => exact ⟨⟨h.1, h'.1⟩, fun t ht => ih (h.2 t ht) (h'.2 t ht)⟩

theorem stepsMeet_of_forall {q : ε → Prop} (s : σ) {es : List ε} (h : ∀ e ∈ es, q e) :
    StepsMeet step (fun _ e => q e) s es :=
  stepsMeet_of_take step fun _ e _ he _ => h e (List.mem_of_getElem? he)

/-- `Bg` is kept by every step. When, on top of it, a step by an event of `q` keeps `P` exactly
if it meets `ok`, a legal run of such events stays inside `P` exactly if all its steps meet `ok`. -/
theorem visits_iff_stepsMeet_of (Bg P : σ → Prop) {ok : σ → ε → Prop} {q : ε → Prop}
    (keep : ∀ s e t, Bg s → step s e = some t → Bg t)
    (exact_step : ∀ s e t, q e → Bg s → P s → step s e = some t → (P t ↔ ok s e))
    {s t : σ} {es : List ε} (hq : ∀ e ∈ es, q e) (hb : Bg s) (hs : P s) (he : exec step s es = some t) :
    (∀ u, Visits step s es u → P u) ↔ StepsMeet step ok s es := by
  constructor
  · intro hall
    induction es generalizing s with
    | nil => trivial
    | cons e es ih =>
      obtain ⟨s', hstep, hrest⟩ := (exec_cons_iff step).mp he
      have hs' : P s' := hall s' (visits_cons step hstep (visits_start step s' es))
      refine ⟨(exact_step s e s' (hq e List.mem_cons_self) hb hs hstep).mp hs', ?_⟩
      intro u hu
      have heq : s' = u := Option.some.inj (hstep.symm.trans hu)
      subst heq
      exact ih (fun e' he' => hq e' (List.mem_cons_of_mem e he')) (keep s e s' hb hstep) hs' hrest
        (fun u hu => hall u (visits_cons step hstep hu))
  · intro hok u hu
    have hboth : Bg u ∧ P u := by
      refine visits_invariant step (fun a => Bg a ∧ P a) ?_ ⟨hb, hs⟩
        (hok.and step (stepsMeet_of_forall step s hq)) hu
      rintro a e b ha ⟨hok', hqe⟩ hab
      exact ⟨keep a e b ha.1 hab, (exact_step a e b hqe ha.1 ha.2 hab).mpr hok'⟩
    exact hboth.2

theorem visits_iff_stepsMeet (Bg P : σ → Prop) {ok : σ → ε → Prop}
    (keep : ∀ s e t, Bg s → step s e = some t → Bg t)
    (exact_step : ∀ s e t, Bg s → P s → step s e = some t → (P t ↔ ok s e))
    {s t : σ} {es : List ε} (hb : Bg s) (hs : P s) (he : exec step s es = some t) :
    (∀ u, Visits step s es u → P u) ↔ StepsMeet step ok s es := by
  have hq : ∀ e ∈ es, (fun _ : ε => True) e := fun _ _ => trivial
  exact visits_iff_stepsMeet_of step Bg P keep (fun s e t _ => exact_step s e t) hq hb hs he

/-- What a run brings about, one of its steps brings about. -/
theorem exec_turning {P : σ → Prop} {s t : σ} {es : List ε} (he : exec step s es = some t) (hs : ¬ P s)
    (ht : P t) : ∃ before e after s₀ s₁, es = before ++ e :: after ∧ exec step s before = some s₀ ∧
      step s₀ e = some s₁ ∧ exec step s₁ after = some t ∧ ¬ P s₀ ∧ P s₁ := by
  induction es generalizing s with
  | nil =>
    cases he
    exact absurd ht hs
  | cons e es ih =>
    obtain ⟨s', hstep, hrest⟩ := (exec_cons_iff step).mp he
    by_cases hs' : P s'
    · exact ⟨[], e, es, s, s', rfl, rfl, hstep, hrest, hs, hs'⟩
    · obtain ⟨before, e', after, s₀, s₁, rfl, hbefore, hturn⟩ := ih hrest hs'
      exact ⟨e :: before, e', after, s₀, s₁, rfl, (exec_cons_iff step).mpr ⟨s', hstep, hbefore⟩, hturn⟩

section Thinned
variable {β : Type v} (drop : σ → ε → Bool) (out : σ → ε → Option β)

/-- What is observed along a run, in its order. -/
def outputs : σ → List ε → List β
  | _, [] => []
  | s, e :: es =>
    match step s e with
    | none => []
    | some t => (out s e).toList ++ outputs t es

theorem outputs_cons {s t : σ} {e : ε} (hstep : step s e = some t) (es : List ε) :
    outputs step out s (e :: es) = (out s e).toList ++ outputs step out t es := by
  simp only [outputs, hstep]

theorem outputs_append {s t : σ} {es : List ε} (he : exec step s es = some t) (fs : List ε) :
    outputs step out s (es ++ fs) = outputs step out s es ++ outputs step out t fs := by
  induction es generalizing s with
  | nil =>
    cases he
    rfl
  | cons e es ih =>
    obtain ⟨s', hstep, hrest⟩ := (exec_cons_iff step).mp he
    rw [List.cons_append, outputs_cons step out hstep, outputs_cons step out hstep, ih hrest, List.append_assoc]

/-- The run without the events that `drop` selects where they happen. -/
def thinned : σ → List ε → List ε
  | _, [] => []
  | s, e :: es =>
    match step s e with
    | none => []
    | some t => if drop s e then thinned t es else e :: thinned t es

/-- Nothing observed changes when the dropped events are left out, if some relation between
the states of the two runs survives every dropped step of the one and every other step of both. -/
theorem outputs_thinned (R : σ → σ → Prop) {ok : σ → ε → Prop}
    (skip : ∀ s s' e t, R s s' → ok s e → step s e = some t → drop s e = true →
      R t s' ∧ out s e = none)
    (keep : ∀ s s' e t, R s s' → ok s e → step s e = some t → drop s e = false →
      ∃ t', step s' e = some t' ∧ R t t' ∧ out s' e = out s e)
    {s s' : σ} {es : List ε} (hR : R s s') (hok : StepsMeet step ok s es) :
    outputs step out s' (thinned step drop s es) = outputs step out s es := by
  induction es generalizing s s' with
  | nil => rfl
  | cons e es ih =>
    cases hstep : step s e with
    | none => simp only [thinned, outputs, hstep]
    | some t =>
      cases hd : drop s e with
      | true =>
        obtain ⟨hR', hout⟩ := skip s s' e t hR hok.1 hstep hd
        simp only [thinned, outputs, hstep, hd, hout, if_true, Option.toList_none, List.nil_append]
        exact ih hR' (hok.2 t hstep)
      | false =>
        obtain ⟨t', hstep', hR', hout⟩ := keep s s' e t hR hok.1 hstep hd
        simp only [thinned, outputs, hstep, hd, Bool.false_eq_true, if_false, hstep', hout]
        rw [ih hR' (hok.2 t hstep)]

end Thinned

section Components
variable {τ : Type u} {δ : Type v} (step' : τ → δ → Option τ)

/-- If every step of the whole is a run of one component, in which the component's own events are
those that `out` reads off the step, then every run of the whole is such a run of the component. -/
theorem exec_component (Inv : σ → Prop) (view : σ → τ) (own : δ → Bool) (out : ε → Option δ)
    (turn : ∀ s e t, Inv s → step s e = some t → Inv t ∧
      ∃ fs, exec step' (view s) fs = some (view t) ∧ fs.filter own = (out e).toList)
    {s t : σ} {es : List ε} (hs : Inv s) (he : exec step s es = some t) :
    ∃ fs, exec step' (view s) fs = some (view t) ∧ fs.filter own = es.filterMap out := by
  induction es generalizing s with
  | nil =>
    cases he
    exact ⟨[], rfl, rfl⟩
  | cons e es ih =>
    obtain ⟨s', hstep, hrest⟩ := (exec_cons_iff step).mp he
    obtain ⟨hs', first, hfirst, hown⟩ := turn s e s' hs hstep
    obtain ⟨later, hlater, hown'⟩ := ih hs' hrest
    refine ⟨first ++ later, (exec_append_iff step').mpr ⟨view s', hfirst, hlater⟩, ?_⟩
    rw [List.filter_append, hown, hown', List.filterMap_cons]
    cases out e with
    | none => rfl
    | some f => rfl

/-- A machine whose steps are read as inputs of another one, which they serve: if the state and the
outputs of the other machine follow every step, they follow every run. -/
theorem exec_serves {β : Type v} (out' : τ → δ → Option β) (Inv : σ → Prop) (view : σ → τ) (input : σ → ε → Option δ)
    (out : σ → ε → Option β)
    (turn : ∀ s e t, Inv s → step s e = some t → Inv t ∧
      exec step' (view s) (input s e).toList = some (view t) ∧
      (out s e).toList = outputs step' out' (view s) (input s e).toList)
    {s t : σ} {es : List ε} (hs : Inv s) (he : exec step s es = some t) :
    exec step' (view s) (outputs step input s es) = some (view t) ∧
      outputs step out s es = outputs step' out' (view s) (outputs step input s es) := by
  induction es generalizing s with
  | nil =>
    cases he
    exact ⟨rfl, rfl⟩
  | cons e es ih =>
    obtain ⟨s', hstep, hrest⟩ := (exec_cons_iff step).mp he
    obtain ⟨hs', hview, hout⟩ := turn s e s' hs hstep
    obtain ⟨hlater, hout'⟩ := ih hs' hrest
    rw [outputs_cons step input hstep, outputs_cons step out hstep]
    refine ⟨(exec_append_iff step').mpr ⟨view s', hview, hlater⟩, ?_⟩
    rw [outputs_append step' out' hview, hout, hout']

end Components

section Once
variable {β : Type v} (out : σ → ε → Option β) {Bg Done : σ → Prop} {ok : σ → ε → Prop}

/-- `Done` becomes true with an output and stays so: once it is, nothing more is observed exactly
if no step that would be observed comes. -/
theorem outputs_eq_nil_iff_of_done
    (turn : ∀ s e t, Bg s → ok s e → step s e = some t → Bg t ∧ (Done t ↔ Done s ∨ out s e ≠ none))
    {s t : σ} {es : List ε} (hb : Bg s) (hok : StepsMeet step ok s es) (he : exec step s es = some t)
    (hs : Done s) :
    outputs step out s es = [] ↔ StepsMeet step (fun a e => out a e = none ∨ ¬ Done a) s es := by
  induction es generalizing s with
  | nil => exact iff_of_true rfl trivial
  | cons e es ih =>
    obtain ⟨s', hstep, hrest⟩ := (exec_cons_iff step).mp he
    obtain ⟨hb', hdone⟩ := turn s e s' hb hok.1 hstep
    have hih := ih hb' (hok.2 s' hstep) hrest (hdone.mpr (.inl hs))
    simp only [outputs, hstep, StepsMeet, Option.some.injEq, forall_eq', List.append_eq_nil_iff,
      Option.toList_eq_nil_iff, hih, or_iff_left (not_not.mpr hs)]

/-- A run that ends `Done` and did not begin so was observed once exactly if every step that was
observed came before anything was `Done`. -/
theorem outputs_length_eq_one_iff
    (turn : ∀ s e t, Bg s → ok s e → step s e = some t → Bg t ∧ (Done t ↔ Done s ∨ out s e ≠ none))
    {s t : σ} {es : List ε} (hb : Bg s) (hok : StepsMeet step ok s es) (he : exec step s es = some t)
    (hs : ¬ Done s) (ht : Done t) :
    (outputs step out s es).length = 1 ↔
      StepsMeet step (fun a e => out a e = none ∨ ¬ Done a) s es := by
  induction es generalizing s with
  | nil =>
    cases he
    exact absurd ht hs
  | cons e es ih =>
    obtain ⟨s', hstep, hrest⟩ := (exec_cons_iff step).mp he
    obtain ⟨hb', hdone⟩ := turn s e s' hb hok.1 hstep
    have hok' := hok.2 s' hstep
    simp only [outputs, hstep, StepsMeet, Option.some.injEq, forall_eq']
    cases hout : out s e with
    | none =>
      have hs' : ¬ Done s' := fun h => (hdone.mp h).elim hs fun hne => hne hout
      rw [Option.toList_none, List.nil_append, ih hb' hok' hrest hs']
      simp
    | some b =>
      have hs' : Done s' := hdone.mpr (.inr (hout ▸ nofun))
      rw [← outputs_eq_nil_iff_of_done step out turn hb' hok' hrest hs']
      simp [hs]

end Once

end ApiGateway.Runs
