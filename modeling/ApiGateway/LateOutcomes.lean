import ApiGateway.Runs
import ApiGateway.CircuitBreaker
import ApiGateway.Tables
import Mathlib.Logic.Function.Basic
import Mathlib.Tactic.IntervalCases

/-!
# Outcomes that arrive late

Requests on one breaker, each an `Allow` and, if that admitted it, one `RecordSuccess` or
`RecordFailure` at some later point. The source's `Record` calls do not say whose they are.
The state counts how often the breaker has opened and remembers for each request how often it
had opened when the request was admitted; no step reads these, they only say which outcomes
are late: those of requests admitted before the opening that the breaker has not recovered from.
-/

namespace ApiGateway.LateOutcomes

open CircuitBreaker Runs Tables
set_option autoImplicit false

inductive Phase where
  | admitted (epoch : Nat)
  | refused
  | recorded
  deriving DecidableEq

structure State where
  breaker : Breaker
  openings : Nat
  requests : Nat → Option Phase

inductive Event where
  | allow (i : Nat) (now : Int)
  | success (i : Nat)
  | failure (i : Nat) (now : Int)
  deriving DecidableEq

def start (maxFailures : Nat) (timeout : Int) : State :=
  ⟨newBreaker maxFailures timeout, 0, fun _ => none⟩

def asked (s : State) (i : Nat) (now : Int) : State :=
  ⟨(allow s.breaker now).1, s.openings, Function.update s.requests i
    (some (if (allow s.breaker now).2 = none then .admitted s.openings else .refused))⟩

/-- The breaker becomes `b` by the outcome of request `i`. -/
def record (s : State) (i : Nat) (b : Breaker) : State :=
  ⟨b, if s.breaker.state ≠ .stateOpen ∧ b.state = .stateOpen then s.openings + 1 else s.openings,
    Function.update s.requests i (some .recorded)⟩

def step (s : State) : Event → Option State
  | .allow i now =>
    match s.requests i with
    | none => some (asked s i now)
    | some _ => none
  | .success i =>
    match s.requests i with
    | some (.admitted _) => some (record s i (recordSuccess s.breaker))
    | _ => none
  | .failure i now =>
    match s.requests i with
    | some (.admitted _) => some (record s i (recordFailure s.breaker now))
    | _ => none

def lateFor (s : State) (i : Nat) : Bool :=
  match s.requests i with
  | some (.admitted epoch) => epoch < s.openings ∧ s.breaker.state ≠ .stateClosed
  | _ => false

/-- An outcome recorded while the breaker is not closed, by a request admitted before it opened. -/
def late (s : State) : Event → Bool
  | .allow _ _ => false
  | .success i => lateFor s i
  | .failure i _ => lateFor s i

def answer (s : State) : Event → Option Bool
  | .allow _ now => some ((allow s.breaker now).2 = none)
  | _ => none

/-- A late outcome neither closes the breaker, nor opens it, nor moves the time it opened at. -/
def Unmoved (s : State) (e : Event) : Prop :=
  late s e = true → ∀ t, step s e = some t →
    t.breaker.state = s.breaker.state ∧ t.breaker.openedAt = s.breaker.openedAt

/-- The late outcomes of the run do nothing, and no answer of `Allow` changes before the next
close when all of them are left out from some point of the run on. -/
def Ignored (s₀ : State) (es : List Event) : Prop :=
  StepsMeet step Unmoved s₀ es ∧
  ∀ before during rest s, es = before ++ during ++ rest → exec step s₀ before = some s →
    (∀ u, Visits step s during u → u.breaker.state ≠ .stateClosed) →
    outputs step answer s (thinned step late s during) = outputs step answer s during

/-- A late outcome comes while the breaker is open and, if it is a failure, before the counter
is full again or at the instant of the opening. -/
def Harmless (s : State) (e : Event) : Prop :=
  late s e = true → s.breaker.state = .stateOpen ∧
    ∀ i now, e = .failure i now →
      s.breaker.failures + 1 < s.breaker.maxFailures ∨ now = s.breaker.openedAt

theorem step_cases {s t : State} {e : Event} (h : step s e = some t) :
    (∃ i now, e = .allow i now ∧ s.requests i = none ∧ t = asked s i now) ∨
    (∃ i epoch, e = .success i ∧ s.requests i = some (.admitted epoch) ∧
      t = record s i (recordSuccess s.breaker)) ∨
    (∃ i now epoch, e = .failure i now ∧ s.requests i = some (.admitted epoch) ∧
      t = record s i (recordFailure s.breaker now)) := by
  cases e with
  | allow i now =>
    left
    simp only [step] at h
    split at h
    · exact ⟨i, now, rfl, ‹_›, (Option.some.inj h).symm⟩
    · cases h
  | success i =>
    right; left
    simp only [step] at h
    split at h
    · exact ⟨i, _, rfl, ‹_›, (Option.some.inj h).symm⟩
    · cases h
  | failure i now =>
    right; right
    simp only [step] at h
    split at h
    · exact ⟨i, now, _, rfl, ‹_›, (Option.some.inj h).symm⟩
    · cases h

theorem lateFor_iff {s : State} {i epoch : Nat} (hi : s.requests i = some (.admitted epoch)) :
    lateFor s i = true ↔ epoch < s.openings ∧ s.breaker.state ≠ .stateClosed := by
  simp [lateFor, hi]

/-- Nobody was admitted after an opening that is still to come, nor, while the breaker is
open, since the last one. -/
structure Dated (s : State) : Prop where
  le : ∀ i epoch, s.requests i = some (.admitted epoch) → epoch ≤ s.openings
  lt : s.breaker.state = .stateOpen → ∀ i epoch, s.requests i = some (.admitted epoch) →
    epoch < s.openings

theorem dated_start (maxFailures : Nat) (timeout : Int) : Dated (start maxFailures timeout) where
  le i epoch h := by cases h
  lt _ i epoch h := by cases h

theorem dated_asked {s : State} (hs : Dated s) (i : Nat) (now : Int) : Dated (asked s i now) where
  le j epoch hj := by
    rcases update_cases hj with ⟨rfl, hasked⟩ | ⟨_, hold⟩
    · split at hasked
      · cases hasked
        exact Nat.le_refl _
      · cases hasked
    · exact hs.le j epoch hold
  lt hopen j epoch hj := by
    obtain ⟨hb, hrefused⟩ := allow_stays_open s.breaker now hopen
    rcases update_cases hj with ⟨rfl, hasked⟩ | ⟨_, hold⟩
    · rw [if_neg hrefused] at hasked
      cases hasked
    · exact hs.lt hb j epoch hold

theorem record_other {s : State} {i j epoch : Nat} {b : Breaker}
    (hj : (record s i b).requests j = some (.admitted epoch)) :
    s.requests j = some (.admitted epoch) := by
  rcases update_cases hj with ⟨_, hrecorded⟩ | ⟨_, hold⟩
  · cases hrecorded
  · exact hold

theorem dated_record {s : State} (hs : Dated s) (i : Nat) (b : Breaker) : Dated (record s i b) where
  le j epoch hj := by
    have h := hs.le j epoch (record_other hj)
    unfold record
    dsimp only
    split <;> omega
  lt hopen j epoch hj := by
    have hle := hs.le j epoch (record_other hj)
    change epoch < if s.breaker.state ≠ .stateOpen ∧ b.state = .stateOpen then _ else _
    by_cases hb : s.breaker.state = .stateOpen
    · rw [if_neg (by simp [hb])]
      exact hs.lt hb j epoch (record_other hj)
    · rw [if_pos ⟨hb, hopen⟩]
      omega

theorem dated_step {s t : State} {e : Event} (hs : Dated s) (h : step s e = some t) : Dated t := by
  rcases step_cases h with ⟨i, now, _, _, rfl⟩ | ⟨i, _, _, _, rfl⟩ | ⟨i, now, _, _, _, rfl⟩
  · exact dated_asked hs i now
  · exact dated_record hs i _
  · exact dated_record hs i _

/-- The late outcomes that move nothing are the harmless ones. -/
theorem unmoved_iff {s t : State} {e : Event} (h : step s e = some t) : Unmoved s e ↔ Harmless s e := by
  unfold Unmoved Harmless
  refine imp_congr_right ?_
  intro hlate
  have hnext : (∀ u, step s e = some u →
      u.breaker.state = s.breaker.state ∧ u.breaker.openedAt = s.breaker.openedAt) ↔
      t.breaker.state = s.breaker.state ∧ t.breaker.openedAt = s.breaker.openedAt := by
    constructor
    · intro hall
      exact hall t h
    · intro ht u hu
      obtain rfl : t = u := Option.some.inj (h.symm.trans hu)
      exact ht
  rw [hnext]
  rcases step_cases h with ⟨i, now, rfl, _, rfl⟩ | ⟨i, epoch, rfl, hi, rfl⟩ | ⟨i, now, epoch, rfl, hi, rfl⟩
  · cases hlate
  · have hclosed := ((lateFor_iff hi).mp hlate).2
    cases hs : s.breaker.state with
    | stateClosed => exact absurd hs hclosed
    | stateOpen => simp [record, recordSuccess_open _ hs, hs]
    | stateHalfOpen => simp [record, recordSuccess_halfOpen _ hs]
  · have hclosed := ((lateFor_iff hi).mp hlate).2
    cases hs : s.breaker.state with
    | stateClosed => exact absurd hs hclosed
    | stateHalfOpen => simp [record, recordFailure_halfOpen _ _ hs]
    | stateOpen =>
      rcases Nat.lt_or_ge (s.breaker.failures + 1) s.breaker.maxFailures with hlt | hge
      · simp [record, recordFailure_below _ now (by simp [hs]) hlt, hs, hlt]
      · simp [record, recordFailure_full _ now hge, Nat.not_lt.mpr hge]

/-- Two breakers that differ at most in their counters, and not in these while closed. -/
def Alike (b b' : Breaker) : Prop :=
  ∃ n, b' = {b with failures := n} ∧ (b.state = .stateClosed → n = b.failures)

theorem alike_allow {b b' : Breaker} (h : Alike b b') (now : Int) :
    Alike (allow b now).1 (allow b' now).1 ∧ (allow b' now).2 = (allow b now).2 := by
  obtain ⟨n, rfl, hn⟩ := h
  unfold allow
  cases hs : b.state with
  | stateClosed => exact ⟨⟨n, by simp [hs], fun _ => hn hs⟩, rfl⟩
  | stateHalfOpen => exact ⟨⟨n, by simp [hs], by simp [hs]⟩, rfl⟩
  | stateOpen =>
    dsimp only
    split
    · exact ⟨⟨n, rfl, by simp⟩, rfl⟩
    · exact ⟨⟨n, by simp [hs], by simp [hs]⟩, rfl⟩

theorem alike_recordSuccess {b b' : Breaker} (h : Alike b b') :
    Alike (recordSuccess b) (recordSuccess b') := by
  obtain ⟨n, rfl, hn⟩ := h
  unfold recordSuccess
  dsimp only
  split
  · exact ⟨0, rfl, fun _ => rfl⟩
  · exact ⟨0, rfl, fun _ => rfl⟩

/-- The counter decides what a failure does to a closed breaker, where it is the same, but
not what it does to a half-open one. -/
theorem alike_recordFailure {b b' : Breaker} (h : Alike b b') (hb : b.state ≠ .stateOpen) (now : Int) :
    Alike (recordFailure b now) (recordFailure b' now) := by
  obtain ⟨n, rfl, hn⟩ := h
  rcases b with ⟨state, failures, maxFailures, timeout, openedAt⟩
  cases state with
  | stateOpen => exact absurd rfl hb
  | stateClosed =>
    obtain rfl := hn rfl
    exact ⟨_, rfl, fun _ => rfl⟩
  | stateHalfOpen => exact ⟨n + 1, rfl, by simp [recordFailure]⟩

/-- The run with its late outcomes and the run without them: a request may have recorded its
outcome in the first run only. -/
structure Agree (s s' : State) : Prop where
  breaker : Alike s.breaker s'.breaker
  openings : s'.openings = s.openings
  requests : ∀ i, s.requests i = s'.requests i ∨ s.requests i = some .recorded

theorem Agree.refl (s : State) : Agree s s :=
  ⟨⟨s.breaker.failures, rfl, fun _ => rfl⟩, rfl, fun _ => .inl rfl⟩

theorem Agree.lookup {s s' : State} (h : Agree s s') {i : Nat} (hi : s.requests i ≠ some .recorded) :
    s'.requests i = s.requests i := ((h.requests i).resolve_right hi).symm

theorem agree_update {s s' : State} (h : Agree s s') (i j : Nat) (x : Option Phase) :
    Function.update s.requests i x j = Function.update s'.requests i x j ∨
      Function.update s.requests i x j = some .recorded := by
  let R (p q : Option Phase) : Prop := p = q ∨ p = some .recorded
  exact related_update (R := R) h.requests (.inl rfl) j

theorem agree_record {s s' : State} (h : Agree s s') (i : Nat) {b b' : Breaker} (hb : Alike b b') :
    Agree (record s i b) (record s' i b') := by
  obtain ⟨n, hn, _⟩ := h.breaker
  refine ⟨hb, ?_, fun j => agree_update h i j _⟩
  obtain ⟨m, rfl, _⟩ := hb
  simp only [record, hn, h.openings]

theorem agree_keep {s s' t : State} {e : Event} (hs : Dated s) (h : Agree s s')
    (hstep : step s e = some t) (he : late s e = false) :
    ∃ t', step s' e = some t' ∧ Agree t t' ∧ answer s' e = answer s e := by
  rcases step_cases hstep with ⟨i, now, rfl, hi, rfl⟩ | ⟨i, epoch, rfl, hi, rfl⟩ |
    ⟨i, now, epoch, rfl, hi, rfl⟩
  · obtain ⟨hallow, herr⟩ := alike_allow h.breaker now
    have hi' := h.lookup (i := i) (by simp [hi])
    refine ⟨asked s' i now, by simp [step, hi', hi], ⟨hallow, h.openings, fun j => ?_⟩, ?_⟩
    · unfold asked
      rw [herr, h.openings]
      exact agree_update h i j _
    · simp only [answer, herr]
  · have hi' := h.lookup (i := i) (by simp [hi])
    exact ⟨_, by simp only [step, hi', hi], agree_record h i (alike_recordSuccess h.breaker), rfl⟩
  · have hi' := h.lookup (i := i) (by simp [hi])
    have hopen : s.breaker.state ≠ .stateOpen := by
      intro hopen
      have hlate := (lateFor_iff hi).mpr ⟨hs.lt hopen i epoch hi, by simp [hopen]⟩
      exact Bool.false_ne_true (he.symm.trans hlate)
    exact ⟨_, by simp only [step, hi', hi], agree_record h i (alike_recordFailure h.breaker hopen now), rfl⟩

theorem agree_late {s s' : State} {i : Nat} {b : Breaker} (h : Agree s s')
    (hb : s.breaker.state = .stateOpen) (hlike : ∃ n, b = {s.breaker with failures := n}) :
    Agree (record s i b) s' := by
  obtain ⟨n, rfl⟩ := hlike
  obtain ⟨m, hm, _⟩ := h.breaker
  refine ⟨⟨m, hm, by simp [record, hb]⟩, by simp [record, hb, h.openings], ?_⟩
  intro j
  change Function.update s.requests i _ j = _ ∨ Function.update s.requests i _ j = _
  by_cases hj : j = i
  · subst hj
    right
    rw [Function.update_self]
  · rw [Function.update_of_ne hj]
    exact h.requests j

theorem agree_skip {s s' t : State} {e : Event} (h : Agree s s') (hok : Harmless s e)
    (hstep : step s e = some t) (he : late s e = true) : Agree t s' ∧ answer s e = none := by
  obtain ⟨hopen, hfail⟩ := hok he
  rcases step_cases hstep with ⟨i, now, rfl, _, rfl⟩ | ⟨i, _, rfl, _, rfl⟩ | ⟨i, now, _, rfl, _, rfl⟩
  · cases he
  · exact ⟨agree_late h hopen ⟨0, recordSuccess_open _ hopen⟩, rfl⟩
  · refine ⟨agree_late h hopen ⟨s.breaker.failures + 1, ?_⟩, rfl⟩
    rcases Nat.lt_or_ge (s.breaker.failures + 1) s.breaker.maxFailures with hlt | hge
    · exact recordFailure_below _ now (by simp [hopen]) hlt
    · have hnow := (hfail i now rfl).resolve_left (Nat.not_lt.mpr hge)
      rw [recordFailure_full _ now hge, hnow, ← hopen]

/-- Leaving out the late outcomes of a run changes no answer, as long as they are harmless. -/
theorem answers_thinned {s : State} {es : List Event} (hs : Dated s) (hok : StepsMeet step Harmless s es) :
    outputs step answer s (thinned step late s es) = outputs step answer s es := by
  refine outputs_thinned step late answer (fun u u' => Dated u ∧ Agree u u') ?_ ?_ ⟨hs, .refl s⟩ hok
  · rintro u u' e t ⟨hu, h⟩ hok hstep he
    obtain ⟨h', hans⟩ := agree_skip h hok hstep he
    exact ⟨⟨dated_step hu hstep, h'⟩, hans⟩
  · rintro u u' e t ⟨hu, h⟩ _ hstep he
    obtain ⟨t', hstep', h', hans⟩ := agree_keep hu h hstep he
    exact ⟨t', hstep', ⟨dated_step hu hstep, h'⟩, hans⟩

theorem stepsMeet_unmoved_iff {s t : State} {es : List Event} (h : exec step s es = some t) :
    StepsMeet step Unmoved s es ↔ StepsMeet step Harmless s es := by
  induction es generalizing s with
  | nil => exact Iff.rfl
  | cons e es ih =>
    obtain ⟨s', hstep, hrest⟩ := (exec_cons_iff step).mp h
    refine and_congr (unmoved_iff hstep) ?_
    refine forall_congr' fun u => imp_congr_right fun hu => ?_
    obtain rfl : s' = u := Option.some.inj (hstep.symm.trans hu)
    exact ih hrest

/-- From a new breaker, over any interleaving of requests: the outcomes of requests admitted
before it opened have no effect until it closes again exactly if none of them arrives while it
is half-open and none is a failure that fills the counter again after the instant it opened. -/
theorem late_ignored_iff {maxFailures : Nat} {timeout : Int} {es : List Event} {t : State}
    (hrun : exec step (start maxFailures timeout) es = some t) :
    Ignored (start maxFailures timeout) es ↔ StepsMeet step Harmless (start maxFailures timeout) es := by
  constructor
  · intro h
    exact (stepsMeet_unmoved_iff hrun).mp h.1
  · intro h
    refine ⟨(stepsMeet_unmoved_iff hrun).mpr h, ?_⟩
    intro before during rest s hsplit hbefore _
    rw [hsplit, List.append_assoc] at h
    have hdated : Dated s := exec_invariant step Dated (fun u e v hu _ hstep => dated_step hu hstep)
      (dated_start maxFailures timeout) (h.of_append step) hbefore
    exact answers_thinned hdated ((h.of_append_right step hbefore).of_append step)

/-- Two requests are admitted and the failure of the first opens the breaker; the success of the
second comes while it is open, and its one test request closes it. -/
theorem late_ignored_success :
    let es : List Event := [.allow 0 0, .allow 1 0, .failure 0 1, .success 1, .allow 2 12, .success 2]
    (exec step (start 1 10) es).isSome ∧ Ignored (start 1 10) es := by
  intro es
  have hrun : exec step (start 1 10) es = some _ := rfl
  refine ⟨rfl, (late_ignored_iff hrun).mpr ?_⟩
  have hprompt : ∀ s e, late s e = false → Harmless s e := fun s e h hl =>
    absurd (h.symm.trans hl) Bool.false_ne_true
  refine stepsMeet_of_take step ?_
  intro n e t he ht
  have hn : n < es.length := (List.getElem?_eq_some_iff.mp he).1
  change n < 6 at hn
  interval_cases n
  case «3» =>
    cases he
    obtain rfl := Option.some.inj ht
    refine fun _ => ⟨rfl, ?_⟩
    intro i now h
    cases h
  all_goals
    cases he
    obtain rfl := Option.some.inj ht
    exact hprompt _ _ rfl

/-- The failing run: a slow request of the closed period fails while the breaker is open, and
the request that comes a time-out after the opening is refused. -/
theorem late_failure_postpones :
    ¬ ∀ (maxFailures : Nat) (timeout : Int) (es : List Event) (t : State),
      exec step (start maxFailures timeout) es = some t → Ignored (start maxFailures timeout) es := by
  intro hall
  have h := (hall 1 10 [.allow 0 0, .allow 1 0, .failure 0 1, .failure 1 5, .allow 2 12] _ rfl).2
    [.allow 0 0, .allow 1 0, .failure 0 1] [.failure 1 5, .allow 2 12] [] _ rfl rfl ?_
  · revert h
    decide
  · intro u hu
    refine visits_of_take step (fun v => v.breaker.state ≠ .stateClosed) ?_ hu
    intro n t hn ht
    change n ≤ 2 at hn
    interval_cases n
    all_goals
      obtain rfl := Option.some.inj ht
      decide

end ApiGateway.LateOutcomes
