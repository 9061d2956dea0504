import ApiGateway.CircuitBreaker
import Mathlib.Data.List.Induction
import Mathlib.Data.List.Pairwise

/-!
# What a sequence of calls does to a breaker

One breaker and any finite sequence of its calls, in any order. The counter of the source
is compared with the history: the failures recorded in a row at the end of the calls so
far. `RecordSuccess` and `RecordFailure` may come in every state, also while the breaker
is open, where nobody was admitted.
-/

namespace ApiGateway.BreakerTrace

open CircuitBreaker
set_option autoImplicit false

inductive Op where
  | allow
  | recordSuccess
  | recordFailure
  deriving DecidableEq, Repr

structure Call where
  op : Op
  now : Int
  deriving DecidableEq, Repr

def perform (b : Breaker) (c : Call) : Breaker :=
  match c.op with
  | .allow => (allow b c.now).1
  | .recordSuccess => recordSuccess b
  | .recordFailure => recordFailure b c.now

/-- The breaker after the calls `cs`. -/
def after (b : Breaker) (cs : List Call) : Breaker := cs.foldl perform b

def admits (b : Breaker) (c : Call) : Bool := c.op = .allow ∧ (allow b c.now).2 = none

def admissions : Breaker → List Call → Nat
  | _, [] => 0
  | b, c :: cs => (if admits b c then 1 else 0) + admissions (perform b c) cs

/-- The number of failures recorded since the last success recorded, or since the beginning. -/
def failuresInRow (cs : List Call) : Nat :=
  ((cs.reverse.filter fun c => c.op ≠ .allow).takeWhile fun c => c.op = .recordFailure).length

/-- `cs` ends where the breaker was created or with the call that closed it. -/
def JustClosed (b : Breaker) (cs : List Call) : Prop :=
  cs = [] ∨ ∃ before c, cs = before ++ [c] ∧ (after b before).state ≠ .stateClosed ∧
    (after b cs).state = .stateClosed

@[simp] theorem after_nil (b : Breaker) : after b [] = b := rfl

@[simp] theorem after_cons (b : Breaker) (c : Call) (cs : List Call) :
    after b (c :: cs) = after (perform b c) cs := rfl

theorem after_append (b : Breaker) (cs ds : List Call) :
    after b (cs ++ ds) = after (after b cs) ds := List.foldl_append

theorem after_concat (b : Breaker) (cs : List Call) (c : Call) :
    after b (cs ++ [c]) = perform (after b cs) c := by
  rw [after_append, after_cons, after_nil]

/-- What one call can do: nothing, let the test request of an open breaker through, reset
the counter, close, count a failure, or open. -/
theorem perform_cases (b : Breaker) (c : Call) :
    (c.op = .allow ∧ perform b c = b ∧ (admits b c = true ↔ b.state = .stateClosed)) ∨
    (c.op = .allow ∧ b.state = .stateOpen ∧ b.timeout ≤ c.now - b.openedAt ∧ admits b c = true ∧
      perform b c = {b with state := .stateHalfOpen}) ∨
    (c.op = .recordSuccess ∧ b.state ≠ .stateHalfOpen ∧ perform b c = {b with failures := 0}) ∨
    (c.op = .recordSuccess ∧ b.state = .stateHalfOpen ∧
      perform b c = {b with failures := 0, state := .stateClosed}) ∨
    (c.op = .recordFailure ∧ b.state ≠ .stateHalfOpen ∧ b.failures + 1 < b.maxFailures ∧
      perform b c = {b with failures := b.failures + 1}) ∨
    (c.op = .recordFailure ∧ (b.state = .stateHalfOpen ∨ b.maxFailures ≤ b.failures + 1) ∧
      perform b c = {b with failures := b.failures + 1, state := .stateOpen, openedAt := c.now}) := by
  rcases c with ⟨op, now⟩
  cases op with
  | allow =>
    cases hs : b.state with
    | stateClosed =>
      left
      simp [perform, admits, allow, hs]
    | stateHalfOpen =>
      left
      simp [perform, admits, allow, hs]
    | stateOpen =>
      by_cases ht : b.timeout ≤ now - b.openedAt
      · right; left
        simp [perform, admits, allow, hs, ht]
      · left
        simp [perform, admits, allow, hs, ht]
  | recordSuccess =>
    by_cases hs : b.state = .stateHalfOpen
    · right; right; right; left
      simp [perform, recordSuccess, hs]
    · right; right; left
      simp [perform, recordSuccess, hs]
  | recordFailure =>
    by_cases hopen : b.state = .stateHalfOpen ∨ b.failures + 1 ≥ b.maxFailures
    · right; right; right; right; right
      exact ⟨rfl, hopen, if_pos hopen⟩
    · right; right; right; right; left
      rw [not_or, Nat.not_le] at hopen
      exact ⟨rfl, hopen.1, hopen.2, if_neg (not_or.mpr ⟨hopen.1, Nat.not_le.mpr hopen.2⟩)⟩

theorem perform_bounds (b : Breaker) (c : Call) :
    (perform b c).maxFailures = b.maxFailures ∧ (perform b c).timeout = b.timeout := by
  rcases perform_cases b c with ⟨_, h, _⟩ | ⟨_, _, _, _, h⟩ | ⟨_, _, h⟩ | ⟨_, _, h⟩ | ⟨_, _, _, h⟩ | ⟨_, _, h⟩
  all_goals
    rw [h]
    exact ⟨rfl, rfl⟩

theorem after_bounds (b : Breaker) (cs : List Call) :
    (after b cs).maxFailures = b.maxFailures ∧ (after b cs).timeout = b.timeout := by
  induction cs generalizing b with
  | nil => exact ⟨rfl, rfl⟩
  | cons c cs ih =>
    obtain ⟨hm, ht⟩ := perform_bounds b c
    obtain ⟨hm', ht'⟩ := ih (perform b c)
    exact ⟨hm'.trans hm, ht'.trans ht⟩

section History

@[simp] theorem failuresInRow_nil : failuresInRow [] = 0 := rfl

theorem failuresInRow_concat (cs : List Call) (c : Call) :
    failuresInRow (cs ++ [c]) =
      match c.op with
      | .allow => failuresInRow cs
      | .recordSuccess => 0
      | .recordFailure => failuresInRow cs + 1 := by
  rcases c with ⟨op, now⟩
  cases op with
  | allow => simp [failuresInRow]
  | recordSuccess => simp [failuresInRow]
  | recordFailure => simp [failuresInRow]

/-- A success recorded cuts off everything before it. -/
theorem failuresInRow_append_success (cs ds : List Call) {c : Call} (hc : c.op = .recordSuccess) :
    failuresInRow (cs ++ [c] ++ ds) = failuresInRow ds := by
  induction ds using List.reverseRecOn with
  | nil => simp [failuresInRow_concat, hc]
  | append_singleton ds d ih =>
    rw [← List.append_assoc, failuresInRow_concat, failuresInRow_concat, ih]

theorem perform_failures (b : Breaker) (c : Call) :
    (perform b c).failures =
      match c.op with
      | .allow => b.failures
      | .recordSuccess => 0
      | .recordFailure => b.failures + 1 := by
  rcases perform_cases b c with ⟨ho, h, _⟩ | ⟨ho, _, _, _, h⟩ | ⟨ho, _, h⟩ | ⟨ho, _, h⟩ |
    ⟨ho, _, _, h⟩ | ⟨ho, _, h⟩
  all_goals rw [h, ho]

/-- The counter is the history, in every state. -/
theorem failures_after (maxFailures : Nat) (timeout : Int) (cs : List Call) :
    (after (newBreaker maxFailures timeout) cs).failures = failuresInRow cs := by
  induction cs using List.reverseRecOn with
  | nil => rfl
  | append_singleton cs c ih => rw [after_concat, perform_failures, failuresInRow_concat, ih]

end History

section Closed
variable {b : Breaker}

theorem below_perform (c : Call) (hm : 1 ≤ b.maxFailures)
    (hb : b.state = .stateClosed → b.failures < b.maxFailures)
    (hs : (perform b c).state = .stateClosed) : (perform b c).failures < (perform b c).maxFailures := by
  rcases perform_cases b c with ⟨_, h, _⟩ | ⟨_, _, _, _, h⟩ | ⟨_, _, h⟩ | ⟨_, _, h⟩ | ⟨_, _, hlt, h⟩ | ⟨_, _, h⟩
  · rw [h] at hs ⊢
    exact hb hs
  · rw [h] at hs
    cases hs
  · rw [h]
    exact hm
  · rw [h]
    exact hm
  · rw [h]
    exact hlt
  · rw [h] at hs
    cases hs

theorem below_after (cs : List Call) (hm : 1 ≤ b.maxFailures)
    (hb : b.state = .stateClosed → b.failures < b.maxFailures)
    (hs : (after b cs).state = .stateClosed) : (after b cs).failures < b.maxFailures := by
  induction cs generalizing b with
  | nil => exact hb hs
  | cons c cs ih =>
    have hmax := (perform_bounds b c).1
    have h := ih (b := perform b c) (by rwa [hmax]) (below_perform c hm hb) hs
    rwa [hmax] at h

theorem allow_closed (hs : b.state = .stateClosed) (now : Int) : (allow b now).2 = none := by
  simp [allow, hs]

/-- A closed breaker opens at the failure that fills the counter and at no other call. -/
theorem perform_closed (c : Call) (hs : b.state = .stateClosed) (hb : b.failures < b.maxFailures) :
    (perform b c).state =
      if c.op = .recordFailure ∧ b.failures + 1 = b.maxFailures then .stateOpen else .stateClosed := by
  rcases perform_cases b c with ⟨ho, h, _⟩ | ⟨_, hopen, _⟩ | ⟨ho, _, h⟩ | ⟨_, hhalf, _⟩ |
    ⟨ho, _, hlt, h⟩ | ⟨ho, hor, h⟩
  · rw [h, hs, if_neg (by simp [ho])]
  · rw [hs] at hopen
    cases hopen
  · rw [h, if_neg (by simp [ho])]
    exact hs
  · rw [hs] at hhalf
    cases hhalf
  · rw [h, if_neg (by omega)]
    exact hs
  · have hmax : b.maxFailures ≤ b.failures + 1 := hor.resolve_left (by simp [hs])
    rw [h, if_pos ⟨ho, by omega⟩]

/-- Only `RecordSuccess` closes. -/
theorem closes_with_success {c : Call} (hb : b.state ≠ .stateClosed)
    (hs : (perform b c).state = .stateClosed) : c.op = .recordSuccess := by
  rcases perform_cases b c with ⟨_, h, _⟩ | ⟨_, _, _, _, h⟩ | ⟨ho, _, _⟩ | ⟨ho, _, _⟩ | ⟨_, _, _, h⟩ | ⟨_, _, h⟩
  · rw [h] at hs
    exact absurd hs hb
  · rw [h] at hs
    cases hs
  · exact ho
  · exact ho
  · rw [h] at hs
    exact absurd hs hb
  · rw [h] at hs
    cases hs

/-- The calls since the breaker was created or last closed. -/
theorem exists_since_closed (hb : b.state = .stateClosed) (cs : List Call)
    (hs : (after b cs).state = .stateClosed) :
    ∃ before during, cs = before ++ during ∧ JustClosed b before ∧
      ∀ k, (after b (before ++ during.take k)).state = .stateClosed := by
  induction cs using List.reverseRecOn with
  | nil => exact ⟨[], [], rfl, .inl rfl, fun k => by simpa using hb⟩
  | append_singleton cs c ih =>
    by_cases hc : (after b cs).state = .stateClosed
    · obtain ⟨before, during, rfl, hjust, hall⟩ := ih hc
      refine ⟨before, during ++ [c], List.append_assoc .., hjust, ?_⟩
      intro k
      rcases Nat.lt_or_ge during.length k with hk | hk
      · rw [List.take_of_length_le (by rw [List.length_append]; exact hk), ← List.append_assoc]
        exact hs
      · rw [List.take_append_of_le_length hk]
        exact hall k
    · refine ⟨cs ++ [c], [], (List.append_nil _).symm, .inr ⟨cs, c, rfl, hc, hs⟩, ?_⟩
      intro k
      simpa using hs

theorem failuresInRow_since_closed {before : List Call} (h : JustClosed b before) (cs : List Call) :
    failuresInRow (before ++ cs) = failuresInRow cs := by
  rcases h with rfl | ⟨xs, c, rfl, hxs, hs⟩
  · rfl
  · rw [after_concat] at hs
    exact failuresInRow_append_success xs cs (closes_with_success hxs hs)

end Closed

section Open
variable {b : Breaker} {t τ : Int}

/-- `t` is when the breaker opened and `τ` when its last call was made: either it has been
open ever since, or the time-out has run. -/
def Waiting (b : Breaker) (t τ : Int) : Prop :=
  (b.state = .stateOpen ∧ t ≤ b.openedAt) ∨ t + b.timeout ≤ τ

theorem waiting_opened {c : Call} (hb : b.state ≠ .stateOpen) (hs : (perform b c).state = .stateOpen) :
    Waiting (perform b c) c.now c.now := by
  rcases perform_cases b c with ⟨_, h, _⟩ | ⟨_, _, _, _, h⟩ | ⟨_, _, h⟩ | ⟨_, _, h⟩ | ⟨_, _, _, h⟩ | ⟨_, _, h⟩
  case inr.inr.inr.inr.inr =>
    rw [h]
    exact .inl ⟨rfl, Int.le_refl _⟩
  all_goals
    rw [h] at hs
    first
    | exact absurd hs hb
    | cases hs

theorem waiting_perform {c : Call} (h : Waiting b t τ) (hτ : τ ≤ c.now) (ht : t ≤ c.now) :
    Waiting (perform b c) t c.now := by
  rcases h with ⟨hopen, hat⟩ | hover
  · rcases perform_cases b c with ⟨_, h, _⟩ | ⟨_, _, hwait, _, h⟩ | ⟨_, _, h⟩ | ⟨_, hhalf, _⟩ |
      ⟨_, _, _, h⟩ | ⟨_, _, h⟩
    · rw [h]
      exact .inl ⟨hopen, hat⟩
    · rw [h]
      right
      change t + b.timeout ≤ c.now
      omega
    · rw [h]
      exact .inl ⟨hopen, hat⟩
    · rw [hopen] at hhalf
      cases hhalf
    · rw [h]
      exact .inl ⟨hopen, hat⟩
    · rw [h]
      exact .inl ⟨rfl, ht⟩
  · right
    rw [(perform_bounds b c).2]
    omega

theorem waiting_after {cs : List Call} (h : Waiting b t τ) (ht : t ≤ τ) (hcs : ∀ c ∈ cs, τ ≤ c.now)
    (hsorted : cs.Pairwise fun c d => c.now ≤ d.now) {d : Call} (hd : ∀ c ∈ cs, c.now ≤ d.now)
    (hτ : τ ≤ d.now) (ha : admits (after b cs) d = true) : t + b.timeout ≤ d.now := by
  induction cs generalizing b τ with
  | nil =>
    rcases h with ⟨hopen, hat⟩ | hover
    · rcases perform_cases b d with ⟨_, _, hiff⟩ | ⟨_, _, hwait, _⟩ | ⟨ho, _⟩ | ⟨ho, _⟩ | ⟨ho, _⟩ | ⟨ho, _⟩
      · have hclosed := hiff.mp ha
        rw [hopen] at hclosed
        cases hclosed
      · omega
      all_goals simp [admits, ho] at ha
    · omega
  | cons c cs ih =>
    obtain ⟨hc, hrest⟩ := List.pairwise_cons.mp hsorted
    have hnow := hcs c List.mem_cons_self
    have hnext := ih (waiting_perform h hnow (Int.le_trans ht hnow)) (Int.le_trans ht hnow) hc hrest
      (fun e he => hd e (List.mem_cons_of_mem c he)) (hd c List.mem_cons_self) ha
    rwa [(perform_bounds b c).2] at hnext

theorem admissions_halfOpen (hs : b.state = .stateHalfOpen) {cs : List Call}
    (hcs : ∀ c ∈ cs, c.op = .allow) : admissions b cs = 0 := by
  induction cs with
  | nil => rfl
  | cons c cs ih =>
    have ho := hcs c List.mem_cons_self
    have hsame : perform b c = b := by simp [perform, ho, allow, hs]
    have hno : admits b c = false := by simp [admits, allow, hs]
    simp only [admissions, hsame, hno, ih fun d hd => hcs d (List.mem_cons_of_mem c hd)]
    rfl

/-- Without a `Record` call between them, a breaker that is not closed admits one request. -/
theorem admissions_le_one (hs : b.state ≠ .stateClosed) {cs : List Call}
    (hcs : ∀ c ∈ cs, c.op = .allow) : admissions b cs ≤ 1 := by
  induction cs with
  | nil => exact Nat.zero_le 1
  | cons c cs ih =>
    have ho := hcs c List.mem_cons_self
    have hrest : ∀ d ∈ cs, d.op = .allow := fun d hd => hcs d (List.mem_cons_of_mem c hd)
    rcases perform_cases b c with ⟨_, h, hiff⟩ | ⟨_, _, _, hyes, h⟩ | ⟨hr, _⟩ | ⟨hr, _⟩ | ⟨hr, _⟩ | ⟨hr, _⟩
    · have hno : ¬ admits b c = true := fun ha => hs (hiff.mp ha)
      rw [admissions, if_neg hno, h, Nat.zero_add]
      exact ih hrest
    · have hone : admissions b (c :: cs) = 1 := by
        rw [admissions, if_pos hyes, h, admissions_halfOpen rfl hrest]
      exact Nat.le_of_eq hone
    all_goals
      rw [ho] at hr
      cases hr

end Open

/-- For every threshold and time-out and every sequence of calls in the order of their times.
While the breaker is closed it admits everybody, its counter is below the threshold, and it
opens exactly at the failure that makes `maxFailures` in a row since it was created or last
closed. From the failure that opens it on, nobody is admitted before the time-out has run.
While it is not closed, at most one request is admitted from one `Record` call to the next. -/
theorem breaker_trace_law (maxFailures : Nat) (timeout : Int) (hmax : 1 ≤ maxFailures)
    {cs : List Call} (hcs : cs.Pairwise fun c d => c.now ≤ d.now) :
    let b := newBreaker maxFailures timeout
    (∀ before rest, cs = before ++ rest → (after b before).state = .stateClosed →
      (after b before).failures < maxFailures ∧ ∀ now, (allow (after b before) now).2 = none) ∧
    (∀ before c rest, cs = before ++ c :: rest → (after b before).state = .stateClosed →
      ∃ earlier during, before = earlier ++ during ∧ JustClosed b earlier ∧
        (∀ k, (after b (earlier ++ during.take k)).state = .stateClosed) ∧
        (after b (before ++ [c])).state =
          if c.op = .recordFailure ∧ failuresInRow (during ++ [c]) = maxFailures then .stateOpen
          else .stateClosed) ∧
    (∀ before c between d rest, cs = before ++ c :: (between ++ d :: rest) →
      (after b before).state ≠ .stateOpen → (after b (before ++ [c])).state = .stateOpen →
      admits (after b (before ++ c :: between)) d = true → c.now + timeout ≤ d.now) ∧
    (∀ before between rest, cs = before ++ between ++ rest → (after b before).state ≠ .stateClosed →
      (∀ c ∈ between, c.op = .allow) → admissions (after b before) between ≤ 1) := by
  intro b
  have hbelow : ∀ before, (after b before).state = .stateClosed →
      (after b before).failures < maxFailures :=
    fun before hs => below_after (b := b) before hmax (fun _ => hmax) hs
  refine ⟨?_, ?_, ?_, ?_⟩
  · intro before rest _ hs
    exact ⟨hbelow before hs, allow_closed hs⟩
  · intro before c rest _ hs
    obtain ⟨earlier, during, rfl, hjust, hall⟩ := exists_since_closed rfl before hs
    refine ⟨earlier, during, rfl, hjust, hall, ?_⟩
    have hcount : (after b (earlier ++ during)).failures = failuresInRow during :=
      (failures_after maxFailures timeout _).trans (failuresInRow_since_closed hjust during)
    have hm : (after b (earlier ++ during)).maxFailures = maxFailures := (after_bounds b _).1
    rw [after_concat, perform_closed c hs (by rw [hm]; exact hbelow _ hs), hm, hcount]
    by_cases ho : c.op = .recordFailure
    · simp only [failuresInRow_concat, ho]
    · simp [ho]
  · intro before c between d rest hsplit hnot hopen ha
    rw [hsplit] at hcs
    obtain ⟨hfirst, hrest⟩ := List.pairwise_cons.mp (List.pairwise_append.mp hcs).2.1
    obtain ⟨hbetween, _, hlast⟩ := List.pairwise_append.mp hrest
    rw [after_concat] at hopen
    rw [after_append, after_cons] at ha
    have hlate := waiting_after (waiting_opened hnot hopen) (Int.le_refl _)
      (fun e he => hfirst e (List.mem_append_left _ he)) hbetween
      (fun e he => hlast e he d List.mem_cons_self)
      (hfirst d (List.mem_append_right _ List.mem_cons_self)) ha
    rwa [(perform_bounds _ c).2, (after_bounds b before).2] at hlate
  · intro before between rest _ hs hall
    exact admissions_le_one hs hall

/-- Two failures open a breaker of threshold two; the second of three later requests tests it. -/
theorem breaker_trace_law_tested :
    let opening : List Call := [⟨.recordFailure, 0⟩, ⟨.recordFailure, 1⟩]
    let asking : List Call := [⟨.allow, 5⟩, ⟨.allow, 12⟩, ⟨.allow, 13⟩]
    (after (newBreaker 2 10) opening).state = .stateOpen ∧
      admits (after (newBreaker 2 10) (opening ++ [⟨.allow, 5⟩])) ⟨.allow, 12⟩ = true ∧
      (1 : Int) + 10 ≤ 12 ∧ admissions (after (newBreaker 2 10) opening) asking ≤ 1 := by
  intro opening asking
  obtain ⟨_, _, hwait, hone⟩ := breaker_trace_law 2 10 (by decide)
    (show (opening ++ asking).Pairwise fun c d => c.now ≤ d.now by decide)
  refine ⟨by decide, by decide, ?_, ?_⟩
  · exact hwait [⟨.recordFailure, 0⟩] ⟨.recordFailure, 1⟩ [⟨.allow, 5⟩] ⟨.allow, 12⟩ [⟨.allow, 13⟩] rfl
      (by decide) (by decide) (by decide)
  · exact hone opening asking [] (List.append_nil _).symm (by decide) (by decide)

end ApiGateway.BreakerTrace
