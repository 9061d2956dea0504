import Mathlib.Data.List.Basic

/-!
# The circuit breaker

`internal/circuitbreaker/breaker.go`. Every method holds the mutex from its first
line to its last, so a call is one atomic step on the record; the two methods that
read the clock take the reading as an argument. Times are nanoseconds.
-/

namespace ApiGateway.CircuitBreaker

set_option autoImplicit false

inductive State where
  | stateClosed
  | stateOpen
  | stateHalfOpen
  deriving DecidableEq, Repr

structure Breaker where
  state : State
  failures : Nat
  maxFailures : Nat
  timeout : Int
  openedAt : Int
  deriving DecidableEq, Repr

inductive AllowError where
  | errOpen
  deriving DecidableEq, Repr

def newBreaker (maxFailures : Nat) (timeout : Int) : Breaker :=
  ⟨.stateClosed, 0, maxFailures, timeout, 0⟩

/-- `Allow`; the error is `none` when the request may proceed. -/
def allow (b : Breaker) (now : Int) : Breaker × Option AllowError :=
  match b.state with
  | .stateOpen =>
    if now - b.openedAt ≥ b.timeout then ({b with state := .stateHalfOpen}, none)
    else (b, some .errOpen)
  | .stateHalfOpen => (b, some .errOpen)
  | .stateClosed => (b, none)

def recordSuccess (b : Breaker) : Breaker :=
  let b := {b with failures := 0}
  if b.state = .stateHalfOpen then {b with state := .stateClosed} else b

def recordFailure (b : Breaker) (now : Int) : Breaker :=
  let b := {b with failures := b.failures + 1}
  if b.state = .stateHalfOpen ∨ b.failures ≥ b.maxFailures then
    {b with state := .stateOpen, openedAt := now}
  else b

@[simp] theorem newBreaker_state (maxFailures : Nat) (timeout : Int) :
    (newBreaker maxFailures timeout).state = .stateClosed := rfl

theorem allow_rejected {b : Breaker} {now : Int} (h : (allow b now).2 = some .errOpen) :
    (allow b now).1 = b := by
  unfold allow at h ⊢
  cases hs : b.state with
  | stateClosed => simp [hs] at h
  | stateHalfOpen => rfl
  | stateOpen =>
    simp only [hs] at h ⊢
    split
    · simp_all
    · rfl

/-- No `Record` call leaves the breaker half-open: it closes it or opens it again. -/
theorem recordSuccess_ne_halfOpen (b : Breaker) : (recordSuccess b).state ≠ .stateHalfOpen := by
  unfold recordSuccess
  by_cases h : b.state = .stateHalfOpen
  · simp [h]
  · simp [h]

theorem recordFailure_ne_halfOpen (b : Breaker) (now : Int) :
    (recordFailure b now).state ≠ .stateHalfOpen := by
  unfold recordFailure
  by_cases h : b.state = .stateHalfOpen
  · simp [h]
  · dsimp only
    split
    · simp
    · exact h

section Calls
variable (b : Breaker) (now : Int)

theorem recordSuccess_open (h : b.state = .stateOpen) : recordSuccess b = {b with failures := 0} := by
  simp [recordSuccess, h]

theorem recordSuccess_halfOpen (h : b.state = .stateHalfOpen) :
    recordSuccess b = {b with failures := 0, state := .stateClosed} := by
  simp [recordSuccess, h]

theorem recordFailure_halfOpen (h : b.state = .stateHalfOpen) :
    recordFailure b now = {b with failures := b.failures + 1, state := .stateOpen, openedAt := now} := by
  simp [recordFailure, h]

theorem recordFailure_full (h : b.maxFailures ≤ b.failures + 1) :
    recordFailure b now = {b with failures := b.failures + 1, state := .stateOpen, openedAt := now} := by
  simp [recordFailure, h]

theorem recordFailure_below (hs : b.state ≠ .stateHalfOpen) (h : b.failures + 1 < b.maxFailures) :
    recordFailure b now = {b with failures := b.failures + 1} := by
  simp [recordFailure, hs, Nat.not_le.mpr h]

/-- `Allow` leaves a breaker open only by refusing. -/
theorem allow_stays_open (h : (allow b now).1.state = .stateOpen) :
    b.state = .stateOpen ∧ (allow b now).2 ≠ none := by
  unfold allow at h ⊢
  cases hs : b.state with
  | stateClosed => simp [hs] at h
  | stateHalfOpen => simp [hs] at h
  | stateOpen =>
    simp only [hs] at h ⊢
    split at h
    · cases h
    · rename_i hwait
      simp [hwait]

end Calls

end ApiGateway.CircuitBreaker
