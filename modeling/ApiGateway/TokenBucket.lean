import Mathlib.Algebra.Order.Field.Basic
import Mathlib.Tactic.Linarith
import Mathlib.Tactic.Ring

/-!
# Token buckets over an ordered field

A bucket of size `burst` that gains `rate` tokens for each unit of time, and a request
that takes one token if a whole one is there. Nothing here knows how the level is
stored or when it is written back: `refill` and `spend` are the two operations every
such limiter is made of, and the lemmas say how they compose.
-/

namespace ApiGateway.TokenBucket

set_option autoImplicit false

universe u
variable {K : Type u} [Field K] [LinearOrder K]

def refill (burst rate tokens elapsed : K) : K := min burst (tokens + elapsed * rate)

def spend (tokens : K) : K × Bool :=
  if 1 ≤ tokens then (tokens - 1, true) else (tokens, false)

/-- The level after `n` requests at one instant, and their answers. -/
def drain : Nat → K → K × List Bool
  | 0, tokens => (tokens, [])
  | n + 1, tokens =>
    ((drain n (spend tokens).1).1, (spend tokens).2 :: (drain n (spend tokens).1).2)

theorem refill_le_burst (burst rate tokens elapsed : K) :
    refill burst rate tokens elapsed ≤ burst := min_le_left _ _

theorem refill_le_add (burst rate tokens elapsed : K) :
    refill burst rate tokens elapsed ≤ tokens + elapsed * rate := min_le_right _ _

theorem refill_eq_burst {burst rate tokens elapsed : K} (h : burst ≤ tokens + elapsed * rate) :
    refill burst rate tokens elapsed = burst := min_eq_left h

theorem refill_eq_add {burst rate tokens elapsed : K} (h : tokens + elapsed * rate ≤ burst) :
    refill burst rate tokens elapsed = tokens + elapsed * rate := min_eq_right h

theorem refill_zero {burst tokens : K} (rate : K) (h : tokens ≤ burst) :
    refill burst rate tokens 0 = tokens := by
  rw [refill_eq_add (by simpa using h)]
  simp

theorem spend_of_le {tokens : K} (h : 1 ≤ tokens) : spend tokens = (tokens - 1, true) := if_pos h

theorem spend_of_lt {tokens : K} (h : tokens < 1) : spend tokens = (tokens, false) :=
  if_neg (not_le.mpr h)

theorem spend_of_denied {tokens : K} (h : (spend tokens).2 = false) : (spend tokens).1 = tokens := by
  rcases le_or_gt 1 tokens with hle | hlt
  · rw [spend_of_le hle] at h
    cases h
  · rw [spend_of_lt hlt]

theorem spend_balance (tokens : K) :
    (spend tokens).1 + (if (spend tokens).2 = true then 1 else 0) = tokens := by
  unfold spend
  split
  · simp
  · simp

theorem drain_of_lt (n : Nat) {tokens : K} (h : tokens < 1) :
    drain n tokens = (tokens, List.replicate n false) := by
  induction n with
  | zero => rfl
  | succ n ih => simp only [drain, spend_of_lt h, ih, List.replicate_succ]

section Ordered
variable [IsStrictOrderedRing K]

theorem refill_nonneg {burst rate tokens elapsed : K} (hb : 0 ≤ burst) (hr : 0 ≤ rate)
    (ht : 0 ≤ tokens) (he : 0 ≤ elapsed) : 0 ≤ refill burst rate tokens elapsed :=
  le_min hb (add_nonneg ht (mul_nonneg he hr))

/-- Waiting twice is waiting once for the sum: what the cap cuts off in between is cut off
at the end anyway. -/
theorem refill_refill {burst rate : K} (tokens : K) {a b : K} (hr : 0 ≤ rate) (hb : 0 ≤ b) :
    refill burst rate (refill burst rate tokens a) b = refill burst rate tokens (a + b) := by
  have hgain : 0 ≤ b * rate := mul_nonneg hb hr
  unfold refill
  rcases le_total burst (tokens + a * rate) with h | h
  · rw [min_eq_left h, min_eq_left (by linarith), min_eq_left (by linarith)]
  · rw [min_eq_right h, add_mul, add_assoc]

theorem spend_nonneg {tokens : K} (h : 0 ≤ tokens) : 0 ≤ (spend tokens).1 := by
  unfold spend
  split
  · apply sub_nonneg.mpr
    assumption
  · exact h

theorem spend_le (tokens : K) : (spend tokens).1 ≤ tokens := by
  have h := spend_balance tokens
  split at h <;> linarith

theorem drain_of_le {n : Nat} {tokens : K} (h : (n : K) ≤ tokens) :
    drain n tokens = (tokens - n, List.replicate n true) := by
  induction n generalizing tokens with
  | zero => simp [drain]
  | succ n ih =>
    push_cast at h
    have hn : (0 : K) ≤ n := Nat.cast_nonneg n
    have hrest : (n : K) ≤ tokens - 1 := by linarith
    have hone : 1 ≤ tokens := by linarith
    simp only [drain, spend_of_le hone, ih hrest, List.replicate_succ]
    push_cast
    rw [sub_sub, add_comm]

theorem le_of_drain {n : Nat} {tokens : K} (h0 : 0 ≤ tokens)
    (h : (drain n tokens).2 = List.replicate n true) : (n : K) ≤ tokens := by
  induction n generalizing tokens with
  | zero => simpa using h0
  | succ n ih =>
    simp only [drain, List.replicate_succ, List.cons.injEq] at h
    obtain ⟨hfirst, hrest⟩ := h
    have hone : 1 ≤ tokens := by
      by_contra hlt
      rw [spend_of_lt (not_le.mp hlt)] at hfirst
      simp at hfirst
    rw [spend_of_le hone] at hrest
    have hn := ih (sub_nonneg.mpr hone) hrest
    push_cast
    linarith

theorem drain_natCast {m n : Nat} (h : m ≤ n) :
    drain n (m : K) = (0, List.replicate m true ++ List.replicate (n - m) false) := by
  induction m generalizing n with
  | zero => simp [drain_of_lt n (zero_lt_one' K)]
  | succ m ih =>
    obtain ⟨k, rfl⟩ : ∃ k, n = k + 1 := ⟨n - 1, by omega⟩
    have hone : (1 : K) ≤ ((m + 1 : Nat) : K) := by
      have hm : (0 : K) ≤ m := Nat.cast_nonneg m
      push_cast
      linarith
    have hprev : ((m + 1 : Nat) : K) - 1 = m := by
      push_cast
      ring
    have hsub : k + 1 - (m + 1) = k - m := by omega
    simp only [drain, spend_of_le hone, hprev, ih (show m ≤ k by omega), hsub,
      List.replicate_succ, List.cons_append]

end Ordered

end ApiGateway.TokenBucket
