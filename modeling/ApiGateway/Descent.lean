import ApiGateway.Runs
import Mathlib.Algebra.Order.BigOperators.Group.Finset

/-!
# Runs that come to an end

Every party of a machine has a rank. A step lowers the rank of the party that takes it and raises
nobody's. Then a party takes no more steps than its rank when the run begins, however the steps of
the others fall in between, and a run of finitely many parties is no longer than their ranks
together.
-/

namespace ApiGateway.Descent

open Runs
set_option autoImplicit false

universe u v w
variable {σ : Type u} {ε : Type v} {ι : Type w} [DecidableEq ι]

structure Descends (step : σ → ε → Option σ) (owner : ε → Option ι) (Inv : σ → Prop) (rank : σ → ι → Nat) :
    Prop where
  keep : ∀ s e t, Inv s → step s e = some t → Inv t
  own : ∀ s e t i, Inv s → step s e = some t → owner e = some i → rank t i < rank s i
  others : ∀ s e t i, Inv s → step s e = some t → owner e ≠ some i → rank t i ≤ rank s i

variable {step : σ → ε → Option σ} {owner : ε → Option ι} {Inv : σ → Prop} {rank : σ → ι → Nat} {s t : σ}
  {es : List ε}

theorem Descends.countP_add_rank_le (h : Descends step owner Inv rank) (hs : Inv s)
    (he : exec step s es = some t) (i : ι) :
    (es.countP fun e => owner e = some i) + rank t i ≤ rank s i := by
  induction es generalizing s with
  | nil =>
    cases he
    simp
  | cons e es ih =>
    obtain ⟨s', hstep, hrest⟩ := (exec_cons_iff step).mp he
    have hlater := ih (h.keep s e s' hs hstep) hrest
    rw [List.countP_cons]
    by_cases hi : owner e = some i
    · have hlower := h.own s e s' i hs hstep hi
      simp only [hi, decide_true, if_true]
      omega
    · have hsame := h.others s e s' i hs hstep hi
      simp only [hi, decide_false, Bool.false_eq_true, if_false]
      omega

theorem Descends.sum_lt (h : Descends step owner Inv rank) (hs : Inv s) {e : ε} {A : Finset ι} {i : ι}
    (hstep : step s e = some t) (hi : owner e = some i) (hA : i ∈ A) :
    ∑ k ∈ A, rank t k < ∑ k ∈ A, rank s k := by
  refine Finset.sum_lt_sum ?_ ⟨i, hA, h.own s e t i hs hstep hi⟩
  intro k _
  by_cases hk : owner e = some k
  · exact (h.own s e t k hs hstep hk).le
  · exact h.others s e t k hs hstep hk

theorem Descends.length_le_sum (h : Descends step owner Inv rank) (hs : Inv s) (A : Finset ι)
    (hA : ∀ e ∈ es, ∃ i ∈ A, owner e = some i) (he : exec step s es = some t) :
    es.length ≤ ∑ i ∈ A, rank s i := by
  induction es generalizing s with
  | nil => exact Nat.zero_le _
  | cons e es ih =>
    obtain ⟨s', hstep, hrest⟩ := (exec_cons_iff step).mp he
    obtain ⟨i, hi, howner⟩ := hA e List.mem_cons_self
    have hlater := ih (h.keep s e s' hs hstep) (fun e' he' => hA e' (List.mem_cons_of_mem e he')) hrest
    have hlower := h.sum_lt hs hstep howner hi
    rw [List.length_cons]
    omega

end ApiGateway.Descent
