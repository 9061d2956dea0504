import Mathlib.Logic.Function.Basic

/-!
# Tables that change at one key

A table says what is stored under each key, if anything: a function to `Option`. A step of a
machine stores under one key or drops it, and an invariant of the machine is a statement
about everything that is stored. The rules here say what is stored after the change and what
such a statement needs to survive it.
-/

namespace ApiGateway.Tables

set_option autoImplicit false

universe u v w
variable {α : Type u} {β : Type v} {γ : Type w} [DecidableEq α] {f : α → Option β} {i j : α} {b c : β}

theorem update_cases (h : Function.update f i (some b) j = some c) :
    (j = i ∧ c = b) ∨ (j ≠ i ∧ f j = some c) := by
  by_cases hj : j = i
  · subst hj
    rw [Function.update_self] at h
    exact .inl ⟨rfl, (Option.some.inj h).symm⟩
  · rw [Function.update_of_ne hj] at h
    exact .inr ⟨hj, h⟩

theorem erase_cases (h : Function.update f i none j = some c) : j ≠ i ∧ f j = some c := by
  by_cases hj : j = i
  · subst hj
    rw [Function.update_self] at h
    cases h
  · rw [Function.update_of_ne hj] at h
    exact ⟨hj, h⟩

theorem forall_update {P : α → β → Prop} (h : ∀ k x, f k = some x → P k x) (hb : P i b) :
    ∀ k x, Function.update f i (some b) k = some x → P k x := by
  intro k x hx
  rcases update_cases hx with ⟨rfl, rfl⟩ | ⟨_, hold⟩
  · exact hb
  · exact h k x hold

/-- Two tables related key by key stay so when they change at the same key to related things. -/
theorem related_update {g : α → Option γ} {R : Option β → Option γ → Prop} (h : ∀ k, R (f k) (g k))
    {x : Option β} {y : Option γ} (hxy : R x y) (k : α) :
    R (Function.update f i x k) (Function.update g i y k) := by
  by_cases hk : k = i
  · subst hk
    rw [Function.update_self, Function.update_self]
    exact hxy
  · rw [Function.update_of_ne hk, Function.update_of_ne hk]
    exact h k

end ApiGateway.Tables
