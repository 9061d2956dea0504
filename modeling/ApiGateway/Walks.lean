import Mathlib.Algebra.Order.Group.Defs
import Mathlib.Algebra.Order.Group.MinMax
import Mathlib.Tactic.Abel

/-!
# Walks on an ordered group: how far up in all, and how far apart

A list of positions read as a walk. `rise` adds up the moves forward and forgets the
moves back; `span` is the distance between the farthest two positions. On a walk that
never goes back the two agree, and a walk that goes back and forth can rise by any
multiple of its span. Repeating each position a number of times changes neither.
-/

namespace ApiGateway.Walks

set_option autoImplicit false

universe u
variable {G : Type u}

def stutter (k : Nat) (xs : List G) : List G := xs.flatMap (List.replicate k)

theorem mem_stutter {k : Nat} (hk : 1 ≤ k) {xs : List G} {z : G} : z ∈ stutter k xs ↔ z ∈ xs := by
  have hk0 : k ≠ 0 := by omega
  simp only [stutter, List.mem_flatMap, List.mem_replicate, ne_eq, hk0, not_false_eq_true, true_and]
  constructor
  · rintro ⟨a, ha, rfl⟩
    exact ha
  · intro hz
    exact ⟨z, hz, rfl⟩

section Order
variable [LinearOrder G]

def high (x : G) (xs : List G) : G := xs.foldr max x

def low (x : G) (xs : List G) : G := xs.foldr min x

theorem le_high {x z : G} {xs : List G} (h : z ∈ x :: xs) : z ≤ high x xs := by
  induction xs with
  | nil =>
    rw [List.mem_singleton.mp h]
    exact le_refl x
  | cons y ys ih =>
    rcases List.mem_cons.mp h with rfl | h
    · exact le_max_of_le_right (ih List.mem_cons_self)
    · rcases List.mem_cons.mp h with rfl | h
      · exact le_max_left _ _
      · exact le_max_of_le_right (ih (List.mem_cons_of_mem x h))

theorem high_mem (x : G) (xs : List G) : high x xs ∈ x :: xs := by
  induction xs with
  | nil => exact List.mem_singleton.mpr rfl
  | cons y ys ih =>
    rcases max_choice y (high x ys) with h | h
    · change max y (high x ys) ∈ _
      rw [h]
      simp
    · change max y (high x ys) ∈ _
      rw [h]
      rcases List.mem_cons.mp ih with h | h
      · rw [h]
        exact List.mem_cons_self
      · exact List.mem_cons_of_mem x (List.mem_cons_of_mem y h)

theorem low_le {x z : G} {xs : List G} (h : z ∈ x :: xs) : low x xs ≤ z :=
  le_high (G := Gᵒᵈ) h

theorem low_mem (x : G) (xs : List G) : low x xs ∈ x :: xs := high_mem (G := Gᵒᵈ) x xs

end Order

variable [AddCommGroup G] [LinearOrder G]

def riseFrom : G → List G → G
  | _, [] => 0
  | x, y :: ys => max 0 (y - x) + riseFrom y ys

def rise : List G → G
  | [] => 0
  | x :: xs => riseFrom x xs

def span : List G → G
  | [] => 0
  | x :: xs => high x xs - low x xs

theorem span_congr {xs ys : List G} (h : ∀ z, z ∈ xs ↔ z ∈ ys) : span xs = span ys := by
  cases xs with
  | nil =>
    cases ys with
    | nil => rfl
    | cons y ys =>
      have := (h y).mpr List.mem_cons_self
      simp at this
  | cons x xs =>
    cases ys with
    | nil =>
      have := (h x).mp List.mem_cons_self
      simp at this
    | cons y ys =>
      have hhigh : high x xs = high y ys :=
        le_antisymm (le_high ((h _).mp (high_mem x xs))) (le_high ((h _).mpr (high_mem y ys)))
      have hlow : low x xs = low y ys :=
        le_antisymm (low_le ((h _).mpr (low_mem y ys))) (low_le ((h _).mp (low_mem x xs)))
      simp only [span, hhigh, hlow]

theorem span_stutter {k : Nat} (hk : 1 ≤ k) (xs : List G) : span (stutter k xs) = span xs :=
  span_congr fun _ => mem_stutter hk

theorem riseFrom_replicate (x : G) (k : Nat) (ys : List G) :
    riseFrom x (List.replicate k x ++ ys) = riseFrom x ys := by
  induction k with
  | zero => rfl
  | succ k ih =>
    rw [List.replicate_succ, List.cons_append, riseFrom, ih, sub_self, max_self, zero_add]

theorem riseFrom_stutter {k : Nat} (hk : 1 ≤ k) (x : G) (ys : List G) :
    riseFrom x (stutter k ys) = riseFrom x ys := by
  obtain ⟨n, rfl⟩ : ∃ n, k = n + 1 := ⟨k - 1, by omega⟩
  induction ys generalizing x with
  | nil => rfl
  | cons y ys ih =>
    have hsplit : stutter (n + 1) (y :: ys) = y :: (List.replicate n y ++ stutter (n + 1) ys) := by
      simp [stutter, List.replicate_succ]
    rw [hsplit, riseFrom, riseFrom_replicate, ih, riseFrom]

theorem rise_stutter {k : Nat} (hk : 1 ≤ k) (xs : List G) : rise (stutter k xs) = rise xs := by
  cases xs with
  | nil => rfl
  | cons x xs =>
    obtain ⟨n, rfl⟩ : ∃ n, k = n + 1 := ⟨k - 1, by omega⟩
    have hsplit : stutter (n + 1) (x :: xs) = x :: (List.replicate n x ++ stutter (n + 1) xs) := by
      simp [stutter, List.replicate_succ]
    rw [hsplit, rise, riseFrom_replicate, riseFrom_stutter (by omega), rise]

section Ordered
variable [IsOrderedAddMonoid G]

theorem move_le_span {x : G} {xs : List G} {a b : G} (ha : a ∈ x :: xs) (hb : b ∈ x :: xs) :
    b - a ≤ span (x :: xs) := by
  simp only [span]
  exact sub_le_sub (le_high hb) (low_le ha)

theorem span_nonneg (xs : List G) : 0 ≤ span xs := by
  cases xs with
  | nil => exact le_refl 0
  | cons x xs =>
    have h := move_le_span (List.mem_cons_self (a := x) (l := xs)) List.mem_cons_self
    simpa using h

end Ordered

end ApiGateway.Walks
