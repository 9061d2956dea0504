import Mathlib.Data.List.Count
import Mathlib.Data.List.Rotate

/-!
# Going around a list

A queue whose head is served and put back at its end serves the entries of the list in turn. Any
number of whole rounds serves each entry as often as it stands in the list.
-/

namespace ApiGateway.Cycles

set_option autoImplicit false

universe u
variable {α : Type u}

/-- The first `m` entries on the way around, `none` for each if there are no entries. -/
def around (q : List α) (m : Nat) : List (Option α) := (List.range m).map fun i => q[i % q.length]?

@[simp] theorem around_zero (q : List α) : around q 0 = [] := rfl

theorem around_succ (q : List α) (m : Nat) : around q (m + 1) = q.head? :: around (q.rotate 1) m := by
  rw [around, List.range_succ_eq_map, List.map_cons, List.map_map, Nat.zero_mod, List.head?_eq_getElem?]
  congr 1
  apply List.map_congr_left
  intro i _
  rcases List.eq_nil_or_concat q with rfl | ⟨q, x, rfl⟩
  · simp
  · have hlt : i % (q.concat x).length < (q.concat x).length := Nat.mod_lt _ (by simp)
    rw [List.length_rotate, List.getElem?_rotate hlt, Nat.mod_add_mod]
    rfl

theorem around_add_length (q : List α) (m : Nat) (hm : q.length ∣ m) :
    around q (m + q.length) = around q m ++ q.map some := by
  rw [around, List.range_add, List.map_append, List.map_map]
  congr 1
  apply List.ext_getElem
  · simp
  · intro i hi hi'
    simp only [List.length_map, List.length_range] at hi
    have hmod : (m + i) % q.length = i := by
      rw [Nat.add_mod, Nat.mod_eq_zero_of_dvd hm, Nat.zero_add, Nat.mod_mod, Nat.mod_eq_of_lt hi]
    simp [hmod, List.getElem?_eq_getElem hi]

theorem count_around [DecidableEq α] (q : List α) (k : Nat) (x : α) :
    (around q (k * q.length)).count (some x) = k * q.count x := by
  induction k with
  | zero => simp
  | succ k ih =>
    rw [Nat.succ_mul, around_add_length q _ ⟨k, Nat.mul_comm k q.length⟩, List.count_append, ih,
      List.count_map_of_injective q some fun _ _ => Option.some.inj, Nat.succ_mul]

theorem rotate_succ_of_eq_cons {l rest : List α} {x : α} {n : Nat} (h : l.rotate n = x :: rest) :
    l.rotate (n + 1) = rest ++ [x] := by
  rw [← List.rotate_rotate, h, List.rotate_cons_succ, List.rotate_zero]

end ApiGateway.Cycles
