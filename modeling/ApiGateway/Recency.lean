import Mathlib.Data.List.Infix
import Mathlib.Data.List.Nodup
import Mathlib.Data.List.Pairwise

/-!
# Longest prefixes, and lists ordered by recency

A list that a loop shortens from its end until a predicate holds ends up as the longest
prefix with that predicate; two such loops after another give the longest prefix with both
predicates when the first is inherited by prefixes. In a list whose members are ranked, the
highest rank first, what such a loop keeps can be told member by member: a member stays
exactly if the members ranked at least as high satisfy the predicate.
-/

namespace ApiGateway.Recency

set_option autoImplicit false

universe u
variable {α : Type u} {P Q : List α → Prop} {l l' l'' : List α}

structure Longest (P : List α → Prop) (l l' : List α) : Prop where
  initial : l' <+: l
  holds : P l'
  longest : ∀ p, p <+: l → P p → p <+: l'

theorem longest_self (h : P l) : Longest P l l := ⟨List.prefix_rfl, h, fun _ hp _ => hp⟩

theorem longest_concat {x : α} (hnot : ¬ P (l ++ [x])) (h : Longest P l l') : Longest P (l ++ [x]) l' where
  initial := h.initial.trans (List.prefix_append l [x])
  holds := h.holds
  longest := by
    intro p hp hP
    rcases List.prefix_concat_iff.mp hp with rfl | hpl
    · exact absurd hP hnot
    · exact h.longest p hpl hP

theorem Longest.and (hP : ∀ p q, p <+: q → P q → P p) (h : Longest P l l') (h' : Longest Q l' l'') :
    Longest (fun p => P p ∧ Q p) l l'' where
  initial := h'.initial.trans h.initial
  holds := ⟨hP l'' l' h'.initial h.holds, h'.holds⟩
  longest := fun p hp hPQ => h'.longest p (h.longest p hp hPQ.1) hPQ.2

theorem Longest.next_not (h : Longest P l l') {x : α} {r : List α} (hl : l = l' ++ x :: r) : ¬ P (l' ++ [x]) := by
  intro hP
  have hle := (h.longest (l' ++ [x]) ⟨r, by simp [hl]⟩ hP).length_le
  rw [List.length_append, List.length_singleton] at hle
  omega

/-- A member of a list without repetitions is kept exactly if the prefix it ends is allowed. -/
theorem Longest.mem_iff {p r : List α} {x : α} (hP : ∀ p q, p <+: q → P q → P p)
    (h : Longest P (p ++ x :: r) l') (hnd : (p ++ x :: r).Nodup) : x ∈ l' ↔ P (p ++ [x]) := by
  have hpx : p ++ [x] <+: p ++ x :: r := ⟨r, by simp⟩
  constructor
  · intro hx
    refine hP _ l' ?_ h.holds
    rcases List.prefix_or_prefix_of_prefix hpx h.initial with hle | hge
    · exact hle
    · have hxp : x ∉ p := by
        intro hx'
        exact (List.disjoint_of_nodup_append hnd) hx' List.mem_cons_self
      rcases List.prefix_concat_iff.mp hge with rfl | hl
      · exact List.prefix_rfl
      · exact absurd (hl.subset hx) hxp
  · intro hPx
    exact (h.longest _ hpx hPx).subset (by simp)

section Ranked
variable (rank : α → Nat)

/-- The highest rank first, no rank twice. -/
def Ranked (l : List α) : Prop := l.Pairwise fun a b => rank b < rank a

variable {rank}

theorem Ranked.nodup (h : Ranked rank l) : l.Nodup := by
  refine List.Pairwise.imp ?_ h
  rintro a b hab rfl
  exact Nat.lt_irrefl _ hab

/-- The head of a ranked list is the member of the highest rank. -/
theorem Ranked.eq_head {x y : α} (h : Ranked rank (y :: l)) (hx : x ∈ y :: l) (hle : rank y ≤ rank x) : x = y := by
  rcases List.mem_cons.mp hx with rfl | hx
  · rfl
  · have hlt := (List.pairwise_cons.mp h).1 x hx
    omega

theorem Ranked.inj (h : Ranked rank l) {x y : α} (hx : x ∈ l) (hy : y ∈ l) (hxy : rank x = rank y) :
    x = y := by
  induction l with
  | nil => cases hx
  | cons a l ih =>
    obtain ⟨hfirst, hrest⟩ := List.pairwise_cons.mp h
    rcases List.mem_cons.mp hx with rfl | hxl
    · rcases List.mem_cons.mp hy with rfl | hyl
      · rfl
      · have hlt := hfirst y hyl
        omega
    · rcases List.mem_cons.mp hy with rfl | hyl
      · have hlt := hfirst x hxl
        omega
      · exact ih hrest hxl hyl

theorem Ranked.filter_eq {p r : List α} {x : α} (h : Ranked rank (p ++ x :: r)) :
    (p ++ x :: r).filter (fun y => rank x ≤ rank y) = p ++ [x] := by
  obtain ⟨_, hxr, hpxr⟩ := List.pairwise_append.mp h
  have hp : p.filter (fun y => rank x ≤ rank y) = p := by
    refine List.filter_eq_self.mpr ?_
    intro y hy
    exact decide_eq_true (Nat.le_of_lt (hpxr y hy x List.mem_cons_self))
  have hr : r.filter (fun y => rank x ≤ rank y) = [] := by
    refine List.filter_eq_nil_iff.mpr ?_
    intro y hy
    simpa using (List.pairwise_cons.mp hxr).1 y hy
  simp [hp, hr]

/-- The longest allowed prefix of a ranked list, member by member. -/
theorem Longest.mem_iff_ranked (hP : ∀ p q, p <+: q → P q → P p) (h : Longest P l l')
    (hr : Ranked rank l) {x : α} (hx : x ∈ l) :
    x ∈ l' ↔ P (l.filter fun y => rank x ≤ rank y) := by
  obtain ⟨p, r, rfl⟩ := List.append_of_mem hx
  rw [hr.filter_eq]
  exact h.mem_iff hP hr.nodup

end Ranked

end ApiGateway.Recency
