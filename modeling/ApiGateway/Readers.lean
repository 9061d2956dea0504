import ApiGateway.Runs

/-!
# Reading a stream through a limit

A reader puts a front part of what is left of a stream into the room that it is given, and says
that the stream has ended, with the last letters or after them. A limited reader passes on what it
reads. It asks for one letter more than it may pass on, and if it gets it, it fails for good.

However the reads are sized and however much each of them is given, what was passed on is a front
part of the stream no longer than the limit, and the reader fails exactly on the streams that are
longer.
-/

namespace ApiGateway.Readers

open Runs
set_option autoImplicit false

universe u v
variable {α : Type u} {ε : Type v}

/-- What is left of a stream, and how it ends. -/
structure Stream (α : Type u) (ε : Type v) where
  rest : List α
  fault : ε

inductive Failure (ε : Type v) where
  | ended (fault : ε)
  | tooLong
  deriving DecidableEq

/-- `passed` is everything that was passed on. -/
structure Limited (α : Type u) (ε : Type v) where
  stream : Stream α ε
  left : Nat
  failure : Option (Failure ε)
  passed : List α

/-- A read with so much room, to which the stream gives so many letters. -/
structure Fill where
  room : Nat
  count : Nat
  atEnd : Bool

def limited (limit : Nat) (stream : Stream α ε) : Limited α ε := ⟨stream, limit, none, []⟩

/-- The room that the stream is given. -/
def Limited.room (s : Limited α ε) (f : Fill) : Nat := if s.left < f.room - 1 then s.left + 1 else f.room

def Stream.drop (stream : Stream α ε) (n : Nat) : Stream α ε := {stream with rest := stream.rest.drop n}

def read (s : Limited α ε) (f : Fill) : Option (Limited α ε) :=
  if s.failure.isSome = true ∨ f.room = 0 then some s
  else if f.count ≤ s.room f ∧ f.count ≤ s.stream.rest.length ∧
      (f.atEnd = true → f.count = s.stream.rest.length) then
    if f.count ≤ s.left then
      some ⟨s.stream.drop f.count, s.left - f.count, if f.atEnd then some (.ended s.stream.fault) else none,
        s.passed ++ s.stream.rest.take f.count⟩
    else some ⟨s.stream.drop f.count, 0, some .tooLong, s.passed ++ s.stream.rest.take s.left⟩
  else none

/-- Where a reader of the stream `whole` stands. -/
structure Reading (limit : Nat) (whole : Stream α ε) (s : Limited α ε) : Prop where
  fault : s.stream.fault = whole.fault
  going : s.failure = none → s.passed ++ s.stream.rest = whole.rest ∧ s.passed.length + s.left = limit
  ended : ∀ e, s.failure = some (.ended e) → e = whole.fault ∧ s.passed = whole.rest ∧ whole.rest.length ≤ limit
  tooLong : s.failure = some .tooLong → s.passed = whole.rest.take limit ∧ limit < whole.rest.length

/-- The read brings letters or the end. -/
def Fill.busy (f : Fill) : Prop := 0 < f.room ∧ (0 < f.count ∨ f.atEnd = true)

instance (f : Fill) : Decidable f.busy := inferInstanceAs (Decidable (_ ∧ _))

variable {limit : Nat} {whole : Stream α ε} {s t : Limited α ε} {f : Fill}

theorem reading_limited (limit : Nat) (whole : Stream α ε) : Reading limit whole (limited limit whole) :=
  ⟨rfl, fun _ => ⟨rfl, Nat.zero_add limit⟩, nofun, nofun⟩

theorem read_cases (h : read s f = some t) (hopen : s.failure = none) (hroom : f.room ≠ 0) :
    (f.count ≤ s.left ∧ f.count ≤ s.stream.rest.length ∧ (f.atEnd = true → f.count = s.stream.rest.length) ∧
      t = ⟨s.stream.drop f.count, s.left - f.count, if f.atEnd then some (.ended s.stream.fault) else none,
        s.passed ++ s.stream.rest.take f.count⟩) ∨
    (s.left < s.stream.rest.length ∧
      t = ⟨s.stream.drop f.count, 0, some .tooLong, s.passed ++ s.stream.rest.take s.left⟩) := by
  have hgoes : ¬ (s.failure.isSome = true ∨ f.room = 0) := by simp [hopen, hroom]
  rw [read, if_neg hgoes, Option.ite_none_right_eq_some] at h
  obtain ⟨⟨-, hcount, hend⟩, h⟩ := h
  split at h
  · rename_i hfits
    exact .inl ⟨hfits, hcount, hend, (Option.some.inj h).symm⟩
  · exact .inr ⟨by omega, (Option.some.inj h).symm⟩

theorem read_stays (h : read s f = some t) (hdone : s.failure.isSome = true ∨ f.room = 0) : t = s := by
  rw [read, if_pos hdone] at h
  exact (Option.some.inj h).symm

theorem reading_read (hs : Reading limit whole s) (h : read s f = some t) : Reading limit whole t := by
  by_cases hdone : s.failure.isSome = true ∨ f.room = 0
  · rw [read_stays h hdone]
    exact hs
  obtain ⟨hfailure, hroom⟩ := not_or.mp hdone
  have hopen : s.failure = none := Option.not_isSome_iff_eq_none.mp hfailure
  obtain ⟨hwhole, hleft⟩ := hs.going hopen
  have hlength : whole.rest.length = s.passed.length + s.stream.rest.length := by
    rw [← hwhole, List.length_append]
  rcases read_cases h hopen hroom with ⟨hfits, hcount, hend, rfl⟩ | ⟨hlong, rfl⟩
  · refine ⟨hs.fault, ?_, ?_, ?_⟩
    · intro _
      refine ⟨?_, ?_⟩
      · simp only [Stream.drop, List.append_assoc, List.take_append_drop]
        exact hwhole
      · simp only [List.length_append, List.length_take]
        omega
    · intro e he
      simp only [Option.ite_none_right_eq_some, Option.some.injEq, Failure.ended.injEq] at he
      obtain ⟨hatEnd, rfl⟩ := he
      refine ⟨hs.fault, ?_, ?_⟩
      · rw [hend hatEnd, List.take_length]
        exact hwhole
      · have := hend hatEnd
        omega
    · intro hfail
      simp only [Option.ite_none_right_eq_some, Option.some.injEq, reduceCtorEq, and_false] at hfail
  · refine ⟨hs.fault, nofun, nofun, fun _ => ⟨?_, by omega⟩⟩
    have hfront : s.passed.take (s.passed.length + s.left) = s.passed := List.take_of_length_le (Nat.le_add_right _ _)
    rw [← hwhole, ← hleft, List.take_append, hfront, Nat.add_sub_cancel_left]

theorem reading_exec {fs : List Fill} (h : exec read (limited limit whole) fs = some s) : Reading limit whole s :=
  visits_inductive read (Reading limit whole) (fun _ _ _ => reading_read) (reading_limited limit whole)
    ⟨fs, [], (List.append_nil fs).symm, h⟩

/-- What was passed on is a front part of the stream within the limit. -/
theorem Reading.passed_front (h : Reading limit whole s) : s.passed <+: whole.rest ∧ s.passed.length ≤ limit := by
  cases hfailure : s.failure with
  | none =>
    obtain ⟨hwhole, hleft⟩ := h.going hfailure
    exact ⟨⟨s.stream.rest, hwhole⟩, by omega⟩
  | some failure =>
    cases failure with
    | ended e =>
      obtain ⟨-, hall, hle⟩ := h.ended e hfailure
      exact ⟨hall ▸ List.prefix_refl _, hall ▸ hle⟩
    | tooLong =>
      obtain ⟨hpassed, -⟩ := h.tooLong hfailure
      rw [hpassed]
      exact ⟨List.take_prefix _ _, List.length_take_le _ _⟩

/-- Reads that each bring something come to the end of the stream or of the limit. -/
theorem failed_of_busy {fs : List Fill} (h : exec read s fs = some t) (hs : Reading limit whole s)
    (hbusy : ∀ f ∈ fs, f.busy) (hlength : min limit whole.rest.length < s.passed.length + fs.length) :
    t.failure.isSome = true := by
  induction fs generalizing s with
  | nil =>
    obtain rfl : s = t := Option.some.inj h
    cases hopen : s.failure with
    | some _ => rfl
    | none =>
      obtain ⟨hwhole, hleft⟩ := hs.going hopen
      have := congrArg List.length hwhole
      simp only [List.length_append, List.length_nil] at this hlength
      omega
  | cons f fs ih =>
    obtain ⟨s', hread, hrest⟩ := (exec_cons_iff read).mp h
    obtain ⟨hroom, hbrings⟩ := hbusy f List.mem_cons_self
    have hs' := reading_read hs hread
    have hbusy' : ∀ f ∈ fs, f.busy := fun f' hf' => hbusy f' (List.mem_cons_of_mem f hf')
    -- a reader that has failed stays so
    have hstays : s'.failure.isSome = true → t.failure.isSome = true := by
      intro hfailed
      refine exec_invariant read (fun a => a.failure.isSome = true) ?_ hfailed
        (stepsMeet_of_forall read (q := fun _ => True) s' fun _ _ => trivial) hrest
      intro a e b ha _ hab
      rw [read_stays hab (.inl ha)]
      exact ha
    cases hopen : s.failure with
    | some failure =>
      refine hstays ?_
      rw [read_stays hread (.inl (by rw [hopen]; rfl)), hopen]
      rfl
    | none =>
      rcases read_cases hread hopen (by omega) with ⟨hfits, hcount, hend, rfl⟩ | ⟨-, rfl⟩
      · cases hatEnd : f.atEnd with
        | true => exact hstays (by simp [hatEnd])
        | false =>
          have hmore : 0 < f.count := hbrings.resolve_right (by rw [hatEnd]; exact Bool.false_ne_true)
          refine ih hrest hs' hbusy' ?_
          simp only [List.length_append, List.length_take, List.length_cons] at hlength ⊢
          omega
      · exact hstays rfl

end ApiGateway.Readers
