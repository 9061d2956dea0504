import ApiGateway.Cycles
import ApiGateway.LoadBalancer

/-!
# Calls of `Next` one after the other

While no two calls overlap, a call of `Next` is a loop over the counter: it goes on to the next
position until the checker accepts one or every position has been asked. The healthy positions are
then served in turn, from the counter's position on and around, so that any number of whole rounds
serves each of them equally often. A call that fails has gone around once and leaves the counter at
the position where it found it.

The counter has 64 bits. `increments` counts the additions made to it; no code reads that number,
and where it stays below 2^64 the counter has not wrapped.
-/

namespace ApiGateway.FairRotation

open Runs LoadBalancer Cycles
set_option autoImplicit false

/-- What a call returns, with the position of the URL, and what it leaves. -/
structure Outcome where
  result : Option (Nat × String)
  counter : UInt64
  increments : Nat
  deriving DecidableEq

/-- The loop of `Next` with so many attempts left. -/
def nextFrom (rr : RoundRobin) : Nat → UInt64 → Outcome
  | 0, counter => ⟨none, counter, 0⟩
  | left + 1, counter =>
    match pick rr counter with
    | some url => ⟨some (position rr counter, url), counter + 1, 1⟩
    | none =>
      let out := nextFrom rr left (counter + 1)
      {out with increments := out.increments + 1}

def next (rr : RoundRobin) (counter : UInt64) : Outcome := nextFrom rr (attempts rr).toNat counter

structure Series where
  results : List (Option (Nat × String))
  counter : UInt64
  increments : Nat
  deriving DecidableEq

/-- Consecutive calls. -/
def calls (rr : RoundRobin) : Nat → UInt64 → Series
  | 0, counter => ⟨[], counter, 0⟩
  | m + 1, counter =>
    let out := next rr counter
    let rest := calls rr m out.counter
    ⟨out.result :: rest.results, rest.counter, out.increments + rest.increments⟩

def Series.positions (s : Series) : List (Option Nat) := s.results.map (Option.map Prod.fst)

def healthy (rr : RoundRobin) (p : Nat) : Bool := ((rr.urls[p]?).filter rr.isHealthy).isSome

def healthyCount (rr : RoundRobin) : Nat := (List.range rr.urls.length).countP (healthy rr)

/-- The healthy positions in list order, from the counter's position on and around. -/
def order (rr : RoundRobin) (counter : Nat) : List Nat :=
  ((List.range rr.urls.length).rotate counter).filter (healthy rr)

/-- What a number of consecutive calls owes to its callers. -/
structure Fair (rr : RoundRobin) (counter : UInt64) (m : Nat) : Prop where
  cyclic : (calls rr m counter).positions = around (order rr counter.toNat) m
  urls : ∀ p url, some (p, url) ∈ (calls rr m counter).results →
    rr.urls[p]? = some url ∧ rr.isHealthy url = true
  rounds : ∀ k, m = k * healthyCount rr → ∀ p, healthy rr p = true →
    (calls rr m counter).positions.count (some p) = k
  fails : ∀ x ∈ (calls rr m counter).results, x = none ↔ healthyCount rr = 0
  resumes : (∀ x ∈ (calls rr m counter).results, x = none) →
    ∀ rr' : RoundRobin, rr'.urls = rr.urls →
      order rr' (calls rr m counter).counter.toNat = order rr' counter.toNat

section Machine
variable (rr : RoundRobin)

/-- How a finished call stands in the machine of overlapping calls. -/
def answer : Option (Nat × String) → Call
  | none => .errNoHealthyUpstreams
  | some (_, url) => .returned url

theorem exec_attempts (calls : Nat → Option Call) (id left : Nat) (counter : UInt64) :
    exec (step rr) ⟨counter, Function.update calls id (some (loop left))⟩
        (List.replicate (nextFrom rr left counter).increments (.attempt id)) =
      some ⟨(nextFrom rr left counter).counter,
        Function.update calls id (some (answer (nextFrom rr left counter).result))⟩ := by
  induction left generalizing counter with
  | zero => rfl
  | succ left ih =>
    rw [nextFrom]
    cases hp : pick rr counter with
    | some url => simp [exec, step, loop, hp, answer]
    | none =>
      have hih := ih (counter + 1)
      simp only [List.replicate_succ, exec]
      simpa [step, loop, hp] using hih

/-- A call whose attempts no other call interrupts does what `next` says. -/
theorem exec_next (s : State) (id : Nat) (hid : s.calls id = none) :
    exec (step rr) s (.start id :: List.replicate (next rr s.counter).increments (.attempt id)) =
      some ⟨(next rr s.counter).counter, Function.update s.calls id (some (answer (next rr s.counter).result))⟩ := by
  rw [exec, step, hid]
  exact exec_attempts rr s.calls id _ s.counter

end Machine

section Order
variable {rr : RoundRobin}

theorem healthy_position (rr : RoundRobin) (counter : UInt64) :
    healthy rr (counter.toNat % rr.urls.length) = (pick rr counter).isSome := by
  rw [healthy, pick, position_eq]

theorem lt_of_healthy {p : Nat} (h : healthy rr p = true) : p < rr.urls.length := by
  by_contra hge
  rw [healthy, List.getElem?_eq_none (not_lt.mp hge)] at h
  cases h

theorem rotate_range (h : rr.urls ≠ []) (n : Nat) :
    ∃ rest, (List.range rr.urls.length).rotate n = (n % rr.urls.length) :: rest := by
  have hpos : 0 < rr.urls.length := List.length_pos_of_ne_nil h
  have hhead : ((List.range rr.urls.length).rotate n)[0]? = some (n % rr.urls.length) := by
    rw [List.getElem?_rotate (by simpa using hpos), List.length_range, Nat.zero_add,
      List.getElem?_range (Nat.mod_lt n hpos)]
  cases hq : (List.range rr.urls.length).rotate n with
  | nil =>
    rw [hq] at hhead
    cases hhead
  | cons x rest =>
    rw [hq] at hhead
    exact ⟨rest, by rw [← Option.some.inj hhead]⟩

/-- A healthy position is served and put back at the end. -/
theorem order_succ_healthy (hne : rr.urls ≠ []) {n : Nat} (h : healthy rr (n % rr.urls.length) = true) :
    ∃ rest, order rr n = (n % rr.urls.length) :: rest ∧ order rr (n + 1) = rest ++ [n % rr.urls.length] := by
  obtain ⟨rest, hq⟩ := rotate_range hne n
  refine ⟨rest.filter (healthy rr), ?_, ?_⟩
  · rw [order, hq, List.filter_cons_of_pos h]
  · rw [order, rotate_succ_of_eq_cons hq, List.filter_append, List.filter_cons_of_pos h, List.filter_nil]

theorem order_succ_down (hne : rr.urls ≠ []) {n : Nat} (h : healthy rr (n % rr.urls.length) = false) :
    order rr (n + 1) = order rr n := by
  obtain ⟨rest, hq⟩ := rotate_range hne n
  have hnot : ¬ healthy rr (n % rr.urls.length) = true := by simp [h]
  rw [order, order, rotate_succ_of_eq_cons hq, hq, List.filter_append, List.filter_cons_of_neg hnot,
    List.filter_cons_of_neg hnot, List.filter_nil, List.append_nil]

theorem order_perm (rr : RoundRobin) (n : Nat) :
    (order rr n).Perm ((List.range rr.urls.length).filter (healthy rr)) :=
  (List.rotate_perm _ n).filter _

theorem length_order (rr : RoundRobin) (n : Nat) : (order rr n).length = healthyCount rr := by
  rw [(order_perm rr n).length_eq, healthyCount, List.countP_eq_length_filter]

theorem count_order (rr : RoundRobin) (n : Nat) {p : Nat} (h : healthy rr p = true) : (order rr n).count p = 1 := by
  rw [(order_perm rr n).count_eq, List.count_filter h]
  exact List.count_eq_one_of_mem List.nodup_range (List.mem_range.mpr (lt_of_healthy h))

theorem order_eq_nil (rr : RoundRobin) (n : Nat) : order rr n = [] ↔ healthyCount rr = 0 := by
  rw [← length_order rr n, List.length_eq_zero_iff]

theorem order_add_length (rr : RoundRobin) (n : Nat) : order rr (n + rr.urls.length) = order rr n := by
  have hmod : (List.range rr.urls.length).rotate (n + rr.urls.length) = (List.range rr.urls.length).rotate n := by
    rw [← List.rotate_mod, ← List.rotate_mod _ n, List.length_range, Nat.add_mod_right]
  rw [order, hmod, order]

end Order

section Calls
variable {rr : RoundRobin}

theorem toNat_add_one {counter : UInt64} (h : counter.toNat + 1 < 2 ^ 64) :
    (counter + 1).toNat = counter.toNat + 1 := by
  rw [UInt64.toNat_add]
  exact Nat.mod_eq_of_lt h

/-- The call returns the first position in turn and puts it last. -/
def Served (rr : RoundRobin) (counter : Nat) (out : Outcome) : Prop :=
  ∃ p url rest, out.result = some (p, url) ∧ rr.urls[p]? = some url ∧ rr.isHealthy url = true ∧
    order rr counter = p :: rest ∧ order rr out.counter.toNat = rest ++ [p]

/-- The call has asked so many positions in a row, and all were down. -/
def Failed (rr : RoundRobin) (left counter : Nat) (out : Outcome) : Prop :=
  out.result = none ∧ out.counter.toNat = counter + left ∧
    ∀ j < left, healthy rr ((counter + j) % rr.urls.length) = false

theorem increments_pos (rr : RoundRobin) (left : Nat) (counter : UInt64) :
    0 < (nextFrom rr (left + 1) counter).increments := by
  rw [nextFrom]
  split
  · exact Nat.one_pos
  · exact Nat.succ_pos _

/-- By induction on the attempts left: the position asked is healthy and ends the call, or it is
down and the order is the same one position further. -/
theorem nextFrom_cases (hne : rr.urls ≠ []) (left : Nat) (counter : UInt64)
    (hlt : counter.toNat + (nextFrom rr left counter).increments < 2 ^ 64) :
    (nextFrom rr left counter).counter.toNat = counter.toNat + (nextFrom rr left counter).increments ∧
      (Served rr counter.toNat (nextFrom rr left counter) ∨
        Failed rr left counter.toNat (nextFrom rr left counter)) := by
  induction left generalizing counter with
  | zero => exact ⟨rfl, .inr ⟨rfl, rfl, fun j hj => absurd hj (Nat.not_lt_zero j)⟩⟩
  | succ left ih =>
    have hpos := increments_pos rr left counter
    have hnext : (counter + 1).toNat = counter.toNat + 1 := toNat_add_one (by omega)
    have hhealthy := healthy_position rr counter
    rw [nextFrom] at hlt ⊢
    cases hp : pick rr counter with
    | some url =>
      rw [hp, Option.isSome_some] at hhealthy
      obtain ⟨rest, hhead, hrest⟩ := order_succ_healthy hne hhealthy
      obtain ⟨hurl, hup⟩ := Option.filter_eq_some_iff.mp hp
      refine ⟨hnext, .inl ⟨position rr counter, url, rest, rfl, hurl, hup, ?_, ?_⟩⟩
      · rw [hhead, position_eq]
      · change order rr (counter + 1).toNat = _
        rw [hnext, hrest, position_eq]
    | none =>
      rw [hp, Option.isSome_none] at hhealthy
      rw [hp] at hlt
      change counter.toNat + ((nextFrom rr left (counter + 1)).increments + 1) < 2 ^ 64 at hlt
      obtain ⟨hcounter, hends⟩ := ih (counter + 1) (by omega)
      refine ⟨?_, ?_⟩
      · change (nextFrom rr left (counter + 1)).counter.toNat = _
        rw [hcounter, hnext]
        change _ = counter.toNat + ((nextFrom rr left (counter + 1)).increments + 1)
        omega
      · rcases hends with ⟨p, url, rest, hresult, hurl, hup, hhead, hrest⟩ | ⟨hresult, hleft, hdown⟩
        · rw [hnext, order_succ_down hne hhealthy] at hhead
          exact .inl ⟨p, url, rest, hresult, hurl, hup, hhead, hrest⟩
        · refine .inr ⟨hresult, ?_, ?_⟩
          · change (nextFrom rr left (counter + 1)).counter.toNat = _
            omega
          · intro j hj
            cases j with
            | zero => exact hhealthy
            | succ j =>
              rw [hnext] at hdown
              have hj' := hdown j (by omega)
              rwa [Nat.add_assoc, Nat.add_comm 1 j] at hj'

/-- A round over positions that are all down has asked every position. -/
theorem healthyCount_eq_zero (hne : rr.urls ≠ []) {counter : Nat}
    (h : ∀ j < rr.urls.length, healthy rr ((counter + j) % rr.urls.length) = false) : healthyCount rr = 0 := by
  have hpos : 0 < rr.urls.length := List.length_pos_of_ne_nil hne
  rw [healthyCount, List.countP_eq_zero]
  intro p hp hhealthy
  have hlt := List.mem_range.mp hp
  -- the attempt that asks p
  have hdown := h ((p + rr.urls.length - counter % rr.urls.length) % rr.urls.length) (Nat.mod_lt _ hpos)
  have hmod : (counter + (p + rr.urls.length - counter % rr.urls.length) % rr.urls.length) % rr.urls.length = p := by
    have hsmall := Nat.mod_lt counter hpos
    rw [Nat.add_mod, Nat.mod_mod, ← Nat.add_mod, ← Nat.mod_add_mod]
    have hsum : counter % rr.urls.length + (p + rr.urls.length - counter % rr.urls.length) = p + rr.urls.length := by
      omega
    rw [hsum, Nat.add_mod_right, Nat.mod_eq_of_lt hlt]
  rw [hmod, hhealthy] at hdown
  cases hdown

theorem next_cases (rr : RoundRobin) (counter : UInt64)
    (hlt : counter.toNat + (next rr counter).increments < 2 ^ 64) :
    (next rr counter).counter.toNat = counter.toNat + (next rr counter).increments ∧
      (Served rr counter.toNat (next rr counter) ∨
        ((next rr counter).result = none ∧ healthyCount rr = 0 ∧
          (next rr counter).counter.toNat = counter.toNat + rr.urls.length)) := by
  rw [next, attempts_toNat] at hlt ⊢
  by_cases hne : rr.urls = []
  · rw [hne] at hlt ⊢
    exact ⟨rfl, .inr ⟨rfl, by rw [healthyCount, hne]; rfl, rfl⟩⟩
  · obtain ⟨hcounter, hserved | ⟨hresult, hend, hdown⟩⟩ := nextFrom_cases hne _ counter hlt
    · exact ⟨hcounter, .inl hserved⟩
    · exact ⟨hcounter, .inr ⟨hresult, healthyCount_eq_zero hne hdown, hend⟩⟩

/-- One call returns the head of the order and turns it. -/
theorem next_turns (rr : RoundRobin) (counter : UInt64)
    (hlt : counter.toNat + (next rr counter).increments < 2 ^ 64) :
    (next rr counter).result.map Prod.fst = (order rr counter.toNat).head? ∧
      order rr (next rr counter).counter.toNat = (order rr counter.toNat).rotate 1 := by
  obtain ⟨-, ⟨p, url, rest, hresult, -, -, hhead, hrest⟩ | ⟨hresult, hzero, -⟩⟩ := next_cases rr counter hlt
  · rw [hresult, hhead, hrest, List.rotate_cons_succ, List.rotate_zero]
    exact ⟨rfl, rfl⟩
  · rw [hresult, (order_eq_nil rr _).mpr hzero, (order_eq_nil rr _).mpr hzero]
    exact ⟨rfl, rfl⟩

theorem next_result (rr : RoundRobin) (counter : UInt64)
    (hlt : counter.toNat + (next rr counter).increments < 2 ^ 64) :
    ((next rr counter).result = none ↔ healthyCount rr = 0) ∧
      ∀ p url, (next rr counter).result = some (p, url) → rr.urls[p]? = some url ∧ rr.isHealthy url = true := by
  obtain ⟨-, ⟨p, url, rest, hresult, hurl, hup, hhead, -⟩ | ⟨hresult, hzero, -⟩⟩ := next_cases rr counter hlt
  · have hsome : healthyCount rr ≠ 0 := by
      rw [← length_order rr counter.toNat, hhead]
      simp
    refine ⟨iff_of_false (by simp [hresult]) hsome, fun q url' heq => ?_⟩
    obtain ⟨rfl, rfl⟩ := Prod.mk.inj (Option.some.inj (hresult.symm.trans heq))
    exact ⟨hurl, hup⟩
  · refine ⟨iff_of_true hresult hzero, fun q url' heq => ?_⟩
    rw [hresult] at heq
    cases heq

/-- After a call that fails, whatever the checker says then, the order is the one before it. -/
theorem next_resumes (rr : RoundRobin) (counter : UInt64)
    (hlt : counter.toNat + (next rr counter).increments < 2 ^ 64)
    (hnone : (next rr counter).result = none) {rr' : RoundRobin} (hurls : rr'.urls = rr.urls) :
    order rr' (next rr counter).counter.toNat = order rr' counter.toNat := by
  obtain ⟨-, ⟨p, url, rest, hresult, -⟩ | ⟨-, -, hend⟩⟩ := next_cases rr counter hlt
  · rw [hnone] at hresult
    cases hresult
  · rw [hend, ← hurls, order_add_length]

/-- The first of several calls has room on the counter, and so have the others after it. -/
theorem calls_room {m : Nat} {counter : UInt64}
    (hlt : counter.toNat + (calls rr (m + 1) counter).increments < 2 ^ 64) :
    counter.toNat + (next rr counter).increments < 2 ^ 64 ∧
      (next rr counter).counter.toNat + (calls rr m (next rr counter).counter).increments < 2 ^ 64 := by
  change counter.toNat + ((next rr counter).increments + (calls rr m (next rr counter).counter).increments) < 2 ^ 64 at hlt
  have hfirst : counter.toNat + (next rr counter).increments < 2 ^ 64 := by omega
  have hcounter := (next_cases rr counter hfirst).1
  exact ⟨hfirst, by omega⟩

theorem calls_cyclic (m : Nat) (counter : UInt64) (hlt : counter.toNat + (calls rr m counter).increments < 2 ^ 64) :
    (calls rr m counter).positions = around (order rr counter.toNat) m := by
  induction m generalizing counter with
  | zero => rfl
  | succ m ih =>
    obtain ⟨hfirst, hrest⟩ := calls_room hlt
    obtain ⟨hresult, hturn⟩ := next_turns rr counter hfirst
    have hih := ih (next rr counter).counter hrest
    change (next rr counter).result.map Prod.fst :: (calls rr m (next rr counter).counter).positions = _
    rw [hih, hresult, hturn, around_succ]

theorem calls_results (m : Nat) (counter : UInt64) (hlt : counter.toNat + (calls rr m counter).increments < 2 ^ 64) :
    ∀ x ∈ (calls rr m counter).results, (x = none ↔ healthyCount rr = 0) ∧
      ∀ p url, x = some (p, url) → rr.urls[p]? = some url ∧ rr.isHealthy url = true := by
  induction m generalizing counter with
  | zero =>
    intro x hx
    cases hx
  | succ m ih =>
    obtain ⟨hfirst, hrest⟩ := calls_room hlt
    intro x hx
    rcases List.mem_cons.mp hx with rfl | hx
    · exact next_result rr counter hfirst
    · exact ih (next rr counter).counter hrest x hx

theorem calls_resume (m : Nat) (counter : UInt64) (hlt : counter.toNat + (calls rr m counter).increments < 2 ^ 64)
    (hnone : ∀ x ∈ (calls rr m counter).results, x = none) {rr' : RoundRobin} (hurls : rr'.urls = rr.urls) :
    order rr' (calls rr m counter).counter.toNat = order rr' counter.toNat := by
  induction m generalizing counter with
  | zero => rfl
  | succ m ih =>
    obtain ⟨hfirst, hrest⟩ := calls_room hlt
    have hhead : (next rr counter).result = none := hnone _ List.mem_cons_self
    have hih := ih (next rr counter).counter hrest fun x hx => hnone x (List.mem_cons_of_mem _ hx)
    exact hih.trans (next_resumes rr counter hfirst hhead hurls)

/-- Consecutive calls of `Next`, from any counter that does not wrap on the way, are fair. -/
theorem next_fair (rr : RoundRobin) (counter : UInt64) (m : Nat)
    (hlt : counter.toNat + (calls rr m counter).increments < 2 ^ 64) : Fair rr counter m where
  cyclic := calls_cyclic m counter hlt
  urls p url hmem := (calls_results m counter hlt _ hmem).2 p url rfl
  rounds := by
    rintro k rfl p hp
    rw [calls_cyclic _ counter hlt, ← length_order rr counter.toNat, count_around, count_order rr _ hp, Nat.mul_one]
  fails x hx := (calls_results m counter hlt x hx).1
  resumes hnone rr' hurls := calls_resume m counter hlt hnone hurls

/-- Three upstreams with the second down, and a counter that other calls have moved to the second. -/
def middleDown : RoundRobin :=
  ⟨["http://a", "http://b", "http://c"], fun url => url != "http://b", by decide⟩

theorem next_fair_middleDown : (calls middleDown 4 7).positions = [some 2, some 0, some 2, some 0] ∧
    (7 : UInt64).toNat + (calls middleDown 4 7).increments < 2 ^ 64 ∧ Fair middleDown 7 4 :=
  ⟨by decide +kernel, by decide +kernel, next_fair middleDown 7 4 (by decide +kernel)⟩

end Calls

end ApiGateway.FairRotation
