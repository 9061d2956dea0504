import ApiGateway.Runs
import ApiGateway.Tables
import Mathlib.Algebra.Group.Nat.Defs
import Mathlib.Data.Finset.Card
import Mathlib.Data.List.Nodup
import Mathlib.Data.Nat.ModEq
import Mathlib.Logic.Function.Basic

/-!
# Round robin over a shared counter

`internal/loadbalancer/roundrobin.go`. A call of `Next` makes at most `len(urls)`
attempts; an attempt is one atomic increment of the shared counter followed by one
question to the health checker. Any number of calls take their attempts in any order,
so between two attempts of one call the counter may have moved on.

Health is fixed during a run. Which attempts are a call's own is read off the run: the attempts
of all calls are numbered in their order, and the numbers of a call's own are its turns.
-/

namespace ApiGateway.LoadBalancer

open Runs Tables
set_option autoImplicit false

/-- The upstream list and the checker. The length of a slice is an `int`. -/
structure RoundRobin where
  urls : List String
  isHealthy : String → Bool
  length_lt : urls.length < 2 ^ 63

/-- `uint64(len(rr.urls))` -/
def attempts (rr : RoundRobin) : UInt64 := UInt64.ofNat rr.urls.length

/-- `i%attempts` for `i := rr.counter.Add(1) - 1`. -/
def position (rr : RoundRobin) (counter : UInt64) : Nat :=
  ((counter + 1 - 1) % attempts rr).toNat

def pick (rr : RoundRobin) (counter : UInt64) : Option String :=
  (rr.urls[position rr counter]?).filter rr.isHealthy

inductive Call where
  | running (left : Nat)
  | returned (url : String)
  | errNoHealthyUpstreams
  deriving DecidableEq, Repr

def loop (left : Nat) : Call := if left = 0 then .errNoHealthyUpstreams else .running left

structure State where
  counter : UInt64
  calls : Nat → Option Call

inductive Event where
  | start (id : Nat)
  | attempt (id : Nat)
  deriving DecidableEq, Repr

def step (rr : RoundRobin) (s : State) : Event → Option State
  | .start id =>
    match s.calls id with
    | none => some {s with calls := Function.update s.calls id (some (loop (attempts rr).toNat))}
    | some _ => none
  | .attempt id =>
    match s.calls id with
    | some (.running (left + 1)) =>
      let call := match pick rr s.counter with
        | some url => .returned url
        | none => loop left
      some ⟨s.counter + 1, Function.update s.calls id (some call)⟩
    | _ => none

/-- No call yet; the counter is wherever earlier traffic left it. -/
def start (counter : UInt64) : State := ⟨counter, fun _ => none⟩

def caller : Event → Option Nat
  | .start _ => none
  | .attempt id => some id

/-- Who made the attempts of a run, in their order. -/
def callers (es : List Event) : List Nat := es.filterMap caller

/-- Which of all the attempts were the call's own. -/
def turns (id : Nat) (es : List Event) : Finset Nat :=
  (Finset.range (callers es).length).filter fun k => (callers es)[k]? = some id

/-- From one of the turns to another it is never a multiple of `n` attempts. -/
def Spread (n : Nat) (turns : Finset Nat) : Prop := ∀ i ∈ turns, ∀ j ∈ turns, i < j → ¬ n ∣ j - i

/-- The checker turns down the position that the attempt with this number draws. -/
def DownAt (rr : RoundRobin) (counter : UInt64) (k : Nat) : Prop := pick rr (counter + UInt64.ofNat k) = none

/-- A call has used one attempt for each of its turns, and at none of them was its position up. -/
def Turned (rr : RoundRobin) (counter : UInt64) (own : Finset Nat) : Option Call → Prop
  | none => own = ∅
  | some (.running left) => left + own.card = rr.urls.length ∧ ∀ k ∈ own, DownAt rr counter k
  | some (.returned _) => True
  | some .errNoHealthyUpstreams => own.card = rr.urls.length ∧ ∀ k ∈ own, DownAt rr counter k

structure Tracked (rr : RoundRobin) (counter : UInt64) (es : List Event) (s : State) : Prop where
  counter_eq : s.counter = counter + UInt64.ofNat (callers es).length
  turned : ∀ id, Turned rr counter (turns id es) (s.calls id)

theorem attempts_toNat (rr : RoundRobin) : (attempts rr).toNat = rr.urls.length := by
  have := rr.length_lt
  change rr.urls.length % 2 ^ 64 = rr.urls.length
  exact Nat.mod_eq_of_lt (by omega)

theorem position_eq (rr : RoundRobin) (counter : UInt64) : position rr counter = counter.toNat % rr.urls.length := by
  rw [position, UInt64.add_sub_cancel, UInt64.toNat_mod, attempts_toNat]

theorem position_lt {rr : RoundRobin} (h : rr.urls ≠ []) (counter : UInt64) :
    position rr counter < rr.urls.length := by
  rw [position_eq]
  exact Nat.mod_lt _ (List.length_pos_of_ne_nil h)

theorem position_add (rr : RoundRobin) {counter : UInt64} {k : Nat} (h : counter.toNat + k < 2 ^ 64) :
    position rr (counter + UInt64.ofNat k) = (counter.toNat + k) % rr.urls.length := by
  have hk : (UInt64.ofNat k).toNat = k := Nat.mod_eq_of_lt (by omega)
  rw [position_eq, UInt64.toNat_add, hk, Nat.mod_eq_of_lt h]

section Turns
variable {id j : Nat} {es : List Event}

theorem mem_turns {k : Nat} : k ∈ turns id es ↔ (callers es)[k]? = some id := by
  rw [turns, Finset.mem_filter, Finset.mem_range, and_iff_right_iff_imp]
  exact fun h => (List.getElem?_eq_some_iff.mp h).1

theorem callers_append (fs : List Event) : callers (es ++ fs) = callers es ++ callers fs := List.filterMap_append

theorem callers_start : callers (es ++ [.start j]) = callers es := by
  rw [callers_append]
  exact List.append_nil _

theorem callers_attempt : callers (es ++ [.attempt j]) = callers es ++ [j] := callers_append _

theorem turns_start : turns id (es ++ [.start j]) = turns id es := by
  rw [turns, callers_start, turns]

theorem turns_attempt_self : turns id (es ++ [.attempt id]) = insert (callers es).length (turns id es) := by
  ext k
  rw [Finset.mem_insert, mem_turns, mem_turns, callers_attempt, List.getElem?_append]
  split
  · rename_i hlt
    exact (or_iff_right hlt.ne).symm
  · rename_i hge
    have hnot : ¬ (callers es)[k]? = some id := fun h => hge (List.getElem?_eq_some_iff.mp h).1
    rw [or_iff_left hnot, List.getElem?_singleton]
    simp only [ite_eq_left_iff, reduceCtorEq, imp_false, not_not]
    omega

theorem turns_attempt_of_ne (h : j ≠ id) : turns id (es ++ [.attempt j]) = turns id es := by
  ext k
  rw [mem_turns, mem_turns, callers_attempt, List.getElem?_append]
  split
  · exact Iff.rfl
  · rename_i hge
    rw [List.getElem?_eq_none (not_lt.mp hge), List.getElem?_singleton]
    split
    · simp [h]
    · exact Iff.rfl

theorem card_turns_attempt : (turns id (es ++ [.attempt id])).card = (turns id es).card + 1 := by
  rw [turns_attempt_self, Finset.card_insert_of_notMem]
  rw [mem_turns, List.getElem?_eq_none le_rfl]
  exact nofun

theorem turns_subset (fs : List Event) : turns id es ⊆ turns id (es ++ fs) := by
  intro k hk
  obtain ⟨hlt, hid⟩ := List.getElem?_eq_some_iff.mp (mem_turns.mp hk)
  rw [mem_turns, callers_append, List.getElem?_append_left hlt]
  exact List.getElem?_eq_some_iff.mpr ⟨hlt, hid⟩

end Turns

theorem step_cases {rr : RoundRobin} {s t : State} {e : Event} (h : step rr s e = some t) :
    (∃ id, e = .start id ∧ s.calls id = none ∧
      t = ⟨s.counter, Function.update s.calls id (some (loop (attempts rr).toNat))⟩) ∨
    ∃ id left, e = .attempt id ∧ s.calls id = some (.running (left + 1)) ∧
      ((∃ url, pick rr s.counter = some url ∧
        t = ⟨s.counter + 1, Function.update s.calls id (some (.returned url))⟩) ∨
      (pick rr s.counter = none ∧ t = ⟨s.counter + 1, Function.update s.calls id (some (loop left))⟩)) := by
  cases e with
  | start id =>
    cases hc : s.calls id with
    | some c => simp [step, hc] at h
    | none => exact .inl ⟨id, rfl, hc, by simpa [step, hc] using h.symm⟩
  | attempt id =>
    simp only [step] at h
    split at h
    · rename_i left hc
      refine .inr ⟨id, left, rfl, hc, ?_⟩
      cases hp : pick rr s.counter with
      | some url => exact .inl ⟨url, rfl, by simpa [hp] using h.symm⟩
      | none => exact .inr ⟨rfl, by simpa [hp] using h.symm⟩
    · simp at h

section Run
variable {rr : RoundRobin} {counter : UInt64}

theorem turned_loop {own : Finset Nat} {left : Nat} (hcard : left + own.card = rr.urls.length)
    (hdown : ∀ k ∈ own, DownAt rr counter k) : Turned rr counter own (some (loop left)) := by
  unfold loop
  split
  · rename_i hzero
    rw [hzero, Nat.zero_add] at hcard
    exact ⟨hcard, hdown⟩
  · exact ⟨hcard, hdown⟩

theorem counter_succ {es : List Event} {s : State} {id : Nat} (h : Tracked rr counter es s) :
    s.counter + 1 = counter + UInt64.ofNat (callers (es ++ [.attempt id])).length := by
  rw [h.counter_eq, callers_attempt, List.length_append, List.length_singleton, UInt64.ofNat_add, UInt64.add_assoc]
  rfl

theorem turned_others {es : List Event} {s : State} {id : Nat} {call : Call} (h : Tracked rr counter es s)
    (hcall : Turned rr counter (turns id (es ++ [.attempt id])) (some call)) (j : Nat) :
    Turned rr counter (turns j (es ++ [.attempt id])) (Function.update s.calls id (some call) j) := by
  by_cases hj : j = id
  · subst hj
    rw [Function.update_self]
    exact hcall
  · rw [Function.update_of_ne hj, turns_attempt_of_ne (Ne.symm hj)]
    exact h.turned j

/-- The step lemma: an attempt is one more turn of its call, and of no other. -/
theorem tracked_step (es : List Event) (s : State) (e : Event) (t : State) (h : Tracked rr counter es s)
    (hstep : step rr s e = some t) : Tracked rr counter (es ++ [e]) t := by
  rcases step_cases hstep with ⟨id, rfl, hc, rfl⟩ | ⟨id, left, rfl, hc, ⟨url, -, rfl⟩ | ⟨hp, rfl⟩⟩
  · refine ⟨by rw [callers_start]; exact h.counter_eq, fun j => ?_⟩
    change Turned rr counter _ (Function.update s.calls id (some (loop (attempts rr).toNat)) j)
    rw [turns_start]
    by_cases hj : j = id
    · subst hj
      have hnone : turns j es = ∅ := by simpa [Turned, hc] using h.turned j
      rw [Function.update_self, hnone, attempts_toNat]
      exact turned_loop (by simp) (by simp)
    · rw [Function.update_of_ne hj]
      exact h.turned j
  · exact ⟨counter_succ h, turned_others h trivial⟩
  · have hrunning := h.turned id
    rw [hc] at hrunning
    refine ⟨counter_succ h, turned_others h (turned_loop ?_ ?_)⟩
    · have hcard : left + 1 + (turns id es).card = rr.urls.length := hrunning.1
      rw [card_turns_attempt]
      omega
    · rw [turns_attempt_self]
      intro k hk
      rcases Finset.mem_insert.mp hk with rfl | hk
      · rw [DownAt, ← h.counter_eq]
        exact hp
      · exact hrunning.2 k hk

theorem tracked_run {es : List Event} {t : State} (hrun : exec (step rr) (start counter) es = some t) :
    Tracked rr counter es t := by
  have hstart : Tracked rr counter [] (start counter) := ⟨(UInt64.add_zero counter).symm, fun _ => rfl⟩
  exact exec_history (step rr) (Tracked rr counter) tracked_step hstart hrun

/-- Turns that are spread draw different positions. -/
theorem spread_injOn {n : Nat} {own : Finset Nat} (h : Spread n own) (c : Nat) :
    Set.InjOn (fun k => (c + k) % n) own := by
  have hless : ∀ i ∈ own, ∀ j ∈ own, (c + i) % n = (c + j) % n → ¬ i < j := by
    intro i hi j hj heq hlt
    apply h i hi j hj hlt
    have hmod : Nat.ModEq n (c + i) (c + j) := heq
    exact (Nat.modEq_iff_dvd' hlt.le).mp (Nat.ModEq.add_left_cancel' c hmod)
  intro i hi j hj heq
  rcases Nat.lt_trichotomy i j with hlt | rfl | hlt
  · exact absurd hlt (hless i hi j hj heq)
  · rfl
  · exact absurd hlt (hless j hj i hi heq.symm)

/-- So many turns that are spread leave no position out. -/
theorem spread_surjOn {n : Nat} {own : Finset Nat} (h : Spread n own) (hcard : own.card = n) (c : Nat) {p : Nat}
    (hp : p < n) : ∃ k ∈ own, (c + k) % n = p := by
  have hsub : own.image (fun k => (c + k) % n) ⊆ Finset.range n := by
    intro q hq
    obtain ⟨k, -, rfl⟩ := Finset.mem_image.mp hq
    exact Finset.mem_range.mpr (Nat.mod_lt _ (Nat.zero_lt_of_lt hp))
  have himage : own.image (fun k => (c + k) % n) = Finset.range n := by
    apply Finset.eq_of_subset_of_card_le hsub
    rw [Finset.card_image_of_injOn (spread_injOn h c), hcard, Finset.card_range]
  exact Finset.mem_image.mp (himage ▸ Finset.mem_range.mpr hp)

theorem noError_of_spread {es : List Event} {s : State} (hup : ∃ u ∈ rr.urls, rr.isHealthy u = true)
    (hroom : counter.toNat + (callers es).length ≤ 2 ^ 64) (h : Tracked rr counter es s) {id : Nat}
    (hspread : Spread rr.urls.length (turns id es)) : s.calls id ≠ some .errNoHealthyUpstreams := by
  intro herr
  have hturned := h.turned id
  rw [herr] at hturned
  obtain ⟨u, hu, hhealthy⟩ := hup
  obtain ⟨p, hp, rfl⟩ := List.mem_iff_getElem.mp hu
  obtain ⟨k, hk, hpos⟩ := spread_surjOn hspread hturned.1 counter.toNat hp
  have hlt : k < (callers es).length := (List.getElem?_eq_some_iff.mp (mem_turns.mp hk)).1
  have hdown : pick rr (counter + UInt64.ofNat k) = none := hturned.2 k hk
  rw [pick, position_add rr (by omega), hpos, List.getElem?_eq_getElem hp] at hdown
  simp [hhealthy] at hdown

end Run

/-! Where the condition fails, so can the call. The other attempts are made by calls that begin for
them, and the one upstream that is up stands at a position that the call's own turns leave out. -/

section Tight

def turnOf (own : Finset Nat) (k : Nat) : List Event :=
  if k ∈ own then [.attempt 0] else [.start (k + 1), .attempt (k + 1)]

def overlapped (own : Finset Nat) (m : Nat) : List Event := .start 0 :: (List.range m).flatMap (turnOf own)

theorem overlapped_succ (own : Finset Nat) (m : Nat) : overlapped own (m + 1) = overlapped own m ++ turnOf own m := by
  rw [overlapped, List.range_succ, List.flatMap_append, List.flatMap_singleton]
  rfl

theorem callers_overlapped (own : Finset Nat) (m : Nat) :
    callers (overlapped own m) = (List.range m).map fun k => if k ∈ own then 0 else k + 1 := by
  induction m with
  | zero => rfl
  | succ m ih =>
    rw [overlapped_succ, callers_append, ih, List.range_succ, List.map_append, turnOf]
    split
    · simp [*, callers, caller]
    · rename_i hm
      rw [List.map_singleton, if_neg hm]
      rfl

theorem turns_overlapped (own : Finset Nat) (m : Nat) : turns 0 (overlapped own m) = own.filter (· < m) := by
  ext k
  rw [mem_turns, callers_overlapped, List.getElem?_map, Option.map_eq_some_iff, Finset.mem_filter]
  constructor
  · rintro ⟨k', hk', hown⟩
    obtain ⟨hlt, rfl⟩ := List.getElem?_eq_some_iff.mp hk'
    rw [List.getElem_range] at hown
    refine ⟨?_, by simpa using hlt⟩
    by_contra hnot
    rw [if_neg hnot] at hown
    cases hown
  · rintro ⟨hown, hlt⟩
    exact ⟨k, List.getElem?_range hlt, if_pos hown⟩

variable {rr : RoundRobin} {counter : UInt64} {own : Finset Nat}

theorem filter_lt_succ (own : Finset Nat) (m : Nat) :
    own.filter (· < m + 1) = if m ∈ own then insert m (own.filter (· < m)) else own.filter (· < m) := by
  ext k
  split
  · simp only [Finset.mem_filter, Finset.mem_insert]
    grind
  · simp only [Finset.mem_filter]
    grind

/-- The call's turns so far are fewer than its attempts as long as one is still to come. -/
theorem card_lt_of_mem {m : Nat} (hm : m ∈ own) : (own.filter (· < m)).card < own.card := by
  apply Finset.card_lt_card
  rw [Finset.filter_ssubset]
  exact ⟨m, hm, lt_irrefl m⟩

theorem start_fresh {s : State} {j : Nat} (hne : rr.urls ≠ []) (hj : s.calls j = none) :
    ∃ t, exec (step rr) s [.start j, .attempt j] = some t ∧ t.counter = s.counter + 1 ∧
      ∀ i, i ≠ j → t.calls i = s.calls i := by
  have hpos : 0 < rr.urls.length := List.length_pos_of_ne_nil hne
  obtain ⟨left, hleft⟩ : ∃ left, rr.urls.length = left + 1 := ⟨_, (Nat.succ_pred hpos.ne').symm⟩
  have hstart : step rr s (.start j) = some ⟨s.counter, Function.update s.calls j (some (.running (left + 1)))⟩ := by
    simp [step, hj, attempts_toNat, hleft, loop]
  obtain ⟨call, hattempt⟩ : ∃ call, step rr ⟨s.counter, Function.update s.calls j (some (.running (left + 1)))⟩
      (.attempt j) = some ⟨s.counter + 1, Function.update s.calls j (some call)⟩ := by
    simp only [step, Function.update_self, Function.update_idem]
    exact ⟨_, rfl⟩
  refine ⟨_, (exec_cons_iff _).mpr ⟨_, hstart, (exec_cons_iff _).mpr ⟨_, hattempt, rfl⟩⟩, rfl, ?_⟩
  exact fun i hi => Function.update_of_ne hi _ _

/-- By induction on the number of attempts: the call has used one at each of its turns so far. -/
theorem exec_overlapped (hne : rr.urls ≠ []) (hcard : own.card = rr.urls.length)
    (hdown : ∀ k ∈ own, DownAt rr counter k) (m : Nat) :
    ∃ t, exec (step rr) (start counter) (overlapped own m) = some t ∧ t.counter = counter + UInt64.ofNat m ∧
      t.calls 0 = some (loop (rr.urls.length - (own.filter (· < m)).card)) ∧
      ∀ k, m ≤ k → t.calls (k + 1) = none := by
  induction m with
  | zero =>
    refine ⟨⟨counter, Function.update (fun _ => none) 0 (some (loop (attempts rr).toNat))⟩, rfl, ?_, ?_, ?_⟩
    · exact (UInt64.add_zero counter).symm
    · simp [attempts_toNat]
    · intro k _
      change Function.update (fun _ => none) 0 (some (loop (attempts rr).toNat)) (k + 1) = none
      exact Function.update_of_ne (Nat.succ_ne_zero k) _ _
  | succ m ih =>
    obtain ⟨s, hrun, hcounter, hown, hfresh⟩ := ih
    have hnext : s.counter + 1 = counter + UInt64.ofNat (m + 1) := by
      rw [hcounter, UInt64.ofNat_add, UInt64.add_assoc]
      rfl
    simp only [overlapped_succ, exec_append_iff, turnOf, filter_lt_succ]
    split
    · rename_i hm
      have hless := card_lt_of_mem hm
      have hnot : m ∉ own.filter (· < m) := by simp
      obtain ⟨left, hleft⟩ : ∃ left, rr.urls.length - (own.filter (· < m)).card = left + 1 :=
        ⟨_, (Nat.succ_pred (by omega)).symm⟩
      have hpick : pick rr s.counter = none := hcounter ▸ hdown m hm
      have hstep : step rr s (.attempt 0) = some ⟨s.counter + 1, Function.update s.calls 0 (some (loop left))⟩ := by
        simp [step, hown, hleft, loop, hpick]
      refine ⟨_, ⟨s, hrun, (exec_cons_iff _).mpr ⟨_, hstep, rfl⟩⟩, hnext, ?_, ?_⟩
      · rw [Finset.card_insert_of_notMem hnot]
        simp only [Function.update_self]
        congr 2
        omega
      · intro k hk
        change Function.update s.calls 0 (some (loop left)) (k + 1) = none
        rw [Function.update_of_ne (Nat.succ_ne_zero k)]
        exact hfresh k (Nat.le_of_succ_le hk)
    · obtain ⟨t, hexec, htcounter, hothers⟩ := start_fresh hne (hfresh m le_rfl)
      refine ⟨t, ⟨s, hrun, hexec⟩, htcounter.trans hnext, ?_, ?_⟩
      · exact (hothers 0 (Nat.succ_ne_zero m).symm).trans hown
      · intro k hk
        exact (hothers (k + 1) (by omega)).trans (hfresh k (Nat.le_of_succ_le hk))

/-- Turns that are not spread leave a position out. -/
theorem missed_of_not_spread {n : Nat} (hn : 0 < n) (hcard : own.card = n) (h : ¬ Spread n own) (c : Nat) :
    ∃ p < n, ∀ k ∈ own, (c + k) % n ≠ p := by
  unfold Spread at h
  push Not at h
  obtain ⟨i, hi, j, hj, hlt, hdvd⟩ := h
  have hsame : (c + i) % n = (c + j) % n :=
    Nat.ModEq.add_left c ((Nat.modEq_iff_dvd' hlt.le).mpr hdvd)
  -- without its later turn the call draws the same positions
  have hsub : own.image (fun k => (c + k) % n) ⊆ (own.erase j).image fun k => (c + k) % n := by
    intro p hp
    obtain ⟨k, hk, rfl⟩ := Finset.mem_image.mp hp
    by_cases hkj : k = j
    · subst hkj
      exact Finset.mem_image.mpr ⟨i, Finset.mem_erase.mpr ⟨hlt.ne, hi⟩, hsame⟩
    · exact Finset.mem_image.mpr ⟨k, Finset.mem_erase.mpr ⟨hkj, hk⟩, rfl⟩
  have hfew : (own.image fun k => (c + k) % n).card < (Finset.range n).card := by
    have hle := (Finset.card_le_card hsub).trans Finset.card_image_le
    rw [Finset.card_erase_of_mem hj, hcard] at hle
    rw [Finset.card_range]
    omega
  obtain ⟨p, hp, hmissed⟩ := Finset.exists_mem_notMem_of_card_lt_card hfew
  exact ⟨p, Finset.mem_range.mp hp, fun k hk heq => hmissed (Finset.mem_image.mpr ⟨k, hk, heq⟩)⟩

/-- The list with the checker that finds one position up. -/
def onlyUp (rr : RoundRobin) (p : Nat) : RoundRobin := {rr with isHealthy := fun url => rr.urls[p]? = some url}

theorem fails_of_not_spread (hne : rr.urls ≠ []) (hnodup : rr.urls.Nodup) (hcard : own.card = rr.urls.length)
    (hroom : ∀ k ∈ own, counter.toNat + k < 2 ^ 64) (h : ¬ Spread rr.urls.length own) :
    ∃ (isHealthy : String → Bool) (es : List Event) (t : State), (∃ u ∈ rr.urls, isHealthy u = true) ∧
      exec (step {rr with isHealthy}) (start counter) es = some t ∧ turns 0 es = own ∧
      t.calls 0 = some .errNoHealthyUpstreams := by
  have hpos : 0 < rr.urls.length := List.length_pos_of_ne_nil hne
  obtain ⟨p, hp, hmissed⟩ := missed_of_not_spread hpos hcard h counter.toNat
  have hdown : ∀ k ∈ own, DownAt (onlyUp rr p) counter k := by
    intro k hk
    have hlt : (counter.toNat + k) % rr.urls.length < rr.urls.length := Nat.mod_lt _ hpos
    rw [DownAt, pick, position_add _ (hroom k hk)]
    change (rr.urls[(counter.toNat + k) % rr.urls.length]?).filter _ = none
    rw [List.getElem?_eq_getElem hlt, Option.filter_some, if_neg]
    simp only [onlyUp, List.getElem?_eq_getElem hp, Option.some.injEq, decide_eq_true_eq]
    exact fun heq => hmissed k hk ((hnodup.getElem_inj_iff).mp heq).symm
  have hne' : (onlyUp rr p).urls ≠ [] := hne
  have hcard' : own.card = (onlyUp rr p).urls.length := hcard
  obtain ⟨m, hm⟩ := own.exists_nat_subset_range
  obtain ⟨t, hrun, -, hcall, -⟩ := exec_overlapped hne' hcard' hdown m
  have hall : own.filter (· < m) = own :=
    Finset.filter_true_of_mem fun k hk => Finset.mem_range.mp (hm hk)
  rw [hall, hcard] at hcall
  refine ⟨_, _, t, ⟨rr.urls[p], List.getElem_mem hp, ?_⟩, hrun, (turns_overlapped own _).trans hall, ?_⟩
  · simp
  · rw [hcall]
    simp [onlyUp, loop]

end Tight

/-- Calls of `Next` on a list with an upstream that is up, interleaved in any way, with a counter that
does not wrap. No call returns `ErrNoHealthyUpstreams` if between two attempts of one call there is
never a multiple of `len(urls)` attempts; and a call whose own attempts break this rule can fail. -/
theorem next_never_fails_of_spread (rr : RoundRobin) (hne : rr.urls ≠ []) (counter : UInt64) :
    (∀ es s, (∃ u ∈ rr.urls, rr.isHealthy u = true) → counter.toNat + (callers es).length ≤ 2 ^ 64 →
      (∀ id, Spread rr.urls.length (turns id es)) → Visits (step rr) (start counter) es s →
      ∀ id, s.calls id ≠ some .errNoHealthyUpstreams) ∧
    (rr.urls.Nodup → ∀ own : Finset Nat, own.card = rr.urls.length → (∀ k ∈ own, counter.toNat + k < 2 ^ 64) →
      ¬ Spread rr.urls.length own →
      ∃ (isHealthy : String → Bool) (es : List Event) (t : State), (∃ u ∈ rr.urls, isHealthy u = true) ∧
        exec (step {rr with isHealthy}) (start counter) es = some t ∧ turns 0 es = own ∧
        t.calls 0 = some .errNoHealthyUpstreams) := by
  constructor
  · rintro es s hup hroom hspread ⟨before, after, rfl, hrun⟩ id
    refine noError_of_spread hup ?_ (tracked_run hrun) ?_
    · rw [callers_append, List.length_append] at hroom
      omega
    · exact fun i hi j hj => hspread id i (turns_subset after hi) j (turns_subset after hj)
  · exact fun hnodup own hcard hroom h => fails_of_not_spread hne hnodup hcard hroom h

def secondHealthy : RoundRobin :=
  ⟨["http://b", "http://a"], fun u => u == "http://a", by decide⟩

/-- Two calls at once, the attempts of the one before those of the other. -/
def oneByOne : List Event := [.start 0, .start 1, .attempt 0, .attempt 0, .attempt 1, .attempt 1]

theorem next_never_fails_oneByOne :
    ((exec (step secondHealthy) (start 0) oneByOne).map fun t => (t.calls 0, t.calls 1)) =
        some (some (.returned "http://a"), some (.returned "http://a")) ∧
      (∀ s, Visits (step secondHealthy) (start 0) oneByOne s → ∀ id, s.calls id ≠ some .errNoHealthyUpstreams) ∧
      ∃ (isHealthy : String → Bool) (es : List Event) (t : State), (∃ u ∈ secondHealthy.urls, isHealthy u = true) ∧
        exec (step {secondHealthy with isHealthy}) (start 0) es = some t ∧ turns 0 es = {0, 2} ∧
        t.calls 0 = some .errNoHealthyUpstreams := by
  have hrule := next_never_fails_of_spread secondHealthy (by decide) 0
  refine ⟨by decide, fun s hv => ?_, ?_⟩
  · refine hrule.1 oneByOne s ⟨"http://a", by decide, by decide⟩ (by decide) ?_ hv
    intro id i hi j hj hlt
    rw [mem_turns] at hi hj
    have hj4 : j < 4 := (List.getElem?_eq_some_iff.mp hj).1
    have hpairs : ∀ j < 4, ∀ i < j, (callers oneByOne)[i]? = (callers oneByOne)[j]? → ¬ 2 ∣ j - i := by decide
    exact hpairs j hj4 i hlt (hi.trans hj.symm)
  · refine hrule.2 (by decide) {0, 2} rfl (by decide) ?_
    unfold Spread
    decide

/-- The failing run: the second call takes the healthy position between the two attempts of
the first, which sees the position that is down twice. -/
theorem next_fails_beside_healthy :
    ¬ ∀ (rr : RoundRobin) (es : List Event) (t : State), rr.urls ≠ [] →
      (∃ u ∈ rr.urls, rr.isHealthy u = true) → exec (step rr) (start 0) es = some t →
      ∀ id, t.calls id ≠ some .errNoHealthyUpstreams := by
  intro hall
  exact hall secondHealthy [.start 0, .start 1, .attempt 0, .attempt 1, .attempt 0] _ (by decide)
    ⟨"http://a", by decide, by decide⟩ rfl 0 rfl

end ApiGateway.LoadBalancer
