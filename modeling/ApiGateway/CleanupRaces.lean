import ApiGateway.MemoryLimiter
import ApiGateway.Runs
import ApiGateway.Tables
import Mathlib.Algebra.Order.Ring.Int
import Mathlib.Logic.Function.Basic
import Mathlib.Tactic.IntervalCases

/-!
# `Allow` calls and cleanup passes on one map

`Allow` and `cleanup` of `internal/ratelimit/limiter.go` as the map operations they are made of,
with any number of calls and passes taking their steps between those of the others. `Allow` is a
`Load`; if it finds an entry, a clock reading and a blind `Store` of the same limiter; if not, a
new limiter, a clock reading and a `LoadOrStore`. A pass reads the entry of a key, reads the
clock, and deletes the key, whatever is stored under it by then. A limiter is a pointer: here a
number from the allocation counter `next`. A call starts with its `Load`. Readings of the clock
do not decrease along a run; times are nanoseconds.
-/

namespace ApiGateway.CleanupRaces

open Runs Tables
set_option autoImplicit false

structure Entry where
  limiter : Nat
  lastSeen : ℤ
  deriving DecidableEq

/-- Where an `Allow` call stands: it has found an entry, is about to store it anew, has found
none, is about to store a new one, or has come to the limiter it takes its token from. -/
inductive Pc where
  | found (limiter : Nat)
  | refreshing (e : Entry)
  | missed
  | creating (e : Entry)
  | taking (limiter : Nat)
  deriving DecidableEq

structure Call where
  key : String
  start : ℤ
  pc : Pc
  deriving DecidableEq

/-- A pass of `cleanup` at one key: it has read the entry, or has found it too old. -/
inductive Sweep where
  | read (key : String) (e : Entry)
  | stale (key : String)
  | done
  deriving DecidableEq

structure State where
  entries : String → Option Entry
  calls : Nat → Option Call
  sweeps : Nat → Option Sweep
  next : Nat
  now : ℤ

inductive Event where
  | load (i : Nat) (key : String) (now : ℤ)
  | clock (i : Nat) (now : ℤ)
  | store (i : Nat)
  | loadOrStore (i : Nat)
  | range (v : Nat) (key : String)
  | since (v : Nat) (now : ℤ)
  | delete (v : Nat)
  deriving DecidableEq

def start (now : ℤ) : State := ⟨fun _ => none, fun _ => none, fun _ => none, 0, now⟩

def setCall (s : State) (i : Nat) (p : Call) : State := {s with calls := Function.update s.calls i (some p)}

def setEntry (s : State) (key : String) (e : Option Entry) : State :=
  {s with entries := Function.update s.entries key e}

def setSweep (s : State) (v : Nat) (w : Sweep) : State :=
  {s with sweeps := Function.update s.sweeps v (some w)}

def step (maxIdle : ℤ) (s : State) : Event → Option State
  | .load i key now =>
    match s.calls i with
    | some _ => none
    | none =>
      if s.now ≤ now then
        match s.entries key with
        | some e => some (setCall {s with now := now} i ⟨key, now, .found e.limiter⟩)
        | none => some (setCall {s with now := now} i ⟨key, now, .missed⟩)
      else none
  | .clock i now =>
    if s.now ≤ now then
      match s.calls i with
      | some ⟨key, t, .found l⟩ => some (setCall {s with now := now} i ⟨key, t, .refreshing ⟨l, now⟩⟩)
      | some ⟨key, t, .missed⟩ =>
        some (setCall {s with now := now, next := s.next + 1} i ⟨key, t, .creating ⟨s.next, now⟩⟩)
      | _ => none
    else none
  | .store i =>
    match s.calls i with
    | some ⟨key, t, .refreshing e⟩ =>
      some (setCall (setEntry s key (some e)) i ⟨key, t, .taking e.limiter⟩)
    | _ => none
  | .loadOrStore i =>
    match s.calls i with
    | some ⟨key, t, .creating e⟩ =>
      match s.entries key with
      | some actual => some (setCall s i ⟨key, t, .taking actual.limiter⟩)
      | none => some (setCall (setEntry s key (some e)) i ⟨key, t, .taking e.limiter⟩)
    | _ => none
  | .range v key =>
    match s.sweeps v, s.entries key with
    | none, some e => some (setSweep s v (.read key e))
    | _, _ => none
  | .since v now =>
    if s.now ≤ now then
      match s.sweeps v with
      | some (.read key e) =>
        some (setSweep {s with now := now} v (if now - e.lastSeen > maxIdle then .stale key else .done))
      | _ => none
    else none
  | .delete v =>
    match s.sweeps v with
    | some (.stale key) => some (setSweep (setEntry s key none) v .done)
    | _ => none

inductive Step (maxIdle : ℤ) (s : State) : Event → State → Prop
  | hit {i : Nat} {key : String} {now : ℤ} {e : Entry} (hi : s.calls i = none) (hnow : s.now ≤ now)
    (he : s.entries key = some e) :
    Step maxIdle s (.load i key now) (setCall {s with now := now} i ⟨key, now, .found e.limiter⟩)
  | miss {i : Nat} {key : String} {now : ℤ} (hi : s.calls i = none) (hnow : s.now ≤ now)
    (he : s.entries key = none) :
    Step maxIdle s (.load i key now) (setCall {s with now := now} i ⟨key, now, .missed⟩)
  | stamp {i : Nat} {key : String} {t now : ℤ} {l : Nat} (hnow : s.now ≤ now)
    (hi : s.calls i = some ⟨key, t, .found l⟩) :
    Step maxIdle s (.clock i now) (setCall {s with now := now} i ⟨key, t, .refreshing ⟨l, now⟩⟩)
  | create {i : Nat} {key : String} {t now : ℤ} (hnow : s.now ≤ now)
    (hi : s.calls i = some ⟨key, t, .missed⟩) :
    Step maxIdle s (.clock i now)
      (setCall {s with now := now, next := s.next + 1} i ⟨key, t, .creating ⟨s.next, now⟩⟩)
  | store {i : Nat} {key : String} {t : ℤ} {e : Entry} (hi : s.calls i = some ⟨key, t, .refreshing e⟩) :
    Step maxIdle s (.store i) (setCall (setEntry s key (some e)) i ⟨key, t, .taking e.limiter⟩)
  | loaded {i : Nat} {key : String} {t : ℤ} {e actual : Entry}
    (hi : s.calls i = some ⟨key, t, .creating e⟩) (he : s.entries key = some actual) :
    Step maxIdle s (.loadOrStore i) (setCall s i ⟨key, t, .taking actual.limiter⟩)
  | stored {i : Nat} {key : String} {t : ℤ} {e : Entry} (hi : s.calls i = some ⟨key, t, .creating e⟩)
    (he : s.entries key = none) :
    Step maxIdle s (.loadOrStore i) (setCall (setEntry s key (some e)) i ⟨key, t, .taking e.limiter⟩)
  | range {v : Nat} {key : String} {e : Entry} (hv : s.sweeps v = none) (he : s.entries key = some e) :
    Step maxIdle s (.range v key) (setSweep s v (.read key e))
  | since {v : Nat} {key : String} {now : ℤ} {e : Entry} (hnow : s.now ≤ now)
    (hv : s.sweeps v = some (.read key e)) :
    Step maxIdle s (.since v now)
      (setSweep {s with now := now} v (if now - e.lastSeen > maxIdle then .stale key else .done))
  | delete {v : Nat} {key : String} (hv : s.sweeps v = some (.stale key)) :
    Step maxIdle s (.delete v) (setSweep (setEntry s key none) v .done)

theorem step_cases {maxIdle : ℤ} {s t : State} {e : Event} (h : step maxIdle s e = some t) :
    Step maxIdle s e t := by
  cases e with
  | load i key now =>
    simp only [step] at h
    split at h
    · cases h
    · split at h
      · split at h
        · cases h
          exact .hit ‹_› ‹_› ‹_›
        · cases h
          exact .miss ‹_› ‹_› ‹_›
      · cases h
  | clock i now =>
    simp only [step] at h
    split at h
    · split at h
      · cases h
        exact .stamp ‹_› ‹_›
      · cases h
        exact .create ‹_› ‹_›
      · cases h
    · cases h
  | store i =>
    simp only [step] at h
    split at h
    · cases h
      exact .store ‹_›
    · cases h
  | loadOrStore i =>
    simp only [step] at h
    split at h
    · split at h
      · cases h
        exact .loaded ‹_› ‹_›
      · cases h
        exact .stored ‹_› ‹_›
    · cases h
  | range v key =>
    simp only [step] at h
    split at h
    · cases h
      exact .range ‹_› ‹_›
    · cases h
  | since v now =>
    simp only [step] at h
    split at h
    · split at h
      · cases h
        exact .since ‹_› ‹_›
      · cases h
    · cases h
  | delete v =>
    simp only [step] at h
    split at h
    · cases h
      exact .delete ‹_›
    · cases h

/-- The limiter a call will take its token from, once that is settled. -/
def Pc.limiter : Pc → Option Nat
  | .found l => some l
  | .refreshing e => some e.limiter
  | .taking l => some l
  | _ => none

/-- The call has found no entry and has not stored one yet. -/
def Pc.pending : Pc → Bool
  | .missed => true
  | .creating _ => true
  | _ => false

/-- Calls on one key that start within `maxIdle` of each other take their tokens from one limiter. -/
def OneLimiter (maxIdle : ℤ) (s : State) : Prop :=
  ∀ i j p q a b, s.calls i = some p → s.calls j = some q → p.key = q.key → p.pc = .taking a →
    q.pc = .taking b → |p.start - q.start| ≤ maxIdle → a = b

/-- What the map operations do not check. A `Store` does not put an older reading of the clock over
a newer one; an entry that `LoadOrStore` finds was not last seen before the call started; a
`Delete` removes an entry that is still too old, and no call on the key is between its first and
its last map operation. -/
def Undisturbed (maxIdle : ℤ) (s : State) : Event → Prop
  | .store i => ∀ key t e e', s.calls i = some ⟨key, t, .refreshing e⟩ → s.entries key = some e' →
    e'.lastSeen ≤ e.lastSeen
  | .loadOrStore i => ∀ key t e e', s.calls i = some ⟨key, t, .creating e⟩ → s.entries key = some e' →
    t ≤ e'.lastSeen
  | .delete v => ∀ key, s.sweeps v = some (.stale key) →
    (∀ e, s.entries key = some e → maxIdle < s.now - e.lastSeen) ∧
    ∀ i p, s.calls i = some p → p.key = key → ∃ l, p.pc = .taking l
  | _ => True

/-- The call's limiter has left the map, more than `maxIdle` after the call started, and every call
that may still store a new one started as late. -/
def Gone (maxIdle : ℤ) (s : State) (p : Call) : Prop :=
  p.start + maxIdle < s.now ∧
  ∀ j q, s.calls j = some q → q.key = p.key → q.pc.pending = true → p.start + maxIdle < q.start

def CallOk (maxIdle : ℤ) (s : State) (p : Call) : Prop :=
  p.start ≤ s.now ∧
  match p.pc with
  | .found l => ∃ e, s.entries p.key = some e ∧ e.limiter = l
  | .refreshing e => p.start ≤ e.lastSeen ∧ ∃ e', s.entries p.key = some e' ∧ e'.limiter = e.limiter
  | .missed => True
  | .creating e => p.start ≤ e.lastSeen
  | .taking l =>
    (∃ e, s.entries p.key = some e ∧ e.limiter = l ∧ p.start ≤ e.lastSeen) ∨ Gone maxIdle s p

/-- Calls on one key with different limiters are more than `maxIdle` apart. -/
def Apart (maxIdle : ℤ) (calls : Nat → Option Call) : Prop :=
  ∀ i j p q a b, calls i = some p → calls j = some q → p.key = q.key → p.pc.limiter = some a →
    q.pc.limiter = some b → a ≠ b → maxIdle < |p.start - q.start|

structure Inv (maxIdle : ℤ) (s : State) : Prop where
  calls : ∀ i p, s.calls i = some p → CallOk maxIdle s p
  apart : Apart maxIdle s.calls

section Calls
variable {maxIdle : ℤ} {s s' : State} {p q : Call}

/-- What a call relies on survives a step that keeps the limiter under its key and does not take
back when that was last seen, and lets no call start storing that started before the step. -/
theorem callOk_mono (h : CallOk maxIdle s p) (hnow : s.now ≤ s'.now)
    (hentries : ∀ e, s.entries p.key = some e →
      ∃ e', s'.entries p.key = some e' ∧ e'.limiter = e.limiter ∧ e.lastSeen ≤ e'.lastSeen)
    (hpending : ∀ j q, s'.calls j = some q → q.pc.pending = true →
      (∃ q', s.calls j = some q' ∧ q'.key = q.key ∧ q'.start = q.start ∧ q'.pc.pending = true) ∨
        s.now ≤ q.start) : CallOk maxIdle s' p := by
  obtain ⟨hstart, hpc⟩ := h
  refine ⟨hstart.trans hnow, ?_⟩
  cases hp : p.pc with
  | found l =>
    simp only [hp] at hpc ⊢
    obtain ⟨e, he, rfl⟩ := hpc
    obtain ⟨e', he', hl, _⟩ := hentries e he
    exact ⟨e', he', hl⟩
  | refreshing e =>
    simp only [hp] at hpc ⊢
    obtain ⟨hseen, e₀, he, hl₀⟩ := hpc
    obtain ⟨e', he', hl, _⟩ := hentries e₀ he
    exact ⟨hseen, e', he', hl.trans hl₀⟩
  | missed => trivial
  | creating e =>
    simp only [hp] at hpc ⊢
    exact hpc
  | taking l =>
    simp only [hp] at hpc ⊢
    rcases hpc with ⟨e, he, rfl, hseen⟩ | ⟨hgone, hlater⟩
    · obtain ⟨e', he', hl, hle⟩ := hentries e he
      exact .inl ⟨e', he', hl, hseen.trans hle⟩
    · refine .inr ⟨hgone.trans_le hnow, ?_⟩
      intro j q hq hkey hpend
      rcases hpending j q hq hpend with ⟨q', hq', hkey', hstart', hpend'⟩ | hle
      · rw [← hstart']
        exact hlater j q' hq' (hkey'.trans hkey) hpend'
      · exact hgone.trans_le hle

/-- A call whose limiter is not the one in the map is done with it, long ago. -/
theorem gone_of_other (h : CallOk maxIdle s q) {b : Nat} (hb : q.pc.limiter = some b)
    (hother : ∀ e, s.entries q.key = some e → e.limiter ≠ b) : Gone maxIdle s q := by
  obtain ⟨_, hpc⟩ := h
  cases hp : q.pc with
  | found l =>
    simp only [hp, Pc.limiter, Option.some.injEq] at hpc hb
    obtain ⟨e, he, hl⟩ := hpc
    exact absurd (hl.trans hb) (hother e he)
  | refreshing e =>
    simp only [hp, Pc.limiter, Option.some.injEq] at hpc hb
    obtain ⟨_, e', he, hl⟩ := hpc
    exact absurd (hl.trans hb) (hother e' he)
  | missed => simp [hp, Pc.limiter] at hb
  | creating e => simp [hp, Pc.limiter] at hb
  | taking l =>
    simp only [hp, Pc.limiter, Option.some.injEq] at hpc hb
    rcases hpc with ⟨e, he, hl, _⟩ | hgone
    · exact absurd (hl.trans hb) (hother e he)
    · exact hgone

theorem far_of_lt {a b : ℤ} (h : b + maxIdle < a) : maxIdle < |a - b| :=
  lt_of_lt_of_le (by omega) (le_abs_self _)

/-- A call settles on a limiter, or goes on with the one it had. -/
theorem apart_update {calls : Nat → Option Call} {i : Nat} (h : Apart maxIdle calls)
    (hp : ∀ j q a b, calls j = some q → q.key = p.key → p.pc.limiter = some a → q.pc.limiter = some b →
      a ≠ b → maxIdle < |p.start - q.start|) : Apart maxIdle (Function.update calls i (some p)) := by
  intro j k q r a b hq hr hkey ha hb hab
  rcases update_cases hq with ⟨_, rfl⟩ | ⟨_, hq'⟩
  · rcases update_cases hr with ⟨_, rfl⟩ | ⟨_, hr'⟩
    · rw [ha] at hb
      exact absurd (Option.some.inj hb) hab
    · exact hp k r a b hr' hkey.symm ha hb hab
  · rcases update_cases hr with ⟨_, rfl⟩ | ⟨_, hr'⟩
    · rw [abs_sub_comm]
      exact hp j q b a hq' hkey hb ha hab.symm
    · exact h j k q r a b hq' hr' hkey ha hb hab

theorem apart_same {calls : Nat → Option Call} {i : Nat} {p₀ : Call} (h : Apart maxIdle calls)
    (hi : calls i = some p₀) (hkey : p.key = p₀.key) (hstart : p.start = p₀.start)
    (hl : p.pc.limiter = none ∨ p.pc.limiter = p₀.pc.limiter) :
    Apart maxIdle (Function.update calls i (some p)) := by
  refine apart_update h ?_
  intro j q a b hq hqkey ha hb hab
  rcases hl with hnone | hsame
  · rw [hnone] at ha
    cases ha
  · rw [hstart]
    exact h i j p₀ q a b hi hq (hkey ▸ hqkey.symm) (hsame ▸ ha) hb hab

end Calls

theorem inv_start (maxIdle now : ℤ) : Inv maxIdle (start now) where
  calls := by
    intro i p hp
    cases hp
  apart := by
    intro i j p q a b hp
    cases hp

section Step
variable {maxIdle : ℤ} {s t : State} {e : Event}

/-- One call moves on, the clock may advance, and the map changes at most as `callOk_mono` allows. -/
theorem inv_call (h : Inv maxIdle s) {i : Nat} {p : Call} (hnow : s.now ≤ t.now)
    (hcalls : t.calls = Function.update s.calls i (some p))
    (hentries : ∀ key e, s.entries key = some e →
      ∃ e', t.entries key = some e' ∧ e'.limiter = e.limiter ∧ e.lastSeen ≤ e'.lastSeen)
    (hpending : p.pc.pending = true →
      (∃ q', s.calls i = some q' ∧ q'.key = p.key ∧ q'.start = p.start ∧ q'.pc.pending = true) ∨
        s.now ≤ p.start)
    (hp : CallOk maxIdle t p) (hapart : Apart maxIdle t.calls) : Inv maxIdle t := by
  refine ⟨?_, hapart⟩
  intro j q hq
  rw [hcalls] at hq
  rcases update_cases hq with ⟨_, rfl⟩ | ⟨_, hq⟩
  · exact hp
  · refine callOk_mono (h.calls j q hq) hnow (hentries q.key) ?_
    intro k r hr hpend
    rw [hcalls] at hr
    rcases update_cases hr with ⟨rfl, rfl⟩ | ⟨_, hr⟩
    · exact hpending hpend
    · exact .inl ⟨r, hr, rfl, rfl, hpend⟩

theorem same_entries (key : String) (e : Entry) (he : s.entries key = some e) :
    ∃ e', s.entries key = some e' ∧ e'.limiter = e.limiter ∧ e.lastSeen ≤ e'.lastSeen :=
  ⟨e, he, rfl, le_rfl⟩

/-- A `Store` or `LoadOrStore` under `key` that keeps what was there, if anything was. -/
theorem set_entries {key : String} {e : Entry}
    (hkeep : ∀ e₀, s.entries key = some e₀ → e.limiter = e₀.limiter ∧ e₀.lastSeen ≤ e.lastSeen)
    (k : String) (e₀ : Entry) (he₀ : s.entries k = some e₀) :
    ∃ e', Function.update s.entries key (some e) k = some e' ∧ e'.limiter = e₀.limiter ∧
      e₀.lastSeen ≤ e'.lastSeen := by
  by_cases hk : k = key
  · subst hk
    rw [Function.update_self]
    obtain ⟨hl, hle⟩ := hkeep e₀ he₀
    exact ⟨e, rfl, hl, hle⟩
  · rw [Function.update_of_ne hk]
    exact ⟨e₀, he₀, rfl, le_rfl⟩

/-- A call that settles on a limiter late is far from every call that has another one. -/
theorem far_of_pending (h : Inv maxIdle s) {i j : Nat} {p q : Call} {b : Nat} (hi : s.calls i = some p)
    (hpend : p.pc.pending = true) (hq : s.calls j = some q) (hkey : q.key = p.key)
    (hb : q.pc.limiter = some b) (hother : ∀ e, s.entries p.key = some e → e.limiter ≠ b) :
    maxIdle < |p.start - q.start| := by
  have hgone := gone_of_other (h.calls j q hq) hb (by rwa [hkey])
  exact far_of_lt (hgone.2 i p hi hkey.symm hpend)

theorem limiter_ne_of_entry {key : String} {e : Entry} {b : Nat} (he : s.entries key = some e)
    (hb : e.limiter ≠ b) : ∀ e', s.entries key = some e' → e'.limiter ≠ b := by
  intro e' he'
  obtain rfl := Option.some.inj (he.symm.trans he')
  exact hb

/-- The entry under `key` is stale and every call on it has its limiter: when it is deleted, each of
them has lost it for good. -/
theorem gone_of_stale {key : String} {p : Call} {l : Nat}
    (hstale : ∀ e, s.entries key = some e → maxIdle < s.now - e.lastSeen)
    (hquiet : ∀ i q, s.calls i = some q → q.key = key → ∃ l', q.pc = .taking l')
    (h : CallOk maxIdle s p) (hkey : p.key = key) (hl : p.pc = .taking l) : Gone maxIdle s p := by
  obtain ⟨-, hpc⟩ := h
  simp only [hl] at hpc
  rcases hpc with ⟨e, he, -, hseen⟩ | hgone
  · rw [hkey] at he
    have hold := hstale e he
    refine ⟨by omega, ?_⟩
    intro j q hq hqkey hpend
    obtain ⟨l', hl'⟩ := hquiet j q hq (hqkey.trans hkey)
    rw [hl'] at hpend
    cases hpend
  · exact hgone

theorem inv_step (h : Inv maxIdle s) (hs : Step maxIdle s e t) (hok : Undisturbed maxIdle s e) :
    Inv maxIdle t := by
  cases hs with
  | @hit i key now e hi hnow he =>
    refine inv_call h hnow rfl (same_entries (s := s)) (by simp [Pc.pending]) ⟨le_rfl, e, he, rfl⟩ ?_
    refine apart_update h.apart ?_
    intro j q a b hq hkey ha hb hab
    cases ha
    have hother := limiter_ne_of_entry he hab
    have hgone := gone_of_other (h.calls j q hq) hb (by rwa [hkey])
    exact far_of_lt (hgone.1.trans_le hnow)
  | @miss i key now hi hnow he =>
    refine inv_call h hnow rfl (same_entries (s := s)) (fun _ => .inr hnow) ⟨le_rfl, trivial⟩ ?_
    refine apart_update h.apart ?_
    intro j q a b hq hkey ha
    cases ha
  | @stamp i key t now l hnow hi =>
    obtain ⟨hstart, e, he, hl⟩ := h.calls i _ hi
    have hle : t ≤ now := hstart.trans hnow
    exact inv_call h hnow rfl (same_entries (s := s)) (by simp [Pc.pending]) ⟨hle, hle, e, he, hl⟩
      (apart_same h.apart hi rfl rfl (.inr rfl))
  | @create i key t now hnow hi =>
    have hle : t ≤ now := (h.calls i _ hi).1.trans hnow
    exact inv_call h hnow rfl (same_entries (s := s)) (fun _ => .inl ⟨_, hi, rfl, rfl, rfl⟩) ⟨hle, hle⟩
      (apart_same h.apart hi rfl rfl (.inl rfl))
  | @store i key t e hi =>
    obtain ⟨hstart, hseen, e₀, he₀, hl⟩ := h.calls i _ hi
    refine inv_call h le_rfl rfl (set_entries ?_) (by simp [Pc.pending])
      ⟨hstart, .inl ⟨e, Function.update_self .., rfl, hseen⟩⟩ (apart_same h.apart hi rfl rfl (.inr rfl))
    intro e' he'
    rw [he₀] at he'
    cases he'
    exact ⟨hl.symm, hok key t e e₀ hi he₀⟩
  | @loaded i key t e actual hi he =>
    obtain ⟨hstart, _⟩ := h.calls i _ hi
    refine inv_call h le_rfl rfl (same_entries (s := s)) (by simp [Pc.pending])
      ⟨hstart, .inl ⟨actual, he, rfl, hok key t e actual hi he⟩⟩ ?_
    refine apart_update h.apart ?_
    intro j q a b hq hkey ha hb hab
    cases ha
    have hfar := far_of_pending h hi rfl hq hkey hb (limiter_ne_of_entry he hab)
    exact hfar
  | @stored i key t e hi he =>
    obtain ⟨hstart, hseen⟩ := h.calls i _ hi
    refine inv_call h le_rfl rfl (set_entries ?_) (by simp [Pc.pending])
      ⟨hstart, .inl ⟨e, Function.update_self .., rfl, hseen⟩⟩ ?_
    · intro e' he'
      rw [he] at he'
      cases he'
    · refine apart_update h.apart ?_
      intro j q a b hq hkey ha hb hab
      have hother : ∀ e', s.entries key = some e' → e'.limiter ≠ b := by
        intro e' he'
        rw [he] at he'
        cases he'
      have hfar := far_of_pending h hi rfl hq hkey hb hother
      exact hfar
  | range hv he => exact ⟨h.calls, h.apart⟩
  | since hnow hv =>
    refine ⟨?_, h.apart⟩
    intro i p hp
    exact callOk_mono (h.calls i p hp) hnow (same_entries p.key)
      fun j q hq hpend => .inl ⟨q, hq, rfl, rfl, hpend⟩
  | @delete v key hv =>
    obtain ⟨hstale, hquiet⟩ := hok key hv
    refine ⟨?_, h.apart⟩
    intro i p hp
    by_cases hkey : p.key = key
    · obtain ⟨l, hl⟩ := hquiet i p hp hkey
      have hgone := gone_of_stale hstale hquiet (h.calls i p hp) hkey hl
      refine ⟨(h.calls i p hp).1, ?_⟩
      simp only [hl]
      exact .inr hgone
    · refine callOk_mono (h.calls i p hp) le_rfl ?_ fun j q hq hpend => .inl ⟨q, hq, rfl, rfl, hpend⟩
      intro e he
      refine ⟨e, ?_, rfl, le_rfl⟩
      change Function.update s.entries key none p.key = some e
      rw [Function.update_of_ne hkey]
      exact he

theorem inv_oneLimiter (h : Inv maxIdle s) : OneLimiter maxIdle s := by
  intro i j p q a b hp hq hkey ha hb hnear
  by_contra hab
  have hfar := h.apart i j p q a b hp hq hkey (by rw [ha]; rfl) (by rw [hb]; rfl) hab
  exact absurd hnear (not_le.mpr hfar)

end Step

/-- Over every interleaving of calls and cleanup passes whose map operations are undisturbed: in
every state, calls on one key that start within `maxIdle` of each other take their tokens from
one limiter. -/
theorem oneLimiter_of_undisturbed {maxIdle now : ℤ} {es : List Event} {s : State}
    (hok : StepsMeet (step maxIdle) (Undisturbed maxIdle) (start now) es)
    (hv : Visits (step maxIdle) (start now) es s) : OneLimiter maxIdle s :=
  inv_oneLimiter (visits_invariant (step maxIdle) (Inv maxIdle)
    (fun _ _ _ hu hok' hstep => inv_step hu (step_cases hstep) hok') (inv_start maxIdle now) hok hv)

section Alone
variable {maxIdle : ℤ} {s : State} {ml : Ratelimit.MemoryLimiter}

/-- The map holds the keys that the limiter of one operation at a time holds, last seen then. -/
def Mirrors (s : State) (ml : Ratelimit.MemoryLimiter) : Prop :=
  ∀ key, (s.entries key).map Entry.lastSeen = (ml.entries key).map Ratelimit.Entry.lastSeen

theorem mirrors_allow (h : Mirrors s ml) {t : State} {key : String} {l : Nat} {now : ℤ}
    (ht : t.entries = Function.update s.entries key (some ⟨l, now⟩)) : Mirrors t (ml.allow key now).1 := by
  let R (x : Option Entry) (y : Option Ratelimit.Entry) : Prop :=
    x.map Entry.lastSeen = y.map Ratelimit.Entry.lastSeen
  intro k
  rw [ht]
  exact related_update (R := R) h rfl k

theorem exec_three {e₁ e₂ e₃ : Event} {s₁ s₂ s₃ : State} (h₁ : step maxIdle s e₁ = some s₁)
    (h₂ : step maxIdle s₁ e₂ = some s₂) (h₃ : step maxIdle s₂ e₃ = some s₃) :
    exec (step maxIdle) s [e₁, e₂, e₃] = some s₃ := by
  simp only [exec, h₁, h₂, h₃, Option.bind_some]

/-- A call that no other step comes between does to the map what `Allow` does in one operation. -/
theorem call_alone (h : Mirrors s ml) {i : Nat} (hi : s.calls i = none) (key : String) {now : ℤ}
    (hnow : s.now ≤ now) : ∃ last t, (last = .store i ∨ last = .loadOrStore i) ∧
      exec (step maxIdle) s [.load i key now, .clock i now, last] = some t ∧
      Mirrors t (ml.allow key now).1 := by
  cases he : s.entries key with
  | some e =>
    let s₁ := setCall {s with now := now} i ⟨key, now, .found e.limiter⟩
    let s₂ := setCall s₁ i ⟨key, now, .refreshing ⟨e.limiter, now⟩⟩
    let s₃ := setCall (setEntry s₂ key (some ⟨e.limiter, now⟩)) i ⟨key, now, .taking e.limiter⟩
    have h₁ : step maxIdle s (.load i key now) = some s₁ := by simp only [step, hi, hnow, he, if_true, s₁]
    have h₂ : step maxIdle s₁ (.clock i now) = some s₂ := by simp [step, s₂, s₁, setCall]
    have h₃ : step maxIdle s₂ (.store i) = some s₃ := by simp [step, s₃, s₂, setCall]
    exact ⟨.store i, s₃, .inl rfl, exec_three h₁ h₂ h₃, mirrors_allow h rfl⟩
  | none =>
    let s₁ := setCall {s with now := now} i ⟨key, now, .missed⟩
    let s₂ := setCall {s₁ with next := s.next + 1} i ⟨key, now, .creating ⟨s.next, now⟩⟩
    let s₃ := setCall (setEntry s₂ key (some ⟨s.next, now⟩)) i ⟨key, now, .taking s.next⟩
    have h₁ : step maxIdle s (.load i key now) = some s₁ := by simp only [step, hi, hnow, he, if_true, s₁]
    have h₂ : step maxIdle s₁ (.clock i now) = some s₂ := by simp [step, s₂, s₁, setCall]
    have h₃ : step maxIdle s₂ (.loadOrStore i) = some s₃ := by simp [step, s₃, s₂, s₁, setCall, he]
    exact ⟨.loadOrStore i, s₃, .inr rfl, exec_three h₁ h₂ h₃, mirrors_allow h rfl⟩

/-- A pass at an old entry that no other step comes between does to its key what `cleanup` does. -/
theorem sweep_alone (h : Mirrors s ml) {v : Nat} (hv : s.sweeps v = none) {key : String} {now : ℤ}
    (hnow : s.now ≤ now) {e : Entry} (he : s.entries key = some e) (hold : now - e.lastSeen > ml.cleanupMaxIdle) :
    ∃ t, exec (step ml.cleanupMaxIdle) s [.range v key, .since v now, .delete v] = some t ∧
      (t.entries key).map Entry.lastSeen =
        ((ml.cleanup now).entries key).map Ratelimit.Entry.lastSeen := by
  let s₁ := setSweep s v (.read key e)
  let s₂ := setSweep {s₁ with now := now} v (.stale key)
  let s₃ := setSweep (setEntry s₂ key none) v .done
  have h₁ : step ml.cleanupMaxIdle s (.range v key) = some s₁ := by simp only [step, hv, he, s₁]
  have h₂ : step ml.cleanupMaxIdle s₁ (.since v now) = some s₂ := by
    simp only [step, s₂, s₁, setSweep, Function.update_self, hnow, hold, if_true]
  have h₃ : step ml.cleanupMaxIdle s₂ (.delete v) = some s₃ := by simp [step, s₃, s₂, setSweep]
  refine ⟨s₃, exec_three h₁ h₂ h₃, ?_⟩
  have hgone : s₃.entries key = none := Function.update_self ..
  have hmirror := h key
  rw [he] at hmirror
  obtain ⟨e', he', hseen⟩ := Option.map_eq_some_iff.mp hmirror.symm
  have hswept : (ml.cleanup now).entries key = none := by
    simp only [Ratelimit.MemoryLimiter.cleanup, he', Option.filter_some, hseen, hold, decide_true,
      Bool.not_true, Bool.false_eq_true, if_false]
  rw [hgone, hswept]
  rfl

end Alone

/-- The first pass deletes an entry that nobody uses; the two calls after it share a new one. -/
def quietPass : List Event :=
  [.load 0 "k" 0, .clock 0 0, .loadOrStore 0, .range 0 "k", .since 0 20, .delete 0,
    .load 1 "k" 21, .clock 1 21, .loadOrStore 1, .load 2 "k" 25, .clock 2 25, .store 2]

theorem oneLimiter_quietPass :
    ((exec (step 10) (start 0) quietPass).map fun s => (s.calls 0, s.calls 1, s.calls 2)) =
        some (some ⟨"k", 0, .taking 0⟩, some ⟨"k", 21, .taking 1⟩, some ⟨"k", 25, .taking 1⟩) ∧
      ∀ s, Visits (step 10) (start 0) quietPass s → OneLimiter 10 s := by
  refine ⟨by decide +kernel, fun s hs => oneLimiter_of_undisturbed (stepsMeet_of_take (step 10) ?_) hs⟩
  intro n e t he ht
  have hn : n < 12 := (List.getElem?_eq_some_iff.mp he).1
  interval_cases n <;> cases he
  all_goals try trivial
  all_goals obtain rfl := Option.some.inj ht
  · intro key t e e' hcall he
    cases hcall
    cases he
  · intro key hsweep
    cases hsweep
    refine ⟨?_, ?_⟩
    · intro e he
      cases he
      decide
    · intro i p hp _
      rcases update_cases hp with ⟨_, rfl⟩ | ⟨hi, hp₁⟩
      · exact ⟨0, rfl⟩
      · rcases update_cases hp₁ with ⟨h0, _⟩ | ⟨_, hp₂⟩
        · exact absurd h0 hi
        · rcases update_cases hp₂ with ⟨h0, _⟩ | ⟨_, hp₃⟩
          · exact absurd h0 hi
          · cases hp₃
  · intro key t e e' hcall he
    cases hcall
    cases he
  · intro key t e e' hcall he
    cases hcall
    cases he
    decide

/-- The failing run: a pass reads an old entry, a call refreshes it, the pass deletes it, and the
next call makes a new limiter a nanosecond after the first was used. -/
def deletedRefresh : List Event :=
  [.load 0 "k" 0, .clock 0 0, .loadOrStore 0, .range 0 "k", .since 0 20, .load 1 "k" 20, .clock 1 20,
    .store 1, .delete 0, .load 2 "k" 21, .clock 2 21, .loadOrStore 2]

theorem key_in_use_forgotten :
    ¬ ∀ (maxIdle now : ℤ) (es : List Event) (s : State),
      exec (step maxIdle) (start now) es = some s → OneLimiter maxIdle s := by
  intro hall
  have hrun : ((exec (step 10) (start 0) deletedRefresh).map fun s => (s.calls 1, s.calls 2)) =
      some (some ⟨"k", 20, .taking 0⟩, some ⟨"k", 21, .taking 1⟩) := by decide +kernel
  obtain ⟨s, hs, hcalls⟩ := Option.map_eq_some_iff.mp hrun
  have h := hall 10 0 deletedRefresh s hs 1 2 _ _ 0 1 (congrArg Prod.fst hcalls)
    (congrArg Prod.snd hcalls) rfl rfl rfl (by decide)
  cases h

end ApiGateway.CleanupRaces
