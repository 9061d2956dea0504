import ApiGateway.TokenBucket
import ApiGateway.Tables
import Mathlib.Algebra.Order.Ring.Rat
import Mathlib.Data.Rat.Cast.Order
import Mathlib.Logic.Function.Basic
import Mathlib.Tactic.Positivity

/-!
# The in-memory limiter and its cleanup

`internal/ratelimit/limiter.go`. Each key owns a `rate.Limiter`: a bucket of size `b` that
starts full, refills at `r` tokens a second and is written back only when a request is
allowed; `last` is `none` until the first one is. An operation reads the clock once; times
and durations are nanoseconds, arithmetic is exact. A timeline is a list of `Allow` calls
and cleanup passes, one at a time, at times that do not decrease.

The limiter on a timeline is compared with the limiter on the same timeline without its
cleanup passes. What an `Allow` decides by is the level of its key, so two limiters that
agree on every level from now on answer alike; a key that is not held has the level of a
full bucket, and a cleanup pass may only drop a key that has refilled to that.
-/

namespace ApiGateway.Ratelimit

open TokenBucket Tables
set_option autoImplicit false

structure Limiter where
  tokens : ℚ
  last : Option ℤ
  deriving DecidableEq

structure Entry where
  limiter : Limiter
  lastSeen : ℤ
  deriving DecidableEq

structure MemoryLimiter where
  entries : String → Option Entry
  r : ℚ
  b : ℤ
  cleanupInterval : ℤ
  cleanupMaxIdle : ℤ

def seconds (ns : ℤ) : ℚ := (ns : ℚ) / 1000000000

def newLimiter (b : ℤ) : Limiter := ⟨b, none⟩

/-- The tokens there at `now`; a clock that ran back credits nothing. -/
def Limiter.advance (r : ℚ) (b : ℤ) (l : Limiter) (now : ℤ) : ℚ :=
  match l.last with
  | none => b
  | some last => refill (b : ℚ) r l.tokens (seconds (max 0 (now - last)))

def Limiter.allow (r : ℚ) (b : ℤ) (l : Limiter) (now : ℤ) : Limiter × Bool :=
  let taken := spend (l.advance r b now)
  if taken.2 then (⟨taken.1, some now⟩, true) else (l, false)

namespace MemoryLimiter

def new (r : ℚ) (b cleanupInterval cleanupMaxIdle : ℤ) : MemoryLimiter :=
  ⟨fun _ => none, r, b, cleanupInterval, cleanupMaxIdle⟩

def limiterOf (ml : MemoryLimiter) (key : String) : Limiter :=
  match ml.entries key with
  | some e => e.limiter
  | none => newLimiter ml.b

def allow (ml : MemoryLimiter) (key : String) (now : ℤ) : MemoryLimiter × Bool :=
  let answer := (ml.limiterOf key).allow ml.r ml.b now
  ({ml with entries := Function.update ml.entries key (some ⟨answer.1, now⟩)}, answer.2)

def cleanup (ml : MemoryLimiter) (now : ℤ) : MemoryLimiter :=
  {ml with entries := fun key =>
    (ml.entries key).filter fun e => !decide (now - e.lastSeen > ml.cleanupMaxIdle)}

end MemoryLimiter

inductive Op where
  | allow (key : String) (now : ℤ)
  | cleanup (now : ℤ)
  deriving DecidableEq, Repr

def Op.time : Op → ℤ
  | .allow _ now => now
  | .cleanup now => now

def Op.isAllow : Op → Bool
  | .allow _ _ => true
  | .cleanup _ => false

def step (ml : MemoryLimiter) : Op → MemoryLimiter × List Bool
  | .allow key now => ((ml.allow key now).1, [(ml.allow key now).2])
  | .cleanup now => (ml.cleanup now, [])

def run (ml : MemoryLimiter) : List Op → MemoryLimiter × List Bool
  | [] => (ml, [])
  | op :: ops => ((run (step ml op).1 ops).1, (step ml op).2 ++ (run (step ml op).1 ops).2)

def Timeline (ops : List Op) : Prop := ops.Pairwise fun x y => x.time ≤ y.time

def withoutCleanup (ops : List Op) : List Op := ops.filter Op.isAllow

/-- No timeline shows from its answers whether cleanup ran. -/
def CleanupInvisible (ml : MemoryLimiter) : Prop :=
  ∀ ops, Timeline ops → (run ml ops).2 = (run ml (withoutCleanup ops)).2

/-- What a key has to spend at `now`. -/
def level (ml : MemoryLimiter) (key : String) (now : ℤ) : ℚ :=
  (ml.limiterOf key).advance ml.r ml.b now

/-- Entries were last seen by `now`, and no allowed request is later than the last one seen. -/
def SeenBy (now : ℤ) (ml : MemoryLimiter) : Prop :=
  ∀ key e, ml.entries key = some e → e.lastSeen ≤ now ∧
    ∀ last, e.limiter.last = some last → last ≤ e.lastSeen ∧ 0 ≤ e.limiter.tokens

/-- Two limiters of one configuration with the same levels from `now` on. -/
structure Agree (now : ℤ) (ml ml' : MemoryLimiter) : Prop where
  r_eq : ml.r = ml'.r
  b_eq : ml.b = ml'.b
  level_eq : ∀ key later, now ≤ later → level ml key later = level ml' key later

theorem seconds_nonneg {ns : ℤ} (h : 0 ≤ ns) : 0 ≤ seconds ns := by
  unfold seconds
  positivity

theorem seconds_mono {a b : ℤ} (h : a ≤ b) : seconds a ≤ seconds b := by
  unfold seconds
  have hcast : (a : ℚ) ≤ b := Int.cast_le.mpr h
  linarith

theorem run_append (ml : MemoryLimiter) (xs ys : List Op) :
    run ml (xs ++ ys) = ((run (run ml xs).1 ys).1, (run ml xs).2 ++ (run (run ml xs).1 ys).2) := by
  induction xs generalizing ml with
  | nil => simp [run]
  | cons op xs ih => simp [run, ih]

theorem allow_of_granted {r : ℚ} {b : ℤ} {l : Limiter} {now : ℤ}
    (h : (spend (l.advance r b now)).2 = true) :
    l.allow r b now = (⟨(spend (l.advance r b now)).1, some now⟩, true) := by
  simp [Limiter.allow, h]

theorem allow_of_denied {r : ℚ} {b : ℤ} {l : Limiter} {now : ℤ}
    (h : (spend (l.advance r b now)).2 = false) : l.allow r b now = (l, false) := by
  simp [Limiter.allow, h]

theorem advance_allow (r : ℚ) (b : ℤ) (l : Limiter) (now later : ℤ) :
    (l.allow r b now).1.advance r b later =
      if (spend (l.advance r b now)).2 then
        refill (b : ℚ) r (spend (l.advance r b now)).1 (seconds (max 0 (later - now)))
      else l.advance r b later := by
  cases h : (spend (l.advance r b now)).2 with
  | true => rw [allow_of_granted h]; rfl
  | false => rw [allow_of_denied h]; rfl

theorem allow_answer (ml : MemoryLimiter) (key : String) (now : ℤ) :
    (ml.allow key now).2 = (spend (level ml key now)).2 := by
  change ((ml.limiterOf key).allow ml.r ml.b now).2 = _
  cases h : (spend (level ml key now)).2 with
  | true => rw [allow_of_granted h]
  | false => rw [allow_of_denied h]

theorem limiterOf_held {ml : MemoryLimiter} {key : String} {e : Entry}
    (h : ml.entries key = some e) : ml.limiterOf key = e.limiter := by
  simp [MemoryLimiter.limiterOf, h]

theorem limiterOf_absent {ml : MemoryLimiter} {key : String}
    (h : ml.entries key = none) : ml.limiterOf key = newLimiter ml.b := by
  simp [MemoryLimiter.limiterOf, h]

theorem level_absent {ml : MemoryLimiter} {key : String} (h : ml.entries key = none) (now : ℤ) :
    level ml key now = ml.b := by
  rw [level, limiterOf_absent h]
  rfl

theorem limiterOf_allow (ml : MemoryLimiter) (key k : String) (now : ℤ) :
    (ml.allow key now).1.limiterOf k =
      if k = key then ((ml.limiterOf key).allow ml.r ml.b now).1 else ml.limiterOf k := by
  by_cases h : k = key
  · subst h
    simp [MemoryLimiter.allow, MemoryLimiter.limiterOf]
  · simp [MemoryLimiter.allow, MemoryLimiter.limiterOf, h]

theorem level_allow (ml : MemoryLimiter) (key k : String) (now later : ℤ) :
    level (ml.allow key now).1 k later =
      if k = key ∧ (spend (level ml key now)).2 then
        refill (ml.b : ℚ) ml.r (spend (level ml key now)).1 (seconds (max 0 (later - now)))
      else level ml k later := by
  unfold level
  rw [limiterOf_allow]
  change Limiter.advance ml.r ml.b _ later = _
  by_cases h : k = key
  · subst h
    simp [advance_allow]
  · simp [h]

theorem agree_allow {now : ℤ} {ml ml' : MemoryLimiter} (h : Agree now ml ml') (key : String)
    {t : ℤ} (ht : now ≤ t) : Agree t (ml.allow key t).1 (ml'.allow key t).1 := by
  refine ⟨h.r_eq, h.b_eq, ?_⟩
  intro k later hlater
  rw [level_allow, level_allow, h.level_eq key t ht, h.level_eq k later (le_trans ht hlater),
    h.r_eq, h.b_eq]

theorem limiterOf_of_seenBy {now : ℤ} {ml : MemoryLimiter} (h : SeenBy now ml) {key : String}
    {last : ℤ} (hlast : (ml.limiterOf key).last = some last) :
    last ≤ now ∧ 0 ≤ (ml.limiterOf key).tokens := by
  cases he : ml.entries key with
  | none => simp [limiterOf_absent he, newLimiter] at hlast
  | some e =>
    rw [limiterOf_held he] at hlast ⊢
    obtain ⟨hseen, hentry⟩ := h key e he
    obtain ⟨hle, htokens⟩ := hentry last hlast
    exact ⟨le_trans hle hseen, htokens⟩

theorem level_nonneg {now : ℤ} {ml : MemoryLimiter} (hr : 0 < ml.r) (hb : 0 < ml.b)
    (h : SeenBy now ml) (key : String) (t : ℤ) : 0 ≤ level ml key t := by
  have hb' : (0 : ℚ) ≤ ml.b := Int.cast_nonneg hb.le
  unfold level Limiter.advance
  cases hlast : (ml.limiterOf key).last with
  | none => exact hb'
  | some last =>
    exact refill_nonneg hb' hr.le (limiterOf_of_seenBy h hlast).2
      (seconds_nonneg (le_max_left _ _))

theorem level_le_burst (ml : MemoryLimiter) (key : String) (t : ℤ) : level ml key t ≤ ml.b := by
  unfold level Limiter.advance
  cases (ml.limiterOf key).last with
  | none => exact le_refl _
  | some last => exact refill_le_burst _ _ _ _

theorem seenBy_allow {now : ℤ} {ml : MemoryLimiter} (hr : 0 < ml.r) (hb : 0 < ml.b)
    (h : SeenBy now ml) (key : String) {t : ℤ} (ht : now ≤ t) :
    SeenBy t (ml.allow key t).1 := by
  intro k e he
  rcases update_cases he with ⟨rfl, rfl⟩ | ⟨_, hold⟩
  · refine ⟨le_refl t, ?_⟩
    intro last hlast
    cases hgrant : (spend (level ml k t)).2 with
    | true =>
      rw [allow_of_granted hgrant] at hlast ⊢
      cases hlast
      exact ⟨le_refl t, spend_nonneg (level_nonneg hr hb h k t)⟩
    | false =>
      rw [allow_of_denied hgrant] at hlast ⊢
      obtain ⟨hle, htokens⟩ := limiterOf_of_seenBy h hlast
      exact ⟨le_trans hle ht, htokens⟩
  · obtain ⟨hseen, hentry⟩ := h k e hold
    exact ⟨le_trans hseen ht, hentry⟩

theorem seenBy_cleanup {now : ℤ} {ml : MemoryLimiter} (h : SeenBy now ml) {t : ℤ} (ht : now ≤ t) :
    SeenBy t (ml.cleanup t) := by
  intro k e he
  obtain ⟨he, -⟩ := Option.filter_eq_some_iff.mp he
  obtain ⟨hseen, hentry⟩ := h k e he
  exact ⟨le_trans hseen ht, hentry⟩

/-- The idle time after which a key is dropped is enough to fill an empty bucket. -/
def RefillsWhileIdle (r : ℚ) (b cleanupMaxIdle : ℤ) : Prop :=
  (b : ℚ) * 1000000000 ≤ r * (cleanupMaxIdle + 1)

instance (r : ℚ) (b cleanupMaxIdle : ℤ) : Decidable (RefillsWhileIdle r b cleanupMaxIdle) :=
  inferInstanceAs (Decidable ((b : ℚ) * 1000000000 ≤ r * (cleanupMaxIdle + 1)))

theorem refillsWhileIdle_iff (r : ℚ) (b cleanupMaxIdle : ℤ) :
    RefillsWhileIdle r b cleanupMaxIdle ↔ (b : ℚ) ≤ seconds (cleanupMaxIdle + 1) * r := by
  unfold RefillsWhileIdle seconds
  push_cast
  constructor
  · intro h
    linarith
  · intro h
    linarith

theorem advance_full {r : ℚ} {b cleanupMaxIdle : ℤ} (hr : 0 < r)
    (hrefill : RefillsWhileIdle r b cleanupMaxIdle) {l : Limiter} {now : ℤ}
    (h : ∀ last, l.last = some last → cleanupMaxIdle < now - last ∧ 0 ≤ l.tokens) :
    l.advance r b now = b := by
  unfold Limiter.advance
  cases hlast : l.last with
  | none => rfl
  | some last =>
    obtain ⟨hidle, htokens⟩ := h last hlast
    have hwait : seconds (cleanupMaxIdle + 1) ≤ seconds (max 0 (now - last)) :=
      seconds_mono (le_max_of_le_right hidle)
    have hgain := mul_le_mul_of_nonneg_right hwait hr.le
    have hfill := (refillsWhileIdle_iff r b cleanupMaxIdle).mp hrefill
    apply refill_eq_burst
    linarith

theorem entries_cleanup_of_idle {ml : MemoryLimiter} {key : String} {e : Entry} {t : ℤ}
    (he : ml.entries key = some e) (h : t - e.lastSeen > ml.cleanupMaxIdle) :
    (ml.cleanup t).entries key = none := by
  simp only [MemoryLimiter.cleanup, he, Option.filter_some, h, decide_true, Bool.not_true,
    Bool.false_eq_true, if_false]

theorem entries_cleanup_of_recent {ml : MemoryLimiter} {key : String} {e : Entry} {t : ℤ}
    (he : ml.entries key = some e) (h : ¬ t - e.lastSeen > ml.cleanupMaxIdle) :
    (ml.cleanup t).entries key = some e := by
  simpa [MemoryLimiter.cleanup, he] using h

theorem level_cleanup {now : ℤ} {ml : MemoryLimiter} (hr : 0 < ml.r)
    (hrefill : RefillsWhileIdle ml.r ml.b ml.cleanupMaxIdle) (h : SeenBy now ml)
    {t later : ℤ} (hlater : t ≤ later) (key : String) :
    level (ml.cleanup t) key later = level ml key later := by
  cases he : ml.entries key with
  | none =>
    have hgone : (ml.cleanup t).entries key = none := by simp [MemoryLimiter.cleanup, he]
    rw [level_absent he, level_absent hgone]
    rfl
  | some e =>
    by_cases hidle : t - e.lastSeen > ml.cleanupMaxIdle
    · rw [level_absent (entries_cleanup_of_idle he hidle), level, limiterOf_held he]
      refine (advance_full hr hrefill ?_).symm
      intro last hlast
      obtain ⟨hle, htokens⟩ := (h key e he).2 last hlast
      exact ⟨by omega, htokens⟩
    · rw [level, level, limiterOf_held he, limiterOf_held (entries_cleanup_of_recent he hidle)]
      rfl

theorem Agree.answer_eq {now : ℤ} {ml ml' : MemoryLimiter} (h : Agree now ml ml') (key : String)
    {t : ℤ} (ht : now ≤ t) : (ml.allow key t).2 = (ml'.allow key t).2 := by
  rw [allow_answer, allow_answer, h.level_eq key t ht]

/-- The simulation: the limiter that is cleaned up, against one that agrees with it and is
not. -/
theorem run_withoutCleanup {ops : List Op} :
    ∀ {now : ℤ} {ml ml' : MemoryLimiter}, 0 < ml.r → 0 < ml.b →
      RefillsWhileIdle ml.r ml.b ml.cleanupMaxIdle → SeenBy now ml → Agree now ml ml' →
      (∀ op ∈ ops, now ≤ op.time) → Timeline ops →
      (run ml ops).2 = (run ml' (withoutCleanup ops)).2 := by
  induction ops with
  | nil =>
    intros
    rfl
  | cons op ops ih =>
    intro now ml ml' hr hb hrefill hseen hagree hnow hline
    obtain ⟨hafter, htail⟩ := List.pairwise_cons.mp hline
    cases op with
    | allow key t =>
      have ht : now ≤ t := hnow _ List.mem_cons_self
      have hrest : (run (ml.allow key t).1 ops).2 =
          (run (ml'.allow key t).1 (withoutCleanup ops)).2 :=
        ih hr hb hrefill (seenBy_allow hr hb hseen key ht) (agree_allow hagree key ht) hafter htail
      change (ml.allow key t).2 :: (run (ml.allow key t).1 ops).2 =
        (ml'.allow key t).2 :: (run (ml'.allow key t).1 (withoutCleanup ops)).2
      rw [hagree.answer_eq key ht, hrest]
    | cleanup t =>
      have ht : now ≤ t := hnow _ List.mem_cons_self
      have hlevels : Agree t (ml.cleanup t) ml' := by
        refine ⟨hagree.r_eq, hagree.b_eq, ?_⟩
        intro key later hlater
        rw [level_cleanup hr hrefill hseen hlater, hagree.level_eq key later (le_trans ht hlater)]
      change (run (ml.cleanup t) ops).2 = _
      exact ih hr hb hrefill (seenBy_cleanup hseen ht) hlevels hafter htail

theorem entries_run_replicate (ml : MemoryLimiter) (key : String) (now : ℤ) (n : ℕ) :
    ∃ e, (run ml (List.replicate (n + 1) (.allow key now))).1.entries key = some e ∧
      e.lastSeen = now := by
  induction n generalizing ml with
  | zero => exact ⟨_, Function.update_self .., rfl⟩
  | succ n ih => exact ih _

theorem level_allow_self (ml : MemoryLimiter) (key : String) (now : ℤ) :
    level (ml.allow key now).1 key now = (spend (level ml key now)).1 := by
  have hle : (spend (level ml key now)).1 ≤ ml.b :=
    le_trans (spend_le _) (level_le_burst ml key now)
  rw [level_allow]
  cases hgrant : (spend (level ml key now)).2 with
  | true =>
    have hzero : seconds (max 0 (now - now)) = 0 := by simp [seconds]
    rw [if_pos ⟨rfl, rfl⟩, hzero, refill_zero ml.r hle]
  | false => simp [spend_of_denied hgrant]

theorem run_replicate (ml : MemoryLimiter) (key : String) (now : ℤ) (n : ℕ) :
    (run ml (List.replicate n (.allow key now))).2 = (drain n (level ml key now)).2 ∧
      level (run ml (List.replicate n (.allow key now))).1 key now =
        (drain n (level ml key now)).1 := by
  induction n generalizing ml with
  | zero => exact ⟨rfl, rfl⟩
  | succ n ih =>
    obtain ⟨hanswers, hlevel⟩ := ih (ml.allow key now).1
    rw [level_allow_self] at hanswers hlevel
    constructor
    · change (ml.allow key now).2 :: (run (ml.allow key now).1 _).2 = _
      rw [allow_answer, hanswers]
      rfl
    · exact hlevel

theorem level_later {now : ℤ} {ml : MemoryLimiter} (hr : 0 < ml.r) (h : SeenBy now ml)
    (key : String) {later : ℤ} (hlater : now ≤ later) :
    level ml key later = refill (ml.b : ℚ) ml.r (level ml key now) (seconds (later - now)) := by
  have hwait : 0 ≤ seconds (later - now) := seconds_nonneg (by omega)
  unfold level Limiter.advance
  cases hlast : (ml.limiterOf key).last with
  | none =>
    have hgain := mul_nonneg hwait hr.le
    exact (refill_eq_burst (by linarith)).symm
  | some last =>
    have hle := (limiterOf_of_seenBy h hlast).1
    have hsum : seconds (max 0 (later - last)) =
        seconds (max 0 (now - last)) + seconds (later - now) := by
      rw [max_eq_right (by omega), max_eq_right (by omega)]
      unfold seconds
      push_cast
      ring
    change refill _ _ _ _ = refill _ _ (refill _ _ _ _) _
    rw [hsum, refill_refill _ hr.le hwait]

theorem seenBy_run_replicate {now : ℤ} {ml : MemoryLimiter} (hr : 0 < ml.r) (hb : 0 < ml.b)
    (h : SeenBy now ml) (key : String) (n : ℕ) :
    SeenBy now (run ml (List.replicate n (.allow key now))).1 := by
  induction n generalizing ml with
  | zero => exact h
  | succ n ih => exact ih hr hb (seenBy_allow hr hb h key (le_refl now))

theorem config_run_replicate (ml : MemoryLimiter) (key : String) (now : ℤ) (n : ℕ) :
    (run ml (List.replicate n (.allow key now))).1.r = ml.r ∧
      (run ml (List.replicate n (.allow key now))).1.b = ml.b ∧
      (run ml (List.replicate n (.allow key now))).1.cleanupMaxIdle = ml.cleanupMaxIdle := by
  induction n generalizing ml with
  | zero => exact ⟨rfl, rfl, rfl⟩
  | succ n ih => exact ih _

/-- A full burst, an idle time just over the threshold, a cleanup pass and another burst. -/
def bursts (n : ℕ) (cleanupMaxIdle : ℤ) : List Op :=
  List.replicate n (.allow "" 0) ++ .cleanup (cleanupMaxIdle + 1) ::
    List.replicate n (.allow "" (cleanupMaxIdle + 1))

theorem bursts_timeline (n : ℕ) {cleanupMaxIdle : ℤ} (h : 0 < cleanupMaxIdle) :
    Timeline (bursts n cleanupMaxIdle) := by
  unfold Timeline bursts
  rw [List.pairwise_append, List.pairwise_cons]
  simp only [List.pairwise_replicate, List.mem_replicate, List.mem_cons, and_imp]
  refine ⟨.inr (le_refl _), ⟨?_, .inr (le_refl _)⟩, ?_⟩
  · intro op _ hop
    exact hop ▸ le_refl _
  · intro x _ hx y hy
    rcases hy with rfl | ⟨_, rfl⟩
    · exact hx ▸ (by simp only [Op.time]; omega)
    · exact hx ▸ (by simp only [Op.time]; omega)

theorem withoutCleanup_bursts (n : ℕ) (cleanupMaxIdle : ℤ) :
    withoutCleanup (bursts n cleanupMaxIdle) = List.replicate n (.allow "" 0) ++
      List.replicate n (.allow "" (cleanupMaxIdle + 1)) := by
  have hallow (now : ℤ) : (List.replicate n (Op.allow "" now)).filter Op.isAllow =
      List.replicate n (Op.allow "" now) := List.filter_replicate_of_pos rfl
  have hcleanup : Op.isAllow (.cleanup (cleanupMaxIdle + 1)) = false := rfl
  simp [withoutCleanup, bursts, hallow, hcleanup]

theorem seenBy_new (now : ℤ) (r : ℚ) (b cleanupInterval cleanupMaxIdle : ℤ) :
    SeenBy now (.new r b cleanupInterval cleanupMaxIdle) := by
  intro key e he
  cases he

section Bursts
variable {r : ℚ} {n : ℕ} {cleanupInterval cleanupMaxIdle : ℤ}

def drained (r : ℚ) (n : ℕ) (cleanupInterval cleanupMaxIdle : ℤ) : MemoryLimiter :=
  (run (.new r n cleanupInterval cleanupMaxIdle) (List.replicate n (.allow "" 0))).1

theorem level_drained : level (drained r n cleanupInterval cleanupMaxIdle) "" 0 = 0 := by
  rw [drained, (run_replicate _ "" 0 n).2, level_absent rfl]
  change (drain n (((n : ℕ) : ℤ) : ℚ)).1 = 0
  rw [Int.cast_natCast, drain_natCast (le_refl _)]

/-- A cleanup pass hands the second burst a full bucket. -/
theorem second_burst_of_cleanup (hn : 0 < n) :
    (run ((drained r n cleanupInterval cleanupMaxIdle).cleanup (cleanupMaxIdle + 1))
      (List.replicate n (.allow "" (cleanupMaxIdle + 1)))).2 = List.replicate n true := by
  obtain ⟨m, rfl⟩ : ∃ m, n = m + 1 := ⟨n - 1, by omega⟩
  obtain ⟨-, hb, hidle⟩ := config_run_replicate
    (.new r (m + 1 : ℕ) cleanupInterval cleanupMaxIdle) "" 0 (m + 1)
  obtain ⟨e, he, hseen⟩ := entries_run_replicate
    (.new r (m + 1 : ℕ) cleanupInterval cleanupMaxIdle) "" 0 m
  have hover : cleanupMaxIdle + 1 - e.lastSeen >
      (drained r (m + 1) cleanupInterval cleanupMaxIdle).cleanupMaxIdle := by
    rw [drained, hidle, hseen]
    change cleanupMaxIdle + 1 - 0 > cleanupMaxIdle
    omega
  have hgone : ((drained r (m + 1) cleanupInterval cleanupMaxIdle).cleanup
      (cleanupMaxIdle + 1)).entries "" = none := entries_cleanup_of_idle he hover
  rw [(run_replicate _ "" (cleanupMaxIdle + 1) (m + 1)).1, level_absent hgone]
  change (drain (m + 1) ((drained r (m + 1) cleanupInterval cleanupMaxIdle).b : ℚ)).2 = _
  rw [drained, hb]
  change (drain (m + 1) (((m + 1 : ℕ) : ℤ) : ℚ)).2 = _
  rw [Int.cast_natCast, drain_of_le (le_refl _)]

/-- Without one, the second burst has only what the idle time refilled. -/
theorem refillsWhileIdle_of_second_burst (hr : 0 < r) (hn : 0 < n) (hidle : 0 < cleanupMaxIdle)
    (h : (run (drained r n cleanupInterval cleanupMaxIdle)
      (List.replicate n (.allow "" (cleanupMaxIdle + 1)))).2 = List.replicate n true) :
    RefillsWhileIdle r n cleanupMaxIdle := by
  have hb : (0 : ℤ) < n := by omega
  obtain ⟨hr', hb', -⟩ := config_run_replicate (.new r n cleanupInterval cleanupMaxIdle) "" 0 n
  have hseen : SeenBy 0 (drained r n cleanupInterval cleanupMaxIdle) :=
    seenBy_run_replicate hr hb (seenBy_new _ _ _ _ _) "" n
  rw [(run_replicate _ "" (cleanupMaxIdle + 1) n).1] at h
  have hlevel := le_of_drain
    (level_nonneg (hr'.symm ▸ hr) (hb'.symm ▸ hb) hseen "" (cleanupMaxIdle + 1)) h
  rw [level_later (hr'.symm ▸ hr) hseen "" (by omega), level_drained, sub_zero] at hlevel
  have hgain := le_trans hlevel (refill_le_add _ _ _ _)
  rw [zero_add, drained, hr'] at hgain
  rw [refillsWhileIdle_iff]
  exact_mod_cast hgain

end Bursts

theorem cleanupInvisible_iff {r : ℚ} {b cleanupMaxIdle : ℤ} (cleanupInterval : ℤ) (hr : 0 < r)
    (hb : 0 < b) (hidle : 0 < cleanupMaxIdle) :
    CleanupInvisible (.new r b cleanupInterval cleanupMaxIdle) ↔
      RefillsWhileIdle r b cleanupMaxIdle := by
  constructor
  · intro h
    obtain ⟨n, rfl⟩ := Int.eq_ofNat_of_zero_le hb.le
    have hn : 0 < n := by omega
    have hsame := h _ (bursts_timeline n hidle)
    rw [withoutCleanup_bursts, bursts, run_append, run_append] at hsame
    have hsecond := List.append_cancel_left hsame
    exact refillsWhileIdle_of_second_burst hr hn hidle
      (hsecond.symm.trans (second_burst_of_cleanup hn))
  · intro hrefill ops hline
    cases ops with
    | nil => rfl
    | cons op ops =>
      refine run_withoutCleanup hr hb hrefill (seenBy_new op.time _ _ _ _)
        ⟨rfl, rfl, fun _ _ _ => rfl⟩ ?_ hline
      intro x hx
      rcases List.mem_cons.mp hx with rfl | hx
      · exact le_refl _
      · exact (List.pairwise_cons.mp hline).1 x hx

end ApiGateway.Ratelimit
