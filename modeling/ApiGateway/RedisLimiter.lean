import ApiGateway.TokenBucket
import ApiGateway.Walks
import Mathlib.Data.Rat.Floor

/-!
# The Redis limiter

`internal/ratelimit/redis.go`. Redis runs a script alone from beginning to end, so the
gateway processes that share a key appear as one list of stamps, in the order their
script runs reach Redis; each stamp is the `now_ms` a process read before it sent the
call. Arithmetic is exact.

The script credits `max(0, now_ms - ts)` and then overwrites `ts` with `now_ms`, also when
`now_ms` is the older of the two. What a run is credited in all is therefore the rise of the
stamps as they arrive, not their span.
-/

namespace ApiGateway.RedisLimiter

open TokenBucket Walks
set_option autoImplicit false

structure Bucket where
  tokens : ℚ
  ts : ℤ
  deriving DecidableEq

structure ScriptRun where
  allowed : Bool
  bucket : Bucket
  pexpire : ℤ

def elapsed (last now_ms : ℤ) : ℚ := (max 0 (now_ms - last) : ℤ) / 1000

/-- `limiterLuaScript`; `hash` is what `HMGET` found. -/
def limiterLuaScript (rate : ℚ) (burst : ℕ) (hash : Option Bucket) (now_ms : ℤ) : ScriptRun :=
  let tokens := (hash.map Bucket.tokens).getD burst
  let last := (hash.map Bucket.ts).getD now_ms
  let taken := spend (refill (burst : ℚ) rate tokens (elapsed last now_ms))
  ⟨taken.2, ⟨taken.1, now_ms⟩, ⌈burst / rate * 1000⌉ + 1000⟩

/-- The answers to the runs stamped `stamps`, the key never expiring between them. -/
def answers (rate : ℚ) (burst : ℕ) : Option Bucket → List ℤ → List Bool
  | _, [] => []
  | hash, now_ms :: stamps =>
    let run := limiterLuaScript rate burst hash now_ms
    run.allowed :: answers rate burst (some run.bucket) stamps

def allowedCount (rate : ℚ) (burst : ℕ) (stamps : List ℤ) : ℕ :=
  (answers rate burst none stamps).count true

theorem elapsed_nonneg (last now_ms : ℤ) : 0 ≤ elapsed last now_ms := by
  unfold elapsed
  positivity

theorem elapsed_self (now_ms : ℤ) : elapsed now_ms now_ms = 0 := by simp [elapsed]

theorem count_cons_cast (b : Bool) (bs : List Bool) :
    (((b :: bs).count true : ℕ) : ℚ) = (if b = true then 1 else 0) + (bs.count true : ℕ) := by
  cases b
  · simp
  · simp [add_comm]

section Bound
variable {rate : ℚ} (burst : ℕ) (hr : 0 < rate)
include hr

/-- From any stored level, the tokens granted are paid for by that level and by the rise
of the stamps. -/
theorem count_le_rise (b : Bucket) (hb : 0 ≤ b.tokens) (stamps : List ℤ) :
    ((answers rate burst (some b) stamps).count true : ℚ) ≤
      b.tokens + riseFrom b.ts stamps / 1000 * rate := by
  induction stamps generalizing b with
  | nil => simpa [answers, riseFrom] using hb
  | cons t stamps ih =>
    have hlevel := refill_nonneg (Nat.cast_nonneg burst) hr.le hb (elapsed_nonneg b.ts t)
    have hgain := refill_le_add (burst : ℚ) rate b.tokens (elapsed b.ts t)
    have hbal := spend_balance (refill (burst : ℚ) rate b.tokens (elapsed b.ts t))
    have hrest := ih ⟨_, t⟩ (spend_nonneg hlevel)
    simp only at hrest
    simp only [answers, limiterLuaScript, Option.map_some, Option.getD_some, count_cons_cast,
      riseFrom, Int.cast_add, add_div, add_mul]
    unfold elapsed at *
    linarith

/-- The first run of a key starts from a full bucket and credits nothing. -/
theorem allowedCount_le_rise (stamps : List ℤ) :
    (allowedCount rate burst stamps : ℚ) ≤ burst + rise stamps / 1000 * rate := by
  cases stamps with
  | nil => simp [allowedCount, answers, rise]
  | cons t stamps =>
    have hfull : (0 : ℚ) ≤ (⟨burst, t⟩ : Bucket).tokens := Nat.cast_nonneg burst
    have h := count_le_rise burst hr ⟨burst, t⟩ hfull (t :: stamps)
    simpa [allowedCount, answers, limiterLuaScript, riseFrom, rise] using h

end Bound

/-- A run may be taken as two: one that only credits, and one at the same instant that
only spends. -/
theorem answers_credited (rate : ℚ) (burst : ℕ) (b : Bucket) (t : ℤ) (stamps : List ℤ) :
    answers rate burst (some b) (t :: stamps) =
      answers rate burst (some ⟨refill (burst : ℚ) rate b.tokens (elapsed b.ts t), t⟩)
        (t :: stamps) := by
  have hcap := refill_le_burst (burst : ℚ) rate b.tokens (elapsed b.ts t)
  simp only [answers, limiterLuaScript, Option.map_some, Option.getD_some, elapsed_self,
    refill_zero rate hcap]

theorem answers_replicate (rate : ℚ) {burst : ℕ} {x : ℚ} (hx : x ≤ burst) (t : ℤ) (k : ℕ)
    (stamps : List ℤ) :
    answers rate burst (some ⟨x, t⟩) (List.replicate k t ++ stamps) =
      (drain k x).2 ++ answers rate burst (some ⟨(drain k x).1, t⟩) stamps := by
  induction k generalizing x with
  | zero => rfl
  | succ k ih =>
    have hspend : (spend x).1 ≤ burst := (spend_le x).trans hx
    simp only [List.replicate_succ, List.cons_append, answers, limiterLuaScript, Option.map_some,
      Option.getD_some, elapsed_self, refill_zero rate hx, drain, ih hspend]

theorem stutter_cons {k : ℕ} (t : ℤ) (stamps : List ℤ) :
    stutter k (t :: stamps) = List.replicate k t ++ stutter k stamps := rfl

section Sawtooth
variable {burst : ℕ}

/-- At one token a millisecond, with a bucket no move can overfill and enough runs at each
stamp to empty it, every move forward is paid out in full. -/
theorem count_eq_rise (t : ℤ) (stamps : List ℤ)
    (hmoves : ∀ a ∈ t :: stamps, ∀ b ∈ t :: stamps, b - a ≤ burst) :
    ((answers 1000 burst (some ⟨0, t⟩) (stutter (burst + 1) stamps)).count true : ℤ) =
      riseFrom t stamps := by
  induction stamps generalizing t with
  | nil => rfl
  | cons y stamps ih =>
    have hmove : y - t ≤ burst := hmoves t (by simp) y (by simp)
    obtain ⟨m, hm⟩ : ∃ m : ℕ, max 0 (y - t) = m := Int.eq_ofNat_of_zero_le (le_max_left _ _)
    have hmb : m ≤ burst := by omega
    have hlevel : refill (burst : ℚ) 1000 0 (elapsed t y) = m := by
      have hcap : (m : ℚ) ≤ burst := by exact_mod_cast hmb
      unfold elapsed
      rw [hm, refill_eq_add]
      · push_cast
        ring
      · push_cast
        linarith
    have hcap : (m : ℚ) ≤ burst := by exact_mod_cast hmb
    have hblock : answers 1000 burst (some ⟨0, t⟩) (stutter (burst + 1) (y :: stamps)) =
        (drain (burst + 1) (m : ℚ)).2 ++
          answers 1000 burst (some ⟨(drain (burst + 1) (m : ℚ)).1, y⟩) (stutter (burst + 1) stamps) := by
      rw [stutter_cons, List.replicate_succ, List.cons_append, answers_credited, hlevel,
        ← List.cons_append, ← List.replicate_succ, answers_replicate 1000 hcap]
    have hrest := ih y (fun a ha b hb => hmoves a (List.mem_cons_of_mem t ha) b
      (List.mem_cons_of_mem t hb))
    rw [hblock, drain_natCast (by omega : m ≤ burst + 1)]
    simp only [List.count_append, List.count_replicate]
    push_cast
    rw [hrest, riseFrom, hm]
    simp

theorem allowedCount_eq_rise (stamps : List ℤ) (hne : stamps ≠ [])
    (hmoves : ∀ a ∈ stamps, ∀ b ∈ stamps, b - a ≤ burst) :
    (allowedCount 1000 burst (stutter (burst + 1) stamps) : ℤ) = burst + rise stamps := by
  cases stamps with
  | nil => exact absurd rfl hne
  | cons t stamps =>
    have hfirst : answers 1000 burst none (stutter (burst + 1) (t :: stamps)) =
        answers 1000 burst (some ⟨burst, t⟩) (stutter (burst + 1) (t :: stamps)) := by
      rw [stutter_cons, List.replicate_succ, List.cons_append]
      simp [answers, limiterLuaScript]
    have hrest := count_eq_rise t stamps hmoves
    rw [allowedCount, hfirst, stutter_cons, answers_replicate 1000 le_rfl,
      drain_natCast (by omega : burst ≤ burst + 1)]
    simp only [List.count_append, List.count_replicate]
    push_cast
    rw [hrest, rise]
    simp

end Sawtooth

/-- For an arrival order of stamps, whatever the rate and the burst and however many script
runs carry each stamp, the number of allowed requests is at most `burst` plus what the
rate yields over the span of the stamps, exactly if the stamps do not rise by more than
their span. -/
theorem allowedCount_bounded_iff (stamps : List ℤ) :
    (∀ (rate : ℚ) (burst k : ℕ), 0 < rate → 1 ≤ burst → 1 ≤ k →
      (allowedCount rate burst (stutter k stamps) : ℚ) ≤
        burst + rate * ((span (stutter k stamps) : ℤ) : ℚ) / 1000) ↔ rise stamps ≤ span stamps := by
  constructor
  · intro hall
    by_contra hlt
    have hne : stamps ≠ [] := by
      rintro rfl
      exact hlt le_rfl
    obtain ⟨t, ts, rfl⟩ := List.exists_cons_of_ne_nil hne
    obtain ⟨w, hw⟩ : ∃ w : ℕ, span (t :: ts) = w := Int.eq_ofNat_of_zero_le (span_nonneg _)
    have hmoves : ∀ a ∈ t :: ts, ∀ b ∈ t :: ts, b - a ≤ (w + 1 : ℕ) := by
      intro a ha b hb
      have hab := move_le_span ha hb
      push_cast
      omega
    have hcount := allowedCount_eq_rise (t :: ts) hne hmoves
    have hbound := hall 1000 (w + 1) (w + 1 + 1) (by norm_num) (by omega) (by omega)
    rw [span_stutter (by omega), hw] at hbound
    have hwhole : (allowedCount 1000 (w + 1) (stutter (w + 1 + 1) (t :: ts)) : ℤ) ≤ w + 1 + w := by
      have hcancel : (1000 : ℚ) * ((w : ℤ) : ℚ) / 1000 = w := by
        push_cast
        ring
      rw [hcancel] at hbound
      exact_mod_cast hbound
    rw [hw] at hlt
    push_cast at hcount
    omega
  · intro hle rate burst k hr _ hk
    have hbound := allowedCount_le_rise burst hr (stutter k stamps)
    rw [rise_stutter hk] at hbound
    rw [span_stutter hk]
    have hcast : ((rise stamps : ℤ) : ℚ) ≤ ((span stamps : ℤ) : ℚ) := by exact_mod_cast hle
    have hmul : ((rise stamps : ℤ) : ℚ) / 1000 * rate ≤ rate * ((span stamps : ℤ) : ℚ) / 1000 := by
      rw [div_mul_eq_mul_div, mul_comm]
      apply div_le_div_of_nonneg_right _ (by norm_num)
      exact mul_le_mul_of_nonneg_left hcast hr.le
    linarith

/-- Two processes whose clocks are a second apart, sending in turn: every second of the gap
is credited again on each return. -/
theorem allowedCount_unbounded :
    ¬ ∀ (rate : ℚ) (burst : ℕ) (stamps : List ℤ), 0 < rate → 1 ≤ burst →
      (allowedCount rate burst stamps : ℚ) ≤ burst + rate * ((span stamps : ℤ) : ℚ) / 1000 := by
  intro hall
  have hbound := hall 1 1 [0, 1000, 0, 1000] (by norm_num) (by norm_num)
  have hcount : allowedCount 1 1 [0, 1000, 0, 1000] = 3 := by decide +kernel
  have hspan : span [(0 : ℤ), 1000, 0, 1000] = 1000 := by decide
  rw [hcount, hspan] at hbound
  norm_num at hbound

end ApiGateway.RedisLimiter
