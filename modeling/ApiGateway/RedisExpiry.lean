import ApiGateway.RedisLimiter

/-!
# Expiry of the Redis limiter's keys

The script of `redis.go` writes tokens and stamp back on every run, also when it rejects, and
sets the key to expire. Here the stamps are in order and Redis may drop the key at any run
from its deadline on, or not. The bucket it is compared with never expires and is written to
by allowed requests only.
-/

namespace ApiGateway.RedisLimiter

open TokenBucket
set_option autoImplicit false

/-- What Redis stores under a key, and from when on it may be gone. -/
structure Key where
  bucket : Bucket
  deadline : ℤ

/-- A run of the script, and whether Redis drops the key before it if it may. -/
structure Run where
  now_ms : ℤ
  gone : Bool
  deriving DecidableEq

/-- What a run answers and leaves, at a rate and a burst, for a key as Redis has it. -/
abbrev Script := ℚ → ℕ → Option Key → Run → Bool × Key

def found (key : Option Key) (run : Run) : Option Bucket :=
  key.bind fun k => if run.gone = true ∧ k.deadline ≤ run.now_ms then none else some k.bucket

def runScript (rate : ℚ) (burst : ℕ) (key : Option Key) (run : Run) : Bool × Key :=
  let result := limiterLuaScript rate burst (found key run) run.now_ms
  (result.allowed, ⟨result.bucket, run.now_ms + result.pexpire⟩)

/-- The answer of each run and the key it leaves. -/
def timeline (rate : ℚ) (burst : ℕ) : Option Key → List Run → List (Bool × Key)
  | _, [] => []
  | key, run :: runs =>
    runScript rate burst key run :: timeline rate burst (some (runScript rate burst key run).2) runs

structure Ideal where
  tokens : ℚ
  last : ℤ

def available (rate : ℚ) (burst : ℕ) (b : Ideal) (t : ℤ) : ℚ :=
  min (burst : ℚ) (b.tokens + (t - b.last : ℤ) * rate / 1000)

def request (rate : ℚ) (burst : ℕ) (b : Ideal) (t : ℤ) : Bool × Ideal :=
  if 1 ≤ available rate burst b t then (true, ⟨available rate burst b t - 1, t⟩) else (false, b)

def idealAnswers (rate : ℚ) (burst : ℕ) : Ideal → List ℤ → List Bool
  | _, [] => []
  | b, t :: stamps =>
    (request rate burst b t).1 :: idealAnswers rate burst (request rate burst b t).2 stamps

theorem elapsed_of_le {a b : ℤ} (h : a ≤ b) : elapsed a b = ((b - a : ℤ) : ℚ) / 1000 := by
  rw [elapsed, max_eq_right (sub_nonneg.mpr h)]

theorem elapsed_add {a b c : ℤ} (hab : a ≤ b) (hbc : b ≤ c) : elapsed a b + elapsed b c = elapsed a c := by
  rw [elapsed_of_le hab, elapsed_of_le hbc, elapsed_of_le (hab.trans hbc)]
  push_cast
  ring

section Ideal
variable (rate : ℚ) (burst : ℕ) {b : Ideal}

theorem available_eq_refill {t : ℤ} (h : b.last ≤ t) :
    available rate burst b t = refill (burst : ℚ) rate b.tokens (elapsed b.last t) := by
  rw [available, refill, elapsed_of_le h, div_mul_eq_mul_div]

theorem available_le_burst (b : Ideal) (t : ℤ) : available rate burst b t ≤ burst := min_le_left _ _

/-- What is available later is the refill of what is available now. -/
theorem refill_available {rate : ℚ} (hr : 0 < rate) {s t : ℤ} (hs : b.last ≤ s) (ht : s ≤ t) :
    refill (burst : ℚ) rate (available rate burst b s) (elapsed s t) = available rate burst b t := by
  rw [available_eq_refill rate burst hs, refill_refill _ hr.le (elapsed_nonneg s t), elapsed_add hs ht,
    available_eq_refill rate burst (hs.trans ht)]

theorem available_self (h : b.tokens ≤ burst) : available rate burst b b.last = b.tokens := by
  rw [available_eq_refill rate burst le_rfl, elapsed_self, refill_zero rate h]

end Ideal

/-- The delay covers a full refill, whatever the level was. -/
theorem delay_refills {rate : ℚ} {burst : ℕ} (hr : 0 < rate) {tokens : ℚ} (htokens : 0 ≤ tokens) {ts t : ℤ}
    (h : ts + (⌈(burst : ℚ) / rate * 1000⌉ + 1000) ≤ t) :
    refill (burst : ℚ) rate tokens (elapsed ts t) = burst := by
  have hceil : (burst : ℚ) / rate * 1000 ≤ (⌈(burst : ℚ) / rate * 1000⌉ : ℤ) := Int.le_ceil _
  have hpos : (0 : ℚ) ≤ (burst : ℚ) / rate * 1000 := by positivity
  have hceil0 : (0 : ℤ) ≤ ⌈(burst : ℚ) / rate * 1000⌉ := Int.ceil_nonneg hpos
  have hts : ts ≤ t := by omega
  have hgap : (burst : ℚ) / rate * 1000 ≤ ((t - ts : ℤ) : ℚ) := by
    refine hceil.trans ?_
    exact_mod_cast (show ⌈(burst : ℚ) / rate * 1000⌉ ≤ t - ts by omega)
  apply refill_eq_burst
  have hburst : (burst : ℚ) = (burst : ℚ) / rate * 1000 / 1000 * rate := by
    field_simp
  have hgain : (burst : ℚ) ≤ elapsed ts t * rate := by
    rw [elapsed_of_le hts]
    calc (burst : ℚ) = (burst : ℚ) / rate * 1000 / 1000 * rate := hburst
      _ ≤ ((t - ts : ℤ) : ℚ) / 1000 * rate := by gcongr
  linarith

/-- The stored key and the ideal bucket after a run at `τ`: what is stored is what the ideal
bucket has available at that time, and nothing is stored only when that is full. -/
structure Tracks (rate : ℚ) (burst : ℕ) (key : Option Key) (b : Ideal) (τ : ℤ) : Prop where
  last : b.last ≤ τ
  stored : ∀ k, key = some k → k.bucket.ts = τ ∧ k.bucket.tokens = available rate burst b τ ∧
    0 ≤ k.bucket.tokens ∧ k.deadline = τ + (⌈(burst : ℚ) / rate * 1000⌉ + 1000)
  absent : key = none → available rate burst b τ = burst

section Step
variable {rate : ℚ} {burst : ℕ} {key : Option Key} {b : Ideal} {τ : ℤ}

/-- The level the script finds is the one the ideal bucket has, also when the key has expired. -/
theorem level_found (hr : 0 < rate) (h : Tracks rate burst key b τ) (run : Run) (ht : τ ≤ run.now_ms) :
    refill (burst : ℚ) rate (((found key run).map Bucket.tokens).getD burst)
      (elapsed (((found key run).map Bucket.ts).getD run.now_ms) run.now_ms) =
      available rate burst b run.now_ms := by
  have hlater := refill_available burst hr h.last ht
  have hfull : available rate burst b run.now_ms = burst →
      refill (burst : ℚ) rate burst (elapsed run.now_ms run.now_ms) = available rate burst b run.now_ms := by
    intro hav
    rw [elapsed_self, refill_zero rate le_rfl, hav]
  cases key with
  | none =>
    refine hfull ?_
    rw [← hlater, h.absent rfl]
    refine refill_eq_burst ?_
    have hgain := mul_nonneg (elapsed_nonneg τ run.now_ms) hr.le
    linarith
  | some k =>
    obtain ⟨hts, htokens, hnonneg, hdeadline⟩ := h.stored k rfl
    by_cases hgone : run.gone = true ∧ k.deadline ≤ run.now_ms
    · have hnone : found (some k) run = none := by simp [found, hgone]
      rw [hnone]
      refine hfull ?_
      rw [← hlater, ← htokens]
      exact delay_refills hr hnonneg (hdeadline ▸ hgone.2)
    · have hsome : found (some k) run = some k.bucket := by simp [found, hgone]
      rw [hsome, ← hlater, ← htokens, ← hts]
      rfl

theorem tracks_run (hr : 0 < rate) (hb : 0 ≤ b.tokens) (h : Tracks rate burst key b τ) (run : Run)
    (ht : τ ≤ run.now_ms) :
    (runScript rate burst key run).1 = (request rate burst b run.now_ms).1 ∧
      0 ≤ (request rate burst b run.now_ms).2.tokens ∧
      Tracks rate burst (some (runScript rate burst key run).2) (request rate burst b run.now_ms).2 run.now_ms := by
  have hlevel := level_found hr h run ht
  have hlast := h.last.trans ht
  have hnonneg : 0 ≤ available rate burst b run.now_ms := by
    rw [available_eq_refill rate burst hlast]
    exact refill_nonneg (Nat.cast_nonneg burst) hr.le hb (elapsed_nonneg _ _)
  have hcap := available_le_burst rate burst b run.now_ms
  simp only [runScript, limiterLuaScript, hlevel, request]
  rcases le_or_gt 1 (available rate burst b run.now_ms) with hle | hlt
  · rw [spend_of_le hle, if_pos hle]
    have hself := available_self rate burst (b := ⟨available rate burst b run.now_ms - 1, run.now_ms⟩)
      (by linarith : _ - 1 ≤ (burst : ℚ))
    refine ⟨rfl, sub_nonneg.mpr hle, le_rfl, ?_, by simp⟩
    rintro k hk
    cases hk
    exact ⟨rfl, hself.symm, sub_nonneg.mpr hle, rfl⟩
  · rw [spend_of_lt hlt, if_neg (not_le.mpr hlt)]
    refine ⟨rfl, hb, hlast, ?_, by simp⟩
    rintro k hk
    cases hk
    exact ⟨rfl, rfl, hnonneg, rfl⟩

theorem Tracks.stored_bounds {k : Key} (h : Tracks rate burst (some k) b τ) :
    0 ≤ k.bucket.tokens ∧ k.bucket.tokens ≤ burst := by
  obtain ⟨_, htokens, hnonneg, _⟩ := h.stored k rfl
  refine ⟨hnonneg, ?_⟩
  rw [htokens]
  exact available_le_burst rate burst b τ

theorem timeline_tracks (hr : 0 < rate) (hb : 0 ≤ b.tokens) (h : Tracks rate burst key b τ)
    {runs : List Run} (hτ : ∀ r ∈ runs, τ ≤ r.now_ms)
    (hsorted : runs.Pairwise fun r s => r.now_ms ≤ s.now_ms) :
    (timeline rate burst key runs).map Prod.fst = idealAnswers rate burst b (runs.map Run.now_ms) ∧
      ∀ x ∈ timeline rate burst key runs, 0 ≤ x.2.bucket.tokens ∧ x.2.bucket.tokens ≤ burst := by
  induction runs generalizing key b τ with
  | nil =>
    refine ⟨rfl, ?_⟩
    intro x hx
    cases hx
  | cons run runs ih =>
    obtain ⟨hfirst, hrest⟩ := List.pairwise_cons.mp hsorted
    obtain ⟨hanswer, hb', h'⟩ := tracks_run hr hb h run (hτ run List.mem_cons_self)
    obtain ⟨hanswers, hbounds⟩ := ih hb' h' hfirst hrest
    constructor
    · simp only [timeline, List.map_cons, idealAnswers, hanswer, hanswers]
    · intro x hx
      rcases List.mem_cons.mp hx with rfl | hx'
      · exact h'.stored_bounds
      · exact hbounds x hx'

end Step

/-- For every rate and burst and every timeline of runs in the order of their stamps, whichever
of the possible expiries happen: the answers are those of a full bucket that is created at any
time before, never expires and is written to by allowed requests only, and every stored level
lies between zero and the burst. -/
theorem timeline_ideal {rate : ℚ} (burst : ℕ) (hr : 0 < rate) {runs : List Run}
    (hsorted : runs.Pairwise fun r s => r.now_ms ≤ s.now_ms) (t₀ : ℤ) (h₀ : ∀ r ∈ runs, t₀ ≤ r.now_ms) :
    (timeline rate burst none runs).map Prod.fst =
        idealAnswers rate burst ⟨burst, t₀⟩ (runs.map Run.now_ms) ∧
      ∀ x ∈ timeline rate burst none runs, 0 ≤ x.2.bucket.tokens ∧ x.2.bucket.tokens ≤ burst := by
  have hstart : Tracks rate burst none ⟨burst, t₀⟩ t₀ := by
    refine ⟨le_rfl, ?_, ?_⟩
    · intro k hk
      cases hk
    · intro _
      exact available_self rate burst (b := ⟨burst, t₀⟩) le_rfl
  exact timeline_tracks hr (Nat.cast_nonneg burst) hstart h₀ hsorted

/-- Two tokens, one a second: two runs empty the bucket and the third is refused. The key is gone
before the fourth, at its deadline. -/
theorem timeline_ideal_expired :
    let runs : List Run := [⟨0, false⟩, ⟨100, true⟩, ⟨200, true⟩, ⟨3200, true⟩, ⟨3300, false⟩, ⟨3400, false⟩]
    (timeline 1 2 none runs).map Prod.fst = [true, true, false, true, true, false] ∧
      idealAnswers 1 2 ⟨(2 : ℕ), 0⟩ (runs.map Run.now_ms) = [true, true, false, true, true, false] ∧
      ∀ x ∈ timeline 1 2 none runs, 0 ≤ x.2.bucket.tokens ∧ x.2.bucket.tokens ≤ (2 : ℕ) := by
  intro runs
  have h := timeline_ideal 2 (by norm_num : (0 : ℚ) < 1)
    (show runs.Pairwise fun r s => r.now_ms ≤ s.now_ms by decide) 0 (by decide)
  have hscript : (timeline 1 2 none runs).map Prod.fst = [true, true, false, true, true, false] := by
    decide +kernel
  exact ⟨hscript, h.1.symm.trans hscript, h.2⟩

end ApiGateway.RedisLimiter
