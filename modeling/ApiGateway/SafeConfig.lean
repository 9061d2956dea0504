import ApiGateway.ServiceChain
import ApiGateway.WellFormedConfig

/-!
# What is built from an accepted configuration

The gateway builds its limiters, breakers, caches, transport and tickers from what the validator
returns. Of an accepted configuration each of them gets positive numbers only. The concurrency cap is
the one limit without a default: at 0 or below it is off and no semaphore is made.
-/

namespace ApiGateway.SafeConfig

open Config ServiceLimiter WellFormedConfig
set_option autoImplicit false

section Built

/-- The semaphore of the concurrency cap. -/
def semaphore (limit : Int) : Option Int := if limit ≤ 0 then none else some limit

/-- `redis.Options`; what is not set is left to the client. -/
structure RedisOptions where
  poolSize : Option Int
  dialTimeout : Option Int
  readTimeout : Option Int
  writeTimeout : Option Int
  deriving DecidableEq

def ifPositive (v : Int) : Option Int := if 0 < v then some v else none

def buildRedisOptions (rc : RedisConfig) : RedisOptions :=
  ⟨ifPositive rc.poolSize, ifPositive rc.dialTimeout, ifPositive rc.readTimeout, ifPositive rc.writeTimeout⟩

def PositiveOptions (o : RedisOptions) : Prop :=
  ∀ x ∈ [o.poolSize, o.dialTimeout, o.readTimeout, o.writeTimeout], ∀ v ∈ x, 0 < v

def PositiveLimiter : Backend → Prop
  | .redis _ r b => 0 < r ∧ 0 < b
  | .memory ml => 0 < ml.r ∧ 0 < ml.b ∧ 0 < ml.cleanupInterval ∧ 0 < ml.cleanupMaxIdle

/-- Every interval, limit, bound and lifetime that the gateway is built with is positive. -/
structure Safe (cfg : GatewayConfig) : Prop where
  requests : 0 < cfg.maxBodyBytes ∧ 0 < cfg.maxHeaderBytes
  cap : ∀ n, semaphore cfg.maxInFlight = some n → 0 < n
  compression : cfg.compression.enabled = true → 0 < cfg.compression.minBytes
  checker : 0 < cfg.healthCheck.interval
  telemetry : 0 < cfg.telemetry.metricInterval ∧ 0 < cfg.telemetry.traceBatchTimeout ∧
    0 < cfg.telemetry.logBatchTimeout
  transport : 0 < cfg.transport.maxIdleConns ∧ 0 < cfg.transport.maxIdleConnsPerHost ∧
    0 < cfg.transport.idleConnTimeout ∧ 0 < cfg.transport.dialTimeout ∧ 0 < cfg.transport.tlsHandshakeTimeout
  breakers : ∀ svc ∈ cfg.services, ∀ u b, (ServiceChain.buildServiceHandler svc cfg).breakers u = some b →
    0 < b.maxFailures ∧ 0 < b.timeout
  limiters : ∀ svc ∈ cfg.services, ∀ limiter keyFunc,
    buildServiceLimiter svc cfg (buildRedisClient cfg) = some (limiter, keyFunc) → PositiveLimiter limiter
  redis : ∀ rl, cfg.rateLimit = some rl → PositiveOptions (buildRedisOptions rl.redis)
  caches : ∀ svc ∈ cfg.services, ∀ cc, svc.cache = some cc → 0 < cc.ttl ∧ 0 < cc.maxEntries ∧ 0 < cc.maxBytes

theorem buildServiceHandler_positive {cfg : GatewayConfig} (h : WellFormed cfg) (svc : ServiceConfig) {u : String}
    {b : CircuitBreaker.Breaker} (hb : (ServiceChain.buildServiceHandler svc cfg).breakers u = some b) :
    0 < b.maxFailures ∧ 0 < b.timeout := by
  unfold ServiceChain.buildServiceHandler at hb
  simp only [Option.ite_none_right_eq_some, Option.some.injEq] at hb
  obtain ⟨-, rfl⟩ := hb
  unfold ServiceChain.newServiceBreaker
  cases hcb : cfg.circuitBreaker with
  | none => exact ⟨by decide, by decide⟩
  | some cb =>
    obtain ⟨hfailures, htimeout⟩ := h.circuitBreaker cb hcb
    exact ⟨Int.lt_toNat.mpr hfailures, htimeout⟩

theorem buildServiceLimiter_positive {cfg cfg' : GatewayConfig} (h : validate cfg = .ok cfg') {svc : ServiceConfig}
    (hsvc : svc ∈ cfg'.services) {redisClient : Bool} {limiter : Backend} {keyFunc : KeyFunc}
    (hl : buildServiceLimiter svc cfg' redisClient = some (limiter, keyFunc)) : PositiveLimiter limiter := by
  obtain ⟨⟨r, b, keyBy⟩, hrate, heq⟩ := Option.map_eq_some_iff.mp hl
  obtain ⟨hr, hb⟩ := serviceRate_positive h hsvc hrate
  cases redisClient with
  | true =>
    obtain rfl := (Prod.mk.inj heq).1
    exact ⟨hr, hb⟩
  | false =>
    obtain rfl := (Prod.mk.inj heq).1
    exact ⟨hr, hb, cleanupTimes_positive h⟩

theorem ifPositive_pos {v x : Int} (h : x ∈ ifPositive v) : 0 < x := by
  simp only [ifPositive, Option.mem_def, Option.ite_none_right_eq_some, Option.some.injEq] at h
  obtain ⟨hpos, rfl⟩ := h
  exact hpos

theorem positiveOptions_buildRedisOptions (rc : RedisConfig) : PositiveOptions (buildRedisOptions rc) := by
  intro x hx v hv
  simp only [buildRedisOptions, List.mem_cons, List.not_mem_nil, or_false] at hx
  rcases hx with rfl | rfl | rfl | rfl
  · exact ifPositive_pos hv
  · exact ifPositive_pos hv
  · exact ifPositive_pos hv
  · exact ifPositive_pos hv

theorem safe_of_validate {cfg cfg' : GatewayConfig} (h : validate cfg = .ok cfg') : Safe cfg' := by
  obtain ⟨hwf, rfl⟩ := validate_eq_ok.mp h
  exact {
    requests := ⟨positiveOr_pos (by decide) _, positiveOr_pos (by decide) _⟩
    cap := by
      intro n hn
      simp only [semaphore, Option.ite_none_left_eq_some, Option.some.injEq] at hn
      omega
    compression := by
      intro henabled
      change 0 < if cfg.compression.enabled = true ∧ cfg.compression.minBytes ≤ 0 then 1024
        else cfg.compression.minBytes
      split
      · decide
      · rename_i hnot
        exact not_le.mp fun hle => hnot ⟨henabled, hle⟩
    checker := positiveOr_pos (by decide) _
    telemetry := ⟨positiveOr_pos (by decide) _, positiveOr_pos (by decide) _, positiveOr_pos (by decide) _⟩
    transport := ⟨positiveOr_pos (by decide) _, positiveOr_pos (by decide) _, positiveOr_pos (by decide) _,
      positiveOr_pos (by decide) _, positiveOr_pos (by decide) _⟩
    breakers := fun svc _ u b hb => buildServiceHandler_positive (wellFormed_fill hwf) svc hb
    limiters := fun svc hsvc limiter keyFunc hl => buildServiceLimiter_positive h hsvc hl
    redis := fun rl _ => positiveOptions_buildRedisOptions rl.redis
    caches := by
      intro svc hsvc cc hcc
      obtain ⟨svc', -, rfl⟩ := List.mem_map.mp hsvc
      obtain ⟨cc', -, rfl⟩ := Option.map_eq_some_iff.mp hcc
      exact ⟨positiveOr_pos (by decide) _, positiveOr_pos (by decide) _, positiveOr_pos (by decide) _⟩ }

end Built

/-- The validator accepts exactly the well-formed configurations. What it returns is safe to build,
has every valid field as it was, and is accepted again as it is. -/
theorem validate_exact (cfg : GatewayConfig) :
    ((∃ cfg', validate cfg = .ok cfg') ↔ WellFormed cfg) ∧
      ∀ cfg', validate cfg = .ok cfg' → Safe cfg' ∧ Kept cfg cfg' ∧ validate cfg' = .ok cfg' := by
  constructor
  · constructor
    · rintro ⟨cfg', h⟩
      exact (validate_eq_ok.mp h).1
    · intro hwf
      exact ⟨fill cfg, validate_eq_ok.mpr ⟨hwf, rfl⟩⟩
  · intro cfg' h
    refine ⟨safe_of_validate h, ?_, ?_⟩
    · obtain ⟨-, rfl⟩ := validate_eq_ok.mp h
      exact kept_fill cfg
    · obtain ⟨hwf, rfl⟩ := validate_eq_ok.mp h
      exact validate_eq_ok.mpr ⟨wellFormed_fill hwf, fill_fill cfg⟩

end ApiGateway.SafeConfig
