import ApiGateway.MemoryLimiter
import ApiGateway.WellFormedConfig
import Mathlib.Tactic.NormNum

/-!
# The limiter of a service

`buildServiceLimiter` and `buildRedisClient` of `cmd/gateway/server.go`, on the
configuration that the validator returns. A Redis client exists exactly when the global
rate limit asks for that backend; its ping at startup only decides whether the gateway
starts. A service's own rate and burst replace the global ones, while the idle threshold
and the sweep interval are the global ones or the built-in minutes, so the two pairs of
numbers that cleanup depends on come from different places and nothing relates them.
-/

namespace ApiGateway.ServiceLimiter

open Config Ratelimit WellFormedConfig
set_option autoImplicit false

inductive KeyFunc where
  | keyByIP
  | keyByJWTSub
  deriving DecidableEq, Repr

inductive Backend where
  | redis (keyPrefix : String) (r : ℚ) (b : ℤ)
  | memory (ml : MemoryLimiter)

def buildRedisClient (cfg : GatewayConfig) : Bool :=
  match cfg.rateLimit with
  | none => false
  | some rl => rl.backend = "redis"

/-- The rate, burst and key of a service: its own, else the global ones. -/
def serviceRate (svc : ServiceConfig) (cfg : GatewayConfig) : Option (ℚ × ℤ × String) :=
  match svc.rateLimit, cfg.rateLimit with
  | some rl, _ => some (rl.rate, rl.burst, rl.keyBy)
  | none, some rl => some (rl.rate, rl.burst, "ip")
  | none, none => none

def cleanupTimes (cfg : GatewayConfig) : ℤ × ℤ :=
  match cfg.rateLimit with
  | some rl => (rl.cleanupInterval, rl.cleanupMaxIdle)
  | none => (minute, 3 * minute)

def buildServiceLimiter (svc : ServiceConfig) (cfg : GatewayConfig) (redisClient : Bool) :
    Option (Backend × KeyFunc) :=
  (serviceRate svc cfg).map fun (r, b, keyBy) =>
    let keyFunc := if keyBy = "jwt_sub" then KeyFunc.keyByJWTSub else KeyFunc.keyByIP
    let limiter :=
      if redisClient then Backend.redis ("svc:" ++ svc.name ++ ":") r b
      else .memory (.new r b (cleanupTimes cfg).1 (cleanupTimes cfg).2)
    (limiter, keyFunc)

theorem serviceRate_positive {cfg cfg' : GatewayConfig} (h : validate cfg = .ok cfg')
    {svc : ServiceConfig} (hsvc : svc ∈ cfg'.services) {r : ℚ} {b : ℤ} {keyBy : String}
    (hrate : serviceRate svc cfg' = some (r, b, keyBy)) : 0 < r ∧ 0 < b := by
  obtain ⟨hglobal, hservice⟩ := validate_positive h
  unfold serviceRate at hrate
  split at hrate
  · rename_i rl hrl
    cases hrate
    exact hservice svc hsvc rl hrl
  · rename_i rl _ hrl
    cases hrate
    exact ⟨(hglobal rl hrl).1, (hglobal rl hrl).2.1⟩
  · cases hrate

theorem cleanupTimes_positive {cfg cfg' : GatewayConfig} (h : validate cfg = .ok cfg') :
    0 < (cleanupTimes cfg').1 ∧ 0 < (cleanupTimes cfg').2 := by
  unfold cleanupTimes
  cases hrl : cfg'.rateLimit with
  | none => decide
  | some rl => exact ((validate_positive h).1 rl hrl).2.2

theorem buildServiceLimiter_memory {svc : ServiceConfig} {cfg : GatewayConfig} {redisClient : Bool}
    {ml : MemoryLimiter} {keyFunc : KeyFunc}
    (h : buildServiceLimiter svc cfg redisClient = some (.memory ml, keyFunc)) :
    ∃ r b keyBy, serviceRate svc cfg = some (r, b, keyBy) ∧
      ml = .new r b (cleanupTimes cfg).1 (cleanupTimes cfg).2 := by
  obtain ⟨⟨r, b, keyBy⟩, hrate, heq⟩ := Option.map_eq_some_iff.mp h
  refine ⟨r, b, keyBy, hrate, ?_⟩
  cases redisClient with
  | true => cases (Prod.mk.inj heq).1
  | false => exact (Backend.memory.inj (Prod.mk.inj heq).1).symm

/-- Cleanup leaves the answers of a service's in-memory limiter alone exactly when a key that
is idle long enough to be dropped has had time to refill. -/
theorem service_cleanupInvisible_iff {cfg cfg' : GatewayConfig} (h : validate cfg = .ok cfg')
    {svc : ServiceConfig} (hsvc : svc ∈ cfg'.services) {ml : MemoryLimiter} {keyFunc : KeyFunc}
    (hml : buildServiceLimiter svc cfg' (buildRedisClient cfg') = some (.memory ml, keyFunc)) :
    CleanupInvisible ml ↔ RefillsWhileIdle ml.r ml.b ml.cleanupMaxIdle := by
  obtain ⟨r, b, keyBy, hrate, rfl⟩ := buildServiceLimiter_memory hml
  obtain ⟨hr, hb⟩ := serviceRate_positive h hsvc hrate
  exact cleanupInvisible_iff _ hr hb (cleanupTimes_positive h).2

def halfPerSecond (cleanupMaxIdle : ℤ) : GatewayConfig where
  maxBodyBytes := 0
  maxHeaderBytes := 0
  maxInFlight := 0
  compression := ⟨false, 0⟩
  rateLimit := some ⟨"", 1 / 2, 1, 0, cleanupMaxIdle, ⟨"", 0, 0, 0, 0, false⟩⟩
  healthCheck := ⟨0, ""⟩
  circuitBreaker := none
  transport := ⟨0, 0, 0, 0, 0⟩
  telemetry := ⟨0, 0, 0⟩
  services := [⟨"users", "/users", ["http://users:8080"], false, [], none, none⟩]
  jwtPublicKey := ""

def halfPerSecondFilled (cleanupMaxIdle : ℤ) : GatewayConfig :=
  {halfPerSecond cleanupMaxIdle with
    maxBodyBytes := 2 ^ 20
    maxHeaderBytes := 32 * 2 ^ 10
    rateLimit := some ⟨"memory", 1 / 2, 1, minute, cleanupMaxIdle, ⟨"", 0, 0, 0, 0, false⟩⟩
    healthCheck := ⟨5 * second, "/healthz"⟩
    transport := ⟨1000, 200, 90 * second, 5 * second, 5 * second⟩
    telemetry := ⟨10 * second, 5 * second, second⟩}

theorem service_cleanupInvisible_two_seconds :
    CleanupInvisible (.new (1 / 2) 1 minute (2 * second)) := by
  have hvalid : validate (halfPerSecond (2 * second)) = .ok (halfPerSecondFilled (2 * second)) := by
    decide +kernel
  refine (service_cleanupInvisible_iff hvalid List.mem_cons_self rfl).mpr ?_
  change RefillsWhileIdle (1 / 2) 1 (2 * second)
  norm_num [RefillsWhileIdle, second]

theorem service_cleanup_visible_one_second :
    ∃ svc ml keyFunc, validate (halfPerSecond second) = .ok (halfPerSecondFilled second) ∧
      svc ∈ (halfPerSecondFilled second).services ∧
      buildServiceLimiter svc (halfPerSecondFilled second)
        (buildRedisClient (halfPerSecondFilled second)) = some (.memory ml, keyFunc) ∧
      Timeline [.allow "10.0.0.1" 0, .cleanup 1500000000, .allow "10.0.0.1" 1500000000] ∧
      (run ml [.allow "10.0.0.1" 0, .cleanup 1500000000, .allow "10.0.0.1" 1500000000]).2 =
        [true, true] ∧
      (run ml (withoutCleanup
        [.allow "10.0.0.1" 0, .cleanup 1500000000, .allow "10.0.0.1" 1500000000])).2 =
        [true, false] := by
  refine ⟨_, .new (1 / 2) 1 minute second, .keyByIP, ?_, List.mem_cons_self, rfl, ?_, ?_, ?_⟩
  · decide +kernel
  · simp [Timeline, Op.time]
  · decide +kernel
  · decide +kernel

end ApiGateway.ServiceLimiter
