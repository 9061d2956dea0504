import ApiGateway.Fallible
import Mathlib.Data.Rat.Defs
import Mathlib.Algebra.Order.Ring.Rat

/-!
# The configuration and its validator

`internal/config/config.go` and `validate.go`. `validate` works on the loaded record in
place and returns the first error; here it returns the record with its defaults filled
in, or that error. An error is kept as the arguments of its `fmt.Errorf` call, format and
operands. Rates are exact rationals, durations are nanoseconds. Of the infrastructure
settings only the key path is here; the others are handed on unread.
-/

namespace ApiGateway.Config

open Fallible
set_option autoImplicit false

def second : Int := 1000000000

def minute : Int := 60 * second

structure CompressionConfig where
  enabled : Bool
  minBytes : Int
  deriving DecidableEq

structure RedisConfig where
  addr : String
  poolSize : Int
  dialTimeout : Int
  readTimeout : Int
  writeTimeout : Int
  tls : Bool
  deriving DecidableEq

structure RateLimitConfig where
  backend : String
  rate : ℚ
  burst : Int
  cleanupInterval : Int
  cleanupMaxIdle : Int
  redis : RedisConfig
  deriving DecidableEq

structure HealthCheckConfig where
  interval : Int
  path : String
  deriving DecidableEq

structure CBConfig where
  maxFailures : Int
  timeout : Int
  deriving DecidableEq

structure TransportConfig where
  maxIdleConns : Int
  maxIdleConnsPerHost : Int
  idleConnTimeout : Int
  dialTimeout : Int
  tlsHandshakeTimeout : Int
  deriving DecidableEq

structure TelemetryConfig where
  metricInterval : Int
  traceBatchTimeout : Int
  logBatchTimeout : Int
  deriving DecidableEq

structure ServiceRateLimitConfig where
  rate : ℚ
  burst : Int
  keyBy : String
  deriving DecidableEq

structure ServiceCacheConfig where
  ttl : Int
  maxEntries : Int
  maxBytes : Int
  deriving DecidableEq

structure ServiceConfig where
  name : String
  pathPrefix : String
  upstreams : List String
  auth : Bool
  requiredRoles : List String
  rateLimit : Option ServiceRateLimitConfig
  cache : Option ServiceCacheConfig
  deriving DecidableEq

structure GatewayConfig where
  maxBodyBytes : Int
  maxHeaderBytes : Int
  maxInFlight : Int
  compression : CompressionConfig
  rateLimit : Option RateLimitConfig
  healthCheck : HealthCheckConfig
  circuitBreaker : Option CBConfig
  transport : TransportConfig
  telemetry : TelemetryConfig
  services : List ServiceConfig
  jwtPublicKey : String
  deriving DecidableEq

inductive Arg where
  | str (s : String)
  | int (i : Int)
  deriving DecidableEq, Repr

structure Errorf where
  format : String
  args : List Arg
  deriving DecidableEq, Repr

def validateServiceRateLimit (svc : ServiceConfig) : Except Errorf ServiceConfig :=
  match svc.rateLimit with
  | none => .ok svc
  | some rl =>
    if rl.rate ≤ 0 then
      .error ⟨"service %q: rate_limit.rate must be positive", [.str svc.name]⟩
    else if rl.burst ≤ 0 then
      .error ⟨"service %q: rate_limit.burst must be positive", [.str svc.name]⟩
    else if rl.keyBy = "jwt_sub" ∧ svc.auth = false then
      .error ⟨"service %q: rate_limit.key_by=jwt_sub requires auth: true", [.str svc.name]⟩
    else if rl.keyBy ≠ "" ∧ rl.keyBy ≠ "ip" ∧ rl.keyBy ≠ "jwt_sub" then
      .error ⟨"service %q: rate_limit.key_by must be \"ip\" or \"jwt_sub\" (got %q)",
        [.str svc.name, .str rl.keyBy]⟩
    else
      .ok {svc with rateLimit := some {rl with
        keyBy := if rl.keyBy = "" then "ip" else rl.keyBy}}

/-- `if v <= 0 { v = d }`, the shape of every numeric default. -/
def positiveOr (d v : Int) : Int := if v ≤ 0 then d else v

def applyServiceCacheDefaults (svc : ServiceConfig) : ServiceConfig :=
  {svc with cache := svc.cache.map fun cc =>
    {ttl := positiveOr (60 * second) cc.ttl
     maxEntries := positiveOr 1024 cc.maxEntries
     maxBytes := positiveOr (16 * 2 ^ 20) cc.maxBytes}}

/-- One turn of the loop of `validateServices`, with the names and prefixes seen so far. -/
def validateService (i : Nat) (seenName seenPrefix : List String) (svc : ServiceConfig) :
    Except Errorf ServiceConfig :=
  if svc.name = "" then .error ⟨"service[%d]: name is required", [.int i]⟩
  else if svc.pathPrefix = "" then .error ⟨"service %q: prefix is required", [.str svc.name]⟩
  else if svc.upstreams = [] then
    .error ⟨"service %q: at least one upstream is required", [.str svc.name]⟩
  else if svc.name ∈ seenName then .error ⟨"service %q: duplicate name", [.str svc.name]⟩
  else if svc.pathPrefix ∈ seenPrefix then
    .error ⟨"service %q: duplicate prefix %q", [.str svc.name, .str svc.pathPrefix]⟩
  else if svc.requiredRoles ≠ [] ∧ svc.auth = false then
    .error ⟨"service %q: required_roles requires auth: true", [.str svc.name]⟩
  else (validateServiceRateLimit svc).map applyServiceCacheDefaults

def validateServicesFrom (i : Nat) (seenName seenPrefix : List String) :
    List ServiceConfig → Except Errorf (List ServiceConfig)
  | [] => .ok []
  | svc :: rest => do
    let svc' ← validateService i seenName seenPrefix svc
    let rest' ← validateServicesFrom (i + 1) (svc.name :: seenName) (svc.pathPrefix :: seenPrefix) rest
    return svc' :: rest'

def validateServices (cfg : GatewayConfig) : Except Errorf GatewayConfig :=
  if cfg.services = [] then .error ⟨"at least one service is required", []⟩
  else do
    let services ← validateServicesFrom 0 [] [] cfg.services
    return {cfg with services := services}

def backendOrMemory (rl : RateLimitConfig) : String :=
  if rl.backend = "" then "memory" else rl.backend

def validateRateLimit (rl : Option RateLimitConfig) : Except Errorf (Option RateLimitConfig) :=
  match rl with
  | none => .ok none
  | some rl =>
    if rl.rate ≤ 0 then .error ⟨"rate_limit.rate must be positive", []⟩
    else if rl.burst ≤ 0 then .error ⟨"rate_limit.burst must be positive", []⟩
    else if backendOrMemory rl = "redis" ∧ rl.redis.addr = "" then
      .error ⟨"rate_limit.redis.addr is required when backend is redis", []⟩
    else if backendOrMemory rl ≠ "memory" ∧ backendOrMemory rl ≠ "redis" then
      .error ⟨"rate_limit.backend must be \"memory\" or \"redis\" (got %q)",
        [.str (backendOrMemory rl)]⟩
    else
      .ok (some {rl with
        backend := backendOrMemory rl
        cleanupInterval := positiveOr (1 * minute) rl.cleanupInterval
        cleanupMaxIdle := positiveOr (3 * minute) rl.cleanupMaxIdle})

def validateCircuitBreaker (cb : Option CBConfig) : Except Errorf Unit :=
  match cb with
  | none => .ok ()
  | some cb =>
    if cb.maxFailures ≤ 0 then .error ⟨"circuit_breaker.max_failures must be positive", []⟩
    else if cb.timeout ≤ 0 then .error ⟨"circuit_breaker.timeout must be positive", []⟩
    else .ok ()

def applyHealthCheckDefaults (hc : HealthCheckConfig) : HealthCheckConfig :=
  {interval := positiveOr (5 * second) hc.interval
   path := if hc.path = "" then "/healthz" else hc.path}

def applyCompressionDefaults (cmp : CompressionConfig) : CompressionConfig :=
  {cmp with minBytes := if cmp.enabled ∧ cmp.minBytes ≤ 0 then 1024 else cmp.minBytes}

def applyServerLimitDefaults (cfg : GatewayConfig) : GatewayConfig :=
  {cfg with
    maxBodyBytes := positiveOr (2 ^ 20) cfg.maxBodyBytes
    maxHeaderBytes := positiveOr (32 * 2 ^ 10) cfg.maxHeaderBytes}

def applyTransportDefaults (t : TransportConfig) : TransportConfig :=
  {maxIdleConns := positiveOr 1000 t.maxIdleConns
   maxIdleConnsPerHost := positiveOr 200 t.maxIdleConnsPerHost
   idleConnTimeout := positiveOr (90 * second) t.idleConnTimeout
   dialTimeout := positiveOr (5 * second) t.dialTimeout
   tlsHandshakeTimeout := positiveOr (5 * second) t.tlsHandshakeTimeout}

def applyTelemetryDefaults (t : TelemetryConfig) : TelemetryConfig :=
  {metricInterval := positiveOr (10 * second) t.metricInterval
   traceBatchTimeout := positiveOr (5 * second) t.traceBatchTimeout
   logBatchTimeout := positiveOr (1 * second) t.logBatchTimeout}

def validate (cfg : GatewayConfig) : Except Errorf GatewayConfig := do
  let cfg ← validateServices cfg
  let rateLimit ← validateRateLimit cfg.rateLimit
  validateCircuitBreaker cfg.circuitBreaker
  let cfg := applyServerLimitDefaults {cfg with rateLimit := rateLimit}
  return {cfg with
    healthCheck := applyHealthCheckDefaults cfg.healthCheck
    compression := applyCompressionDefaults cfg.compression
    transport := applyTransportDefaults cfg.transport
    telemetry := applyTelemetryDefaults cfg.telemetry}

theorem positiveOr_pos {d : Int} (hd : 0 < d) (v : Int) : 0 < positiveOr d v := by
  unfold positiveOr
  split <;> omega

/-- What the limiters rely on: a rate and a burst to divide and count by, and a positive
idle threshold and sweep interval. -/
def PositiveRateLimit (rl : RateLimitConfig) : Prop :=
  0 < rl.rate ∧ 0 < rl.burst ∧ 0 < rl.cleanupInterval ∧ 0 < rl.cleanupMaxIdle

def PositiveServiceRateLimit (rl : ServiceRateLimitConfig) : Prop := 0 < rl.rate ∧ 0 < rl.burst

end ApiGateway.Config
