import ApiGateway.Config
import Mathlib.Data.List.Forall2

/-!
# Which configurations are accepted

`validate` checks and fills in at once, service by service, and stops at the first fault. Here the
two are taken apart: a configuration is accepted exactly if it is well formed, and what comes back
is then the same record with its defaults filled in. What is filled in is well formed again and
has nothing left to fill in, and every field that was valid is as it was.
-/

namespace ApiGateway.WellFormedConfig

open Config Fallible
set_option autoImplicit false

structure WellFormedServiceRateLimit (auth : Bool) (rl : ServiceRateLimitConfig) : Prop where
  rate : 0 < rl.rate
  burst : 0 < rl.burst
  keyBy : rl.keyBy = "" ∨ rl.keyBy = "ip" ∨ rl.keyBy = "jwt_sub"
  jwtSub : rl.keyBy = "jwt_sub" → auth = true

structure WellFormedService (svc : ServiceConfig) : Prop where
  name : svc.name ≠ ""
  pathPrefix : svc.pathPrefix ≠ ""
  upstreams : svc.upstreams ≠ []
  requiredRoles : svc.requiredRoles ≠ [] → svc.auth = true
  rateLimit : ∀ rl, svc.rateLimit = some rl → WellFormedServiceRateLimit svc.auth rl

structure WellFormedRateLimit (rl : RateLimitConfig) : Prop where
  rate : 0 < rl.rate
  burst : 0 < rl.burst
  backend : rl.backend = "" ∨ rl.backend = "memory" ∨ rl.backend = "redis"
  redis : rl.backend = "redis" → rl.redis.addr ≠ ""

structure WellFormed (cfg : GatewayConfig) : Prop where
  nonempty : cfg.services ≠ []
  services : ∀ svc ∈ cfg.services, WellFormedService svc
  names : (cfg.services.map ServiceConfig.name).Nodup
  prefixes : (cfg.services.map ServiceConfig.pathPrefix).Nodup
  rateLimit : ∀ rl, cfg.rateLimit = some rl → WellFormedRateLimit rl
  circuitBreaker : ∀ cb, cfg.circuitBreaker = some cb → 0 < cb.maxFailures ∧ 0 < cb.timeout

def fillServiceRateLimit (rl : ServiceRateLimitConfig) : ServiceRateLimitConfig :=
  {rl with keyBy := if rl.keyBy = "" then "ip" else rl.keyBy}

def fillCache (cc : ServiceCacheConfig) : ServiceCacheConfig :=
  ⟨positiveOr (60 * second) cc.ttl, positiveOr 1024 cc.maxEntries, positiveOr (16 * 2 ^ 20) cc.maxBytes⟩

def fillService (svc : ServiceConfig) : ServiceConfig :=
  applyServiceCacheDefaults {svc with rateLimit := svc.rateLimit.map fillServiceRateLimit}

def fillRateLimit (rl : RateLimitConfig) : RateLimitConfig :=
  {rl with
    backend := backendOrMemory rl
    cleanupInterval := positiveOr (1 * minute) rl.cleanupInterval
    cleanupMaxIdle := positiveOr (3 * minute) rl.cleanupMaxIdle}

/-- The configuration with its defaults. -/
def fill (cfg : GatewayConfig) : GatewayConfig :=
  {applyServerLimitDefaults cfg with
    services := cfg.services.map fillService
    rateLimit := cfg.rateLimit.map fillRateLimit
    healthCheck := applyHealthCheckDefaults cfg.healthCheck
    compression := applyCompressionDefaults cfg.compression
    transport := applyTransportDefaults cfg.transport
    telemetry := applyTelemetryDefaults cfg.telemetry}

section Accepted

theorem validateServiceRateLimit_eq_ok {svc svc' : ServiceConfig} :
    validateServiceRateLimit svc = .ok svc' ↔
      (∀ rl, svc.rateLimit = some rl → WellFormedServiceRateLimit svc.auth rl) ∧
        {svc with rateLimit := svc.rateLimit.map fillServiceRateLimit} = svc' := by
  cases hrl : svc.rateLimit with
  | none =>
    have hsame : {svc with rateLimit := none} = svc := by rw [← hrl]
    simp [validateServiceRateLimit, hrl, hsame]
  | some rl =>
    simp only [validateServiceRateLimit, hrl, ite_error_eq_ok, Except.ok.injEq, Option.some.injEq,
      forall_eq', Option.map_some, not_le]
    constructor
    · rintro ⟨hrate, hburst, hauth, hkey, rfl⟩
      refine ⟨⟨hrate, hburst, ?_, fun hsub => ?_⟩, rfl⟩
      · by_contra hnot
        simp only [not_or] at hnot
        exact hkey hnot
      · by_contra hnot
        exact hauth ⟨hsub, Bool.eq_false_iff.mpr hnot⟩
    · rintro ⟨hwf, rfl⟩
      refine ⟨hwf.rate, hwf.burst, ?_, ?_, rfl⟩
      · rintro ⟨hsub, hauth⟩
        exact absurd (hwf.jwtSub hsub) (by simp [hauth])
      · rintro ⟨hempty, hip, hsub⟩
        rcases hwf.keyBy with h | h | h
        · exact hempty h
        · exact hip h
        · exact hsub h

theorem validateService_eq_ok {i : Nat} {seenName seenPrefix : List String} {svc svc' : ServiceConfig} :
    validateService i seenName seenPrefix svc = .ok svc' ↔
      WellFormedService svc ∧ svc.name ∉ seenName ∧ svc.pathPrefix ∉ seenPrefix ∧ fillService svc = svc' := by
  simp only [validateService, ite_error_eq_ok, map_eq_ok, validateServiceRateLimit_eq_ok]
  constructor
  · rintro ⟨hname, hpath, hupstreams, hnew, hnewPrefix, hroles, checked, ⟨hrl, rfl⟩, rfl⟩
    refine ⟨⟨hname, hpath, hupstreams, fun hne => ?_, hrl⟩, hnew, hnewPrefix, rfl⟩
    by_contra hnot
    exact hroles ⟨hne, Bool.eq_false_iff.mpr hnot⟩
  · rintro ⟨hwf, hnew, hnewPrefix, rfl⟩
    refine ⟨hwf.name, hwf.pathPrefix, hwf.upstreams, hnew, hnewPrefix, ?_, _, ⟨hwf.rateLimit, rfl⟩, rfl⟩
    rintro ⟨hne, hauth⟩
    exact absurd (hwf.requiredRoles hne) (by simp [hauth])

/-- Pairwise distinct, and none of them seen before. -/
def Unseen (xs seen : List String) : Prop := xs.Nodup ∧ ∀ y ∈ xs, y ∉ seen

theorem unseen_cons {x : String} {xs seen : List String} :
    Unseen (x :: xs) seen ↔ x ∉ seen ∧ Unseen xs (x :: seen) := by
  rw [Unseen, Unseen, List.nodup_cons, List.forall_mem_cons]
  constructor
  · rintro ⟨⟨hx, hnodup⟩, hseen, hrest⟩
    refine ⟨hseen, hnodup, fun y hy hmem => ?_⟩
    rcases List.mem_cons.mp hmem with rfl | hmem
    · exact hx hy
    · exact hrest y hy hmem
  · rintro ⟨hseen, hnodup, hrest⟩
    refine ⟨⟨fun hx => hrest x hx List.mem_cons_self, hnodup⟩, hseen, fun y hy hmem => ?_⟩
    exact hrest y hy (List.mem_cons_of_mem x hmem)

theorem unseen_nil_iff {xs : List String} : Unseen xs [] ↔ xs.Nodup := by
  simp [Unseen]

/-- By induction on the services, for any names and prefixes seen before. -/
theorem validateServicesFrom_eq_ok {services services' : List ServiceConfig} {i : Nat}
    {seenName seenPrefix : List String} :
    validateServicesFrom i seenName seenPrefix services = .ok services' ↔
      (∀ svc ∈ services, WellFormedService svc) ∧
        Unseen (services.map ServiceConfig.name) seenName ∧
        Unseen (services.map ServiceConfig.pathPrefix) seenPrefix ∧ services.map fillService = services' := by
  induction services generalizing services' i seenName seenPrefix with
  | nil => simp [validateServicesFrom, Unseen]
  | cons svc rest ih =>
    simp only [validateServicesFrom, bind_eq_ok, validateService_eq_ok, ih, List.map_cons, unseen_cons,
      List.forall_mem_cons]
    constructor
    · rintro ⟨svc', ⟨hwf, hname, hpath, rfl⟩, rest', ⟨hrest, hnames, hpaths, rfl⟩, heq⟩
      exact ⟨⟨hwf, hrest⟩, ⟨hname, hnames⟩, ⟨hpath, hpaths⟩, Except.ok.inj heq⟩
    · rintro ⟨⟨hwf, hrest⟩, ⟨hname, hnames⟩, ⟨hpath, hpaths⟩, heq⟩
      exact ⟨_, ⟨hwf, hname, hpath, rfl⟩, _, ⟨hrest, hnames, hpaths, rfl⟩, congrArg Except.ok heq⟩

theorem validateServices_eq_ok {cfg cfg' : GatewayConfig} :
    validateServices cfg = .ok cfg' ↔
      cfg.services ≠ [] ∧ (∀ svc ∈ cfg.services, WellFormedService svc) ∧
        (cfg.services.map ServiceConfig.name).Nodup ∧ (cfg.services.map ServiceConfig.pathPrefix).Nodup ∧
        {cfg with services := cfg.services.map fillService} = cfg' := by
  simp only [validateServices, ite_error_eq_ok, bind_eq_ok, validateServicesFrom_eq_ok, unseen_nil_iff]
  constructor
  · rintro ⟨hne, services, ⟨hwf, hnames, hpaths, rfl⟩, heq⟩
    exact ⟨hne, hwf, hnames, hpaths, Except.ok.inj heq⟩
  · rintro ⟨hne, hwf, hnames, hpaths, heq⟩
    exact ⟨hne, _, ⟨hwf, hnames, hpaths, rfl⟩, congrArg Except.ok heq⟩

theorem backendOrMemory_eq_redis {rl : RateLimitConfig} : backendOrMemory rl = "redis" ↔ rl.backend = "redis" := by
  unfold backendOrMemory
  split
  · rename_i hempty
    simp [hempty]
  · rfl

theorem backendOrMemory_eq_memory {rl : RateLimitConfig} :
    backendOrMemory rl = "memory" ↔ rl.backend = "" ∨ rl.backend = "memory" := by
  unfold backendOrMemory
  split
  · rename_i hempty
    simp [hempty]
  · rename_i hempty
    simp [hempty]

theorem validateRateLimit_eq_ok {rl rl' : Option RateLimitConfig} :
    validateRateLimit rl = .ok rl' ↔
      (∀ x, rl = some x → WellFormedRateLimit x) ∧ rl.map fillRateLimit = rl' := by
  cases rl with
  | none => simp [validateRateLimit]
  | some rl =>
    simp only [validateRateLimit, ite_error_eq_ok, Except.ok.injEq, Option.some.injEq, forall_eq',
      Option.map_some, not_le, ne_eq, backendOrMemory_eq_redis, backendOrMemory_eq_memory]
    constructor
    · rintro ⟨hrate, hburst, haddr, hbackend, heq⟩
      refine ⟨⟨hrate, hburst, ?_, fun hredis hempty => haddr ⟨hredis, hempty⟩⟩, heq⟩
      by_contra hnot
      simp only [not_or] at hnot
      exact hbackend ⟨fun hmem => hmem.elim hnot.1 hnot.2.1, hnot.2.2⟩
    · rintro ⟨hwf, heq⟩
      refine ⟨hwf.rate, hwf.burst, fun h => hwf.redis h.1 h.2, ?_, heq⟩
      rintro ⟨hmemory, hredis⟩
      rcases hwf.backend with h | h | h
      · exact hmemory (.inl h)
      · exact hmemory (.inr h)
      · exact hredis h

theorem validateCircuitBreaker_eq_ok {cb : Option CBConfig} {u : Unit} :
    validateCircuitBreaker cb = .ok u ↔ ∀ x, cb = some x → 0 < x.maxFailures ∧ 0 < x.timeout := by
  cases cb with
  | none => simp [validateCircuitBreaker]
  | some cb =>
    simp only [validateCircuitBreaker, ite_error_eq_ok, Option.some.injEq, forall_eq', not_le, and_true]

/-- A configuration is accepted exactly if it is well formed, and comes back filled in. -/
theorem validate_eq_ok {cfg cfg' : GatewayConfig} : validate cfg = .ok cfg' ↔ WellFormed cfg ∧ fill cfg = cfg' := by
  simp only [validate, bind_eq_ok, validateServices_eq_ok, validateRateLimit_eq_ok, validateCircuitBreaker_eq_ok]
  constructor
  · rintro ⟨checked, ⟨hne, hservices, hnames, hpaths, rfl⟩, rateLimit, ⟨hrl, rfl⟩, -, hcb, heq⟩
    exact ⟨⟨hne, hservices, hnames, hpaths, hrl, hcb⟩, Except.ok.inj heq⟩
  · rintro ⟨hwf, heq⟩
    exact ⟨_, ⟨hwf.nonempty, hwf.services, hwf.names, hwf.prefixes, rfl⟩, _, ⟨hwf.rateLimit, rfl⟩, (),
      hwf.circuitBreaker, congrArg Except.ok heq⟩

end Accepted

section Filled

theorem positiveOr_of_pos {d v : Int} (h : 0 < v) : positiveOr d v = v := if_neg (not_le.mpr h)

theorem positiveOr_positiveOr {d : Int} (hd : 0 < d) (v : Int) : positiveOr d (positiveOr d v) = positiveOr d v :=
  positiveOr_of_pos (positiveOr_pos hd v)

theorem wellFormed_fillServiceRateLimit {auth : Bool} {rl : ServiceRateLimitConfig}
    (h : WellFormedServiceRateLimit auth rl) : WellFormedServiceRateLimit auth (fillServiceRateLimit rl) := by
  by_cases hkey : rl.keyBy = ""
  · refine ⟨h.rate, h.burst, .inr (.inl (if_pos hkey)), fun hsub => ?_⟩
    exact absurd ((if_pos hkey).symm.trans hsub) (by decide)
  · have hsame : fillServiceRateLimit rl = rl := by rw [fillServiceRateLimit, if_neg hkey]
    rwa [hsame]

theorem wellFormed_fillService {svc : ServiceConfig} (h : WellFormedService svc) :
    WellFormedService (fillService svc) where
  name := h.name
  pathPrefix := h.pathPrefix
  upstreams := h.upstreams
  requiredRoles := h.requiredRoles
  rateLimit rl hrl := by
    obtain ⟨rl', hrl', rfl⟩ := Option.map_eq_some_iff.mp hrl
    exact wellFormed_fillServiceRateLimit (h.rateLimit rl' hrl')

theorem wellFormed_fillRateLimit {rl : RateLimitConfig} (h : WellFormedRateLimit rl) :
    WellFormedRateLimit (fillRateLimit rl) where
  rate := h.rate
  burst := h.burst
  backend := by
    rcases h.backend with hempty | hmemory | hredis
    · exact .inr (.inl (backendOrMemory_eq_memory.mpr (.inl hempty)))
    · exact .inr (.inl (backendOrMemory_eq_memory.mpr (.inr hmemory)))
    · exact .inr (.inr (backendOrMemory_eq_redis.mpr hredis))
  redis hredis := h.redis (backendOrMemory_eq_redis.mp hredis)

theorem wellFormed_fill {cfg : GatewayConfig} (h : WellFormed cfg) : WellFormed (fill cfg) where
  nonempty := by
    intro hnil
    exact h.nonempty (List.map_eq_nil_iff.mp hnil)
  services := by
    intro svc hsvc
    obtain ⟨svc', hsvc', rfl⟩ := List.mem_map.mp hsvc
    exact wellFormed_fillService (h.services svc' hsvc')
  names := by
    have hnames : (cfg.services.map fillService).map ServiceConfig.name = cfg.services.map ServiceConfig.name := by
      rw [List.map_map]
      rfl
    exact hnames ▸ h.names
  prefixes := by
    have hpaths : (cfg.services.map fillService).map ServiceConfig.pathPrefix =
        cfg.services.map ServiceConfig.pathPrefix := by
      rw [List.map_map]
      rfl
    exact hpaths ▸ h.prefixes
  rateLimit rl hrl := by
    obtain ⟨rl', hrl', rfl⟩ := Option.map_eq_some_iff.mp hrl
    exact wellFormed_fillRateLimit (h.rateLimit rl' hrl')
  circuitBreaker := h.circuitBreaker

theorem fillServiceRateLimit_fill (rl : ServiceRateLimitConfig) :
    fillServiceRateLimit (fillServiceRateLimit rl) = fillServiceRateLimit rl := by
  by_cases hkey : rl.keyBy = "" <;> simp [fillServiceRateLimit, hkey]

theorem fillCache_fill (cc : ServiceCacheConfig) : fillCache (fillCache cc) = fillCache cc := by
  simp only [fillCache]
  rw [positiveOr_positiveOr (by decide), positiveOr_positiveOr (by decide), positiveOr_positiveOr (by decide)]

theorem fillService_fill (svc : ServiceConfig) : fillService (fillService svc) = fillService svc := by
  have hrateLimit : fillServiceRateLimit ∘ fillServiceRateLimit = fillServiceRateLimit :=
    funext fillServiceRateLimit_fill
  have hcache : fillCache ∘ fillCache = fillCache := funext fillCache_fill
  change {svc with
    rateLimit := (svc.rateLimit.map fillServiceRateLimit).map fillServiceRateLimit
    cache := (svc.cache.map fillCache).map fillCache} = fillService svc
  rw [Option.map_map, Option.map_map, hrateLimit, hcache]
  rfl

theorem fillRateLimit_fill (rl : RateLimitConfig) : fillRateLimit (fillRateLimit rl) = fillRateLimit rl := by
  have hbackend : backendOrMemory (fillRateLimit rl) = backendOrMemory rl := by
    by_cases hempty : rl.backend = "" <;> simp [fillRateLimit, backendOrMemory, hempty]
  rw [fillRateLimit, hbackend]
  simp only [fillRateLimit]
  rw [positiveOr_positiveOr (by decide), positiveOr_positiveOr (by decide)]

theorem applyHealthCheckDefaults_fill (hc : HealthCheckConfig) :
    applyHealthCheckDefaults (applyHealthCheckDefaults hc) = applyHealthCheckDefaults hc := by
  by_cases hpath : hc.path = "" <;>
    simp [applyHealthCheckDefaults, hpath, positiveOr_positiveOr (show 0 < 5 * second by decide)]

theorem applyCompressionDefaults_fill (cmp : CompressionConfig) :
    applyCompressionDefaults (applyCompressionDefaults cmp) = applyCompressionDefaults cmp := by
  by_cases h : cmp.enabled = true ∧ cmp.minBytes ≤ 0
  · simp [applyCompressionDefaults, h]
  · simp [applyCompressionDefaults, h]

theorem applyTransportDefaults_fill (t : TransportConfig) :
    applyTransportDefaults (applyTransportDefaults t) = applyTransportDefaults t := by
  simp only [applyTransportDefaults]
  rw [positiveOr_positiveOr (by decide), positiveOr_positiveOr (by decide), positiveOr_positiveOr (by decide),
    positiveOr_positiveOr (by decide), positiveOr_positiveOr (by decide)]

theorem applyTelemetryDefaults_fill (t : TelemetryConfig) :
    applyTelemetryDefaults (applyTelemetryDefaults t) = applyTelemetryDefaults t := by
  simp only [applyTelemetryDefaults]
  rw [positiveOr_positiveOr (by decide), positiveOr_positiveOr (by decide), positiveOr_positiveOr (by decide)]

/-- There is nothing left to fill in. -/
theorem fill_fill (cfg : GatewayConfig) : fill (fill cfg) = fill cfg := by
  have hservices : (cfg.services.map fillService).map fillService = cfg.services.map fillService := by
    rw [List.map_map]
    exact List.map_congr_left fun svc _ => fillService_fill svc
  have hrateLimit : (cfg.rateLimit.map fillRateLimit).map fillRateLimit = cfg.rateLimit.map fillRateLimit := by
    cases cfg.rateLimit with
    | none => rfl
    | some rl => exact congrArg some (fillRateLimit_fill rl)
  simp only [fill, applyServerLimitDefaults]
  rw [hservices, hrateLimit, applyHealthCheckDefaults_fill, applyCompressionDefaults_fill, applyTransportDefaults_fill,
    applyTelemetryDefaults_fill, positiveOr_positiveOr (by decide), positiveOr_positiveOr (by decide)]

end Filled

section Kept

/-- A positive number stays. -/
def KeptNumber (v v' : Int) : Prop := 0 < v → v' = v

/-- A text that is there stays. -/
def KeptText (s s' : String) : Prop := s ≠ "" → s' = s

structure KeptServiceRateLimit (rl rl' : ServiceRateLimitConfig) : Prop where
  rate : rl'.rate = rl.rate
  burst : rl'.burst = rl.burst
  keyBy : KeptText rl.keyBy rl'.keyBy

structure KeptCache (cc cc' : ServiceCacheConfig) : Prop where
  ttl : KeptNumber cc.ttl cc'.ttl
  maxEntries : KeptNumber cc.maxEntries cc'.maxEntries
  maxBytes : KeptNumber cc.maxBytes cc'.maxBytes

structure KeptService (svc svc' : ServiceConfig) : Prop where
  name : svc'.name = svc.name
  pathPrefix : svc'.pathPrefix = svc.pathPrefix
  upstreams : svc'.upstreams = svc.upstreams
  auth : svc'.auth = svc.auth
  requiredRoles : svc'.requiredRoles = svc.requiredRoles
  rateLimit : Option.Rel KeptServiceRateLimit svc.rateLimit svc'.rateLimit
  cache : Option.Rel KeptCache svc.cache svc'.cache

structure KeptRateLimit (rl rl' : RateLimitConfig) : Prop where
  backend : KeptText rl.backend rl'.backend
  rate : rl'.rate = rl.rate
  burst : rl'.burst = rl.burst
  cleanupInterval : KeptNumber rl.cleanupInterval rl'.cleanupInterval
  cleanupMaxIdle : KeptNumber rl.cleanupMaxIdle rl'.cleanupMaxIdle
  redis : rl'.redis = rl.redis

structure KeptTransport (t t' : TransportConfig) : Prop where
  maxIdleConns : KeptNumber t.maxIdleConns t'.maxIdleConns
  maxIdleConnsPerHost : KeptNumber t.maxIdleConnsPerHost t'.maxIdleConnsPerHost
  idleConnTimeout : KeptNumber t.idleConnTimeout t'.idleConnTimeout
  dialTimeout : KeptNumber t.dialTimeout t'.dialTimeout
  tlsHandshakeTimeout : KeptNumber t.tlsHandshakeTimeout t'.tlsHandshakeTimeout

structure KeptTelemetry (t t' : TelemetryConfig) : Prop where
  metricInterval : KeptNumber t.metricInterval t'.metricInterval
  traceBatchTimeout : KeptNumber t.traceBatchTimeout t'.traceBatchTimeout
  logBatchTimeout : KeptNumber t.logBatchTimeout t'.logBatchTimeout

/-- Every field that has a valid value keeps it. -/
structure Kept (cfg cfg' : GatewayConfig) : Prop where
  maxBodyBytes : KeptNumber cfg.maxBodyBytes cfg'.maxBodyBytes
  maxHeaderBytes : KeptNumber cfg.maxHeaderBytes cfg'.maxHeaderBytes
  maxInFlight : cfg'.maxInFlight = cfg.maxInFlight
  compressionEnabled : cfg'.compression.enabled = cfg.compression.enabled
  compressionMinBytes : cfg.compression.enabled = false ∨ 0 < cfg.compression.minBytes →
    cfg'.compression.minBytes = cfg.compression.minBytes
  rateLimit : Option.Rel KeptRateLimit cfg.rateLimit cfg'.rateLimit
  healthInterval : KeptNumber cfg.healthCheck.interval cfg'.healthCheck.interval
  healthPath : KeptText cfg.healthCheck.path cfg'.healthCheck.path
  circuitBreaker : cfg'.circuitBreaker = cfg.circuitBreaker
  transport : KeptTransport cfg.transport cfg'.transport
  telemetry : KeptTelemetry cfg.telemetry cfg'.telemetry
  services : List.Forall₂ KeptService cfg.services cfg'.services
  jwtPublicKey : cfg'.jwtPublicKey = cfg.jwtPublicKey

theorem keptText_ite {s d : String} : KeptText s (if s = "" then d else s) := fun hne => if_neg hne

theorem rel_map {α : Type} {r : α → α → Prop} {f : α → α} (h : ∀ a, r a (f a)) (x : Option α) :
    Option.Rel r x (x.map f) := by
  cases x with
  | none => exact .none
  | some a => exact .some (h a)

theorem kept_fillService (svc : ServiceConfig) : KeptService svc (fillService svc) where
  name := rfl
  pathPrefix := rfl
  upstreams := rfl
  auth := rfl
  requiredRoles := rfl
  rateLimit := rel_map (f := fillServiceRateLimit) (fun _ => ⟨rfl, rfl, keptText_ite⟩) _
  cache := rel_map (f := fillCache) (fun _ => ⟨positiveOr_of_pos, positiveOr_of_pos, positiveOr_of_pos⟩) _

theorem kept_fill (cfg : GatewayConfig) : Kept cfg (fill cfg) where
  maxBodyBytes := positiveOr_of_pos
  maxHeaderBytes := positiveOr_of_pos
  maxInFlight := rfl
  compressionEnabled := rfl
  compressionMinBytes := by
    intro hvalid
    refine if_neg ?_
    rintro ⟨henabled, hle⟩
    rcases hvalid with hoff | hpos
    · exact absurd (hoff.symm.trans henabled) Bool.false_ne_true
    · exact absurd hpos (not_lt.mpr hle)
  rateLimit := rel_map (f := fillRateLimit)
    (fun _ => ⟨keptText_ite, rfl, rfl, positiveOr_of_pos, positiveOr_of_pos, rfl⟩) _
  healthInterval := positiveOr_of_pos
  healthPath := keptText_ite
  circuitBreaker := rfl
  transport := ⟨positiveOr_of_pos, positiveOr_of_pos, positiveOr_of_pos, positiveOr_of_pos, positiveOr_of_pos⟩
  telemetry := ⟨positiveOr_of_pos, positiveOr_of_pos, positiveOr_of_pos⟩
  services := List.forall₂_map_right_iff.mpr (List.forall₂_same.mpr fun svc _ => kept_fillService svc)
  jwtPublicKey := rfl

end Kept

section Returned
variable {cfg cfg' : GatewayConfig}

theorem validate_wellFormed (h : validate cfg = .ok cfg') : WellFormed cfg' := by
  obtain ⟨hwf, rfl⟩ := validate_eq_ok.mp h
  exact wellFormed_fill hwf

theorem fillRateLimit_positive {rl : RateLimitConfig} (h : WellFormedRateLimit rl) :
    PositiveRateLimit (fillRateLimit rl) :=
  ⟨h.rate, h.burst, positiveOr_pos (by decide) _, positiveOr_pos (by decide) _⟩

/-- Every rate limit of an accepted configuration, global or of a service, is positive in all
its parts. -/
theorem validate_positive (h : validate cfg = .ok cfg') :
    (∀ rl, cfg'.rateLimit = some rl → PositiveRateLimit rl) ∧
      ∀ svc ∈ cfg'.services, ∀ rl, svc.rateLimit = some rl → PositiveServiceRateLimit rl := by
  constructor
  · intro rl hrl
    obtain ⟨hwf, rfl⟩ := validate_eq_ok.mp h
    obtain ⟨given, hgiven, rfl⟩ := Option.map_eq_some_iff.mp hrl
    exact fillRateLimit_positive (hwf.rateLimit given hgiven)
  · intro svc hsvc rl hrl
    have hwf := ((validate_wellFormed h).services svc hsvc).rateLimit rl hrl
    exact ⟨hwf.rate, hwf.burst⟩

end Returned

end ApiGateway.WellFormedConfig
