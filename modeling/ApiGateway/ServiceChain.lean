import ApiGateway.Auth
import ApiGateway.CacheFlights
import ApiGateway.CompressedCache
import ApiGateway.ProxyHandler
import ApiGateway.RedisExpiry
import ApiGateway.ServiceLimiter

/-!
# The chain of a service

`buildRouter` of `cmd/gateway/server.go` mounts the middlewares that every route has and, for
each service, those its options ask for, around `http.StripPrefix` and the proxy handler. A
mounted chain is the list of its middlewares from the outside in. A request walks along the
list; each middleware answers it or lets it on, and any other request may take its steps in
between. Inside `Cache` a request takes the steps of the interleaved cache model, and the proxy
handler is the machine of its breakers.

What lies outside the repository enters in two ways. `World` has the libraries: key files,
token verification (which looks at the clock, for tokens that expire), case tables, hashes,
the encoders, and what Redis computes for a run of the limiter's script, however it rounds.
`Readings` is what a step reads: the clock, a random identifier, the answer of Redis. Other routes
take and give back slots of the shared semaphore, the memory limiter is swept and other gateways
write to Redis, at any time. Requests are those that `chi` routes to the service; a method it does
not know never gets that far.
-/

namespace ApiGateway.ServiceChain

open Strings Http Config Auth Fallible ServiceLimiter CacheControl Compress CompressedCache
set_option autoImplicit false

structure World (Key : Type) where
  newMetrics : Except String Unit
  loadPublicKey : String → Except String Key
  ping : Except String Unit
  registerUpstreamHealth : Except String Unit
  probe : Except String Unit
  parseAndValidateToken : Key → Int → Verifier
  script : RedisLimiter.Script
  table : CaseTable
  sum : List UInt8 → String
  codec : Codec
  splitHost : String → Option String
  encode : List (String × String) → List UInt8

inductive Middleware (Key : Type) where
  | recoverer
  | requestID
  | logger
  | maxBody (limit : Int)
  | metrics
  | tracing
  | concurrencyLimit (limit : Int)
  | jwtAuth (publicKey : Key)
  | requireAnyRole (roles : List String)
  | rateLimit (keyFunc : KeyFunc)
  | cache
  | compress (minSize : Int)

/-- What is registered for a service. -/
structure Service (Key : Type) where
  config : ServiceConfig
  maxInFlight : Int
  stack : List (Middleware Key)
  limiter : Option (Backend × KeyFunc)
  handler : ProxyHandler.Handler

variable {Key : Type}

def routerStack (cfg : GatewayConfig) : List (Middleware Key) :=
  [.recoverer, .requestID, .logger, .maxBody cfg.maxBodyBytes, .metrics, .tracing,
    .concurrencyLimit cfg.maxInFlight]

def serviceStack (cfg : GatewayConfig) (publicKey : Option Key) (svc : ServiceConfig)
    (limiter : Option (Backend × KeyFunc)) : List (Middleware Key) :=
  (if svc.auth then publicKey.toList.map .jwtAuth else []) ++
  (if svc.requiredRoles ≠ [] then [.requireAnyRole svc.requiredRoles] else []) ++
  (limiter.toList.map fun l => .rateLimit l.2) ++
  (svc.cache.toList.map fun _ => .cache) ++
  (if cfg.compression.enabled then [.compress cfg.compression.minBytes] else [])

/-- What `buildServiceHandler` makes for each upstream. Without a configured breaker the threshold is out
of reach. -/
def newServiceBreaker (cfg : GatewayConfig) : CircuitBreaker.Breaker :=
  match cfg.circuitBreaker with
  | some cb => CircuitBreaker.newBreaker cb.maxFailures.toNat cb.timeout
  | none => CircuitBreaker.newBreaker 9223372036854775807 (60 * minute)

def buildServiceHandler (svc : ServiceConfig) (cfg : GatewayConfig) : ProxyHandler.Handler :=
  ⟨fun u => if u ∈ svc.upstreams then some (newServiceBreaker cfg) else none, ∅, []⟩

def buildService (cfg : GatewayConfig) (publicKey : Option Key) (svc : ServiceConfig) :
    Except Errorf (Service Key) :=
  if svc.auth = true ∧ publicKey.isNone = true then
    .error ⟨"service %q requires auth but JWT_PUBLIC_KEY_PATH is not set", [.str svc.name]⟩
  else
    let limiter := buildServiceLimiter svc cfg (buildRedisClient cfg)
    .ok ⟨svc, cfg.maxInFlight, routerStack cfg ++ serviceStack cfg publicKey svc limiter, limiter,
      buildServiceHandler svc cfg⟩

def buildServices (cfg : GatewayConfig) (publicKey : Option Key) :
    List ServiceConfig → Except Errorf (List (Service Key))
  | [] => .ok []
  | svc :: rest => do
    let built ← buildService cfg publicKey svc
    let others ← buildServices cfg publicKey rest
    return built :: others

/-- `fmt.Errorf(format, err)` for an error of a library. -/
def wrap {α : Type} (format : String) (x : Except String α) : Except Errorf α :=
  x.mapError fun err => ⟨format, [.str err]⟩

def publicKeyOf (w : World Key) (cfg : GatewayConfig) : Except Errorf (Option Key) :=
  if cfg.jwtPublicKey = "" then .ok none
  else (wrap "loading JWT public key: %w" (w.loadPublicKey cfg.jwtPublicKey)).map some

def pingRedis (w : World Key) (cfg : GatewayConfig) : Except Errorf Unit :=
  if buildRedisClient cfg then wrap "building redis client: %w" w.ping else .ok ()

def buildRouter (w : World Key) (cfg : GatewayConfig) : Except Errorf (List (Service Key)) := do
  wrap "creating metrics: %w" w.newMetrics
  let publicKey ← publicKeyOf w cfg
  pingRedis w cfg
  let services ← buildServices cfg publicKey cfg.services
  wrap "registering upstream health: %w" w.registerUpstreamHealth
  wrap "startup probe: %w" w.probe
  return services

/-- What became of the script that a call of `Allow` sent to Redis, and whether Redis had
dropped the key. -/
inductive RedisCall where
  | answered (gone : Bool)
  | unanswered (gone : Bool) (err : String)
  | failed (err : String)

structure Readings where
  now : Int
  uuid : Option String
  redis : RedisCall

structure Limits where
  backend : Backend
  redis : String → Option RedisLimiter.Key

def Limits.allow (script : RedisLimiter.Script) (l : Limits) (key : String) (now : Int) (call : RedisCall) :
    Limits × Except String Bool :=
  match l.backend with
  | .memory ml => ({l with backend := .memory (ml.allow key now).1}, .ok (ml.allow key now).2)
  | .redis keyPrefix rate burst =>
    let run (gone : Bool) := script rate burst.toNat (l.redis (keyPrefix ++ key)) ⟨now / 1000000, gone⟩
    let ran (gone : Bool) : Limits :=
      {l with redis := Function.update l.redis (keyPrefix ++ key) (some (run gone).2)}
    match call with
    | .answered gone => (ran gone, .ok (run gone).1)
    | .unanswered gone err => (ran gone, .error err)
    | .failed err => (l, .error err)

def Limits.cleanup (l : Limits) (now : Int) : Limits :=
  match l.backend with
  | .memory ml => {l with backend := .memory (ml.cleanup now)}
  | .redis _ _ _ => l

def keyByIP (w : World Key) (r : Request) : String := (w.splitHost r.remoteAddr).getD r.remoteAddr

def keyByJWTSub (w : World Key) (r : Request) (claims : Option Claims) : String :=
  match claims with
  | some claims => if claims.subject ≠ "" then claims.subject else keyByIP w r
  | none => keyByIP w r

def clientKey (w : World Key) (r : Request) (claims : Option Claims) : KeyFunc → String
  | .keyByIP => keyByIP w r
  | .keyByJWTSub => keyByJWTSub w r claims

/-- How a request ended: with a bare 500, with an answer of a middleware, with what came from
the handler inside, or by a panic, which `Recoverer` turns into a 500 if nothing was sent. -/
inductive Ending where
  | failed
  | refused (reply : JsonReply) (retryAfter : Option String)
  | served (resp : Response)
  | aborted

def Ending.status : Ending → Int
  | .failed => 500
  | .refused reply _ => reply.status
  | .served resp => resp.status
  | .aborted => 500

inductive Pc where
  | walking
  | cached
  | proxied
  | ended (a : Ending)

/-- A request on its way: what its context and its writer's header hold, the middlewares it has
not got past yet, the one it is at first, and whether it holds a slot. -/
structure Proc (Key : Type) where
  request : Request
  contentLength : Int
  claims : Option Claims
  checkedAt : Option Int
  header : Header
  minSize : Option Int
  todo : List (Middleware Key)
  slot : Bool
  pc : Pc

structure State (Key : Type) where
  slots : Nat
  others : Nat
  limits : Option Limits
  cache : CacheFlights.State
  proxy : ProxyHandler.Handler
  procs : Nat → Option (Proc Key)

/-- What came of a round trip; `cut` if the body broke off while it was copied. -/
inductive RoundTrip where
  | response (u : Upstream)
  | cut (u : Upstream)
  | failed (err : ProxyHandler.RoundTripError)

def RoundTrip.outcome : RoundTrip → ProxyHandler.Outcome
  | .response u => .response u.status.toNat
  | .cut u => .response u.status.toNat
  | .failed err => .failed err

inductive Action where
  | pass (x : Readings)
  | cache (e : CacheFlights.Event)
  | next
  | write
  | serve (next : Option String) (now : Int)
  | roundTrip (result : RoundTrip) (now : Int)
  | leave

inductive Event where
  | arrive (i : Nat) (r : Request) (contentLength : Int)
  | own (i : Nat) (a : Action)
  | occupy
  | release
  | cleanup (now : Int)
  | redis (key : String) (stored : Option RedisLimiter.Key)

def xRequestID : FieldName := ⟨"X-Request-Id", by decide, by decide⟩

def xContentTypeOptions : FieldName := ⟨"X-Content-Type-Options", by decide, by decide⟩

def start (svc : Service Key) (redis : String → Option RedisLimiter.Key) : State Key where
  slots := 0
  others := 0
  limits := svc.limiter.map fun l => ⟨l.1, redis⟩
  cache := CacheFlights.start ((svc.config.cache.map ServiceCacheConfig.maxEntries).getD 0)
    ((svc.config.cache.map ServiceCacheConfig.maxBytes).getD 0)
  proxy := svc.handler
  procs := fun _ => none

def arrived (svc : Service Key) (r : Request) (contentLength : Int) : Proc Key :=
  ⟨r, contentLength, none, none, .empty, none, svc.stack, false, .walking⟩

def put (s : State Key) (i : Nat) (p : Proc Key) : State Key :=
  {s with procs := Function.update s.procs i (some p)}

def refuse (p : Proc Key) (reply : JsonReply) (retryAfter : Option String) : Proc Key :=
  {p with pc := .ended (.refused reply retryAfter)}

def cacheConfig (w : World Key) (svc : Service Key) : CacheConfig :=
  ⟨w.table, (svc.config.cache.map ServiceCacheConfig.ttl).getD 0, w.sum⟩

/-- The middleware `m` meets the request, with `rest` inside it. -/
def encounter (w : World Key) (svc : Service Key) (s : State Key) (i : Nat) (p : Proc Key) (x : Readings)
    (rest : List (Middleware Key)) : Middleware Key → Option (State Key)
  | .recoverer => some (put s i {p with todo := rest})
  | .requestID =>
    match x.uuid with
    | none => some (put s i {p with pc := .ended .failed})
    | some uuid => some (put s i {p with todo := rest, header := p.header.set xRequestID uuid})
  | .logger => some (put s i {p with todo := rest})
  | .maxBody limit =>
    if p.contentLength > limit then
      some (put s i (refuse p (jsonReply 413 [("error", "request body too large")]) none))
    else some (put s i {p with todo := rest})
  | .metrics => some (put s i {p with todo := rest})
  | .tracing => some (put s i {p with todo := rest})
  | .concurrencyLimit limit =>
    if limit ≤ 0 then some (put s i {p with todo := rest})
    else if (s.slots : Int) < limit then
      some (put {s with slots := s.slots + 1} i {p with todo := rest, slot := true})
    else some (put s i (refuse p (jsonReply 503 [("error", "server overloaded")]) (some "1")))
  | .jwtAuth publicKey =>
    match jwtAuth (w.parseAndValidateToken publicKey x.now) p.request with
    | .error reply => some (put s i (refuse p reply none))
    | .ok claims => some (put s i {p with todo := rest, claims := some claims, checkedAt := some x.now})
  | .requireAnyRole roles =>
    match requireAnyRole roles p.claims with
    | .error reply => some (put s i (refuse p reply none))
    | .ok () => some (put s i {p with todo := rest})
  | .rateLimit keyFunc =>
    match s.limits with
    | none => none
    | some l =>
      let (l', answer) := l.allow w.script (clientKey w p.request p.claims keyFunc) x.now x.redis
      match answer with
      | .ok false => some (put {s with limits := some l'} i
          (refuse p (jsonReply 429 [("error", "rate limit exceeded")]) (some "1")))
      | _ => some (put {s with limits := some l'} i {p with todo := rest})
  | .cache =>
    (CacheFlights.step (cacheConfig w svc) s.cache (.arrive i p.request)).map fun c =>
      put {s with cache := c} i {p with todo := rest, pc := .cached}
  | .compress minSize => some (put s i {p with todo := rest, minSize := some minSize})

/-- What is written to `w₀` when the handler inside performs `ops`. -/
def respond (w : World Key) (p : Proc Key) (w₀ : Response) (ops : List Op) : Response :=
  match p.minSize with
  | some minSize => compress w.codec captureWriter minSize p.request ops w₀
  | none => performAll captureWriter w₀ ops

/-- The handler inside returns: to the request that leads a call of the cache, or to the client. -/
def answer (w : World Key) (svc : Service Key) (s : State Key) (i : Nat) (p : Proc Key) (ops : List Op) :
    Option (State Key) :=
  match (s.cache.procs i).map CacheFlights.Proc.pc with
  | some .leading =>
    (CacheFlights.step (cacheConfig w svc) s.cache (.answer i (respond w p ⟨0, .empty, []⟩ ops))).map
      fun c => put {s with cache := c} i {p with pc := .cached}
  | _ => some (put s i {p with pc := .ended (.served (respond w p ⟨0, p.header, []⟩ ops))})

def fail (w : World Key) (svc : Service Key) (s : State Key) (i : Nat) (p : Proc Key) :
    Option (State Key) :=
  match (s.cache.procs i).map CacheFlights.Proc.pc with
  | some .leading =>
    (CacheFlights.step (cacheConfig w svc) s.cache (.panic i)).map fun c =>
      put {s with cache := c} i {p with pc := .ended .aborted}
  | _ => some (put s i {p with pc := .ended .aborted})

/-- `http.StripPrefix`. -/
def stripPrefix (start : String) (r : Request) : Option Request :=
  let path := trimPrefix r.url.path start
  let rawPath := trimPrefix r.url.rawPath start
  if start = "" then some r
  else if path.length < r.url.path.length ∧
      (r.url.rawPath = "" ∨ rawPath.length < r.url.rawPath.length) then
    some {r with url := {r.url with path := path, rawPath := rawPath}}
  else none

def jsonOps (w : World Key) (reply : JsonReply) : List Op :=
  answerOps [.set contentType reply.contentType] reply.status [w.encode reply.msg]

def notFoundOps : List Op :=
  answerOps [.del contentLength, .set contentType "text/plain; charset=utf-8",
    .set xContentTypeOptions "nosniff"] 404 [utf8 "404 page not found\n"]

/-- The request a step inside the cache belongs to; how a request gets into the cache and what
the handler answers there is not such a step. -/
def insideCache : CacheFlights.Event → Option Nat
  | .headersFor i => some i
  | .get i _ => some i
  | .enter i => some i
  | .record i => some i
  | .set i _ => some i
  | .finish i => some i
  | .reply i => some i
  | .arrive _ _ => none
  | .answer _ _ => none
  | .panic _ => none

def serve (w : World Key) (svc : Service Key) (s : State Key) (i : Nat) (p : Proc Key)
    (next : Option String) (now : Int) : Option (State Key) :=
  match stripPrefix svc.config.pathPrefix p.request with
  | none => answer w svc s i p notFoundOps
  | some _ =>
    (ProxyHandler.step s.proxy (.arrive i next now)).bind fun h =>
      match (ProxyHandler.serveHTTP s.proxy next now).2 with
      | .proxied _ => some (put {s with proxy := h} i {p with pc := .proxied})
      | .rejected reply => answer w svc {s with proxy := h} i p (jsonOps w reply)
      | .panicked _ => fail w svc {s with proxy := h} i p

def roundTrip (w : World Key) (svc : Service Key) (s : State Key) (i : Nat) (p : Proc Key)
    (result : RoundTrip) (now : Int) : Option (State Key) :=
  (s.proxy.inFlight.lookup i).bind fun target =>
    (ProxyHandler.step s.proxy (.finish i result.outcome now)).bind fun h =>
      match result with
      | .response u => answer w svc {s with proxy := h} i p (Inner.proxied u).ops
      | .cut _ => fail w svc {s with proxy := h} i p
      | .failed err =>
        match ProxyHandler.errorHandler s.proxy target err now with
        | .ok (_, reply) => answer w svc {s with proxy := h} i p (jsonOps w reply)
        | .error _ => fail w svc {s with proxy := h} i p

/-- One step of the request `i`, which is where `p` says. -/
def act (w : World Key) (svc : Service Key) (s : State Key) (i : Nat) (p : Proc Key) :
    Action → Option (State Key)
  | .pass x =>
    match p.pc, p.todo with
    | .walking, m :: rest => encounter w svc s i p x rest m
    | _, _ => none
  | .cache e =>
    match p.pc with
    | .cached =>
      if insideCache e = some i then
        (CacheFlights.step (cacheConfig w svc) s.cache e).map fun c => {s with cache := c}
      else none
    | _ => none
  | .next =>
    match p.pc, (s.cache.procs i).map CacheFlights.Proc.pc with
    | .cached, some .passed => some (put s i {p with pc := .walking})
    | .cached, some .leading => some (put s i {p with pc := .walking})
    | _, _ => none
  | .write =>
    match p.pc, (s.cache.procs i).map CacheFlights.Proc.pc with
    | .cached, some (.replied res) =>
      ((CacheServe.Reply.filled res).response p.header p.request).map fun resp =>
        put s i {p with pc := .ended (.served resp)}
    | .cached, some .panicked => some (put s i {p with pc := .ended .aborted})
    | _, _ => none
  | .serve next now =>
    match p.pc, p.todo with
    | .walking, [] => serve w svc s i p next now
    | _, _ => none
  | .roundTrip result now =>
    match p.pc with
    | .proxied => roundTrip w svc s i p result now
    | _ => none
  | .leave =>
    match p.pc, p.slot with
    | .ended _, true => some (put {s with slots := s.slots - 1} i {p with slot := false})
    | _, _ => none

def step (w : World Key) (svc : Service Key) (s : State Key) : Event → Option (State Key)
  | .arrive i r contentLength =>
    match s.procs i with
    | none => some (put s i (arrived svc r contentLength))
    | some _ => none
  | .own i a => (s.procs i).bind fun p => act w svc s i p a
  | .occupy =>
    if 0 < svc.maxInFlight ∧ (s.slots : Int) < svc.maxInFlight then
      some {s with slots := s.slots + 1, others := s.others + 1}
    else none
  | .release =>
    if 0 < s.others then some {s with slots := s.slots - 1, others := s.others - 1} else none
  | .cleanup now => some {s with limits := s.limits.map fun l => l.cleanup now}
  | .redis key stored =>
    some {s with limits := s.limits.map fun l => {l with redis := Function.update l.redis key stored}}

end ApiGateway.ServiceChain
