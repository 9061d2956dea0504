import ApiGateway.GatewayRuns

/-!
# Several gateways and one Redis

Gateways that run one configuration share one Redis, and with the Redis backend the limiters of all
their services keep their buckets there. A step of the fleet is a step of one gateway on the store
as all of them have left it. What Redis computes for a run of the script is not looked into; that
it makes one run after the other is what the steps say.

The key of a client is written by the calls for that client alone, if no other service's key can be
the same, which the names of the services decide. Then a client of a service has one bucket for the
whole fleet: whatever all gateways do in whatever order, its requests are let on as one bucket would
that serves their calls one after the other.
-/

namespace ApiGateway.Fleet

open Config Runs ServiceLimiter ServiceChain LimiterCalls RedisKeys GatewayRuns
open ProtectedService (buildRouter_forall sampleWorld bearer passes accounts)
set_option autoImplicit false

variable {Key : Type}

/-- The store that all share, and each of `n` gateways. -/
structure State (gw : Gateway Key) (n : Nat) where
  redis : String → Option RedisLimiter.Key
  gateways : Fin n → GatewayRuns.State gw

structure Event (gw : Gateway Key) (n : Nat) where
  gateway : Fin n
  event : GatewayRuns.Event gw

section Machine
variable {gw : Gateway Key} {n : Nat}

/-- The steps of a gateway; nobody else writes to Redis. -/
def internal : GatewayRuns.Event gw → Bool
  | .service _ _ => true
  | .enter _ => true
  | .leave => true
  | .redis _ _ => false

/-- A gateway with what all have left in the store. -/
def seen (s : State gw n) (g : Fin n) : GatewayRuns.State gw := {s.gateways g with redis := s.redis}

variable (gw n)

def step (s : State gw n) (e : Event gw n) : Option (State gw n) :=
  if internal e.event then
    (GatewayRuns.step gw (seen s e.gateway) e.event).map fun t =>
      ⟨t.redis, Function.update s.gateways e.gateway t⟩
  else none

def start (redis : String → Option RedisLimiter.Key) : State gw n := ⟨redis, fun _ => GatewayRuns.start gw redis⟩

variable {gw n}

/-- What is seen of a step at the service `k`, if it is a step of this service at some gateway. -/
def observed {β : Type} (k : Fin gw.services.length)
    (f : ServiceChain.State Key → ServiceChain.Event → Option β) (s : State gw n) (e : Event gw n) : Option β :=
  (eventOf k e.event).bind (f (view (seen s e.gateway) k))

end Machine

section Steps
variable {gw : Gateway Key} {n : Nat} {s t : State gw n} {e : Event gw n} {k : Fin gw.services.length}
  {keyPrefix client : String} {rate : ℚ} {burst : ℤ}

/-- What a step of the fleet does to the client's key and to the client is what one bucket does for
the call that the step makes, if it makes one. -/
structure Served (k : Fin gw.services.length) (keyPrefix client : String) (rate : ℚ) (burst : ℕ)
    (s : State gw n) (e : Event gw n) (t : State gw n) : Prop where
  key : exec (serveCall gw.world.script rate burst) (s.redis (redisKey keyPrefix client))
    (observed k (callFor gw.world client) s e).toList = some (t.redis (redisKey keyPrefix client))
  verdicts : (observed k (verdictFor gw.world (gw.services.get k) client) s e).toList =
    outputs (serveCall gw.world.script rate burst) (ruling gw.world.script rate burst)
      (s.redis (redisKey keyPrefix client)) (observed k (callFor gw.world client) s e).toList

section Own
variable {g : Fin n} {own : ServiceChain.Event} {v : ServiceChain.State Key}

end Own

end Steps

section Built
variable {gw : Gateway Key} {cfg : GatewayConfig} {n : Nat} {k : Fin gw.services.length} {keyPrefix : String}
  {rate : ℚ} {burst : ℤ} {keyFunc : KeyFunc}

end Built

/-- Two services, the first of which lets each token's subject on once a second. -/
def oncePerSecond : GatewayConfig :=
  {sharedRedis "users" "orders" with
    services :=
      [{accounts with name := "users", pathPrefix := "/users", rateLimit := some ⟨1, 1, "jwt_sub"⟩},
       {accounts with name := "orders", pathPrefix := "/orders"}]}

def replica : Gateway Unit where
  world := sampleWorld
  config := oncePerSecond
  services := (buildRouter sampleWorld oncePerSecond).toOption.getD []
  built := rfl
  route r := if r.host = "orders" then some ⟨1, by decide⟩ else some ⟨0, by decide⟩

def users : Fin replica.services.length := ⟨0, by decide⟩

def orders : Fin replica.services.length := ⟨1, by decide⟩

/-- A request of the service that gets as far as it can before the handler. -/
def asking (g : Fin 2) (k : Fin replica.services.length) (i : Nat) (r : Http.Request) : List (Event replica 2) :=
  ⟨g, .service k (.arrive i r 0)⟩ :: (passes i 9).map fun e => ⟨g, .service k e⟩

def limited (g : Fin 2) (k : Fin replica.services.length) (i : Nat) (call : RedisCall) : Event replica 2 :=
  ⟨g, .service k (.own i (.pass ⟨0, some "id", call⟩))⟩

end ApiGateway.Fleet
