import ApiGateway.ServiceChain
import ApiGateway.Tables
import Mathlib.Data.List.Infix

/-!
# A service with authentication

Which requests get past `JWTAuth` and `RequireAnyRole` of a mounted service, and what the others
get and leave behind. The one fact about the options is that the middlewares stand in a fixed
order, each at most once, whatever is left out. A request that has got past a place in that
order has met the middleware there, so what `Cache`, `RateLimit` or the proxy do for it is done
for a request that was let through.

The router's own middlewares come first and know nothing of tokens: they turn a request away, each for
its own reason, before anyone asks whether it is entitled.
-/

namespace ApiGateway.ProtectedService

open Http Config Auth Fallible Runs ServiceLimiter ServiceChain Tables
set_option autoImplicit false

variable {Key : Type}

/-- The place of a middleware in every chain; `JWTAuth` is at 7, `RequireAnyRole` at 8. -/
def place : Middleware Key → Nat
  | .recoverer => 0
  | .requestID => 1
  | .logger => 2
  | .maxBody _ => 3
  | .metrics => 4
  | .tracing => 5
  | .concurrencyLimit _ => 6
  | .jwtAuth _ => 7
  | .requireAnyRole _ => 8
  | .rateLimit _ => 9
  | .cache => 10
  | .compress _ => 11

/-- Everything the request has still to meet comes after the place. -/
def Past (k : Nat) (p : Proc Key) : Prop := ∀ m ∈ p.todo, k < place m

/-- The request is inside the checks, or what it was answered came from there. -/
def Beyond : Pc → Prop
  | .walking => False
  | .cached => True
  | .proxied => True
  | .ended .failed => False
  | .ended (.refused _ _) => False
  | .ended (.served _) => True
  | .ended .aborted => True

/-- The request was entitled when `JWTAuth` looked at it. -/
def Admitted (w : World Key) (svc : Service Key) (key : Key) (p : Proc Key) : Prop :=
  ∃ now, p.checkedAt = some now ∧ Entitled svc.config (w.parseAndValidateToken key now) p.request

/-- Why a middleware up to the checks answers a request itself, and what: there is no request id, the declared
body is over the limit, all slots are taken, the token does not verify or its claims are not of the right
form, no role is one of the required. -/
inductive Reason (w : World Key) (cfg : GatewayConfig) (svc : Service Key) (key : Key) (s : State Key) (p : Proc Key)
    (x : Readings) : Middleware Key → Ending → Prop
  | noID (h : x.uuid = none) : Reason w cfg svc key s p x .requestID .failed
  | tooLarge (h : cfg.maxBodyBytes < p.contentLength) : Reason w cfg svc key s p x (.maxBody cfg.maxBodyBytes)
    (.refused (jsonReply 413 [("error", "request body too large")]) none)
  | overloaded (hlimit : 0 < cfg.maxInFlight) (h : cfg.maxInFlight ≤ s.slots) :
    Reason w cfg svc key s p x (.concurrencyLimit cfg.maxInFlight)
      (.refused (jsonReply 503 [("error", "server overloaded")]) (some "1"))
  | unauthenticated {reply : JsonReply} (h : jwtAuth (w.parseAndValidateToken key x.now) p.request = .error reply)
    (hstatus : reply.status = 401) : Reason w cfg svc key s p x (.jwtAuth key) (.refused reply none)
  | forbidden {reply : JsonReply} (h : requireAnyRole svc.config.requiredRoles p.claims = .error reply)
    (hstatus : reply.status = 401 ∨ reply.status = 403) :
    Reason w cfg svc key s p x (.requireAnyRole svc.config.requiredRoles) (.refused reply none)

/-- In the run, the request came to a middleware up to the checks that had reason to answer it so. -/
def TurnedAway (w : World Key) (cfg : GatewayConfig) (svc : Service Key) (key : Key) (s₀ : State Key) (es : List Event)
    (i : Nat) (a : Ending) : Prop :=
  ∃ before x after s p m rest, es = before ++ .own i (.pass x) :: after ∧ exec (step w svc) s₀ before = some s ∧
    s.procs i = some p ∧ p.pc = .walking ∧ p.todo = m :: rest ∧ Reason w cfg svc key s p x m a

structure SameShared (s t : State Key) : Prop where
  limits : t.limits = s.limits
  cache : t.cache = s.cache
  proxy : t.proxy = s.proxy

/-- What is mounted for a service with authentication. -/
structure Mounted (w : World Key) (cfg : GatewayConfig) (svc : Service Key) (key : Key) : Prop where
  loaded : w.loadPublicKey cfg.jwtPublicKey = .ok key
  auth : .jwtAuth key ∈ svc.stack
  onlyKey : ∀ key', .jwtAuth key' ∈ svc.stack → key' = key
  roles : svc.config.requiredRoles ≠ [] → .requireAnyRole svc.config.requiredRoles ∈ svc.stack
  onlyRoles : ∀ roles, .requireAnyRole roles ∈ svc.stack → roles = svc.config.requiredRoles
  maxBody : ∀ limit, .maxBody limit ∈ svc.stack → limit = cfg.maxBodyBytes
  maxInFlight : ∀ limit, .concurrencyLimit limit ∈ svc.stack → limit = cfg.maxInFlight
  sorted : svc.stack.Pairwise fun m m' => place m < place m'

section Built
variable {w : World Key} {cfg : GatewayConfig} {svc : Service Key} {services : List (Service Key)}

theorem wrap_eq_ok {α : Type} {format : String} {x : Except String α} {a : α} :
    wrap format x = .ok a ↔ x = .ok a := by
  cases x with
  | error err => simp [wrap, Except.mapError]
  | ok b => simp [wrap, Except.mapError]

theorem buildServices_forall {publicKey : Option Key} {configs : List ServiceConfig}
    (h : buildServices cfg publicKey configs = .ok services) :
    List.Forall₂ (fun sc svc => buildService cfg publicKey sc = .ok svc) configs services := by
  induction configs generalizing services with
  | nil =>
    cases h
    exact .nil
  | cons sc configs ih =>
    simp only [buildServices, bind_eq_ok] at h
    obtain ⟨built, hbuilt, others, hothers, heq⟩ := h
    cases heq
    exact .cons hbuilt (ih hothers)

/-- The services of a router are those of its configuration, one by one. -/
theorem buildRouter_forall (h : buildRouter w cfg = .ok services) :
    ∃ publicKey, (∀ key, publicKey = some key → w.loadPublicKey cfg.jwtPublicKey = .ok key) ∧
      List.Forall₂ (fun sc svc => buildService cfg publicKey sc = .ok svc) cfg.services services := by
  simp only [buildRouter, bind_eq_ok] at h
  obtain ⟨_, -, publicKey, hkey, _, -, built, hbuilt, _, -, _, -, heq⟩ := h
  cases heq
  refine ⟨publicKey, ?_, buildServices_forall hbuilt⟩
  rintro key rfl
  unfold publicKeyOf at hkey
  split at hkey
  · cases hkey
  · obtain ⟨key', hload, hsome⟩ := map_eq_ok.mp hkey
    cases hsome
    exact wrap_eq_ok.mp hload

theorem buildRouter_mem (h : buildRouter w cfg = .ok services) (hsvc : svc ∈ services) :
    ∃ publicKey, ∃ sc ∈ cfg.services, buildService cfg publicKey sc = .ok svc ∧
      ∀ key, publicKey = some key → w.loadPublicKey cfg.jwtPublicKey = .ok key := by
  obtain ⟨publicKey, hload, hall⟩ := buildRouter_forall h
  obtain ⟨n, hn, rfl⟩ := List.mem_iff_getElem.mp hsvc
  have hn' : n < cfg.services.length := hall.length_eq ▸ hn
  exact ⟨publicKey, cfg.services[n], List.getElem_mem hn', hall.get hn' hn, hload⟩

/-- Whatever is left out, what is mounted stands in the one order. -/
theorem places_sublist (cfg : GatewayConfig) (publicKey : Option Key) (sc : ServiceConfig)
    (limiter : Option (Backend × KeyFunc)) :
    ((routerStack cfg ++ serviceStack cfg publicKey sc limiter).map place).Sublist (List.range 12) := by
  have hjwt : ((if sc.auth then publicKey.toList.map .jwtAuth else [] : List (Middleware Key)).map
      place).Sublist [7] := by
    cases sc.auth <;> cases publicKey <;> simp [place]
  have hroles : ((if sc.requiredRoles ≠ [] then [.requireAnyRole sc.requiredRoles] else [] :
      List (Middleware Key)).map place).Sublist [8] := by
    split <;> simp [place]
  have hlimiter : ((limiter.toList.map fun l => (.rateLimit l.2 : Middleware Key)).map place).Sublist [9] := by
    cases limiter <;> simp [place]
  have hcache : ((sc.cache.toList.map fun _ => (.cache : Middleware Key)).map place).Sublist [10] := by
    cases sc.cache <;> simp [place]
  have hcompress : ((if cfg.compression.enabled then [.compress cfg.compression.minBytes] else [] :
      List (Middleware Key)).map place).Sublist [11] := by
    split <;> simp [place]
  have hservice := (((hjwt.append hroles).append hlimiter).append hcache).append hcompress
  simp only [← List.map_append] at hservice
  rw [List.map_append]
  exact (List.Sublist.refl [0, 1, 2, 3, 4, 5, 6]).append hservice

theorem stack_ordered (cfg : GatewayConfig) (publicKey : Option Key) (sc : ServiceConfig)
    (limiter : Option (Backend × KeyFunc)) :
    (routerStack cfg ++ serviceStack cfg publicKey sc limiter).Pairwise fun m m' => place m < place m' :=
  List.pairwise_map.mp (List.Pairwise.sublist (places_sublist cfg publicKey sc limiter) List.pairwise_lt_range)

theorem place_lt_of_sorted {stack : List (Middleware Key)} (hs : stack.Pairwise fun m m' => place m < place m')
    {m m' : Middleware Key} {rest : List (Middleware Key)} (h : m :: rest <:+ stack) (hin : m' ∈ rest) :
    place m < place m' :=
  List.rel_of_pairwise_cons (hs.sublist h.sublist) hin

theorem mounted_of_built (h : buildRouter w cfg = .ok services) (hsvc : svc ∈ services)
    (hauth : svc.config.auth = true) : ∃ key, Mounted w cfg svc key := by
  obtain ⟨publicKey, sc, -, hsc, hload⟩ := buildRouter_mem h hsvc
  simp only [buildService, ite_error_eq_ok, Except.ok.injEq] at hsc
  obtain ⟨hkey, rfl⟩ := hsc
  change sc.auth = true at hauth
  cases publicKey with
  | none => exact absurd ⟨hauth, rfl⟩ hkey
  | some key =>
    refine ⟨key, hload key rfl, ?_, ?_, ?_, ?_, ?_, ?_, stack_ordered cfg (some key) sc _⟩
    · simp [serviceStack, hauth]
    · intro key' hin
      simpa [routerStack, serviceStack, hauth] using hin
    · intro hne
      simp [serviceStack, hne]
    · intro roles hin
      have hboth : sc.requiredRoles ≠ [] ∧ roles = sc.requiredRoles := by
        simpa [routerStack, serviceStack, hauth] using hin
      exact hboth.2
    · intro limit hin
      simpa [routerStack, serviceStack, hauth] using hin
    · intro limit hin
      simpa [routerStack, serviceStack, hauth] using hin

end Built

section Moves
variable {w : World Key} {svc : Service Key} {s t : State Key} {i : Nat} {p p' : Proc Key}

structure Keeps (p p' : Proc Key) : Prop where
  request : p'.request = p.request
  claims : p'.claims = p.claims
  checkedAt : p'.checkedAt = p.checkedAt

theorem keeps_refl (p : Proc Key) : Keeps p p := ⟨rfl, rfl, rfl⟩

/-- What a step, with the clock at `now`, does to the request that takes it. -/
inductive Moves (w : World Key) (now : Int) (p p' : Proc Key) : Prop
  | outer {m : Middleware Key} {rest : List (Middleware Key)} (hp : p.todo = m :: rest)
    (hm : place m < 7) (hk : Keeps p p') (hpc : p'.pc = .walking) (hrest : p'.todo = rest)
  | turned {m : Middleware Key} {rest : List (Middleware Key)} {a : Ending} (hw : p.pc = .walking)
    (hp : p.todo = m :: rest) (hm : place m ≤ 8) (hk : Keeps p p') (htodo : p'.todo = p.todo)
    (hpc : p'.pc = .ended a) (hb : ¬ Beyond (.ended a))
  | authenticated {key : Key} {rest : List (Middleware Key)} {c : Claims}
    (hp : p.todo = .jwtAuth key :: rest)
    (hc : jwtAuth (w.parseAndValidateToken key now) p.request = .ok c) (hr : p'.request = p.request)
    (hclaims : p'.claims = some c) (hnow : p'.checkedAt = some now) (hpc : p'.pc = .walking)
    (hrest : p'.todo = rest)
  | role {roles : List String} {rest : List (Middleware Key)}
    (hp : p.todo = .requireAnyRole roles :: rest) (hc : requireAnyRole roles p.claims = .ok ())
    (hk : Keeps p p') (hpc : p'.pc = .walking) (hrest : p'.todo = rest)
  | inner {m : Middleware Key} {rest : List (Middleware Key)} (hp : p.todo = m :: rest)
    (hm : 8 < place m) (hk : Keeps p p') (hrest : p'.todo = rest ∨ p'.todo = p.todo)
  | within (hp : Beyond p.pc ∨ p.todo = []) (hk : Keeps p p') (htodo : p'.todo = p.todo)
  | left {a : Ending} (hp : p.pc = .ended a) (hk : Keeps p p') (htodo : p'.todo = p.todo)
    (hpc : p'.pc = p.pc)

/-- A step inside the checks: the request is where it was in the chain, or has its answer. -/
def Continues (procs : Nat → Option (Proc Key)) (i : Nat) (p : Proc Key) (t : State Key) : Prop :=
  ∃ p', t.procs = Function.update procs i (some p') ∧ Keeps p p' ∧ p'.todo = p.todo

theorem answer_continues {ops : List Compress.Op} (h : answer w svc s i p ops = some t) :
    Continues s.procs i p t := by
  unfold answer at h
  split at h
  · obtain ⟨c, -, rfl⟩ := Option.map_eq_some_iff.mp h
    exact ⟨_, rfl, ⟨rfl, rfl, rfl⟩, rfl⟩
  · cases h
    exact ⟨_, rfl, ⟨rfl, rfl, rfl⟩, rfl⟩

theorem fail_continues (h : fail w svc s i p = some t) : Continues s.procs i p t := by
  unfold fail at h
  split at h
  · obtain ⟨c, -, rfl⟩ := Option.map_eq_some_iff.mp h
    exact ⟨_, rfl, ⟨rfl, rfl, rfl⟩, rfl⟩
  · cases h
    exact ⟨_, rfl, ⟨rfl, rfl, rfl⟩, rfl⟩

theorem serve_continues {next : Option String} {now : Int} (h : serve w svc s i p next now = some t) :
    Continues s.procs i p t := by
  unfold serve at h
  split at h
  · exact answer_continues h
  · obtain ⟨handler, -, h⟩ := Option.bind_eq_some_iff.mp h
    split at h
    · cases h
      exact ⟨_, rfl, ⟨rfl, rfl, rfl⟩, rfl⟩
    · exact (answer_continues h :)
    · exact (fail_continues h :)

theorem roundTrip_continues {result : RoundTrip} {now : Int}
    (h : roundTrip w svc s i p result now = some t) : Continues s.procs i p t := by
  unfold roundTrip at h
  obtain ⟨target, -, h⟩ := Option.bind_eq_some_iff.mp h
  obtain ⟨handler, -, h⟩ := Option.bind_eq_some_iff.mp h
  split at h
  · exact (answer_continues h :)
  · exact (fail_continues h :)
  · split at h
    · exact (answer_continues h :)
    · exact (fail_continues h :)

section Pass
variable {now : Int} {x : Readings} {m : Middleware Key} {rest : List (Middleware Key)}

/-- The middleware moved the request, and up to the checks it changed nothing that is shared. -/
def Passes (w : World Key) (now : Int) (s : State Key) (i : Nat) (p : Proc Key) (m : Middleware Key) (t : State Key) :
    Prop :=
  (∃ p', t.procs = Function.update s.procs i (some p') ∧ Moves w now p p') ∧ (place m ≤ 8 → SameShared s t)

theorem passes_put (h : Moves w now p p') : Passes w now s i p m (put s i p') :=
  ⟨⟨p', rfl, h⟩, fun _ => ⟨rfl, rfl, rfl⟩⟩

theorem passes_slot (n : Nat) (h : Moves w now p p') : Passes w now s i p m (put {s with slots := n} i p') :=
  ⟨⟨p', rfl, h⟩, fun _ => ⟨rfl, rfl, rfl⟩⟩

theorem passes_inner (hm : 8 < place m) (hprocs : t.procs = Function.update s.procs i (some p'))
    (h : Moves w now p p') : Passes w now s i p m t :=
  ⟨⟨p', hprocs, h⟩, fun hle => absurd hm (Nat.not_lt.mpr hle)⟩

theorem moves_refused (htodo : p.todo = m :: rest) (hw : p.pc = .walking) (hm : place m ≤ 8) (reply : JsonReply)
    (retryAfter : Option String) : Moves w now p (refuse p reply retryAfter) :=
  .turned hw htodo hm ⟨rfl, rfl, rfl⟩ rfl rfl id

theorem encounter_passes (htodo : p.todo = m :: rest) (hw : p.pc = .walking)
    (h : encounter w svc s i p x rest m = some t) : Passes w x.now s i p m t := by
  have hlogged : place m < 7 → Moves w x.now p {p with todo := rest} :=
    fun hm => .outer htodo hm ⟨rfl, rfl, rfl⟩ hw rfl
  cases m with
  | recoverer =>
    cases h
    exact passes_put (hlogged (by simp [place]))
  | requestID =>
    simp only [encounter] at h
    split at h
    · cases h
      exact passes_put (.turned hw htodo (by simp [place]) ⟨rfl, rfl, rfl⟩ rfl rfl id)
    · cases h
      exact passes_put (.outer htodo (by simp [place]) ⟨rfl, rfl, rfl⟩ hw rfl)
  | logger =>
    cases h
    exact passes_put (hlogged (by simp [place]))
  | maxBody limit =>
    simp only [encounter] at h
    split at h
    · cases h
      exact passes_put (moves_refused htodo hw (by simp [place]) _ _)
    · cases h
      exact passes_put (hlogged (by simp [place]))
  | metrics =>
    cases h
    exact passes_put (hlogged (by simp [place]))
  | tracing =>
    cases h
    exact passes_put (hlogged (by simp [place]))
  | concurrencyLimit limit =>
    simp only [encounter] at h
    split at h
    · cases h
      exact passes_put (hlogged (by simp [place]))
    · split at h
      · cases h
        exact passes_slot _ (.outer htodo (by simp [place]) ⟨rfl, rfl, rfl⟩ hw rfl)
      · cases h
        exact passes_put (moves_refused htodo hw (by simp [place]) _ _)
  | jwtAuth key =>
    simp only [encounter] at h
    split at h
    · cases h
      exact passes_put (moves_refused htodo hw (by simp [place]) _ _)
    · rename_i c hc
      cases h
      exact passes_put (.authenticated htodo hc rfl rfl rfl hw rfl)
  | requireAnyRole roles =>
    simp only [encounter] at h
    split at h
    · cases h
      exact passes_put (moves_refused htodo hw (by simp [place]) _ _)
    · rename_i hok
      cases h
      exact passes_put (.role htodo hok ⟨rfl, rfl, rfl⟩ hw rfl)
  | rateLimit keyFunc =>
    have hm : 8 < place (.rateLimit keyFunc : Middleware Key) := by simp [place]
    simp only [encounter] at h
    split at h
    · cases h
    · split at h
      · cases h
        exact passes_inner hm rfl (.inner htodo hm ⟨rfl, rfl, rfl⟩ (.inr rfl))
      · cases h
        exact passes_inner hm rfl (.inner htodo hm ⟨rfl, rfl, rfl⟩ (.inl rfl))
  | cache =>
    have hm : 8 < place (.cache : Middleware Key) := by simp [place]
    obtain ⟨c, -, rfl⟩ := Option.map_eq_some_iff.mp h
    exact passes_inner hm rfl (.inner htodo hm ⟨rfl, rfl, rfl⟩ (.inl rfl))
  | compress minSize =>
    have hm : 8 < place (.compress minSize : Middleware Key) := by simp [place]
    cases h
    exact passes_inner hm rfl (.inner htodo hm ⟨rfl, rfl, rfl⟩ (.inl rfl))

end Pass

/-- Only inside the checks does a step change what is shared. -/
def Inside (p : Proc Key) : Prop := Beyond p.pc ∨ ∀ m rest, p.todo = m :: rest → 8 < place m

theorem act_cases {a : Action} (hp : s.procs i = some p) (h : act w svc s i p a = some t) :
    (∃ now p', t.procs = Function.update s.procs i (some p') ∧ Moves w now p p') ∧
      (Inside p ∨ SameShared s t) := by
  have hwithin : (Beyond p.pc ∨ p.todo = []) → Continues s.procs i p t →
      (∃ now p', t.procs = Function.update s.procs i (some p') ∧ Moves w now p p') ∧
        (Inside p ∨ SameShared s t) := by
    rintro hb ⟨p', hprocs, hk, htodo⟩
    refine ⟨⟨0, p', hprocs, .within hb hk htodo⟩, .inl ?_⟩
    rcases hb with hb | hnil
    · exact .inl hb
    · exact .inr fun m rest hcons => by simp [hnil] at hcons
  cases a with
  | pass x =>
    simp only [act] at h
    split at h
    · rename_i m rest hw htodo
      obtain ⟨hmoves, hsame⟩ := encounter_passes htodo hw h
      refine ⟨⟨x.now, hmoves⟩, ?_⟩
      rcases Nat.lt_or_ge 8 (place m) with hm | hm
      · refine .inl (.inr fun m' rest' hcons => ?_)
        rw [htodo] at hcons
        cases hcons
        exact hm
      · exact .inr (hsame hm)
    · cases h
  | cache e =>
    simp only [act] at h
    split at h
    · rename_i hpc
      split at h
      · obtain ⟨c, -, rfl⟩ := Option.map_eq_some_iff.mp h
        refine hwithin (.inl (by rw [hpc]; trivial)) ⟨p, ?_, keeps_refl p, rfl⟩
        rw [← hp]
        exact (Function.update_eq_self i s.procs).symm
      · cases h
    · cases h
  | next =>
    simp only [act] at h
    split at h
    · rename_i hpc _
      cases h
      exact hwithin (.inl (by rw [hpc]; trivial)) ⟨_, rfl, ⟨rfl, rfl, rfl⟩, rfl⟩
    · rename_i hpc _
      cases h
      exact hwithin (.inl (by rw [hpc]; trivial)) ⟨_, rfl, ⟨rfl, rfl, rfl⟩, rfl⟩
    · cases h
  | write =>
    simp only [act] at h
    split at h
    · rename_i hpc _
      obtain ⟨resp, -, rfl⟩ := Option.map_eq_some_iff.mp h
      exact hwithin (.inl (by rw [hpc]; trivial)) ⟨_, rfl, ⟨rfl, rfl, rfl⟩, rfl⟩
    · rename_i hpc _
      cases h
      exact hwithin (.inl (by rw [hpc]; trivial)) ⟨_, rfl, ⟨rfl, rfl, rfl⟩, rfl⟩
    · cases h
  | serve next now =>
    simp only [act] at h
    split at h
    · rename_i _ htodo
      exact hwithin (.inr htodo) (serve_continues h)
    · cases h
  | roundTrip result now =>
    simp only [act] at h
    split at h
    · rename_i hpc
      exact hwithin (.inl (by rw [hpc]; trivial)) (roundTrip_continues h)
    · cases h
  | leave =>
    simp only [act] at h
    split at h
    · rename_i hpc _
      cases h
      exact ⟨⟨0, _, rfl, .left hpc ⟨rfl, rfl, rfl⟩ rfl rfl⟩, .inr ⟨rfl, rfl, rfl⟩⟩
    · cases h

end Moves

/-- `JWTAuth` let the request through, with the claims its context holds. -/
def Authenticated (w : World Key) (key : Key) (p : Proc Key) : Prop :=
  ∃ now c, p.checkedAt = some now ∧ p.claims = some c ∧
    jwtAuth (w.parseAndValidateToken key now) p.request = .ok c

def HasRole (svc : Service Key) (p : Proc Key) : Prop :=
  ∃ c, p.claims = some c ∧ requireAnyRole svc.config.requiredRoles (some c) = .ok ()

/-- What holds of every request on its way. -/
structure Checked (w : World Key) (svc : Service Key) (key : Key) (p : Proc Key) : Prop where
  suffix : p.todo <:+ svc.stack
  authenticated : Past 7 p → Authenticated w key p
  role : Past 8 p → svc.config.requiredRoles ≠ [] → HasRole svc p
  beyond : Beyond p.pc → Past 8 p

section Checks
variable {w : World Key} {cfg : GatewayConfig} {svc : Service Key} {key : Key} {p p' : Proc Key}
  {m m' : Middleware Key} {rest : List (Middleware Key)}

theorem Keeps.authenticated (h : Keeps p p') (ha : Authenticated w key p) : Authenticated w key p' := by
  obtain ⟨now, c, hnow, hclaims, hc⟩ := ha
  refine ⟨now, c, h.checkedAt.trans hnow, h.claims.trans hclaims, ?_⟩
  rw [h.request]
  exact hc

theorem Keeps.admitted (h : Keeps p p') (ha : Admitted w svc key p) : Admitted w svc key p' := by
  obtain ⟨now, hnow, hentitled⟩ := ha
  refine ⟨now, h.checkedAt.trans hnow, ?_⟩
  rw [h.request]
  exact hentitled

theorem Keeps.role (h : Keeps p p') (hr : HasRole svc p) : HasRole svc p' := by
  obtain ⟨c, hclaims, hc⟩ := hr
  exact ⟨c, h.claims.trans hclaims, hc⟩

theorem Past.mono {j k : Nat} (h : Past k p) (hjk : j ≤ k) : Past j p :=
  fun m hm => Nat.lt_of_le_of_lt hjk (h m hm)

theorem past_iff_of_todo {k : Nat} (h : p'.todo = p.todo) : Past k p' ↔ Past k p := by
  unfold Past
  rw [h]

theorem mem_of_suffix (hmt : Mounted w cfg svc key) (h : m :: rest <:+ svc.stack) (hin : m' ∈ svc.stack)
    (hlt : place m < place m') : m' ∈ rest := by
  have hsorted := hmt.sorted
  obtain ⟨before, heq⟩ := h
  rw [← heq] at hin hsorted
  rcases List.mem_append.mp hin with hbefore | hafter
  · have hless := (List.pairwise_append.mp hsorted).2.2 m' hbefore m List.mem_cons_self
    omega
  · rcases List.mem_cons.mp hafter with rfl | hrest
    · omega
    · exact hrest

theorem past_of_cons (hmt : Mounted w cfg svc key) (hs : p.todo <:+ svc.stack) (hp : p.todo = m :: rest)
    {k : Nat} (hk : k < place m) : Past k p := by
  rw [hp] at hs
  intro m' hm'
  rw [hp] at hm'
  rcases List.mem_cons.mp hm' with rfl | hin
  · exact hk
  · exact hk.trans (place_lt_of_sorted hmt.sorted hs hin)

theorem not_past_of_mem {k : Nat} (hin : m ∈ p.todo) (hm : place m = k) : ¬ Past k p :=
  fun h => Nat.lt_irrefl k (hm ▸ h m hin)

theorem admitted_of_past (h : Checked w svc key p) (hpast : Past 8 p) : Admitted w svc key p := by
  obtain ⟨now, c, hnow, hclaims, hc⟩ := h.authenticated (hpast.mono (by decide))
  refine ⟨now, hnow, entitled_iff.mpr ⟨c, hc, ?_⟩⟩
  intro hne
  obtain ⟨c', hclaims', hrole⟩ := h.role hpast hne
  rw [hclaims] at hclaims'
  rw [Option.some.inj hclaims']
  exact hrole

theorem checked_arrived (hmt : Mounted w cfg svc key) (r : Request) (contentLength : Int) :
    Checked w svc key (arrived svc r contentLength) where
  suffix := List.suffix_refl _
  authenticated h := absurd h (not_past_of_mem hmt.auth rfl)
  role h hne := absurd h (not_past_of_mem (hmt.roles hne) rfl)
  beyond h := h.elim

theorem checked_keeps (h : Checked w svc key p) (hk : Keeps p p') (htodo : p'.todo = p.todo)
    (hb : Beyond p'.pc → Past 8 p) : Checked w svc key p' where
  suffix := htodo ▸ h.suffix
  authenticated hpast := hk.authenticated (h.authenticated ((past_iff_of_todo htodo).mp hpast))
  role hpast hne := hk.role (h.role ((past_iff_of_todo htodo).mp hpast) hne)
  beyond hbeyond := (past_iff_of_todo htodo).mpr (hb hbeyond)

theorem checked_inside (h : Checked w svc key p) (hk : Keeps p p') (hpast : Past 8 p)
    (hs : p'.todo <:+ p.todo) : Checked w svc key p' := by
  have hpast' : Past 8 p' := fun m hm => hpast m (hs.subset hm)
  exact ⟨hs.trans h.suffix, fun _ => hk.authenticated (h.authenticated (hpast.mono (by decide))),
    fun _ hne => hk.role (h.role hpast hne), fun _ => hpast'⟩

theorem checked_moves (hmt : Mounted w cfg svc key) (h : Checked w svc key p) {now : Int}
    (hmove : Moves w now p p') : Checked w svc key p' := by
  have hwalks : p'.pc = .walking → Beyond p'.pc → Past 8 p' := by
    intro hpc hb
    rw [hpc] at hb
    exact hb.elim
  cases hmove with
  | @outer m rest hp hm hk hpc hrest =>
    have hs := hp ▸ h.suffix
    refine ⟨hrest ▸ (List.suffix_cons m rest).trans hs, ?_, ?_, hwalks hpc⟩
    · intro hpast
      exact absurd hpast (not_past_of_mem (hrest ▸ mem_of_suffix hmt hs hmt.auth hm) rfl)
    · intro hpast hne
      have hin := mem_of_suffix hmt hs (hmt.roles hne) (hm.trans (show 7 < 8 by decide))
      exact absurd hpast (not_past_of_mem (hrest ▸ hin) rfl)
  | turned hw hp hm hk htodo hpc hb =>
    refine checked_keeps h hk htodo ?_
    rw [hpc]
    exact fun hbeyond => absurd hbeyond hb
  | @authenticated key' rest c hp hc hr hclaims hnow hpc hrest =>
    have hs := hp ▸ h.suffix
    obtain rfl : key' = key := hmt.onlyKey key' (hs.subset List.mem_cons_self)
    refine ⟨hrest ▸ (List.suffix_cons _ rest).trans hs, ?_, ?_, hwalks hpc⟩
    · intro _
      exact ⟨now, c, hnow, hclaims, by rw [hr]; exact hc⟩
    · intro hpast hne
      have hin := mem_of_suffix hmt hs (hmt.roles hne) (show 7 < 8 by decide)
      exact absurd hpast (not_past_of_mem (hrest ▸ hin) rfl)
  | @role roles rest hp hc hk hpc hrest =>
    have hs := hp ▸ h.suffix
    obtain rfl : roles = svc.config.requiredRoles := hmt.onlyRoles roles (hs.subset List.mem_cons_self)
    have hauth : Authenticated w key p :=
      h.authenticated (past_of_cons hmt h.suffix hp (show 7 < 8 by decide))
    refine ⟨hrest ▸ (List.suffix_cons _ rest).trans hs, fun _ => hk.authenticated hauth, ?_,
      hwalks hpc⟩
    intro _ _
    obtain ⟨now, c, -, hclaims, -⟩ := hauth
    exact hk.role ⟨c, hclaims, by rw [← hclaims]; exact hc⟩
  | @inner m rest hp hm hk hrest =>
    refine checked_inside h hk (past_of_cons hmt h.suffix hp hm) ?_
    rcases hrest with hrest | hrest
    · rw [hrest, hp]
      exact List.suffix_cons m rest
    · rw [hrest]
  | within hp hk htodo =>
    refine checked_inside h hk ?_ (htodo ▸ List.suffix_refl _)
    rcases hp with hb | hnil
    · exact h.beyond hb
    · intro m hm
      simp [hnil] at hm
  | left _ hk htodo hpc =>
    refine checked_keeps h hk htodo ?_
    rw [hpc]
    exact h.beyond

theorem past_of_inside (hmt : Mounted w cfg svc key) (h : Checked w svc key p) (hi : Inside p) : Past 8 p := by
  rcases hi with hb | hhead
  · exact h.beyond hb
  · cases htodo : p.todo with
    | nil =>
      intro m hm
      simp [htodo] at hm
    | cons m rest => exact past_of_cons hmt h.suffix htodo (hhead m rest htodo)

theorem moves_keeps {now : Int} (hmove : Moves w now p p') :
    p'.request = p.request ∧ (p'.checkedAt = p.checkedAt ∨ p'.checkedAt = some now) := by
  cases hmove with
  | outer hp hm hk hpc hrest => exact ⟨hk.request, .inl hk.checkedAt⟩
  | turned hw hp hm hk htodo hpc hb => exact ⟨hk.request, .inl hk.checkedAt⟩
  | authenticated hp hc hr hclaims hnow hpc hrest => exact ⟨hr, .inr hnow⟩
  | role hp hc hk hpc hrest => exact ⟨hk.request, .inl hk.checkedAt⟩
  | inner hp hm hk hrest => exact ⟨hk.request, .inl hk.checkedAt⟩
  | within hp hk htodo => exact ⟨hk.request, .inl hk.checkedAt⟩
  | left hp hk htodo hpc => exact ⟨hk.request, .inl hk.checkedAt⟩

/-- A step admits a request only by the clock reading it makes. -/
theorem not_admitted_moves {now : Int} (hmove : Moves w now p p') (hp : ¬ Admitted w svc key p)
    (hnow : ¬ Entitled svc.config (w.parseAndValidateToken key now) p.request) :
    ¬ Admitted w svc key p' := by
  rintro ⟨now', hnow', hentitled⟩
  obtain ⟨hrequest, hsame | hnew⟩ := moves_keeps hmove
  · rw [hsame] at hnow'
    rw [hrequest] at hentitled
    exact hp ⟨now', hnow', hentitled⟩
  · rw [hnew] at hnow'
    cases hnow'
    rw [hrequest] at hentitled
    exact hnow hentitled

end Checks

def owner : Event → Option Nat
  | .arrive i _ _ => some i
  | .own i _ => some i
  | .occupy => none
  | .release => none
  | .cleanup _ => none
  | .redis _ _ => none

/-- What the service promises at the end of every run. A request that is not admitted has been turned away
for a reason or is on its way to the checks; its steps change nothing that is shared; nobody else's step
touches it; and on its own it gets its answer before it runs out of middlewares. -/
structure Protected (w : World Key) (cfg : GatewayConfig) (svc : Service Key) (key : Key) (s₀ : State Key)
    (es : List Event) (s : State Key) : Prop where
  served : ∀ i p, s.procs i = some p → Beyond p.pc → Admitted w svc key p
  turnedAway : ∀ i p, s.procs i = some p → ¬ Admitted w svc key p →
    p.pc = .walking ∨ ∃ a, p.pc = .ended a ∧ TurnedAway w cfg svc key s₀ es i a
  arriving : ∀ i r contentLength t, step w svc s (.arrive i r contentLength) = some t → SameShared s t
  untouched : ∀ i p a t, s.procs i = some p → ¬ Admitted w svc key p →
    step w svc s (.own i a) = some t → SameShared s t
  undisturbed : ∀ i e t, owner e ≠ some i → step w svc s e = some t → t.procs i = s.procs i
  replied : ∀ i p (xs : List Readings), s.procs i = some p → p.pc = .walking → ¬ Admitted w svc key p →
    p.todo.length ≤ xs.length →
    (∀ x ∈ xs, ¬ Entitled svc.config (w.parseAndValidateToken key x.now) p.request) →
    ∃ n t p' a, exec (step w svc) s ((xs.take n).map fun x => .own i (.pass x)) = some t ∧
      t.procs i = some p' ∧ p'.pc = .ended a ∧
      TurnedAway w cfg svc key s₀ (es ++ (xs.take n).map fun x => .own i (.pass x)) i a

/-- Every request of the state is where its checks allow it to be. -/
def Guarded (w : World Key) (svc : Service Key) (key : Key) (s : State Key) : Prop :=
  ∀ i p, s.procs i = some p → Checked w svc key p

section Runs
variable {w : World Key} {cfg : GatewayConfig} {svc : Service Key} {key : Key} {s t : State Key} {i : Nat}
  {p : Proc Key}

theorem own_cases {a : Action} (h : step w svc s (.own i a) = some t) :
    ∃ p, s.procs i = some p ∧ act w svc s i p a = some t :=
  Option.bind_eq_some_iff.mp h

theorem guarded_update (h : Guarded w svc key s) {p' : Proc Key} (hp' : Checked w svc key p')
    (ht : t.procs = Function.update s.procs i (some p')) : Guarded w svc key t := by
  unfold Guarded
  rw [ht]
  exact forall_update h hp'

theorem guarded_step (hmt : Mounted w cfg svc key) (h : Guarded w svc key s) {e : Event}
    (hstep : step w svc s e = some t) : Guarded w svc key t := by
  cases e with
  | arrive i r contentLength =>
    simp only [step] at hstep
    split at hstep
    · cases hstep
      exact guarded_update h (checked_arrived hmt r contentLength) rfl
    · cases hstep
  | own i a =>
    obtain ⟨p, hp, hact⟩ := own_cases hstep
    obtain ⟨now, p', hprocs, hmove⟩ := (act_cases hp hact).1
    exact guarded_update h (checked_moves hmt (h i p hp) hmove) hprocs
  | occupy =>
    simp only [step] at hstep
    split at hstep
    · cases hstep
      exact h
    · cases hstep
  | release =>
    simp only [step] at hstep
    split at hstep
    · cases hstep
      exact h
    · cases hstep
  | cleanup now =>
    cases hstep
    exact h
  | redis name stored =>
    cases hstep
    exact h

theorem undisturbed_step {e : Event} (he : owner e ≠ some i) (hstep : step w svc s e = some t) :
    t.procs i = s.procs i := by
  cases e with
  | arrive j r contentLength =>
    simp only [step] at hstep
    split at hstep
    · cases hstep
      exact Function.update_of_ne (fun hij => he (congrArg some hij.symm)) ..
    · cases hstep
  | own j a =>
    obtain ⟨p, hp, hact⟩ := own_cases hstep
    obtain ⟨now, p', hprocs, -⟩ := (act_cases hp hact).1
    rw [hprocs]
    exact Function.update_of_ne (fun hij => he (congrArg some hij.symm)) ..
  | occupy =>
    simp only [step] at hstep
    split at hstep
    · cases hstep
      rfl
    · cases hstep
  | release =>
    simp only [step] at hstep
    split at hstep
    · cases hstep
      rfl
    · cases hstep
  | cleanup now =>
    cases hstep
    rfl
  | redis name stored =>
    cases hstep
    rfl

theorem encounter_enabled (x : Readings) {m : Middleware Key} (rest : List (Middleware Key)) (hm : place m ≤ 8) :
    ∃ t, encounter w svc s i p x rest m = some t := by
  cases m with
  | recoverer => exact ⟨_, rfl⟩
  | requestID =>
    simp only [encounter]
    split <;> exact ⟨_, rfl⟩
  | logger => exact ⟨_, rfl⟩
  | maxBody limit =>
    simp only [encounter]
    split <;> exact ⟨_, rfl⟩
  | metrics => exact ⟨_, rfl⟩
  | tracing => exact ⟨_, rfl⟩
  | concurrencyLimit limit =>
    simp only [encounter]
    split
    · exact ⟨_, rfl⟩
    · split <;> exact ⟨_, rfl⟩
  | jwtAuth key =>
    simp only [encounter]
    split <;> exact ⟨_, rfl⟩
  | requireAnyRole roles =>
    simp only [encounter]
    split <;> exact ⟨_, rfl⟩
  | rateLimit keyFunc => simp [place] at hm
  | cache => simp [place] at hm
  | compress minSize => simp [place] at hm

/-- Up to the checks the request goes on to the next middleware or is turned away. -/
theorem moves_on {now : Int} {m : Middleware Key} {rest : List (Middleware Key)} {p' : Proc Key}
    (hmove : Moves w now p p') (htodo : p.todo = m :: rest) (hw : p.pc = .walking) (hm : place m ≤ 8) :
    p'.pc = .walking ∧ p'.todo = rest ∨ ∃ a, p'.pc = .ended a := by
  cases hmove with
  | outer hp _ hk hpc hrest =>
    rw [htodo] at hp
    cases hp
    exact .inl ⟨hpc, hrest⟩
  | @turned _ _ a _ hp _ hk htodo' hpc hb => exact .inr ⟨a, hpc⟩
  | authenticated hp hc hr hclaims hnow hpc hrest =>
    rw [htodo] at hp
    cases hp
    exact .inl ⟨hpc, hrest⟩
  | role hp hc hk hpc hrest =>
    rw [htodo] at hp
    cases hp
    exact .inl ⟨hpc, hrest⟩
  | inner hp hm' hk hrest =>
    rw [htodo] at hp
    cases hp
    omega
  | within hp hk _ =>
    rcases hp with hb | hnil
    · rw [hw] at hb
      exact hb.elim
    · rw [htodo] at hnil
      cases hnil
  | left hp hk _ hpc =>
    rw [hw] at hp
    cases hp

theorem turned_soon (hmt : Mounted w cfg svc key) (todo : List (Middleware Key)) (xs : List Readings)
    (hp : s.procs i = some p) (hc : Checked w svc key p) (hw : p.pc = .walking) (htodo : p.todo = todo)
    (hnot : ¬ Admitted w svc key p) (hlen : todo.length ≤ xs.length)
    (hxs : ∀ x ∈ xs, ¬ Entitled svc.config (w.parseAndValidateToken key x.now) p.request) :
    ∃ n t p' a, exec (step w svc) s ((xs.take n).map fun x => .own i (.pass x)) = some t ∧
      t.procs i = some p' ∧ p'.pc = .ended a ∧ ¬ Admitted w svc key p' := by
  induction todo generalizing xs s p with
  | nil =>
    have hpast : Past 8 p := by
      intro m hm
      simp [htodo] at hm
    exact absurd (admitted_of_past hc hpast) hnot
  | cons m rest ih =>
    cases xs with
    | nil => simp at hlen
    | cons x xs =>
      have hm : place m ≤ 8 := by
        by_contra hlt
        exact hnot (admitted_of_past hc (past_of_cons hmt hc.suffix htodo (Nat.lt_of_not_le hlt)))
      obtain ⟨t, ht⟩ : ∃ t, encounter w svc s i p x rest m = some t := encounter_enabled x rest hm
      have hstep : step w svc s (.own i (.pass x)) = some t := by
        simp only [step, hp, Option.bind_some, act, hw, htodo, ht]
      obtain ⟨p', hprocs, hmove⟩ := (encounter_passes htodo hw ht).1
      have hp' : t.procs i = some p' := by rw [hprocs, Function.update_self]
      have hnot' := not_admitted_moves hmove hnot (hxs x List.mem_cons_self)
      rcases moves_on hmove htodo hw hm with ⟨hw', htodo'⟩ | ⟨a, ha⟩
      · have hxs' : ∀ y ∈ xs, ¬ Entitled svc.config (w.parseAndValidateToken key y.now) p'.request := by
          rw [(moves_keeps hmove).1]
          exact fun y hy => hxs y (List.mem_cons_of_mem x hy)
        obtain ⟨n, u, q, a, hexec, hend⟩ := ih xs hp' (checked_moves hmt hc hmove) hw' htodo' hnot'
          (Nat.le_of_succ_le_succ hlen) hxs'
        exact ⟨n + 1, u, q, a, (exec_cons_iff _).mpr ⟨t, hstep, hexec⟩, hend⟩
      · exact ⟨1, t, p', a, (exec_cons_iff _).mpr ⟨t, hstep, rfl⟩, hp', ha, hnot'⟩

section Turned
variable {s₀ : State Key} {es : List Event}

theorem guarded_run (hmt : Mounted w cfg svc key) (h : Guarded w svc key s) (he : exec (step w svc) s es = some t) :
    Guarded w svc key t :=
  visits_inductive (step w svc) (Guarded w svc key) (fun _ _ _ hg hstep => guarded_step hmt hg hstep) h
    ⟨es, [], (List.append_nil es).symm, he⟩

/-- A middleware up to the checks that answers a request has a reason to. -/
theorem reason_of_ended (hmt : Mounted w cfg svc key) {m : Middleware Key} {rest : List (Middleware Key)}
    (hs : m :: rest <:+ svc.stack) (hw : p.pc = .walking) (hm : place m ≤ 8) {x : Readings}
    (h : encounter w svc s i p x rest m = some t) {p' : Proc Key} (hp' : t.procs i = some p') {a : Ending}
    (ha : p'.pc = .ended a) : Reason w cfg svc key s p x m a := by
  have hmem : m ∈ svc.stack := hs.subset List.mem_cons_self
  have hput {s' : State Key} {q : Proc Key} (ht : put s' i q = t) : q.pc = .ended a := by
    subst ht
    have hq : q = p' := by simpa [put] using hp'
    rw [hq]
    exact ha
  -- a request that is let on is still on its way
  have hon {s' : State Key} {q : Proc Key} (ht : some (put s' i q) = some t) (hq : q.pc = p.pc) :
      Reason w cfg svc key s p x m a := by
    have hpc := hput (Option.some.inj ht)
    rw [hq, hw] at hpc
    cases hpc
  cases m with
  | recoverer => exact hon h rfl
  | requestID =>
    simp only [encounter] at h
    split at h
    · rename_i huuid
      cases hput (Option.some.inj h)
      exact .noID huuid
    · exact hon h rfl
  | logger => exact hon h rfl
  | maxBody limit =>
    obtain rfl := hmt.maxBody limit hmem
    simp only [encounter] at h
    split at h
    · rename_i hlarge
      cases hput (Option.some.inj h)
      exact .tooLarge hlarge
    · exact hon h rfl
  | metrics => exact hon h rfl
  | tracing => exact hon h rfl
  | concurrencyLimit limit =>
    obtain rfl := hmt.maxInFlight limit hmem
    simp only [encounter] at h
    split at h
    · exact hon h rfl
    · rename_i hpos
      split at h
      · exact hon h rfl
      · rename_i hfull
        cases hput (Option.some.inj h)
        exact .overloaded (not_le.mp hpos) (not_lt.mp hfull)
  | jwtAuth key' =>
    obtain rfl := hmt.onlyKey key' hmem
    simp only [encounter] at h
    split at h
    · rename_i reply hreply
      cases hput (Option.some.inj h)
      exact .unauthenticated hreply (jwtAuth_error hreply)
    · exact hon h rfl
  | requireAnyRole roles =>
    obtain rfl := hmt.onlyRoles roles hmem
    simp only [encounter] at h
    split at h
    · rename_i reply hreply
      cases hput (Option.some.inj h)
      exact .forbidden hreply (requireAnyRole_error hreply)
    · exact hon h rfl
  | rateLimit keyFunc => simp [place] at hm
  | cache => simp [place] at hm
  | compress minSize => simp [place] at hm

def EndedUnadmitted (w : World Key) (svc : Service Key) (key : Key) (i : Nat) (a : Ending) (s : State Key) : Prop :=
  ∃ p, s.procs i = some p ∧ p.pc = .ended a ∧ ¬ Admitted w svc key p

/-- The step that ends a request without admitting it is its turn at a middleware up to the checks. -/
theorem turned_of_step (hmt : Mounted w cfg svc key) (hg : Guarded w svc key s) {e : Event} {a : Ending}
    (hstep : step w svc s e = some t) (hbefore : ¬ EndedUnadmitted w svc key i a s)
    (hafter : EndedUnadmitted w svc key i a t) :
    ∃ x p m rest, e = .own i (.pass x) ∧ s.procs i = some p ∧ p.pc = .walking ∧ p.todo = m :: rest ∧
      Reason w cfg svc key s p x m a := by
  obtain ⟨p', hp', ha, hnot⟩ := hafter
  have hmine : owner e = some i := by
    by_contra hother
    rw [undisturbed_step hother hstep] at hp'
    exact hbefore ⟨p', hp', ha, hnot⟩
  have hadmitted {p : Proc Key} (hp : s.procs i = some p) (hk : Keeps p p') (hpast : Past 8 p) : False :=
    hnot (hk.admitted (admitted_of_past (hg i p hp) hpast))
  cases e with
  | arrive j r contentLength =>
    obtain rfl : j = i := Option.some.inj hmine
    simp only [step] at hstep
    split at hstep
    · cases hstep
      obtain rfl : arrived svc r contentLength = p' := by simpa [put] using hp'
      cases ha
    · cases hstep
  | own j act' =>
    obtain rfl : j = i := Option.some.inj hmine
    obtain ⟨p, hp, hact⟩ := own_cases hstep
    obtain ⟨now, q, hprocs, hmove⟩ := (act_cases hp hact).1
    obtain rfl : q = p' := by simpa [hprocs] using hp'
    cases hmove with
    | outer _ _ _ hpc _ =>
      rw [hpc] at ha
      cases ha
    | @turned m rest b hw htodo hm hk _ hpc _ =>
      cases act' with
      | pass x =>
        have hencounter : encounter w svc s j p x rest m = some t := by simpa [act, hw, htodo] using hact
        exact ⟨x, p, m, rest, rfl, hp, hw, htodo,
          reason_of_ended hmt (htodo ▸ (hg j p hp).suffix) hw hm hencounter hp' ha⟩
      | _ => simp [act, hw, htodo] at hact
    | authenticated _ _ _ _ _ hpc _ =>
      rw [hpc] at ha
      cases ha
    | role _ _ _ hpc _ =>
      rw [hpc] at ha
      cases ha
    | inner htodo hm hk _ => exact (hadmitted hp hk (past_of_cons hmt (hg j p hp).suffix htodo hm)).elim
    | within hb hk _ =>
      rcases hb with hb | hnil
      · exact (hadmitted hp hk ((hg j p hp).beyond hb)).elim
      · exact (hadmitted hp hk fun m hm => by simp [hnil] at hm).elim
    | left _ hk _ hpc =>
      exact absurd ⟨p, hp, hpc ▸ ha, fun hp' => hnot (hk.admitted hp')⟩ hbefore
  | occupy => cases hmine
  | release => cases hmine
  | cleanup now => cases hmine
  | redis name stored => cases hmine

theorem turned_of_run (hmt : Mounted w cfg svc key) (hg : Guarded w svc key s₀) (hfree : s₀.procs i = none)
    (he : exec (step w svc) s₀ es = some t) {a : Ending} (ht : EndedUnadmitted w svc key i a t) :
    TurnedAway w cfg svc key s₀ es i a := by
  have hstart : ¬ EndedUnadmitted w svc key i a s₀ := by
    rintro ⟨p, hp, -⟩
    rw [hfree] at hp
    cases hp
  obtain ⟨before, e, after, s, s', rfl, hs, hstep, -, hbefore, hafter⟩ := exec_turning (step w svc) he hstart ht
  obtain ⟨x, p, m, rest, rfl, hturned⟩ := turned_of_step hmt (guarded_run hmt hg hs) hstep hbefore hafter
  exact ⟨before, x, after, s, p, m, rest, rfl, hs, hturned⟩

end Turned

theorem guarded_start (redis : String → Option RedisLimiter.Key) : Guarded w svc key (start svc redis) := by
  intro i p hp
  cases hp

theorem protected_of_run (hmt : Mounted w cfg svc key) {redis : String → Option RedisLimiter.Key} {es : List Event}
    (he : exec (step w svc) (start svc redis) es = some s) :
    Protected w cfg svc key (start svc redis) es s := by
  have h : Guarded w svc key s := guarded_run hmt (guarded_start redis) he
  have hturned {es : List Event} {t : State Key} {i : Nat} {p : Proc Key} {a : Ending}
      (he : exec (step w svc) (start svc redis) es = some t) (hp : t.procs i = some p) (ha : p.pc = .ended a)
      (hnot : ¬ Admitted w svc key p) : TurnedAway w cfg svc key (start svc redis) es i a :=
    turned_of_run hmt (guarded_start redis) rfl he ⟨p, hp, ha, hnot⟩
  refine ⟨?_, ?_, ?_, ?_, ?_, ?_⟩
  · exact fun i p hp hb => admitted_of_past (h i p hp) ((h i p hp).beyond hb)
  · intro i p hp hnot
    have hc := h i p hp
    cases hpc : p.pc with
    | walking => exact .inl rfl
    | cached => exact absurd (admitted_of_past hc (hc.beyond (by rw [hpc]; trivial))) hnot
    | proxied => exact absurd (admitted_of_past hc (hc.beyond (by rw [hpc]; trivial))) hnot
    | ended a => exact .inr ⟨a, rfl, hturned he hp hpc hnot⟩
  · intro i r contentLength t hstep
    simp only [step] at hstep
    split at hstep
    · cases hstep
      exact ⟨rfl, rfl, rfl⟩
    · cases hstep
  · intro i p a t hp hnot hstep
    obtain ⟨q, hq, hact⟩ := own_cases hstep
    rw [hp] at hq
    cases hq
    rcases (act_cases hp hact).2 with hinside | hsame
    · exact absurd (admitted_of_past (h i p hp) (past_of_inside hmt (h i p hp) hinside)) hnot
    · exact hsame
  · exact fun i e t he hstep => undisturbed_step he hstep
  · intro i p xs hp hw hnot hlen hxs
    obtain ⟨n, t, p', a, ht, hp', ha, hnot'⟩ := turned_soon hmt p.todo xs hp (h i p hp) hw rfl hnot hlen hxs
    exact ⟨n, t, p', a, ht, hp', ha, hturned ((exec_append_iff _).mpr ⟨s, he, ht⟩) hp' ha hnot'⟩

end Runs

/-- For every configuration that `buildRouter` builds and every service of it with authentication,
over any interleaving of requests to it and whatever the upstreams, Redis and the other routes
do: the service is protected in every run. -/
theorem service_protected {w : World Key} {cfg : GatewayConfig} {services : List (Service Key)}
    {svc : Service Key} (hbuilt : buildRouter w cfg = .ok services) (hsvc : svc ∈ services)
    (hauth : svc.config.auth = true) :
    ∃ key, w.loadPublicKey cfg.jwtPublicKey = .ok key ∧
      ∀ redis es s, exec (step w svc) (start svc redis) es = some s →
        Protected w cfg svc key (start svc redis) es s := by
  obtain ⟨key, hmt⟩ := mounted_of_built hbuilt hsvc hauth
  exact ⟨key, hmt.loaded, fun redis es s he => protected_of_run hmt he⟩

def statusOf (s : State Key) (i : Nat) : Option Int :=
  (s.procs i).bind fun p =>
    match p.pc with
    | .ended a => some a.status
    | _ => none

/-- One key, one token that it signed, and libraries that do as little as they can. -/
def sampleWorld : World Unit where
  newMetrics := .ok ()
  loadPublicKey _ := .ok ()
  ping := .ok ()
  registerUpstreamHealth := .ok ()
  probe := .ok ()
  parseAndValidateToken _ _ text :=
    if text = "t" then .ok ⟨some [("sub", .string "alice"), ("roles", .array [.string "admin"])]⟩
    else .error "signature"
  script := RedisLimiter.runScript
  table := Strings.asciiTable
  sum _ := ""
  codec := CompressedCache.storedCodec
  splitHost _ := some "10.0.0.1"
  encode _ := []

def accounts : ServiceConfig :=
  ⟨"accounts", "/accounts", ["http://accounts:8080"], true, ["admin"], some ⟨1, 5, "jwt_sub"⟩,
    some ⟨60 * second, 8, 100⟩⟩

def gateway : GatewayConfig where
  maxBodyBytes := 8
  maxHeaderBytes := 1024
  maxInFlight := 2
  compression := ⟨true, 1⟩
  rateLimit := none
  healthCheck := ⟨5 * second, "/healthz"⟩
  circuitBreaker := some ⟨1, second⟩
  transport := ⟨1000, 200, 90 * second, 5 * second, 5 * second⟩
  telemetry := ⟨10 * second, 5 * second, second⟩
  services := [accounts]
  jwtPublicKey := "jwt.pem"

def mounted : Service Unit where
  config := accounts
  maxInFlight := 2
  stack := routerStack gateway ++
    [.jwtAuth (), .requireAnyRole ["admin"], .rateLimit .keyByJWTSub, .cache, .compress 1]
  limiter := buildServiceLimiter accounts gateway false
  handler := buildServiceHandler accounts gateway

theorem built_gateway : validate gateway = .ok gateway ∧ buildRouter sampleWorld gateway = .ok [mounted] :=
  ⟨by decide +kernel, rfl⟩

def getAccounts (header : Header) : Request :=
  ⟨"GET", ⟨"/accounts/1", "", []⟩, header, "gateway", "10.0.0.1:40000", false⟩

def anonymous : Request := getAccounts .empty

def bearer : Request := getAccounts ⟨[(authorization, "Bearer t")]⟩

def passes (i n : Nat) : List Event := List.replicate n (.own i (.pass ⟨0, some "id", .answered false⟩))

def publicAnswer : CompressedCache.Upstream :=
  {CompressedCache.answering "" with header := ⟨[(cacheControl, "public")]⟩}

/-- The first request fetches a response, which is stored; the second has no token; the third is
answered from the cache. -/
def threeRequests : List Event :=
  .arrive 0 bearer 0 :: passes 0 11 ++
  [.own 0 (.cache (.headersFor 0)), .own 0 (.cache (.get 0 0)), .own 0 (.cache (.enter 0)), .own 0 .next] ++
  passes 0 1 ++
  [.own 0 (.serve (some "http://accounts:8080") 0), .own 0 (.roundTrip (.response publicAnswer) 0),
    .own 0 (.cache (.record 0)), .own 0 (.cache (.set 0 0)), .own 0 (.cache (.finish 0)), .own 0 .write,
    .own 0 .leave] ++
  .arrive 1 anonymous 0 :: passes 1 8 ++ [.own 1 .leave] ++
  .arrive 2 bearer 0 :: passes 2 11 ++
  [.own 2 (.cache (.headersFor 2)), .own 2 (.cache (.get 2 1)), .own 2 .write]

theorem service_protected_three :
    ∃ s, exec (step sampleWorld mounted) (start mounted fun _ => none) threeRequests = some s ∧
      (statusOf s 0, statusOf s 1, statusOf s 2) = (some 200, some 401, some 200) ∧
      Protected sampleWorld gateway mounted () (start mounted fun _ => none) threeRequests s := by
  have hrun : (exec (step sampleWorld mounted) (start mounted fun _ => none) threeRequests).map
      (fun s => (statusOf s 0, statusOf s 1, statusOf s 2)) = some (some 200, some 401, some 200) := by
    decide +kernel
  obtain ⟨s, hs, hstatus⟩ := Option.map_eq_some_iff.mp hrun
  obtain ⟨key, -, hall⟩ := service_protected built_gateway.2 List.mem_cons_self rfl
  exact ⟨s, hs, hstatus, hall _ threeRequests s hs⟩

theorem not_entitled_anonymous (verify : Verifier) : ¬ Entitled accounts verify anonymous := by
  rintro ⟨tokenStr, token, claims, sub, roles, htoken, -⟩
  have hlength := congrArg String.length htoken
  rw [String.length_append] at hlength
  change 0 = 7 + tokenStr.length at hlength
  omega

/-- A request over the body limit is answered 413 and one at the cap 503, with no token and no
look at it. -/
theorem outer_answers_first :
    ∃ s, validate gateway = .ok gateway ∧ buildRouter sampleWorld gateway = .ok [mounted] ∧
      mounted.config.auth = true ∧ (∀ verify, ¬ Entitled mounted.config verify anonymous) ∧
      exec (step sampleWorld mounted) (start mounted fun _ => none)
        (.arrive 0 anonymous 9 :: passes 0 4 ++ [.occupy, .occupy, .arrive 1 anonymous 0] ++ passes 1 7) =
          some s ∧
      (statusOf s 0, statusOf s 1) = (some 413, some 503) := by
  have hrun : (exec (step sampleWorld mounted) (start mounted fun _ => none)
      (.arrive 0 anonymous 9 :: passes 0 4 ++ [.occupy, .occupy, .arrive 1 anonymous 0] ++ passes 1 7)).map
      (fun s => (statusOf s 0, statusOf s 1)) = some (some 413, some 503) := by
    decide +kernel
  obtain ⟨s, hs, hstatus⟩ := Option.map_eq_some_iff.mp hrun
  exact ⟨s, built_gateway.1, built_gateway.2, rfl, not_entitled_anonymous, hs, hstatus⟩

end ApiGateway.ProtectedService
