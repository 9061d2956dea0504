import ApiGateway.LimiterCalls
import ApiGateway.ServiceProgress
import Mathlib.Algebra.BigOperators.Fin

/-!
# All services at once

The services of a gateway run beside each other. They share the slots of `ConcurrencyLimit`, which
also the gateway's own answers take, and the store in Redis, which other gateways write to as well;
limiters, caches, breakers and requests are each service's own. A step of the gateway is a step of
one of its services in what that service sees of the whole: the slots that the others hold are to it
the slots of other routes.

Which service a request goes to is the business of `chi`, and any choice it makes will do here.

So every run of the whole gateway is, for each service, a run of that service alone, in which the
steps of all others are steps of its surroundings, and what holds along every run of a service holds
of every service of a gateway.
-/

namespace ApiGateway.GatewayRuns

open Config Http Runs Descent ServiceLimiter ServiceChain ProtectedService RequestLife ServiceProgress LimiterCalls
set_option autoImplicit false

/-- A gateway that came up. The router gives each request to a service, or it has the gateway answer
the request itself. -/
structure Gateway (Key : Type) where
  world : World Key
  config : GatewayConfig
  services : List (Service Key)
  built : buildRouter world config = .ok services
  route : Request → Option (Fin services.length)

/-- What a service has for itself; `held` counts the slots its requests hold. -/
structure Part (Key : Type) where
  held : Nat
  backend : Option Backend
  cache : CacheFlights.State
  proxy : ProxyHandler.Handler
  procs : Nat → Option (Proc Key)

variable {Key : Type}

section Machine
variable (gw : Gateway Key)

/-- `edge` counts the slots of requests that the gateway answers itself. -/
structure State where
  slots : Nat
  edge : Nat
  redis : String → Option RedisLimiter.Key
  parts : Fin gw.services.length → Part Key

inductive Event where
  | service (k : Fin gw.services.length) (e : ServiceChain.Event)
  | enter (r : Request)
  | leave
  | redis (key : String) (stored : Option RedisLimiter.Key)

variable {gw}

/-- The whole as the service `k` sees it. -/
def view (s : State gw) (k : Fin gw.services.length) : ServiceChain.State Key where
  slots := s.slots
  others := s.slots - (s.parts k).held
  limits := (s.parts k).backend.map fun backend => ⟨backend, s.redis⟩
  cache := (s.parts k).cache
  proxy := (s.parts k).proxy
  procs := (s.parts k).procs

def partOf (t : ServiceChain.State Key) : Part Key where
  held := t.slots - t.others
  backend := t.limits.map Limits.backend
  cache := t.cache
  proxy := t.proxy
  procs := t.procs

def store (s : State gw) (k : Fin gw.services.length) (t : ServiceChain.State Key) : State gw where
  slots := t.slots
  edge := s.edge
  redis := (t.limits.map Limits.redis).getD s.redis
  parts := Function.update s.parts k (partOf t)

variable (gw)

/-- The router gives a service the requests it routes there. -/
def routed (k : Fin gw.services.length) : ServiceChain.Event → Bool
  | .arrive _ r _ => gw.route r = some k
  | _ => true

def step (s : State gw) : Event gw → Option (State gw)
  | .service k e =>
    if ofService e = true ∧ routed gw k e = true then
      (ServiceChain.step gw.world (gw.services.get k) (view s k) e).map (store s k)
    else none
  | .enter r =>
    if gw.route r = none ∧ 0 < gw.config.maxInFlight ∧ (s.slots : Int) < gw.config.maxInFlight then
      some {s with slots := s.slots + 1, edge := s.edge + 1}
    else none
  | .leave => if 0 < s.edge then some {s with slots := s.slots - 1, edge := s.edge - 1} else none
  | .redis key stored => some {s with redis := Function.update s.redis key stored}

def start (redis : String → Option RedisLimiter.Key) : State gw where
  slots := 0
  edge := 0
  redis := redis
  parts k := partOf (ServiceChain.start (gw.services.get k) redis)

variable {gw}

def eventOf (k : Fin gw.services.length) : Event gw → Option ServiceChain.Event
  | .service j e => if j = k then some e else none
  | _ => none

end Machine

/-- What became of the slots: one was taken, within the limit, or given back while more than `kept`
were taken, or nothing. -/
inductive SlotsTurn (limit : Int) (kept n : Nat) : Nat → Prop
  | same : SlotsTurn limit kept n n
  | taken (hpos : 0 < limit) (hfree : (n : Int) < limit) : SlotsTurn limit kept n (n + 1)
  | givenBack (hmore : kept < n) : SlotsTurn limit kept n (n - 1)

def overwritten (change : Option (String × Option RedisLimiter.Key)) (redis : String → Option RedisLimiter.Key) :
    String → Option RedisLimiter.Key :=
  change.elim redis fun c => Function.update redis c.1 c.2

section Service
variable {w : World Key} {svc : Service Key} {s t : ServiceChain.State Key} {i : Nat} {p p' : Proc Key}

theorem allow_redis (script : RedisLimiter.Script) (l : Limits) (client : String) (now : Int) (call : RedisCall) :
    ∃ change, (l.allow script client now call).1.redis = overwritten change l.redis := by
  unfold Limits.allow
  split
  · exact ⟨none, rfl⟩
  · rename_i keyPrefix rate burst hbackend
    cases call with
    | answered gone => exact ⟨some (keyPrefix ++ client, _), rfl⟩
    | unanswered gone err => exact ⟨some (keyPrefix ++ client, _), rfl⟩
    | failed err => exact ⟨none, rfl⟩

/-- A step of a service writes at one key of Redis at most. -/
theorem redis_of_limits {e : ServiceChain.Event} (h : LimitsStep w s t e) :
    ∃ change, t.limits.map Limits.redis = (s.limits.map Limits.redis).map (overwritten change) := by
  cases h with
  | kept hnone hsame => exact ⟨none, by rw [hsame, Option.map_map]; rfl⟩
  | swept now hnone hswept =>
    refine ⟨none, ?_⟩
    rw [hswept, Option.map_map, Option.map_map]
    exact congrArg (s.limits.map ·) (funext fun l => cleanup_redis l now)
  | @called l client x hasked hl ht hon =>
    obtain ⟨change, hchange⟩ := allow_redis w.script l client x.now x.redis
    refine ⟨change, ?_⟩
    rw [ht, hl]
    exact congrArg some hchange

theorem own_slots (hreg : Regular svc) (hs : Sound w svc s) {holders : Finset Nat} (hslots : SlotsOf svc s holders)
    (hp : s.procs i = some p) (h : OwnTurn w svc s i p p' t) :
    SlotsTurn svc.maxInFlight s.others s.slots t.slots := by
  cases h.slots with
  | kept hslot hn => exact hn ▸ .same
  | @taken limit rest htodo hfree hslot hn =>
    have hmem : .concurrencyLimit limit ∈ svc.stack :=
      (hs.linked i p hp).suffix.mem (by simp [RequestLife.view, htodo])
    rw [hn, ← hreg.limit limit hmem]
    exact .taken (lt_of_le_of_lt (Int.natCast_nonneg _) hfree) hfree
  | givenBack hslot hslot' hn =>
    have hholds : 0 < holders.card := Finset.card_pos.mpr ⟨i, (hslots.mem i).mpr ⟨p, hp, hslot⟩⟩
    rw [hn]
    refine .givenBack ?_
    rw [hslots.count]
    exact Nat.lt_add_of_pos_right hholds

/-- What the surroundings of a service see of one of its steps. -/
structure SeenTurn (svc : Service Key) (s t : ServiceChain.State Key) : Prop where
  others : t.others = s.others
  slots : SlotsTurn svc.maxInFlight s.others s.slots t.slots
  redis : ∃ change, t.limits.map Limits.redis = (s.limits.map Limits.redis).map (overwritten change)

theorem seen_step (hreg : Regular svc) (hs : Sound w svc s) (hslots : ∃ holders, SlotsOf svc s holders)
    {e : ServiceChain.Event} (he : ofService e = true) (hstep : ServiceChain.step w svc s e = some t) :
    SeenTurn svc s t := by
  have hredis := redis_of_limits (limits_step he hstep)
  cases e with
  | arrive i r contentLength =>
    simp only [ServiceChain.step] at hstep
    split at hstep
    · cases hstep
      exact ⟨rfl, .same, hredis⟩
    · cases hstep
  | own i a =>
    obtain ⟨p, hp, hact⟩ := own_cases hstep
    obtain ⟨p', hturn⟩ := act_turn hp hact
    obtain ⟨holders, hslots⟩ := hslots
    exact ⟨hturn.others, own_slots hreg hs hslots hp hturn, hredis⟩
  | cleanup now =>
    cases hstep
    exact ⟨rfl, .same, hredis⟩
  | occupy => cases he
  | release => cases he
  | redis key stored => cases he

end Service

section Whole
variable {gw : Gateway Key} {s t : State gw} {k j : Fin gw.services.length} {e : Event gw}
  {redis : String → Option RedisLimiter.Key}

theorem get_mem (k : Fin gw.services.length) : gw.services.get k ∈ gw.services := List.get_mem _ _

theorem regular (k : Fin gw.services.length) : Regular (gw.services.get k) :=
  regular_of_built gw.built (get_mem k)

theorem maxInFlight_eq (k : Fin gw.services.length) : (gw.services.get k).maxInFlight = gw.config.maxInFlight := by
  obtain ⟨publicKey, sc, -, hsc, -⟩ := buildRouter_mem gw.built (get_mem k)
  simp only [buildService, Fallible.ite_error_eq_ok, Except.ok.injEq] at hsc
  rw [← hsc.2]

/-- What holds in every reachable state of the whole. -/
structure Accounted (s : State gw) : Prop where
  total : s.slots = s.edge + ∑ k, (s.parts k).held
  bound : (s.slots : Int) ≤ max gw.config.maxInFlight 0
  sound : ∀ k, Sound gw.world (gw.services.get k) (view s k)
  holders : ∀ k, ∃ holders, SlotsOf (gw.services.get k) (view s k) holders

theorem bound_of_turn {limit : Int} {kept n n' : Nat} (h : SlotsTurn limit kept n n') (hn : (n : Int) ≤ max limit 0) :
    (n' : Int) ≤ max limit 0 := by
  cases h with
  | same => exact hn
  | taken hpos hfree => omega
  | givenBack hmore => omega

theorem Accounted.held_le (h : Accounted s) (k : Fin gw.services.length) : s.edge + (s.parts k).held ≤ s.slots := by
  rw [h.total]
  exact Nat.add_le_add_left (Finset.single_le_sum_of_canonicallyOrdered (f := fun k => (s.parts k).held)
    (Finset.mem_univ k)) _

theorem Accounted.two_held_le (h : Accounted s) (hne : k ≠ j) : (s.parts j).held + (s.parts k).held ≤ s.slots := by
  rw [h.total, ← Finset.add_sum_erase _ _ (Finset.mem_univ j)]
  have hk := Finset.single_le_sum_of_canonicallyOrdered (f := fun k => (s.parts k).held)
    (Finset.mem_erase.mpr ⟨hne, Finset.mem_univ k⟩)
  omega

theorem view_start (k : Fin gw.services.length) :
    view (start gw redis) k = ServiceChain.start (gw.services.get k) redis := by
  simp only [view, start, partOf, ServiceChain.start, Option.map_map]
  rfl

theorem follows_slots (hheld : (s.parts k).held ≤ s.slots) {n : Nat}
    (hslots : SlotsTurn gw.config.maxInFlight (s.parts k).held s.slots n) :
    ∃ fs, exec (ServiceChain.step gw.world (gw.services.get k)) (view s k) fs = some (view {s with slots := n} k) ∧
      fs.filter ofService = [] := by
  cases hslots with
  | same => exact ⟨[], rfl, rfl⟩
  | taken hpos hfree =>
    have hothers : s.slots + 1 - (s.parts k).held = s.slots - (s.parts k).held + 1 := Nat.sub_add_comm hheld
    refine ⟨[.occupy], ?_, rfl⟩
    simp only [exec, ServiceChain.step, view, maxInFlight_eq, hpos, hfree, hothers, and_self, if_true,
      Option.bind_some]
  | givenBack hmore =>
    have hothers : s.slots - 1 - (s.parts k).held = s.slots - (s.parts k).held - 1 := Nat.sub_right_comm ..
    refine ⟨[.release], ?_, rfl⟩
    simp [exec, ServiceChain.step, view, hmore, hothers]

theorem follows_redis (change : Option (String × Option RedisLimiter.Key)) :
    ∃ fs, exec (ServiceChain.step gw.world (gw.services.get k)) (view s k) fs =
        some (view {s with redis := overwritten change s.redis} k) ∧
      fs.filter ofService = [] := by
  cases change with
  | none => exact ⟨[], rfl, rfl⟩
  | some c =>
    refine ⟨[.redis c.1 c.2], ?_, rfl⟩
    simp [exec, ServiceChain.step, view, overwritten, Function.comp_def]

theorem view_congr (hslots : t.slots = s.slots) (hredis : t.redis = s.redis) (hparts : t.parts k = s.parts k) :
    view t k = view s k := by
  rw [view, view, hslots, hredis, hparts]

/-- A service that does not move sees a step as steps of its surroundings. -/
theorem follows (hparts : t.parts k = s.parts k) (hheld : (s.parts k).held ≤ s.slots)
    (hslots : SlotsTurn gw.config.maxInFlight (s.parts k).held s.slots t.slots)
    (hredis : ∃ change, t.redis = overwritten change s.redis) :
    ∃ fs, exec (ServiceChain.step gw.world (gw.services.get k)) (view s k) fs = some (view t k) ∧
      fs.filter ofService = [] := by
  obtain ⟨change, hchange⟩ := hredis
  obtain ⟨fs, hfs, hown⟩ := follows_slots hheld hslots
  obtain ⟨fs', hfs', hown'⟩ := follows_redis (s := {s with slots := t.slots}) (k := k) change
  refine ⟨fs ++ fs', (exec_append_iff _).mpr ⟨_, hfs, hfs'.trans (congrArg some ?_)⟩, ?_⟩
  · symm
    exact view_congr rfl hchange hparts
  · rw [List.filter_append, hown, hown', List.append_nil]

/-- The sum with one part replaced. -/
theorem sum_held_update (f : Fin gw.services.length → Part Key) (j : Fin gw.services.length) (part : Part Key) :
    ∑ k, (Function.update f j part k).held + (f j).held = ∑ k, (f k).held + part.held := by
  rw [← Finset.add_sum_erase _ _ (Finset.mem_univ j), ← Finset.add_sum_erase _ (fun k => (f k).held) (Finset.mem_univ j),
    Function.update_self]
  have hrest : ∑ k ∈ Finset.univ.erase j, (Function.update f j part k).held =
      ∑ k ∈ Finset.univ.erase j, (f k).held := by
    refine Finset.sum_congr rfl fun k hk => ?_
    rw [Function.update_of_ne (Finset.ne_of_mem_erase hk)]
  omega

section Moving
variable {v : ServiceChain.State Key}

theorem view_store_self (hle : v.others ≤ v.slots) : view (store s j v) j = v := by
  have hlimits : (v.limits.map Limits.backend).map
      (fun backend => (⟨backend, (v.limits.map Limits.redis).getD s.redis⟩ : Limits)) = v.limits := by
    cases v.limits <;> rfl
  simp only [view, store, partOf, Function.update_self, Nat.sub_sub_self hle, hlimits]

theorem store_redis (h : ∃ change, v.limits.map Limits.redis =
      ((view s j).limits.map Limits.redis).map (overwritten change)) :
    ∃ change, (store s j v).redis = overwritten change s.redis := by
  obtain ⟨change, hchange⟩ := h
  cases hbackend : (s.parts j).backend with
  | none => exact ⟨none, by simp [store, hchange, view, hbackend, overwritten]⟩
  | some backend => exact ⟨change, by simp [store, hchange, view, hbackend]⟩

theorem total_store (h : Accounted s) (hseen : SeenTurn (gw.services.get j) (view s j) v) :
    (store s j v).slots = (store s j v).edge + ∑ k, ((store s j v).parts k).held := by
  have hsum := sum_held_update s.parts j (partOf v)
  have htotal := h.total
  have hle := h.held_le j
  have hothers : v.others = s.slots - (s.parts j).held := hseen.others
  have hslots : SlotsTurn _ (s.slots - (s.parts j).held) s.slots v.slots := hseen.slots
  have hheld : (partOf v).held = v.slots - v.others := rfl
  change v.slots = s.edge + ∑ k, (Function.update s.parts j (partOf v) k).held
  generalize v.slots = n at *
  cases hslots with
  | same => omega
  | taken hpos hfree => omega
  | givenBack hmore => omega

/-- A slot that a service gives back is none that another one holds. -/
theorem turn_of_other (h : Accounted s) (hne : k ≠ j) {limit : Int} {n : Nat}
    (hturn : SlotsTurn limit (s.slots - (s.parts j).held) s.slots n) :
    SlotsTurn limit (s.parts k).held s.slots n := by
  cases hturn with
  | same => exact .same
  | taken hpos hfree => exact .taken hpos hfree
  | givenBack hmore =>
    have hboth := h.two_held_le hne
    exact .givenBack (by omega)

theorem store_runs (h : Accounted s) {e : ServiceChain.Event} (he : ofService e = true)
    (hv : ServiceChain.step gw.world (gw.services.get j) (view s j) e = some v) (k : Fin gw.services.length) :
    ∃ fs, exec (ServiceChain.step gw.world (gw.services.get k)) (view s k) fs = some (view (store s j v) k) ∧
      fs.filter ofService = (eventOf k (.service j e)).toList := by
  obtain ⟨holders, hslots⟩ := h.holders j
  by_cases hkj : k = j
  · subst hkj
    obtain ⟨holders', hslots'⟩ := slotsOf_step (regular k) (h.sound k) hslots hv
    refine ⟨[e], ?_, ?_⟩
    · rw [view_store_self (hslots'.count ▸ Nat.le_add_right _ _)]
      exact (exec_cons_iff _).mpr ⟨v, hv, rfl⟩
    · simp [eventOf, he]
  · have hseen := seen_step (regular j) (h.sound j) ⟨holders, hslots⟩ he hv
    have hturn : SlotsTurn gw.config.maxInFlight (s.parts k).held s.slots v.slots :=
      maxInFlight_eq j ▸ turn_of_other h hkj hseen.slots
    obtain ⟨fs, hfs, hown⟩ := follows (t := store s j v) (Function.update_of_ne hkj ..)
      (le_trans (Nat.le_add_left ..) (h.held_le k)) hturn (store_redis hseen.redis)
    refine ⟨fs, hfs, hown.trans ?_⟩
    rw [eventOf, if_neg (Ne.symm hkj), Option.toList_none]

end Moving

theorem accounted_of_runs (h : Accounted s) (htotal : t.slots = t.edge + ∑ k, (t.parts k).held)
    (hbound : (t.slots : Int) ≤ max gw.config.maxInFlight 0)
    (hruns : ∀ k, ∃ fs, exec (ServiceChain.step gw.world (gw.services.get k)) (view s k) fs = some (view t k)) :
    Accounted t := by
  have hboth (k : Fin gw.services.length) := (hruns k).elim fun fs hfs =>
    exec_sound (regular k) hfs (h.sound k) (h.holders k)
  exact ⟨htotal, hbound, fun k => (hboth k).1, fun k => (hboth k).2⟩

inductive Turned (s : State gw) : Event gw → State gw → Prop
  | service {j : Fin gw.services.length} {e : ServiceChain.Event} {v : ServiceChain.State Key}
    (he : ofService e = true) (hrouted : routed gw j e = true)
    (hv : ServiceChain.step gw.world (gw.services.get j) (view s j) e = some v) :
    Turned s (.service j e) (store s j v)
  | enter {r : Request} (hpos : 0 < gw.config.maxInFlight) (hfree : (s.slots : Int) < gw.config.maxInFlight) :
    Turned s (.enter r) {s with slots := s.slots + 1, edge := s.edge + 1}
  | leave (hedge : 0 < s.edge) : Turned s .leave {s with slots := s.slots - 1, edge := s.edge - 1}
  | redis {key : String} {stored : Option RedisLimiter.Key} :
    Turned s (.redis key stored) {s with redis := Function.update s.redis key stored}

theorem step_cases (hstep : step gw s e = some t) : Turned s e t := by
  cases e with
  | service j e =>
    simp only [step] at hstep
    split at hstep
    · rename_i hguard
      obtain ⟨v, hv, rfl⟩ := Option.map_eq_some_iff.mp hstep
      exact .service hguard.1 hguard.2 hv
    · cases hstep
  | enter r =>
    simp only [step] at hstep
    split at hstep
    · rename_i hguard
      cases hstep
      exact .enter hguard.2.1 hguard.2.2
    · cases hstep
  | leave =>
    simp only [step] at hstep
    split at hstep
    · rename_i hedge
      cases hstep
      exact .leave hedge
    · cases hstep
  | redis key stored =>
    cases hstep
    exact .redis

/-- Every service follows a step of the whole, and the one that took it by this step. -/
theorem step_runs (h : Accounted s) (hstep : step gw s e = some t) (k : Fin gw.services.length) :
    ∃ fs, exec (ServiceChain.step gw.world (gw.services.get k)) (view s k) fs = some (view t k) ∧
      fs.filter ofService = (eventOf k e).toList := by
  have hheld := h.held_le k
  cases step_cases hstep with
  | service he hrouted hv => exact store_runs h he hv k
  | enter hpos hfree => exact follows rfl (by omega) (.taken hpos hfree) ⟨none, rfl⟩
  | leave hedge => exact follows rfl (by omega) (.givenBack (by omega)) ⟨none, rfl⟩
  | @redis key stored => exact follows rfl (by omega) .same ⟨some (key, stored), rfl⟩

theorem accounted_step (h : Accounted s) (hstep : step gw s e = some t) : Accounted t := by
  have hruns := fun k => (step_runs h hstep k).imp fun fs hfs => hfs.1
  have htotal := h.total
  have hbound := h.bound
  cases step_cases hstep with
  | @service j _ _ he hrouted hv =>
    have hseen := seen_step (regular j) (h.sound j) (h.holders j) he hv
    exact accounted_of_runs h (total_store h hseen) (bound_of_turn (maxInFlight_eq j ▸ hseen.slots) hbound) hruns
  | enter hpos hfree =>
    have hturn : SlotsTurn _ 0 s.slots (s.slots + 1) := .taken hpos hfree
    refine accounted_of_runs h ?_ (bound_of_turn hturn hbound) hruns
    change s.slots + 1 = s.edge + 1 + ∑ k, (s.parts k).held
    omega
  | leave hedge =>
    have hturn : SlotsTurn gw.config.maxInFlight 0 s.slots (s.slots - 1) := .givenBack (by omega)
    refine accounted_of_runs h ?_ (bound_of_turn hturn hbound) hruns
    change s.slots - 1 = s.edge - 1 + ∑ k, (s.parts k).held
    omega
  | redis => exact accounted_of_runs h htotal hbound hruns

theorem accounted_start : Accounted (start gw redis) where
  total := by
    change 0 = 0 + ∑ k : Fin gw.services.length, 0
    simp
  bound := le_max_right _ _
  sound k := by
    rw [view_start]
    exact sound_start (regular k) redis
  holders k := by
    rw [view_start]
    exact ⟨∅, slotsOf_start redis⟩

theorem accounted_run {es : List (Event gw)} (hs : Accounted s) (he : exec (step gw) s es = some t) : Accounted t :=
  visits_inductive (step gw) Accounted (fun _ _ _ => accounted_step) hs ⟨es, [], (List.append_nil es).symm, he⟩

/-- The part of a run that is a service's own, with the steps of the others around it. -/
theorem run_of_service {es : List (Event gw)} (hs : Accounted s) (he : exec (step gw) s es = some t)
    (k : Fin gw.services.length) :
    ∃ fs, exec (ServiceChain.step gw.world (gw.services.get k)) (view s k) fs = some (view t k) ∧
      fs.filter ofService = es.filterMap (eventOf k) :=
  exec_component (step gw) _ Accounted (view · k) ofService (eventOf k)
    (fun _ _ _ h hstep => ⟨accounted_step h hstep, step_runs h hstep k⟩) hs he

theorem routed_of_run {es : List (Event gw)} (he : exec (step gw) s es = some t) {e : ServiceChain.Event}
    (hin : .service k e ∈ es) : routed gw k e = true := by
  obtain ⟨before, after, rfl⟩ := List.append_of_mem hin
  obtain ⟨u, -, hrest⟩ := (exec_append_iff _).mp he
  obtain ⟨u', hstep, -⟩ := (exec_cons_iff _).mp hrest
  cases step_cases hstep with
  | service he hrouted hv => exact hrouted

theorem mem_of_eventOf {es : List (Event gw)} {e : ServiceChain.Event} (hin : e ∈ es.filterMap (eventOf k)) :
    .service k e ∈ es := by
  obtain ⟨e', he', hevent⟩ := List.mem_filterMap.mp hin
  cases e' with
  | service j e₀ =>
    obtain ⟨rfl, rfl⟩ := Option.ite_none_right_eq_some.mp hevent |>.imp id Option.some.inj
    exact he'
  | enter r => cases hevent
  | leave => cases hevent
  | redis key stored => cases hevent

theorem Accounted.card_holders (h : Accounted s) {holders : Finset Nat}
    (hslots : SlotsOf (gw.services.get k) (view s k) holders) : holders.card = (s.parts k).held := by
  have hcount : s.slots = s.slots - (s.parts k).held + holders.card := hslots.count
  have hheld := h.held_le k
  omega

/-- Whatever the services of a gateway and its surroundings do in whatever order, each service is
where a run of its own would have led it, with the requests that the router gave it, and the slots
that are taken are those of the requests that hold one, within the limit. -/
theorem gateway_composes {es : List (Event gw)} (he : exec (step gw) (start gw redis) es = some s) :
    (∀ k, ∃ fs, exec (ServiceChain.step gw.world (gw.services.get k))
        (ServiceChain.start (gw.services.get k) redis) fs = some (view s k) ∧
      fs.filter ofService = es.filterMap (eventOf k) ∧
      ∀ i r contentLength, .arrive i r contentLength ∈ fs → gw.route r = some k) ∧
    (s.slots : Int) ≤ max gw.config.maxInFlight 0 ∧
    ∃ holders : Fin gw.services.length → Finset Nat,
      (∀ k i, i ∈ holders k ↔ ∃ p, (s.parts k).procs i = some p ∧ p.slot = true) ∧
      s.slots = s.edge + ∑ k, (holders k).card := by
  have h := accounted_run accounted_start he
  refine ⟨?_, h.bound, ?_⟩
  · intro k
    obtain ⟨fs, hfs, hown⟩ := run_of_service accounted_start he k
    refine ⟨fs, view_start k ▸ hfs, hown, ?_⟩
    intro i r contentLength hin
    have harrive : .arrive i r contentLength ∈ fs.filter ofService := List.mem_filter.mpr ⟨hin, rfl⟩
    rw [hown] at harrive
    exact of_decide_eq_true (routed_of_run he (mem_of_eventOf harrive))
  · choose holders hslots using h.holders
    refine ⟨holders, fun k => (hslots k).mem, h.total.trans ?_⟩
    simp only [h.card_holders (hslots _)]

def ownerOf : Event gw → Option (Fin gw.services.length × Nat)
  | .service k e => (owner e).map (k, ·)
  | _ => none

def arrivalAt : Event gw → Option (Fin gw.services.length × Nat)
  | .service k e => (arrivalOf e).map (k, ·)
  | _ => none

def rankOf (s : State gw) (ki : Fin gw.services.length × Nat) : Nat :=
  rank (gw.services.get ki.1) (view s ki.1) ki.2

theorem stack_length_le (k : Fin gw.services.length) : (gw.services.get k).stack.length ≤ 12 := by
  obtain ⟨publicKey, sc, -, hsc, -⟩ := buildRouter_mem gw.built (get_mem k)
  simp only [buildService, Fallible.ite_error_eq_ok, Except.ok.injEq] at hsc
  rw [← hsc.2]
  simpa using (places_sublist gw.config publicKey sc
    (buildServiceLimiter sc gw.config (buildRedisClient gw.config))).length_le

/-- The requests of all services are the parties of the whole, with the ranks they have in theirs. -/
theorem descends_whole : Descends (step gw) ownerOf Accounted rankOf where
  keep _ _ _ := accounted_step
  own := by
    rintro s e t ⟨k, i⟩ hs hstep howner
    obtain ⟨fs, hfs, hown⟩ := step_runs hs hstep k
    have hrank := (descends (regular k)).countP_add_rank_le (hs.sound k) hfs i
    cases e with
    | service j e =>
      obtain ⟨i', hi', heq⟩ := Option.map_eq_some_iff.mp howner
      cases heq
      rw [eventOf, if_pos rfl, Option.toList_some] at hown
      have hin : e ∈ fs := List.mem_of_mem_filter (hown ▸ List.mem_singleton_self e)
      have hpos : 0 < fs.countP fun e => owner e = some i := List.countP_pos_iff.mpr ⟨e, hin, by simp [hi']⟩
      exact lt_of_lt_of_le (Nat.lt_add_of_pos_left hpos) hrank
    | _ => cases howner
  others := by
    rintro s e t ⟨k, i⟩ hs hstep -
    obtain ⟨fs, hfs, -⟩ := step_runs hs hstep k
    exact le_trans (Nat.le_add_left ..) ((descends (regular k)).countP_add_rank_le (hs.sound k) hfs i)

theorem arrivals_eq {es : List (Event gw)} {fs : List ServiceChain.Event}
    (h : fs.filter ofService = es.filterMap (eventOf k)) {i : Nat} (hin : i ∈ fs.filterMap arrivalOf) :
    (k, i) ∈ es.filterMap arrivalAt := by
  obtain ⟨e, he, harrival⟩ := List.mem_filterMap.mp hin
  have hof : ofService e = true := by
    cases e with
    | arrive i r contentLength => rfl
    | _ => cases harrival
  have hmem : e ∈ fs.filter ofService := List.mem_filter.mpr ⟨he, hof⟩
  rw [h] at hmem
  refine List.mem_filterMap.mpr ⟨.service k e, mem_of_eventOf hmem, ?_⟩
  rw [arrivalAt, harrival, Option.map_some]

/-- Whoever is in a chain came in before or comes in along the run. -/
theorem arrived_whole {es : List (Event gw)} (hs : Accounted s) (he : exec (step gw) s es = some t) {i : Nat}
    (hi : (t.parts k).procs i ≠ none) : (s.parts k).procs i ≠ none ∨ (k, i) ∈ es.filterMap arrivalAt := by
  obtain ⟨fs, hfs, hown⟩ := run_of_service hs he k
  exact (arrived_of_present hfs hi).imp id (arrivals_eq hown)

theorem present_whole {fs : List (Event gw)} (hs : Accounted s) (hf : exec (step gw) s fs = some t)
    (hfs : ∀ e ∈ fs, ∃ k i a, e = .service k (.own i a)) {i : Nat} {a : Action}
    (hin : .service k (.own i a) ∈ fs) : (s.parts k).procs i ≠ none := by
  obtain ⟨before, after, rfl⟩ := List.append_of_mem hin
  obtain ⟨u, hu, hrest⟩ := (exec_append_iff _).mp hf
  obtain ⟨u', hstep, -⟩ := (exec_cons_iff _).mp hrest
  cases step_cases hstep with
  | service he hrouted hv =>
    obtain ⟨p, hp, -⟩ := own_cases hv
    refine (arrived_whole hs hu (Option.ne_none_iff_exists'.mpr ⟨p, hp⟩)).resolve_right ?_
    -- Nobody comes in along the run: it has steps of requests only.
    intro harrived
    obtain ⟨e, he, harrival⟩ := List.mem_filterMap.mp harrived
    obtain ⟨k', i', a', rfl⟩ := hfs e (List.mem_append_left _ he)
    cases harrival

/-- Nobody of rank zero takes another step. -/
theorem stuck_of_rank (hs : Accounted s) (h : ∀ k i, (s.parts k).procs i ≠ none → rankOf s (k, i) = 0)
    (k : Fin gw.services.length) (i : Nat) (a : Action) : step gw s (.service k (.own i a)) = none := by
  refine Option.eq_none_iff_forall_ne_some.mpr fun t hstep => ?_
  have hlt : rankOf t (k, i) < rankOf s (k, i) := descends_whole.own _ _ _ (k, i) hs hstep rfl
  cases step_cases hstep with
  | service he hrouted hv =>
    obtain ⟨p, hp, -⟩ := own_cases hv
    rw [h k i (Option.ne_none_iff_exists'.mpr ⟨p, hp⟩)] at hlt
    exact absurd hlt (Nat.not_lt_zero _)

/-- When all requests are answered, only the gateway's own answers hold slots. -/
theorem slots_eq_edge (ht : Accounted t)
    (hall : ∀ (k : Fin gw.services.length) i p, (t.parts k).procs i = some p → Settled p) : t.slots = t.edge := by
  have hnone (k : Fin gw.services.length) : (t.parts k).held = 0 := by
    obtain ⟨holders, hslots⟩ := ht.holders k
    have hslots' : t.slots = t.slots - (t.parts k).held := slots_of_settled hslots (hall k)
    have hheld := ht.held_le k
    omega
  rw [ht.total, Finset.sum_eq_zero fun k _ => hnone k, Nat.add_zero]

/-- A request of a gateway takes at most 24 steps. Once no more requests arrive, the requests of all
services take a bounded number of steps together, and when none of them can take another one, all
of them are answered, no call of a cache and no request to an upstream is left, and nobody holds a
slot but the gateway's own answers. -/
theorem gateway_drains {es fs : List (Event gw)} (he : exec (step gw) (start gw redis) es = some s)
    (hfs : ∀ e ∈ fs, ∃ k i a, e = .service k (.own i a)) (hf : exec (step gw) s fs = some t) :
    (∀ k i, (es.countP fun e => ownerOf e = some (k, i)) ≤ 24) ∧
    fs.length ≤ (es.filterMap arrivalAt).length * 23 ∧
    ((∀ k i a, step gw t (.service k (.own i a)) = none) →
      t.slots = t.edge ∧ ∀ k, (∀ i p, (t.parts k).procs i = some p → Settled p) ∧
        (∀ key, (t.parts k).cache.calls.lookup key = none) ∧ ∀ i, (t.parts k).proxy.inFlight.lookup i = none) := by
  have hs := accounted_run accounted_start he
  have ht := accounted_run hs hf
  refine ⟨?_, ?_, ?_⟩
  · intro k i
    have hbound := descends_whole.countP_add_rank_le accounted_start he (k, i)
    have hstart : rankOf (start gw redis) (k, i) = (gw.services.get k).stack.length + 12 := rfl
    have hstack := stack_length_le k
    omega
  · let A := (es.filterMap arrivalAt).toFinset.filter fun ki => ((s.parts ki.1).procs ki.2).isSome = true
    have hrank : ∀ ki ∈ A, rankOf s ki ≤ 23 := by
      rintro ⟨k, i⟩ hi
      obtain ⟨p, hp⟩ := Option.isSome_iff_exists.mp (Finset.mem_filter.mp hi).2
      have hle := rank_le (hs.sound k) hp
      have hstack := stack_length_le k
      exact hle.trans (Nat.add_le_add_right hstack 11)
    have howner : ∀ e ∈ fs, ∃ ki ∈ A, ownerOf e = some ki := by
      intro e hin
      obtain ⟨k, i, a, rfl⟩ := hfs e hin
      have hi := present_whole hs hf hfs hin
      refine ⟨(k, i), Finset.mem_filter.mpr ⟨?_, Option.isSome_iff_ne_none.mpr hi⟩, rfl⟩
      exact List.mem_toFinset.mpr ((arrived_whole accounted_start he hi).resolve_left fun hne => hne rfl)
    calc
      fs.length ≤ ∑ ki ∈ A, rankOf s ki := descends_whole.length_le_sum hs A howner hf
      _ ≤ A.card * 23 := Finset.sum_le_card_nsmul A _ 23 hrank
      _ ≤ _ := Nat.mul_le_mul_right _ ((Finset.card_filter_le _ _).trans (List.toFinset_card_le _))
  · intro hstuck
    have hall (k : Fin gw.services.length) : ∀ i p, (t.parts k).procs i = some p → Settled p := by
      refine settled_of_stuck (ht.sound k) ?_
      rintro i ⟨a, u, hu⟩
      have hstep := hstuck k i a
      rw [step, if_pos ⟨rfl, rfl⟩, hu] at hstep
      cases hstep
    exact ⟨slots_eq_edge ht hall, fun k => ⟨hall k, idle_of_settled (ht.sound k) (hall k)⟩⟩

end Whole

/-- Two services with two slots, the paths of the second inside those of the first. -/
def paired : GatewayConfig :=
  {halfPerSecondFilled (2 * second) with
    maxInFlight := 2
    services :=
      [⟨"users", "/users", ["http://users:8080"], false, [], none, none⟩,
       ⟨"admin", "/users/admin", ["http://admin:8080"], false, [], none, none⟩]}

def getPath (path : String) : Request := ⟨"GET", ⟨path, "", []⟩, .empty, "gateway", "10.0.0.1:40000", false⟩

def pairedGateway : Gateway Unit where
  world := sampleWorld
  config := paired
  services := (buildRouter sampleWorld paired).toOption.getD []
  built := rfl
  route r :=
    if r.url.path = "/users/7" then some ⟨0, by decide⟩
    else if r.url.path = "/users/admin/7" then some ⟨1, by decide⟩
    else none

def users : Fin pairedGateway.services.length := ⟨0, by decide⟩

def admin : Fin pairedGateway.services.length := ⟨1, by decide⟩

/-- Both services get a request. The second is answered and gives its slot back, and the gateway
takes it for an answer of its own. -/
def threePaths : List (Event pairedGateway) :=
  .service users (.arrive 0 (getPath "/users/7") 0) :: (passes 0 7).map (.service users) ++
  .service admin (.arrive 0 (getPath "/users/admin/7") 0) :: (passes 0 8).map (.service admin) ++
  [.service admin (.own 0 (.serve (some "http://admin:8080") 0)),
    .service admin (.own 0 (.roundTrip (.response publicAnswer) 0)), .service admin (.own 0 .leave),
    .enter (getPath "/healthz")]

theorem gateway_composes_three :
    ∃ s, exec (step pairedGateway) (start pairedGateway fun _ => none) threePaths = some s ∧
      (s.slots, s.edge) = (2, 1) ∧ (s.slots : Int) ≤ 2 ∧
      ∃ fs, exec (ServiceChain.step sampleWorld (pairedGateway.services.get admin))
          (ServiceChain.start (pairedGateway.services.get admin) fun _ => none) fs = some (view s admin) ∧
        fs.filter ofService = threePaths.filterMap (eventOf admin) := by
  have hrun : (exec (step pairedGateway) (start pairedGateway fun _ => none) threePaths).map
      (fun s => (s.slots, s.edge)) = some (2, 1) := by
    decide +kernel
  obtain ⟨s, hs, hslots⟩ := Option.map_eq_some_iff.mp hrun
  obtain ⟨hruns, hbound, -⟩ := gateway_composes hs
  obtain ⟨fs, hfs, hown, -⟩ := hruns admin
  exact ⟨s, hs, hslots, hbound, fs, hfs, hown⟩

/-- What is left of the first request. -/
def lastSteps : List (Event pairedGateway) :=
  (passes 0 1).map (.service users) ++
  [.service users (.own 0 (.serve (some "http://users:8080") 0)),
    .service users (.own 0 (.roundTrip (.response publicAnswer) 0)), .service users (.own 0 .leave)]

/-- The run ends with nobody able to take another step. -/
theorem gateway_drains_three :
    ∃ s t, exec (step pairedGateway) (start pairedGateway fun _ => none) threePaths = some s ∧
      exec (step pairedGateway) s lastSteps = some t ∧
      (threePaths.countP fun e => ownerOf e = some (admin, 0)) ≤ 24 ∧
      lastSteps.length ≤ (threePaths.filterMap arrivalAt).length * 23 ∧
      (∀ k i a, step pairedGateway t (.service k (.own i a)) = none) ∧ t.slots = t.edge := by
  have hrun : ((exec (step pairedGateway) (start pairedGateway fun _ => none) threePaths).bind fun s =>
      (exec (step pairedGateway) s lastSteps).map fun t => (rankOf t (users, 0), rankOf t (admin, 0))) =
        some (0, 0) := by
    decide +kernel
  obtain ⟨s, hs, hlast⟩ := Option.bind_eq_some_iff.mp hrun
  obtain ⟨t, hf, hranks⟩ := Option.map_eq_some_iff.mp hlast
  have hown : ∀ e ∈ lastSteps, ∃ k i a, e = .service k (.own i a) := by
    simp [lastSteps, passes]
  have harrivals : (threePaths ++ lastSteps).filterMap arrivalAt = [(users, 0), (admin, 0)] := by
    decide +kernel
  have hwhole := (exec_append_iff _).mpr ⟨s, hs, hf⟩
  have hstuck := stuck_of_rank (accounted_run accounted_start hwhole) fun k i hi => by
    have harrived := (arrived_whole accounted_start hwhole hi).resolve_left fun hne => hne rfl
    rw [harrivals] at harrived
    rcases List.mem_pair.mp harrived with heq | heq
    · rw [heq]
      exact congrArg Prod.fst hranks
    · rw [heq]
      exact congrArg Prod.snd hranks
  obtain ⟨hcount, hlength, hempty⟩ := gateway_drains hs hown hf
  exact ⟨s, t, hs, hf, hcount admin 0, hlength, hstuck, (hempty hstuck).1⟩

end ApiGateway.GatewayRuns
