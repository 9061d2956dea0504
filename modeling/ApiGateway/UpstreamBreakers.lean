import ApiGateway.BreakerTrace
import ApiGateway.RequestLife

/-!
# The breaker of each upstream

The requests of a service share one breaker for each upstream. A step of the chain calls at most
one of them, once: `Allow` when the proxy has picked the upstream for a request, `RecordSuccess` or
`RecordFailure` when the round trip of a request comes back. So in every run the breaker of an
upstream is what a breaker alone becomes by the calls of that upstream, in their order, and what is
known of one breaker holds for each upstream of a running service: once it has opened, `Allow` lets no
request on to it until its time-out has run, whatever all the other requests do. (A request that was let
on before may still be sent.)
-/

namespace ApiGateway.UpstreamBreakers

open Runs CircuitBreaker BreakerTrace ServiceChain ProtectedService RequestLife
open ProxyHandler (Handler Outcome setBreaker)
set_option autoImplicit false

variable {Key : Type}

/-- What a round trip tells the breaker; the answer to an over-long body tells it nothing. -/
def outcomeCall (outcome : Outcome) (now : Int) : Option Call :=
  match outcome with
  | .response status => some ⟨if status ≥ 500 then .recordFailure else .recordSuccess, now⟩
  | .failed err => if err.maxBytes then none else some ⟨.recordFailure, now⟩
  | .unsent => some ⟨.recordFailure, now⟩

/-- The call that an event of the handler makes on the breaker of `u`. -/
def callOn (u : String) (h : Handler) : ProxyHandler.Event → Option Call
  | .arrive _ next now => if next = some u then some ⟨.allow, now⟩ else none
  | .finish id outcome now => if h.inFlight.lookup id = some u then outcomeCall outcome now else none
  | .switch id now => if h.inFlight.lookup id = some u then outcomeCall (.response 101) now else none
  | .unswitched v now => if v = u then outcomeCall (.failed ProxyHandler.protocolError) now else none
  | .switched _ => none

/-- What a step of the chain does at the handler. -/
def proxyEvent (svc : Service Key) (s : State Key) : Event → Option ProxyHandler.Event
  | .own i (.serve next now) =>
    (s.procs i).bind fun p =>
      (stripPrefix svc.config.pathPrefix p.request).map fun _ => .arrive i next now
  | .own i (.roundTrip result now) => some (.finish i result.outcome now)
  | _ => none

def callAt (svc : Service Key) (u : String) (s : State Key) (e : Event) : Option Call :=
  (proxyEvent svc s e).bind (callOn u s.proxy)

section Handler
variable {h t : Handler} {u v : String}

theorem breakers_set (h : Handler) (v : String) (b : Breaker) (u : String) :
    (setBreaker h v b).breakers u = if u = v then some b else h.breakers u := by
  by_cases hu : u = v
  · subst hu
    simp [setBreaker]
  · simp [setBreaker, hu]

theorem serveHTTP_breakers (h : Handler) (next : Option String) (now : Int) (u : String) :
    (ProxyHandler.serveHTTP h next now).1.breakers u =
      if next = some u then (h.breakers u).map fun b => (allow b now).1 else h.breakers u := by
  cases next with
  | none => rfl
  | some v =>
    simp only [ProxyHandler.serveHTTP, ProxyHandler.mustGetBreaker]
    cases hb : h.breakers v with
    | none =>
      by_cases hu : v = u
      · subst hu
        simp [hb]
      · simp [hu]
    | some b =>
      have hset : (setBreaker h v (allow b now).1).breakers u =
          if some v = some u then (h.breakers u).map fun b => (allow b now).1 else h.breakers u := by
        rw [breakers_set]
        by_cases hu : v = u
        · subst hu
          simp [hb]
        · simp [hu, Ne.symm hu]
      rcases hallow : allow b now with ⟨b', err⟩
      rw [hallow] at hset
      cases err with
      | none => simpa [hallow] using hset
      | some err => simpa [hallow] using hset

theorem breakers_arrive {id : Nat} {next : Option String} {now : Int}
    (hs : ProxyHandler.step h (.arrive id next now) = some t) (u : String) :
    t.breakers u = (h.breakers u).map fun b => after b (callOn u h (.arrive id next now)).toList := by
  have hbreakers := serveHTTP_breakers h next now u
  have ht : t.breakers u = (ProxyHandler.serveHTTP h next now).1.breakers u := by
    simp only [ProxyHandler.step] at hs
    split at hs
    · cases hs
    · split at hs
      · rename_i heq
        cases hs
        rw [heq]
      · rename_i heq
        cases hs
        rw [heq]
  rw [ht, hbreakers]
  by_cases hnext : next = some u
  · simp [callOn, hnext, perform]
  · simp [callOn, hnext]

theorem callback_breakers (h : Handler) (v : String) (outcome : Outcome) (now : Int) (u : String) :
    (ProxyHandler.callback h v outcome now).breakers u =
      if v = u then (h.breakers u).map fun b => after b (outcomeCall outcome now).toList else h.breakers u := by
  cases hb : h.breakers v with
  | none =>
    rw [ProxyHandler.callback_unknown hb]
    by_cases hu : v = u
    · subst hu
      simp [hb]
    · simp [hu]
  | some b =>
    rw [ProxyHandler.callback_known hb]
    by_cases hu : v = u
    · subst hu
      cases outcome with
      | response status =>
        by_cases hstatus : status ≥ 500
        · simp [breakers_set, hb, outcomeCall, perform, hstatus]
        · simp [breakers_set, hb, outcomeCall, perform, hstatus]
      | failed err =>
        by_cases hm : err.maxBytes = true
        · simp [hb, outcomeCall, hm]
        · simp [breakers_set, hb, outcomeCall, perform, hm]
      | unsent => simp [breakers_set, hb, outcomeCall, perform]
    · cases outcome with
      | response status => simp [breakers_set, hu, Ne.symm hu]
      | failed err =>
        by_cases hm : err.maxBytes = true
        · simp [hm, hu]
        · simp [breakers_set, hm, hu, Ne.symm hu]
      | unsent => simp [breakers_set, hu, Ne.symm hu]

/-- An event of the handler calls the breaker of each upstream as `callOn` says. -/
theorem breakers_event {e : ProxyHandler.Event} (hs : ProxyHandler.step h e = some t) (u : String) :
    t.breakers u = (h.breakers u).map fun b => after b (callOn u h e).toList := by
  have hcallback {v : String} {outcome : Outcome} {now : Int} :
      (ProxyHandler.callback h v outcome now).breakers u = (h.breakers u).map fun b =>
        after b (if v = u then outcomeCall outcome now else none).toList := by
    rw [callback_breakers]
    by_cases hu : v = u
    · simp [hu]
    · simp [hu]
  cases e with
  | arrive id next now => exact breakers_arrive hs u
  | finish id outcome now =>
    obtain ⟨v, hv, rfl⟩ := Option.map_eq_some_iff.mp hs
    simp only [callOn, hv, Option.some.injEq]
    exact hcallback
  | switch id now =>
    obtain ⟨v, hv, rfl⟩ := Option.map_eq_some_iff.mp hs
    simp only [callOn, hv, Option.some.injEq]
    exact hcallback
  | unswitched v now =>
    obtain ⟨-, rfl⟩ := Option.ite_none_right_eq_some.mp hs |>.imp id Option.some.inj
    exact hcallback
  | switched v =>
    obtain ⟨-, rfl⟩ := Option.ite_none_right_eq_some.mp hs |>.imp id Option.some.inj
    simp [callOn]

end Handler

section Chain
variable {w : World Key} {svc : Service Key} {s t : State Key} {i : Nat} {p : Proc Key}

theorem answer_proxy {ops : List Compress.Op} (h : answer w svc s i p ops = some t) : t.proxy = s.proxy := by
  unfold answer at h
  split at h
  · obtain ⟨c, -, rfl⟩ := Option.map_eq_some_iff.mp h
    rfl
  · cases h
    rfl

theorem fail_proxy (h : fail w svc s i p = some t) : t.proxy = s.proxy := by
  unfold fail at h
  split at h
  · obtain ⟨c, -, rfl⟩ := Option.map_eq_some_iff.mp h
    rfl
  · cases h
    rfl

/-- The handler is called by a request that has got to it, and by nobody else. -/
theorem proxy_kept {a : Action} (hp : s.procs i = some p) (hact : act w svc s i p a = some t)
    (hnone : proxyEvent svc s (.own i a) = none) : t.proxy = s.proxy := by
  obtain ⟨p', hturn⟩ := act_turn hp hact
  cases hturn.handler with
  | inl hsame => exact hsame
  | inr hhandled =>
    cases a with
    | serve next now =>
      simp only [proxyEvent, hp, Option.bind_some, Option.map_eq_none_iff] at hnone
      simp only [act] at hact
      split at hact
      · rw [serve, hnone] at hact
        exact answer_proxy hact
      · cases hact
    | roundTrip result now => cases hnone
    | _ =>
      generalize hpc : p.pc = pc at hhandled
      generalize htodo : p.todo = todo at hhandled
      cases hhandled <;> simp [act, hpc, htodo] at hact

theorem proxy_own {a : Action} {e : ProxyHandler.Event} (hp : s.procs i = some p)
    (hact : act w svc s i p a = some t) (he : proxyEvent svc s (.own i a) = some e) :
    ProxyHandler.step s.proxy e = some t.proxy := by
  cases a with
  | serve next now =>
    simp only [proxyEvent, hp, Option.bind_some, Option.map_eq_some_iff] at he
    obtain ⟨r, hr, rfl⟩ := he
    simp only [act] at hact
    split at hact
    · rw [serve, hr] at hact
      obtain ⟨h, hstep, hact⟩ := Option.bind_eq_some_iff.mp hact
      rw [hstep]
      split at hact
      · cases hact
        rfl
      · rw [answer_proxy hact]
      · rw [fail_proxy hact]
    · cases hact
  | roundTrip result now =>
    cases he
    simp only [act] at hact
    split at hact
    · obtain ⟨target, -, hact⟩ := Option.bind_eq_some_iff.mp hact
      obtain ⟨h, hstep, hact⟩ := Option.bind_eq_some_iff.mp hact
      rw [hstep]
      split at hact
      · rw [answer_proxy hact]
      · rw [fail_proxy hact]
      · split at hact
        · rw [answer_proxy hact]
        · rw [fail_proxy hact]
    · cases hact
  | _ => cases he

theorem breakers_step {e : Event} (hstep : step w svc s e = some t) (u : String) :
    t.proxy.breakers u = (s.proxy.breakers u).map fun b => after b (callAt svc u s e).toList := by
  cases he : proxyEvent svc s e with
  | none =>
    have hsame : t.proxy = s.proxy := by
      rcases own_or_aside hstep with ⟨k, a, rfl⟩ | ⟨-, hproxy⟩
      · obtain ⟨p, hp, hact⟩ := own_cases hstep
        exact proxy_kept hp hact he
      · exact hproxy
    simp [callAt, he, hsame]
  | some e' =>
    have hproxy : ProxyHandler.step s.proxy e' = some t.proxy := by
      cases e with
      | own k a =>
        obtain ⟨p, hp, hact⟩ := own_cases hstep
        exact proxy_own hp hact he
      | _ => cases he
    rw [callAt, he, Option.bind_some]
    exact breakers_event hproxy u

theorem breakers_run {es : List Event} (he : exec (step w svc) s es = some t) (u : String) :
    t.proxy.breakers u =
      (s.proxy.breakers u).map fun b => after b (outputs (step w svc) (callAt svc u) s es) := by
  induction es generalizing s with
  | nil =>
    cases he
    simp [outputs]
  | cons e es ih =>
    obtain ⟨s', hstep, hrest⟩ := (exec_cons_iff _).mp he
    rw [ih hrest, breakers_step hstep u, Option.map_map]
    simp only [outputs, hstep, after_append]
    rfl

/-- `Allow` has let the request on: it is with the reverse proxy. -/
def LetOn (t : State Key) (i : Nat) : Prop := ∃ p, t.procs i = some p ∧ p.pc = .proxied

theorem put_not_letOn {s' : State Key} {p' : Proc Key} (hpc : p'.pc ≠ .proxied) :
    ¬ LetOn (put s' i p') i := by
  rintro ⟨q, hq, hq'⟩
  rcases Tables.update_cases hq with ⟨-, rfl⟩ | ⟨hne, -⟩
  · exact hpc hq'
  · exact hne rfl

theorem answer_not_letOn {ops : List Compress.Op} (h : answer w svc s i p ops = some t) :
    ¬ LetOn t i := by
  unfold answer at h
  split at h
  · obtain ⟨c, -, rfl⟩ := Option.map_eq_some_iff.mp h
    exact put_not_letOn nofun
  · cases h
    exact put_not_letOn nofun

theorem fail_not_letOn (h : fail w svc s i p = some t) : ¬ LetOn t i := by
  unfold fail at h
  split at h
  · obtain ⟨c, -, rfl⟩ := Option.map_eq_some_iff.mp h
    exact put_not_letOn nofun
  · cases h
    exact put_not_letOn nofun

/-- A request is let on to an upstream only if the breaker there admits it. -/
theorem admitted_of_letOn {u : String} {now : Int}
    (hstep : step w svc s (.own i (.serve (some u) now)) = some t) (hf : LetOn t i) :
    callAt svc u s (.own i (.serve (some u) now)) = some ⟨.allow, now⟩ ∧
      ∃ b, s.proxy.breakers u = some b ∧ admits b ⟨.allow, now⟩ = true := by
  obtain ⟨p, hp, hact⟩ := own_cases hstep
  simp only [act] at hact
  split at hact
  · unfold serve at hact
    split at hact
    · exact absurd hf (answer_not_letOn hact)
    · rename_i r hr
      obtain ⟨h, -, hact⟩ := Option.bind_eq_some_iff.mp hact
      refine ⟨by simp [callAt, proxyEvent, hp, hr, callOn], ?_⟩
      split at hact
      · rename_i target hserved
        simp only [ProxyHandler.serveHTTP, ProxyHandler.mustGetBreaker] at hserved
        cases hb : s.proxy.breakers u with
        | none => simp [hb] at hserved
        | some b =>
          refine ⟨b, rfl, ?_⟩
          rcases hallow : allow b now with ⟨b', err⟩
          cases err with
          | none => simp [admits, hallow]
          | some err => simp [hb, hallow] at hserved
      · exact absurd hf (answer_not_letOn hact)
      · exact absurd hf (fail_not_letOn hact)
  · cases hact

theorem outcomeCall_now {outcome : Outcome} {now : Int} {c : Call} (h : outcomeCall outcome now = some c) :
    c.now = now := by
  cases outcome with
  | response status =>
    cases h
    rfl
  | failed err =>
    obtain ⟨-, h⟩ := Option.ite_none_left_eq_some.mp h
    cases h
    rfl
  | unsent =>
    cases h
    rfl

/-- What opens a breaker is a round trip that failed. -/
theorem opened_by {e : Event} {u : String} {b b' : Breaker} (hstep : step w svc s e = some t)
    (hb : s.proxy.breakers u = some b) (hb' : t.proxy.breakers u = some b') (hnot : b.state ≠ .stateOpen)
    (hopen : b'.state = .stateOpen) :
    ∃ k result now op, e = .own k (.roundTrip result now) ∧ callAt svc u s e = some ⟨op, now⟩ ∧
      b' = perform b ⟨op, now⟩ := by
  have hcall := breakers_step hstep u
  rw [hb, hb', Option.map_some, Option.some.injEq] at hcall
  cases hat : callAt svc u s e with
  | none =>
    rw [hat] at hcall
    rw [hcall] at hopen
    exact absurd hopen hnot
  | some c =>
    obtain ⟨op, now⟩ := c
    rw [hat] at hcall
    obtain ⟨e', he', hon⟩ := Option.bind_eq_some_iff.mp hat
    cases e with
    | own k a =>
      cases a with
      | serve next now' =>
        -- `Allow` opens nothing.
        obtain ⟨p, hp, hsome⟩ := Option.bind_eq_some_iff.mp he'
        obtain ⟨r, -, rfl⟩ := Option.map_eq_some_iff.mp hsome
        simp only [callOn] at hon
        split at hon
        · cases hon
          rw [hcall] at hopen
          exact absurd (allow_stays_open b now hopen).1 hnot
        · cases hon
      | roundTrip result now' =>
        cases he'
        simp only [callOn] at hon
        split at hon
        · obtain rfl : now = now' := outcomeCall_now hon
          exact ⟨k, result, now, op, rfl, rfl, hcall⟩
        · cases hon
      | _ => cases he'
    | _ => cases he'

/-- Once the breaker of an upstream has opened, no request is let on to it before its time-out has
run, in every run from then on and whatever the other requests do. -/
theorem open_upstream_rests {u : String} {b b' : Breaker} {e : Event} {between : List Event} {s₁ s₂ s₃ : State Key}
    {now : Int} (hopening : step w svc s e = some s₁) (hb : s.proxy.breakers u = some b)
    (hb' : s₁.proxy.breakers u = some b') (hnot : b.state ≠ .stateOpen) (hopen : b'.state = .stateOpen)
    (hbetween : exec (step w svc) s₁ between = some s₂)
    (hserve : step w svc s₂ (.own i (.serve (some u) now)) = some s₃) (hf : LetOn s₃ i)
    (hclock : (outputs (step w svc) (callAt svc u) s
      (e :: between ++ [.own i (.serve (some u) now)])).Pairwise fun c d => c.now ≤ d.now) :
    ∃ k result opened, e = .own k (.roundTrip result opened) ∧ opened + b.timeout ≤ now := by
  obtain ⟨k, result, opened, op, rfl, hat, rfl⟩ := opened_by hopening hb hb' hnot hopen
  obtain ⟨hasked, b₂, hb₂, hadmits⟩ := admitted_of_letOn hserve hf
  refine ⟨k, result, opened, rfl, ?_⟩
  have hlevel := breakers_run hbetween u
  rw [hb', hb₂, Option.map_some, Option.some.injEq] at hlevel
  subst hlevel
  rw [List.cons_append, outputs_cons _ _ hopening, outputs_append _ _ hbetween, outputs_cons _ _ hserve, hat,
    hasked] at hclock
  change (⟨op, opened⟩ :: (outputs (step w svc) (callAt svc u) s₁ between ++ [⟨.allow, now⟩])).Pairwise _ at hclock
  obtain ⟨hfirst, hrest⟩ := List.pairwise_cons.mp hclock
  obtain ⟨hsorted, -, hlast⟩ := List.pairwise_append.mp hrest
  have hwait := waiting_after (waiting_opened hnot hopen) (Int.le_refl _)
    (fun c hc => hfirst c (List.mem_append_left _ hc)) hsorted (fun c hc => hlast c hc _ List.mem_cons_self)
    (hfirst _ (List.mem_append_right _ List.mem_cons_self)) hadmits
  rwa [(perform_bounds b _).2] at hwait

end Chain

section Built
variable {w : World Key} {cfg : Config.GatewayConfig} {svc : Service Key} {services : List (Service Key)}

/-- In every run of a service, the breaker of each of its upstreams is a new one after the calls of
that upstream, and there is no other. -/
theorem service_breaker_trace (h : buildRouter w cfg = .ok services) (hsvc : svc ∈ services)
    {redis : String → Option RedisLimiter.Key} {es : List Event} {s : State Key}
    (he : exec (step w svc) (start svc redis) es = some s) (u : String) :
    s.proxy.breakers u =
      if u ∈ svc.config.upstreams then
        some (after (newServiceBreaker cfg) (outputs (step w svc) (callAt svc u) (start svc redis) es))
      else none := by
  obtain ⟨publicKey, sc, -, hsc, -⟩ := buildRouter_mem h hsvc
  simp only [buildService, Fallible.ite_error_eq_ok, Except.ok.injEq] at hsc
  obtain ⟨-, rfl⟩ := hsc
  rw [breakers_run he u]
  change Option.map _ (if u ∈ sc.upstreams then some (newServiceBreaker cfg) else none) = _
  split <;> rfl

theorem service_breaker_trace_three :
    ∃ s, exec (step sampleWorld mounted) (start mounted fun _ => none) threeRequests = some s ∧
      s.proxy.breakers "http://accounts:8080" = some (after (newServiceBreaker gateway)
        (outputs (step sampleWorld mounted) (callAt mounted "http://accounts:8080") (start mounted fun _ => none)
          threeRequests)) := by
  have hrun : (exec (step sampleWorld mounted) (start mounted fun _ => none) threeRequests).isSome = true := by
    decide +kernel
  obtain ⟨s, hs⟩ := Option.isSome_iff_exists.mp hrun
  exact ⟨s, hs, service_breaker_trace built_gateway.2 List.mem_cons_self hs "http://accounts:8080"⟩

end Built

def isProxied (pc : Pc) : Bool := Pc.casesOn (motive := fun _ => Bool) pc false false true fun _ => false

def posted : Http.Request := {bearer with method := "POST"}

def upToProxy (i : Nat) : List Event :=
  .arrive i posted 0 :: passes i 11 ++ [.own i .next] ++ passes i 1

/-- The first request is on its way when the second has come to the proxy. -/
def twoPosts : List Event :=
  upToProxy 0 ++ [.own 0 (.serve (some "http://accounts:8080") 0)] ++ upToProxy 1

def broken : Event := .own 0 (.roundTrip (.failed ProxyHandler.transportError) 0)

def tested : Event := .own 1 (.serve (some "http://accounts:8080") Config.second)

theorem open_upstream_rests_tested :
    ∃ s s₁ s₃, exec (step sampleWorld mounted) (start mounted fun _ => none) twoPosts = some s ∧
      step sampleWorld mounted s broken = some s₁ ∧ step sampleWorld mounted s₁ tested = some s₃ ∧
      ∃ k result opened, broken = .own k (.roundTrip result opened) ∧ opened + Config.second ≤ Config.second := by
  have hrun : ((exec (step sampleWorld mounted) (start mounted fun _ => none) twoPosts).bind fun s =>
      (step sampleWorld mounted s broken).bind fun s₁ => (step sampleWorld mounted s₁ tested).map fun s₃ =>
        (s.proxy.breakers "http://accounts:8080", s₁.proxy.breakers "http://accounts:8080",
          (s₃.procs 1).map fun p => isProxied p.pc,
          outputs (step sampleWorld mounted) (callAt mounted "http://accounts:8080") s [broken, tested])) =
      some (some ⟨.stateClosed, 0, 1, Config.second, 0⟩, some ⟨.stateOpen, 1, 1, Config.second, 0⟩, some true,
        [⟨.recordFailure, 0⟩, ⟨.allow, Config.second⟩]) := by
    decide +kernel
  obtain ⟨s, hs, hrun⟩ := Option.bind_eq_some_iff.mp hrun
  obtain ⟨s₁, hs₁, hrun⟩ := Option.bind_eq_some_iff.mp hrun
  obtain ⟨s₃, hs₃, hrun⟩ := Option.map_eq_some_iff.mp hrun
  simp only [Prod.mk.injEq] at hrun
  obtain ⟨hb, hb', hf, hcalls⟩ := hrun
  have hlet : LetOn s₃ 1 := by
    obtain ⟨p, hp, hpc⟩ := Option.map_eq_some_iff.mp hf
    refine ⟨p, hp, ?_⟩
    cases h : p.pc with
    | proxied => rfl
    | _ =>
      rw [h] at hpc
      cases hpc
  refine ⟨s, s₁, s₃, hs, hs₁, hs₃, ?_⟩
  exact open_upstream_rests hs₁ hb hb' (by decide) rfl rfl hs₃ hlet (by
    rw [List.cons_append, List.nil_append]
    exact hcalls ▸ (by decide))

end ApiGateway.UpstreamBreakers
