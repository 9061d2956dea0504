import ApiGateway.HealthChecker
import ApiGateway.ProtectedService
import ApiGateway.UpstreamTarget

/-!
# From a probe to a round trip

`buildServiceHandler` gives one list of upstreams to the checker, to the load balancer and to the
map of breakers. `ServeHTTP` takes whatever `Next` returns, asks that upstream's breaker and hands
the request to the reverse proxy, whose `Rewrite` parses the upstream's URL again. A missing breaker
and a URL that does not parse are panics, and nothing checks a URL before.

The machine has the checker, the calls of `Next` and the breakers of one service, and any number of
requests. A call draws a number and asks the checker in two steps, between which the checker's table
may change. A probe is answered only if it could be sent.
-/

namespace ApiGateway.UpstreamTraffic

open Runs Tables Config Http Delimiters ProxyRewrite UpstreamTarget
open HealthChecker (isHealthy)
set_option autoImplicit false

section Escapes

/-- An escape does not reach into what follows it if that begins with no digit. -/
theorem unescape_front {a b : List Char} (hb : ∀ c ∈ b.head?, unhex c = none)
    (h : (unescape (a ++ b)).isSome = true) : (unescape a).isSome = true := by
  induction a using unescape.induct with
  | case1 => rfl
  | case2 x y a ih =>
    obtain ⟨bytes, hbytes⟩ := Option.isSome_iff_exists.mp h
    simp only [List.cons_append, unescape_percent, Option.bind_eq_some_iff, Option.map_eq_some_iff] at hbytes
    obtain ⟨hi, hx, lo, hy, rest, hrest, -⟩ := hbytes
    obtain ⟨front, hfront⟩ := Option.isSome_iff_exists.mp (ih (Option.isSome_iff_exists.mpr ⟨rest, hrest⟩))
    simp [unescape_percent, hx, hy, hfront]
  | case3 a hshort =>
    exfalso
    rcases a with _ | ⟨x, _ | ⟨y, a⟩⟩
    · rcases b with _ | ⟨c, _ | ⟨d, b⟩⟩
      · simp [unescape] at h
      · simp [unescape] at h
      · simp [unescape_percent, hb c rfl] at h
    · rcases b with _ | ⟨c, b⟩
      · simp [unescape] at h
      · simp [unescape_percent, hb c rfl] at h
    · exact hshort x y a rfl
  | case4 c a _ hc ih =>
    have hcons (s : List Char) : unescape (c :: s) = (unescape s).map (String.utf8EncodeChar c ++ ·) := by
      rw [unescape]
      · intro _ _ _ h
        exact absurd h hc
      · exact hc
    rw [List.cons_append, hcons, Option.isSome_map] at h
    rw [hcons, Option.isSome_map]
    exact ih h

end Escapes

section Parse
variable {parseAuthority : List Char → List Char → Option (List Char)} {scheme tail url path : List Char}
  {u : ParsedURL}

theorem unhex_of_delimited (hpath : Delimited path) : ∀ c ∈ path.head?, unhex c = none := by
  intro c hc
  have hmem := hpath c hc
  simp only [List.mem_cons, List.not_mem_nil, or_false] at hmem
  rcases hmem with rfl | rfl | rfl <;> decide

theorem unescape_path (hpath : Delimited path) {a : List Char}
    (h : (unescape (upTo ['?', '#'] (onward ['/', '?', '#'] (a ++ path)))).isSome = true) :
    (unescape (upTo ['?', '#'] (onward ['/', '?', '#'] a))).isSome = true := by
  rw [onward_append_of_head hpath] at h
  rcases upTo_append_cases ['?', '#'] (onward ['/', '?', '#'] a) path with hcut | ⟨hon, hall, -⟩
  · rwa [hcut] at h
  · rw [hon] at h
    rw [hall]
    refine unescape_front (fun c hc => ?_) h
    exact unhex_of_delimited hpath c (mem_head_of_mem_head_upTo hc)

theorem unescape_fragment (hpath : Delimited path) {a : List Char}
    (h : (unescape ((onward ['#'] (a ++ path)).drop 1)).isSome = true) :
    (unescape ((onward ['#'] a).drop 1)).isSome = true := by
  cases ha : onward ['#'] a with
  | nil => rfl
  | cons c fragment =>
    rw [onward_append_of_ne_nil (by rw [ha]; exact List.cons_ne_nil _ _), ha] at h
    exact unescape_front (unhex_of_delimited hpath) h

/-- What is read with a path after it is read without it. -/
theorem reads_front (hpath : Delimited path) {a : List Char} (h : Reads parseAuthority scheme (a ++ path) u) :
    ∃ v, Reads parseAuthority scheme a v := by
  obtain ⟨decoded, hdecoded⟩ := Option.isSome_iff_exists.mp
    (unescape_path hpath (Option.isSome_iff_exists.mpr ⟨u.path, h.path⟩))
  refine ⟨⟨u.scheme, u.host, decoded, _⟩, ?_, h.lower, ?_, hdecoded, rfl, unescape_fragment hpath h.fragment⟩
  · have hprintable := h.printable
    rcases upTo_append_cases ['#'] a path with hcut | ⟨hon, hall, -⟩
    · rwa [hcut] at hprintable
    · rw [hon] at hprintable
      rw [hall]
      simp only [List.any_append, List.any_cons, Bool.or_eq_false_iff] at hprintable ⊢
      exact ⟨hprintable.1, hprintable.2.1, hprintable.2.2.1, hprintable.2.2.2.1, hprintable.2.2.2.2.1⟩
  · have hhost := h.host
    rcases upTo_append_cases ['/', '?', '#'] a path with hcut | ⟨hon, hall, -⟩
    · rwa [hcut] at hhost
    · rw [hon, upTo_eq_nil.mpr hpath, List.append_nil] at hhost
      rwa [hall]

/-- A scheme with at most one slash after it names no host, and parses. -/
theorem parse_hostless (hvalid : IsScheme scheme) (hprintable : scheme.any isCTL = false) {rest : List Char}
    (hrest : rest = [] ∨ rest = ['/']) : (parse parseAuthority (scheme ++ ':' :: rest)).isSome = true := by
  have hstop : ∀ c ∈ scheme ++ ':' :: rest, c ∉ ['#'] := by
    intro c hc hmem
    obtain rfl := List.mem_singleton.mp hmem
    rcases List.mem_append.mp hc with hc | hc
    · exact hvalid.not_mem (by decide) hc
    · rcases hrest with rfl | rfl
      · exact absurd hc (by decide)
      · exact absurd hc (by decide)
  have hup : upTo ['#'] (scheme ++ ':' :: rest) = scheme ++ ':' :: rest := by
    simpa [upTo] using upTo_append hstop []
  have hclean : (scheme ++ ':' :: rest).any isCTL = false := by
    rw [List.any_append, hprintable]
    rcases hrest with rfl | rfl <;> decide
  rw [parse, hup, hclean, onward_eq_nil.mpr hstop, getScheme_append hvalid]
  rcases hrest with rfl | rfl <;> simp [upTo, parseRest, unescape]

/-- Where a text names a host, a part of it that a path could follow parses as well. -/
theorem parse_front (hpath : Delimited path) (h : parse parseAuthority (url ++ path) = some u)
    (hscheme : u.scheme ≠ []) (hhost : u.host ≠ []) : (parse parseAuthority url).isSome = true := by
  obtain ⟨scheme, tail, hvalid, hsplit⟩ := parse_split h hscheme hhost
  have hreads : Reads parseAuthority scheme tail u := by
    rw [hsplit] at h
    exact (parse_absolute hvalid).mp h
  have hprintable : scheme.any isCTL = false := by
    have hall := hreads.printable
    rw [List.any_append, Bool.or_eq_false_iff] at hall
    exact hall.1
  have hsplit' : url ++ path = (scheme ++ [':']) ++ '/' :: '/' :: tail := by
    rw [hsplit]
    simp
  -- the path cannot begin inside of the scheme
  obtain ⟨rest, rfl, hrest⟩ : ∃ rest, url = scheme ++ ':' :: rest ∧ rest ++ path = '/' :: '/' :: tail := by
    rcases List.append_eq_append_iff.mp hsplit' with ⟨a, hscheme', hpath'⟩ | ⟨rest, hurl, hrest⟩
    · cases a with
      | nil =>
        refine ⟨[], ?_, hpath'⟩
        rw [List.append_nil] at hscheme'
        exact hscheme'.symm
      | cons c a =>
        have hc : c ∈ scheme ++ [':'] := by
          rw [hscheme']
          simp
        have hstop := hpath c (by rw [hpath']; rfl)
        simp only [List.mem_cons, List.not_mem_nil, or_false] at hstop
        exfalso
        rcases List.mem_append.mp hc with hc | hc
        · rcases hstop with rfl | rfl | rfl <;> exact hvalid.not_mem (by decide) hc
        · obtain rfl := List.mem_singleton.mp hc
          exact absurd hstop (by decide)
    · refine ⟨rest, ?_, hrest.symm⟩
      rw [hurl]
      simp
  rcases rest with _ | ⟨c, _ | ⟨d, a⟩⟩
  · exact parse_hostless hvalid hprintable (.inl rfl)
  · cases hrest
    exact parse_hostless hvalid hprintable (.inr rfl)
  · cases hrest
    obtain ⟨v, hv⟩ := reads_front hpath hreads
    exact Option.isSome_iff_exists.mpr ⟨v, (parse_absolute hvalid).mpr hv⟩

/-- An upstream that a probe can be sent to has a URL that the proxy can parse. -/
theorem parse_of_probe {g : Gateway} {url path : String} (hpath : Delimited path.toList)
    (h : (probe g.parseAuthority url path).isSome = true) : (parse g.parseAuthority url.toList).isSome = true := by
  obtain ⟨probed, hprobed⟩ := Option.isSome_iff_exists.mp h
  obtain ⟨u, hu, hscheme, hhost, -⟩ := probe_eq_some hprobed
  exact parse_front hpath hu hscheme (removeEmptyPort_ne hhost)

end Parse

/-- Where a request is: in the loop of `Next`, with so many attempts left; about to ask for the
upstream that it drew; with the upstream that `Next` returned; past the breaker; past `Rewrite`. -/
inductive Call where
  | drawing (left : Nat)
  | asking (left : Nat) (url : String)
  | picked (url : String)
  | admitted (url : String)
  | sent (url : String)
  | done
  | panicked (msg : String)

structure State where
  checker : HealthChecker.State
  counter : UInt64
  handler : ProxyHandler.Handler
  calls : Nat → Option Call

inductive Event where
  | check (e : HealthChecker.Event)
  | arrive (id : Nat)
  | draw (id : Nat)
  | ask (id : Nat)
  | serve (id : Nat) (now : Int)
  | rewrite (id : Nat) (ctx : Context) (r : Request) (now : Int)
  | finish (id : Nat) (outcome : ProxyHandler.Outcome) (now : Int)

/-- What one service is built from. -/
structure Site where
  g : Gateway
  cfg : GatewayConfig
  svc : ServiceConfig
  length_lt : svc.upstreams.length < 2 ^ 63

def start (site : Site) (table : String → Option Bool) (counter : UInt64) : State :=
  ⟨HealthChecker.start table, counter, ServiceChain.buildServiceHandler site.svc site.cfg, fun _ => none⟩

def put (s : State) (id : Nat) (call : Call) : State :=
  {s with calls := Function.update s.calls id (some call)}

/-- The loop of `Next` goes on, or `ServeHTTP` answers that there is no healthy upstream. -/
def loop (left : Nat) : Call := if left = 0 then .done else .drawing left

/-- `rr.urls[i%attempts]` -/
def drawn (site : Site) (s : State) : Option String :=
  let rr := HealthChecker.balancer site.svc.upstreams site.length_lt s.checker
  rr.urls[LoadBalancer.position rr s.counter]?

/-- An answer came, so there was a request to answer. -/
def answerable (site : Site) (c : HealthChecker.State) : HealthChecker.Event → Bool
  | .complete k (.answered _) => (HealthChecker.running c k).all fun check =>
    (probe site.g.parseAuthority check.url site.cfg.healthCheck.path).isSome
  | _ => true

/-- Where `ServeHTTP` leaves the request. -/
def served : ProxyHandler.Served → Call
  | .rejected _ => .done
  | .proxied target => .admitted target
  | .panicked msg => .panicked msg

/-- The callback that ends a proxied request. -/
def callback (h : ProxyHandler.Handler) (url : String) (now : Int) :
    ProxyHandler.Outcome → Except String ProxyHandler.Handler
  | .response status => ProxyHandler.modifyResponse h url status now
  | .failed err => (ProxyHandler.errorHandler h url err now).map Prod.fst
  | .unsent => (ProxyHandler.errorHandler h url ProxyHandler.protocolError now).map Prod.fst

def ended (s : State) (id : Nat) : Except String ProxyHandler.Handler → State
  | .ok h => put {s with handler := h} id .done
  | .error msg => put s id (.panicked msg)

/-- `ReverseProxy.ServeHTTP` up to the round trip; a protocol that it does not switch to is an error
for `ErrorHandler`. -/
def rewritten (s : State) (id : Nat) (url : String) (now : Int) : Except Unsent Outbound → State
  | .ok _ => put s id (.sent url)
  | .error (.panicked msg) => put s id (.panicked msg)
  | .error (.invalidProtocol _) => ended s id (callback s.handler url now .unsent)

def step (site : Site) (s : State) : Event → Option State
  | .check e =>
    if answerable site s.checker e then
      (HealthChecker.step site.svc.upstreams s.checker e).map fun c => {s with checker := c}
    else none
  | .arrive id =>
    if (s.calls id).isSome then none else some (put s id (loop site.svc.upstreams.length))
  | .draw id =>
    match s.calls id with
    | some (.drawing (left + 1)) =>
      let call := (drawn site s).elim (.panicked "runtime error: index out of range") (.asking left ·)
      some {put s id call with counter := s.counter + 1}
    | _ => none
  | .ask id =>
    match s.calls id with
    | some (.asking left url) => some (put s id (if isHealthy s.checker url then .picked url else loop left))
    | _ => none
  | .serve id now =>
    match s.calls id with
    | some (.picked url) =>
      let answer := ProxyHandler.serveHTTP s.handler (some url) now
      some (put {s with handler := answer.1} id (served answer.2))
    | _ => none
  | .rewrite id ctx r now =>
    match s.calls id with
    | some (.admitted url) =>
      some (rewritten s id url now (reverseProxy site.g.net {ctx with target := some url} r))
    | _ => none
  | .finish id outcome now =>
    match s.calls id with
    | some (.sent url) => some (ended s id (callback s.handler url now outcome))
    | _ => none

/-- What is reported healthy could be probed. -/
def Vetted (site : Site) (status : String → Option Bool) : Prop :=
  ∀ url, status url = some true → (probe site.g.parseAuthority url site.cfg.healthCheck.path).isSome = true

/-- An upstream of the service whose URL parses. -/
def Usable (site : Site) (url : String) : Prop :=
  url ∈ site.svc.upstreams ∧ (parse site.g.parseAuthority url.toList).isSome = true

def CallOk (site : Site) : Call → Prop
  | .drawing _ => site.svc.upstreams ≠ []
  | .asking _ url => url ∈ site.svc.upstreams
  | .picked url => Usable site url
  | .admitted url => Usable site url
  | .sent url => Usable site url
  | .done => True
  | .panicked _ => False

structure Inv (site : Site) (s : State) : Prop where
  vetted : Vetted site s.checker.status
  breakers : ∀ url ∈ site.svc.upstreams, (s.handler.breakers url).isSome = true
  calls : ∀ id call, s.calls id = some call → CallOk site call

section Steps
variable {site : Site} {s t : State} {e : Event} {id : Nat} {call : Call}

theorem vetted_of_isHealthy (h : Vetted site s.checker.status) {url : String}
    (hup : isHealthy s.checker url = true) :
    (probe site.g.parseAuthority url site.cfg.healthCheck.path).isSome = true := by
  refine h url ?_
  unfold isHealthy at hup
  cases hstatus : s.checker.status url with
  | none => simp [hstatus] at hup
  | some healthy => simpa [hstatus] using hup

theorem vetted_store {status : String → Option Bool} (h : Vetted site status) {url : String} {healthy : Bool}
    (hurl : healthy = true → (probe site.g.parseAuthority url site.cfg.healthCheck.path).isSome = true) :
    Vetted site (Function.update status url (some healthy)) := by
  intro url' hup
  rcases update_cases hup with ⟨rfl, hhealthy⟩ | ⟨-, hold⟩
  · exact hurl hhealthy.symm
  · exact h url' hold

theorem vetted_step {c d : HealthChecker.State} {e : HealthChecker.Event} (h : Vetted site c.status)
    (hanswer : answerable site c e = true) (hstep : HealthChecker.step site.svc.upstreams c e = some d) :
    Vetted site d.status := by
  cases e with
  | complete k outcome =>
    simp only [HealthChecker.step] at hstep
    split at hstep
    · rename_i url hk
      cases hstep
      rw [HealthChecker.leave_status]
      refine vetted_store h fun hhealthy => ?_
      cases outcome with
      | badRequest => cases hhealthy
      | failed => cases hhealthy
      | answered status => simpa [answerable, hk] using hanswer
    · cases hstep
  | cut k =>
    simp only [HealthChecker.step] at hstep
    split at hstep
    · rename_i check hk
      simp only [Option.ite_none_right_eq_some, Option.some.injEq] at hstep
      obtain ⟨-, rfl⟩ := hstep
      rw [HealthChecker.leave_status]
      exact vetted_store h (by rintro ⟨⟩)
    · cases hstep
  | checkAll =>
    simp only [HealthChecker.step, Option.ite_none_right_eq_some, Option.some.injEq] at hstep
    obtain ⟨-, rfl⟩ := hstep
    exact h
  | waited =>
    simp only [HealthChecker.step, Option.ite_none_right_eq_some, Option.some.injEq] at hstep
    obtain ⟨-, rfl⟩ := hstep
    exact h
  | cancel =>
    cases hstep
    exact h
  | done =>
    simp only [HealthChecker.step, Option.ite_none_right_eq_some, Option.some.injEq] at hstep
    obtain ⟨-, rfl⟩ := hstep
    exact h

theorem inv_put (h : Inv site s) (hcall : CallOk site call) : Inv site (put s id call) :=
  ⟨h.vetted, h.breakers, forall_update (P := fun _ call => CallOk site call) h.calls hcall⟩

theorem callOk_loop (hne : site.svc.upstreams ≠ []) (left : Nat) : CallOk site (loop left) := by
  unfold loop
  split
  · trivial
  · exact hne

theorem drawn_mem (hne : site.svc.upstreams ≠ []) (s : State) :
    ∃ url ∈ site.svc.upstreams, drawn site s = some url := by
  let rr := HealthChecker.balancer site.svc.upstreams site.length_lt s.checker
  have hlt : LoadBalancer.position rr s.counter < rr.urls.length := LoadBalancer.position_lt hne s.counter
  exact ⟨rr.urls[LoadBalancer.position rr s.counter], List.getElem_mem hlt, List.getElem?_eq_getElem hlt⟩

theorem breakers_setBreaker {h : ProxyHandler.Handler}
    (hall : ∀ url ∈ site.svc.upstreams, (h.breakers url).isSome = true) (url : String)
    (b : CircuitBreaker.Breaker) :
    ∀ url' ∈ site.svc.upstreams, ((ProxyHandler.setBreaker h url b).breakers url').isSome = true := by
  intro url' hurl
  simp only [ProxyHandler.setBreaker, Function.update_apply]
  split
  · rfl
  · exact hall url' hurl

theorem inv_serve (h : Inv site s) {url : String} (hurl : Usable site url) (now : Int) :
    Inv site (put {s with handler := (ProxyHandler.serveHTTP s.handler (some url) now).1} id
      (served (ProxyHandler.serveHTTP s.handler (some url) now).2)) := by
  obtain ⟨b, hb⟩ := Option.isSome_iff_exists.mp (h.breakers url hurl.1)
  have hbreaker : ProxyHandler.mustGetBreaker s.handler url = .ok b := by simp [ProxyHandler.mustGetBreaker, hb]
  rcases hallow : CircuitBreaker.allow b now with ⟨b', err⟩
  have hkept := breakers_setBreaker h.breakers url b'
  cases err with
  | none =>
    have hanswer : ProxyHandler.serveHTTP s.handler (some url) now =
        (ProxyHandler.setBreaker s.handler url b', .proxied url) := by
      simp only [ProxyHandler.serveHTTP, hbreaker, hallow]
    rw [hanswer]
    exact inv_put ⟨h.vetted, hkept, h.calls⟩ hurl
  | some err =>
    have hanswer : ∃ reply, ProxyHandler.serveHTTP s.handler (some url) now =
        (ProxyHandler.setBreaker s.handler url b', .rejected reply) :=
      ⟨_, by simp only [ProxyHandler.serveHTTP, hbreaker, hallow]; rfl⟩
    obtain ⟨reply, hreply⟩ := hanswer
    rw [hreply]
    exact inv_put ⟨h.vetted, hkept, h.calls⟩ trivial

theorem inv_ended (h : Inv site s) {url : String} (hurl : url ∈ site.svc.upstreams)
    (outcome : ProxyHandler.Outcome) (now : Int) : Inv site (ended s id (callback s.handler url now outcome)) := by
  obtain ⟨b, hb⟩ := Option.isSome_iff_exists.mp (h.breakers url hurl)
  have hset (b' : CircuitBreaker.Breaker) :
      Inv site (put {s with handler := ProxyHandler.setBreaker s.handler url b'} id .done) :=
    inv_put ⟨h.vetted, breakers_setBreaker h.breakers url b', h.calls⟩ trivial
  cases outcome with
  | response status =>
    simp only [callback, ProxyHandler.modifyResponse, ProxyHandler.mustGetBreaker, hb]
    exact hset _
  | failed err =>
    cases hmax : err.maxBytes with
    | true =>
      simp only [callback, ProxyHandler.errorHandler, hmax, if_true]
      exact inv_put h trivial
    | false =>
      simp only [callback, ProxyHandler.errorHandler, hmax, ProxyHandler.mustGetBreaker, hb, Bool.false_eq_true,
        if_false]
      exact hset _
  | unsent =>
    simp only [callback, ProxyHandler.errorHandler, ProxyHandler.protocolError, ProxyHandler.mustGetBreaker, hb,
      Bool.false_eq_true, if_false]
    exact hset _

/-- `Rewrite` finds a target, and one that parses. -/
theorem inv_rewritten (h : Inv site s) {url : String} (hurl : Usable site url) (ctx : Context) (r : Request)
    (now : Int) :
    Inv site (rewritten s id url now (reverseProxy site.g.net {ctx with target := some url} r)) := by
  cases hprint : isPrint (upgradeType r.header) with
  | true =>
    obtain ⟨base, hbase⟩ := Option.isSome_iff_exists.mp hurl.2
    have hsent : ∃ target, proxied site.g {ctx with target := some url} r [] = .ok target :=
      ⟨_, proxied_eq hprint hbase []⟩
    obtain ⟨target, htarget⟩ := hsent
    obtain ⟨out, hout, -⟩ := Fallible.map_eq_ok.mp htarget
    rw [hout]
    exact inv_put h hurl
  | false =>
    have hrefused : reverseProxy site.g.net {ctx with target := some url} r =
        .error (.invalidProtocol (upgradeType r.header)) := by
      simp only [reverseProxy, hprint, Bool.false_eq_true, if_false]
    rw [hrefused]
    exact inv_ended h hurl.1 _ now

theorem inv_step (hpath : Delimited site.cfg.healthCheck.path.toList) (h : Inv site s)
    (hstep : step site s e = some t) : Inv site t := by
  cases e with
  | check e =>
    simp only [step, Option.ite_none_right_eq_some, Option.map_eq_some_iff] at hstep
    obtain ⟨hanswer, c, hc, rfl⟩ := hstep
    exact ⟨vetted_step h.vetted hanswer hc, h.breakers, h.calls⟩
  | arrive id =>
    simp only [step, Option.ite_none_left_eq_some, Option.some.injEq] at hstep
    obtain ⟨-, rfl⟩ := hstep
    cases hupstreams : site.svc.upstreams with
    | nil => exact inv_put h trivial
    | cons url urls => exact inv_put h (callOk_loop (by rw [hupstreams]; exact List.cons_ne_nil _ _) _)
  | draw id =>
    simp only [step] at hstep
    split at hstep
    · rename_i left hcall
      cases hstep
      have hne : site.svc.upstreams ≠ [] := h.calls id _ hcall
      obtain ⟨url, hurl, hdrawn⟩ := drawn_mem hne s
      rw [hdrawn]
      have hput : Inv site (put s id (.asking left url)) := inv_put h hurl
      exact ⟨hput.vetted, hput.breakers, hput.calls⟩
    · cases hstep
  | ask id =>
    simp only [step] at hstep
    split at hstep
    · rename_i left url hcall
      cases hstep
      have hurl : url ∈ site.svc.upstreams := h.calls id _ hcall
      split
      · rename_i hup
        exact inv_put h ⟨hurl, parse_of_probe hpath (vetted_of_isHealthy h.vetted hup)⟩
      · exact inv_put h (callOk_loop (List.ne_nil_of_mem hurl) left)
    · cases hstep
  | serve id now =>
    simp only [step] at hstep
    split at hstep
    · rename_i url hcall
      cases hstep
      exact inv_serve h (h.calls id _ hcall) now
    · cases hstep
  | rewrite id ctx r now =>
    simp only [step] at hstep
    split at hstep
    · rename_i url hcall
      cases hstep
      exact inv_rewritten h (h.calls id _ hcall) ctx r now
    · cases hstep
  | finish id outcome now =>
    simp only [step] at hstep
    split at hstep
    · rename_i url hcall
      cases hstep
      have hurl : Usable site url := h.calls id _ hcall
      exact inv_ended h hurl.1 outcome now
    · cases hstep

theorem inv_start {table : String → Option Bool} (h : Vetted site table) (counter : UInt64) :
    Inv site (start site table counter) := by
  refine ⟨h, ?_, nofun⟩
  intro url hurl
  simp only [start, ServiceChain.buildServiceHandler, if_pos hurl, Option.isSome_some]

/-- With a health path that begins where a path, a query or a fragment does, and a table that
reports nothing healthy but what could be probed, no interleaving of probes, picks and proxied
requests makes the proxy panic. A request is sent on only to an upstream of the service, and its
URL parses. -/
theorem traffic_never_panics (hpath : Delimited site.cfg.healthCheck.path.toList)
    {table : String → Option Bool} (htable : Vetted site table) {counter : UInt64} {es : List Event}
    (hv : Visits (step site) (start site table counter) es s) :
    (∀ id msg, s.calls id ≠ some (.panicked msg)) ∧
    ∀ id url, s.calls id = some (.sent url) →
      url ∈ site.svc.upstreams ∧ ∃ base, parse site.g.parseAuthority url.toList = some base := by
  have hinv : Inv site s :=
    visits_inductive (step site) (Inv site) (fun _ _ _ h => inv_step hpath h) (inv_start htable counter) hv
  constructor
  · intro id msg hcall
    exact hinv.calls id _ hcall
  · intro id url hcall
    have hurl : Usable site url := hinv.calls id _ hcall
    exact ⟨hurl.1, Option.isSome_iff_exists.mp hurl.2⟩

end Steps

/-- One upstream with a host and one whose URL ends in half an escape. -/
def halfEscaped : Site where
  g := plainGateway
  cfg := ProtectedService.gateway
  svc := {ProtectedService.accounts with upstreams := ["http://accounts:8080", "http://h/%4"]}
  length_lt := by decide

/-- No probe of the second upstream can be sent; a request that draws it goes on to the first one. -/
def pastHalfEscaped : List Event :=
  [.check .checkAll, .check (.complete 1 .badRequest), .check (.complete 0 (.answered 200)), .check .waited,
    .arrive 0, .draw 0, .ask 0, .draw 0, .ask 0, .serve 0 0, .rewrite 0 noContext usersRequest 0]

def sentTo (s : State) (id : Nat) : Option String :=
  (s.calls id).bind fun call => Call.casesOn (motive := fun _ => Option String) call
    (fun _ => none) (fun _ _ => none) (fun _ => none) (fun _ => none) some none (fun _ => none)

theorem traffic_never_panics_past :
    ∃ s, exec (step halfEscaped) (start halfEscaped (fun _ => none) 1) pastHalfEscaped = some s ∧
      sentTo s 0 = some "http://accounts:8080" ∧ parse hostOnly "http://h/%4".toList = none ∧
      ∀ id msg, s.calls id ≠ some (.panicked msg) := by
  have hrun : (exec (step halfEscaped) (start halfEscaped (fun _ => none) 1) pastHalfEscaped).map
      (fun s => sentTo s 0) = some (some "http://accounts:8080") := by
    decide +kernel
  obtain ⟨s, hs, hsent⟩ := Option.map_eq_some_iff.mp hrun
  have hpath : Delimited halfEscaped.cfg.healthCheck.path.toList := by
    intro c hc
    obtain rfl : '/' = c := Option.some.inj hc
    exact List.mem_cons_self
  have htable : Vetted halfEscaped fun _ => none := nofun
  have hall := traffic_never_panics hpath htable ⟨pastHalfEscaped, [], (List.append_nil _).symm, hs⟩
  exact ⟨s, hs, hsent, by decide +kernel, hall.1⟩

end ApiGateway.UpstreamTraffic
