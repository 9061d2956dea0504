import ApiGateway.Runs
import ApiGateway.CircuitBreaker
import ApiGateway.Http
import Mathlib.Data.List.AList
import Mathlib.Logic.Function.Basic

/-!
# The proxy handler and its breakers

`internal/proxy/proxy.go`: `Handler.ServeHTTP` and the two callbacks `NewHandler`
gives to `httputil.ReverseProxy`. A proxied request is two steps of the machine: it
arrives (`Next`, then `Allow` on the chosen upstream's breaker) and, if it was
admitted, it finishes later, by `ModifyResponse` when a response came back and by
`ErrorHandler` when the round trip failed, or when the client asked for a protocol that
`ReverseProxy` does not even try to switch to. Between the two any other request may
take its steps. The load balancer is an interface here, as in the source: an
arriving request carries whatever `Next` answered.

A reply 101 ends the round trip with `ModifyResponse`, and `ReverseProxy` then sets out to join the
two connections. Where it cannot (the response writer cannot be taken over, the protocols differ) it
calls `ErrorHandler` for the same request, after its success was recorded.
-/

namespace ApiGateway.ProxyHandler

open CircuitBreaker Runs Http
set_option autoImplicit false

/-- What the code asks of an error: the three probes of `ErrorHandler` and
`classifyProxyError`, and whether the client's own context was cancelled (which no
branch asks). -/
structure RoundTripError where
  maxBytes : Bool
  deadlineExceeded : Bool
  netTimeout : Bool
  canceled : Bool
  deriving DecidableEq, Repr

/-- The errors that `ReverseProxy` makes itself about switching protocols. -/
def protocolError : RoundTripError := ⟨false, false, false, false⟩

/-- How a proxied request ends; `unsent` is the one that asks for an invalid protocol, for which there is
no round trip. -/
inductive Outcome where
  | response (status : Nat)
  | failed (err : RoundTripError)
  | unsent
  deriving DecidableEq, Repr

def jsonError (status : Nat) (msg : List (String × String)) : JsonReply := jsonReply status msg

/-- `h.breakers`, the admitted requests that no callback has been called for yet, each with the
target `ServeHTTP` put into its context, and the targets of those that were answered 101 and whose
connections are being joined. -/
structure Handler where
  breakers : String → Option Breaker
  inFlight : AList fun _ : Nat => String
  switching : List String

inductive Served where
  | rejected (reply : JsonReply)
  | proxied (target : String)
  | panicked (msg : String)
  deriving DecidableEq, Repr

def classifyProxyError (err : RoundTripError) : Nat × String :=
  if err.deadlineExceeded then (504, "upstream timeout")
  else if err.netTimeout then (504, "upstream timeout")
  else (502, "upstream unavailable")

/-- The error is the text the source panics with. -/
def mustGetBreaker (h : Handler) (upstream : String) : Except String Breaker :=
  match h.breakers upstream with
  | some breaker => .ok breaker
  | none => .error "proxy: circuit breaker not found"

def setBreaker (h : Handler) (upstream : String) (b : Breaker) : Handler :=
  {h with breakers := Function.update h.breakers upstream (some b)}

/-- `ServeHTTP` up to the call of the reverse proxy. `next` is the answer of `lb.Next`. -/
def serveHTTP (h : Handler) (next : Option String) (now : Int) : Handler × Served :=
  match next with
  | none => (h, .rejected (jsonError 503 [("error", "no healthy upstreams")]))
  | some upstream =>
    match mustGetBreaker h upstream with
    | .error msg => (h, .panicked msg)
    | .ok breaker =>
      match allow breaker now with
      | (breaker', none) => (setBreaker h upstream breaker', .proxied upstream)
      | (breaker', some _) =>
        (setBreaker h upstream breaker',
          .rejected (jsonError 503 [("error", "circuit breaker is open"), ("upstream", upstream)]))

def modifyResponse (h : Handler) (target : String) (status : Nat) (now : Int) :
    Except String Handler := do
  let breaker ← mustGetBreaker h target
  return setBreaker h target
    (if status ≥ 500 then recordFailure breaker now else recordSuccess breaker)

/-- `ErrorHandler`. An over-long request body is answered before any breaker is looked at. -/
def errorHandler (h : Handler) (target : String) (err : RoundTripError) (now : Int) :
    Except String (Handler × JsonReply) :=
  if err.maxBytes then .ok (h, jsonError 413 [("error", "request body too large")])
  else do
    let breaker ← mustGetBreaker h target
    let (status, msg) := classifyProxyError err
    return (setBreaker h target (recordFailure breaker now), jsonError status [("error", msg)])

/-- The callback that ends a proxied request; one that panics records nothing. -/
def callback (h : Handler) (target : String) (outcome : Outcome) (now : Int) : Handler :=
  match outcome with
  | .response status => (modifyResponse h target status now).toOption.getD h
  | .failed err => ((errorHandler h target err now).toOption.map Prod.fst).getD h
  | .unsent => ((errorHandler h target protocolError now).toOption.map Prod.fst).getD h

/-- `switch` is `ModifyResponse` for a reply 101; `unswitched` is `ErrorHandler` after it, for a request
to this target, and `switched` the end of the joined connections. -/
inductive Event where
  | arrive (id : Nat) (next : Option String) (now : Int)
  | finish (id : Nat) (outcome : Outcome) (now : Int)
  | switch (id : Nat) (now : Int)
  | unswitched (target : String) (now : Int)
  | switched (target : String)
  deriving DecidableEq, Repr

def step (h : Handler) : Event → Option Handler
  | .arrive id next now =>
    if (h.inFlight.lookup id).isSome then none
    else
      match serveHTTP h next now with
      | (h', .proxied u) => some {h' with inFlight := h'.inFlight.insert id u}
      | (h', _) => some h'
  | .finish id outcome now =>
    (h.inFlight.lookup id).map fun u =>
      {callback h u outcome now with inFlight := h.inFlight.erase id}
  | .switch id now =>
    (h.inFlight.lookup id).map fun u =>
      {callback h u (.response 101) now with inFlight := h.inFlight.erase id, switching := u :: h.switching}
  | .unswitched u now =>
    if u ∈ h.switching then some {callback h u (.failed protocolError) now with switching := h.switching.erase u}
    else none
  | .switched u => if u ∈ h.switching then some {h with switching := h.switching.erase u} else none

/-- A handler as `NewHandler` is given it: no request yet, every breaker just created. -/
def Fresh (h : Handler) : Prop :=
  h.inFlight = ∅ ∧ h.switching = [] ∧ ∀ u b, h.breakers u = some b → ∃ m t, b = newBreaker m t

/-- Whoever is half-open is being tested: some admitted request to it is in flight. -/
def Attended (h : Handler) : Prop :=
  ∀ u b, h.breakers u = some b → b.state = .stateHalfOpen → ∃ id, h.inFlight.lookup id = some u

/-- The one way to lose the tester. A request that fails with `*http.MaxBytesError` may do so
against a half-open breaker only while another admitted request to that upstream is in flight. -/
def LeavesTester (h : Handler) : Event → Prop
  | .finish id (.failed err) _ =>
    err.maxBytes = true → ∀ u b, h.inFlight.lookup id = some u → h.breakers u = some b →
      b.state = .stateHalfOpen → ∃ id', id' ≠ id ∧ h.inFlight.lookup id' = some u
  | _ => True

theorem fresh_attended {h : Handler} (hf : Fresh h) : Attended h := by
  intro u b hb hs
  obtain ⟨m, t, rfl⟩ := hf.2.2 u b hb
  simp at hs

@[simp] theorem setBreaker_inFlight (h : Handler) (u : String) (b : Breaker) :
    (setBreaker h u b).inFlight = h.inFlight := rfl

theorem setBreaker_self {h : Handler} {u : String} {b : Breaker} (hb : h.breakers u = some b) :
    setBreaker h u b = h := by
  cases h
  simp only [setBreaker, ← hb, Function.update_eq_self]

/-- An arriving request is admitted by its upstream's breaker or leaves the handler as it was. -/
theorem step_arrive_cases {h t : Handler} {id : Nat} {next : Option String} {now : Int}
    (hs : step h (.arrive id next now) = some t) :
    t = h ∨ ∃ u b, h.breakers u = some b ∧ (allow b now).2 = none ∧
      t = {setBreaker h u (allow b now).1 with inFlight := h.inFlight.insert id u} := by
  simp only [step] at hs
  split at hs
  · simp at hs
  · cases next with
    | none =>
      left
      simpa [serveHTTP] using hs.symm
    | some u =>
      cases hb : h.breakers u with
      | none =>
        left
        simpa [serveHTTP, mustGetBreaker, hb] using hs.symm
      | some b =>
        rcases hA : allow b now with ⟨b', err⟩
        cases err with
        | none =>
          right
          refine ⟨u, b, hb, by rw [hA], ?_⟩
          simpa [serveHTTP, mustGetBreaker, hb, hA] using hs.symm
        | some err =>
          left
          have hb' : b' = b := by
            have hrej : (allow b now).1 = b := allow_rejected (by rw [hA])
            rw [hA] at hrej
            exact hrej
          subst hb'
          simpa [serveHTTP, mustGetBreaker, hb, hA, setBreaker_self hb] using hs.symm

/-- A known breaker is told the outcome, or nothing at all when the body was over the limit. -/
theorem callback_known {h : Handler} {u : String} {b : Breaker} (hb : h.breakers u = some b)
    (outcome : Outcome) (now : Int) :
    callback h u outcome now =
      match outcome with
      | .response status =>
        setBreaker h u (if status ≥ 500 then recordFailure b now else recordSuccess b)
      | .failed err => if err.maxBytes then h else setBreaker h u (recordFailure b now)
      | .unsent => setBreaker h u (recordFailure b now) := by
  cases outcome with
  | response status => simp [callback, modifyResponse, mustGetBreaker, hb, Except.toOption]
  | failed err =>
    by_cases hm : err.maxBytes = true
    · simp [callback, errorHandler, hm, Except.toOption]
    · simp [callback, errorHandler, hm, mustGetBreaker, hb, Except.toOption]
  | unsent => simp [callback, errorHandler, protocolError, mustGetBreaker, hb, Except.toOption]

theorem callback_unknown {h : Handler} {u : String} (hb : h.breakers u = none) (outcome : Outcome)
    (now : Int) : callback h u outcome now = h := by
  cases outcome with
  | response status => simp [callback, modifyResponse, mustGetBreaker, hb, Except.toOption]
  | failed err =>
    by_cases hm : err.maxBytes = true
    · simp [callback, errorHandler, hm, Except.toOption]
    · simp [callback, errorHandler, hm, mustGetBreaker, hb, Except.toOption]
  | unsent => simp [callback, errorHandler, protocolError, mustGetBreaker, hb, Except.toOption]

/-- Every callback but the one for an over-long body leaves a breaker that is not half-open. -/
theorem callback_cases (h : Handler) (u : String) (outcome : Outcome) (now : Int) :
    (callback h u outcome now = h ∧
      (h.breakers u = none ∨ ∃ err, outcome = .failed err ∧ err.maxBytes = true)) ∨
    ∃ b, b.state ≠ .stateHalfOpen ∧ callback h u outcome now = setBreaker h u b ∧
      ∀ err, outcome = .failed err → err.maxBytes = false := by
  cases hb : h.breakers u with
  | none => exact .inl ⟨callback_unknown hb outcome now, .inl rfl⟩
  | some b =>
    rw [callback_known hb]
    cases outcome with
    | response status =>
      refine .inr ⟨_, ?_, rfl, by simp⟩
      split
      · exact recordFailure_ne_halfOpen b now
      · exact recordSuccess_ne_halfOpen b
    | failed err =>
      cases hm : err.maxBytes with
      | true => exact .inl ⟨by simp [hm], .inr ⟨err, rfl, hm⟩⟩
      | false =>
        refine .inr ⟨_, recordFailure_ne_halfOpen b now, by simp [hm], ?_⟩
        intro err' herr
        cases herr
        exact hm
    | unsent => exact .inr ⟨_, recordFailure_ne_halfOpen b now, rfl, by simp⟩

theorem attended_insert {h : Handler} (ha : Attended h) {id : Nat} {u : String} {b : Breaker}
    (hfree : h.inFlight.lookup id = none) :
    Attended {setBreaker h u b with inFlight := h.inFlight.insert id u} := by
  intro v c hc hs
  by_cases hv : v = u
  · subst hv
    exact ⟨id, AList.lookup_insert _⟩
  · have hc' : h.breakers v = some c := by simpa [setBreaker, hv] using hc
    obtain ⟨id', hid⟩ := ha v c hc' hs
    have hne : id' ≠ id := by
      rintro rfl
      simp [hfree] at hid
    exact ⟨id', by rw [AList.lookup_insert_ne hne]; exact hid⟩

theorem lookup_erase_iff {m : AList fun _ : Nat => String} {id id' : Nat} {u : String} :
    (m.erase id).lookup id' = some u ↔ id' ≠ id ∧ m.lookup id' = some u := by
  by_cases h : id' = id
  · subst h
    simp
  · simp [h]

/-- A request that reports leaves its own breaker closed or open, and the others have their testers
still. -/
theorem attended_reported {h : Handler} (ha : Attended h) {id : Nat} {u : String} {b' : Breaker}
    (hid : h.inFlight.lookup id = some u) (hb' : b'.state ≠ .stateHalfOpen) :
    Attended {setBreaker h u b' with inFlight := h.inFlight.erase id} := by
  intro v b hb hs
  by_cases hv : v = u
  · subst hv
    have hbb : b' = b := by simpa [setBreaker] using hb
    exact absurd (hbb ▸ hs) hb'
  · have hb₀ : h.breakers v = some b := by simpa [setBreaker, hv] using hb
    obtain ⟨id', hid'⟩ := ha v b hb₀ hs
    have hne : id' ≠ id := by
      rintro rfl
      exact hv (Option.some.inj (hid'.symm.trans hid))
    exact ⟨id', lookup_erase_iff.mpr ⟨hne, hid'⟩⟩

/-- Finishing keeps every half-open breaker attended exactly if the finishing request does
not walk away from a breaker that only it was testing. -/
theorem attended_finish_iff {h : Handler} (ha : Attended h) {id : Nat} {u : String}
    (hid : h.inFlight.lookup id = some u) (outcome : Outcome) (now : Int) :
    Attended {callback h u outcome now with inFlight := h.inFlight.erase id} ↔
      LeavesTester h (.finish id outcome now) := by
  rcases callback_cases h u outcome now with ⟨hsame, hwhy⟩ | ⟨b', hb', hset, hmax⟩
  · rw [hsame]
    constructor
    · intro hat
      cases outcome with
      | response status => trivial
      | failed err =>
        intro _ v b hv hb hs
        obtain ⟨id', hid'⟩ := hat v b hb hs
        exact ⟨id', lookup_erase_iff.mp hid'⟩
      | unsent => trivial
    · intro hl v b hb hs
      obtain ⟨id', hid'⟩ := ha v b hb hs
      by_cases hne : id' = id
      · subst hne
        have huv : u = v := Option.some.inj (hid.symm.trans hid')
        subst huv
        rcases hwhy with hnone | ⟨err, rfl, hm⟩
        · simp [hnone] at hb
        · obtain ⟨j, hj⟩ := hl hm u b hid hb hs
          exact ⟨j, lookup_erase_iff.mpr hj⟩
      · exact ⟨id', lookup_erase_iff.mpr ⟨hne, hid'⟩⟩
  · rw [hset]
    refine iff_of_true (attended_reported ha hid hb') ?_
    cases outcome with
    | response status => trivial
    | failed err =>
      intro hm
      simp [hmax err rfl] at hm
    | unsent => trivial

/-- What is recorded after a 101 leaves the breaker closed or open, too. -/
theorem attended_unswitched {h : Handler} (ha : Attended h) (u : String) (now : Int) :
    Attended (callback h u (.failed protocolError) now) := by
  rcases callback_cases h u (.failed protocolError) now with ⟨hsame, -⟩ | ⟨b', hb', hset, -⟩
  · rw [hsame]
    exact ha
  · rw [hset]
    intro v b hb hs
    by_cases hv : v = u
    · subst hv
      have hbb : b' = b := by simpa [setBreaker] using hb
      exact absurd (hbb ▸ hs) hb'
    · exact ha v b (by simpa [setBreaker, hv] using hb) hs

theorem attended_step_iff (h : Handler) (e : Event) (t : Handler) (ha : Attended h)
    (hs : step h e = some t) : Attended t ↔ LeavesTester h e := by
  cases e with
  | arrive id next now =>
    have hfree : h.inFlight.lookup id = none := by
      simp only [step] at hs
      split at hs
      · simp at hs
      · simpa using ‹¬ (h.inFlight.lookup id).isSome = true›
    refine iff_of_true ?_ trivial
    rcases step_arrive_cases hs with rfl | ⟨u, b, _, _, rfl⟩
    · exact ha
    · exact attended_insert ha hfree
  | finish id outcome now =>
    simp only [step, Option.map_eq_some_iff] at hs
    obtain ⟨u, hu, rfl⟩ := hs
    exact attended_finish_iff ha hu outcome now
  | switch id now =>
    simp only [step, Option.map_eq_some_iff] at hs
    obtain ⟨u, hu, rfl⟩ := hs
    exact attended_finish_iff ha hu (.response 101) now
  | unswitched u now =>
    simp only [step, Option.ite_none_right_eq_some, Option.some.injEq] at hs
    obtain ⟨-, rfl⟩ := hs
    exact iff_of_true (attended_unswitched ha u now) trivial
  | switched u =>
    simp only [step, Option.ite_none_right_eq_some, Option.some.injEq] at hs
    obtain ⟨-, rfl⟩ := hs
    exact iff_of_true ha trivial

/-- From new breakers, over any interleaving of requests and any outcomes: no state of the run
has a half-open breaker without an admitted request in flight to it, exactly if no request
over the body limit leaves a half-open breaker that nobody else is testing. -/
theorem halfOpen_attended_iff {h t : Handler} {es : List Event} (hf : Fresh h)
    (hrun : exec step h es = some t) :
    (∀ s, Visits step h es s → Attended s) ↔ StepsMeet step LeavesTester h es :=
  visits_iff_stepsMeet step (fun _ => True) Attended (fun _ _ _ _ _ => trivial)
    (fun s e t _ ha hs => attended_step_iff s e t ha hs) trivial (fresh_attended hf) hrun

def oneUpstream : Handler :=
  ⟨fun u => if u = "http://a" then some (newBreaker 1 10) else none, ∅, []⟩

def transportError : RoundTripError := ⟨false, false, false, false⟩

def maxBytesError : RoundTripError := ⟨true, false, false, false⟩

theorem oneUpstream_fresh : Fresh oneUpstream := by
  refine ⟨rfl, rfl, ?_⟩
  intro u b hb
  simp only [oneUpstream] at hb
  split at hb
  · exact ⟨1, 10, (Option.some.inj hb).symm⟩
  · simp at hb

/-- The same breaker tested by a request that gets its answer, with an over-long body
met on the way while it was closed. -/
theorem halfOpen_attended_when_tested :
    let es : List Event := [.arrive 0 (some "http://a") 0, .finish 0 (.failed maxBytesError) 1,
      .arrive 1 (some "http://a") 2, .finish 1 (.failed transportError) 3,
      .arrive 2 (some "http://a") 20, .finish 2 (.response 200) 21]
    (exec step oneUpstream es).isSome ∧ ∀ s, Visits step oneUpstream es s → Attended s := by
  intro es
  have hrun : exec step oneUpstream es = some _ := rfl
  refine ⟨rfl, (halfOpen_attended_iff oneUpstream_fresh hrun).mpr ?_⟩
  refine ⟨trivial, fun s hs => ⟨?_, fun s hs => ⟨trivial, fun s hs => ⟨?_, fun s hs =>
    ⟨trivial, fun s hs => ⟨trivial, fun _ _ => trivial⟩⟩⟩⟩⟩⟩
  · obtain rfl := Option.some.inj hs
    intro _ u b hu hb hhalf
    obtain rfl : "http://a" = u := Option.some.inj hu
    obtain rfl := Option.some.inj hb
    simp at hhalf
  · intro hm
    simp [transportError] at hm

/-- The failing run: the test request of an open breaker has a body over the limit. -/
theorem halfOpen_left_unattended :
    ¬ ∀ (h t : Handler) (es : List Event), Fresh h → exec step h es = some t → Attended t := by
  intro hall
  have hat := hall oneUpstream _ [.arrive 0 (some "http://a") 0,
    .finish 0 (.failed transportError) 1, .arrive 1 (some "http://a") 20,
    .finish 1 (.failed maxBytesError) 21] oneUpstream_fresh rfl
  obtain ⟨id, hid⟩ := hat "http://a" _ rfl rfl
  change none = some "http://a" at hid
  cases hid

end ApiGateway.ProxyHandler
