import ApiGateway.ProxyHandler
import ApiGateway.Tables
import Mathlib.Tactic.IntervalCases

/-!
# Failures that are the client's

`ErrorHandler` leaves the breaker alone when the request body was over the limit and counts
every other error against the upstream. A request whose client went away ends in
`context.Canceled`, which is such another error. So is what `ReverseProxy` says of a protocol that it
cannot switch to: the client asked for one with a character that cannot be printed, and nothing was sent;
or the upstream answered 101 and the two connections could not be joined. Here every round trip of a run
gives a status below 500 or fails on the client's side, and the question is which breakers open.
-/

namespace ApiGateway.ProxyHandler

open CircuitBreaker Runs Tables
set_option autoImplicit false

/-- Only a round trip can go against it: one with a status of 500 or above, or one that fails for a reason
that is not the client's. -/
def ClientSide : Event → Prop
  | .finish _ (.response status) _ => status < 500
  | .finish _ (.failed err) _ => err.maxBytes = true ∨ err.canceled = true
  | _ => True

def AllClosed (h : Handler) : Prop := ∀ u b, h.breakers u = some b → b.state = .stateClosed

/-- The upstream's counter has room for one more failure. -/
def Room (h : Handler) (u : String) : Prop := ∀ b, h.breakers u = some b → b.failures + 1 < b.maxFailures

/-- There is room where a failure is counted that is no upstream's: of a request that its client has
cancelled, of one that asked for an invalid protocol, and of one whose reply 101 came to nothing. -/
def Spared (h : Handler) : Event → Prop
  | .finish id (.failed err) _ =>
    err.maxBytes = false → err.canceled = true → ∀ u, h.inFlight.lookup id = some u → Room h u
  | .finish id .unsent _ => ∀ u, h.inFlight.lookup id = some u → Room h u
  | .unswitched u _ => Room h u
  | _ => True

theorem fresh_allClosed {h : Handler} (hf : Fresh h) : AllClosed h := by
  intro u b hb
  obtain ⟨m, t, rfl⟩ := hf.2.2 u b hb
  rfl

theorem allClosed_setBreaker_iff {h : Handler} {u : String} {b : Breaker} (hc : AllClosed h) :
    AllClosed (setBreaker h u b) ↔ b.state = .stateClosed := by
  constructor
  · intro hall
    exact hall u b (Function.update_self ..)
  · intro hb
    exact forall_update hc hb

theorem recordSuccess_closed {b : Breaker} (hb : b.state = .stateClosed) :
    (recordSuccess b).state = .stateClosed := by
  simp [recordSuccess, hb]

theorem recordFailure_closed_iff {b : Breaker} (hb : b.state = .stateClosed) (now : Int) :
    (recordFailure b now).state = .stateClosed ↔ b.failures + 1 < b.maxFailures := by
  rcases Nat.lt_or_ge (b.failures + 1) b.maxFailures with hlt | hge
  · simp [recordFailure_below b now (by simp [hb]) hlt, hb, hlt]
  · simp [recordFailure_full b now hge, Nat.not_lt.mpr hge]

/-- A failure that is counted keeps all breakers closed exactly if there is room for it. -/
theorem allClosed_failure_iff {h : Handler} {u : String} {outcome : Outcome} {now : Int} (hc : AllClosed h)
    (hcounted : ∀ b, h.breakers u = some b → callback h u outcome now = setBreaker h u (recordFailure b now)) :
    AllClosed (callback h u outcome now) ↔ Room h u := by
  cases hb : h.breakers u with
  | none =>
    rw [callback_unknown hb]
    refine iff_of_true hc fun b hb' => ?_
    rw [hb] at hb'
    cases hb'
  | some b =>
    rw [hcounted b hb, allClosed_setBreaker_iff hc, recordFailure_closed_iff (hc u b hb)]
    constructor
    · intro hlt c hc'
      obtain rfl : b = c := Option.some.inj (hb.symm.trans hc')
      exact hlt
    · exact fun hroom => hroom b hb

theorem allClosed_response {h : Handler} {u : String} {status : Nat} {now : Int} (hc : AllClosed h)
    (hstatus : status < 500) : AllClosed (callback h u (.response status) now) := by
  cases hb : h.breakers u with
  | none =>
    rw [callback_unknown hb]
    exact hc
  | some b =>
    rw [callback_known hb, allClosed_setBreaker_iff hc, if_neg (Nat.not_le.mpr hstatus)]
    exact recordSuccess_closed (hc u b hb)

/-- A client-side outcome keeps all breakers closed exactly if it is no failure that fills its
upstream's counter. -/
theorem allClosed_finish_iff {h : Handler} {id : Nat} {outcome : Outcome} {now : Int} {u : String}
    (hc : AllClosed h) (hside : ClientSide (.finish id outcome now)) (hu : h.inFlight.lookup id = some u) :
    AllClosed {callback h u outcome now with inFlight := h.inFlight.erase id} ↔
      Spared h (.finish id outcome now) := by
  change AllClosed (callback h u outcome now) ↔ _
  have hown : (∀ v, h.inFlight.lookup id = some v → Room h v) ↔ Room h u := by
    simp only [hu, Option.some.injEq, forall_eq']
  cases outcome with
  | response status => exact iff_of_true (allClosed_response hc hside) trivial
  | failed err =>
    cases hm : err.maxBytes with
    | true =>
      have hsame : callback h u (.failed err) now = h := by simp [callback, errorHandler, hm, Except.toOption]
      rw [hsame]
      refine iff_of_true hc fun hmax => ?_
      rw [hm] at hmax
      cases hmax
    | false =>
      have hcancel : err.canceled = true := hside.resolve_left (by simp [hm])
      rw [allClosed_failure_iff hc fun b hb => by rw [callback_known hb]; simp [hm], ← hown]
      exact ⟨fun hroom _ _ => hroom, fun hspared => hspared hm hcancel⟩
  | unsent =>
    rw [allClosed_failure_iff hc fun b hb => by rw [callback_known hb], ← hown]
    rfl

theorem allClosed_step_iff (h : Handler) (e : Event) (t : Handler) (hside : ClientSide e)
    (hc : AllClosed h) (hs : step h e = some t) : AllClosed t ↔ Spared h e := by
  cases e with
  | arrive id next now =>
    refine iff_of_true ?_ trivial
    rcases step_arrive_cases hs with rfl | ⟨u, b, hb, _, rfl⟩
    · exact hc
    · have hclosed := hc u b hb
      refine (allClosed_setBreaker_iff hc).mpr ?_
      simp [allow, hclosed]
  | finish id outcome now =>
    simp only [step, Option.map_eq_some_iff] at hs
    obtain ⟨u, hu, rfl⟩ := hs
    exact allClosed_finish_iff hc hside hu
  | switch id now =>
    simp only [step, Option.map_eq_some_iff] at hs
    obtain ⟨u, -, rfl⟩ := hs
    exact iff_of_true (allClosed_response hc (by decide)) trivial
  | unswitched u now =>
    simp only [step, Option.ite_none_right_eq_some, Option.some.injEq] at hs
    obtain ⟨-, rfl⟩ := hs
    exact allClosed_failure_iff hc fun b hb => by rw [callback_known hb]; rfl
  | switched u =>
    simp only [step, Option.ite_none_right_eq_some, Option.some.injEq] at hs
    obtain ⟨-, rfl⟩ := hs
    exact iff_of_true hc trivial

/-- From new breakers, over any interleaving of requests whose round trips all give a status below 500
or fail by a body over the limit or a cancellation: no breaker ever leaves the closed state exactly if no
failure of a cancelled request or of a protocol that was not switched to is counted when its upstream's
counter is one short of the threshold. -/
theorem clients_trip_nothing_iff {h t : Handler} {es : List Event} (hf : Fresh h)
    (hside : ∀ e ∈ es, ClientSide e) (hrun : exec step h es = some t) :
    (∀ s, Visits step h es s → AllClosed s) ↔ StepsMeet step Spared h es :=
  visits_iff_stepsMeet_of step (fun _ => True) AllClosed (fun _ _ _ _ _ => trivial)
    (fun s e t hq _ hc hs => allClosed_step_iff s e t hq hc hs) hside trivial (fresh_allClosed hf) hrun

def canceledError : RoundTripError := ⟨false, false, false, true⟩

def patientUpstream : Handler :=
  ⟨fun u => if u = "http://a" then some (newBreaker 2 10) else none, ∅, []⟩

theorem patientUpstream_fresh : Fresh patientUpstream := by
  refine ⟨rfl, rfl, ?_⟩
  intro u b hb
  simp only [patientUpstream] at hb
  split at hb
  · exact ⟨2, 10, (Option.some.inj hb).symm⟩
  · simp at hb

/-- Whether the counter of an upstream has room for one more failure. -/
def roomLeft (u : String) (h : Handler) : Option Bool :=
  (h.breakers u).map fun b => decide (b.failures + 1 < b.maxFailures)

def targetOf (id : Nat) (h : Handler) : Option String := h.inFlight.lookup id

theorem room_of_left {h : Handler} {u : String} (hroom : roomLeft u h = some true) : Room h u := by
  intro b hb
  rw [roomLeft, hb] at hroom
  exact of_decide_eq_true (Option.some.inj hroom)

theorem own_room {h : Handler} {id : Nat} (hid : targetOf id h = some "http://a")
    (hroom : roomLeft "http://a" h = some true) : ∀ u, h.inFlight.lookup id = some u → Room h u := by
  intro u hu
  obtain rfl : "http://a" = u := Option.some.inj (hid.symm.trans hu)
  exact room_of_left hroom

/-- A cancellation, an answer, an over-long body, a protocol that does not exist, and a reply 101
that comes to nothing, at threshold two. -/
theorem clients_trip_nothing_patient :
    let es : List Event := [.arrive 0 (some "http://a") 0, .finish 0 (.failed canceledError) 1,
      .arrive 1 (some "http://a") 2, .finish 1 (.response 404) 3,
      .arrive 2 (some "http://a") 4, .finish 2 (.failed maxBytesError) 5,
      .arrive 3 (some "http://a") 6, .finish 3 .unsent 7,
      .arrive 4 (some "http://a") 8, .switch 4 9, .unswitched "http://a" 10]
    (exec step patientUpstream es).isSome ∧ ∀ s, Visits step patientUpstream es s → AllClosed s := by
  intro es
  have hrun : exec step patientUpstream es = some _ := rfl
  have hside : ∀ e ∈ es, ClientSide e := by
    simp [es, ClientSide, canceledError, maxBytesError]
  refine ⟨rfl, (clients_trip_nothing_iff patientUpstream_fresh hside hrun).mpr ?_⟩
  refine stepsMeet_of_take step ?_
  intro n e t he ht
  have hn : n < es.length := (List.getElem?_eq_some_iff.mp he).1
  change n < 11 at hn
  interval_cases n
  all_goals cases he
  · trivial
  · exact fun _ _ => own_room (exec_observe step (targetOf 0) ht (by decide +kernel))
      (exec_observe step (roomLeft "http://a") ht (by decide +kernel))
  · trivial
  · trivial
  · trivial
  · exact fun hm => absurd hm (by decide)
  · trivial
  · exact own_room (exec_observe step (targetOf 3) ht (by decide +kernel))
      (exec_observe step (roomLeft "http://a") ht (by decide +kernel))
  · trivial
  · trivial
  · exact room_of_left (exec_observe step (roomLeft "http://a") ht (by decide +kernel))

/-- The failing runs, at an upstream of threshold one: a client goes away; a client asks for a protocol
that is not sent on; an upstream answers 101 and the connections cannot be joined. -/
theorem cancel_trips_breaker :
    (¬ ∀ (h t : Handler) (es : List Event), Fresh h → (∀ e ∈ es, ClientSide e) →
      exec step h es = some t → AllClosed t) ∧
    ∀ es ∈ ([[.arrive 0 (some "http://a") 0, .finish 0 (.failed canceledError) 1],
      [.arrive 0 (some "http://a") 0, .finish 0 .unsent 1],
      [.arrive 0 (some "http://a") 0, .switch 0 1, .unswitched "http://a" 2]] : List (List Event)),
      ((exec step oneUpstream es).bind fun t => (t.breakers "http://a").map Breaker.state) = some .stateOpen := by
  refine ⟨fun hall => ?_, by decide +kernel⟩
  have hc := hall oneUpstream _ [.arrive 0 (some "http://a") 0, .finish 0 (.failed canceledError) 1]
    oneUpstream_fresh (by simp [ClientSide, canceledError]) rfl
  cases hc "http://a" _ rfl

end ApiGateway.ProxyHandler
