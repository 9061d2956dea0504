import ApiGateway.ProxyRewrite
import ApiGateway.Runs

/-!
# Orders behind the gateway

The handlers of `upstream/orders/main.go` know a user by the header `X-User` alone and hand it to their
statement. What the validator says of a payload and what the database does with a statement are parameters
here, and the database may change by itself at any time; so the results hold whatever these do.

A request is one that gets to a handler of the orders service: a service of the gateway lets it through, the
reverse proxy forwards it, the transport sends it and the service's mux has a handler for it. Requests that a
cache in front answers are not among them.
-/

namespace ApiGateway.OrdersService

open Runs Http Config Auth ProxyRewrite Fallible
set_option autoImplicit false

structure OrderCreate where
  productID : Int
  quantity : Int
  deriving DecidableEq

/-- The error of `validate.Struct`. -/
inductive Invalid where
  | field (name tag : String)
  | other

/-- The error of a scan of a single row. -/
inductive QueryError where
  | noRows
  | failed

/-- What a query iterates over: each row, if it can be scanned, and whether the iteration fails at its
end. -/
structure Rows (Order : Type) where
  scanned : List (Option Order)
  err : Bool

/-- The validator and the two statements with their arguments. -/
structure Backend (DB Order : Type) where
  validate : OrderCreate → Option Invalid
  insert : DB → String → Int → Int → DB × Except QueryError (Int × Int)
  select : DB → String → Option (Rows Order)

inductive Reply (Order : Type) where
  | error (status : Nat) (msg : String)
  | created (id totalCents : Int)
  | listed (orders : List Order)
  deriving DecidableEq

section Handlers
variable {DB Order : Type} (backend : Backend DB Order) (db : DB)

/-- `GET /orders`. -/
def getOrders (user : String) : Reply Order :=
  match backend.select db user with
  | none => .error 500 "internal error"
  | some rows =>
    match rows.scanned.mapM id with
    | none => .error 500 "internal error"
    | some orders => if rows.err then .error 500 "internal error" else .listed orders

/-- `POST /orders`, for a body that was decoded as the given payload. -/
def postOrders (user : String) (body : Option OrderCreate) : DB × Reply Order :=
  match body with
  | none => (db, .error 400 "invalid request")
  | some payload =>
    match backend.validate payload with
    | some (.field name tag) => (db, .error 400 ("invalid field " ++ name ++ ": " ++ tag))
    | some .other => (db, .error 400 "invalid request")
    | none =>
      match backend.insert db user payload.productID payload.quantity with
      | (db', .ok (id, totalCents)) => (db', .created id totalCents)
      | (db', .error .noRows) => (db', .error 400 "product not found")
      | (db', .error .failed) => (db', .error 500 "internal error")

end Handlers

/-- The orders service by itself: what it is asked, for whom, and what else happens to its database. -/
inductive Call (DB : Type) where
  | post (user : String) (body : Option OrderCreate)
  | get (user : String)
  | outside (db : DB)
  deriving DecidableEq

section Service
variable {DB Order : Type} (backend : Backend DB Order) (db : DB)

def serve : Call DB → Option DB
  | .post user body => some (postOrders backend db user body).1
  | .get _ => some db
  | .outside db' => some db'

def reply : Call DB → Option (Reply Order)
  | .post user body => some (postOrders backend db user body).2
  | .get user => some (getOrders backend db user)
  | .outside _ => none

end Service

/-- A service of the gateway and how its requests are sent. -/
structure Site where
  net : Net
  svc : ServiceConfig
  verify : Int → Verifier
  proto : Proto

/-- A client's request, when it is checked, the URL that `StripPrefix` leaves it, the upstream chosen for it
and the span it is in. -/
structure Arrival where
  r : Request
  now : Int
  stripped : URL
  target : String
  span : Option SpanContext

/-- `r.Header.Get("X-User")` in the orders service, for a request that gets there. -/
def userSeen (site : Site) (a : Arrival) : Option String :=
  (authorise site.svc (site.verify a.now) a.r).toOption.bind fun claims =>
    (reverseProxy site.net ⟨some a.target, claims, a.span⟩ {a.r with url := a.stripped}).toOption.bind fun out =>
      (wire site.proto out.header).map fun sent => sent.get "X-User"

/-- The subject of a request's own token, as it is written. -/
def subject (site : Site) (a : Arrival) : Option String :=
  (jwtAuth (site.verify a.now) a.r).toOption.map fun claims => site.proto.written claims.subject

inductive Event (DB : Type) where
  | post (a : Arrival) (body : Option OrderCreate)
  | get (a : Arrival)
  | outside (db : DB)

/-- The call that an event is, if `user` says who a request is from. -/
def Event.call {DB : Type} (user : Arrival → Option String) : Event DB → Option (Call DB)
  | .post a body => (user a).map (.post · body)
  | .get a => (user a).map .get
  | .outside db => some (.outside db)

section Composed
variable {DB Order : Type} (backend : Backend DB Order) (site : Site)

/-- The orders service behind the gateway. -/
def step (db : DB) (e : Event DB) : Option DB := (e.call (userSeen site)).bind (serve backend db)

def answer (db : DB) (e : Event DB) : Option (Reply Order) := (e.call (userSeen site)).bind (reply backend db)

end Composed

section Subjects
variable {DB Order : Type} {backend : Backend DB Order} {site : Site}

/-- Where a token is asked for, the orders service reads the subject of the token. -/
theorem userSeen_subject (hauth : site.svc.auth = true) {a : Arrival} {user : String}
    (h : userSeen site a = some user) : subject site a = some user := by
  obtain ⟨claims, hclaims, h⟩ := Option.bind_eq_some_iff.mp h
  obtain ⟨out, hout, h⟩ := Option.bind_eq_some_iff.mp h
  obtain ⟨sent, hsent, rfl⟩ := Option.map_eq_some_iff.mp h
  have hread : identity sent = _ := identity_wire hsent
  rw [identity_reverseProxy (toOption_eq_some.mp hout)] at hread
  rcases authorise_ok (toOption_eq_some.mp hclaims) with ⟨hopen, -⟩ | ⟨-, c, hc, rfl⟩
  · cases hauth.symm.trans hopen
  · have hvalues : sent.values "X-User" = [site.proto.written c.subject] := congrArg Prod.fst hread
    rw [subject, hc, Header.get, hvalues]
    rfl

theorem call_subject (hauth : site.svc.auth = true) {e : Event DB} {c : Call DB}
    (h : e.call (userSeen site) = some c) : e.call (subject site) = some c := by
  cases e with
  | post a body =>
    obtain ⟨user, huser, rfl⟩ := Option.map_eq_some_iff.mp h
    exact Option.map_eq_some_iff.mpr ⟨user, userSeen_subject hauth huser, rfl⟩
  | get a =>
    obtain ⟨user, huser, rfl⟩ := Option.map_eq_some_iff.mp h
    exact Option.map_eq_some_iff.mpr ⟨user, userSeen_subject hauth huser, rfl⟩
  | outside db => exact h

/-- A step behind the gateway is the one that the service makes for the subject. -/
theorem orders_turn (hauth : site.svc.auth = true) {db db' : DB} {e : Event DB}
    (h : step backend site db e = some db') :
    exec (serve backend) db (e.call (subject site)).toList = some db' ∧
      (answer backend site db e).toList =
        outputs (serve backend) (reply backend) db (e.call (subject site)).toList := by
  obtain ⟨c, hc, hserve⟩ := Option.bind_eq_some_iff.mp h
  rw [call_subject hauth hc, answer, hc, Option.toList_some]
  refine ⟨(exec_cons_iff (serve backend)).mpr ⟨db', hserve, rfl⟩, ?_⟩
  rw [outputs_cons (serve backend) (reply backend) hserve, Option.bind_some]
  exact (List.append_nil _).symm

/-- Behind a service that asks for a token, the orders service does and answers what it would by itself when
told the subject of each request's token: nothing else that a client sends decides whose orders are placed
or shown. -/
theorem orders_of_subjects (hauth : site.svc.auth = true) {db db' : DB} {es : List (Event DB)}
    (he : exec (step backend site) db es = some db') :
    exec (serve backend) db (outputs (step backend site) (fun _ e => e.call (subject site)) db es) = some db' ∧
      outputs (step backend site) (answer backend site) db es =
        outputs (serve backend) (reply backend) db
          (outputs (step backend site) (fun _ e => e.call (subject site)) db es) :=
  exec_serves (step backend site) (serve backend) (reply backend) (fun _ => True) id
    (fun _ e => e.call (subject site)) (answer backend site)
    (fun _ _ _ _ hstep => ⟨trivial, orders_turn hauth hstep⟩) trivial he

end Subjects

def twoUsers : Verifier := fun text =>
  if text = "a" then .ok (roleToken ⟨"alice", []⟩)
  else if text = "b" then .ok (roleToken ⟨"bob", []⟩)
  else .error "signature"

def shop : Site := ⟨sampleNet, ordersService true, fun _ => twoUsers, .http1⟩

/-- A table with one product. -/
def table : Backend (List (String × Int)) (String × Int) where
  validate payload := if 0 < payload.quantity then none else some (.field "Quantity" "gte")
  insert db user productID quantity :=
    if productID = 7 then (db ++ [(user, quantity)], .ok (db.length, quantity)) else (db, .error .noRows)
  select db user := some ⟨(db.filter (·.1 = user)).map some, false⟩

/-- A request with a token that says it comes from somebody else. -/
def posing (method token claimed : String) : Arrival where
  r := ⟨method, ⟨"/orders/orders", "", []⟩, ⟨[(authorization, "Bearer " ++ token), (xUser, claimed)]⟩, "gateway",
    "10.0.0.1:40000", false⟩
  now := 0
  stripped := ⟨"/orders", "", []⟩
  target := "http://orders:8080"
  span := none

def twoOrders : List (Event (List (String × Int))) :=
  [.post (posing "POST" "a" "bob") (some ⟨7, 3⟩), .post (posing "POST" "b" "alice") (some ⟨7, 2⟩),
    .get (posing "GET" "a" "bob")]

theorem orders_of_subjects_alice :
    exec (serve table) [] [.post "alice" (some ⟨7, 3⟩), .post "bob" (some ⟨7, 2⟩), .get "alice"] =
        some [("alice", 3), ("bob", 2)] ∧
      outputs (step table shop) (answer table shop) [] twoOrders =
        [.created 0 3, .created 1 2, .listed [("alice", 3)]] := by
  have hrun : exec (step table shop) [] twoOrders = some [("alice", 3), ("bob", 2)] := by decide +kernel
  have hcalls : outputs (step table shop) (fun _ e => e.call (subject shop)) [] twoOrders =
      [.post "alice" (some ⟨7, 3⟩), .post "bob" (some ⟨7, 2⟩), .get "alice"] := by decide +kernel
  obtain ⟨hserved, hanswers⟩ := orders_of_subjects rfl hrun
  rw [hcalls] at hserved hanswers
  exact ⟨hserved, hanswers.trans (by decide +kernel)⟩

end ApiGateway.OrdersService
