import ApiGateway.Config
import ApiGateway.Http

/-!
# Authentication and required roles

`JWTAuth` and `RequireAnyRole` of `internal/middleware/auth.go`, and the order in which
`buildRouter` mounts them for a service. Parsing a token and checking its RS256 signature
is a parameter: for every text, the token it is or an error. What is read from a verified
token follows the source; of the values a JSON member can have, only strings and arrays are
told apart.
-/

namespace ApiGateway.Auth

open Strings Http Config Fallible
set_option autoImplicit false

structure Claims where
  subject : String
  roles : List String
  deriving DecidableEq, Repr

inductive ClaimValue where
  | string (s : String)
  | array (items : List ClaimValue)
  | other

/-- A verified token; `none` for claims that are no `jwt.MapClaims`. -/
structure Token where
  mapClaims : Option (List (String × ClaimValue))

/-- `parseAndValidateToken` with the configured key. -/
abbrev Verifier := String → Except String Token

def writeJSON (status : Nat) (body : List (String × String)) : JsonReply := jsonReply status body

def roleStrings : List ClaimValue → Except String (List String)
  | [] => .ok []
  | .string role :: rawRoles => (roleStrings rawRoles).map (role :: ·)
  | _ :: _ => .error "roles claim is corrupted"

def extractClaims (token : Token) : Except String Claims :=
  match token.mapClaims with
  | none => .error "cannot extract claims from token"
  | some claims =>
    match claims.lookup "sub" with
    | some (.string sub) =>
      match claims.lookup "roles" with
      | some (.array rawRoles) => (roleStrings rawRoles).map fun roles => ⟨sub, roles⟩
      | _ => .error "missing roles claim"
    | _ => .error "missing sub claim"

/-- The claims `JWTAuth` puts into the context, or the reply it ends the request with. -/
def jwtAuth (verify : Verifier) (r : Request) : Except JsonReply Claims :=
  match cutPrefix (r.header.get "Authorization") "Bearer " with
  | none => .error (writeJSON 401 [("error", "missing token")])
  | some tokenStr =>
    match verify tokenStr with
    | .error _ => .error (writeJSON 401 [("error", "invalid token")])
    | .ok token =>
      match extractClaims token with
      | .error _ => .error (writeJSON 401 [("error", "invalid token")])
      | .ok claims => .ok claims

def requireAnyRole (roles : List String) (claims : Option Claims) : Except JsonReply Unit :=
  match claims with
  | none => .error (writeJSON 401 [("error", "missing token")])
  | some claims =>
    if roles.any fun want => claims.roles.contains want then .ok ()
    else .error (writeJSON 403 [("error", "forbidden")])

/-- `JWTAuth` as it is mounted for a service: what the context holds after it. -/
def authenticate (svc : ServiceConfig) (verify : Verifier) (r : Request) :
    Except JsonReply (Option Claims) :=
  if svc.auth then (jwtAuth verify r).map some else .ok none

/-- Both middlewares as they are mounted for a service: the claims in the context of a request
that passes them. -/
def authorise (svc : ServiceConfig) (verify : Verifier) (r : Request) :
    Except JsonReply (Option Claims) := do
  let claims ← authenticate svc verify r
  if svc.requiredRoles ≠ [] then requireAnyRole svc.requiredRoles claims
  return claims

theorem jwtAuth_congr {verify : Verifier} {r r' : Request}
    (h : r.header.values "Authorization" = r'.header.values "Authorization") :
    jwtAuth verify r = jwtAuth verify r' := by
  unfold jwtAuth Header.get
  rw [h]

theorem authorise_congr {svc : ServiceConfig} {verify : Verifier} {r r' : Request}
    (h : r.header.values "Authorization" = r'.header.values "Authorization") :
    authorise svc verify r = authorise svc verify r' := by
  unfold authorise authenticate
  rw [jwtAuth_congr h]

/-- Without authentication nothing is stored. With it, what is stored are the claims of the
request's own verified token. -/
theorem authorise_ok {svc : ServiceConfig} {verify : Verifier} {r : Request} {claims : Option Claims}
    (h : authorise svc verify r = .ok claims) :
    (svc.auth = false ∧ claims = none) ∨
      (svc.auth = true ∧ ∃ c, jwtAuth verify r = .ok c ∧ claims = some c) := by
  unfold authorise at h
  obtain ⟨stored, hstored, hrest⟩ := bind_eq_ok.mp h
  have hclaims : stored = claims := by
    split at hrest
    · obtain ⟨_, -, hpure⟩ := bind_eq_ok.mp hrest
      exact Except.ok.inj hpure
    · exact Except.ok.inj hrest
  subst hclaims
  unfold authenticate at hstored
  cases hauth : svc.auth with
  | false =>
    simp only [hauth, Bool.false_eq_true, if_false, Except.ok.injEq] at hstored
    exact .inl ⟨rfl, hstored.symm⟩
  | true =>
    simp only [hauth, if_true, map_eq_ok] at hstored
    obtain ⟨c, hc, rfl⟩ := hstored
    exact .inr ⟨rfl, c, hc, rfl⟩

/-- A bearer token that verifies, with a string for `sub` and a list of strings for `roles`,
and one of the required roles among them if there are any. -/
def Entitled (svc : ServiceConfig) (verify : Verifier) (r : Request) : Prop :=
  ∃ (tokenStr : String) (token : Token) (claims : List (String × ClaimValue)) (sub : String)
      (roles : List String),
    r.header.get "Authorization" = "Bearer " ++ tokenStr ∧ verify tokenStr = .ok token ∧
    token.mapClaims = some claims ∧ claims.lookup "sub" = some (.string sub) ∧
    claims.lookup "roles" = some (.array (roles.map .string)) ∧
    (svc.requiredRoles ≠ [] → ∃ role ∈ svc.requiredRoles, role ∈ roles)

section Exact
variable {svc : ServiceConfig} {verify : Verifier} {r : Request} {c : Claims}

theorem roleStrings_ok {rawRoles : List ClaimValue} {roles : List String} :
    roleStrings rawRoles = .ok roles ↔ rawRoles = roles.map .string := by
  induction rawRoles generalizing roles with
  | nil =>
    constructor
    · intro h
      cases h
      rfl
    · intro h
      rw [List.map_eq_nil_iff.mp h.symm]
      rfl
  | cons raw rawRoles ih =>
    cases raw with
    | string role =>
      simp only [roleStrings, map_eq_ok, ih]
      constructor
      · rintro ⟨roles', rfl, rfl⟩
        rfl
      · intro h
        obtain ⟨role', roles', rfl, hrole, hrest⟩ := List.map_eq_cons_iff.mp h.symm
        cases hrole
        exact ⟨roles', hrest.symm, rfl⟩
    | array items =>
      refine iff_of_false (by simp [roleStrings]) ?_
      intro h
      obtain ⟨role', _, -, hrole, -⟩ := List.map_eq_cons_iff.mp h.symm
      cases hrole
    | other =>
      refine iff_of_false (by simp [roleStrings]) ?_
      intro h
      obtain ⟨role', _, -, hrole, -⟩ := List.map_eq_cons_iff.mp h.symm
      cases hrole

theorem extractClaims_ok {token : Token} :
    extractClaims token = .ok c ↔ ∃ claims, token.mapClaims = some claims ∧
      claims.lookup "sub" = some (.string c.subject) ∧
      claims.lookup "roles" = some (.array (c.roles.map .string)) := by
  constructor
  · intro h
    unfold extractClaims at h
    split at h
    · cases h
    · rename_i claims hclaims
      split at h
      · rename_i sub hsub
        split at h
        · rename_i rawRoles hroles
          obtain ⟨roles, hok, rfl⟩ := map_eq_ok.mp h
          rw [roleStrings_ok.mp hok] at hroles
          exact ⟨claims, hclaims, hsub, hroles⟩
        · cases h
      · cases h
  · rintro ⟨claims, hclaims, hsub, hroles⟩
    have hok : roleStrings (c.roles.map .string) = .ok c.roles := roleStrings_ok.mpr rfl
    simp only [extractClaims, hclaims, hsub, hroles, hok]
    rfl

theorem jwtAuth_ok : jwtAuth verify r = .ok c ↔ ∃ tokenStr token,
    r.header.get "Authorization" = "Bearer " ++ tokenStr ∧ verify tokenStr = .ok token ∧
      extractClaims token = .ok c := by
  constructor
  · intro h
    unfold jwtAuth at h
    split at h
    · cases h
    · rename_i tokenStr htoken
      split at h
      · cases h
      · rename_i token hverify
        split at h
        · cases h
        · rename_i claims hclaims
          cases h
          exact ⟨tokenStr, token, cutPrefix_eq_some.mp htoken, hverify, hclaims⟩
  · rintro ⟨tokenStr, token, htoken, hverify, hclaims⟩
    simp only [jwtAuth, cutPrefix_eq_some.mpr htoken, hverify, hclaims]

theorem jwtAuth_error {reply : JsonReply} (h : jwtAuth verify r = .error reply) : reply.status = 401 := by
  unfold jwtAuth at h
  split at h
  · cases h
    rfl
  · split at h
    · cases h
      rfl
    · split at h
      · cases h
        rfl
      · cases h

theorem requireAnyRole_ok {roles : List String} :
    requireAnyRole roles (some c) = .ok () ↔ ∃ role ∈ roles, role ∈ c.roles := by
  simp [requireAnyRole]

theorem requireAnyRole_error {roles : List String} {claims : Option Claims} {reply : JsonReply}
    (h : requireAnyRole roles claims = .error reply) : reply.status = 401 ∨ reply.status = 403 := by
  cases claims with
  | none =>
    cases h
    exact .inl rfl
  | some c =>
    simp only [requireAnyRole] at h
    split at h
    · cases h
    · cases h
      exact .inr rfl

/-- The two checks together let through exactly the entitled requests. -/
theorem entitled_iff : Entitled svc verify r ↔ ∃ c, jwtAuth verify r = .ok c ∧
    (svc.requiredRoles ≠ [] → requireAnyRole svc.requiredRoles (some c) = .ok ()) := by
  constructor
  · rintro ⟨tokenStr, token, claims, sub, roles, htoken, hverify, hclaims, hsub, hroles, hany⟩
    refine ⟨⟨sub, roles⟩, ?_, fun hne => requireAnyRole_ok.mpr (hany hne)⟩
    exact jwtAuth_ok.mpr ⟨tokenStr, token, htoken, hverify,
      extractClaims_ok.mpr ⟨claims, hclaims, hsub, hroles⟩⟩
  · rintro ⟨c, hc, hany⟩
    obtain ⟨tokenStr, token, htoken, hverify, hextract⟩ := jwtAuth_ok.mp hc
    obtain ⟨claims, hclaims, hsub, hroles⟩ := extractClaims_ok.mp hextract
    exact ⟨tokenStr, token, claims, c.subject, c.roles, htoken, hverify, hclaims, hsub, hroles,
      fun hne => requireAnyRole_ok.mp (hany hne)⟩

end Exact

end ApiGateway.Auth
