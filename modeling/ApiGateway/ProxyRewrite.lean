import ApiGateway.Auth
import ApiGateway.Delimiters

/-!
# The request an upstream receives

The `Rewrite` hook of `internal/proxy/proxy.go`, the two functions of
`internal/proxy/rewrite.go` it calls, and what `httputil.ReverseProxy` does to the headers of
a request before and after it: hop-by-hop headers are taken out, forwarding headers of the
client are taken out, everything else is copied. The trace context is whatever the tracing
middleware left in the context; `propagation.TraceContext` writes its two headers. Parsing
a URL and splitting an address into host and port are parameters.

What the upstream reads is what the transport writes. It refuses a request one of whose values has
a control character; over HTTP/1.1 it writes a value without the blanks around it, over HTTP/2, which
`newUpstreamTransport` asks for where the upstream speaks TLS, as it is.

`injectUserHeaders` overwrites `X-User` and `X-Roles` when the context holds claims. When it
does not, it leaves them as the client sent them. It joins the roles with commas and escapes
nothing, so a role that holds a comma reaches the upstream as several.
-/

namespace ApiGateway.ProxyRewrite

open Strings Http Config Auth Fallible
set_option autoImplicit false

def te : FieldName := ⟨"Te", by decide, by decide⟩

def connection : FieldName := ⟨"Connection", by decide, by decide⟩

def upgrade : FieldName := ⟨"Upgrade", by decide, by decide⟩

def xForwardedFor : FieldName := ⟨"X-Forwarded-For", by decide, by decide⟩

def xForwardedHost : FieldName := ⟨"X-Forwarded-Host", by decide, by decide⟩

def xForwardedProto : FieldName := ⟨"X-Forwarded-Proto", by decide, by decide⟩

def traceparent : FieldName := ⟨"Traceparent", by decide, by decide⟩

def tracestate : FieldName := ⟨"Tracestate", by decide, by decide⟩

def userAgent : FieldName := ⟨"User-Agent", by decide, by decide⟩

def xUser : FieldName := ⟨"X-User", by decide, by decide⟩

def xRoles : FieldName := ⟨"X-Roles", by decide, by decide⟩

structure SpanContext where
  traceparent : String
  tracestate : String

structure Context where
  target : Option String
  claims : Option Claims
  span : Option SpanContext

structure TargetURL where
  scheme : String
  host : String

structure Net where
  parse : String → Option TargetURL
  splitHost : String → Option String

structure Outbound where
  scheme : String
  urlHost : String
  host : String
  url : URL
  header : Header
  deriving DecidableEq

inductive Unsent where
  | invalidProtocol (upgradeType : String)
  | panicked (msg : String)
  deriving DecidableEq

def mustGetTargetFromContext (ctx : Context) : Except String String :=
  match ctx.target with
  | some target => .ok target
  | none => .error "proxy: target URL not found in request context"

def mustParseURL (net : Net) (raw : String) : Except String TargetURL :=
  match net.parse raw with
  | some u => .ok u
  | none => .error ("proxy: invalid upstream URL: " ++ raw)

def setXForwarded (net : Net) (r : Request) (h : Header) : Header :=
  let h := match net.splitHost r.remoteAddr with
    | some clientIP =>
      let prior := h.values "X-Forwarded-For"
      h.set xForwardedFor
        (if prior ≠ [] then String.intercalate ", " prior ++ ", " ++ clientIP else clientIP)
    | none => h.del xForwardedFor
  (h.set xForwardedHost r.host).set xForwardedProto (if r.tls then "https" else "http")

def injectTraceContext (ctx : Context) (h : Header) : Header :=
  match ctx.span with
  | none => h
  | some span =>
    let h := if span.tracestate ≠ "" then h.set tracestate span.tracestate else h
    h.set traceparent span.traceparent

def injectUserHeaders (ctx : Context) (h : Header) : Header :=
  match ctx.claims with
  | none => h
  | some claims => (h.set xUser claims.subject).set xRoles (String.intercalate "," claims.roles)

def rewrite (net : Net) (ctx : Context) (r : Request) (out : Outbound) : Except String Outbound := do
  let target ← mustGetTargetFromContext ctx
  let targetURL ← mustParseURL net target
  return {out with
    scheme := targetURL.scheme
    urlHost := targetURL.host
    host := targetURL.host
    header := injectUserHeaders ctx (injectTraceContext ctx (setXForwarded net r out.header))}

def hopHeaders : List String :=
  ["Connection", "Proxy-Connection", "Keep-Alive", "Proxy-Authenticate", "Proxy-Authorization", "Te",
    "Trailer", "Transfer-Encoding", "Upgrade"]

def connectionNames (h : Header) : List String :=
  (h.values "Connection").flatMap fun f =>
    ((splitSeq f ',').map trimString).filter fun name => name ≠ ""

def removeHopByHopHeaders (h : Header) : Header :=
  (connectionNames h ++ hopHeaders).foldl Header.remove h

/-- `HeaderValuesContainsToken`. -/
def containsToken (values : List String) (token : String) : Bool :=
  values.any fun v => (splitSeq v ',').any fun part =>
    let blank (c : Char) : Bool := c = ' ' || c = Char.ofNat 9
    let t := ((part.toList.dropWhile blank).reverse.dropWhile blank).reverse
    t.all isASCII && t.map Char.toLower = token.toList.map Char.toLower

def upgradeType (h : Header) : String :=
  if containsToken (h.values "Connection") "Upgrade" then h.get "Upgrade" else ""

/-- The headers `Rewrite` finds. -/
def copiedHeader (h : Header) : Header :=
  let out := removeHopByHopHeaders h
  let out := if containsToken (h.values "Te") "trailers" then out.set te "trailers" else out
  let out := if upgradeType h ≠ "" then (out.set connection "Upgrade").set upgrade (upgradeType h)
    else out
  ["Forwarded", "X-Forwarded-For", "X-Forwarded-Host", "X-Forwarded-Proto"].foldl Header.remove out

def isPrint (s : String) : Bool := s.toList.all fun c => 0x20 ≤ c.toNat && c.toNat ≤ 0x7e

/-- `ReverseProxy.ServeHTTP` up to the round trip. -/
def reverseProxy (net : Net) (ctx : Context) (r : Request) : Except Unsent Outbound :=
  if isPrint (upgradeType r.header) then
    match rewrite net ctx r ⟨"", "", r.host, r.url, copiedHeader r.header⟩ with
    | .error msg => .error (.panicked msg)
    | .ok out =>
      if out.header.values "User-Agent" = [] then
        .ok {out with header := out.header.set userAgent ""}
      else .ok out
  else .error (.invalidProtocol (upgradeType r.header))

inductive Proto where
  | http1
  | http2
  deriving DecidableEq

/-- How the transport writes a value. -/
def Proto.written : Proto → String → String
  | .http1, value => trimString value
  | .http2, value => value

def validHeaderFieldValue (value : String) : Bool :=
  value.toList.all fun c => !((c.toNat < 0x20 && c.toNat ≠ 9) || c.toNat = 0x7f)

/-- The lines the upstream receives; `none` if the transport refuses the request. -/
def wire (proto : Proto) (h : Header) : Option Header :=
  if h.lines.all fun line => validHeaderFieldValue line.2 then
    some ⟨h.lines.map fun line => (line.1, proto.written line.2)⟩
  else none

/-- The lines that tell an upstream who the user is. -/
def identity (h : Header) : List String × List String := (h.values "X-User", h.values "X-Roles")

/-- What they should be for the claims in the context. -/
def verifiedIdentity : Option Claims → List String × List String
  | none => ([], [])
  | some claims => ([claims.subject], [String.intercalate "," claims.roles])

/-- What becomes of such lines on the way. -/
def Proto.writtenIdentity (proto : Proto) (lines : List String × List String) : List String × List String :=
  (lines.1.map proto.written, lines.2.map proto.written)

/-- The verified identity survives the way as it is: over HTTP/1.1, neither the subject nor the joined
roles have blanks around them. -/
def Unpadded (proto : Proto) (claims : Option Claims) : Prop :=
  proto.writtenIdentity (verifiedIdentity claims) = verifiedIdentity claims

instance (proto : Proto) (claims : Option Claims) : Decidable (Unpadded proto claims) :=
  inferInstanceAs (Decidable (_ = _))

/-- Two requests that differ at most in the identity lines the client put there. -/
structure SameButIdentity (r r' : Request) : Prop where
  method : r.method = r'.method
  url : r.url = r'.url
  host : r.host = r'.host
  remoteAddr : r.remoteAddr = r'.remoteAddr
  tls : r.tls = r'.tls
  header : ∀ name, canonicalHeaderKey name ≠ "X-User" → canonicalHeaderKey name ≠ "X-Roles" →
    r.header.values name = r'.header.values name

section Identity
variable (net : Net) (ctx : Context) (r : Request) (h : Header)

theorem canonical_identity :
    canonicalHeaderKey "X-User" = "X-User" ∧ canonicalHeaderKey "X-Roles" = "X-Roles" := by decide

theorem identity_set {n : FieldName} (hu : n.text ≠ "X-User") (hr : n.text ≠ "X-Roles") (value : String) :
    identity (h.set n value) = identity h := by
  rw [identity, identity, Header.values_set_of_ne h (canonical_identity.1 ▸ hu),
    Header.values_set_of_ne h (canonical_identity.2 ▸ hr)]

theorem identity_remove {name : String} (hu : canonicalHeaderKey name ≠ "X-User")
    (hr : canonicalHeaderKey name ≠ "X-Roles") : identity (h.remove name) = identity h := by
  rw [identity, identity, Header.values_remove, Header.values_remove, canonical_identity.1,
    canonical_identity.2, if_neg hu, if_neg hr]

theorem identity_copiedHeader : identity (copiedHeader h) = identity (removeHopByHopHeaders h) := by
  unfold copiedHeader
  simp only [List.foldl_cons, List.foldl_nil]
  rw [identity_remove _ (by decide) (by decide), identity_remove _ (by decide) (by decide),
    identity_remove _ (by decide) (by decide), identity_remove _ (by decide) (by decide)]
  split
  · rw [identity_set _ (by decide) (by decide), identity_set _ (by decide) (by decide)]
    split
    · rw [identity_set _ (by decide) (by decide)]
    · rfl
  · split
    · rw [identity_set _ (by decide) (by decide)]
    · rfl

theorem identity_setXForwarded : identity (setXForwarded net r h) = identity h := by
  have hdel : identity (h.del xForwardedFor) = identity h := by
    rw [identity, identity, Header.values_del_of_ne h (by decide), Header.values_del_of_ne h (by decide)]
  unfold setXForwarded
  dsimp only
  rw [identity_set _ (by decide) (by decide), identity_set _ (by decide) (by decide)]
  split
  · rw [identity_set _ (by decide) (by decide)]
  · exact hdel

theorem identity_injectTraceContext : identity (injectTraceContext ctx h) = identity h := by
  unfold injectTraceContext
  split
  · rfl
  · dsimp only
    rw [identity_set _ (by decide) (by decide)]
    split
    · rw [identity_set _ (by decide) (by decide)]
    · rfl

theorem identity_injectUserHeaders :
    identity (injectUserHeaders ctx h) =
      if ctx.claims = none then identity h else verifiedIdentity ctx.claims := by
  unfold injectUserHeaders
  cases ctx.claims with
  | none => rfl
  | some claims =>
    simp only [reduceCtorEq, if_false, identity, verifiedIdentity]
    rw [Header.values_set_of_ne _ (by decide), Header.values_set_self _ (by decide),
      Header.values_set_self _ (by decide)]

theorem wire_some {proto : Proto} {h sent : Header} (hsent : wire proto h = some sent) :
    sent = ⟨h.lines.map fun line => (line.1, proto.written line.2)⟩ := by
  unfold wire at hsent
  split at hsent
  · exact (Option.some.inj hsent).symm
  · cases hsent

theorem values_written (proto : Proto) (name : String) :
    (Header.mk (h.lines.map fun line => (line.1, proto.written line.2))).values name =
      (h.values name).map proto.written := by
  rw [Header.values, Header.values, List.filter_map, List.map_map, List.map_map]
  rfl

theorem identity_wire {proto : Proto} {h sent : Header} (hsent : wire proto h = some sent) :
    identity sent = proto.writtenIdentity (identity h) := by
  rw [wire_some hsent, identity, values_written, values_written]
  rfl

end Identity

section Forwarding
variable {net : Net} {ctx : Context} {r : Request} {out : Outbound}

theorem rewrite_ok {start : Outbound} (h : rewrite net ctx r start = .ok out) :
    out.header = injectUserHeaders ctx (injectTraceContext ctx (setXForwarded net r start.header)) := by
  unfold rewrite at h
  obtain ⟨target, -, h⟩ := bind_eq_ok.mp h
  obtain ⟨targetURL, -, h⟩ := bind_eq_ok.mp h
  cases h
  rfl

/-- What the upstream is told: the claims in the context, or what is left of the client's own
lines. -/
theorem identity_reverseProxy (h : reverseProxy net ctx r = .ok out) :
    identity out.header = if ctx.claims = none then identity (removeHopByHopHeaders r.header)
      else verifiedIdentity ctx.claims := by
  unfold reverseProxy at h
  split at h
  · split at h
    · cases h
    · rename_i sent hsent
      have hheader : identity sent.header = if ctx.claims = none then
          identity (removeHopByHopHeaders r.header) else verifiedIdentity ctx.claims := by
        rw [rewrite_ok hsent, identity_injectUserHeaders, identity_injectTraceContext,
          identity_setXForwarded, identity_copiedHeader]
      split at h
      · cases h
        rw [← hheader]
        exact identity_set sent.header (by decide) (by decide) ""
      · cases h
        exact hheader
  · cases h

theorem authorise_eq_of_same {svc : ServiceConfig} {verify : Verifier} {r' : Request}
    (h : SameButIdentity r r') : authorise svc verify r = authorise svc verify r' :=
  authorise_congr (h.header "Authorization" (by decide) (by decide))

/-- What the upstream reads is exactly who was verified if and only if, with a token asked for, the verified
identity has no blanks that are lost on the way and, with none, the client's own identity lines do not
survive. For two requests that differ in such lines only, it reads the same if and only if a token is asked
for or what survives of the lines is the same. -/
theorem identity_received_iff {svc : ServiceConfig} {verify : Verifier} {target target' : String}
    {span span' : Option SpanContext} {r' : Request} {claims claims' : Option Claims} {out' : Outbound}
    {proto : Proto} {sent sent' : Header}
    (hauth : authorise svc verify r = .ok claims)
    (hout : reverseProxy net ⟨some target, claims, span⟩ r = .ok out) (hsent : wire proto out.header = some sent)
    (hauth' : authorise svc verify r' = .ok claims')
    (hout' : reverseProxy net ⟨some target', claims', span'⟩ r' = .ok out')
    (hsent' : wire proto out'.header = some sent') (hsame : SameButIdentity r r') :
    (identity sent = verifiedIdentity claims ↔
      (svc.auth = true → Unpadded proto claims) ∧
        (svc.auth = false → identity (removeHopByHopHeaders r.header) = ([], []))) ∧
    (identity sent = identity sent' ↔
      svc.auth = true ∨ proto.writtenIdentity (identity (removeHopByHopHeaders r.header)) =
        proto.writtenIdentity (identity (removeHopByHopHeaders r'.header))) := by
  have hclaims : claims = claims' := by
    rw [authorise_eq_of_same hsame, hauth'] at hauth
    exact (Except.ok.inj hauth).symm
  subst hclaims
  rw [identity_wire hsent, identity_wire hsent', identity_reverseProxy hout, identity_reverseProxy hout']
  rcases authorise_ok hauth with ⟨hopen, rfl⟩ | ⟨hclosed, c, -, rfl⟩
  · simp [hopen, verifiedIdentity, Proto.writtenIdentity, Prod.ext_iff]
  · simp [hclosed, Unpadded]

end Forwarding

section Roles

/-- The roles that an upstream reads. -/
def forwardedRoles (h : Header) : List String := splitSeq (h.get "X-Roles") ','

/-- The upstream reads the roles of the claims, and so sees a role exactly if `RequireAnyRole` does. -/
structure RolesForwarded (ctx : Context) (h : Header) (c : Claims) : Prop where
  roles : forwardedRoles (injectUserHeaders {ctx with claims := some c} h) = c.roles
  seen : ∀ role, role ∈ forwardedRoles (injectUserHeaders {ctx with claims := some c} h) ↔
    requireAnyRole [role] (some c) = .ok ()

theorem forwardedRoles_injectUserHeaders (ctx : Context) (h : Header) (c : Claims) :
    forwardedRoles (injectUserHeaders {ctx with claims := some c} h) =
      splitSeq (String.intercalate "," c.roles) ',' := by
  have hvalues : (injectUserHeaders {ctx with claims := some c} h).values "X-Roles" =
      [String.intercalate "," c.roles] := by
    rw [injectUserHeaders, Header.values_set_self _ (by decide)]
  rw [forwardedRoles, Header.get, hvalues]
  rfl

theorem splitSeq_intercalate_iff (roles : List String) :
    splitSeq (String.intercalate "," roles) ',' = roles ↔ roles ≠ [] ∧ ∀ role ∈ roles, ',' ∉ role.toList := by
  have hinj : Function.Injective (List.map String.toList) :=
    List.map_injective_iff.mpr fun _ _ => String.toList_inj.mp
  have hback : (splitSeq (String.intercalate "," roles) ',').map String.toList =
      ([','].intercalate (roles.map String.toList)).splitOn ',' := by
    have hid : String.toList ∘ String.ofList = id := funext fun _ => String.toList_ofList
    rw [splitSeq, List.map_map, hid, List.map_id, String.toList_intercalate]
    rfl
  rw [← hinj.eq_iff, hback, Delimiters.splitOn_intercalate_iff]
  simp

def roleToken (c : Claims) : Token :=
  ⟨some [("sub", .string c.subject), ("roles", .array (c.roles.map .string))]⟩

/-- Tokens may hold any roles, and their claims reach the upstream as they are exactly if there are
roles and none holds a comma. -/
theorem rolesForwarded_iff (ctx : Context) (h : Header) (c : Claims) :
    (∃ token, extractClaims token = .ok c) ∧
      (RolesForwarded ctx h c ↔ c.roles ≠ [] ∧ ∀ role ∈ c.roles, ',' ∉ role.toList) := by
  refine ⟨⟨roleToken c, extractClaims_ok.mpr ⟨_, rfl, rfl, rfl⟩⟩, ?_⟩
  rw [← splitSeq_intercalate_iff, ← forwardedRoles_injectUserHeaders ctx h c]
  constructor
  · exact fun hforwarded => hforwarded.roles
  · intro hroles
    refine ⟨hroles, fun role => ?_⟩
    rw [hroles, requireAnyRole_ok]
    simp

/-- One role with a comma in it. The role check does not find `admin` in it, the upstream does; and
where there are no roles the upstream reads an empty one. -/
theorem roles_split_at_comma :
    extractClaims (roleToken ⟨"alice", ["guest,admin"]⟩) = .ok ⟨"alice", ["guest,admin"]⟩ ∧
      requireAnyRole ["admin"] (some ⟨"alice", ["guest,admin"]⟩) ≠ .ok () ∧
      forwardedRoles (injectUserHeaders ⟨none, some ⟨"alice", ["guest,admin"]⟩, none⟩ .empty) = ["guest", "admin"] ∧
      extractClaims (roleToken ⟨"alice", []⟩) = .ok ⟨"alice", []⟩ ∧
      forwardedRoles (injectUserHeaders ⟨none, some ⟨"alice", []⟩, none⟩ .empty) = [""] ∧
      ¬ RolesForwarded ⟨none, none, none⟩ .empty ⟨"alice", ["guest,admin"]⟩ := by
  have hroles : forwardedRoles (injectUserHeaders ⟨none, some ⟨"alice", ["guest,admin"]⟩, none⟩ .empty) =
      ["guest", "admin"] := by decide +kernel
  refine ⟨rfl, by decide +kernel, hroles, rfl, by decide +kernel, fun hforwarded => ?_⟩
  have heq := hforwarded.roles
  rw [hroles] at heq
  exact absurd heq (by decide)

end Roles

def sampleNet : Net := ⟨fun _ => some ⟨"http", "orders:8080"⟩, fun _ => some "10.0.0.1"⟩

def sampleVerifier : Verifier := fun text =>
  if text = "t" then
    .ok ⟨some [("sub", .string "alice"), ("roles", .array [.string "admin", .string "vip"])]⟩
  else if text = "p" then .ok ⟨some [("sub", .string " alice"), ("roles", .array [.string "admin"])]⟩
  else .error "signature"

def ordersService (auth : Bool) : ServiceConfig :=
  ⟨"orders", "/orders", ["http://orders:8080"], auth, [], none, none⟩

def getOrders (header : Header) : Request :=
  ⟨"GET", ⟨"/orders", "", []⟩, header, "gateway", "10.0.0.1:40000", false⟩

def forged : Header := ⟨[(authorization, "Bearer t"), (xUser, "root")]⟩

def honest : Header := ⟨[(authorization, "Bearer t")]⟩

def padded : Header := ⟨[(authorization, "Bearer p")]⟩

theorem sameButIdentity_forged : SameButIdentity (getOrders forged) (getOrders honest) := by
  refine ⟨rfl, rfl, rfl, rfl, rfl, ?_⟩
  intro name hu _
  have htext : xUser.text ≠ canonicalHeaderKey name := fun h => hu h.symm
  exact Header.values_add_of_ne honest htext "root"

/-- What the upstream reads when the claims are in the context. -/
def received (proto : Proto) (claims : Option Claims) (h : Header) : Option Header :=
  match reverseProxy sampleNet ⟨some "http://orders:8080", claims, none⟩ (getOrders h) with
  | .ok out => wire proto out.header
  | .error _ => none

theorem exists_of_received {proto : Proto} {claims : Option Claims} {h : Header}
    (hr : (received proto claims h).isSome = true) :
    ∃ out sent, reverseProxy sampleNet ⟨some "http://orders:8080", claims, none⟩ (getOrders h) = .ok out ∧
      wire proto out.header = some sent := by
  unfold received at hr
  split at hr
  · rename_i out hout
    obtain ⟨sent, hsent⟩ := Option.isSome_iff_exists.mp hr
    exact ⟨out, sent, hout, hsent⟩
  · cases hr

theorem identity_received_alice :
    ∃ out sent, reverseProxy sampleNet ⟨some "http://orders:8080", some ⟨"alice", ["admin", "vip"]⟩, none⟩
        (getOrders forged) = .ok out ∧ wire .http1 out.header = some sent ∧
      identity sent = (["alice"], ["admin,vip"]) := by
  have hauth : authorise (ordersService true) sampleVerifier (getOrders forged) =
      .ok (some ⟨"alice", ["admin", "vip"]⟩) := by decide +kernel
  have hauth' := authorise_eq_of_same sameButIdentity_forged ▸ hauth
  have hr : (received .http1 (some ⟨"alice", ["admin", "vip"]⟩) forged).isSome = true := by decide +kernel
  have hr' : (received .http1 (some ⟨"alice", ["admin", "vip"]⟩) honest).isSome = true := by decide +kernel
  obtain ⟨out, sent, hout, hsent⟩ := exists_of_received hr
  obtain ⟨out', sent', hout', hsent'⟩ := exists_of_received hr'
  refine ⟨out, sent, hout, hsent, ?_⟩
  refine (identity_received_iff hauth hout hsent hauth' hout' hsent' sameButIdentity_forged).1.mpr ⟨fun _ => ?_, ?_⟩
  · decide +kernel
  · rintro ⟨⟩

/-- Without authentication, whatever the client claims to be is passed on. With it, a subject that begins
with a blank reaches the upstream as another one. -/
theorem identity_forged :
    SameButIdentity (getOrders forged) (getOrders honest) ∧
      authorise (ordersService false) sampleVerifier (getOrders forged) = .ok none ∧
      authorise (ordersService false) sampleVerifier (getOrders honest) = .ok none ∧
      (received .http1 none forged).map identity = some (["root"], []) ∧
      (received .http1 none honest).map identity = some ([], []) ∧
      authorise (ordersService true) sampleVerifier (getOrders padded) = .ok (some ⟨" alice", ["admin"]⟩) ∧
      (received .http1 (some ⟨" alice", ["admin"]⟩) padded).map identity = some (["alice"], ["admin"]) := by
  refine ⟨sameButIdentity_forged, rfl, rfl, ?_, ?_, ?_, ?_⟩
  · decide +kernel
  · decide +kernel
  · decide +kernel
  · decide +kernel

end ApiGateway.ProxyRewrite
