import ApiGateway.Delimiters
import ApiGateway.ProtectedService

/-!
# The keys of the services in Redis

All services share one Redis client, and what keeps their buckets apart is the text that
`buildServiceLimiter` puts before a client's key: the name of the service between `svc:` and a
colon. The validator asks of the names only that they differ. A name may hold a colon, and so
may a client's key, which is the subject of a token or an address; the text of one service then
goes on into what another service reads as the end of its name.
-/

namespace ApiGateway.RedisKeys

open Http Config Strings Auth ServiceLimiter ServiceChain
set_option autoImplicit false

variable {Key : Type}

/-- The key `RedisLimiter.Allow` gives to the script for a client. -/
def redisKey (keyPrefix client : String) : String := keyPrefix ++ client

/-- No two clients, whoever they are and however each service tells its own apart, share a key
in Redis. -/
def Apart (w : World Key) (keyPrefix keyPrefix' : String) : Prop :=
  ∀ (r r' : Request) (claims claims' : Option Claims) (keyFunc keyFunc' : KeyFunc),
    redisKey keyPrefix (clientKey w r claims keyFunc) ≠
      redisKey keyPrefix' (clientKey w r' claims' keyFunc')

/-- One name is the other with a colon and more after it. -/
def continues (name name' : String) : Bool := hasPrefix name' (name ++ ":")

theorem continues_iff (name name' : String) :
    continues name name' = true ↔ ∃ more, name'.toList = name.toList ++ ':' :: more := by
  rw [continues, hasPrefix, List.isPrefixOf_iff_prefix, String.toList_append]
  constructor
  · rintro ⟨more, hmore⟩
    refine ⟨more, ?_⟩
    rw [← hmore, List.append_assoc]
    rfl
  · rintro ⟨more, hmore⟩
    refine ⟨more, ?_⟩
    rw [hmore, List.append_assoc]
    rfl

theorem redisKey_eq_iff {name name' client client' : String} (hne : name ≠ name') :
    redisKey ("svc:" ++ name ++ ":") client = redisKey ("svc:" ++ name' ++ ":") client' ↔
      (∃ more, name'.toList = name.toList ++ ':' :: more ∧
        client.toList = more ++ ':' :: client'.toList) ∨
      ∃ more, name.toList = name'.toList ++ ':' :: more ∧
        client'.toList = more ++ ':' :: client.toList := by
  have hsplit (n c : String) : (redisKey ("svc:" ++ n ++ ":") c).toList =
      "svc:".toList ++ (n.toList ++ ':' :: c.toList) := by
    simp only [redisKey, String.toList_append, List.append_assoc]
    rfl
  rw [← String.toList_inj, hsplit, hsplit, List.append_cancel_left_eq]
  exact Delimiters.tagged_eq_iff fun h => hne (String.toList_inj.mp h)

/-- Where neither name goes on after the other and a colon, no two clients share a key. -/
theorem redisKey_ne {name name' : String} (hne : name ≠ name') (hright : continues name name' = false)
    (hleft : continues name' name = false) (client client' : String) :
    redisKey ("svc:" ++ name ++ ":") client ≠ redisKey ("svc:" ++ name' ++ ":") client' := by
  intro heq
  rcases (redisKey_eq_iff hne).mp heq with ⟨more, hmore, -⟩ | ⟨more, hmore, -⟩
  · exact absurd ((continues_iff name name').mpr ⟨more, hmore⟩) (Bool.eq_false_iff.mp hright)
  · exact absurd ((continues_iff name' name).mpr ⟨more, hmore⟩) (Bool.eq_false_iff.mp hleft)

theorem clientKey_subject (w : World Key) (r : Request) {subject : String} (h : subject ≠ "")
    (roles : List String) : clientKey w r (some ⟨subject, roles⟩) .keyByJWTSub = subject := by
  simp only [clientKey, keyByJWTSub]
  rw [if_pos h]

/-- A subject that takes a client of one service to a client of the other. -/
theorem exists_subject {name name' : String} (h : continues name name' = true) :
    ∃ subject, subject ≠ "" ∧
      redisKey ("svc:" ++ name ++ ":") subject = redisKey ("svc:" ++ name' ++ ":") "x" := by
  obtain ⟨more, hmore⟩ := (continues_iff name name').mp h
  have hne : name ≠ name' := by
    rintro rfl
    exact absurd hmore (by simp)
  refine ⟨String.ofList (more ++ [':', 'x']), ?_, ?_⟩
  · intro hempty
    have hnil := congrArg String.toList hempty
    rw [String.toList_ofList] at hnil
    exact absurd hnil (by simp)
  · refine (redisKey_eq_iff hne).mpr (.inl ⟨more, hmore, ?_⟩)
    rw [String.toList_ofList]
    rfl

theorem apart_iff (w : World Key) {name name' : String} (hne : name ≠ name') :
    Apart w ("svc:" ++ name ++ ":") ("svc:" ++ name' ++ ":") ↔
      continues name name' = false ∧ continues name' name = false := by
  let anyone : Request := ⟨"GET", ⟨"/", "", []⟩, .empty, "", "", false⟩
  constructor
  · intro h
    constructor
    · refine Bool.eq_false_iff.mpr fun hc => ?_
      obtain ⟨subject, hsubject, heq⟩ := exists_subject hc
      refine h anyone anyone (some ⟨subject, []⟩) (some ⟨"x", []⟩) .keyByJWTSub .keyByJWTSub ?_
      rw [clientKey_subject w anyone hsubject, clientKey_subject w anyone (by decide), heq]
    · refine Bool.eq_false_iff.mpr fun hc => ?_
      obtain ⟨subject, hsubject, heq⟩ := exists_subject hc
      refine h anyone anyone (some ⟨"x", []⟩) (some ⟨subject, []⟩) .keyByJWTSub .keyByJWTSub ?_
      rw [clientKey_subject w anyone hsubject, clientKey_subject w anyone (by decide), heq]
  · rintro ⟨hright, hleft⟩ r r' claims claims' keyFunc keyFunc'
    exact redisKey_ne hne hright hleft _ _

theorem buildServiceLimiter_redis {svc : ServiceConfig} {cfg : GatewayConfig} {redisClient : Bool}
    {keyPrefix : String} {rate : ℚ} {burst : ℤ} {keyFunc : KeyFunc}
    (h : buildServiceLimiter svc cfg redisClient = some (.redis keyPrefix rate burst, keyFunc)) :
    keyPrefix = "svc:" ++ svc.name ++ ":" := by
  obtain ⟨⟨r, b, keyBy⟩, -, heq⟩ := Option.map_eq_some_iff.mp h
  cases redisClient with
  | true =>
    obtain ⟨hname, -, -⟩ := Backend.redis.inj (Prod.mk.inj heq).1
    exact hname.symm
  | false => cases (Prod.mk.inj heq).1

theorem names_ne {cfg cfg' : GatewayConfig} (h : validate cfg = .ok cfg') {i j : Nat} (hij : i ≠ j)
    {svc svc' : ServiceConfig} (hsvc : cfg'.services[i]? = some svc) (hsvc' : cfg'.services[j]? = some svc') :
    svc.name ≠ svc'.name := by
  intro heq
  have hname : (cfg'.services.map ServiceConfig.name)[i]? = some svc.name := by
    rw [List.getElem?_map, hsvc, Option.map_some]
  have hname' : (cfg'.services.map ServiceConfig.name)[j]? = some svc.name := by
    rw [List.getElem?_map, hsvc', Option.map_some, heq]
  have hlt := (List.getElem?_eq_some_iff.mp hname).1
  exact hij ((List.getElem?_inj hlt (WellFormedConfig.validate_wellFormed h).names).mp (hname.trans hname'.symm))

/-- Two services of an accepted configuration keep their buckets apart in Redis exactly when
neither is named by the other's name, a colon and more. -/
theorem services_apart_iff {cfg cfg' : GatewayConfig} (h : validate cfg = .ok cfg') (w : World Key)
    {i j : Nat} (hij : i ≠ j) {svc svc' : ServiceConfig}
    (hsvc : cfg'.services[i]? = some svc) (hsvc' : cfg'.services[j]? = some svc')
    {keyPrefix keyPrefix' : String} {rate rate' : ℚ} {burst burst' : ℤ} {keyFunc keyFunc' : KeyFunc}
    (hredis : buildServiceLimiter svc cfg' (buildRedisClient cfg') =
      some (.redis keyPrefix rate burst, keyFunc))
    (hredis' : buildServiceLimiter svc' cfg' (buildRedisClient cfg') =
      some (.redis keyPrefix' rate' burst', keyFunc')) :
    Apart w keyPrefix keyPrefix' ↔
      continues svc.name svc'.name = false ∧ continues svc'.name svc.name = false := by
  rw [buildServiceLimiter_redis hredis, buildServiceLimiter_redis hredis']
  exact apart_iff w (names_ne h hij hsvc hsvc')

/-- A gateway with two services whose limiters share one Redis. -/
def sharedRedis (name name' : String) : GatewayConfig :=
  {ProtectedService.gateway with
    rateLimit := some ⟨"redis", 1, 5, minute, 3 * minute, ⟨"redis:6379", 0, 0, 0, 0, false⟩⟩
    services :=
      [{ProtectedService.accounts with name := name, pathPrefix := "/first"},
       {ProtectedService.accounts with name := name', pathPrefix := "/second"}]}

theorem users_orders_apart : Apart ProtectedService.sampleWorld "svc:users:" "svc:orders:" := by
  have hvalid : validate (sharedRedis "users" "orders") = .ok (sharedRedis "users" "orders") := by
    decide +kernel
  refine (services_apart_iff hvalid ProtectedService.sampleWorld (i := 0) (j := 1) (by decide)
    rfl rfl rfl rfl).mpr ?_
  decide

/-- A service named after another one and its namespace: the token of `bob` there and the token
of `b:bob` at the first service drain one bucket. -/
theorem services_share_bucket : ∃ svc svc',
    validate (sharedRedis "a" "a:b") = .ok (sharedRedis "a" "a:b") ∧
      (sharedRedis "a" "a:b").services = [svc, svc'] ∧
      buildServiceLimiter svc (sharedRedis "a" "a:b") (buildRedisClient (sharedRedis "a" "a:b")) =
        some (.redis "svc:a:" 1 5, .keyByJWTSub) ∧
      buildServiceLimiter svc' (sharedRedis "a" "a:b") (buildRedisClient (sharedRedis "a" "a:b")) =
        some (.redis "svc:a:b:" 1 5, .keyByJWTSub) ∧
      redisKey "svc:a:" (clientKey ProtectedService.sampleWorld ProtectedService.bearer
        (some ⟨"b:bob", []⟩) .keyByJWTSub) =
      redisKey "svc:a:b:" (clientKey ProtectedService.sampleWorld ProtectedService.bearer
        (some ⟨"bob", []⟩) .keyByJWTSub) := by
  refine ⟨_, _, ?_, rfl, rfl, rfl, ?_⟩
  · decide +kernel
  · decide

end ApiGateway.RedisKeys
