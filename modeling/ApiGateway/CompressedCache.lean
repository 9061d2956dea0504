import ApiGateway.CacheServe
import ApiGateway.Compress

/-!
# The cache around the compression middleware

The chain that `buildRouter` in `cmd/gateway/server.go` mounts for a cached service when
compression is on: `Cache` outside, `Compress` inside it, then the proxy.
`httputil.ReverseProxy` appends the upstream's header lines to those that are already in the
map, writes the status and copies the body in pieces; the proxy's own errors go through
`jsonError`.

`Compress` puts its Vary line into the map before the handler runs, so the upstream's lines
come after it, and `fillCache` reads only the first. Every captured response is therefore
taken to vary on `Accept-Encoding` alone. What the upstream varies on is honoured as far as
it is no more than that, and as long as no `Accept-Encoding` value spells a part of a key.
-/

namespace ApiGateway.CompressedCache

open Strings Http Lru CacheControl CacheKey CacheServe Compress Delimiters
set_option autoImplicit false

/-- What an upstream answers; interim answers are not among them. -/
structure Upstream where
  status : Int
  header : Header
  chunks : List (List UInt8)
  final : 200 ≤ status

inductive Inner where
  | proxied (u : Upstream)
  | jsonError (status : Int) (body : List UInt8) (error : 400 ≤ status)

def Inner.fields : Inner → List HeaderOp
  | .proxied u => u.header.lines.map fun line => .add line.1 line.2
  | .jsonError _ _ _ => [.set contentType "application/json"]

def Inner.status : Inner → Int
  | .proxied u => u.status
  | .jsonError status _ _ => status

def Inner.chunks : Inner → List (List UInt8)
  | .proxied u => u.chunks
  | .jsonError _ body _ => [body]

def Inner.ops (inner : Inner) : List Op := answerOps inner.fields inner.status inner.chunks

/-- A request through the chain; `inner` is `none` if the handler panics. -/
structure Trip where
  request : Request
  getAt : Int
  setAt : Int
  inner : Option Inner

def captured (codec : Codec) (minSize : Int) (r : Request) (inner : Inner) : Response :=
  compress codec captureWriter minSize r inner.ops ⟨0, .empty, []⟩

def Trip.visit (codec : Codec) (minSize : Int) (t : Trip) : Visit :=
  ⟨t.request, t.getAt, t.setAt, t.inner.map (captured codec minSize t.request)⟩

theorem Inner.status_ne_zero (inner : Inner) : inner.status ≠ 0 := by
  cases inner with
  | proxied u =>
    have hfinal : 200 ≤ u.status := u.final
    change u.status ≠ 0
    omega
  | jsonError status body error =>
    change status ≠ 0
    omega

section Captured
variable (codec : Codec) (minSize : Int) (r : Request)

theorem status_captured (inner : Inner) : (captured codec minSize r inner).status = inner.status :=
  status_compress inner.status_ne_zero minSize r inner.fields inner.chunks _

theorem values_captured (inner : Inner) {name : String} (hn : Untouched name) :
    (captured codec minSize r inner).header.values name =
      (inner.fields.foldl HeaderOp.apply ⟨[(varyName, "Accept-Encoding")]⟩).values name := by
  rw [captured, values_compress codec minSize r inner.ops _ hn, Inner.ops, headerOf_answerOps]
  rfl

theorem foldl_add (h : Header) (lines : List (FieldName × String)) :
    (lines.map fun line => HeaderOp.add line.1 line.2).foldl HeaderOp.apply h = ⟨h.lines ++ lines⟩ := by
  induction lines generalizing h with
  | nil => simp
  | cons line lines ih =>
    rw [List.map_cons, List.foldl_cons, ih]
    simp [HeaderOp.apply, Header.add]

/-- Whatever is inside, the first Vary line is the one `Compress` put there. -/
theorem vary_captured (inner : Inner) :
    (captured codec minSize r inner).header.get "Vary" = "Accept-Encoding" := by
  rw [Header.get, values_captured codec minSize r inner (by decide)]
  cases inner with
  | proxied u =>
    rw [Inner.fields, foldl_add]
    rfl
  | jsonError status body error => rfl

theorem varyHeaders_captured (inner : Inner) :
    varyHeaders (captured codec minSize r inner) = ["Accept-Encoding"] := by
  rw [varyHeaders, vary_captured]
  decide

theorem cacheControl_captured (u : Upstream) :
    (captured codec minSize r (.proxied u)).header.get "Cache-Control" =
      u.header.get "Cache-Control" := by
  rw [Header.get, values_captured codec minSize r _ (by decide), Inner.fields, foldl_add]
  rfl

end Captured

/-- The cache stores the upstream's answer to the request, whatever its Vary lines say. -/
def storable (cfg : CacheConfig) (r : Request) (u : Upstream) : Bool :=
  cacheableResponse u.status (parseCacheControl cfg.table (u.header.get "Cache-Control")) false r

theorem cacheable_captured (cfg : CacheConfig) (codec : Codec) (minSize : Int) (n : Nat) (r : Request)
    (u : Upstream) :
    cacheable cfg ⟨n, r, captured codec minSize r (.proxied u)⟩ = storable cfg r u := by
  rw [cacheable, status_captured, cacheControl_captured, vary_captured]
  rfl

theorem toLower_acceptEncoding (table : CaseTable) :
    toLower table "Accept-Encoding" = "accept-encoding" := by
  apply String.toList_inj.mp
  have hall : "Accept-Encoding".toList.all isASCII = true := by decide
  have hascii : ∀ c ∈ "Accept-Encoding".toList, table.toLower c = c.toLower := by
    intro c hc
    exact table.ascii c (List.all_eq_true.mp hall c hc)
  rw [toList_toLower, List.map_congr_left hascii]
  decide

/-- An `Accept-Encoding` value that spells neither the row it goes into nor the end of a key
without rows. -/
structure Sendable (r : Request) : Prop where
  row : ¬ "|accept-encoding=".toList <:+: (r.header.get "Accept-Encoding").toList
  last : (r.header.get "Accept-Encoding").toList.getLast? ≠ some '?' ∧
    (r.header.get "Accept-Encoding").toList.getLast? ≠ some '&'

section Key
variable (table : CaseTable) (r r' : Request)

theorem toList_keyOf : (buildKey table r ["Accept-Encoding"]).toList =
    (buildKey table r []).toList ++
      ("|accept-encoding=".toList ++ (r.header.get "Accept-Encoding").toList) := by
  have hrow : opened '|' '=' ((varyRows table r ["Accept-Encoding"]).map chars) =
      "|accept-encoding=".toList ++ (r.header.get "Accept-Encoding").toList := by
    simp [varyRows, chars, toLower_acceptEncoding]
  rw [toList_buildKey, toList_buildKey, hrow]
  simp [varyRows]

theorem getLast_buildKey_nil :
    (buildKey table r []).toList.getLast? = some '?' ∨ (buildKey table r []).toList.getLast? = some '&' := by
  have hends := getLast_closed '?' '=' '&'
    ((writtenPairs r.url.query (queryNames r.url.query)).map chars)
  rw [toList_buildKey]
  simpa [varyRows, List.getLast?_append, List.getLast?_cons] using hends

variable {table r r'}

theorem get_eq_of_keys (hr : Sendable r) (hr' : Sendable r')
    (h : buildKey table r ["Accept-Encoding"] = buildKey table r' ["Accept-Encoding"]) :
    r.header.get "Accept-Encoding" = r'.header.get "Accept-Encoding" := by
  have hlist := congrArg String.toList h
  rw [toList_keyOf, toList_keyOf] at hlist
  obtain ⟨-, hvalue⟩ := split_at_last (by decide) hr.row hr'.row hlist
  exact String.toList_inj.mp hvalue

theorem buildKey_nil_ne (hr' : Sendable r') :
    buildKey table r [] ≠ buildKey table r' ["Accept-Encoding"] := by
  intro h
  have hends := getLast_buildKey_nil table r
  rw [h, toList_keyOf] at hends
  have hlast := hr'.last
  cases hv : (r'.header.get "Accept-Encoding").toList.getLast? with
  | none =>
    have hmarker : "|accept-encoding=".toList.getLast? = some '=' := by decide
    rw [List.getLast?_append, List.getLast?_append, hv, hmarker] at hends
    rcases hends with hend | hend
    · exact absurd (Option.some.inj hend) (by decide)
    · exact absurd (Option.some.inj hend) (by decide)
  | some c =>
    rw [List.getLast?_append, List.getLast?_append, hv] at hends
    rw [hv] at hlast
    rcases hends with hend | hend
    · exact hlast.1 hend
    · exact hlast.2 hend

end Key

section Run
variable (cfg : CacheConfig) (codec : Codec) (minSize maxEntries maxBytes : Int) (ts : List Trip)

def replyAt (n : Nat) (t : Trip) : Reply :=
  (serve cfg n (stateAt cfg maxEntries maxBytes (ts.map (Trip.visit codec minSize)) n)
    (t.visit codec minSize)).2

/-- A stored answer has no star in a Vary line, and is served again only to requests that
agree with the one that filled it on every name in its Vary lines. -/
def VaryHonoured : Prop :=
  ∀ m t u e, ts[m]? = some t → t.inner = some (.proxied u) →
    replyAt cfg codec minSize maxEntries maxBytes ts m t = .filled (.entry e) →
    "*" ∉ varyParts u.header ∧
      ∀ n t', ts[n]? = some t' → replyAt cfg codec minSize maxEntries maxBytes ts n t' = .hit e →
        ∀ name ∈ listedNames u.header, t'.request.header.get name = t.request.header.get name

/-- The condition on a trip: an answer the cache would store names nothing but
`Accept-Encoding`, and the request's own value of it is no part of a key. -/
structure Conforming (cfg : CacheConfig) (t : Trip) : Prop where
  vary : ∀ u, t.inner = some (.proxied u) → storable cfg t.request u = true →
    ∀ p ∈ varyParts u.header, p = "" ∨ canonicalHeaderKey p = "Accept-Encoding"
  sendable : Sendable t.request

variable {cfg codec minSize maxEntries maxBytes ts}

theorem sound_trips {n : Nat} (hn : n ≤ ts.length) :
    Sound cfg maxEntries maxBytes (ts.map (Trip.visit codec minSize)) n
      (stateAt cfg maxEntries maxBytes (ts.map (Trip.visit codec minSize)) n) :=
  sound_stateAt n (by rwa [List.length_map])

theorem headersFor_stateAt {n : Nat} (hn : n ≤ ts.length) (r : Request) :
    headersFor (stateAt cfg maxEntries maxBytes (ts.map (Trip.visit codec minSize)) n) r = [] ∨
      headersFor (stateAt cfg maxEntries maxBytes (ts.map (Trip.visit codec minSize)) n) r =
        ["Accept-Encoding"] := by
  unfold headersFor
  cases hk : AList.lookup (memoryKey r)
      (stateAt cfg maxEntries maxBytes (ts.map (Trip.visit codec minSize)) n).vary with
  | none => exact .inl rfl
  | some names =>
    obtain ⟨m, w, resp, -, hw, ha, rfl⟩ := (sound_trips hn).memory _ _ hk
    obtain ⟨t, -, rfl⟩ := List.mem_map.mp (List.mem_of_getElem? hw)
    obtain ⟨inner, -, rfl⟩ := Option.map_eq_some_iff.mp ha
    exact .inr (varyHeaders_captured codec minSize t.request inner)

theorem stored_source {m : Nat} {t : Trip} {u : Upstream} {e : Entry}
    (hu : t.inner = some (.proxied u))
    (h : replyAt cfg codec minSize maxEntries maxBytes ts m t = .filled (.entry e)) :
    storable cfg t.request u = true ∧
      e.source = ⟨m, t.request, captured codec minSize t.request (.proxied u)⟩ := by
  obtain ⟨-, resp, ha, hc, rfl⟩ := serve_entry h
  have hresp : captured codec minSize t.request (.proxied u) = resp := by
    simpa [Trip.visit, hu] using ha
  subst hresp
  exact ⟨(cacheable_captured cfg codec minSize m t.request u).symm.trans hc, rfl⟩

theorem hit_key {n : Nat} {t : Trip} {e : Entry} (hn : n ≤ ts.length)
    (h : replyAt cfg codec minSize maxEntries maxBytes ts n t = .hit e) :
    lookupKey cfg (stateAt cfg maxEntries maxBytes (ts.map (Trip.visit codec minSize)) n) t.request =
      finalKey cfg e.source := by
  have hs := serve_serves cfg n (stateAt cfg maxEntries maxBytes (ts.map (Trip.visit codec minSize)) n)
    (t.visit codec minSize)
  unfold replyAt at h
  rw [h] at hs
  generalize (serve cfg n _ (t.visit codec minSize)).1 = s' at hs
  cases hs with
  | hit hh hl =>
    obtain ⟨⟨m, w, -, -, -, hkey⟩, -⟩ := lookup_some (sound_trips hn).entries (congrArg Prod.snd hl)
    exact hkey

theorem get_eq_of_hit {m n : Nat} {t t' : Trip} {u : Upstream} {e : Entry} (hn : n ≤ ts.length)
    (ht : Sendable t.request) (ht' : Sendable t'.request) (hu : t.inner = some (.proxied u))
    (hstored : replyAt cfg codec minSize maxEntries maxBytes ts m t = .filled (.entry e))
    (hhit : replyAt cfg codec minSize maxEntries maxBytes ts n t' = .hit e) :
    t'.request.header.get "Accept-Encoding" = t.request.header.get "Accept-Encoding" := by
  have hkey := hit_key hn hhit
  rw [(stored_source hu hstored).2, finalKey, varyHeaders_captured, lookupKey] at hkey
  rcases headersFor_stateAt hn t'.request with hnames | hnames
  · rw [hnames] at hkey
    exact absurd hkey (buildKey_nil_ne ht)
  · rw [hnames] at hkey
    exact get_eq_of_keys ht' ht hkey

/-- Over any run of the chain in which what the cache stores varies on nothing but
`Accept-Encoding`: the upstream's Vary lines are honoured. -/
theorem varyHonoured_of_conforming (hok : ∀ t ∈ ts, Conforming cfg t) :
    VaryHonoured cfg codec minSize maxEntries maxBytes ts := by
  intro m t u e ht hu hstored
  have hconform := hok t (List.mem_of_getElem? ht)
  have hparts := hconform.vary u hu (stored_source hu hstored).1
  constructor
  · intro hstar
    rcases hparts "*" hstar with hblank | hname
    · exact absurd hblank (by decide)
    · exact absurd hname (by decide)
  · intro n t' ht' hhit name hname
    have hlt : n < ts.length := (List.getElem?_eq_some_iff.mp ht').1
    have hagree := get_eq_of_hit hlt.le hconform.sendable
      (hok t' (List.mem_of_getElem? ht')).sendable hu hstored hhit
    obtain ⟨hpart, hreal⟩ := List.mem_filter.mp hname
    have hreal' : name ≠ "" ∧ name ≠ "*" := by simpa using hreal
    have hkey : canonicalHeaderKey name = canonicalHeaderKey "Accept-Encoding" :=
      ((hparts name hpart).resolve_left hreal'.1).trans (by decide)
    unfold Header.get Header.values at hagree ⊢
    rw [hkey]
    exact hagree

end Run

def cookie : FieldName := ⟨"Cookie", by decide, by decide⟩

def storedCodec : Codec := ⟨⟨Unit, (), fun s b => (s, b), fun _ => []⟩, fun _ => "text/plain"⟩

def answering (vary : String) : Upstream := ⟨200, ⟨[(varyName, vary)]⟩, [[1]], by decide⟩

def tripAt (now : Int) (header : Header) (vary : String) : Trip :=
  ⟨getRequest ⟨"/p", "", []⟩ header, now, now, some (.proxied (answering vary))⟩

def gzipTwice : List Trip :=
  [tripAt 0 ⟨[(acceptEncoding, "gzip")]⟩ "accept-encoding",
    tripAt 5 ⟨[(acceptEncoding, "gzip")]⟩ "accept-encoding"]

theorem varyHonoured_gzipTwice :
    (∃ e, replyAt sampleConfig storedCodec 1 8 100 gzipTwice 1
      (tripAt 5 ⟨[(acceptEncoding, "gzip")]⟩ "accept-encoding") = .hit e) ∧
    VaryHonoured sampleConfig storedCodec 1 8 100 gzipTwice := by
  refine ⟨⟨entryOf sampleConfig ⟨0, getRequest ⟨"/p", "", []⟩ ⟨[(acceptEncoding, "gzip")]⟩,
    captured storedCodec 1 (getRequest ⟨"/p", "", []⟩ ⟨[(acceptEncoding, "gzip")]⟩)
      (.proxied (answering "accept-encoding"))⟩ 0, by decide +kernel⟩, varyHonoured_of_conforming ?_⟩
  have hsend : Sendable (getRequest ⟨"/p", "", []⟩ ⟨[(acceptEncoding, "gzip")]⟩) :=
    ⟨by decide, by decide⟩
  have hconform (now : Int) :
      Conforming sampleConfig (tripAt now ⟨[(acceptEncoding, "gzip")]⟩ "accept-encoding") := by
    refine ⟨?_, hsend⟩
    rintro _ ⟨⟩ -
    decide
  intro t ht
  simp only [gzipTwice, List.mem_cons, List.not_mem_nil, or_false] at ht
  rcases ht with rfl | rfl
  · exact hconform 0
  · exact hconform 5

/-- The failing runs: a page that varies on the cookie goes from one user to another, and an
answer that varies on everything is stored. -/
theorem upstream_vary_ignored :
    ¬ VaryHonoured sampleConfig storedCodec 1 8 100
      [tripAt 0 ⟨[(cookie, "alice")]⟩ "Cookie", tripAt 5 ⟨[(cookie, "bob")]⟩ "Cookie"] ∧
    ¬ VaryHonoured sampleConfig storedCodec 1 8 100 [tripAt 0 .empty "*"] := by
  constructor
  · intro h
    have hserved := (h 0 _ _ (entryOf sampleConfig ⟨0, getRequest ⟨"/p", "", []⟩ ⟨[(cookie, "alice")]⟩,
      captured storedCodec 1 (getRequest ⟨"/p", "", []⟩ ⟨[(cookie, "alice")]⟩)
        (.proxied (answering "Cookie"))⟩ 0) rfl rfl (by decide +kernel)).2
    exact absurd (hserved 1 _ rfl (by decide +kernel) "Cookie" (by decide)) (by decide)
  · intro h
    have hstored := (h 0 _ _ (entryOf sampleConfig ⟨0, getRequest ⟨"/p", "", []⟩ .empty,
      captured storedCodec 1 (getRequest ⟨"/p", "", []⟩ .empty)
        (.proxied (answering "*"))⟩ 0) rfl rfl (by decide +kernel)).1
    exact hstored (by decide)

end ApiGateway.CompressedCache
