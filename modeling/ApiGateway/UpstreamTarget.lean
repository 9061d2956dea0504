import ApiGateway.ProxyRewrite
import ApiGateway.ServiceChain

/-!
# Where probes and traffic go

The health checker puts the health path after the configured upstream URL and has the text parsed;
the proxy has the URL parsed alone and copies its scheme and its host into the request. So a probe
keeps the path that the URL has, and traffic loses it.

`url.Parse` is modelled on texts: fragment, scheme, query, authority and path are cut out in this
order, and what is left of the checks is that of the escapes in the path and in the fragment. How
`net/url` reads an authority is a parameter. Paths are compared as they are decoded, hosts without
an empty port, which both clients take for the default one. Before `Rewrite` is called the reverse
proxy re-encodes a query with a semicolon or a bad escape; nothing is assumed of the result but that it
has neither.
-/

namespace ApiGateway.UpstreamTarget

open Strings Http Auth ProxyRewrite ServiceChain Delimiters
set_option autoImplicit false

structure ParsedURL where
  scheme : List Char
  host : List Char
  path : List UInt8
  rawQuery : List Char
  deriving DecidableEq

def isSchemeChar (c : Char) : Bool := c.isAlphanum || c ∈ ['+', '-', '.']

/-- `getScheme`: the scheme, empty if there is none, and the rest. -/
def getScheme (raw : List Char) : Option (List Char × List Char) :=
  match raw.takeWhile isSchemeChar, raw.dropWhile isSchemeChar with
  | [], ':' :: _ => none
  | c :: cs, ':' :: rest => if c.isAlpha then some (c :: cs, rest) else some ([], raw)
  | _, _ => some ([], raw)

def isCTL (c : Char) : Bool := c.toNat < 0x20 || c.toNat = 0x7f

/-- `TrimSuffix(host, ":")`. -/
def removeEmptyPort (host : List Char) : List Char :=
  if host.getLast? = some ':' then host.dropLast else host

section Parse
variable (parseAuthority : List Char → List Char → Option (List Char))

/-- The second half of `parse`, where neither fragment nor query is left. -/
def parseRest (scheme rest rawQuery : List Char) : Option ParsedURL :=
  match rest with
  | '/' :: '/' :: tail =>
    if scheme ≠ [] ∨ tail.head? ≠ some '/' then
      (parseAuthority scheme (upTo ['/'] tail)).bind fun host =>
        (unescape (onward ['/'] tail)).map fun path => ⟨scheme, host, path, rawQuery⟩
    else (unescape rest).map fun path => ⟨scheme, [], path, rawQuery⟩
  | '/' :: _ => (unescape rest).map fun path => ⟨scheme, [], path, rawQuery⟩
  | _ =>
    if scheme ≠ [] then some ⟨scheme, [], [], rawQuery⟩
    else if ':' ∈ upTo ['/'] rest then none
    else (unescape rest).map fun path => ⟨scheme, [], path, rawQuery⟩

/-- `url.Parse`: the text before the fragment is checked for control characters, split at its scheme,
and its query is cut off. -/
def parse (raw : List Char) : Option ParsedURL :=
  if (upTo ['#'] raw).any isCTL then none
  else (getScheme (upTo ['#'] raw)).bind fun (scheme, rest) =>
    (parseRest parseAuthority (scheme.map Char.toLower) (upTo ['?'] rest) ((onward ['?'] rest).drop 1)).filter
      fun _ => (unescape ((onward ['#'] raw).drop 1)).isSome

structure Target where
  scheme : List Char
  host : List Char
  path : List UInt8
  rawQuery : List Char
  deriving DecidableEq

/-- Where `check` sends its request; `none` if there is nowhere to send it. -/
def probe (url path : String) : Option Target :=
  (parse parseAuthority (url.toList ++ path.toList)).bind fun u =>
    let host := removeEmptyPort u.host
    if (u.scheme = "http".toList ∨ u.scheme = "https".toList) ∧ host ≠ [] then
      some ⟨u.scheme, host, u.path, u.rawQuery⟩
    else none

end Parse

/-- Every percent sign has its two digits, and there is no semicolon. -/
def wellEscaped : List Char → Bool
  | [] => true
  | ';' :: _ => false
  | '%' :: a :: b :: rest => (unhex a).isSome && (unhex b).isSome && wellEscaped rest
  | '%' :: _ => false
  | _ :: rest => wellEscaped rest

structure Reencoder where
  reencode : List Char → List Char
  escaped : ∀ query, wellEscaped (reencode query) = true

def cleanQueryParams (enc : Reencoder) (query : List Char) : List Char :=
  if wellEscaped query then query else enc.reencode query

/-- What the two requests to an upstream depend on besides the upstream itself. -/
structure Gateway where
  parseAuthority : List Char → List Char → Option (List Char)
  splitHost : String → Option String
  enc : Reencoder

def Gateway.net (g : Gateway) : Net where
  parse raw := (parse g.parseAuthority raw.toList).map fun u => ⟨String.ofList u.scheme, String.ofList u.host⟩
  splitHost := g.splitHost

/-- Where the reverse proxy sends a request that has come to it. -/
def proxied (g : Gateway) (ctx : Context) (r : Request) (rawQuery : List Char) : Except Unsent Target :=
  (reverseProxy g.net ctx r).map fun out =>
    ⟨out.scheme.toList, removeEmptyPort out.urlHost.toList, utf8 out.url.path, cleanQueryParams g.enc rawQuery⟩

/-- The target has the scheme and the host of the upstream, and its path with a path after it. -/
structure Follows (base : ParsedURL) (path : List UInt8) (t : Target) : Prop where
  scheme : t.scheme = base.scheme
  host : t.host = removeEmptyPort base.host
  path : t.path = base.path ++ path

/-- The probe goes to the upstream followed by the health path, and a request for what the prefix
leaves of its path goes to the upstream followed by that, with its query. -/
def SameBase (g : Gateway) (url healthPath : String) (probed : Target) (ctx : Context) (r : Request)
    (rest : String) (rawQuery : List Char) : Prop :=
  ∃ base, parse g.parseAuthority url.toList = some base ∧
    (∃ path, unescape (upTo ['?', '#'] healthPath.toList) = some path ∧ Follows base path probed) ∧
    ∃ sent, proxied g {ctx with target := some url} r rawQuery = .ok sent ∧
      Follows base (utf8 rest) sent ∧ sent.rawQuery = rawQuery

/-- A scheme and an authority, and nothing after them. -/
def Bare (url : List Char) : Prop :=
  ∃ scheme authority, url = scheme ++ ':' :: '/' :: '/' :: authority ∧ ':' ∉ scheme ∧ '/' ∉ authority

/-- The health path begins where an authority ends. -/
def Delimited (path : List Char) : Prop := ∀ c ∈ path.head?, c ∈ ['/', '?', '#']

section Escapes

theorem cleanQueryParams_eq_self (enc : Reencoder) (query : List Char) :
    cleanQueryParams enc query = query ↔ wellEscaped query = true := by
  rw [cleanQueryParams]
  cases hq : wellEscaped query with
  | true => simp
  | false =>
    simp only [Bool.false_eq_true, if_false, iff_false]
    intro h
    have hescaped := enc.escaped query
    rw [h, hq] at hescaped
    cases hescaped

theorem unescape_percent (a b : Char) (cs : List Char) : unescape ('%' :: a :: b :: cs) =
    (unhex a).bind fun hi => (unhex b).bind fun lo => (unescape cs).map fun bytes => (16 * hi + lo) :: bytes := by
  rw [unescape]
  cases unhex a <;> cases unhex b <;> cases unescape cs <;> rfl

/-- What is decoded before a slash or the end of the text is decoded on its own, and only the empty
text to nothing. -/
theorem unescape_append {a b : List Char} (hb : ∀ c ∈ b.head?, c = '/') {bytes tail : List UInt8}
    (h : unescape (a ++ b) = some bytes) (htail : unescape b = some tail) :
    ∃ front, bytes = front ++ tail ∧ (front = [] → a = []) := by
  induction a using unescape.induct generalizing bytes with
  | case1 =>
    rw [List.nil_append, htail] at h
    exact ⟨[], (Option.some.inj h).symm, fun _ => rfl⟩
  | case2 x y a ih =>
    simp only [List.cons_append, unescape_percent, Option.bind_eq_some_iff, Option.map_eq_some_iff] at h
    obtain ⟨hi, -, lo, -, bytes, hbytes, rfl⟩ := h
    obtain ⟨front, rfl, -⟩ := ih hbytes
    exact ⟨(16 * hi + lo) :: front, rfl, fun hnil => absurd hnil (List.cons_ne_nil _ _)⟩
  | case3 a hshort =>
    -- the two digits would have to be taken from the slash
    have hslash : unhex '/' = none := by decide
    exfalso
    rcases a with _ | ⟨x, _ | ⟨y, a⟩⟩
    · rcases b with _ | ⟨c, _ | ⟨d, b⟩⟩
      · simp [unescape] at h
      · simp [unescape] at h
      · obtain rfl := hb c rfl
        simp [unescape_percent, hslash] at h
    · rcases b with _ | ⟨c, b⟩
      · simp [unescape] at h
      · obtain rfl := hb c rfl
        simp [unescape_percent, hslash] at h
    · exact hshort x y a rfl
  | case4 c a _ hc ih =>
    have hcons : unescape (c :: (a ++ b)) = (unescape (a ++ b)).map (String.utf8EncodeChar c ++ ·) := by
      rw [unescape]
      · intro _ _ _ h
        exact absurd h hc
      · exact hc
    rw [List.cons_append, hcons] at h
    obtain ⟨bytes, hbytes, rfl⟩ := Option.map_eq_some_iff.mp h
    obtain ⟨front, rfl, -⟩ := ih hbytes
    refine ⟨String.utf8EncodeChar c ++ front, (List.append_assoc _ _ _).symm, fun hnil => ?_⟩
    exact absurd (List.append_eq_nil_iff.mp hnil).1 String.utf8EncodeChar_ne_nil

theorem eq_nil_of_unescape {a : List Char} (h : unescape a = some []) : a = [] := by
  have hjoin : unescape (a ++ []) = some [] := by rwa [List.append_nil]
  obtain ⟨front, hfront, hnil⟩ := unescape_append (by simp) hjoin rfl
  exact hnil (List.append_eq_nil_iff.mp hfront.symm).1

end Escapes

section Absolute
variable {parseAuthority : List Char → List Char → Option (List Char)} {scheme tail : List Char} {u : ParsedURL}

structure IsScheme (scheme : List Char) : Prop where
  alpha : ∃ c cs, scheme = c :: cs ∧ c.isAlpha = true
  chars : ∀ c ∈ scheme, isSchemeChar c = true

theorem IsScheme.not_mem (h : IsScheme scheme) {c : Char} (hc : isSchemeChar c = false) : c ∉ scheme := by
  intro hmem
  rw [h.chars c hmem] at hc
  cases hc

theorem getScheme_append (h : IsScheme scheme) (rest : List Char) :
    getScheme (scheme ++ ':' :: rest) = some (scheme, rest) := by
  have hcolon : ¬ isSchemeChar ':' = true := by decide
  obtain ⟨c, cs, hcons, halpha⟩ := h.alpha
  rw [getScheme, List.takeWhile_append_of_pos h.chars, List.dropWhile_append_of_pos h.chars,
    List.takeWhile_cons_of_neg hcolon, List.dropWhile_cons_of_neg hcolon, List.append_nil, hcons]
  simp [halpha]

theorem getScheme_split {raw rest : List Char} (h : getScheme raw = some (scheme, rest)) (hne : scheme ≠ []) :
    IsScheme scheme ∧ raw = scheme ++ ':' :: rest := by
  have hsplit := List.takeWhile_append_dropWhile (p := isSchemeChar) (l := raw)
  have hchars : ∀ c ∈ raw.takeWhile isSchemeChar, isSchemeChar c = true := fun c hc => List.mem_takeWhile_imp hc
  unfold getScheme at h
  split at h
  · cases h
  · rename_i c cs rest' htake hdrop
    rw [htake] at hchars hsplit
    rw [hdrop] at hsplit
    split at h
    · rename_i halpha
      obtain ⟨rfl, rfl⟩ := Prod.mk.inj (Option.some.inj h)
      exact ⟨⟨⟨c, cs, rfl, halpha⟩, hchars⟩, hsplit.symm⟩
    · exact absurd (Prod.mk.inj (Option.some.inj h)).1.symm hne
  · exact absurd (Prod.mk.inj (Option.some.inj h)).1.symm hne

/-- How `parse` reads what stands after the two slashes. -/
structure Reads (parseAuthority : List Char → List Char → Option (List Char)) (scheme tail : List Char)
    (u : ParsedURL) : Prop where
  printable : (scheme ++ ':' :: '/' :: '/' :: upTo ['#'] tail).any isCTL = false
  lower : scheme.map Char.toLower = u.scheme
  host : parseAuthority u.scheme (upTo ['/', '?', '#'] tail) = some u.host
  path : unescape (upTo ['?', '#'] (onward ['/', '?', '#'] tail)) = some u.path
  rawQuery : (upTo ['#'] (onward ['?', '#'] tail)).drop 1 = u.rawQuery
  fragment : (unescape ((onward ['#'] tail).drop 1)).isSome = true

theorem parseRest_slashes (hne : scheme ≠ []) (query : List Char) :
    parseRest parseAuthority scheme ('/' :: '/' :: tail) query = some u ↔
      ∃ host, parseAuthority scheme (upTo ['/'] tail) = some host ∧
        ∃ path, unescape (onward ['/'] tail) = some path ∧ ⟨scheme, host, path, query⟩ = u := by
  rw [parseRest, if_pos (.inl hne), Option.bind_eq_some_iff]
  simp only [Option.map_eq_some_iff]

theorem parse_absolute (h : IsScheme scheme) : parse parseAuthority (scheme ++ ':' :: '/' :: '/' :: tail) = some u ↔
    Reads parseAuthority scheme tail u := by
  have hstop : ∀ c ∈ scheme ++ [':', '/', '/'], c ∉ ['#'] := by
    intro c hc hmem
    obtain rfl := List.mem_singleton.mp hmem
    rcases List.mem_append.mp hc with hc | hc
    · exact h.not_mem (by decide) hc
    · exact absurd hc (by decide)
  have hraw : scheme ++ ':' :: '/' :: '/' :: tail = (scheme ++ [':', '/', '/']) ++ tail := by simp
  have hup : upTo ['#'] (scheme ++ ':' :: '/' :: '/' :: tail) = scheme ++ ':' :: '/' :: '/' :: upTo ['#'] tail := by
    rw [hraw, upTo_append hstop]
    simp
  have honward : onward ['#'] (scheme ++ ':' :: '/' :: '/' :: tail) = onward ['#'] tail := by
    rw [hraw, onward_append hstop]
  have hslashes (s : List Char) : upTo ['?'] ('/' :: '/' :: s) = '/' :: '/' :: upTo ['?'] s ∧
      onward ['?'] ('/' :: '/' :: s) = onward ['?'] s := ⟨rfl, rfl⟩
  have hlower : scheme.map Char.toLower ≠ [] := by
    obtain ⟨c, cs, rfl, -⟩ := h.alpha
    simp
  rw [parse, hup, honward, getScheme_append h]
  simp only [Option.bind_some, hslashes, Option.ite_none_left_eq_some, Option.filter_eq_some_iff,
    parseRest_slashes hlower, upTo_upTo, onward_upTo, List.cons_append, List.nil_append]
  constructor
  · rintro ⟨hctl, ⟨host, hhost, path, hpath, rfl⟩, hfragment⟩
    exact ⟨Bool.eq_false_of_not_eq_true hctl, rfl, hhost, hpath, rfl, hfragment⟩
  · rintro ⟨hctl, hscheme, hhost, hpath, hquery, hfragment⟩
    refine ⟨by simp [hctl], ⟨u.host, ?_, u.path, hpath, ?_⟩, hfragment⟩
    · rw [hscheme, hhost]
    · rw [hscheme, hquery]

/-- Only what stands after two slashes can name a host. -/
theorem parseRest_split {rest query : List Char} (h : parseRest parseAuthority scheme rest query = some u) :
    u.scheme = scheme ∧ (u.host ≠ [] → ∃ tail, rest = '/' :: '/' :: tail) := by
  have hhostless {o : Option (List UInt8)}
      (h : o.map (fun path => (⟨scheme, [], path, query⟩ : ParsedURL)) = some u) : u.scheme = scheme ∧ u.host = [] := by
    obtain ⟨path, -, rfl⟩ := Option.map_eq_some_iff.mp h
    exact ⟨rfl, rfl⟩
  unfold parseRest at h
  split at h
  · rename_i tail
    refine ⟨?_, fun _ => ⟨tail, rfl⟩⟩
    split at h
    · obtain ⟨host, -, h⟩ := Option.bind_eq_some_iff.mp h
      obtain ⟨path, -, rfl⟩ := Option.map_eq_some_iff.mp h
      rfl
    · exact (hhostless h).1
  · exact ⟨(hhostless h).1, fun hhost => absurd (hhostless h).2 hhost⟩
  · split at h
    · obtain rfl := Option.some.inj h
      exact ⟨rfl, fun hhost => absurd rfl hhost⟩
    split at h
    · cases h
    · exact ⟨(hhostless h).1, fun hhost => absurd (hhostless h).2 hhost⟩

theorem parse_split {raw : List Char} (h : parse parseAuthority raw = some u) (hscheme : u.scheme ≠ [])
    (hhost : u.host ≠ []) : ∃ scheme tail, IsScheme scheme ∧ raw = scheme ++ ':' :: '/' :: '/' :: tail := by
  simp only [parse, Option.ite_none_left_eq_some, Option.bind_eq_some_iff, Option.filter_eq_some_iff] at h
  obtain ⟨-, ⟨scheme, rest⟩, hget, hrest, -⟩ := h
  obtain ⟨hsame, hslashes⟩ := parseRest_split hrest
  have hne : scheme ≠ [] := by
    rintro rfl
    exact hscheme hsame
  obtain ⟨hvalid, htext⟩ := getScheme_split hget hne
  obtain ⟨tail, htail⟩ := hslashes hhost
  refine ⟨scheme, tail ++ (onward ['?'] rest ++ onward ['#'] raw), hvalid, ?_⟩
  calc raw = upTo ['#'] raw ++ onward ['#'] raw := (upTo_append_onward ['#'] raw).symm
    _ = (scheme ++ ':' :: (upTo ['?'] rest ++ onward ['?'] rest)) ++ onward ['#'] raw := by
      rw [htext, upTo_append_onward]
    _ = scheme ++ ':' :: '/' :: '/' :: (tail ++ (onward ['?'] rest ++ onward ['#'] raw)) := by
      rw [htail]
      simp

/-- The scheme is what stands before the first colon. -/
theorem isScheme_of_parse {rest : List Char} (hcolon : ':' ∉ scheme)
    (h : parse parseAuthority (scheme ++ ':' :: rest) = some u) (hscheme : u.scheme ≠ []) (hhost : u.host ≠ []) : IsScheme scheme := by
  obtain ⟨scheme', tail, hvalid, hsplit⟩ := parse_split h hscheme hhost
  obtain ⟨rfl, -⟩ := split_at_first hcolon (hvalid.not_mem (by decide)) hsplit
  exact hvalid

end Absolute

section Targets
variable {g : Gateway} {ctx : Context} {url : String} {r : Request}

/-- The reverse proxy sends what it forwards to the scheme and the host of the upstream. -/
theorem proxied_eq (hprint : isPrint (upgradeType r.header) = true) {base : ParsedURL}
    (hbase : parse g.parseAuthority url.toList = some base) (rawQuery : List Char) :
    proxied g {ctx with target := some url} r rawQuery =
      .ok ⟨base.scheme, removeEmptyPort base.host, utf8 r.url.path, cleanQueryParams g.enc rawQuery⟩ := by
  have hparse : mustParseURL g.net url = .ok ⟨String.ofList base.scheme, String.ofList base.host⟩ := by
    simp [mustParseURL, Gateway.net, hbase]
  have hrewrite (out : Outbound) : rewrite g.net {ctx with target := some url} r out = .ok
      {out with
        scheme := String.ofList base.scheme
        urlHost := String.ofList base.host
        host := String.ofList base.host
        header := injectUserHeaders {ctx with target := some url} (injectTraceContext {ctx with target := some url}
          (setXForwarded g.net r out.header))} := by
    change (mustParseURL g.net url).bind _ = _
    rw [hparse]
    rfl
  rw [proxied, reverseProxy, if_pos hprint, hrewrite]
  dsimp only
  split
  · simp [Except.map]
  · simp [Except.map]

theorem stripPrefix_path {start rest : String} {r r' : Request} (h : stripPrefix start r = some r')
    (hpath : r.url.path = start ++ rest) : r'.url.path = rest ∧ r'.header = r.header := by
  unfold stripPrefix at h
  simp only [hpath, trimPrefix_append] at h
  split at h
  · rename_i hstart
    obtain rfl := Option.some.inj h
    rw [hpath, hstart, String.empty_append]
    exact ⟨rfl, rfl⟩
  split at h
  · obtain rfl := Option.some.inj h
    exact ⟨rfl, rfl⟩
  · cases h

theorem probe_eq_some {path : String} {probed : Target} (h : probe g.parseAuthority url path = some probed) :
    ∃ u, parse g.parseAuthority (url.toList ++ path.toList) = some u ∧ u.scheme ≠ [] ∧ removeEmptyPort u.host ≠ [] ∧
      probed = ⟨u.scheme, removeEmptyPort u.host, u.path, u.rawQuery⟩ := by
  obtain ⟨u, hu, hprobed⟩ := Option.bind_eq_some_iff.mp h
  obtain ⟨⟨hscheme, hhost⟩, heq⟩ := Option.ite_none_right_eq_some.mp hprobed
  refine ⟨u, hu, ?_, hhost, (Option.some.inj heq).symm⟩
  intro hnil
  rw [hnil] at hscheme
  rcases hscheme with h | h <;> cases h

theorem removeEmptyPort_ne {host : List Char} (h : removeEmptyPort host ≠ []) : host ≠ [] := by
  rintro rfl
  exact h rfl

end Targets

section Base
variable {parseAuthority : List Char → List Char → Option (List Char)} {url path : List Char} {u : ParsedURL}

theorem onward_of_delimited (h : Delimited path) : onward ['/', '?', '#'] path = path := by
  have hsplit := upTo_append_onward ['/', '?', '#'] path
  rwa [upTo_eq_nil.mpr h, List.nil_append] at hsplit

theorem authority_chars {scheme authority : List Char} (hquery : '?' ∉ url) (hfragment : '#' ∉ url)
    (hurl : url = scheme ++ ':' :: '/' :: '/' :: authority) (hslash : '/' ∉ authority) :
    ∀ c ∈ authority, c ∉ ['/', '?', '#'] := by
  intro c hc hmem
  have hin : c ∈ url := by
    rw [hurl]
    simp [hc]
  simp only [List.mem_cons, List.not_mem_nil, or_false] at hmem
  rcases hmem with rfl | rfl | rfl
  · exact hslash hc
  · exact hquery hin
  · exact hfragment hin

/-- A URL that has a host and no path is bare. -/
theorem bare_of_parse (hquery : '?' ∉ url) (hfragment : '#' ∉ url) (h : parse parseAuthority url = some u)
    (hscheme : u.scheme ≠ []) (hhost : u.host ≠ []) (hpath : u.path = []) :
    ∃ scheme authority, IsScheme scheme ∧ url = scheme ++ ':' :: '/' :: '/' :: authority ∧
      ∀ c ∈ authority, c ∉ ['/', '?', '#'] := by
  obtain ⟨scheme, tail, hvalid, rfl⟩ := parse_split h hscheme hhost
  refine ⟨scheme, tail, hvalid, rfl, onward_eq_nil.mp ?_⟩
  have hreads := ((parse_absolute hvalid).mp h).path
  rw [hpath] at hreads
  have hkept : ∀ c ∈ onward ['/', '?', '#'] tail, c ∉ ['?', '#'] := by
    intro c hc hmem
    have htail : c ∈ tail := (List.dropWhile_suffix _).subset hc
    simp only [List.mem_append, List.mem_cons, not_or] at hquery hfragment hmem
    rcases hmem with rfl | rfl | hmem
    · exact hquery.2.2.2.2 htail
    · exact hfragment.2.2.2.2 htail
    · cases hmem
  have hall := upTo_append hkept []
  rw [List.append_nil, eq_nil_of_unescape hreads] at hall
  exact (List.append_eq_nil_iff.mp hall.symm).1

/-- Where the path of a probe is that of the health path, this begins where the authority ends: what
it had before would be read as part of the authority. -/
theorem delimited_of_path {bytes : List UInt8}
    (hprobe : unescape (upTo ['?', '#'] (onward ['/', '?', '#'] path)) = some bytes)
    (hpath : unescape (upTo ['?', '#'] path) = some bytes) : Delimited path := by
  have hbefore : ∀ c ∈ upTo ['/', '?', '#'] path, c ∉ ['?', '#'] := by
    intro c hc hmem
    exact not_mem_of_mem_upTo hc (List.mem_cons_of_mem '/' hmem)
  have hsplit : upTo ['?', '#'] path =
      upTo ['/', '?', '#'] path ++ upTo ['?', '#'] (onward ['/', '?', '#'] path) := by
    conv_lhs => rw [← upTo_append_onward ['/', '?', '#'] path, upTo_append hbefore]
  have hslash : ∀ c ∈ (upTo ['?', '#'] (onward ['/', '?', '#'] path)).head?, c = '/' := by
    intro c hc
    have hstop : c ∉ ['?', '#'] := not_mem_of_mem_upTo (List.mem_of_mem_head? hc)
    exact (List.mem_cons.mp (mem_of_mem_head_onward (mem_head_of_mem_head_upTo hc))).resolve_right hstop
  rw [hsplit] at hpath
  obtain ⟨front, hfront, hnil⟩ := unescape_append hslash hpath hprobe
  exact upTo_eq_nil.mp (hnil (List.self_eq_append_left.mp hfront))

theorem probe_path {scheme authority : List Char} (hvalid : IsScheme scheme)
    (hauthority : ∀ c ∈ authority, c ∉ ['/', '?', '#'])
    (h : parse parseAuthority (scheme ++ ':' :: '/' :: '/' :: authority ++ path) = some u) :
    unescape (upTo ['?', '#'] (onward ['/', '?', '#'] path)) = some u.path := by
  simp only [List.append_assoc, List.cons_append] at h
  have hread := ((parse_absolute hvalid).mp h).path
  rwa [onward_append hauthority] at hread

/-- What a text with a path reads as its host, the text without it reads too. -/
theorem parse_bare {scheme authority : List Char} (hvalid : IsScheme scheme)
    (hauthority : ∀ c ∈ authority, c ∉ ['/', '?', '#']) (hpath : Delimited path)
    (h : parse parseAuthority (scheme ++ ':' :: '/' :: '/' :: (authority ++ path)) = some u) :
    parse parseAuthority (scheme ++ ':' :: '/' :: '/' :: authority) = some ⟨u.scheme, u.host, [], []⟩ := by
  have hreads := (parse_absolute hvalid).mp h
  have hnone {stops : List Char} (hstops : stops ⊆ ['/', '?', '#']) : ∀ c ∈ authority, c ∉ stops :=
    fun c hc hmem => hauthority c hc (hstops hmem)
  have hup {stops : List Char} (hstops : stops ⊆ ['/', '?', '#']) : upTo stops authority = authority := by
    simpa [upTo] using upTo_append (hnone hstops) []
  have honward {stops : List Char} (hstops : stops ⊆ ['/', '?', '#']) : onward stops authority = [] :=
    onward_eq_nil.mpr (hnone hstops)
  have hhost := hreads.host
  rw [upTo_append hauthority, upTo_eq_nil.mpr hpath, List.append_nil] at hhost
  have hprintable := hreads.printable
  rw [upTo_append (hnone (by simp))] at hprintable
  refine (parse_absolute hvalid).mpr ⟨?_, hreads.lower, ?_, ?_, ?_, ?_⟩
  · rw [hup (by simp)]
    simp only [List.any_append, List.any_cons, Bool.or_eq_false_iff] at hprintable ⊢
    exact ⟨hprintable.1, hprintable.2.1, hprintable.2.2.1, hprintable.2.2.2.1, hprintable.2.2.2.2.1⟩
  · rw [hup (List.Subset.refl _)]
    exact hhost
  · rw [honward (List.Subset.refl _)]
    rfl
  · rw [honward (by simp)]
    rfl
  · rw [honward (by simp)]
    rfl

end Base

/-- For a request that the proxy forwards, whose path is the prefix and a rest: probe and request go to
the same base exactly if the upstream is a scheme and an authority and nothing else, the health path
begins where an authority ends, and the query needs no cleaning. -/
theorem sameBase_iff (g : Gateway) (ctx : Context) (start : String) (r : Request) {url healthPath rest : String}
    {probed : Target} {r' : Request}
    (hquery : '?' ∉ url.toList) (hfragment : '#' ∉ url.toList)
    (hprobe : probe g.parseAuthority url healthPath = some probed)
    (hpath : r.url.path = start ++ rest) (hstrip : stripPrefix start r = some r')
    (hprint : isPrint (upgradeType r.header) = true) (rawQuery : List Char) :
    SameBase g url healthPath probed ctx r' rest rawQuery ↔
      Bare url.toList ∧ Delimited healthPath.toList ∧ wellEscaped rawQuery = true := by
  obtain ⟨u, hu, huscheme, huhost, rfl⟩ := probe_eq_some hprobe
  obtain ⟨hrest, hheader⟩ := stripPrefix_path hstrip hpath
  rw [← hheader] at hprint
  constructor
  · rintro ⟨base, hbase, ⟨path, hhealth, hprobed⟩, sent, hsent, hfollows, hsame⟩
    rw [proxied_eq hprint hbase] at hsent
    obtain rfl := Except.ok.inj hsent
    have hnil : base.path = [] := by
      have happend := hfollows.path
      rw [hrest] at happend
      exact List.self_eq_append_left.mp happend
    have hscheme : base.scheme ≠ [] := by
      rw [← hprobed.scheme]
      exact huscheme
    have hhost : base.host ≠ [] := by
      apply removeEmptyPort_ne
      rw [← hprobed.host]
      exact huhost
    obtain ⟨scheme, authority, hvalid, hurl, hauthority⟩ := bare_of_parse hquery hfragment hbase hscheme hhost hnil
    refine ⟨⟨scheme, authority, hurl, hvalid.not_mem (by decide), fun h => hauthority '/' h (by decide)⟩, ?_,
      (cleanQueryParams_eq_self g.enc rawQuery).mp hsame⟩
    have hread := probe_path hvalid hauthority (hurl ▸ hu)
    have hbytes : path = u.path := by
      have happend := hprobed.path
      rw [hnil] at happend
      exact happend.symm
    exact delimited_of_path hread (hbytes ▸ hhealth)
  · rintro ⟨⟨scheme, authority, hurl, hcolon, hslash⟩, hdelimited, hescaped⟩
    have hauthority := authority_chars hquery hfragment hurl hslash
    have hvalid : IsScheme scheme := by
      rw [hurl, List.append_assoc, List.cons_append] at hu
      exact isScheme_of_parse hcolon hu huscheme (removeEmptyPort_ne huhost)
    have hread := probe_path hvalid hauthority (hurl ▸ hu)
    rw [onward_of_delimited hdelimited] at hread
    simp only [hurl, List.append_assoc, List.cons_append] at hu
    have hbase := parse_bare hvalid hauthority hdelimited hu
    rw [← hurl] at hbase
    refine ⟨_, hbase, ⟨u.path, hread, rfl, rfl, rfl⟩, _, proxied_eq hprint hbase rawQuery, ⟨rfl, rfl, ?_⟩, ?_⟩
    · rw [hrest]
      rfl
    · exact (cleanQueryParams_eq_self g.enc rawQuery).mpr hescaped

/-- An authority that is one host, without a user and without escapes. -/
def hostOnly (_ : List Char) (authority : List Char) : Option (List Char) := some authority

def plainGateway : Gateway := ⟨hostOnly, fun _ => none, ⟨fun _ => [], fun _ => rfl⟩⟩

def noContext : Context := ⟨none, none, none⟩

def usersRequest : Request := ⟨"GET", ⟨"/users/7", "", []⟩, .empty, "gateway", "10.0.0.1:40000", false⟩

def strippedRequest : Request := {usersRequest with url := ⟨"/7", "", []⟩}

/-- The upstream is probed under its base path and gets its traffic without it. -/
theorem basePath_dropped :
    probe hostOnly "http://h:8080/api" "/healthz" =
        some ⟨"http".toList, "h:8080".toList, utf8 "/api/healthz", []⟩ ∧
      stripPrefix "/users" usersRequest = some strippedRequest ∧
      (proxied plainGateway {noContext with target := some "http://h:8080/api"} strippedRequest []).map Target.path =
        .ok (utf8 "/7") ∧
      ¬ SameBase plainGateway "http://h:8080/api" "/healthz"
        ⟨"http".toList, "h:8080".toList, utf8 "/api/healthz", []⟩ noContext strippedRequest "/7" [] := by
  have hparse : parse hostOnly "http://h:8080/api".toList =
      some ⟨"http".toList, "h:8080".toList, utf8 "/api", []⟩ := by decide +kernel
  have hprint : isPrint (upgradeType strippedRequest.header) = true := by decide +kernel
  refine ⟨by decide +kernel, by decide +kernel, ?_, ?_⟩
  · rw [proxied_eq hprint hparse]
    rfl
  · rintro ⟨base, hbase, -, sent, hsent, hfollows, -⟩
    obtain rfl := Option.some.inj (hparse.symm.trans hbase)
    rw [proxied_eq hprint hparse] at hsent
    obtain rfl := Except.ok.inj hsent
    exact absurd hfollows.path (by decide +kernel)

theorem sameBase_bareHost : SameBase plainGateway "http://h:8080" "/healthz"
    ⟨"http".toList, "h:8080".toList, utf8 "/healthz", []⟩ noContext strippedRequest "/7" "a=1".toList :=
  (sameBase_iff plainGateway noContext "/users" usersRequest (by decide) (by decide) (by decide +kernel) (by decide)
    (by decide +kernel) (by decide +kernel) "a=1".toList).mpr
    ⟨⟨"http".toList, "h:8080".toList, by decide, by decide, by decide⟩, by simp [Delimited], by decide⟩

end ApiGateway.UpstreamTarget
