import ApiGateway.Delimiters
import ApiGateway.Http
import Mathlib.Data.List.Dedup
import Mathlib.Data.List.Perm.Basic

/-!
# Cache keys

`buildKey` of `internal/middleware/cache.go`. Go iterates the query map in an order of its
own choosing; `buildKeyFrom` takes that order, and `buildKey` is one of them. What a key is
meant to hold of a request is its identity: method, decoded path, decoded query pairs up
to order, and the lower-cased Vary names with the first value of each.

The key is written without escaping. Where no component holds the character that ends it,
the key and the identity determine each other. What the identity leaves out stays out even
then: the encoding of the path that is sent on, and all but the first line of a header.
-/

namespace ApiGateway.CacheKey

open Strings Http Delimiters
set_option autoImplicit false

def queryValues (q : List (String × String)) (k : String) : List String :=
  (q.filter fun pair => pair.1 = k).map Prod.snd

def queryNames (q : List (String × String)) : List String := (q.map Prod.fst).dedup

/-- The pairs as the two loops write them, the map being iterated in the order `keys`. -/
def writtenPairs (q : List (String × String)) (keys : List String) : List (String × String) :=
  (sortStrings keys).flatMap fun k => (sortStrings (queryValues q k)).map fun v => (k, v)

def varyRows (table : CaseTable) (r : Request) (varyHeaders : List String) : List (String × String) :=
  varyHeaders.map fun h => (toLower table h, r.header.get h)

def buildKeyFrom (table : CaseTable) (keys : List String) (r : Request) (varyHeaders : List String) :
    String :=
  r.method ++ " " ++ r.url.path ++ "?" ++
    String.join ((writtenPairs r.url.query keys).map fun pair => pair.1 ++ "=" ++ pair.2 ++ "&") ++
    String.join ((varyRows table r varyHeaders).map fun row => "|" ++ row.1 ++ "=" ++ row.2)

def buildKey (table : CaseTable) (r : Request) (varyHeaders : List String) : String :=
  buildKeyFrom table (queryNames r.url.query) r varyHeaders

structure SameIdentity (table : CaseTable) (r : Request) (vary : List String) (r' : Request)
    (vary' : List String) : Prop where
  method : r.method = r'.method
  path : r.url.path = r'.url.path
  query : r.url.query.Perm r'.url.query
  rows : varyRows table r vary = varyRows table r' vary'

instance (table : CaseTable) (r : Request) (vary : List String) (r' : Request) (vary' : List String) :
    Decidable (SameIdentity table r vary r' vary') :=
  decidable_of_iff (r.method = r'.method ∧ r.url.path = r'.url.path ∧
    r.url.query.Perm r'.url.query ∧ varyRows table r vary = varyRows table r' vary')
    ⟨fun h => ⟨h.1, h.2.1, h.2.2.1, h.2.2.2⟩, fun h => ⟨h.method, h.path, h.query, h.rows⟩⟩

/-- Two requests the upstream cannot tell apart by what a key should distinguish: the path as
it is sent and all values of every listed header included. -/
structure SameTarget (table : CaseTable) (r : Request) (vary : List String) (r' : Request)
    (vary' : List String) : Prop where
  method : r.method = r'.method
  escapedPath : r.url.escapedPath = r'.url.escapedPath
  query : r.url.query.Perm r'.url.query
  names : vary.map (toLower table) = vary'.map (toLower table)
  values : vary.map r.header.values = vary'.map r'.header.values

/-- No component of the key holds the character that ends it. -/
structure Separated (table : CaseTable) (r : Request) (vary : List String) : Prop where
  path : '?' ∉ r.url.path.toList
  query : ∀ pair ∈ r.url.query, '=' ∉ pair.1.toList ∧ pair.1.toList.head? ≠ some '|' ∧
    '&' ∉ pair.2.toList
  vary : ∀ h ∈ vary, '=' ∉ (toLower table h).toList ∧ '|' ∉ (r.header.get h).toList

instance (table : CaseTable) (r : Request) (vary : List String) : Decidable (Separated table r vary) :=
  decidable_of_iff ('?' ∉ r.url.path.toList ∧ (∀ pair ∈ r.url.query, '=' ∉ pair.1.toList ∧
    pair.1.toList.head? ≠ some '|' ∧ '&' ∉ pair.2.toList) ∧
    ∀ h ∈ vary, '=' ∉ (toLower table h).toList ∧ '|' ∉ (r.header.get h).toList)
    ⟨fun h => ⟨h.1, h.2.1, h.2.2⟩, fun h => ⟨h.path, h.query, h.vary⟩⟩

def cacheMethod (r : Request) : Prop := r.method = "GET" ∨ r.method = "HEAD"

instance (r : Request) : Decidable (cacheMethod r) :=
  inferInstanceAs (Decidable (r.method = "GET" ∨ r.method = "HEAD"))

theorem flatMap_filter_perm (q : List (String × String)) {keys : List String} (h : keys.Nodup) :
    (keys.flatMap fun k => q.filter fun pair => pair.1 = k).Perm
      (q.filter fun pair => pair.1 ∈ keys) := by
  induction keys with
  | nil => simp
  | cons k keys ih =>
    obtain ⟨hk, hkeys⟩ := List.nodup_cons.mp h
    have hhead : (q.filter fun pair => decide (pair.1 ∈ k :: keys)).filter
        (fun pair => decide (pair.1 = k)) = q.filter fun pair => decide (pair.1 = k) := by
      rw [List.filter_filter]
      apply List.filter_congr
      intro pair _
      by_cases hp : pair.1 = k <;> simp [hp]
    have htail : (q.filter fun pair => decide (pair.1 ∈ k :: keys)).filter
        (fun pair => !decide (pair.1 = k)) = q.filter fun pair => decide (pair.1 ∈ keys) := by
      rw [List.filter_filter]
      apply List.filter_congr
      intro pair _
      by_cases hp : pair.1 = k
      · simp [hp, hk]
      · simp [hp]
    have hsplit := List.filter_append_perm (fun pair : String × String => decide (pair.1 = k))
      (q.filter fun pair => decide (pair.1 ∈ k :: keys))
    rw [hhead, htail] at hsplit
    exact ((ih hkeys).append_left _).trans hsplit

theorem map_queryValues (q : List (String × String)) (k : String) :
    (queryValues q k).map (fun v => (k, v)) = q.filter fun pair => pair.1 = k := by
  rw [queryValues, List.map_map]
  conv_rhs => rw [← List.map_id (q.filter fun pair => decide (pair.1 = k))]
  apply List.map_congr_left
  intro pair hpair
  have hk : pair.1 = k := by simpa using (List.mem_filter.mp hpair).2
  rw [← hk]
  rfl

/-- Each decoded pair is written once, whatever order the map is iterated in. -/
theorem writtenPairs_perm {q : List (String × String)} {keys : List String}
    (h : keys.Perm (queryNames q)) : (writtenPairs q keys).Perm q := by
  have hnodup : (sortStrings keys).Nodup :=
    ((sortStrings_perm keys).trans h).nodup_iff.mpr (List.nodup_dedup _)
  have hrows : (writtenPairs q keys).Perm
      ((sortStrings keys).flatMap fun k => q.filter fun pair => pair.1 = k) := by
    apply List.Perm.flatMap_left
    intro k _
    rw [← map_queryValues]
    exact (sortStrings_perm (queryValues q k)).map fun v => (k, v)
  have hall : (q.filter fun pair => pair.1 ∈ sortStrings keys) = q := by
    apply List.filter_eq_self.mpr
    intro pair hpair
    have hmem : pair.1 ∈ sortStrings keys := by
      rw [(sortStrings_perm keys).mem_iff, h.mem_iff]
      exact List.mem_dedup.mpr (List.mem_map_of_mem hpair)
    simpa using hmem
  have hperm := hrows.trans (flatMap_filter_perm q hnodup)
  rwa [hall] at hperm

theorem queryNames_perm {q q' : List (String × String)} (h : q.Perm q') :
    (queryNames q).Perm (queryNames q') := by
  apply (List.perm_ext_iff_of_nodup (List.nodup_dedup _) (List.nodup_dedup _)).mpr
  intro k
  rw [List.mem_dedup, List.mem_dedup, (h.map Prod.fst).mem_iff]

theorem writtenPairs_eq_of_perm {q q' : List (String × String)} (h : q.Perm q') {keys keys' : List String}
    (hkeys : keys.Perm keys') : writtenPairs q keys = writtenPairs q' keys' := by
  have hvalues (k : String) : sortStrings (queryValues q k) = sortStrings (queryValues q' k) :=
    sortStrings_eq_of_perm ((h.filter _).map Prod.snd)
  rw [writtenPairs, writtenPairs, sortStrings_eq_of_perm hkeys]
  simp only [hvalues]

/-- Requests of one identity have one key, whatever orders their maps are iterated in. -/
theorem buildKeyFrom_eq_of_sameIdentity {table : CaseTable} {r r' : Request} {vary vary' keys keys' : List String}
    (h : SameIdentity table r vary r' vary') (hkeys : keys.Perm (queryNames r.url.query))
    (hkeys' : keys'.Perm (queryNames r'.url.query)) :
    buildKeyFrom table keys r vary = buildKeyFrom table keys' r' vary' := by
  have horder : keys.Perm keys' := hkeys.trans ((queryNames_perm h.query).trans hkeys'.symm)
  rw [buildKeyFrom, buildKeyFrom, h.method, h.path, h.rows, writtenPairs_eq_of_perm h.query horder]

theorem buildKey_eq_of_sameIdentity {table : CaseTable} {r r' : Request} {vary vary' : List String}
    (h : SameIdentity table r vary r' vary') : buildKey table r vary = buildKey table r' vary' :=
  buildKeyFrom_eq_of_sameIdentity h (List.Perm.refl _) (List.Perm.refl _)

/-- The order of the query makes no difference to the key, and neither does the order in which Go
iterates the map of it. -/
theorem buildKeyFrom_ignores_order (table : CaseTable) (r r' : Request) (vary keys keys' : List String)
    (hmethod : r.method = r'.method) (hpath : r.url.path = r'.url.path) (hheader : r.header = r'.header)
    (hquery : r.url.query.Perm r'.url.query) (hkeys : keys.Perm (queryNames r.url.query))
    (hkeys' : keys'.Perm (queryNames r'.url.query)) :
    buildKeyFrom table keys r vary = buildKeyFrom table keys' r' vary := by
  have hrows : varyRows table r vary = varyRows table r' vary := by rw [varyRows, hheader, varyRows]
  exact buildKeyFrom_eq_of_sameIdentity ⟨hmethod, hpath, hquery, hrows⟩ hkeys hkeys'

/-- Equal rows give equal values of every plain name of the second list, in whatever case the
first list has it. -/
theorem get_eq_of_varyRows {table : CaseTable} {r r' : Request} {vary vary' : List String}
    (hplain : ∀ h ∈ vary, Plain table h) (hplain' : ∀ h ∈ vary', Plain table h)
    (h : varyRows table r vary = varyRows table r' vary') :
    ∀ name ∈ vary', r.header.get name = r'.header.get name := by
  intro name hname
  have hrow : (toLower table name, r'.header.get name) ∈ varyRows table r vary := by
    rw [h]
    exact List.mem_map_of_mem hname
  obtain ⟨name', hname', heq⟩ := List.mem_map.mp hrow
  obtain ⟨hlower, hvalue⟩ := Prod.mk.inj heq
  rw [← hvalue, Header.get, Header.get,
    values_eq_of_toLower r.header (hplain name' hname') (hplain' name hname) hlower]

def chars (row : String × String) : List Char × List Char := (row.1.toList, row.2.toList)

theorem chars_injective : Function.Injective chars := by
  intro a b h
  exact Prod.ext (String.toList_inj.mp (congrArg Prod.fst h)) (String.toList_inj.mp (congrArg Prod.snd h))

theorem toList_buildKey (table : CaseTable) (r : Request) (vary : List String) :
    (buildKey table r vary).toList = r.method.toList ++ ' ' :: (r.url.path.toList ++ '?' ::
      (closed '=' '&' ((writtenPairs r.url.query (queryNames r.url.query)).map chars) ++
        opened '|' '=' ((varyRows table r vary).map chars))) := by
  simp [buildKey, buildKeyFrom, closed, opened, chars, List.flatMap_map]

theorem Separated.pairs {table : CaseTable} {r : Request} {vary : List String}
    (h : Separated table r vary) :
    ∀ row ∈ (writtenPairs r.url.query (queryNames r.url.query)).map chars,
      '=' ∉ row.1 ∧ row.1.head? ≠ some '|' ∧ '&' ∉ row.2 := by
  intro row hrow
  obtain ⟨pair, hpair, rfl⟩ := List.mem_map.mp hrow
  exact h.query pair ((writtenPairs_perm (List.Perm.refl _)).mem_iff.mp hpair)

theorem Separated.rows {table : CaseTable} {r : Request} {vary : List String}
    (h : Separated table r vary) :
    ∀ row ∈ (varyRows table r vary).map chars, '=' ∉ row.1 ∧ '|' ∉ row.2 := by
  intro row hrow
  obtain ⟨pair, hpair, rfl⟩ := List.mem_map.mp hrow
  obtain ⟨name, hname, rfl⟩ := List.mem_map.mp hpair
  dsimp only [chars]
  exact h.vary name hname

theorem not_mem_method {r : Request} (h : cacheMethod r) : ' ' ∉ r.method.toList := by
  rcases h with h | h
  · rw [h]
    decide
  · rw [h]
    decide

theorem sameIdentity_of_buildKey_eq {table : CaseTable} {r r' : Request} {vary vary' : List String}
    (hm : cacheMethod r) (hm' : cacheMethod r') (hs : Separated table r vary)
    (hs' : Separated table r' vary') (h : buildKey table r vary = buildKey table r' vary') :
    SameIdentity table r vary r' vary' := by
  have hlist := congrArg String.toList h
  rw [toList_buildKey, toList_buildKey] at hlist
  obtain ⟨hmethod, hlist⟩ := split_at_first (not_mem_method hm) (not_mem_method hm') hlist
  obtain ⟨hpath, hlist⟩ := split_at_first hs.path hs'.path hlist
  obtain ⟨hpairs, hrows⟩ := closed_append_injective (by decide) hs.pairs hs'.pairs
    (opened_startsWith '|' '=' _) (opened_startsWith '|' '=' _) hlist
  have hwritten := chars_injective.list_map hpairs
  refine ⟨String.toList_inj.mp hmethod, String.toList_inj.mp hpath, ?_,
    chars_injective.list_map (opened_injective hs.rows hs'.rows hrows)⟩
  exact (writtenPairs_perm (List.Perm.refl _)).symm.trans
    (hwritten ▸ writtenPairs_perm (List.Perm.refl _))

/-- Between inputs with nothing ambiguous in them, equal keys mean requests the upstream
cannot tell apart exactly if requests of one identity send the same encoded path and
the same lines of every listed header. -/
theorem buildKey_sameTarget_iff {table : CaseTable} {r r' : Request} {vary vary' : List String}
    (hm : cacheMethod r) (hm' : cacheMethod r') (hs : Separated table r vary)
    (hs' : Separated table r' vary') :
    (buildKey table r vary = buildKey table r' vary' → SameTarget table r vary r' vary') ↔
      (SameIdentity table r vary r' vary' → r.url.escapedPath = r'.url.escapedPath ∧
        vary.map r.header.values = vary'.map r'.header.values) := by
  constructor
  · intro h hid
    have hsame := h (buildKey_eq_of_sameIdentity hid)
    exact ⟨hsame.escapedPath, hsame.values⟩
  · intro h hkey
    have hid := sameIdentity_of_buildKey_eq hm hm' hs hs' hkey
    obtain ⟨hescaped, hvalues⟩ := h hid
    have hnames := congrArg (List.map Prod.fst) hid.rows
    simp only [varyRows, List.map_map] at hnames
    exact ⟨hid.method, hescaped, hid.query, hnames, hvalues⟩

def getRequest (url : URL) (header : Header) : Request :=
  ⟨"GET", url, header, "gateway", "10.0.0.1:40000", false⟩

theorem buildKeyFrom_ignores_order_repeated :
    let q := [("a", "1"), ("b", "2"), ("a", "0"), ("a", "1")]
    let q' := [("a", "0"), ("a", "1"), ("a", "1"), ("b", "2")]
    q.Perm q' ∧ buildKeyFrom asciiTable ["b", "a"] (getRequest ⟨"/items", "", q⟩ .empty) ["Accept"] =
      buildKeyFrom asciiTable ["a", "b"] (getRequest ⟨"/items", "", q'⟩ .empty) ["Accept"] :=
  ⟨by decide, buildKeyFrom_ignores_order asciiTable _ _ ["Accept"] ["b", "a"] ["a", "b"] rfl rfl rfl (by decide)
    (by decide) (by decide)⟩

theorem buildKey_sameTarget_reordered :
    buildKey asciiTable (getRequest ⟨"/items", "", [("a", "1"), ("b", "2")]⟩
        ⟨[(acceptLanguage, "en")]⟩) ["Accept-Language"] =
      buildKey asciiTable (getRequest ⟨"/items", "", [("b", "2"), ("a", "1")]⟩
        ⟨[(acceptLanguage, "en")]⟩) ["accept-language"] ∧
    SameTarget asciiTable
      (getRequest ⟨"/items", "", [("a", "1"), ("b", "2")]⟩ ⟨[(acceptLanguage, "en")]⟩)
      ["Accept-Language"]
      (getRequest ⟨"/items", "", [("b", "2"), ("a", "1")]⟩ ⟨[(acceptLanguage, "en")]⟩)
      ["accept-language"] :=
  ⟨by decide, (buildKey_sameTarget_iff (by decide) (by decide) (by decide) (by decide)).mpr
    (fun _ => by decide) (by decide)⟩

/-- A value that spells a separator, a path sent in another encoding, and a second header
line: each pair of requests shares a key. -/
theorem buildKey_collides :
    (buildKey asciiTable (getRequest ⟨"/items", "", [("x", "1&y=2")]⟩ .empty) [] =
        buildKey asciiTable (getRequest ⟨"/items", "", [("x", "1"), ("y", "2")]⟩ .empty) [] ∧
      ¬ [("x", "1&y=2")].Perm [("x", "1"), ("y", "2")]) ∧
    (buildKey asciiTable (getRequest ⟨"/a/b", "/a%2Fb", []⟩ .empty) [] =
        buildKey asciiTable (getRequest ⟨"/a/b", "", []⟩ .empty) [] ∧
      URL.escapedPath ⟨"/a/b", "/a%2Fb", []⟩ ≠ URL.escapedPath ⟨"/a/b", "", []⟩) ∧
    (buildKey asciiTable (getRequest ⟨"/items", "", []⟩
          ⟨[(acceptLanguage, "en"), (acceptLanguage, "de")]⟩) ["Accept-Language"] =
        buildKey asciiTable (getRequest ⟨"/items", "", []⟩ ⟨[(acceptLanguage, "en")]⟩)
          ["Accept-Language"] ∧
      Header.values ⟨[(acceptLanguage, "en"), (acceptLanguage, "de")]⟩ "Accept-Language" ≠
        Header.values ⟨[(acceptLanguage, "en")]⟩ "Accept-Language") := by
  refine ⟨⟨by decide, ?_⟩, by decide, by decide⟩
  intro h
  simpa using h.length_eq

end ApiGateway.CacheKey
