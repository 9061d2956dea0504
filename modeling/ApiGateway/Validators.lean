import ApiGateway.CacheServe
import ApiGateway.EntityTags

/-!
# Generated entity tags

For a response without an `ETag` the cache makes one from the bytes it captured and answers a
matching `If-None-Match` with 304. The capture of a `HEAD` has no bytes, so every `HEAD` gets the
tag of the empty body, whatever a `GET` would be sent. What the upstream would send for `GET` is
written down beside each visit of a run; it answers `HEAD` with the same header and no body. The
tags of a run then say what they should exactly when no `HEAD` is stored for a resource that has
bytes.

Of the truncated hash it is assumed that it is injective and written in lower-case hexadecimal.
-/

namespace ApiGateway.Validators

open Strings Http Lru CacheControl CacheKey CacheServe
set_option autoImplicit false

def isHexDigit (c : Char) : Bool := c.isDigit || ('a' ≤ c && c ≤ 'f')

def quoted (text : String) : String := "\"" ++ text ++ "\""

section Tags
variable {x y : String}

theorem quoted_eq (x : String) : quoted x = String.ofList (EntityTags.tagged false x.toList) := by
  rw [← String.toList_inj, String.toList_ofList]
  simp only [quoted, String.toList_append]
  rfl

theorem quoted_inj : quoted x = quoted y ↔ x = y := by
  rw [quoted_eq, quoted_eq, String.ofList_inj]
  exact EntityTags.quotes_inj.trans String.toList_inj

/-- Between tags made of quoted digits, `If-None-Match` is equality. -/
theorem etagMatches_quoted (hx : ',' ∉ x.toList) : etagMatches (quoted x) (quoted y) = true ↔ x = y := by
  have hnot : ',' ∉ EntityTags.tagged false x.toList := by
    simp [EntityTags.tagged, EntityTags.quotes, hx]
  rw [quoted_eq, quoted_eq, EntityTags.etagMatches_iff, List.splitOn_eq_singleton hnot]
  simp only [List.mem_singleton, exists_eq_left]
  rw [EntityTags.found_tagged, String.toList_inj]

theorem not_mem_of_isHexDigit (h : x.toList.all isHexDigit = true) : ',' ∉ x.toList := by
  intro hmem
  exact absurd (List.all_eq_true.mp h ',' hmem) (by decide)

end Tags

/-- The entry a reply was written from. -/
def servedEntry : Reply → Option Entry
  | .hit e => some e
  | .filled (.entry e) => some e
  | _ => none

theorem servedEntry_eq_some {reply : Reply} {e : Entry} :
    servedEntry reply = some e ↔ reply = .hit e ∨ reply = .filled (.entry e) := by
  cases reply with
  | filled res => cases res <;> simp [servedEntry]
  | _ => simp [servedEntry]

/-- The visit stores what the upstream answers: the cache handles it, finds nothing, and the
answer may be stored. -/
def Fills (cfg : CacheConfig) (n : Nat) (s : State) (v : Visit) : Prop :=
  handled cfg v.request = true ∧ (lookup cfg s.lru v.request (lookupKey cfg s v.request) v.getAt).2 = none ∧
    ∃ resp ∈ v.answer, cacheable cfg ⟨n, v.request, resp⟩ = true

/-- `reps n` is what the upstream would send for `GET` at visit `n`; it answers `HEAD` with the same
header and no body. -/
def Represents (reps : Nat → Response) (vs : List Visit) : Prop :=
  ∀ n v resp, vs[n]? = some v → v.answer = some resp →
    (v.request.method = "GET" → resp = reps n) ∧
    (v.request.method = "HEAD" → resp = {reps n with body := []})

/-- The same method, path, query and values of the named headers. -/
structure SameTarget (r r' : Request) (names : List String) : Prop where
  method : r'.method = r.method
  path : r'.url.path = r.url.path
  query : r'.url.query.Perm r.url.query
  vary : ∀ name ∈ names, r'.header.get name = r.header.get name

section Run
variable (cfg : CacheConfig) (maxEntries maxBytes : Int) (vs : List Visit) (reps : Nat → Response) (w : Header)

/-- The visit was answered from the entry with this response. -/
structure Served (n : Nat) (v : Visit) (e : Entry) (sent : Response) : Prop where
  visit : vs[n]? = some v
  entry : servedEntry (serve cfg n (stateAt cfg maxEntries maxBytes vs n) v).2 = some e
  sent : (serve cfg n (stateAt cfg maxEntries maxBytes vs n) v).2.response w v.request = some sent

/-- A 304 to a tag that was sent means the bytes a `GET` is sent have not changed between the two
fills, and every tag sent, for `HEAD` as for `GET`, is the tag of those bytes. -/
structure ValidatorsSound : Prop where
  notModified : ∀ m n u v e e' sent sent', m < n → Served cfg maxEntries maxBytes vs w m u e sent →
    Served cfg maxEntries maxBytes vs w n v e' sent' →
    SameTarget u.request v.request (varyHeaders e.source.response) →
    v.request.header.get "If-None-Match" = sent.header.get "ETag" → sent'.status = 304 →
    (reps e'.source.origin).body = (reps e.source.origin).body
  tag : ∀ n v e sent, Served cfg maxEntries maxBytes vs w n v e sent →
    sent.header.get "ETag" = computeETag cfg (reps e.source.origin).body

variable {cfg maxEntries maxBytes vs reps w}

theorem fills_iff {n : Nat} {s : State} {v : Visit} :
    Fills cfg n s v ↔ ∃ e, (serve cfg n s v).2 = .filled (.entry e) := by
  have hs := serve_serves cfg n s v
  constructor
  · rintro ⟨hh, hl, resp, ha, hc⟩
    generalize serve cfg n s v = res at hs ⊢
    obtain ⟨s', reply⟩ := res
    cases hs with
    | passed hh' => exact absurd (hh.symm.trans hh') nofun
    | hit _ hl' => exact absurd (hl.symm.trans (congrArg Prod.snd hl')) nofun
    | panicked _ _ ha' => exact absurd (ha.symm.trans ha') nofun
    | raw _ _ ha' hc' =>
      obtain rfl := Option.some.inj (ha.symm.trans ha')
      exact absurd (hc.symm.trans hc') nofun
    | stored _ _ _ _ => exact ⟨_, rfl⟩
  · rintro ⟨e, he⟩
    rw [he] at hs
    generalize (serve cfg n s v).1 = s' at hs
    cases hs with
    | stored hh hl ha hc => exact ⟨hh, congrArg Prod.snd hl, _, ha, hc⟩

/-- Every entry that is served was stored by a visit, from that visit's answer. -/
theorem Served.origin {n : Nat} {v : Visit} {e : Entry} {sent : Response}
    (h : Served cfg maxEntries maxBytes vs w n v e sent) :
    ∃ k u resp, vs[k]? = some u ∧ Fills cfg k (stateAt cfg maxEntries maxBytes vs k) u ∧
      u.answer = some resp ∧ cacheable cfg ⟨k, u.request, resp⟩ = true ∧
      e = entryOf cfg ⟨k, u.request, resp⟩ u.setAt := by
  have hstored : ∃ k u, vs[k]? = some u ∧
      (serve cfg k (stateAt cfg maxEntries maxBytes vs k) u).2 = .filled (.entry e) := by
    rcases servedEntry_eq_some.mp h.entry with hreply | hreply
    · have hs := serve_serves cfg n (stateAt cfg maxEntries maxBytes vs n) v
      rw [hreply] at hs
      generalize (serve cfg n (stateAt cfg maxEntries maxBytes vs n) v).1 = s' at hs
      cases hs with
      | hit hh hl =>
        have hn : n ≤ vs.length := (List.getElem?_eq_some_iff.mp h.visit).1.le
        obtain ⟨⟨k, u, -, hu, hstored, -⟩, -⟩ :=
          lookup_some (sound_stateAt n hn).entries (congrArg Prod.snd hl)
        exact ⟨k, u, hu, hstored⟩
    · exact ⟨n, v, h.visit, hreply⟩
  obtain ⟨k, u, hu, hreply⟩ := hstored
  obtain ⟨-, resp, ha, hc, heq⟩ := serve_entry hreply
  exact ⟨k, u, resp, hu, fills_iff.mpr ⟨e, hreply⟩, ha, hc, heq⟩

theorem Served.eq_serveFromCache {n : Nat} {v : Visit} {e : Entry} {sent : Response}
    (h : Served cfg maxEntries maxBytes vs w n v e sent) : sent = serveFromCache w v.request e := by
  have hsent := h.sent
  rcases servedEntry_eq_some.mp h.entry with hreply | hreply
  · rw [hreply] at hsent
    exact (Option.some.inj hsent).symm
  · rw [hreply] at hsent
    exact (Option.some.inj hsent).symm

/-- Whatever the status, the tag sent is the one made of the captured bytes. -/
theorem sent_tag (cfg : CacheConfig) (hw : w.values "ETag" = []) {resp : Response} (hresp : resp.header.values "ETag" = [])
    (r r' : Request) (k : Nat) (now : Int) :
    (serveFromCache w r (entryOf cfg ⟨k, r', resp⟩ now)).header.get "ETag" = computeETag cfg resp.body ∧
      (entryOf cfg ⟨k, r', resp⟩ now).etag = computeETag cfg resp.body := by
  have hname : eTag.text = canonicalHeaderKey "ETag" := by decide
  have hget : resp.header.get "ETag" = "" := by rw [Header.get, hresp, List.headD_nil]
  have hetag : (entryOf cfg ⟨k, r', resp⟩ now).etag = computeETag cfg resp.body := by
    simp only [entryOf, hget, if_true]
  have hheader : (entryOf cfg ⟨k, r', resp⟩ now).header = resp.header.set eTag (computeETag cfg resp.body) := by
    simp only [entryOf, taggedHeader, hget, if_true]
  refine ⟨?_, hetag⟩
  unfold serveFromCache
  split
  · rw [hetag, Header.get, Header.values_set_self _ hname, List.headD_cons]
  · simp only [writeRaw, Header.get]
    rw [Header.values_append, hw, hheader, Header.values_set_self _ hname, List.nil_append, List.headD_cons]

section Sound
variable (huntagged : ∀ v ∈ vs, ∀ resp ∈ v.answer, resp.header.values "ETag" = [])
  (hreps : Represents reps vs) (hw : w.values "ETag" = [])
include huntagged hreps hw

/-- If no `HEAD` is stored for a resource that has bytes, every tag is that of the bytes. -/
theorem Served.tag {n : Nat} {v : Visit} {e : Entry} {sent : Response}
    (h : Served cfg maxEntries maxBytes vs w n v e sent)
    (hhead : ∀ k u, vs[k]? = some u → Fills cfg k (stateAt cfg maxEntries maxBytes vs k) u →
      u.request.method = "HEAD" → (reps k).body = []) :
    e.status = 200 ∧ e.etag = computeETag cfg (reps e.source.origin).body ∧
      sent.header.get "ETag" = computeETag cfg (reps e.source.origin).body := by
  obtain ⟨k, u, resp, hu, hfills, ha, hc, rfl⟩ := h.origin
  have hbody : resp.body = (reps k).body := by
    obtain ⟨hget, hempty⟩ := hreps k u resp hu ha
    have hmethod : cacheMethod u.request := by
      have hh := hfills.1
      simp only [handled, Bool.and_eq_true, decide_eq_true_eq] at hh
      exact hh.1
    rcases hmethod with hm | hm
    · rw [hget hm]
    · rw [hempty hm, hhead k u hu hfills hm]
  have htag := sent_tag cfg hw (huntagged u (List.mem_of_getElem? hu) resp ha) v.request u.request k u.setAt
  rw [h.eq_serveFromCache]
  exact ⟨status_of_cacheable hc, htag.2.trans (congrArg _ hbody), htag.1.trans (congrArg _ hbody)⟩

/-- The tags of a run are sound exactly when no `HEAD` is stored for a resource for which a `GET`
would be sent any bytes. -/
theorem validatorsSound_iff (hsum : Function.Injective cfg.sum)
    (hhex : ∀ body, (cfg.sum body).toList.all isHexDigit = true) :
    ValidatorsSound cfg maxEntries maxBytes vs reps w ↔
      ∀ k u, vs[k]? = some u → Fills cfg k (stateAt cfg maxEntries maxBytes vs k) u →
        u.request.method = "HEAD" → (reps k).body = [] := by
  have htag_inj {b b' : List UInt8} (h : computeETag cfg b = computeETag cfg b') : b = b' :=
    hsum (quoted_inj.mp h)
  constructor
  · intro h k u hu hfills hhead
    obtain ⟨e, he⟩ := fills_iff.mp hfills
    have hserved : Served cfg maxEntries maxBytes vs w k u e (serveFromCache w u.request e) :=
      ⟨hu, servedEntry_eq_some.mpr (.inr he), by rw [he]; rfl⟩
    have htag := h.tag k u e _ hserved
    obtain ⟨-, resp, ha, -, rfl⟩ := serve_entry he
    rw [(sent_tag cfg hw (huntagged u (List.mem_of_getElem? hu) resp ha) _ _ _ _).1] at htag
    have hempty := (hreps k u resp hu ha).2 hhead
    have hbody : resp.body = (reps k).body := htag_inj htag
    rw [← hbody, hempty]
  · intro hhead
    refine ⟨?_, fun n v e sent hs => (hs.tag huntagged hreps hw hhead).2.2⟩
    intro m n u v e e' sent sent' _ hs hs' _ hmatch hstatus
    obtain ⟨-, -, hsent⟩ := hs.tag huntagged hreps hw hhead
    obtain ⟨hok, hetag, -⟩ := hs'.tag huntagged hreps hw hhead
    rw [hs'.eq_serveFromCache] at hstatus
    rcases serveFromCache_sends hok w v.request with ⟨hsent', -⟩ | ⟨-, hmatches⟩
    · rw [hsent'] at hstatus
      exact absurd hstatus (by decide)
    · rw [hmatch, hsent, hetag] at hmatches
      exact (hsum ((etagMatches_quoted (not_mem_of_isHexDigit (hhex _))).mp hmatches)).symm

end Sound

end Run

section Sample

def hexPair (b : UInt8) : List Char := [Nat.digitChar (b.toNat / 16), Nat.digitChar (b.toNat % 16)]

/-- Half of SHA-256 on the bodies of the runs below, and an injective text of odd length on the
others. -/
def sampleSum (body : List UInt8) : String :=
  if body = [] then "e3b0c44298fc1c149afbf4c8996fb924"
  else if body = [1] then "4bf5122f344554c53bde2ebb8cd2b7e3"
  else if body = [2] then "dbc1b4c900ffe48d575b5da5c6380401"
  else String.ofList ('0' :: body.flatMap hexPair)

theorem digitChar_inj : ∀ i < 16, ∀ j < 16, Nat.digitChar i = Nat.digitChar j → i = j := by decide

theorem isHexDigit_digitChar : ∀ i < 16, isHexDigit (Nat.digitChar i) = true := by decide

theorem flatMap_hexPair_injective : Function.Injective fun body : List UInt8 => body.flatMap hexPair := by
  intro as bs h
  induction as generalizing bs with
  | nil =>
    cases bs with
    | nil => rfl
    | cons b bs => cases h
  | cons a as ih =>
    cases bs with
    | nil => cases h
    | cons b bs =>
      obtain ⟨hhigh, hrest⟩ := List.cons.inj h
      obtain ⟨hlow, hrest⟩ := List.cons.inj hrest
      have ha := a.toNat_lt
      have hb := b.toNat_lt
      have hdiv := digitChar_inj _ (by omega) _ (by omega) hhigh
      have hmod := digitChar_inj _ (by omega) _ (by omega) hlow
      have hab : a = b := UInt8.toNat_inj.mp (by omega)
      rw [hab, ih hrest]

theorem length_flatMap_hexPair (body : List UInt8) : (body.flatMap hexPair).length = 2 * body.length := by
  induction body with
  | nil => rfl
  | cons b body ih =>
    rw [List.flatMap_cons, List.length_append, ih, List.length_cons]
    simp only [hexPair, List.length_cons, List.length_nil]
    omega

def sampled : List (List UInt8) := [[], [1], [2]]

theorem sampleSum_of_not_sampled {body : List UInt8} (h : body ∉ sampled) :
    sampleSum body = String.ofList ('0' :: body.flatMap hexPair) := by
  simp only [sampled, List.mem_cons, List.not_mem_nil, or_false, not_or] at h
  rw [sampleSum, if_neg h.1, if_neg h.2.1, if_neg h.2.2]

theorem sampled_iff_length (body : List UInt8) : body ∈ sampled ↔ (sampleSum body).toList.length = 32 := by
  constructor
  · intro hb
    have hall : ∀ body ∈ sampled, (sampleSum body).toList.length = 32 := by decide
    exact hall body hb
  · intro hlength
    by_contra hb
    rw [sampleSum_of_not_sampled hb, String.toList_ofList, List.length_cons, length_flatMap_hexPair] at hlength
    omega

theorem sampleSum_injective : Function.Injective sampleSum := by
  intro a b h
  have hsampled : a ∈ sampled ↔ b ∈ sampled := by
    rw [sampled_iff_length, sampled_iff_length, h]
  by_cases ha : a ∈ sampled
  · have hall : ∀ a ∈ sampled, ∀ b ∈ sampled, sampleSum a = sampleSum b → a = b := by decide
    exact hall a ha b (hsampled.mp ha) h
  · rw [sampleSum_of_not_sampled ha, sampleSum_of_not_sampled (hsampled.not.mp ha), String.ofList_inj] at h
    exact flatMap_hexPair_injective (List.cons.inj h).2

theorem sampleSum_hex (body : List UInt8) : (sampleSum body).toList.all isHexDigit = true := by
  by_cases hb : body ∈ sampled
  · have hall : ∀ body ∈ sampled, (sampleSum body).toList.all isHexDigit = true := by decide
    exact hall body hb
  · rw [sampleSum_of_not_sampled hb, String.toList_ofList, List.all_cons, List.all_eq_true.mpr, Bool.and_true]
    · decide
    · intro c hc
      obtain ⟨b, -, hb⟩ := List.mem_flatMap.mp hc
      have hlt := b.toNat_lt
      rcases List.mem_pair.mp hb with rfl | rfl
      · exact isHexDigit_digitChar _ (by omega)
      · exact isHexDigit_digitChar _ (by omega)

def hashConfig : CacheConfig := ⟨asciiTable, 60000000000, sampleSum⟩

def ifNoneMatch : FieldName := ⟨"If-None-Match", by decide, by decide⟩

/-- A request at a time, and the body a `GET` would be sent then. -/
structure Asked where
  time : Int
  method : String
  header : Header
  body : List UInt8

def Asked.get (a : Asked) : Response := ⟨200, .empty, a.body⟩

def Asked.visit (a : Asked) : Visit :=
  ⟨⟨a.method, ⟨"/p", "", []⟩, a.header, "gateway", "10.0.0.1:40000", false⟩, a.time, a.time,
    some (if a.method = "HEAD" then {a.get with body := []} else a.get)⟩

def repsOf (asked : List Asked) (n : Nat) : Response := (asked[n]?).elim ⟨200, .empty, []⟩ Asked.get

theorem represents_repsOf (asked : List Asked) : Represents (repsOf asked) (asked.map Asked.visit) := by
  intro n v resp hv ha
  rw [List.getElem?_map] at hv
  obtain ⟨a, hn, rfl⟩ := Option.map_eq_some_iff.mp hv
  have hreps : repsOf asked n = a.get := by rw [repsOf, hn, Option.elim_some]
  obtain rfl := Option.some.inj ha
  rw [hreps]
  constructor
  · intro hget
    have hmethod : a.method = "GET" := hget
    rw [if_neg (hmethod ▸ by decide)]
  · intro hhead
    have hmethod : a.method = "HEAD" := hhead
    rw [if_pos hmethod]

theorem untagged_visits (asked : List Asked) :
    ∀ v ∈ asked.map Asked.visit, ∀ resp ∈ v.answer, resp.header.values "ETag" = [] := by
  intro v hv resp ha
  obtain ⟨a, -, rfl⟩ := List.mem_map.mp hv
  obtain rfl := Option.some.inj ha
  split <;> rfl

/-- What the client is sent at a visit: the status, the tag, and which visit filled the entry. -/
def sentAt (asked : List Asked) (n : Nat) : Option (Int × String × Option Nat) :=
  (asked[n]?).bind fun a =>
    let reply := (serve hashConfig n (stateAt hashConfig 8 100 (asked.map Asked.visit) n) a.visit).2
    (reply.response .empty a.visit.request).map fun sent =>
      (sent.status, sent.header.get "ETag", (servedEntry reply).map fun e => e.source.origin)

/-- A page is asked for, and asked for again with the tag when its entry has expired. -/
def askedTwice (method tag : String) (body body' : List UInt8) : List Asked :=
  [⟨0, method, .empty, body⟩, ⟨61000000000, method, ⟨[(ifNoneMatch, tag)]⟩, body'⟩]

theorem sound_unchanged_get :
    sentAt (askedTwice "GET" (computeETag hashConfig [1]) [1] [1]) 1 =
        some (304, computeETag hashConfig [1], some 1) ∧
      ValidatorsSound hashConfig 8 100 ((askedTwice "GET" (computeETag hashConfig [1]) [1] [1]).map Asked.visit)
        (repsOf (askedTwice "GET" (computeETag hashConfig [1]) [1] [1])) .empty := by
  refine ⟨by decide +kernel, (validatorsSound_iff (untagged_visits _) (represents_repsOf _) rfl
    sampleSum_injective sampleSum_hex).mpr ?_⟩
  intro k u hu _ hhead
  obtain ⟨a, ha, rfl⟩ := List.mem_map.mp (List.mem_of_getElem? hu)
  have hmethod : a.method = "GET" := by
    rcases List.mem_pair.mp ha with rfl | rfl
    · rfl
    · rfl
  exact absurd (hmethod.symm.trans hhead) (by decide)

/-- The page changes between two `HEAD`s. The second is answered 304 all the same, from an entry that
was filled after the change, and the tag of both is not the one a `GET` is given. -/
theorem head_tag_unsound :
    Function.Injective hashConfig.sum ∧
      sentAt (askedTwice "HEAD" (computeETag hashConfig []) [1] [2]) 0 =
        some (200, computeETag hashConfig [], some 0) ∧
      sentAt (askedTwice "HEAD" (computeETag hashConfig []) [1] [2]) 1 =
        some (304, computeETag hashConfig [], some 1) ∧
      (repsOf (askedTwice "HEAD" (computeETag hashConfig []) [1] [2]) 0).body ≠
        (repsOf (askedTwice "HEAD" (computeETag hashConfig []) [1] [2]) 1).body ∧
      computeETag hashConfig [] ≠ computeETag hashConfig [1] :=
  ⟨sampleSum_injective, by decide +kernel, by decide +kernel, by decide, by decide⟩

end Sample

end ApiGateway.Validators
