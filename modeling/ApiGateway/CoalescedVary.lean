import ApiGateway.CacheFlights

/-!
# Coalesced responses and Vary

Whether a response that one request fetched fits the other requests it is handed to, by
the cache or by singleflight. It has to be one that the recipient and the request that
fetched it would both have been given: the two agree on every header that any of its Vary
lines names.

A hit is found by a key that the stored response's own list went into, but only that of
its first Vary line. A call is joined by a key built before the response was there, from
whatever list the Vary memory held then. So the names have to be covered by the first line
and, where somebody else waits, by the list the call's key was built with. Keys determine
what they are built from only where nothing in it spells a separator.
-/

namespace ApiGateway.CoalescedVary

open Strings Http Lru CacheControl CacheKey CacheFlights Runs
open CacheServe hiding State
set_option autoImplicit false

def Covers (table : CaseTable) (names : List String) (name : String) : Prop :=
  toLower table name ∈ names.map (toLower table)

/-- A response whose first Vary line says all, in plain names, and whose key is unambiguous. -/
structure Announced (cfg : CacheConfig) (c : Captured) : Prop where
  plain : ∀ name ∈ listedNames c.response.header, Plain cfg.table name
  first : ∀ name ∈ listedNames c.response.header, Covers cfg.table (varyHeaders c.response) name
  separated : Separated cfg.table c.request (varyHeaders c.response)

/-- The list a key was built with covers what the response varies on. -/
def KeyCovers (cfg : CacheConfig) (_ : Request) (names : List String) (c : Captured) : Prop :=
  cacheable cfg c = true → ∀ name ∈ listedNames c.response.header, Covers cfg.table names name

def Selective (cfg : CacheConfig) (s : State) : Event → Prop
  | .headersFor i => ∀ p, s.procs i = some p →
      Separated cfg.table p.request (headersFor s.cache p.request)
  | .answer i resp => Guarded cfg (KeyCovers cfg) s (.answer i resp) ∧ ∀ p, s.procs i = some p →
      cacheable cfg ⟨i, p.request, resp⟩ = true → Announced cfg ⟨i, p.request, resp⟩
  | e => Guarded cfg (KeyCovers cfg) s e

/-- A response delivered to a request that did not fetch it fits that request. -/
def Matched (cfg : CacheConfig) (s : State) : Prop :=
  ∀ i p res, s.procs i = some p → p.pc = .replied res → cacheable cfg res.source = true →
    res.source.origin ≠ i → ∀ name ∈ listedNames res.source.response.header,
      p.request.header.get name = res.source.request.header.get name

theorem mem_parseVaryParts {out parts : List String} {name : String}
    (h : name ∈ (parseVaryParts out parts).1) :
    name ∈ out ∨ name ∈ (parts.map trimSpace).filter fun p => p ≠ "" ∧ p ≠ "*" := by
  induction parts generalizing out with
  | nil => exact .inl h
  | cons part parts ih =>
    simp only [parseVaryParts] at h
    split at h
    · rename_i hblank
      rcases ih h with hout | hrest
      · exact .inl hout
      · refine .inr ?_
        simpa [hblank] using hrest
    · rename_i hname
      split at h
      · cases h
      · rename_i hstar
        rcases ih h with hout | hrest
        · rcases List.mem_append.mp hout with hout | hnew
          · exact .inl hout
          · refine .inr ?_
            rw [List.mem_singleton.mp hnew]
            simp [hname, hstar]
        · refine .inr ?_
          rw [List.map_cons, List.filter_cons]
          split
          · exact List.mem_cons_of_mem _ hrest
          · exact hrest

theorem mem_listedNames {resp : Response} {name : String} (h : name ∈ varyHeaders resp) :
    name ∈ listedNames resp.header := by
  unfold varyHeaders parseVary Header.get at h
  split at h
  · cases h
  · rename_i hne
    cases hlines : resp.header.values "Vary" with
    | nil => simp [hlines] at hne
    | cons line lines =>
      rw [hlines] at h
      rcases mem_parseVaryParts h with hnone | hmem
      · cases hnone
      · rw [listedNames, varyParts, hlines, List.flatMap_cons, List.filter_append]
        exact List.mem_append_left _ hmem

theorem get_eq_of_covers {table : CaseTable} {r r' : Request} {names : List String} {name : String}
    (hplain : ∀ n ∈ names, Plain table n) (hname : Plain table name) (hcovers : Covers table names name)
    (h : ∀ n ∈ names, r.header.get n = r'.header.get n) :
    r.header.get name = r'.header.get name := by
  obtain ⟨n, hn, hlower⟩ := List.mem_map.mp hcovers
  have hn' := hplain n hn
  have hagree := h n hn
  rw [Header.get, Header.get, values_eq_of_toLower r.header hn' hname hlower,
    values_eq_of_toLower r'.header hn' hname hlower] at hagree
  exact hagree

/-- What a request's key was built from, once it is built. -/
def KeyOk (cfg : CacheConfig) (p : Proc) : Prop :=
  match p.pc with
  | .passed => True
  | .arrived => cacheMethod p.request
  | _ => cacheMethod p.request ∧ Separated cfg.table p.request p.names ∧
      ∀ n ∈ p.names, Plain cfg.table n

structure Selected (cfg : CacheConfig) (s : State) : Prop where
  memory : ∀ key names, s.cache.vary.lookup key = some names → ∀ n ∈ names, Plain cfg.table n
  entries : Holds (fun _ e => cacheMethod e.source.request ∧ Announced cfg e.source) s.cache.lru
  keys : ∀ i p, s.procs i = some p → KeyOk cfg p
  held : ∀ i p c, s.procs i = some p → p.pc.response = some c → cacheable cfg c = true →
    cacheMethod c.request ∧ Announced cfg c
  matched : Matched cfg s

section Selected
variable {cfg : CacheConfig} {s : State}

theorem selected_start (maxEntries maxBytes : Int) : Selected cfg (start maxEntries maxBytes) := by
  refine ⟨?_, holds_newLRU maxEntries maxBytes, ?_, ?_, ?_⟩
  · intro key names hk
    cases hk
  · intro i p hp
    cases hp
  · intro i p c hp
    cases hp
  · intro i p res hp
    cases hp

theorem selected_put {cache : CacheServe.State} {calls : AList fun _ : String => Nat} {i : Nat} {p : Proc}
    (h : Selected cfg s)
    (hmemory : ∀ key names, cache.vary.lookup key = some names → ∀ n ∈ names, Plain cfg.table n)
    (hentries : Holds (fun _ e => cacheMethod e.source.request ∧ Announced cfg e.source) cache.lru)
    (hkey : KeyOk cfg p)
    (hheld : ∀ c, p.pc.response = some c → cacheable cfg c = true →
      cacheMethod c.request ∧ Announced cfg c)
    (hmatch : ∀ res, p.pc = .replied res → cacheable cfg res.source = true →
      res.source.origin ≠ i → ∀ name ∈ listedNames res.source.response.header,
        p.request.header.get name = res.source.request.header.get name) :
    Selected cfg (put ⟨cache, calls, s.procs⟩ i p) := by
  refine ⟨hmemory, hentries, ?_, ?_, ?_⟩
  · intro k q hq
    rcases put_cases hq with ⟨rfl, rfl⟩ | ⟨-, hq'⟩
    · exact hkey
    · exact h.keys k q hq'
  · intro k q c hq
    rcases put_cases hq with ⟨rfl, rfl⟩ | ⟨-, hq'⟩
    · exact hheld c
    · exact h.held k q c hq'
  · intro k q res hq
    rcases put_cases hq with ⟨rfl, rfl⟩ | ⟨-, hq'⟩
    · exact hmatch res
    · exact h.matched k q res hq'

theorem selected_put_waiting {cache : CacheServe.State} {calls : AList fun _ : String => Nat} {i : Nat}
    {p : Proc} (h : Selected cfg s) (hvary : cache.vary = s.cache.vary)
    (hentries : Holds (fun _ e => cacheMethod e.source.request ∧ Announced cfg e.source) cache.lru)
    (hkey : KeyOk cfg p) (hpc : p.pc.response = none) :
    Selected cfg (put ⟨cache, calls, s.procs⟩ i p) := by
  refine selected_put h (by rw [hvary]; exact h.memory) hentries hkey ?_ ?_
  · intro c hc
    rw [hpc] at hc
    cases hc
  · intro res hres
    rw [hres] at hpc
    cases hpc

theorem get_eq_of_key {r r' : Request} {names names' : List String} (hm : cacheMethod r)
    (hm' : cacheMethod r') (hs : Separated cfg.table r names) (hs' : Separated cfg.table r' names')
    (hplain : ∀ n ∈ names, Plain cfg.table n) (hplain' : ∀ n ∈ names', Plain cfg.table n)
    (h : buildKey cfg.table r names = buildKey cfg.table r' names') :
    ∀ n ∈ names', r.header.get n = r'.header.get n :=
  get_eq_of_varyRows hplain hplain' (sameIdentity_of_buildKey_eq hm hm' hs hs' h).rows

theorem Announced.varyHeaders_plain {c : Captured} (h : Announced cfg c) :
    ∀ n ∈ varyHeaders c.response, Plain cfg.table n :=
  fun n hn => h.plain n (mem_listedNames hn)

theorem hit_matches {r : Request} {names : List String} {e : Entry} (hm : cacheMethod r)
    (hs : Separated cfg.table r names) (hplain : ∀ n ∈ names, Plain cfg.table n)
    (he : cacheMethod e.source.request ∧ Announced cfg e.source)
    (hkey : buildKey cfg.table r names = finalKey cfg e.source) :
    ∀ name ∈ listedNames e.source.response.header, r.header.get name = e.source.request.header.get name := by
  intro name hname
  obtain ⟨hm', hann⟩ := he
  have hagree := get_eq_of_key hm hm' hs hann.separated hplain hann.varyHeaders_plain hkey
  exact get_eq_of_covers hann.varyHeaders_plain (hann.plain name hname) (hann.first name hname) hagree

theorem reply_matches {r r' : Request} {names names' : List String} {c : Captured}
    (hm : cacheMethod r) (hm' : cacheMethod r') (hs : Separated cfg.table r names)
    (hs' : Separated cfg.table r' names') (hplain : ∀ n ∈ names, Plain cfg.table n)
    (hplain' : ∀ n ∈ names', Plain cfg.table n) (hann : Announced cfg c)
    (hcovers : ∀ name ∈ listedNames c.response.header, Covers cfg.table names' name)
    (hkey : buildKey cfg.table r names = buildKey cfg.table r' names') :
    ∀ name ∈ listedNames c.response.header, r.header.get name = r'.header.get name := by
  intro name hname
  exact get_eq_of_covers hplain' (hann.plain name hname) (hcovers name hname)
    (get_eq_of_key hm hm' hs hs' hplain hplain' hkey)

theorem Selected.headersFor_plain (h : Selected cfg s) (r : Request) :
    ∀ n ∈ headersFor s.cache r, Plain cfg.table n := by
  intro n hn
  unfold headersFor at hn
  cases hk : s.cache.vary.lookup (memoryKey r) with
  | none => simp [hk] at hn
  | some names =>
    rw [hk] at hn
    exact h.memory _ names hk n hn

theorem Selected.record_plain (h : Selected cfg s) {names : List String}
    (hplain : ∀ n ∈ names, Plain cfg.table n) (r : Request) :
    ∀ key names', (CacheServe.record s.cache r names).vary.lookup key = some names' →
      ∀ n ∈ names', Plain cfg.table n := by
  intro key names' hk
  change (s.cache.vary.insert (memoryKey r) names).lookup key = some names' at hk
  by_cases hkey : key = memoryKey r
  · subst hkey
    rw [AList.lookup_insert] at hk
    cases hk
    exact hplain
  · rw [AList.lookup_insert_ne hkey] at hk
    exact h.memory key names' hk

theorem selected_step {e : Event} {t : State} (hwf : WellFormed cfg s)
    (hwaits : WaitsFor (KeyCovers cfg) s.procs) (h : Selected cfg s) (hok : Selective cfg s e)
    (hs : Step cfg s e t) : Selected cfg t := by
  cases hs with
  | @arrive i r hi =>
    refine selected_put h h.memory h.entries ?_ ?_ ?_
    · cases hh : handled cfg r with
      | false => trivial
      | true =>
        simp only [handled, Bool.and_eq_true, decide_eq_true_eq] at hh
        exact hh.1
    · intro c hc
      split at hc <;> cases hc
    · intro res hres
      split at hres <;> cases hres
  | @headersFor i r names hi =>
    have hm := h.keys i _ hi
    have hsep := hok _ hi
    exact selected_put_waiting h rfl h.entries ⟨hm, hsep, h.headersFor_plain r⟩ rfl
  | @hit i now r names lru e hi hl =>
    obtain ⟨hm, hsep, hplain⟩ := h.keys i _ hi
    have hentry := (lookup_some h.entries (congrArg Prod.snd hl)).1
    have hkey := (lookup_some hwf.entries (congrArg Prod.snd hl)).1.2
    refine selected_put h h.memory (holds_lookup h.entries hl) ⟨hm, hsep, hplain⟩ ?_ ?_
    · rintro _ ⟨⟩ -
      exact hentry
    · rintro _ ⟨⟩ - -
      exact hit_matches hm hsep hplain hentry hkey
  | @miss i now r names lru hi hl =>
    have hkeys := h.keys i _ hi
    exact selected_put_waiting h rfl (holds_lookup h.entries hl) hkeys rfl
  | @join i j r names hi hj =>
    have hkeys := h.keys i _ hi
    exact selected_put_waiting h rfl h.entries hkeys rfl
  | @lead i r names hi hj =>
    have hkeys := h.keys i _ hi
    exact selected_put_waiting h rfl h.entries hkeys rfl
  | @capture i resp r names hi hc =>
    obtain ⟨hm, hsep, hplain⟩ := h.keys i _ hi
    refine selected_put h h.memory h.entries ⟨hm, hsep, hplain⟩ ?_ (by rintro _ ⟨⟩)
    rintro _ ⟨⟩ -
    exact ⟨hm, hok.2 _ hi hc⟩
  | @refuse i resp r names hi hc =>
    have hkeys := h.keys i _ hi
    refine selected_put h h.memory h.entries hkeys ?_ (by rintro _ ⟨⟩)
    rintro _ ⟨⟩ hcache
    exact absurd (hc.symm.trans hcache) Bool.false_ne_true
  | @panic i r names hi =>
    have hkeys := h.keys i _ hi
    exact selected_put_waiting h rfl h.entries hkeys rfl
  | @record i r names c hi =>
    have hkeys := h.keys i _ hi
    have hc := hwf.procs i _ hi
    have hann := h.held i _ c hi rfl hc.2.2
    refine selected_put h (h.record_plain hann.2.varyHeaders_plain _) h.entries hkeys ?_ (by rintro _ ⟨⟩)
    rintro _ ⟨⟩ -
    exact hann
  | @set i now r names c hi =>
    have hkeys := h.keys i _ hi
    have hc := hwf.procs i _ hi
    have hann := h.held i _ c hi rfl hc.2.2
    refine selected_put h h.memory (holds_set h.entries hann) hkeys ?_ (by rintro _ ⟨⟩)
    rintro _ ⟨⟩ -
    exact hann
  | @finish i r names res hi =>
    have hkeys := h.keys i _ hi
    have hown := hwf.procs i _ hi
    refine selected_put h h.memory h.entries hkeys ?_ ?_
    · rintro _ ⟨⟩ hcache
      exact h.held i _ _ hi rfl hcache
    · rintro _ ⟨⟩ - hne
      exact absurd hown.1 hne
  | @reply i j r r' names names' res hi hj =>
    obtain ⟨hm, hsep, hplain⟩ := h.keys i _ hi
    obtain ⟨hm', hsep', hplain'⟩ := h.keys j _ hj
    obtain ⟨q, hq, hkey, hled⟩ := hwf.waits i _ j hi rfl
    obtain rfl := Option.some.inj (hj.symm.trans hq)
    refine selected_put h h.memory h.entries ⟨hm, hsep, hplain⟩ ?_ ?_
    · rintro _ ⟨⟩ hcache
      exact h.held j _ _ hj rfl hcache
    · rintro _ ⟨⟩ hcache -
      have hann := (h.held j _ _ hj rfl hcache).2
      have hcovers := hwaits i _ j _ _ hi rfl hj rfl hcache
      rw [hled.2]
      exact reply_matches hm hm' hsep hsep' hplain hplain' hann hcovers hkey.symm
  | @fall i j r r' names names' hi hj =>
    have hkeys := h.keys i _ hi
    exact selected_put_waiting h rfl h.entries hkeys rfl

theorem Selective.guarded {e : Event} (h : Selective cfg s e) : Guarded cfg (KeyCovers cfg) s e := by
  cases e with
  | answer i resp => exact h.1
  | headersFor i => trivial
  | _ => exact h

/-- Over any interleaving in which keys are unambiguous, every stored response says in its
first Vary line, in plain names, all that it varies on, and a response that somebody else
waits for varies on nothing that the call's key was not built with: whoever is handed a
stored response agrees with the request that fetched it on every header it varies on. -/
theorem matched_of_selective {maxEntries maxBytes : Int} {es : List Event}
    (hok : StepsMeet (step cfg) (Selective cfg) (start maxEntries maxBytes) es) :
    ∀ s, Visits (step cfg) (start maxEntries maxBytes) es s → Matched cfg s := by
  intro s hv
  have hinv : WellFormed cfg s ∧ WaitsFor (KeyCovers cfg) s.procs ∧ Selected cfg s := by
    refine visits_invariant (step cfg) (fun s => WellFormed cfg s ∧
      WaitsFor (KeyCovers cfg) s.procs ∧ Selected cfg s) ?_
      ⟨wellFormed_start maxEntries maxBytes, waitsFor_start maxEntries maxBytes,
        selected_start maxEntries maxBytes⟩ hok hv
    rintro s e t ⟨hwf, hwaits, hsel⟩ hcond hstep
    have hs := step_cases hstep
    exact ⟨wellFormed_step hwf hs, waitsFor_step hwf hwaits hcond.guarded hs,
      selected_step hwf hwaits hsel hcond hs⟩
  exact hinv.2.2.matched

end Selected

def page (encoding : String) : Request := getRequest ⟨"/page", "", []⟩ ⟨[(acceptEncoding, encoding)]⟩

def gzipped : Response := ⟨200, ⟨[(varyName, "Accept-Encoding"), (contentEncoding, "gzip")]⟩, [31, 139]⟩

def fetchThenHit : List Event :=
  [.arrive 0 (page "gzip"), .headersFor 0, .get 0 0, .enter 0, .answer 0 gzipped, .record 0, .set 0 0,
    .finish 0, .arrive 1 (page "gzip"), .headersFor 1, .get 1 5]

theorem matched_fetchThenHit :
    ((exec (step sampleConfig) (start 8 100) fetchThenHit).bind fun t => t.procs 1) =
        some ⟨page "gzip", ["Accept-Encoding"], .replied (.entry (entryOf sampleConfig
          ⟨0, page "gzip", gzipped⟩ 0))⟩ ∧
      ∀ s, Visits (step sampleConfig) (start 8 100) fetchThenHit s → Matched sampleConfig s := by
  refine ⟨by decide +kernel, matched_of_selective (stepsMeet_of_take (step sampleConfig) ?_)⟩
  intro n e t he ht
  have hn : n < 11 := (List.getElem?_eq_some_iff.mp he).1
  interval_cases n <;> cases he
  all_goals try trivial
  · intro p hp
    have hproc : t.procs 0 = some ⟨page "gzip", [], .arrived⟩ :=
      exec_observe (step sampleConfig) (fun t => t.procs 0) ht (by decide +kernel)
    have hmemory : some (headersFor t.cache (page "gzip")) = some [] :=
      exec_observe (step sampleConfig) (fun t => some (headersFor t.cache (page "gzip"))) ht
        (by decide +kernel)
    obtain rfl := Option.some.inj (hproc.symm.trans hp)
    rw [Option.some.inj hmemory]
    decide
  · intro p j q c hp hj hq hc
    have hproc : t.procs 0 = some ⟨page "gzip", [], .missed⟩ :=
      exec_observe (step sampleConfig) (fun t => t.procs 0) ht (by decide +kernel)
    have hcall : t.calls.lookup "GET /page?" = none :=
      exec_observe (step sampleConfig) (fun t => t.calls.lookup "GET /page?") ht (by decide +kernel)
    obtain rfl := Option.some.inj (hproc.symm.trans hp)
    exact absurd (hcall.symm.trans hj) nofun
  · have hproc : t.procs 0 = some ⟨page "gzip", [], .leading⟩ :=
      exec_observe (step sampleConfig) (fun t => t.procs 0) ht (by decide +kernel)
    constructor
    · refine fun p hp => .inr ?_
      intro k q hq hw
      by_cases hk : k = 0
      · subst hk
        obtain rfl := Option.some.inj (hproc.symm.trans hq)
        cases hw
      · have hfresh := exec_frame (k := k) ht (by simp [fetchThenHit, Event.subject, hk])
        rw [hfresh] at hq
        cases hq
    · intro p hp hc
      obtain rfl := Option.some.inj (hproc.symm.trans hp)
      exact ⟨by decide, by unfold Covers; decide, by decide⟩
  · intro p hp
    have hproc : t.procs 1 = some ⟨page "gzip", [], .arrived⟩ :=
      exec_observe (step sampleConfig) (fun t => t.procs 1) ht (by decide +kernel)
    have hmemory : some (headersFor t.cache (page "gzip")) = some ["Accept-Encoding"] :=
      exec_observe (step sampleConfig) (fun t => some (headersFor t.cache (page "gzip"))) ht
        (by decide +kernel)
    obtain rfl := Option.some.inj (hproc.symm.trans hp)
    rw [Option.some.inj hmemory]
    decide

/-- The failing run: nothing is known of the path yet, so a client that does not accept gzip
joins the call of one that does and is given its gzip body. -/
theorem gzip_response_mismatched :
    ¬ ∀ (cfg : CacheConfig) (maxEntries maxBytes : Int) (es : List Event) (t : State),
      exec (step cfg) (start maxEntries maxBytes) es = some t → Matched cfg t := by
  intro hall
  have hrun : ((exec (step sampleConfig) (start 8 100)
      (joined (page "gzip") (page "identity") gzipped ++
        [.record 0, .set 0 0, .finish 0, .reply 1])).bind fun t => t.procs 1) =
      some ⟨page "identity", [], .replied (.entry (entryOf sampleConfig
        ⟨0, page "gzip", gzipped⟩ 0))⟩ := by decide +kernel
  obtain ⟨t, ht, hproc⟩ := Option.bind_eq_some_iff.mp hrun
  have hmatch := hall _ _ _ _ t ht 1 _ _ hproc rfl (by decide) (by decide) "Accept-Encoding" (by decide)
  exact absurd hmatch (by decide)

end ApiGateway.CoalescedVary
