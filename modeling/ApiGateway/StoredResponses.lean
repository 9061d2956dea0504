import ApiGateway.CacheFlights
import ApiGateway.LruRep

/-!
# Which responses are stored, and for how long

The cache middleware reads the first `Cache-Control` line of a request and of a response
through `Header.Get`, and the first `Authorization` line of a request. A header may have any
number of lines. What a stored response was allowed to be is stated here over all lines, and
for how long it may be reused over the one line it has, in the words of the directives; both
are compared with what every interleaving of requests through the middleware stores.
-/

namespace ApiGateway.StoredResponses

open Strings Http Lru CacheControl CacheKey CacheServe CacheFlights Runs
set_option autoImplicit false

/-- The names of the directives of one `Cache-Control` line, in lower case. -/
def directives (table : CaseTable) (line : String) : List String :=
  (splitSeq line ',').map fun part => toLower table (trimSpace (cut (trimSpace part) '=').1)

/-- What may be stored: a 200 to a `GET` or `HEAD`, with no line of either header against it,
and with a line for it when the request was authorised. -/
structure Storable (table : CaseTable) (c : Captured) : Prop where
  status : c.response.status = 200
  method : c.request.method = "GET" ∨ c.request.method = "HEAD"
  request : ∀ line ∈ c.request.header.values "Cache-Control", "no-store" ∉ directives table line
  response : ∀ line ∈ c.response.header.values "Cache-Control",
    "no-store" ∉ directives table line ∧ "private" ∉ directives table line
  authorised : (∃ value ∈ c.request.header.values "Authorization", value ≠ "") →
    ∃ line ∈ c.response.header.values "Cache-Control", "public" ∈ directives table line

/-- The lines the middleware does not look at change nothing: no later `Cache-Control` line
forbids storing, and an `Authorization` it takes for empty is empty in all its lines, or the
response is public. -/
structure LaterLines (table : CaseTable) (c : Captured) : Prop where
  request : ∀ line ∈ (c.request.header.values "Cache-Control").tail, "no-store" ∉ directives table line
  response : ∀ line ∈ (c.response.header.values "Cache-Control").tail,
    "no-store" ∉ directives table line ∧ "private" ∉ directives table line
  authorised : c.request.header.get "Authorization" = "" →
    (∃ value ∈ c.request.header.values "Authorization", value ≠ "") →
    ∃ line ∈ c.response.header.values "Cache-Control", "public" ∈ directives table line

section Directives
variable (table : CaseTable)

/-- Only a blank part is skipped, and its name would be empty. -/
theorem hasDirective_iff {name : String} (hname : name ≠ "") (line : String) :
    hasDirective (parseCacheControl table line) name = true ↔ name ∈ directives table line := by
  rw [hasDirective_iff_mem, parseCacheControl_eq, List.map_reverse, List.mem_reverse, List.map_filterMap,
    directives, List.mem_filterMap, List.mem_map]
  refine exists_congr fun part => and_congr_right fun _ => ?_
  rw [assignment]
  split
  · rename_i hempty
    rw [hempty]
    exact iff_of_false (Option.some_ne_none name).symm hname.symm
  · exact Option.some_inj

/-- The first line is the one `Header.Get` reads; an absent header has no directives. -/
theorem forall_values_iff (name : String) (hname : name ≠ "") (h : Header) :
    (∀ line ∈ h.values "Cache-Control", name ∉ directives table line) ↔
      hasDirective (parseCacheControl table (h.get "Cache-Control")) name = false ∧
        ∀ line ∈ (h.values "Cache-Control").tail, name ∉ directives table line := by
  rw [← Bool.not_eq_true, hasDirective_iff table hname]
  unfold Header.get
  cases h.values "Cache-Control" with
  | nil =>
    refine iff_of_true (by simp) ⟨?_, by simp⟩
    rw [List.headD_nil, ← hasDirective_iff table hname]
    simp [parseCacheControl, hasDirective]
  | cons line lines => simp

theorem exists_line {name : String} (hname : name ≠ "") {h : Header}
    (hd : hasDirective (parseCacheControl table (h.get "Cache-Control")) name = true) :
    ∃ line ∈ h.values "Cache-Control", name ∈ directives table line := by
  by_contra hnone
  have hall : ∀ line ∈ h.values "Cache-Control", name ∉ directives table line :=
    fun line hline hmem => hnone ⟨line, hline, hmem⟩
  have hfalse := ((forall_values_iff table name hname h).mp hall).1
  rw [hd] at hfalse
  cases hfalse

end Directives

theorem cacheable_spec {cfg : CacheConfig} {c : Captured} (h : cacheable cfg c = true) :
    let cc := parseCacheControl cfg.table (c.response.header.get "Cache-Control")
    c.response.status = 200 ∧ hasDirective cc "no-store" = false ∧ hasDirective cc "private" = false ∧
      (c.request.header.get "Authorization" ≠ "" → hasDirective cc "public" = true) := by
  intro cc
  obtain ⟨hstatus, hstore, hprivate, -, hpublic⟩ := cacheableResponse_iff.mp h
  exact ⟨hstatus, hstore, hprivate, hpublic⟩

/-- Of what the middleware would store, exactly that may be stored whose later lines change nothing. -/
theorem storable_iff {cfg : CacheConfig} {c : Captured} (hh : handled cfg c.request = true)
    (hc : cacheable cfg c = true) : Storable cfg.table c ↔ LaterLines cfg.table c := by
  obtain ⟨hstatus, hstore, hprivate, hpublic⟩ := cacheable_spec hc
  obtain ⟨hmethod, hreq⟩ := Bool.and_eq_true_iff.mp hh
  have hrequest : requestDirective cfg c.request "no-store" = false := by simpa using hreq
  have hstoreLines := forall_values_iff cfg.table "no-store" (by decide) c.response.header
  have hprivateLines := forall_values_iff cfg.table "private" (by decide) c.response.header
  have hrequestLines := forall_values_iff cfg.table "no-store" (by decide) c.request.header
  constructor
  · intro h
    refine ⟨(hrequestLines.mp h.request).2, ?_, fun _ => h.authorised⟩
    intro line hline
    exact h.response line (List.mem_of_mem_tail hline)
  · intro h
    refine ⟨hstatus, of_decide_eq_true hmethod, hrequestLines.mpr ⟨hrequest, h.request⟩, ?_, ?_⟩
    · intro line hline
      exact ⟨hstoreLines.mpr ⟨hstore, fun l hl => (h.response l hl).1⟩ line hline,
        hprivateLines.mpr ⟨hprivate, fun l hl => (h.response l hl).2⟩ line hline⟩
    · intro hsome
      by_cases hauth : c.request.header.get "Authorization" = ""
      · exact h.authorised hauth hsome
      · exact exists_line cfg.table (by decide) (hpublic hauth)

section Machine
variable {cfg : CacheConfig} {s t : CacheFlights.State} {e : Event}

/-- What a step does to the entries held: it stores what a request has recorded, or nothing. -/
theorem holds_step {P : String → Entry → Prop} (hs : Step cfg s e t) (h : Holds P s.cache.lru)
    (hset : ∀ i now r names c, e = .set i now → s.procs i = some ⟨r, names, .recorded c⟩ →
      P (finalKey cfg c) (entryOf cfg c now)) : Holds P t.cache.lru := by
  cases hs with
  | hit hi hl => exact holds_lookup h hl
  | miss hi hl => exact holds_lookup h hl
  | @set i now r names c hi => exact holds_set h (hset i now r names c rfl hi)
  | _ => exact h

/-- What `Get` and `Set` keep of the LRU, every step keeps. -/
theorem lru_step {P : LRU → Prop} (hget : ∀ c key now, P c → P (Lru.get c key now).1)
    (hset : ∀ c key entry, P c → P (Lru.set c key entry)) (hs : Step cfg s e t) (h : P s.cache.lru) :
    P t.cache.lru := by
  have hget' (key : String) (now : Int) := hget s.cache.lru key now h
  cases hs with
  | hit hi hl => exact lookup_keeps hget' h hl
  | miss hi hl => exact lookup_keeps hget' h hl
  | @set i now r names c hi => exact hset _ _ _ h
  | _ => exact h

theorem rep_step (hs : Step cfg s e t) (h : Rep s.cache.lru) : Rep t.cache.lru :=
  lru_step (fun _ key now hc => rep_get hc key now) (fun _ key entry hc => rep_set hc key entry) hs h

/-- A response that the middleware is about to store arrives with later lines that change nothing. -/
def LinesTell (cfg : CacheConfig) (s : CacheFlights.State) : Event → Prop
  | .answer i resp => ∀ p, s.procs i = some p → cacheable cfg ⟨i, p.request, resp⟩ = true →
    LaterLines cfg.table ⟨i, p.request, resp⟩
  | _ => True

/-- A request that is not passed on is one the middleware handles, and what it has captured for
storing may be stored. -/
def ProcPermitted (cfg : CacheConfig) (p : Proc) : Prop :=
  (p.pc ≠ .passed → handled cfg p.request = true) ∧
  ∀ c, p.pc = .captured c ∨ p.pc = .recorded c → Storable cfg.table c

structure Permitted (cfg : CacheConfig) (s : CacheFlights.State) : Prop where
  rep : Rep s.cache.lru
  entries : Holds (fun _ e => Storable cfg.table e.source) s.cache.lru
  procs : ∀ i p, s.procs i = some p → ProcPermitted cfg p

theorem permitted_start (cfg : CacheConfig) (maxEntries maxBytes : Int) :
    Permitted cfg (start maxEntries maxBytes) where
  rep := rep_newLRU maxEntries maxBytes
  entries := holds_newLRU maxEntries maxBytes
  procs := by
    intro i p hp
    cases hp

theorem procs_put {i : Nat} {p : Proc} (h : ∀ j q, s.procs j = some q → ProcPermitted cfg q)
    (hp : ProcPermitted cfg p) : ∀ j q, (put s i p).procs j = some q → ProcPermitted cfg q := by
  intro j q hq
  rcases put_cases hq with ⟨_, rfl⟩ | ⟨_, hq⟩
  · exact hp
  · exact h j q hq

/-- A request that keeps its place in the middleware and holds no response for storing. -/
theorem procPermitted_of {r : Request} {names names' : List String} {pc pc' : Pc}
    (h : ProcPermitted cfg ⟨r, names, pc⟩) (hpc : pc ≠ .passed)
    (hc : ∀ c, pc' = .captured c ∨ pc' = .recorded c → Storable cfg.table c) :
    ProcPermitted cfg ⟨r, names', pc'⟩ :=
  ⟨fun _ => h.1 hpc, hc⟩

theorem procs_step (hs : Step cfg s e t) (h : ∀ i p, s.procs i = some p → ProcPermitted cfg p)
    (hok : LinesTell cfg s e) : ∀ i p, t.procs i = some p → ProcPermitted cfg p := by
  cases hs with
  | @arrive i r hi =>
    refine procs_put h ⟨?_, ?_⟩
    · intro hpc
      by_contra hh
      exact hpc (if_neg hh)
    · intro c hc
      split at hc <;> simp at hc
  | headersFor hi => exact procs_put h (procPermitted_of (h _ _ hi) (by simp) (by simp))
  | hit hi hl => exact procs_put h (procPermitted_of (h _ _ hi) (by simp) (by simp))
  | miss hi hl => exact procs_put h (procPermitted_of (h _ _ hi) (by simp) (by simp))
  | join hi hj => exact procs_put h (procPermitted_of (h _ _ hi) (by simp) (by simp))
  | lead hi hj => exact procs_put h (procPermitted_of (h _ _ hi) (by simp) (by simp))
  | @capture i resp r names hi hc =>
    refine procs_put h (procPermitted_of (h _ _ hi) (by simp) ?_)
    intro c hcap
    rcases hcap with hcap | hcap
    · cases hcap
      exact (storable_iff ((h _ _ hi).1 (by simp)) hc).mpr (hok _ hi hc)
    · cases hcap
  | refuse hi hc => exact procs_put h (procPermitted_of (h _ _ hi) (by simp) (by simp))
  | panic hi => exact procs_put h (procPermitted_of (h _ _ hi) (by simp) (by simp))
  | @record i r names c hi =>
    refine procs_put h (procPermitted_of (h _ _ hi) (by simp) ?_)
    intro c' hrec
    rcases hrec with hrec | hrec
    · cases hrec
    · cases hrec
      exact (h _ _ hi).2 c (.inl rfl)
  | set hi => exact procs_put h (procPermitted_of (h _ _ hi) (by simp) (by simp))
  | finish hi => exact procs_put h (procPermitted_of (h _ _ hi) (by simp) (by simp))
  | reply hi hj => exact procs_put h (procPermitted_of (h _ _ hi) (by simp) (by simp))
  | fall hi hj => exact procs_put h (procPermitted_of (h _ _ hi) (by simp) (by simp))

theorem permitted_step (hs : Step cfg s e t) (h : Permitted cfg s) (hok : LinesTell cfg s e) :
    Permitted cfg t where
  rep := rep_step hs h.rep
  entries := by
    refine holds_step hs h.entries ?_
    intro i now r names c _ hi
    exact (h.procs i _ hi).2 c (.inr rfl)
  procs := procs_step hs h.procs hok

/-- Over every interleaving of requests through the middleware and whatever the upstream answers:
if no response arrives for storing whose later header lines would forbid it, then in every state
every listed entry was captured from a response that may be stored. -/
theorem stored_permitted {maxEntries maxBytes : Int} {es : List Event}
    (hok : StepsMeet (step cfg) (LinesTell cfg) (start maxEntries maxBytes) es)
    (hv : Visits (step cfg) (start maxEntries maxBytes) es s) :
    ∀ el ∈ s.cache.lru.order, Storable cfg.table el.entry.source := by
  have h : Permitted cfg s := visits_invariant (step cfg) (Permitted cfg)
    (fun u e v hu hok' hstep => permitted_step (step_cases hstep) hu hok')
    (permitted_start cfg maxEntries maxBytes) hok hv
  intro el hel
  exact h.entries el.key el ((h.rep.index el.key el).mpr ⟨hel, rfl⟩)

end Machine

/-- One request alone: it misses, is answered, stores the answer at time 0 and returns. -/
def oneFlight (r : Request) (resp : Response) : List Event :=
  [.arrive 0 r, .headersFor 0, .get 0 0, .enter 0, .answer 0 resp, .record 0, .set 0 0, .finish 0]

def twoLines (first second : String) : Response :=
  ⟨200, ⟨[(cacheControl, first), (cacheControl, second)]⟩, [1]⟩

/-- A public answer to an authorised request, in two lines. -/
theorem stored_permitted_public :
    ((exec (step sampleConfig) (start 8 100) (oneFlight (bearing "alice") (twoLines "public" "max-age=5"))).bind
        fun s => some (s.cache.lru.order.map fun el => el.entry.source)) =
        some [⟨0, bearing "alice", twoLines "public" "max-age=5"⟩] ∧
      ∀ s, Visits (step sampleConfig) (start 8 100)
        (oneFlight (bearing "alice") (twoLines "public" "max-age=5")) s →
        ∀ el ∈ s.cache.lru.order, Storable asciiTable el.entry.source := by
  refine ⟨by decide +kernel, fun s hs => stored_permitted (stepsMeet_of_take (step sampleConfig) ?_) hs⟩
  intro n e t he ht
  have hn : n < 8 := (List.getElem?_eq_some_iff.mp he).1
  interval_cases n <;> cases he
  all_goals try trivial
  intro p hp _
  have hproc : t.procs 0 = some ⟨bearing "alice", [], .leading⟩ :=
    exec_observe (step sampleConfig) (fun t => t.procs 0) ht (by decide +kernel)
  obtain rfl := Option.some.inj (hproc.symm.trans hp)
  exact ⟨by decide +kernel, by decide +kernel, fun _ _ => by decide +kernel⟩

/-- The failing run: the second line of the response forbids storing. -/
theorem noStore_line_ignored :
    ¬ ∀ (cfg : CacheConfig) (maxEntries maxBytes : Int) (es : List Event) (s : CacheFlights.State),
      Visits (step cfg) (start maxEntries maxBytes) es s →
        ∀ el ∈ s.cache.lru.order, Storable cfg.table el.entry.source := by
  intro hall
  have hrun : ((exec (step sampleConfig) (start 8 100)
      (oneFlight (bearing "") (twoLines "max-age=5" "no-store"))).bind
        fun s => s.cache.lru.order.head?.map fun el => el.entry.source) =
      some ⟨0, bearing "", twoLines "max-age=5" "no-store"⟩ := by decide +kernel
  obtain ⟨s, hs, hhead⟩ := Option.bind_eq_some_iff.mp hrun
  obtain ⟨el, hel, hsource⟩ := Option.map_eq_some_iff.mp hhead
  have hstorable := hall sampleConfig 8 100 _ s ⟨_, [], (List.append_nil _).symm, hs⟩ el
    (List.mem_of_mem_head? hel)
  rw [hsource] at hstorable
  exact absurd (hstorable.response "no-store" (by decide)).1 (by decide +kernel)

section Lifetime
variable {cfg : CacheConfig} {s : CacheFlights.State}

end Lifetime

end ApiGateway.StoredResponses
