import ApiGateway.CacheControl
import ApiGateway.CacheKey
import Mathlib.Data.List.AList

/-!
# The cache middleware, one request at a time

`Cache`, `fillCache` and `varyState` of `internal/middleware/cache.go`, for requests that
do not overlap: singleflight then always leads. The operations on the shared state are
the ones the interleaved model takes apart.

A visit is a request with the clock readings its lookup and its store would make and
what the handler inside would answer, `none` if it panics. Any list of visits is a run, so
the upstream may answer as it likes. Visits are numbered, and the number of the visit that
called the upstream is recorded in what it captures.
-/

namespace ApiGateway.CacheServe

open Strings Http Lru CacheControl CacheKey
set_option autoImplicit false

structure State where
  lru : LRU
  vary : AList fun _ : String => List String

def newState (maxEntries maxBytes : Int) : State := ⟨newLRU maxEntries maxBytes, ∅⟩

def memoryKey (r : Request) : String := r.method ++ " " ++ r.url.path

def headersFor (s : State) (r : Request) : List String := (s.vary.lookup (memoryKey r)).getD []

def record (s : State) (r : Request) (headers : List String) : State :=
  {s with vary := s.vary.insert (memoryKey r) headers}

def requestDirective (cfg : CacheConfig) (r : Request) (name : String) : Bool :=
  hasDirective (parseCacheControl cfg.table (r.header.get "Cache-Control")) name

/-- The middleware handles the request itself: `GET` or `HEAD` without `no-store`. -/
def handled (cfg : CacheConfig) (r : Request) : Bool :=
  decide (cacheMethod r) && !requestDirective cfg r "no-store"

def lookupKey (cfg : CacheConfig) (s : State) (r : Request) : String :=
  buildKey cfg.table r (headersFor s r)

def lookup (cfg : CacheConfig) (lru : LRU) (r : Request) (key : String) (now : Int) :
    LRU × Option Entry :=
  if requestDirective cfg r "no-cache" then (lru, none) else Lru.get lru key now

/-- `sfResult`: the stored entry, or the captured response as it came. -/
inductive SfResult where
  | entry (e : Entry)
  | raw (c : Captured)
  deriving DecidableEq

def SfResult.source : SfResult → Captured
  | .entry e => e.source
  | .raw c => c

def finalKey (cfg : CacheConfig) (c : Captured) : String :=
  buildKey cfg.table c.request (varyHeaders c.response)

/-- The rest of `fillCache` once the handler has answered. -/
def fillCache (cfg : CacheConfig) (s : State) (c : Captured) (now : Int) : State × SfResult :=
  if cacheable cfg c then
    let s := record s c.request (varyHeaders c.response)
    let e := entryOf cfg c now
    ({s with lru := Lru.set s.lru (finalKey cfg c) e}, .entry e)
  else (s, .raw c)

structure Visit where
  request : Request
  getAt : Int
  setAt : Int
  answer : Option Response
  deriving DecidableEq

inductive Reply where
  | passed (answer : Option Response)
  | hit (e : Entry)
  | filled (res : SfResult)
  | panicked
  deriving DecidableEq

/-- What is written to a writer whose header is `w`; `none` if the handler panicked. -/
def Reply.response (w : Header) (r : Request) : Reply → Option Response
  | .passed answer => answer.map fun resp => writeRaw w resp.status resp.header resp.body
  | .hit e => some (serveFromCache w r e)
  | .filled (.entry e) => some (serveFromCache w r e)
  | .filled (.raw c) => some (writeRaw w c.response.status c.response.header c.response.body)
  | .panicked => none

def serve (cfg : CacheConfig) (n : Nat) (s : State) (v : Visit) : State × Reply :=
  if handled cfg v.request then
    let found := lookup cfg s.lru v.request (lookupKey cfg s v.request) v.getAt
    let s := {s with lru := found.1}
    match found.2, v.answer with
    | some e, _ => (s, .hit e)
    | none, some resp =>
      let filled := fillCache cfg s ⟨n, v.request, resp⟩ v.setAt
      (filled.1, .filled filled.2)
    | none, none => (s, .panicked)
  else (s, .passed v.answer)

def runFrom (cfg : CacheConfig) (n : Nat) (s : State) : List Visit → State
  | [] => s
  | v :: vs => runFrom cfg (n + 1) (serve cfg n s v).1 vs

def run (cfg : CacheConfig) (maxEntries maxBytes : Int) (vs : List Visit) : State :=
  runFrom cfg 0 (newState maxEntries maxBytes) vs

/-- What `serve` gives to `buildKey`. -/
def keyInputs (cfg : CacheConfig) (n : Nat) (s : State) (v : Visit) : List (Request × List String) :=
  if handled cfg v.request then
    (v.request, headersFor s v.request) :: match (serve cfg n s v).2 with
      | .filled (.entry e) => [(v.request, varyHeaders e.source.response)]
      | _ => []
  else []

def keyInputsFrom (cfg : CacheConfig) (n : Nat) (s : State) : List Visit → List (Request × List String)
  | [] => []
  | v :: vs => keyInputs cfg n s v ++ keyInputsFrom cfg (n + 1) (serve cfg n s v).1 vs

/-- In the run, `buildKey` never gives one string for two identities. -/
def NoCollision (cfg : CacheConfig) (maxEntries maxBytes : Int) (vs : List Visit) : Prop :=
  ∀ x ∈ keyInputsFrom cfg 0 (newState maxEntries maxBytes) vs,
    ∀ y ∈ keyInputsFrom cfg 0 (newState maxEntries maxBytes) vs,
      buildKey cfg.table x.1 x.2 = buildKey cfg.table y.1 y.2 →
        SameIdentity cfg.table x.1 x.2 y.1 y.2

/-- No upstream answer names a header with a letter outside ASCII that turns into an ASCII
one in lower case. -/
def PlainVary (cfg : CacheConfig) (vs : List Visit) : Prop :=
  ∀ v ∈ vs, ∀ resp ∈ v.answer, ∀ name ∈ varyHeaders resp, Plain cfg.table name

/-- What `Get` keeps of the LRU, a lookup keeps. -/
theorem lookup_keeps {P : LRU → Prop} {lru lru' : LRU} (hget : ∀ key now, P (Lru.get lru key now).1)
    (h : P lru) {cfg : CacheConfig} {r : Request} {key : String} {now : Int} {found : Option Entry}
    (hl : lookup cfg lru r key now = (lru', found)) : P lru' := by
  unfold lookup at hl
  split at hl
  · obtain ⟨rfl, -⟩ := Prod.mk.inj hl
    exact h
  · have hkept := hget key now
    rwa [hl] at hkept

theorem holds_lookup {P : String → Entry → Prop} {lru lru' : LRU} (h : Holds P lru) {cfg : CacheConfig}
    {r : Request} {key : String} {now : Int} {found : Option Entry}
    (hl : lookup cfg lru r key now = (lru', found)) : Holds P lru' :=
  lookup_keeps (holds_get h) h hl

theorem lookup_some {P : String → Entry → Prop} {lru : LRU} (h : Holds P lru) {cfg : CacheConfig}
    {r : Request} {key : String} {now : Int} {e : Entry}
    (hget : (lookup cfg lru r key now).2 = some e) : P key e ∧ now ≤ e.expiresAt := by
  unfold lookup at hget
  split at hget
  · cases hget
  · exact get_some h hget

theorem fillCache_of_cacheable {cfg : CacheConfig} {c : Captured} (h : cacheable cfg c = true)
    (s : State) (now : Int) :
    fillCache cfg s c now = (⟨Lru.set s.lru (finalKey cfg c) (entryOf cfg c now),
      s.vary.insert (memoryKey c.request) (varyHeaders c.response)⟩, .entry (entryOf cfg c now)) := by
  rw [fillCache, if_pos h]
  rfl

theorem fillCache_of_not_cacheable {cfg : CacheConfig} {c : Captured} (h : cacheable cfg c = false)
    (s : State) (now : Int) : fillCache cfg s c now = (s, .raw c) := by
  simp [fillCache, h]

inductive Serves (cfg : CacheConfig) (n : Nat) (s : State) (v : Visit) : State → Reply → Prop
  | passed (h : handled cfg v.request = false) : Serves cfg n s v s (.passed v.answer)
  | hit {lru : LRU} {e : Entry} (h : handled cfg v.request = true)
    (hl : lookup cfg s.lru v.request (lookupKey cfg s v.request) v.getAt = (lru, some e)) :
    Serves cfg n s v ⟨lru, s.vary⟩ (.hit e)
  | panicked {lru : LRU} (h : handled cfg v.request = true)
    (hl : lookup cfg s.lru v.request (lookupKey cfg s v.request) v.getAt = (lru, none))
    (ha : v.answer = none) : Serves cfg n s v ⟨lru, s.vary⟩ .panicked
  | raw {lru : LRU} {resp : Response} (h : handled cfg v.request = true)
    (hl : lookup cfg s.lru v.request (lookupKey cfg s v.request) v.getAt = (lru, none))
    (ha : v.answer = some resp) (hc : cacheable cfg ⟨n, v.request, resp⟩ = false) :
    Serves cfg n s v ⟨lru, s.vary⟩ (.filled (.raw ⟨n, v.request, resp⟩))
  | stored {lru : LRU} {resp : Response} (h : handled cfg v.request = true)
    (hl : lookup cfg s.lru v.request (lookupKey cfg s v.request) v.getAt = (lru, none))
    (ha : v.answer = some resp) (hc : cacheable cfg ⟨n, v.request, resp⟩ = true) :
    Serves cfg n s v
      ⟨Lru.set lru (finalKey cfg ⟨n, v.request, resp⟩) (entryOf cfg ⟨n, v.request, resp⟩ v.setAt),
        s.vary.insert (memoryKey v.request) (varyHeaders resp)⟩
      (.filled (.entry (entryOf cfg ⟨n, v.request, resp⟩ v.setAt)))

theorem serve_serves (cfg : CacheConfig) (n : Nat) (s : State) (v : Visit) :
    Serves cfg n s v (serve cfg n s v).1 (serve cfg n s v).2 := by
  cases hh : handled cfg v.request with
  | false =>
    simp only [serve, hh, Bool.false_eq_true, if_false]
    exact .passed hh
  | true =>
    cases hl : lookup cfg s.lru v.request (lookupKey cfg s v.request) v.getAt with
    | mk lru found =>
      cases found with
      | some e =>
        simp only [serve, hh, if_true, hl]
        exact .hit hh hl
      | none =>
        cases ha : v.answer with
        | none =>
          simp only [serve, hh, if_true, hl, ha]
          exact .panicked hh hl ha
        | some resp =>
          simp only [serve, hh, if_true, hl, ha]
          cases hc : cacheable cfg ⟨n, v.request, resp⟩ with
          | false =>
            rw [fillCache_of_not_cacheable hc]
            exact .raw hh hl ha hc
          | true =>
            rw [fillCache_of_cacheable hc]
            exact .stored hh hl ha hc

section Run
variable (cfg : CacheConfig) (maxEntries maxBytes : Int) (vs : List Visit)

def stateAt (n : Nat) : State := run cfg maxEntries maxBytes (vs.take n)

def StoredBefore (n : Nat) (key : String) (e : Entry) : Prop :=
  ∃ m w, m < n ∧ vs[m]? = some w ∧
    (serve cfg m (stateAt cfg maxEntries maxBytes vs m) w).2 = .filled (.entry e) ∧
    key = finalKey cfg e.source

def ReadBefore (n : Nat) (names : List String) : Prop :=
  ∃ m w resp, m < n ∧ vs[m]? = some w ∧ w.answer = some resp ∧ names = varyHeaders resp

structure Sound (n : Nat) (s : State) : Prop where
  entries : Holds (StoredBefore cfg maxEntries maxBytes vs n) s.lru
  memory : ∀ key names, s.vary.lookup key = some names → ReadBefore vs n names

variable {cfg maxEntries maxBytes vs}

theorem StoredBefore.mono {m n : Nat} (hmn : m ≤ n) {key : String} {e : Entry}
    (h : StoredBefore cfg maxEntries maxBytes vs m key e) :
    StoredBefore cfg maxEntries maxBytes vs n key e := by
  obtain ⟨k, w, hk, hrest⟩ := h
  exact ⟨k, w, lt_of_lt_of_le hk hmn, hrest⟩

theorem ReadBefore.mono {m n : Nat} (hmn : m ≤ n) {names : List String} (h : ReadBefore vs m names) :
    ReadBefore vs n names := by
  obtain ⟨k, w, resp, hk, hrest⟩ := h
  exact ⟨k, w, resp, lt_of_lt_of_le hk hmn, hrest⟩

theorem Sound.of_lookup {n : Nat} {s : State} (h : Sound cfg maxEntries maxBytes vs n s) {r : Request}
    {key : String} {now : Int} {lru : LRU} {found : Option Entry}
    (hl : lookup cfg s.lru r key now = (lru, found)) :
    Sound cfg maxEntries maxBytes vs (n + 1) ⟨lru, s.vary⟩ := by
  refine ⟨(holds_lookup h.entries hl).mono fun _ _ hb => hb.mono n.le_succ, ?_⟩
  intro k names hk
  exact (h.memory k names hk).mono n.le_succ

theorem sound_step {n : Nat} {s s' : State} {v : Visit} {reply : Reply} (hv : vs[n]? = some v)
    (hreply : (serve cfg n (stateAt cfg maxEntries maxBytes vs n) v).2 = reply)
    (h : Sound cfg maxEntries maxBytes vs n s) (hs : Serves cfg n s v s' reply) :
    Sound cfg maxEntries maxBytes vs (n + 1) s' := by
  cases hs with
  | passed hh =>
    refine ⟨h.entries.mono fun _ _ hb => hb.mono n.le_succ, ?_⟩
    intro k names hk
    exact (h.memory k names hk).mono n.le_succ
  | hit hh hl => exact h.of_lookup hl
  | panicked hh hl ha => exact h.of_lookup hl
  | raw hh hl ha hc => exact h.of_lookup hl
  | @stored lru resp hh hl ha hc =>
    have hfound := h.of_lookup hl
    refine ⟨holds_set hfound.entries ⟨n, v, n.lt_succ_self, hv, hreply, rfl⟩, ?_⟩
    intro k names hk
    by_cases hkey : k = memoryKey v.request
    · subst hkey
      rw [AList.lookup_insert] at hk
      cases hk
      exact ⟨n, v, resp, n.lt_succ_self, hv, ha, rfl⟩
    · rw [AList.lookup_insert_ne hkey] at hk
      exact hfound.memory k names hk

theorem runFrom_append (n : Nat) (s : State) (xs : List Visit) (v : Visit) :
    runFrom cfg n s (xs ++ [v]) = (serve cfg (n + xs.length) (runFrom cfg n s xs) v).1 := by
  induction xs generalizing n s with
  | nil => rfl
  | cons x xs ih =>
    simp only [List.cons_append, runFrom, List.length_cons]
    rw [ih, Nat.add_assoc, Nat.add_comm 1]

theorem stateAt_succ {n : Nat} {v : Visit} (hv : vs[n]? = some v) :
    stateAt cfg maxEntries maxBytes vs (n + 1) =
      (serve cfg n (stateAt cfg maxEntries maxBytes vs n) v).1 := by
  obtain ⟨hn, rfl⟩ := List.getElem?_eq_some_iff.mp hv
  rw [stateAt, stateAt, run, run, List.take_succ_eq_append_getElem hn, runFrom_append,
    List.length_take_of_le hn.le, Nat.zero_add]

theorem sound_stateAt (n : Nat) (hn : n ≤ vs.length) :
    Sound cfg maxEntries maxBytes vs n (stateAt cfg maxEntries maxBytes vs n) := by
  induction n with
  | zero =>
    refine ⟨holds_newLRU maxEntries maxBytes, ?_⟩
    intro key names hk
    cases hk
  | succ n ih =>
    have hv : vs[n]? = some vs[n] := List.getElem?_eq_getElem hn
    rw [stateAt_succ hv]
    exact sound_step hv rfl (ih (Nat.le_of_succ_le hn)) (serve_serves cfg n _ _)

theorem mem_keyInputsFrom {x : Request × List String} (n : Nat) (s : State) (xs ys : List Visit)
    (v : Visit) (hx : x ∈ keyInputs cfg (n + xs.length) (runFrom cfg n s xs) v) :
    x ∈ keyInputsFrom cfg n s (xs ++ v :: ys) := by
  induction xs generalizing n s with
  | nil => exact List.mem_append_left _ hx
  | cons w xs ih =>
    apply List.mem_append_right
    apply ih
    rwa [Nat.add_assoc, Nat.add_comm 1]

theorem mem_keyInputs {x : Request × List String} {n : Nat} {v : Visit} (hv : vs[n]? = some v)
    (hx : x ∈ keyInputs cfg n (stateAt cfg maxEntries maxBytes vs n) v) :
    x ∈ keyInputsFrom cfg 0 (newState maxEntries maxBytes) vs := by
  obtain ⟨hn, rfl⟩ := List.getElem?_eq_some_iff.mp hv
  have hsplit : vs = vs.take n ++ vs[n] :: vs.drop (n + 1) := by
    rw [← List.drop_eq_getElem_cons hn, List.take_append_drop]
  rw [hsplit]
  apply mem_keyInputsFrom
  rwa [List.length_take_of_le hn.le, Nat.zero_add]

theorem serve_entry {n : Nat} {s : State} {v : Visit} {e : Entry}
    (h : (serve cfg n s v).2 = .filled (.entry e)) :
    handled cfg v.request = true ∧ ∃ resp, v.answer = some resp ∧
      cacheable cfg ⟨n, v.request, resp⟩ = true ∧ e = entryOf cfg ⟨n, v.request, resp⟩ v.setAt := by
  have hs := serve_serves cfg n s v
  rw [h] at hs
  generalize (serve cfg n s v).1 = s' at hs
  cases hs with
  | stored hh hl ha hc => exact ⟨hh, _, ha, hc, rfl⟩

theorem status_of_cacheable {c : Captured} (h : cacheable cfg c = true) : c.response.status = 200 :=
  (cacheableResponse_iff.mp h).1

theorem serveFromCache_sends {e : Entry} (he : e.status = 200) (w : Header) (r : Request) :
    ((serveFromCache w r e).status = 200 ∧ (serveFromCache w r e).body = e.body) ∨
      ((serveFromCache w r e).status = 304 ∧
        etagMatches (r.header.get "If-None-Match") e.etag = true) := by
  unfold serveFromCache
  split
  · rename_i hmatch
    exact .inr ⟨rfl, hmatch.2⟩
  · exact .inl ⟨by simp [writeRaw, he], rfl⟩

/-- What a hit owes the request it is served to: the entry is the answer to an earlier visit
of the same identity, as far as the answer's own Vary goes. -/
structure AnswersFor (cfg : CacheConfig) (r : Request) (e : Entry) (w : Visit) (resp : Response) :
    Prop where
  answer : w.answer = some resp
  ok : resp.status = 200
  status : e.status = resp.status
  body : e.body = resp.body
  header : e.header = taggedHeader cfg resp
  method : r.method = w.request.method
  path : r.url.path = w.request.url.path
  query : r.url.query.Perm w.request.url.query
  vary : ∀ name ∈ varyHeaders resp, r.header.get name = w.request.header.get name

theorem headersFor_plain (hplain : PlainVary cfg vs) {n : Nat} {s : State}
    (h : Sound cfg maxEntries maxBytes vs n s) (r : Request) :
    ∀ name ∈ headersFor s r, Plain cfg.table name := by
  intro name hname
  unfold headersFor at hname
  cases hk : s.vary.lookup (memoryKey r) with
  | none => simp [hk] at hname
  | some names =>
    obtain ⟨m, w, resp, -, hw, ha, rfl⟩ := h.memory _ _ hk
    rw [hk] at hname
    exact hplain w (List.mem_of_getElem? hw) resp ha name hname

theorem answersFor_of_key (hinj : NoCollision cfg maxEntries maxBytes vs) (hplain : PlainVary cfg vs)
    {n : Nat} {v : Visit} (hv : vs[n]? = some v) (hn : n ≤ vs.length)
    (hh : handled cfg v.request = true) {e : Entry}
    (h : StoredBefore cfg maxEntries maxBytes vs n
      (lookupKey cfg (stateAt cfg maxEntries maxBytes vs n) v.request) e) :
    ∃ m w resp, m < n ∧ vs[m]? = some w ∧
      (serve cfg m (stateAt cfg maxEntries maxBytes vs m) w).2 = .filled (.entry e) ∧
      AnswersFor cfg v.request e w resp := by
  obtain ⟨m, w, hmn, hw, hstored, hkey⟩ := h
  obtain ⟨hhw, resp, ha, hc, rfl⟩ := serve_entry hstored
  have hbuilt : (v.request, headersFor (stateAt cfg maxEntries maxBytes vs n) v.request) ∈
      keyInputsFrom cfg 0 (newState maxEntries maxBytes) vs := by
    apply mem_keyInputs hv
    simp [keyInputs, hh]
  have hbuilt' : (w.request, varyHeaders resp) ∈
      keyInputsFrom cfg 0 (newState maxEntries maxBytes) vs := by
    apply mem_keyInputs hw
    simp [keyInputs, hhw, hstored, entryOf]
  have hid := hinj _ hbuilt _ hbuilt' hkey
  refine ⟨m, w, resp, hmn, hw, hstored, ha, status_of_cacheable hc, rfl, rfl, rfl, hid.method,
    hid.path, hid.query, ?_⟩
  exact get_eq_of_varyRows (headersFor_plain hplain (sound_stateAt n hn) v.request)
    (hplain w (List.mem_of_getElem? hw) resp ha) hid.rows

theorem serve_of_not_handled {v : Visit}
    (h : ¬ cacheMethod v.request ∨ requestDirective cfg v.request "no-store" = true) (n : Nat)
    (s : State) : serve cfg n s v = (s, .passed v.answer) := by
  have hh : handled cfg v.request = false := by
    rcases h with h | h
    · simp [handled, h]
    · simp [handled, h]
  simp [serve, hh]

/-- Over any run in which keys do not collide and answers name plain headers: a hit is the
unexpired entry of an earlier answer to the same request, sent as 200 or as 304 to a
matching tag, and requests the cache does not handle neither see nor change it. -/
theorem serve_sound (hinj : NoCollision cfg maxEntries maxBytes vs) (hplain : PlainVary cfg vs)
    {n : Nat} {v : Visit} (hv : vs[n]? = some v) :
    (∀ e, (serve cfg n (stateAt cfg maxEntries maxBytes vs n) v).2 = .hit e →
      v.getAt ≤ e.expiresAt ∧
      (∃ m w resp, m < n ∧ vs[m]? = some w ∧
        (serve cfg m (stateAt cfg maxEntries maxBytes vs m) w).2 = .filled (.entry e) ∧
        AnswersFor cfg v.request e w resp) ∧
      ∀ w, ∃ sent, (Reply.hit e).response w v.request = some sent ∧
        ((sent.status = 200 ∧ sent.body = e.body) ∨ (sent.status = 304 ∧
          etagMatches (v.request.header.get "If-None-Match") e.etag = true))) ∧
    (¬ cacheMethod v.request ∨ requestDirective cfg v.request "no-store" = true →
      ∀ s, serve cfg n s v = (s, .passed v.answer)) := by
  obtain ⟨hlt, -⟩ := List.getElem?_eq_some_iff.mp hv
  constructor
  · intro e he
    have hs := serve_serves cfg n (stateAt cfg maxEntries maxBytes vs n) v
    rw [he] at hs
    generalize (serve cfg n (stateAt cfg maxEntries maxBytes vs n) v).1 = s' at hs
    cases hs with
    | hit hh hl =>
      have hfound : Sound cfg maxEntries maxBytes vs n (stateAt cfg maxEntries maxBytes vs n) :=
        sound_stateAt n hlt.le
      obtain ⟨hstored, hfresh⟩ := lookup_some hfound.entries (congrArg Prod.snd hl)
      have hanswer := answersFor_of_key hinj hplain hv hlt.le hh hstored
      refine ⟨hfresh, hanswer, ?_⟩
      intro w
      obtain ⟨_, _, _, _, _, _, hfor⟩ := hanswer
      exact ⟨_, rfl, serveFromCache_sends (hfor.status.trans hfor.ok) w v.request⟩
  · intro h s
    exact serve_of_not_handled h n s

end Run

def kName : FieldName := ⟨"K", by decide, by decide⟩

def sampleConfig : CacheConfig := ⟨asciiTable, 60000000000, fun _ => "00"⟩

def varying (vary : String) : Response := ⟨200, ⟨[(varyName, vary)]⟩, [1]⟩

def visitAt (t : Int) (query : List (String × String)) (header : Header) (vary : String) : Visit :=
  ⟨getRequest ⟨"/p", "", query⟩ header, t, t, some (varying vary)⟩

def Clock (vs : List Visit) : Prop := (vs.flatMap fun v => [v.getAt, v.setAt]).Pairwise (· ≤ ·)

def twice : List Visit :=
  [visitAt 0 [("a", "1")] ⟨[(kName, "x")]⟩ "k", visitAt 5 [("a", "1")] ⟨[(kName, "x")]⟩ "k"]

theorem serve_sound_twice :
    ∃ e w resp, (serve sampleConfig 1 (stateAt sampleConfig 8 100 twice 1)
        (visitAt 5 [("a", "1")] ⟨[(kName, "x")]⟩ "k")).2 = .hit e ∧ 5 ≤ e.expiresAt ∧
      AnswersFor sampleConfig (getRequest ⟨"/p", "", [("a", "1")]⟩ ⟨[(kName, "x")]⟩) e w resp := by
  have hinj : NoCollision sampleConfig 8 100 twice := by
    unfold NoCollision
    decide +kernel
  have hplain : PlainVary sampleConfig twice := by
    unfold PlainVary
    decide
  have hv : twice[1]? = some (visitAt 5 [("a", "1")] ⟨[(kName, "x")]⟩ "k") := rfl
  have hhit : (serve sampleConfig 1 (stateAt sampleConfig 8 100 twice 1)
      (visitAt 5 [("a", "1")] ⟨[(kName, "x")]⟩ "k")).2 = .hit (entryOf sampleConfig
        ⟨0, getRequest ⟨"/p", "", [("a", "1")]⟩ ⟨[(kName, "x")]⟩, varying "k"⟩ 0) := by
    decide +kernel
  obtain ⟨hfresh, ⟨m, w, resp, -, -, -, hfor⟩, -⟩ := (serve_sound hinj hplain hv).1 _ hhit
  exact ⟨_, w, resp, hhit, hfresh, hfor⟩

/-- The third visit asks with the list the second left behind, whose Kelvin sign reads no
header but spells the same key; it is given the answer that varies on `K`. -/
def kelvinRun : List Visit :=
  [visitAt 0 [("a", "1")] .empty "k",
    visitAt 1 [("b", "1")] .empty (String.ofList [kelvinSign]),
    visitAt 2 [("a", "1")] ⟨[(kName, "x")]⟩ "k"]

theorem serve_kelvin_unsound :
    ¬ ∀ (cfg : CacheConfig) (maxEntries maxBytes : Int) (vs : List Visit), Clock vs →
      NoCollision cfg maxEntries maxBytes vs → ∀ n v e, vs[n]? = some v →
        (serve cfg n (stateAt cfg maxEntries maxBytes vs n) v).2 = .hit e →
        ∃ m w resp, m < n ∧ vs[m]? = some w ∧ AnswersFor cfg v.request e w resp := by
  intro hall
  have hclock : Clock kelvinRun := by
    unfold Clock
    decide
  have hinj : NoCollision sampleConfig 8 100 kelvinRun := by
    unfold NoCollision
    decide +kernel
  have hhit : (serve sampleConfig 2 (stateAt sampleConfig 8 100 kelvinRun 2)
      (visitAt 2 [("a", "1")] ⟨[(kName, "x")]⟩ "k")).2 = .hit (entryOf sampleConfig
        ⟨0, getRequest ⟨"/p", "", [("a", "1")]⟩ .empty, varying "k"⟩ 0) := by
    decide +kernel
  obtain ⟨m, w, resp, hm, hw, hfor⟩ := hall sampleConfig 8 100 kelvinRun hclock hinj 2 _ _ rfl hhit
  rcases (show m = 0 ∨ m = 1 by omega) with rfl | rfl
  · cases hw
    cases hfor.answer
    exact absurd (hfor.vary "k" (by decide)) (by decide)
  · cases hw
    exact absurd hfor.query (by decide)

end ApiGateway.CacheServe
