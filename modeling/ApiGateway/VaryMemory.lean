import ApiGateway.CacheServe
import ApiGateway.LruRep

/-!
# How a stored response is found again

A response is stored under a key made with its own Vary list, and looked up under a key made with
the list that `varyState` remembers for the method and path. The memory holds the list of the last
response stored there, whatever its query. So a request whose response is still held is answered
from the cache exactly when that last list leads it to something held: to its own response if the
two lists make the same key, else to what another request left under the other key.
-/

namespace ApiGateway.VaryMemory

open Strings Http Lru CacheControl CacheKey CacheServe
set_option autoImplicit false

section Run
variable (cfg : CacheConfig) (maxEntries maxBytes : Int) (vs : List Visit)

/-- The visit stored a response for the method and path, with this Vary list. -/
def StoresAt (j : Nat) (key : String) (names : List String) : Prop :=
  ∃ u e, vs[j]? = some u ∧
    (serve cfg j (stateAt cfg maxEntries maxBytes vs j) u).2 = .filled (.entry e) ∧
    memoryKey u.request = key ∧ varyHeaders e.source.response = names

/-- Of the visits before `n` it is the last that stored for the method and path. -/
structure LastStored (n k : Nat) (key : String) (names : List String) : Prop where
  before : k < n
  stores : StoresAt cfg maxEntries maxBytes vs k key names
  last : ∀ j names', k < j → j < n → ¬ StoresAt cfg maxEntries maxBytes vs j key names'

variable {cfg maxEntries maxBytes vs}

/-- What a visit does to the memory: it records the list of what it stores, or nothing. -/
theorem vary_serve (cfg : CacheConfig) (n : Nat) (s : State) (v : Visit) (key : String) :
    (∃ e, (serve cfg n s v).2 = .filled (.entry e) ∧ memoryKey v.request = key ∧
      (serve cfg n s v).1.vary.lookup key = some (varyHeaders e.source.response)) ∨
    ((∀ e, (serve cfg n s v).2 = .filled (.entry e) → memoryKey v.request ≠ key) ∧
      (serve cfg n s v).1.vary.lookup key = s.vary.lookup key) := by
  have hs := serve_serves cfg n s v
  generalize serve cfg n s v = res at hs ⊢
  obtain ⟨s', reply⟩ := res
  cases hs with
  | stored hh hl ha hc =>
    by_cases hkey : memoryKey v.request = key
    · subst hkey
      exact .inl ⟨_, rfl, rfl, AList.lookup_insert _⟩
    · exact .inr ⟨fun _ _ => hkey, AList.lookup_insert_ne (Ne.symm hkey)⟩
  | _ => exact .inr ⟨nofun, rfl⟩

theorem lastStored_succ {n k : Nat} {key : String} {names : List String} :
    LastStored cfg maxEntries maxBytes vs (n + 1) k key names ↔
      (k = n ∧ StoresAt cfg maxEntries maxBytes vs n key names) ∨
      (LastStored cfg maxEntries maxBytes vs n k key names ∧
        ∀ names', ¬ StoresAt cfg maxEntries maxBytes vs n key names') := by
  constructor
  · rintro ⟨hbefore, hstores, hlast⟩
    rcases Nat.lt_succ_iff_lt_or_eq.mp hbefore with hlt | rfl
    · refine .inr ⟨⟨hlt, hstores, ?_⟩, fun names' => hlast n names' hlt n.lt_succ_self⟩
      intro j names' hkj hjn
      exact hlast j names' hkj (Nat.lt_succ_of_lt hjn)
    · exact .inl ⟨rfl, hstores⟩
  · rintro (⟨rfl, hstores⟩ | ⟨⟨hbefore, hstores, hlast⟩, hnot⟩)
    · refine ⟨k.lt_succ_self, hstores, ?_⟩
      intro j names' hkj hj
      omega
    · refine ⟨Nat.lt_succ_of_lt hbefore, hstores, ?_⟩
      intro j names' hkj hj
      rcases Nat.lt_succ_iff_lt_or_eq.mp hj with hlt | rfl
      · exact hlast j names' hkj hlt
      · exact hnot names'

theorem exists_lastStored {m n : Nat} (hmn : m < n) {key : String} {names : List String}
    (h : StoresAt cfg maxEntries maxBytes vs m key names) :
    ∃ k names', LastStored cfg maxEntries maxBytes vs n k key names' := by
  induction n with
  | zero => exact absurd hmn m.not_lt_zero
  | succ n ih =>
    simp only [lastStored_succ]
    by_cases hnow : ∃ names', StoresAt cfg maxEntries maxBytes vs n key names'
    · obtain ⟨names', hnames'⟩ := hnow
      exact ⟨n, names', .inl ⟨rfl, hnames'⟩⟩
    · rcases Nat.lt_succ_iff_lt_or_eq.mp hmn with hlt | rfl
      · obtain ⟨k, names', hk⟩ := ih hlt
        exact ⟨k, names', .inr ⟨hk, not_exists.mp hnow⟩⟩
      · exact absurd ⟨names, h⟩ hnow

theorem storesAt_iff {n : Nat} {v : Visit} (hv : vs[n]? = some v) {key : String} {names : List String} :
    StoresAt cfg maxEntries maxBytes vs n key names ↔
      ∃ e, (serve cfg n (stateAt cfg maxEntries maxBytes vs n) v).2 = .filled (.entry e) ∧
        memoryKey v.request = key ∧ varyHeaders e.source.response = names := by
  constructor
  · rintro ⟨u, e, hu, hrest⟩
    obtain rfl := Option.some.inj (hv.symm.trans hu)
    exact ⟨e, hrest⟩
  · rintro ⟨e, hrest⟩
    exact ⟨v, e, hv, hrest⟩

/-- The memory holds the Vary list of the last response stored for the method and path. -/
theorem vary_lookup_iff {n : Nat} (hn : n ≤ vs.length) {key : String} {names : List String} :
    (stateAt cfg maxEntries maxBytes vs n).vary.lookup key = some names ↔
      ∃ k, LastStored cfg maxEntries maxBytes vs n k key names := by
  induction n with
  | zero =>
    refine iff_of_false nofun ?_
    rintro ⟨k, hk⟩
    exact absurd hk.before k.not_lt_zero
  | succ n ih =>
    have hv : vs[n]? = some vs[n] := List.getElem?_eq_getElem hn
    simp only [lastStored_succ, stateAt_succ hv, storesAt_iff hv]
    rcases vary_serve cfg n (stateAt cfg maxEntries maxBytes vs n) vs[n] key with
      ⟨e, hreply, hkey, hlookup⟩ | ⟨hother, hlookup⟩
    · rw [hlookup]
      constructor
      · intro hnames
        exact ⟨n, .inl ⟨rfl, e, hreply, hkey, Option.some.inj hnames⟩⟩
      · rintro ⟨k, ⟨-, e', hreply', -, hnames⟩ | ⟨-, hnot⟩⟩
        · rw [hreply] at hreply'
          cases hreply'
          rw [hnames]
        · exact absurd ⟨e, hreply, hkey, rfl⟩ (hnot _)
    · rw [hlookup, ih (Nat.le_of_succ_le hn)]
      constructor
      · rintro ⟨k, hk⟩
        refine ⟨k, .inr ⟨hk, ?_⟩⟩
        rintro names' ⟨e, hreply, hkey, -⟩
        exact hother e hreply hkey
      · rintro ⟨k, ⟨-, e, hreply, hkey, -⟩ | ⟨hk, -⟩⟩
        · exact absurd hkey (hother e hreply)
        · exact ⟨k, hk⟩

theorem rep_serve {n : Nat} {s : State} (h : Rep s.lru) (v : Visit) : Rep (serve cfg n s v).1.lru := by
  have hs := serve_serves cfg n s v
  generalize serve cfg n s v = res at hs ⊢
  obtain ⟨s', reply⟩ := res
  cases hs with
  | passed hh => exact h
  | hit hh hl => exact lookup_keeps (rep_get h) h hl
  | panicked hh hl ha => exact lookup_keeps (rep_get h) h hl
  | raw hh hl ha hc => exact lookup_keeps (rep_get h) h hl
  | stored hh hl ha hc => exact rep_set (lookup_keeps (rep_get h) h hl) _ _

theorem rep_stateAt {n : Nat} (hn : n ≤ vs.length) : Rep (stateAt cfg maxEntries maxBytes vs n).lru := by
  induction n with
  | zero => exact rep_newLRU maxEntries maxBytes
  | succ n ih =>
    rw [stateAt_succ (List.getElem?_eq_getElem hn)]
    exact rep_serve (ih (Nat.le_of_succ_le hn)) _

theorem serve_hit_iff {n : Nat} {s : State} {v : Visit} (h : Rep s.lru) (hh : handled cfg v.request = true)
    (hcache : requestDirective cfg v.request "no-cache" = false) (e : Entry) :
    (serve cfg n s v).2 = .hit e ↔ Held s.lru (lookupKey cfg s v.request) e ∧ v.getAt ≤ e.expiresAt := by
  rw [← get_returns h]
  have hlookup : lookup cfg s.lru v.request (lookupKey cfg s v.request) v.getAt =
      Lru.get s.lru (lookupKey cfg s v.request) v.getAt := by
    simp [lookup, hcache]
  simp only [serve, hh, if_true, hlookup]
  cases (Lru.get s.lru (lookupKey cfg s v.request) v.getAt).2 with
  | some e' => simp
  | none => cases v.answer with
    | none => simp
    | some resp => simp

/-- A request whose response is held and fresh is answered from the cache exactly when the last
Vary list stored for its method and path makes the key of that response, or makes a key under
which something else is held and fresh. -/
theorem stored_found_iff {m n : Nat} {w v : Visit} {e : Entry} (hmn : m < n) (hw : vs[m]? = some w)
    (hv : vs[n]? = some v)
    (hstored : (serve cfg m (stateAt cfg maxEntries maxBytes vs m) w).2 = .filled (.entry e))
    (hsame : v.request = w.request) (hcache : requestDirective cfg v.request "no-cache" = false)
    (hheld : Held (stateAt cfg maxEntries maxBytes vs n).lru (finalKey cfg e.source) e)
    (hfresh : v.getAt ≤ e.expiresAt) :
    (∃ e', (serve cfg n (stateAt cfg maxEntries maxBytes vs n) v).2 = .hit e') ↔
      ∃ k names, LastStored cfg maxEntries maxBytes vs n k (memoryKey v.request) names ∧
        (buildKey cfg.table v.request names = finalKey cfg e.source ∨
          ∃ e', Held (stateAt cfg maxEntries maxBytes vs n).lru (buildKey cfg.table v.request names) e' ∧
            v.getAt ≤ e'.expiresAt) := by
  have hn : n ≤ vs.length := (List.getElem?_eq_some_iff.mp hv).1.le
  have hh : handled cfg v.request = true := hsame ▸ (serve_entry hstored).1
  have hrep : Rep (stateAt cfg maxEntries maxBytes vs n).lru := rep_stateAt hn
  have hstores : StoresAt cfg maxEntries maxBytes vs m (memoryKey v.request)
      (varyHeaders e.source.response) := ⟨w, e, hw, hstored, hsame ▸ rfl, rfl⟩
  obtain ⟨k, names, hlast⟩ := exists_lastStored hmn hstores
  have hremembered := (vary_lookup_iff hn).mpr ⟨k, hlast⟩
  have hkey : lookupKey cfg (stateAt cfg maxEntries maxBytes vs n) v.request =
      buildKey cfg.table v.request names := by
    rw [lookupKey, headersFor, hremembered, Option.getD_some]
  simp only [serve_hit_iff hrep hh hcache, hkey]
  constructor
  · rintro ⟨e', he'⟩
    exact ⟨k, names, hlast, .inr ⟨e', he'⟩⟩
  · rintro ⟨k', names', hlast', hfound⟩
    have hremembered' := (vary_lookup_iff hn).mpr ⟨k', hlast'⟩
    obtain rfl := Option.some.inj (hremembered.symm.trans hremembered')
    rcases hfound with hown | hother
    · rw [hown]
      exact ⟨e, hheld, hfresh⟩
    · exact hother

end Run

def asking (query : List (String × String)) : Request := getRequest ⟨"/p", "", query⟩ ⟨[(kName, "x")]⟩

/-- One request twice, and between the two another query of the same path. -/
def queries (vary vary' : String) : List Visit :=
  [visitAt 0 [("a", "1")] ⟨[(kName, "x")]⟩ vary, visitAt 1 [("b", "1")] ⟨[(kName, "x")]⟩ vary',
    visitAt 2 [("a", "1")] ⟨[(kName, "x")]⟩ vary]

def stored (n : Nat) (query : List (String × String)) (vary : String) : Entry :=
  entryOf sampleConfig ⟨n, asking query, varying vary⟩ n

theorem stored_found_same_vary : ∃ e, (serve sampleConfig 2 (stateAt sampleConfig 8 100 (queries "k" "k") 2)
    (visitAt 2 [("a", "1")] ⟨[(kName, "x")]⟩ "k")).2 = .hit e := by
  have hheld : Held (stateAt sampleConfig 8 100 (queries "k" "k") 2).lru
      (finalKey sampleConfig (stored 0 [("a", "1")] "k").source) (stored 0 [("a", "1")] "k") := by
    decide +kernel
  have hlast : LastStored sampleConfig 8 100 (queries "k" "k") 2 1 "GET /p" ["k"] := by
    refine ⟨by decide, ⟨_, stored 1 [("b", "1")] "k", rfl, by decide +kernel, by decide, by decide⟩, ?_⟩
    intro j names hkj hj
    omega
  have hfirst : (queries "k" "k")[0]? = some (visitAt 0 [("a", "1")] ⟨[(kName, "x")]⟩ "k") := rfl
  have hthird : (queries "k" "k")[2]? = some (visitAt 2 [("a", "1")] ⟨[(kName, "x")]⟩ "k") := rfl
  exact (stored_found_iff (by decide) hfirst hthird (by decide +kernel) rfl (by decide) hheld
    (by decide)).mpr ⟨1, ["k"], hlast, .inl (by decide +kernel)⟩

/-- The answer to the other query does not vary: the third visit looks without the header, finds
nothing and calls the upstream, while the answer to the first is held and fresh. -/
theorem stored_lost :
    (serve sampleConfig 0 (stateAt sampleConfig 8 100 (queries "k" "") 0)
        (visitAt 0 [("a", "1")] ⟨[(kName, "x")]⟩ "k")).2 = .filled (.entry (stored 0 [("a", "1")] "k")) ∧
      Held (stateAt sampleConfig 8 100 (queries "k" "") 2).lru
        (finalKey sampleConfig (stored 0 [("a", "1")] "k").source) (stored 0 [("a", "1")] "k") ∧
      2 ≤ (stored 0 [("a", "1")] "k").expiresAt ∧
      requestDirective sampleConfig (asking [("a", "1")]) "no-cache" = false ∧
      (serve sampleConfig 2 (stateAt sampleConfig 8 100 (queries "k" "") 2)
        (visitAt 2 [("a", "1")] ⟨[(kName, "x")]⟩ "k")).2 =
          .filled (.entry (stored 2 [("a", "1")] "k")) := by
  decide +kernel

end ApiGateway.VaryMemory
