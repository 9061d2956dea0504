import ApiGateway.CacheServe
import ApiGateway.Runs
import ApiGateway.Tables
import Mathlib.Tactic.IntervalCases

/-!
# The cache middleware under concurrency

Any number of requests through `Cache` of `internal/middleware/cache.go`, each taking its
own steps between those of the others: it reads the Vary memory and builds its key, asks
the LRU, enters the singleflight group, and, if it leads a call, gets the handler's answer,
records the Vary list, stores the entry and ends the call. Each step is one critical
section of the source, of the LRU, of the Vary memory or of the group.

Of `golang.org/x/sync/singleflight` it is assumed that a caller whose key has a call in
flight waits for it and receives its result, and that the others lead a call of their
own. A call is named after the request that leads it. If the handler panics, so do all
the callers. A request keeps the Vary list its key was built with; the source keeps only
the key.
-/

namespace ApiGateway.CacheFlights

open Strings Http Lru CacheControl CacheKey CacheServe Runs Tables
set_option autoImplicit false

inductive Pc where
  | arrived
  | passed
  | keyed
  | missed
  | leading
  | captured (c : Captured)
  | recorded (c : Captured)
  | filled (res : SfResult)
  | waiting (leader : Nat)
  | replied (res : SfResult)
  | panicked
  deriving DecidableEq

structure Proc where
  request : Request
  names : List String
  pc : Pc
  deriving DecidableEq

/-- The shared cache, the calls in flight by key, and the requests by number. -/
structure State where
  cache : CacheServe.State
  calls : AList fun _ : String => Nat
  procs : Nat → Option Proc

inductive Event where
  | arrive (i : Nat) (r : Request)
  | headersFor (i : Nat)
  | get (i : Nat) (now : Int)
  | enter (i : Nat)
  | answer (i : Nat) (resp : Response)
  | panic (i : Nat)
  | record (i : Nat)
  | set (i : Nat) (now : Int)
  | finish (i : Nat)
  | reply (i : Nat)
  deriving DecidableEq

def start (maxEntries maxBytes : Int) : State := ⟨newState maxEntries maxBytes, ∅, fun _ => none⟩

def keyOf (cfg : CacheConfig) (p : Proc) : String := buildKey cfg.table p.request p.names

def put (s : State) (i : Nat) (p : Proc) : State := {s with procs := Function.update s.procs i (some p)}

def step (cfg : CacheConfig) (s : State) : Event → Option State
  | .arrive i r =>
    match s.procs i with
    | none => some (put s i ⟨r, [], if handled cfg r then .arrived else .passed⟩)
    | some _ => none
  | .headersFor i =>
    match s.procs i with
    | some ⟨r, _, .arrived⟩ => some (put s i ⟨r, headersFor s.cache r, .keyed⟩)
    | _ => none
  | .get i now =>
    match s.procs i with
    | some ⟨r, names, .keyed⟩ =>
      let found := lookup cfg s.cache.lru r (buildKey cfg.table r names) now
      let s := {s with cache := {s.cache with lru := found.1}}
      match found.2 with
      | some e => some (put s i ⟨r, names, .replied (.entry e)⟩)
      | none => some (put s i ⟨r, names, .missed⟩)
    | _ => none
  | .enter i =>
    match s.procs i with
    | some ⟨r, names, .missed⟩ =>
      match s.calls.lookup (buildKey cfg.table r names) with
      | some j => some (put s i ⟨r, names, .waiting j⟩)
      | none =>
        some (put {s with calls := s.calls.insert (buildKey cfg.table r names) i} i ⟨r, names, .leading⟩)
    | _ => none
  | .answer i resp =>
    match s.procs i with
    | some ⟨r, names, .leading⟩ =>
      if cacheable cfg ⟨i, r, resp⟩ then some (put s i ⟨r, names, .captured ⟨i, r, resp⟩⟩)
      else some (put s i ⟨r, names, .filled (.raw ⟨i, r, resp⟩)⟩)
    | _ => none
  | .panic i =>
    match s.procs i with
    | some ⟨r, names, .leading⟩ =>
      some (put {s with calls := s.calls.erase (buildKey cfg.table r names)} i ⟨r, names, .panicked⟩)
    | _ => none
  | .record i =>
    match s.procs i with
    | some ⟨r, names, .captured c⟩ =>
      some (put {s with cache := CacheServe.record s.cache c.request (varyHeaders c.response)} i
        ⟨r, names, .recorded c⟩)
    | _ => none
  | .set i now =>
    match s.procs i with
    | some ⟨r, names, .recorded c⟩ =>
      let e := entryOf cfg c now
      some (put {s with cache := {s.cache with lru := Lru.set s.cache.lru (finalKey cfg c) e}} i
        ⟨r, names, .filled (.entry e)⟩)
    | _ => none
  | .finish i =>
    match s.procs i with
    | some ⟨r, names, .filled res⟩ =>
      some (put {s with calls := s.calls.erase (buildKey cfg.table r names)} i ⟨r, names, .replied res⟩)
    | _ => none
  | .reply i =>
    match s.procs i with
    | some ⟨r, names, .waiting j⟩ =>
      match s.procs j with
      | some ⟨_, _, .replied res⟩ => some (put s i ⟨r, names, .replied res⟩)
      | some ⟨_, _, .panicked⟩ => some (put s i ⟨r, names, .panicked⟩)
      | _ => none
    | _ => none

inductive Step (cfg : CacheConfig) (s : State) : Event → State → Prop
  | arrive {i : Nat} {r : Request} (hi : s.procs i = none) :
    Step cfg s (.arrive i r) (put s i ⟨r, [], if handled cfg r then .arrived else .passed⟩)
  | headersFor {i : Nat} {r : Request} {names : List String}
    (hi : s.procs i = some ⟨r, names, .arrived⟩) :
    Step cfg s (.headersFor i) (put s i ⟨r, headersFor s.cache r, .keyed⟩)
  | hit {i : Nat} {now : Int} {r : Request} {names : List String} {lru : LRU} {e : Entry}
    (hi : s.procs i = some ⟨r, names, .keyed⟩)
    (hl : lookup cfg s.cache.lru r (buildKey cfg.table r names) now = (lru, some e)) :
    Step cfg s (.get i now)
      (put {s with cache := {s.cache with lru := lru}} i ⟨r, names, .replied (.entry e)⟩)
  | miss {i : Nat} {now : Int} {r : Request} {names : List String} {lru : LRU}
    (hi : s.procs i = some ⟨r, names, .keyed⟩)
    (hl : lookup cfg s.cache.lru r (buildKey cfg.table r names) now = (lru, none)) :
    Step cfg s (.get i now) (put {s with cache := {s.cache with lru := lru}} i ⟨r, names, .missed⟩)
  | join {i j : Nat} {r : Request} {names : List String} (hi : s.procs i = some ⟨r, names, .missed⟩)
    (hj : s.calls.lookup (buildKey cfg.table r names) = some j) :
    Step cfg s (.enter i) (put s i ⟨r, names, .waiting j⟩)
  | lead {i : Nat} {r : Request} {names : List String} (hi : s.procs i = some ⟨r, names, .missed⟩)
    (hj : s.calls.lookup (buildKey cfg.table r names) = none) :
    Step cfg s (.enter i)
      (put {s with calls := s.calls.insert (buildKey cfg.table r names) i} i ⟨r, names, .leading⟩)
  | capture {i : Nat} {resp : Response} {r : Request} {names : List String}
    (hi : s.procs i = some ⟨r, names, .leading⟩) (hc : cacheable cfg ⟨i, r, resp⟩ = true) :
    Step cfg s (.answer i resp) (put s i ⟨r, names, .captured ⟨i, r, resp⟩⟩)
  | refuse {i : Nat} {resp : Response} {r : Request} {names : List String}
    (hi : s.procs i = some ⟨r, names, .leading⟩) (hc : cacheable cfg ⟨i, r, resp⟩ = false) :
    Step cfg s (.answer i resp) (put s i ⟨r, names, .filled (.raw ⟨i, r, resp⟩)⟩)
  | panic {i : Nat} {r : Request} {names : List String} (hi : s.procs i = some ⟨r, names, .leading⟩) :
    Step cfg s (.panic i)
      (put {s with calls := s.calls.erase (buildKey cfg.table r names)} i ⟨r, names, .panicked⟩)
  | record {i : Nat} {r : Request} {names : List String} {c : Captured}
    (hi : s.procs i = some ⟨r, names, .captured c⟩) :
    Step cfg s (.record i)
      (put {s with cache := CacheServe.record s.cache c.request (varyHeaders c.response)} i
        ⟨r, names, .recorded c⟩)
  | set {i : Nat} {now : Int} {r : Request} {names : List String} {c : Captured}
    (hi : s.procs i = some ⟨r, names, .recorded c⟩) :
    Step cfg s (.set i now)
      (put {s with cache := {s.cache with
          lru := Lru.set s.cache.lru (finalKey cfg c) (entryOf cfg c now)}} i
        ⟨r, names, .filled (.entry (entryOf cfg c now))⟩)
  | finish {i : Nat} {r : Request} {names : List String} {res : SfResult}
    (hi : s.procs i = some ⟨r, names, .filled res⟩) :
    Step cfg s (.finish i)
      (put {s with calls := s.calls.erase (buildKey cfg.table r names)} i ⟨r, names, .replied res⟩)
  | reply {i j : Nat} {r r' : Request} {names names' : List String} {res : SfResult}
    (hi : s.procs i = some ⟨r, names, .waiting j⟩) (hj : s.procs j = some ⟨r', names', .replied res⟩) :
    Step cfg s (.reply i) (put s i ⟨r, names, .replied res⟩)
  | fall {i j : Nat} {r r' : Request} {names names' : List String}
    (hi : s.procs i = some ⟨r, names, .waiting j⟩) (hj : s.procs j = some ⟨r', names', .panicked⟩) :
    Step cfg s (.reply i) (put s i ⟨r, names, .panicked⟩)

theorem step_cases {cfg : CacheConfig} {s t : State} {e : Event} (h : step cfg s e = some t) :
    Step cfg s e t := by
  cases e with
  | arrive i r =>
    simp only [step] at h
    split at h
    · cases h
      exact .arrive ‹_›
    · cases h
  | headersFor i =>
    simp only [step] at h
    split at h
    · cases h
      exact .headersFor ‹_›
    · cases h
  | get i now =>
    simp only [step] at h
    split at h
    · rename_i r names hi
      cases hl : lookup cfg s.cache.lru r (buildKey cfg.table r names) now with
      | mk lru found =>
        cases found with
        | some e =>
          simp only [hl] at h
          cases h
          exact .hit hi hl
        | none =>
          simp only [hl] at h
          cases h
          exact .miss hi hl
    · cases h
  | enter i =>
    simp only [step] at h
    split at h
    · split at h
      · cases h
        exact .join ‹_› ‹_›
      · cases h
        exact .lead ‹_› ‹_›
    · cases h
  | answer i resp =>
    simp only [step] at h
    split at h
    · split at h
      · cases h
        exact .capture ‹_› ‹_›
      · rename_i hc
        cases h
        exact .refuse ‹_› (Bool.not_eq_true _ ▸ hc)
    · cases h
  | panic i =>
    simp only [step] at h
    split at h
    · cases h
      exact .panic ‹_›
    · cases h
  | record i =>
    simp only [step] at h
    split at h
    · cases h
      exact .record ‹_›
    · cases h
  | set i now =>
    simp only [step] at h
    split at h
    · cases h
      exact .set ‹_›
    · cases h
  | finish i =>
    simp only [step] at h
    split at h
    · cases h
      exact .finish ‹_›
    · cases h
  | reply i =>
    simp only [step] at h
    split at h
    · split at h
      · cases h
        exact .reply ‹_› ‹_›
      · cases h
        exact .fall ‹_› ‹_›
      · cases h
    · cases h

def Pc.response : Pc → Option Captured
  | .captured c => some c
  | .recorded c => some c
  | .filled res => some res.source
  | .replied res => some res.source
  | _ => none

def Pc.leads : Pc → Bool
  | .leading => true
  | .captured _ => true
  | .recorded _ => true
  | .filled _ => true
  | _ => false

/-- A result is an entry exactly if the response it was made from may be stored. -/
def ResultOk (cfg : CacheConfig) : SfResult → Prop
  | .entry e => cacheable cfg e.source = true
  | .raw c => cacheable cfg c = false

def PcOk (cfg : CacheConfig) (i : Nat) (r : Request) : Pc → Prop
  | .captured c => c.origin = i ∧ c.request = r ∧ cacheable cfg c = true
  | .recorded c => c.origin = i ∧ c.request = r ∧ cacheable cfg c = true
  | .filled res => res.source.origin = i ∧ res.source.request = r ∧ ResultOk cfg res
  | .replied res => ResultOk cfg res
  | _ => True

/-- What a request that others wait for has come to: it leads, or its own call has ended. -/
def Led (j : Nat) (r : Request) : Pc → Prop
  | .replied res => res.source.origin = j ∧ res.source.request = r
  | .panicked => True
  | pc => pc.leads = true

/-- What holds of every reachable state, whatever the upstream answers. -/
structure WellFormed (cfg : CacheConfig) (s : State) : Prop where
  entries : Holds (fun key e => cacheable cfg e.source = true ∧ key = finalKey cfg e.source) s.cache.lru
  procs : ∀ i p, s.procs i = some p → PcOk cfg i p.request p.pc
  calls : ∀ key j, s.calls.lookup key = some j →
    ∃ q, s.procs j = some q ∧ keyOf cfg q = key ∧ q.pc.leads = true
  waits : ∀ i p j, s.procs i = some p → p.pc = .waiting j →
    ∃ q, s.procs j = some q ∧ keyOf cfg q = keyOf cfg p ∧ Led j q.request q.pc

theorem led_of_leads {j : Nat} {r : Request} {pc : Pc} (h : pc.leads = true) : Led j r pc := by
  cases pc with
  | replied res => cases h
  | panicked => trivial
  | _ => exact h

theorem put_self (s : State) (i : Nat) (p : Proc) : (put s i p).procs i = some p :=
  Function.update_self ..

theorem put_of_ne (s : State) {i j : Nat} (p : Proc) (h : j ≠ i) : (put s i p).procs j = s.procs j :=
  Function.update_of_ne h ..

theorem put_cases {s : State} {i j : Nat} {p q : Proc} (h : (put s i p).procs j = some q) :
    (j = i ∧ q = p) ∨ (j ≠ i ∧ s.procs j = some q) :=
  update_cases h

def Event.subject : Event → Nat
  | .arrive i _ => i
  | .headersFor i => i
  | .get i _ => i
  | .enter i => i
  | .answer i _ => i
  | .panic i => i
  | .record i => i
  | .set i _ => i
  | .finish i => i
  | .reply i => i

theorem step_frame {cfg : CacheConfig} {s t : State} {e : Event} (hs : Step cfg s e t) {k : Nat}
    (hk : k ≠ e.subject) : t.procs k = s.procs k := by
  cases hs <;> exact put_of_ne _ _ hk

theorem exec_frame {cfg : CacheConfig} {s t : State} {es : List Event} {k : Nat}
    (h : exec (step cfg) s es = some t) (hk : ∀ e ∈ es, k ≠ e.subject) : t.procs k = s.procs k := by
  induction es generalizing s with
  | nil =>
    cases h
    rfl
  | cons e es ih =>
    obtain ⟨s', hstep, hrest⟩ := (exec_cons_iff _).mp h
    rw [ih hrest fun e' he' => hk e' (List.mem_cons_of_mem e he'),
      step_frame (step_cases hstep) (hk e List.mem_cons_self)]

section WellFormed
variable {cfg : CacheConfig} {s : State}

theorem WellFormed.led_of_waiting (h : WellFormed cfg s) {i j : Nat} {p q : Proc}
    (hp : s.procs i = some p) (hw : p.pc = .waiting j) (hq : s.procs j = some q) :
    Led j q.request q.pc := by
  obtain ⟨q', hq', -, hled⟩ := h.waits i p j hp hw
  rw [hq] at hq'
  cases hq'
  exact hled

theorem wellFormed_start (maxEntries maxBytes : Int) : WellFormed cfg (start maxEntries maxBytes) := by
  refine ⟨holds_newLRU maxEntries maxBytes, ?_, ?_, ?_⟩
  · intro i p hp
    cases hp
  · intro key j hj
    cases hj
  · intro i p j hp
    cases hp

/-- One request moves on: what it comes to is in order, who waited for it still may, and a
call it leads it goes on leading. -/
theorem wellFormed_put {i : Nat} {r : Request} {names : List String} {pc : Pc} (h : WellFormed cfg s)
    (hok : PcOk cfg i r pc)
    (hled : ∀ q, s.procs i = some q → Led i q.request q.pc →
      q.request = r ∧ q.names = names ∧ Led i r pc)
    (hcalls : ∀ key, s.calls.lookup key = some i → pc.leads = true)
    (hwait : ∀ j, pc = .waiting j → ∃ q, s.procs j = some q ∧
      keyOf cfg q = buildKey cfg.table r names ∧ Led j q.request q.pc) :
    WellFormed cfg (put s i ⟨r, names, pc⟩) := by
  have hkept (key : String) (j : Nat) (q : Proc) (hq : s.procs j = some q) (hkey : keyOf cfg q = key)
      (hl : Led j q.request q.pc) : ∃ q', (put s i ⟨r, names, pc⟩).procs j = some q' ∧
        keyOf cfg q' = key ∧ Led j q'.request q'.pc := by
    by_cases hji : j = i
    · subst hji
      obtain ⟨rfl, rfl, hl'⟩ := hled q hq hl
      exact ⟨_, put_self .., hkey, hl'⟩
    · exact ⟨q, (put_of_ne s _ hji).trans hq, hkey, hl⟩
  refine ⟨h.entries, ?_, ?_, ?_⟩
  · intro j p hp
    rcases put_cases hp with ⟨rfl, rfl⟩ | ⟨-, hp⟩
    · exact hok
    · exact h.procs j p hp
  · intro key j hj
    obtain ⟨q, hq, hkey, hleads⟩ := h.calls key j hj
    by_cases hji : j = i
    · subst hji
      obtain ⟨rfl, rfl, -⟩ := hled q hq (led_of_leads hleads)
      exact ⟨_, put_self .., hkey, hcalls key hj⟩
    · exact ⟨q, (put_of_ne s _ hji).trans hq, hkey, hleads⟩
  · intro k p j hp hw
    rcases put_cases hp with ⟨rfl, rfl⟩ | ⟨-, hp⟩
    · obtain ⟨q, hq, hkey, hl⟩ := hwait j hw
      exact hkept _ j q hq hkey hl
    · obtain ⟨q, hq, hkey, hl⟩ := h.waits k p j hp hw
      exact hkept _ j q hq hkey hl

theorem WellFormed.withCache (h : WellFormed cfg s) {cache : CacheServe.State}
    (hentries : Holds (fun key e => cacheable cfg e.source = true ∧ key = finalKey cfg e.source)
      cache.lru) : WellFormed cfg {s with cache := cache} :=
  ⟨hentries, h.procs, h.calls, h.waits⟩

theorem lookup_erase_some {calls : AList fun _ : String => Nat} {key key' : String} {j : Nat}
    (h : (calls.erase key).lookup key' = some j) : key' ≠ key ∧ calls.lookup key' = some j := by
  by_cases hk : key' = key
  · subst hk
    rw [AList.lookup_erase] at h
    cases h
  · rw [AList.lookup_erase_ne hk] at h
    exact ⟨hk, h⟩

theorem WellFormed.eraseCall (h : WellFormed cfg s) (key : String) :
    WellFormed cfg {s with calls := s.calls.erase key} :=
  ⟨h.entries, h.procs, fun key' j hj => h.calls key' j (lookup_erase_some hj).2, h.waits⟩

theorem WellFormed.insertCall (h : WellFormed cfg s) {i : Nat} {q : Proc} {key : String}
    (hq : s.procs i = some q) (hkey : keyOf cfg q = key) (hleads : q.pc.leads = true) :
    WellFormed cfg {s with calls := s.calls.insert key i} := by
  refine ⟨h.entries, h.procs, ?_, h.waits⟩
  intro key' j hj
  by_cases hk : key' = key
  · subst hk
    rw [AList.lookup_insert] at hj
    cases hj
    exact ⟨q, hq, hkey, hleads⟩
  · rw [AList.lookup_insert_ne hk] at hj
    exact h.calls key' j hj

theorem WellFormed.not_called_of_ne (h : WellFormed cfg s) {i : Nat} {p : Proc}
    (hp : s.procs i = some p) {key : String} (hkey : key ≠ keyOf cfg p) :
    s.calls.lookup key ≠ some i := by
  intro hcall
  obtain ⟨q, hq, hqkey, -⟩ := h.calls key i hcall
  rw [hp] at hq
  cases hq
  exact hkey hqkey.symm

theorem wellFormed_put_free {i : Nat} {r : Request} {names : List String} {pc : Pc}
    (h : WellFormed cfg s) {p : Proc} (hp : s.procs i = some p) (hfree : ¬ Led i p.request p.pc)
    (hok : PcOk cfg i r pc)
    (hwait : ∀ j, pc = .waiting j → ∃ q, s.procs j = some q ∧
      keyOf cfg q = buildKey cfg.table r names ∧ Led j q.request q.pc) :
    WellFormed cfg (put s i ⟨r, names, pc⟩) := by
  refine wellFormed_put h hok ?_ ?_ hwait
  · intro q hq hl
    rw [hp] at hq
    cases hq
    exact absurd hl hfree
  · intro key hcall
    obtain ⟨q, hq, -, hleads⟩ := h.calls key i hcall
    rw [hp] at hq
    cases hq
    exact absurd (led_of_leads hleads) hfree

theorem wellFormed_put_led {i : Nat} {r : Request} {names : List String} {pc pc' : Pc}
    (h : WellFormed cfg s) (hi : s.procs i = some ⟨r, names, pc⟩) (hok : PcOk cfg i r pc')
    (hled : Led i r pc') (hcalls : ∀ key, s.calls.lookup key = some i → pc'.leads = true) :
    WellFormed cfg (put s i ⟨r, names, pc'⟩) := by
  refine wellFormed_put h hok ?_ hcalls ?_
  · intro q hq _
    rw [hi] at hq
    cases hq
    exact ⟨rfl, rfl, hled⟩
  · rintro j rfl
    cases hled

theorem wellFormed_step {e : Event} {t : State} (h : WellFormed cfg s) (hs : Step cfg s e t) :
    WellFormed cfg t := by
  cases hs with
  | @arrive i r hi =>
    refine wellFormed_put h ?_ ?_ ?_ ?_
    · split <;> trivial
    · intro q hq
      rw [hi] at hq
      cases hq
    · intro key hcall
      obtain ⟨q, hq, -⟩ := h.calls key i hcall
      rw [hi] at hq
      cases hq
    · intro j hj
      split at hj <;> cases hj
  | headersFor hi => exact wellFormed_put_free h hi nofun trivial nofun
  | @hit i now r names lru e hi hl =>
    obtain ⟨⟨hcache, -⟩, -⟩ := lookup_some h.entries (congrArg Prod.snd hl)
    exact wellFormed_put_free (h.withCache (holds_lookup h.entries hl)) hi nofun hcache nofun
  | @miss i now r names lru hi hl =>
    exact wellFormed_put_free (h.withCache (holds_lookup h.entries hl)) hi nofun trivial nofun
  | @join i j r names hi hj =>
    refine wellFormed_put_free h hi nofun trivial ?_
    rintro _ ⟨⟩
    obtain ⟨q, hq, hkey, hleads⟩ := h.calls _ _ hj
    exact ⟨q, hq, hkey, led_of_leads hleads⟩
  | @lead i r names hi hj =>
    have hput : WellFormed cfg (put s i ⟨r, names, .leading⟩) :=
      wellFormed_put_free h hi nofun trivial nofun
    exact hput.insertCall (put_self s i ⟨r, names, .leading⟩) rfl rfl
  | capture hi hc => exact wellFormed_put_led h hi ⟨rfl, rfl, hc⟩ rfl fun _ _ => rfl
  | refuse hi hc => exact wellFormed_put_led h hi ⟨rfl, rfl, hc⟩ rfl fun _ _ => rfl
  | panic hi =>
    refine wellFormed_put_led (h.eraseCall _) hi trivial trivial ?_
    intro key hcall
    obtain ⟨hne, hcall⟩ := lookup_erase_some hcall
    exact absurd hcall (h.not_called_of_ne hi hne)
  | record hi =>
    exact wellFormed_put_led (h.withCache h.entries) hi (h.procs _ _ hi) rfl fun _ _ => rfl
  | @set i now r names c hi =>
    obtain ⟨horigin, hrequest, hc⟩ := h.procs _ _ hi
    have hheld : Holds (fun key e => cacheable cfg e.source = true ∧ key = finalKey cfg e.source)
        (Lru.set s.cache.lru (finalKey cfg c) (entryOf cfg c now)) := holds_set h.entries ⟨hc, rfl⟩
    exact wellFormed_put_led (h.withCache hheld) hi ⟨horigin, hrequest, hc⟩ rfl fun _ _ => rfl
  | finish hi =>
    obtain ⟨horigin, hrequest, hres⟩ := h.procs _ _ hi
    refine wellFormed_put_led (h.eraseCall _) hi hres ⟨horigin, hrequest⟩ ?_
    intro key hcall
    obtain ⟨hne, hcall⟩ := lookup_erase_some hcall
    exact absurd hcall (h.not_called_of_ne hi hne)
  | reply hi hj => exact wellFormed_put_free h hi nofun (h.procs _ _ hj) nofun
  | fall hi hj => exact wellFormed_put_free h hi nofun trivial nofun

end WellFormed

/-- Whoever waits for a call that holds a response waits for one that satisfies `R`, given the
request that leads the call and the list its key was built with. -/
def WaitsFor (R : Request → List String → Captured → Prop) (procs : Nat → Option Proc) : Prop :=
  ∀ i p j q c, procs i = some p → p.pc = .waiting j → procs j = some q →
    q.pc.response = some c → R q.request q.names c

/-- The two ways to come to wait for a response: it arrives while somebody waits, and somebody
joins once it is there. In both it has to satisfy `R`. -/
def Guarded (cfg : CacheConfig) (R : Request → List String → Captured → Prop) (s : State) :
    Event → Prop
  | .answer i resp => ∀ p, s.procs i = some p → R p.request p.names ⟨i, p.request, resp⟩ ∨
      ∀ k q, s.procs k = some q → q.pc ≠ .waiting i
  | .enter i => ∀ p j q c, s.procs i = some p → s.calls.lookup (keyOf cfg p) = some j →
      s.procs j = some q → q.pc.response = some c → R q.request q.names c
  | _ => True

section Waiting
variable {cfg : CacheConfig} {R : Request → List String → Captured → Prop} {s : State}

theorem waitsFor_start (maxEntries maxBytes : Int) :
    WaitsFor R (start maxEntries maxBytes).procs := by
  intro i p j q c hp
  cases hp

/-- One request moves on; only what it now holds and whom it now waits for is new. -/
theorem waitsFor_put {i : Nat} {p : Proc} (h : WaitsFor R s.procs)
    (hheld : ∀ c, p.pc.response = some c → (∃ k q, s.procs k = some q ∧ q.pc = .waiting i) →
      R p.request p.names c)
    (hwait : ∀ j q c, p.pc = .waiting j → s.procs j = some q → q.pc.response = some c →
      R q.request q.names c) : WaitsFor R (put s i p).procs := by
  intro k x j q c hx hw hq hc
  rcases put_cases hx with ⟨rfl, rfl⟩ | ⟨-, hx'⟩
  · rcases put_cases hq with ⟨rfl, rfl⟩ | ⟨-, hq'⟩
    · rw [hw] at hc
      cases hc
    · exact hwait j q c hw hq' hc
  · rcases put_cases hq with ⟨rfl, rfl⟩ | ⟨-, hq'⟩
    · exact hheld c hc ⟨k, x, hx', hw⟩
    · exact h k x j q c hx' hw hq' hc

theorem waitsFor_put_free {i : Nat} {p p' : Proc} (hwf : WellFormed cfg s) (h : WaitsFor R s.procs)
    (hp : s.procs i = some p) (hfree : ¬ Led i p.request p.pc) (hwait : ∀ j, p'.pc ≠ .waiting j) :
    WaitsFor R (put s i p').procs := by
  refine waitsFor_put h ?_ ?_
  · rintro c - ⟨k, q, hq, hw⟩
    exact absurd (hwf.led_of_waiting hq hw hp) hfree
  · intro j q c hw
    exact absurd hw (hwait j)

theorem waitsFor_put_same {i : Nat} {r : Request} {names : List String} {pc pc' : Pc}
    (h : WaitsFor R s.procs) (hi : s.procs i = some ⟨r, names, pc⟩)
    (hsame : ∀ c, pc'.response = some c → pc.response = some c) (hwait : ∀ j, pc' ≠ .waiting j) :
    WaitsFor R (put s i ⟨r, names, pc'⟩).procs := by
  refine waitsFor_put h ?_ ?_
  · rintro c hc ⟨k, q, hq, hw⟩
    exact h k q i ⟨r, names, pc⟩ c hq hw hi (hsame c hc)
  · intro j q c hw
    exact absurd hw (hwait j)

theorem waitsFor_step {e : Event} {t : State} (hwf : WellFormed cfg s) (h : WaitsFor R s.procs)
    (hg : Guarded cfg R s e) (hs : Step cfg s e t) : WaitsFor R t.procs := by
  have harrives {i : Nat} {r : Request} {names : List String} {resp : Response}
      (hi : s.procs i = some ⟨r, names, .leading⟩) (hg : Guarded cfg R s (.answer i resp))
      (hw : ∃ k q, s.procs k = some q ∧ q.pc = .waiting i) : R r names ⟨i, r, resp⟩ := by
    obtain ⟨k, q, hq, hw⟩ := hw
    rcases hg _ hi with hR | hnone
    · exact hR
    · exact absurd hw (hnone k q hq)
  cases hs with
  | @arrive i r hi =>
    refine waitsFor_put h ?_ ?_
    · intro c hc
      split at hc <;> cases hc
    · intro j q c hw
      split at hw <;> cases hw
  | headersFor hi => exact waitsFor_put_free hwf h hi nofun nofun
  | @hit i _ r names _ e hi _ =>
    have hput : WaitsFor R (put s i ⟨r, names, .replied (.entry e)⟩).procs :=
      waitsFor_put_free hwf h hi nofun nofun
    exact hput
  | @miss i _ r names _ hi _ =>
    have hput : WaitsFor R (put s i ⟨r, names, .missed⟩).procs := waitsFor_put_free hwf h hi nofun nofun
    exact hput
  | @join i j r names hi hj =>
    refine waitsFor_put h nofun ?_
    rintro _ q c ⟨⟩ hq hc
    exact hg _ _ q c hi hj hq hc
  | @lead i r names hi _ =>
    have hput : WaitsFor R (put s i ⟨r, names, .leading⟩).procs :=
      waitsFor_put_free hwf h hi nofun nofun
    exact hput
  | @capture i resp r names hi _ =>
    refine waitsFor_put h ?_ ?_
    · rintro _ ⟨⟩ hw
      exact harrives hi hg hw
    · rintro j q c ⟨⟩
  | @refuse i resp r names hi _ =>
    refine waitsFor_put h ?_ ?_
    · rintro _ ⟨⟩ hw
      exact harrives hi hg hw
    · rintro j q c ⟨⟩
  | @panic i r names hi =>
    have hput : WaitsFor R (put s i ⟨r, names, .panicked⟩).procs := waitsFor_put_same h hi nofun nofun
    exact hput
  | @record i r names c hi =>
    have hput : WaitsFor R (put s i ⟨r, names, .recorded c⟩).procs :=
      waitsFor_put_same h hi (fun _ hc => hc) nofun
    exact hput
  | @set i now r names c hi =>
    have hput : WaitsFor R (put s i ⟨r, names, .filled (.entry (entryOf cfg c now))⟩).procs :=
      waitsFor_put_same h hi (fun _ hc => hc) nofun
    exact hput
  | @finish i r names res hi =>
    have hput : WaitsFor R (put s i ⟨r, names, .replied res⟩).procs :=
      waitsFor_put_same h hi (fun _ hc => hc) nofun
    exact hput
  | reply hi hj => exact waitsFor_put_free hwf h hi nofun nofun
  | fall hi hj => exact waitsFor_put_free hwf h hi nofun nofun

end Waiting

section Sequential
variable {cfg : CacheConfig}

theorem put_put (s : State) (i : Nat) (p q : Proc) : put (put s i p) i q = put s i q := by
  simp [put]

theorem put_mk (s : State) (cache : CacheServe.State) (calls : AList fun _ : String => Nat) (i : Nat)
    (p q : Proc) : put ⟨cache, calls, (put s i p).procs⟩ i q = put ⟨cache, calls, s.procs⟩ i q := by
  simp [put]

theorem put_cache (s : State) (i : Nat) (p : Proc) : (put s i p).cache = s.cache := rfl

theorem put_calls (s : State) (i : Nat) (p : Proc) : (put s i p).calls = s.calls := rfl

/-- No call is in flight, and the requests from number `n` on have not arrived. -/
structure Quiet (n : Nat) (s : State) : Prop where
  calls : ∀ key, s.calls.lookup key = none
  procs : ∀ i, n ≤ i → s.procs i = none

theorem quiet_put {n : Nat} {s : State} (h : Quiet n s) {calls : AList fun _ : String => Nat}
    {cache : CacheServe.State} (hcalls : ∀ key, calls.lookup key = none) (p : Proc) :
    Quiet (n + 1) (put ⟨cache, calls, s.procs⟩ n p) := by
  refine ⟨hcalls, ?_⟩
  intro i hi
  rw [put_of_ne _ _ (by omega)]
  exact h.procs i (by omega)

theorem lookup_insert_erase {calls : AList fun _ : String => Nat} (h : ∀ key, calls.lookup key = none)
    (key : String) (i : Nat) : ∀ key', ((calls.insert key i).erase key).lookup key' = none := by
  intro key'
  by_cases hk : key' = key
  · rw [hk, AList.lookup_erase]
  · rw [AList.lookup_erase_ne hk, AList.lookup_insert_ne hk, h]

def alone (i : Nat) (v : Visit) : Reply → List Event
  | .passed _ => [.arrive i v.request]
  | .hit _ => [.arrive i v.request, .headersFor i, .get i v.getAt]
  | .panicked => [.arrive i v.request, .headersFor i, .get i v.getAt, .enter i, .panic i]
  | .filled (.raw c) =>
    [.arrive i v.request, .headersFor i, .get i v.getAt, .enter i, .answer i c.response, .finish i]
  | .filled (.entry e) =>
    [.arrive i v.request, .headersFor i, .get i v.getAt, .enter i, .answer i e.source.response,
      .record i, .set i v.setAt, .finish i]

theorem exec_alone {n : Nat} {s : State} {v : Visit} {cache : CacheServe.State} {reply : Reply}
    (hq : Quiet n s) (hs : Serves cfg n s.cache v cache reply) :
    ∃ t, exec (step cfg) s (alone n v reply) = some t ∧ t.cache = cache ∧ Quiet (n + 1) t := by
  have hnone : s.procs n = none := hq.procs n (le_refl n)
  have hcalls := hq.calls (lookupKey cfg s.cache v.request)
  have herase := lookup_insert_erase hq.calls (lookupKey cfg s.cache v.request) n
  unfold lookupKey at hcalls herase
  cases hs with
  | passed hh =>
    refine ⟨put s n ⟨v.request, [], .passed⟩, ?_, rfl, quiet_put hq hq.calls _⟩
    simp [alone, exec, step, hnone, hh]
  | @hit lru e hh hl =>
    refine ⟨put ⟨⟨lru, s.cache.vary⟩, s.calls, s.procs⟩ n
      ⟨v.request, headersFor s.cache v.request, .replied (.entry e)⟩, ?_, rfl, quiet_put hq hq.calls _⟩
    unfold lookupKey at hl
    simp only [alone, exec, step, hnone, hh, put_self, Option.bind_some, if_true, put_put, put_mk,
      put_cache, put_calls, hl]
  | @panicked lru hh hl ha =>
    refine ⟨put ⟨⟨lru, s.cache.vary⟩, _, s.procs⟩ n
      ⟨v.request, headersFor s.cache v.request, .panicked⟩, ?_, rfl, quiet_put hq herase _⟩
    unfold lookupKey at hl
    simp only [alone, exec, step, hnone, hh, put_self, Option.bind_some, if_true, put_put, put_mk,
      put_cache, put_calls, hl, hcalls]
  | @raw lru resp hh hl ha hc =>
    refine ⟨put ⟨⟨lru, s.cache.vary⟩, _, s.procs⟩ n
      ⟨v.request, headersFor s.cache v.request, .replied (.raw ⟨n, v.request, resp⟩)⟩, ?_, rfl,
      quiet_put hq herase _⟩
    unfold lookupKey at hl
    simp only [alone, exec, step, hnone, hh, put_self, Option.bind_some, if_true, put_put, put_mk,
      put_cache, put_calls, hl, hcalls, hc, Bool.false_eq_true, if_false]
  | @stored lru resp hh hl ha hc =>
    refine ⟨put ⟨⟨_, _⟩, _, s.procs⟩ n
      ⟨v.request, headersFor s.cache v.request,
        .replied (.entry (entryOf cfg ⟨n, v.request, resp⟩ v.setAt))⟩, ?_, rfl,
      quiet_put hq herase _⟩
    unfold lookupKey at hl
    simp only [alone, exec, step, hnone, hh, put_self, Option.bind_some, if_true, put_put, put_mk,
      put_cache, put_calls, hl, hcalls, hc, entryOf, CacheServe.record]

/-- A sequential run is a run of the machine. -/
theorem exec_sequential {n : Nat} {s : State} (hq : Quiet n s) (vs : List Visit) :
    ∃ es t, exec (step cfg) s es = some t ∧ t.cache = runFrom cfg n s.cache vs ∧
      Quiet (n + vs.length) t := by
  induction vs generalizing n s with
  | nil => exact ⟨[], s, rfl, rfl, hq⟩
  | cons v vs ih =>
    obtain ⟨t, ht, hcache, hq'⟩ := exec_alone hq (serve_serves cfg n s.cache v)
    obtain ⟨es, u, hu, hrun, hq''⟩ := ih hq'
    refine ⟨_ ++ es, u, (exec_append_iff _).mpr ⟨t, ht, hu⟩, ?_, ?_⟩
    · rw [hrun, hcache]
      rfl
    · rwa [List.length_cons, Nat.add_comm vs.length, ← Nat.add_assoc]

end Sequential

/-- A response that may not be stored was delivered to nobody but the request that fetched it. -/
def Unshared (cfg : CacheConfig) (s : State) : Prop :=
  ∀ i p res, s.procs i = some p → p.pc = .replied res → cacheable cfg res.source = false →
    res.source.origin = i

section Unshared
variable {cfg : CacheConfig} {s : State}

theorem unshared_update {t : State} {i : Nat} {p : Proc} (h : Unshared cfg s)
    (ht : t.procs = Function.update s.procs i (some p))
    (hnew : ∀ res, p.pc = .replied res → cacheable cfg res.source = false → res.source.origin = i) :
    Unshared cfg t := by
  intro k q res hk hq
  rw [ht] at hk
  rcases update_cases hk with ⟨rfl, rfl⟩ | ⟨_, hold⟩
  · exact hnew res hq
  · exact h k q res hold hq

theorem unshared_silent {t : State} {i : Nat} {p : Proc} (h : Unshared cfg s)
    (ht : t.procs = Function.update s.procs i (some p)) (hpc : ∀ res, p.pc ≠ .replied res) :
    Unshared cfg t :=
  unshared_update h ht fun res hres => absurd hres (hpc res)

theorem unshared_start (maxEntries maxBytes : Int) : Unshared cfg (start maxEntries maxBytes) := by
  intro i p res hp
  cases hp

theorem unshared_step {e : Event} {t : State} (hwf : WellFormed cfg s)
    (hwaits : WaitsFor (fun _ _ c => cacheable cfg c = true) s.procs) (h : Unshared cfg s)
    (hs : Step cfg s e t) : Unshared cfg t := by
  cases hs with
  | arrive hi =>
    refine unshared_update h rfl ?_
    intro res hres
    split at hres <;> cases hres
  | headersFor hi => exact unshared_silent h rfl fun _ hpc => by cases hpc
  | hit hi hl =>
    refine unshared_update h rfl ?_
    rintro _ ⟨⟩ hc
    obtain ⟨⟨hcache, -⟩, -⟩ := lookup_some hwf.entries (congrArg Prod.snd hl)
    exact absurd (hcache.symm.trans hc) nofun
  | miss hi hl => exact unshared_silent h rfl fun _ hpc => by cases hpc
  | join hi hj => exact unshared_silent h rfl fun _ hpc => by cases hpc
  | lead hi hj => exact unshared_silent h rfl fun _ hpc => by cases hpc
  | capture hi hc => exact unshared_silent h rfl fun _ hpc => by cases hpc
  | refuse hi hc => exact unshared_silent h rfl fun _ hpc => by cases hpc
  | panic hi => exact unshared_silent h rfl fun _ hpc => by cases hpc
  | record hi => exact unshared_silent h rfl fun _ hpc => by cases hpc
  | set hi => exact unshared_silent h rfl fun _ hpc => by cases hpc
  | finish hi =>
    refine unshared_update h rfl ?_
    rintro _ ⟨⟩ -
    exact (hwf.procs _ _ hi).1
  | reply hi hj =>
    refine unshared_update h rfl ?_
    rintro _ ⟨⟩ hc
    exact absurd ((hwaits _ _ _ _ _ hi rfl hj rfl).symm.trans hc) nofun
  | fall hi hj => exact unshared_silent h rfl fun _ hpc => by cases hpc

/-- Over any interleaving in which no response that may not be stored arrives while somebody
waits for it, and nobody joins a call that holds one, such a response is delivered only to
the request that fetched it. -/
theorem unshared_of_guarded {maxEntries maxBytes : Int} {es : List Event}
    (hok : StepsMeet (step cfg) (Guarded cfg fun _ _ c => cacheable cfg c = true)
      (start maxEntries maxBytes) es) :
    ∀ s, Visits (step cfg) (start maxEntries maxBytes) es s → Unshared cfg s := by
  intro s hv
  have hinv : WellFormed cfg s ∧ WaitsFor (fun _ _ c => cacheable cfg c = true) s.procs ∧
      Unshared cfg s := by
    refine visits_invariant (step cfg) (fun s => WellFormed cfg s ∧
      WaitsFor (fun _ _ c => cacheable cfg c = true) s.procs ∧ Unshared cfg s) ?_
      ⟨wellFormed_start maxEntries maxBytes, waitsFor_start maxEntries maxBytes,
        unshared_start maxEntries maxBytes⟩ hok hv
    rintro s e t ⟨hwf, hwaits, hun⟩ hg hstep
    have hs := step_cases hstep
    exact ⟨wellFormed_step hwf hs, waitsFor_step hwf hwaits hg hs, unshared_step hwf hwaits hun hs⟩
  exact hinv.2.2

/-- The condition cannot be relaxed: once somebody waits for a response that may not be
stored, the run can go on to deliver it to them. -/
theorem shared_of_waiting {i j : Nat} {p q : Proc} {c : Captured} (hwf : WellFormed cfg s)
    (hp : s.procs i = some p) (hw : p.pc = .waiting j) (hq : s.procs j = some q)
    (hc : q.pc = .filled (.raw c)) :
    ∃ t, exec (step cfg) s [.finish j, .reply i] = some t ∧ ¬ Unshared cfg t := by
  obtain ⟨r, names, pc⟩ := p
  obtain ⟨r', names', pc'⟩ := q
  obtain rfl : pc = .waiting j := hw
  obtain rfl : pc' = .filled (.raw c) := hc
  obtain ⟨horigin, -, hraw⟩ := hwf.procs j _ hq
  have hij : i ≠ j := by
    rintro rfl
    rw [hp] at hq
    cases hq
  have hfinish : step cfg s (.finish j) = some (put
      {s with calls := s.calls.erase (buildKey cfg.table r' names')} j ⟨r', names', .replied (.raw c)⟩) := by
    simp only [step, hq]
  refine ⟨put (put {s with calls := s.calls.erase (buildKey cfg.table r' names')} j
    ⟨r', names', .replied (.raw c)⟩) i ⟨r, names, .replied (.raw c)⟩, ?_, ?_⟩
  · rw [exec_cons_iff]
    refine ⟨_, hfinish, ?_⟩
    simp only [exec, step, put_of_ne _ _ hij, hp, put_self, Option.bind_some]
  · intro hun
    exact hij ((hun i _ _ (put_self ..) rfl hraw).symm.trans horigin)

end Unshared

def bearing (token : String) : Request := getRequest ⟨"/me", "", []⟩ ⟨[(authorization, token)]⟩

def respond (directives : String) : Response := ⟨200, ⟨[(cacheControl, directives)]⟩, [1]⟩

def joined (r r' : Request) (resp : Response) : List Event :=
  [.arrive 0 r, .headersFor 0, .get 0 0, .enter 0, .arrive 1 r', .headersFor 1, .get 1 0, .enter 1,
    .answer 0 resp]

def joinedPublic : List Event :=
  joined (bearing "alice") (bearing "bob") (respond "public") ++ [.record 0, .set 0 0, .finish 0, .reply 1]

theorem unshared_joined_public :
    ((exec (step sampleConfig) (start 8 100) joinedPublic).bind fun t => t.procs 1) =
        some ⟨bearing "bob", [], .replied (.entry (entryOf sampleConfig
          ⟨0, bearing "alice", respond "public"⟩ 0))⟩ ∧
      ∀ s, Visits (step sampleConfig) (start 8 100) joinedPublic s → Unshared sampleConfig s := by
  refine ⟨by decide +kernel, unshared_of_guarded (stepsMeet_of_take (step sampleConfig) ?_)⟩
  intro n e t he ht
  have hn : n < 13 := (List.getElem?_eq_some_iff.mp he).1
  interval_cases n <;> cases he
  all_goals try trivial
  · intro p j q c hp hj hq hc
    have hproc : t.procs 0 = some ⟨bearing "alice", [], .missed⟩ :=
      exec_observe (step sampleConfig) (fun t => t.procs 0) ht (by decide +kernel)
    obtain rfl := Option.some.inj (hproc.symm.trans hp)
    have hcall : t.calls.lookup "GET /me?" = none :=
      exec_observe (step sampleConfig) (fun t => t.calls.lookup "GET /me?") ht (by decide +kernel)
    exact absurd (hcall.symm.trans hj) nofun
  · intro p j q c hp hj hq hc
    have hproc : t.procs 1 = some ⟨bearing "bob", [], .missed⟩ :=
      exec_observe (step sampleConfig) (fun t => t.procs 1) ht (by decide +kernel)
    obtain rfl := Option.some.inj (hproc.symm.trans hp)
    have hcall : t.calls.lookup "GET /me?" = some 0 :=
      exec_observe (step sampleConfig) (fun t => t.calls.lookup "GET /me?") ht (by decide +kernel)
    obtain rfl := Option.some.inj (hcall.symm.trans hj)
    have hleader : t.procs 0 = some ⟨bearing "alice", [], .leading⟩ :=
      exec_observe (step sampleConfig) (fun t => t.procs 0) ht (by decide +kernel)
    obtain rfl := Option.some.inj (hleader.symm.trans hq)
    cases hc
  · intro p hp
    have hproc : t.procs 0 = some ⟨bearing "alice", [], .leading⟩ :=
      exec_observe (step sampleConfig) (fun t => t.procs 0) ht (by decide +kernel)
    obtain rfl := Option.some.inj (hproc.symm.trans hp)
    exact .inl (by decide)

/-- The failing run: the second user joins the call of the first and is given the first
user's response. -/
theorem private_response_shared :
    ¬ ∀ (cfg : CacheConfig) (maxEntries maxBytes : Int) (es : List Event) (t : State),
      exec (step cfg) (start maxEntries maxBytes) es = some t → Unshared cfg t := by
  intro hall
  have hrun : ((exec (step sampleConfig) (start 8 100)
      (joined (bearing "alice") (bearing "bob") (respond "") ++ [.finish 0, .reply 1])).bind
        fun t => t.procs 1) = some ⟨bearing "bob", [],
          .replied (.raw ⟨0, bearing "alice", respond ""⟩)⟩ := by decide +kernel
  obtain ⟨t, ht, hproc⟩ := Option.bind_eq_some_iff.mp hrun
  exact absurd (hall _ _ _ _ t ht 1 _ _ hproc rfl (by decide)) (by decide)

end ApiGateway.CacheFlights
