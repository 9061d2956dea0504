import ApiGateway.StoredResponses

/-!
# How much the response cache remembers

A fill writes into two stores: the LRU, which evicts, and the Vary memory of `varyState`, which
keeps a record for every method and path it was ever told of. Over any interleaving of requests
the LRU stays within `maxEntries`; the memory does exactly as long as no fill for a new method
and path comes when `maxEntries` of them are remembered.
-/

namespace ApiGateway.CacheBounds

open Strings Http Lru CacheControl CacheKey CacheServe CacheFlights StoredResponses Runs
set_option autoImplicit false

/-- The methods and paths with a Vary record. -/
def remembered (s : CacheFlights.State) : List String := s.cache.vary.keys

structure Bounded (maxEntries : Int) (s : CacheFlights.State) : Prop where
  memory : ((remembered s).length : Int) ≤ maxEntries
  entries : (s.cache.lru.order.length : Int) ≤ maxEntries

/-- What is about to be recorded is remembered already, or there is room for it. -/
def RoomFor (maxEntries : Int) (s : CacheFlights.State) : Event → Prop
  | .record i => ∀ p c, s.procs i = some p → p.pc = .captured c →
      memoryKey c.request ∈ remembered s ∨ ((remembered s).length : Int) < maxEntries
  | _ => True

/-- The LRU as the middleware was given it: well formed and within the bound on its entries. -/
structure Capped (maxEntries : Int) (c : LRU) : Prop where
  rep : Rep c
  bound : c.maxEntries = maxEntries
  fits : EntriesFit maxEntries c.order

section Lru
variable {maxEntries : Int} {c : LRU}

theorem capped_newLRU (maxEntries maxBytes : Int) : Capped maxEntries (newLRU maxEntries maxBytes) where
  rep := rep_newLRU maxEntries maxBytes
  bound := rfl
  fits := fun hpos => hpos.le

theorem Capped.get (h : Capped maxEntries c) (key : String) (now : Int) :
    Capped maxEntries (Lru.get c key now).1 := by
  have hrep := rep_get h.rep key now
  have hends := get_ends h.rep key now
  generalize Lru.get c key now = res at hrep hends ⊢
  cases hends with
  | absent _ => exact h
  | @expired el p r ho _ _ =>
    refine ⟨hrep, h.bound, fun hpos => ?_⟩
    have hfits := h.fits hpos
    rw [removeElement_order h.rep ho]
    rw [ho] at hfits
    simp only [List.length_append, List.length_cons] at hfits ⊢
    omega
  | hit ho _ _ =>
    refine ⟨hrep, h.bound, fun hpos => ?_⟩
    have hfits := h.fits hpos
    rwa [← (moveToFront_perm h.rep ho).length_eq] at hfits

theorem Capped.set (h : Capped maxEntries c) (key : String) (entry : Entry) :
    Capped maxEntries (Lru.set c key entry) := by
  obtain ⟨hrep, hentries, -, -⟩ := inserted_spec h.rep key entry
  have hevict := evict_spec hrep
  have hbound : (inserted c key entry).maxEntries = maxEntries := hentries.trans h.bound
  rw [set_eq_evict]
  refine ⟨hevict.rep, hevict.maxEntries.trans hbound, ?_⟩
  have hfits := hevict.order.holds.entries
  rwa [hbound] at hfits

end Lru

section Machine
variable {cfg : CacheConfig} {maxEntries : Int} {s t : CacheFlights.State} {e : Event}

theorem capped_step (hs : Step cfg s e t) (h : Capped maxEntries s.cache.lru) :
    Capped maxEntries t.cache.lru :=
  lru_step (fun _ key now hc => hc.get key now) (fun _ key entry hc => hc.set key entry) hs h

theorem length_remember (key : String) (keys : List String) :
    (key :: keys.erase key).length = if key ∈ keys then keys.length else keys.length + 1 := by
  rw [List.length_cons, List.length_erase]
  split
  · rename_i hmem
    have hpos := List.length_pos_of_mem hmem
    omega
  · rfl

/-- A step that starts within the bound ends there exactly if it finds room: a record forgets
nothing, and the other steps leave the memory alone. -/
theorem memory_step (hs : Step cfg s e t) (h : ((remembered s).length : Int) ≤ maxEntries) :
    ((remembered t).length : Int) ≤ maxEntries ↔ RoomFor maxEntries s e := by
  cases hs with
  | @record i r names c hi =>
    have hroom : RoomFor maxEntries s (.record i) ↔
        memoryKey c.request ∈ remembered s ∨ ((remembered s).length : Int) < maxEntries := by
      constructor
      · intro hall
        exact hall _ c hi rfl
      · intro hfound p c' hp hpc
        obtain rfl := Option.some.inj (hi.symm.trans hp)
        obtain rfl := Pc.captured.inj hpc
        exact hfound
    have hkeys : remembered (put {s with cache := CacheServe.record s.cache c.request (varyHeaders c.response)} i
        ⟨r, names, .recorded c⟩) = memoryKey c.request :: (remembered s).erase (memoryKey c.request) :=
      AList.keys_insert _
    rw [hkeys, length_remember, hroom]
    by_cases hmem : memoryKey c.request ∈ remembered s
    · rw [if_pos hmem]
      exact iff_of_true h (.inl hmem)
    · rw [if_neg hmem, or_iff_right hmem]
      rw [Nat.cast_succ]
      exact Int.add_one_le_iff
  | _ => exact iff_of_true h trivial

/-- In a run, both stores of the cache stay within `maxEntries` exactly when every response is
recorded for a method and path that is remembered already, or while there is room. -/
theorem bounded_iff {maxBytes : Int} (hpos : 0 < maxEntries) {es : List Event}
    (he : exec (step cfg) (start maxEntries maxBytes) es = some t) :
    (∀ u, Visits (step cfg) (start maxEntries maxBytes) es u → Bounded maxEntries u) ↔
      StepsMeet (step cfg) (RoomFor maxEntries) (start maxEntries maxBytes) es := by
  refine visits_iff_stepsMeet (step cfg) (fun s => Capped maxEntries s.cache.lru) (Bounded maxEntries)
    (fun a e b ha hab => capped_step (step_cases hab) ha) ?_ (capped_newLRU maxEntries maxBytes)
    ⟨hpos.le, hpos.le⟩ he
  intro a e b ha hbounded hab
  have hs := step_cases hab
  rw [← memory_step hs hbounded.memory]
  constructor
  · intro hb
    exact hb.memory
  · intro hb
    exact ⟨hb, (capped_step hs ha).fits hpos⟩

end Machine

/-- A request that misses, is answered, stores the answer and returns, with no other between. -/
def flight (i : Nat) (r : Request) (resp : Response) : List Event :=
  [.arrive i r, .headersFor i, .get i 0, .enter i, .answer i resp, .record i, .set i 0, .finish i]

def getPath (path : String) : Request := getRequest ⟨path, "", []⟩ .empty

def plainAnswer : Response := ⟨200, .empty, [1]⟩

theorem bounded_one_path : ∃ s,
    exec (step sampleConfig) (start 1 100) (flight 0 (getPath "/a") plainAnswer) = some s ∧
      Bounded 1 s := by
  have hrun : (exec (step sampleConfig) (start 1 100) (flight 0 (getPath "/a") plainAnswer)).map
      remembered = some ["GET /a"] := by decide +kernel
  obtain ⟨s, hs, -⟩ := Option.map_eq_some_iff.mp hrun
  have hroom : StepsMeet (step sampleConfig) (RoomFor 1) (start 1 100)
      (flight 0 (getPath "/a") plainAnswer) := by
    refine stepsMeet_of_take (step sampleConfig) ?_
    intro n e t hn ht
    have hlt : n < 8 := (List.getElem?_eq_some_iff.mp hn).1
    interval_cases n <;> cases hn
    all_goals try trivial
    intro p c _ _
    have hempty : some (remembered t) = some [] :=
      exec_observe (step sampleConfig) (fun t => some (remembered t)) ht (by decide +kernel)
    rw [Option.some.inj hempty]
    exact .inr (by decide)
  exact ⟨s, hs, (bounded_iff (by decide) hs).mpr hroom s ⟨_, [], (List.append_nil _).symm, hs⟩⟩

/-- Two paths, one after the other, with room for one: the LRU lets the first go, the memory
keeps both. -/
theorem memory_outgrows_lru :
    (exec (step sampleConfig) (start 1 100) (flight 0 (getPath "/a") plainAnswer ++
        flight 1 (getPath "/b") plainAnswer)).map
      (fun s => (s.cache.lru.order.length, remembered s)) =
    some (1, ["GET /b", "GET /a"]) := by
  decide +kernel

end ApiGateway.CacheBounds
