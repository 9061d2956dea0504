import ApiGateway.CacheFlights
import ApiGateway.LruRep

/-!
# How often the upstream is called for one resource

Any number of copies of one request meet an empty cache, an upstream that gives them all the
same response, which may be stored, and nothing expires or is evicted. A request asks the LRU
and enters the singleflight group in two steps, under a key it built in a third. In between, the
call it should have joined can end, its response stored after the request looked; or the Vary
memory can change, so that the request's key is not the one of the call in flight. The upstream
is called once exactly when no request comes to the group so late.
-/

namespace ApiGateway.Stampede

open Strings Http Lru CacheControl CacheKey CacheServe CacheFlights Runs Tables
set_option autoImplicit false

/-- The requests are copies of one, the upstream answers them all alike and does not panic. -/
def Same (r : Request) (resp : Response) : Event → Prop
  | .arrive _ r' => r' = r
  | .answer _ resp' => resp' = resp
  | .panic _ => False
  | _ => True

/-- A lookup comes before anything held expires, and a store fits beside what is held. -/
def Undisturbed (cfg : CacheConfig) (s : CacheFlights.State) : Event → Prop
  | .get _ now => ∀ el ∈ s.cache.lru.order, now ≤ el.entry.expiresAt
  | .set i now => ∀ p ∈ s.procs i, ∀ c ∈ p.pc.response,
      Fits s.cache.lru.maxEntries s.cache.lru.maxBytes
        (inserted s.cache.lru (finalKey cfg c) (entryOf cfg c now)).order
  | _ => True

/-- The request whose entering the group makes it call the upstream. -/
def upstreamCall (cfg : CacheConfig) (s : CacheFlights.State) : Event → Option Nat
  | .enter i =>
    match s.procs i with
    | some ⟨r, names, .missed⟩ =>
      match s.calls.lookup (buildKey cfg.table r names) with
      | some _ => none
      | none => some i
    | _ => none
  | _ => none

/-- No call is in flight and nothing is stored. -/
def Untouched (s : CacheFlights.State) : Prop := s.calls = ∅ ∧ s.cache.lru.order = []

/-- A request that comes to the group finds a call under its key, or it is the first. -/
def OnTime (cfg : CacheConfig) (s : CacheFlights.State) : Event → Prop
  | .enter i => ∀ p ∈ s.procs i, p.pc = .missed → s.calls.lookup (keyOf cfg p) ≠ none ∨ Untouched s
  | _ => True

section Lru
variable {c : LRU}

/-- A lookup before anything expires removes nothing, and a hit is on something held. -/
theorem lookup_kept (h : Rep c) {cfg : CacheConfig} {r : Request} {key : String} {now : Int} {lru : LRU}
    {found : Option Entry} (hfresh : ∀ el ∈ c.order, now ≤ el.entry.expiresAt)
    (hl : lookup cfg c r key now = (lru, found)) :
    Rep lru ∧ lru.order.length = c.order.length ∧ (found ≠ none → c.order ≠ []) := by
  refine ⟨lookup_keeps (rep_get h) h hl, ?_⟩
  unfold lookup at hl
  split at hl
  · obtain ⟨rfl, rfl⟩ := Prod.mk.inj hl
    exact ⟨rfl, fun hne => absurd rfl hne⟩
  · have hends := get_ends h key now
    rw [hl] at hends
    cases hends with
    | absent _ => exact ⟨rfl, fun hne => absurd rfl hne⟩
    | @expired el p q ho _ hold =>
      have hel : el ∈ c.order := by simp [ho]
      exact absurd (hfresh el hel) (not_le.mpr hold)
    | hit ho _ _ => exact ⟨(moveToFront_perm h ho).length_eq, fun _ => by simp [ho]⟩

theorem set_order (h : Rep c) {key : String} {e : Entry}
    (hfits : Fits c.maxEntries c.maxBytes (inserted c key e).order) : (Lru.set c key e).order ≠ [] := by
  obtain ⟨hrep, hentries, hbytes, horder⟩ := inserted_spec h key e
  rw [← hentries, ← hbytes] at hfits
  have hkept := (evict_spec hrep).order.longest _ List.prefix_rfl hfits
  rw [set_eq_evict]
  intro hnil
  rw [hnil, List.prefix_nil, horder] at hkept
  exact absurd hkept (List.cons_ne_nil _ _)

end Lru

/-- What holds along such a run: who leads is found under their key, and no one has a result
before something is stored. -/
structure Even (cfg : CacheConfig) (r : Request) (s : CacheFlights.State) : Prop where
  rep : Rep s.cache.lru
  requests : ∀ i p, s.procs i = some p → p.request = r
  leads : ∀ i p, s.procs i = some p → p.pc.leads = true → s.calls.lookup (keyOf cfg p) = some i
  stored : ∀ i p res, s.procs i = some p → p.pc = .filled res ∨ p.pc = .replied res →
    s.cache.lru.order ≠ []

section Even
variable {cfg : CacheConfig} {r : Request} {s : CacheFlights.State}

theorem even_start (cfg : CacheConfig) (r : Request) (maxEntries maxBytes : Int) :
    Even cfg r (start maxEntries maxBytes) := by
  refine ⟨rep_newLRU maxEntries maxBytes, ?_, ?_, ?_⟩
  · intro i p hp
    cases hp
  · intro i p hp
    cases hp
  · intro i p res hp
    cases hp

theorem Even.call (h : Even cfg r s) {i : Nat} {names : List String} {pc : Pc}
    (hi : s.procs i = some ⟨r, names, pc⟩) (hpc : pc.leads = true) :
    s.calls.lookup (buildKey cfg.table r names) = some i :=
  h.leads i ⟨r, names, pc⟩ hi hpc

/-- One request moves on, and the calls of the others are left in the group. -/
theorem Even.put (h : Even cfg r s) {i : Nat} {names : List String} {pc : Pc}
    {calls : AList fun _ : String => Nat}
    (hcalls : ∀ j p, j ≠ i → s.calls.lookup (keyOf cfg p) = some j → calls.lookup (keyOf cfg p) = some j)
    (hleads : pc.leads = true → calls.lookup (buildKey cfg.table r names) = some i)
    (hstored : ∀ res, pc = .filled res ∨ pc = .replied res → s.cache.lru.order ≠ []) :
    Even cfg r (CacheFlights.put {s with calls := calls} i ⟨r, names, pc⟩) where
  rep := h.rep
  requests := by
    intro j p hp
    rcases put_cases hp with ⟨-, rfl⟩ | ⟨-, hp⟩
    · rfl
    · exact h.requests j p hp
  leads := by
    intro j p hp hpc
    rcases put_cases hp with ⟨rfl, rfl⟩ | ⟨hji, hp⟩
    · exact hleads hpc
    · exact hcalls j p hji (h.leads j p hp hpc)
  stored := by
    intro j p res hp hpc
    rcases put_cases hp with ⟨-, rfl⟩ | ⟨-, hp⟩
    · exact hstored res hpc
    · exact h.stored j p res hp hpc

theorem Even.move (h : Even cfg r s) {i : Nat} {names : List String} {pc : Pc}
    (hleads : pc.leads = true → s.calls.lookup (buildKey cfg.table r names) = some i)
    (hstored : ∀ res, pc = .filled res ∨ pc = .replied res → s.cache.lru.order ≠ []) :
    Even cfg r (CacheFlights.put s i ⟨r, names, pc⟩) :=
  h.put (fun _ _ _ hcall => hcall) hleads hstored

theorem Even.withCache (h : Even cfg r s) {cache : CacheServe.State} (hrep : Rep cache.lru)
    (hkept : s.cache.lru.order ≠ [] → cache.lru.order ≠ []) : Even cfg r {s with cache := cache} where
  rep := hrep
  requests := h.requests
  leads := h.leads
  stored := fun i p res hp hpc => hkept (h.stored i p res hp hpc)

theorem Even.lead (h : Even cfg r s) {i : Nat} {names : List String}
    (hfree : s.calls.lookup (buildKey cfg.table r names) = none) :
    Even cfg r (CacheFlights.put {s with calls := s.calls.insert (buildKey cfg.table r names) i} i
      ⟨r, names, .leading⟩) := by
  refine h.put ?_ (fun _ => AList.lookup_insert _) (by simp)
  intro j p hji hcall
  have hne : keyOf cfg p ≠ buildKey cfg.table r names := by
    intro heq
    rw [heq, hfree] at hcall
    cases hcall
  exact (AList.lookup_insert_ne hne).trans hcall

theorem Even.finish (h : Even cfg r s) {i : Nat} {names : List String} {res : SfResult}
    (hi : s.procs i = some ⟨r, names, .filled res⟩) :
    Even cfg r (CacheFlights.put {s with calls := s.calls.erase (buildKey cfg.table r names)} i
      ⟨r, names, .replied res⟩) := by
  refine h.put ?_ nofun fun _ _ => h.stored i _ res hi (.inl rfl)
  intro j p hji hcall
  have hown := h.call hi rfl
  have hne : keyOf cfg p ≠ buildKey cfg.table r names := by
    intro heq
    rw [heq] at hcall
    exact hji (Option.some.inj (hcall.symm.trans hown))
  exact (AList.lookup_erase_ne hne).trans hcall

theorem even_step {resp : Response} (hc : ∀ i, cacheable cfg ⟨i, r, resp⟩ = true) {e : Event}
    {t : CacheFlights.State} (h : Even cfg r s) (hq : Undisturbed cfg s e) (hsame : Same r resp e)
    (hs : Step cfg s e t) : Even cfg r t := by
  cases hs with
  | @arrive i r' hi =>
    obtain rfl : r' = r := hsame
    refine h.move ?_ ?_
    · split <;> exact nofun
    · split <;> simp
  | @headersFor i r' names hi =>
    obtain rfl : r' = r := h.requests i _ hi
    exact h.move nofun (by simp)
  | @hit i now r' names lru e hi hl =>
    obtain rfl : r' = r := h.requests i _ hi
    obtain ⟨hrep, hlen, hheld⟩ := lookup_kept h.rep hq hl
    have hne : lru.order ≠ [] := by
      rw [← List.length_pos_iff, hlen, List.length_pos_iff]
      exact hheld nofun
    exact (h.withCache hrep fun _ => hne).move nofun fun _ _ => hne
  | @miss i now r' names lru hi hl =>
    obtain rfl : r' = r := h.requests i _ hi
    obtain ⟨hrep, hlen, -⟩ := lookup_kept h.rep hq hl
    refine Even.move (h.withCache hrep ?_) nofun (by simp)
    rw [← List.length_pos_iff, ← List.length_pos_iff, hlen]
    exact id
  | @join i j r' names hi hj =>
    obtain rfl : r' = r := h.requests i _ hi
    exact h.move nofun (by simp)
  | @lead i r' names hi hj =>
    obtain rfl : r' = r := h.requests i _ hi
    exact h.lead hj
  | @capture i resp' r' names hi hc' =>
    obtain rfl : r' = r := h.requests i _ hi
    exact h.move (fun _ => h.call hi rfl) (by simp)
  | @refuse i resp' r' names hi hc' =>
    obtain rfl : r' = r := h.requests i _ hi
    obtain rfl : resp' = resp := hsame
    exact absurd (hc i) (by simp [hc'])
  | panic hi => exact hsame.elim
  | @record i r' names c hi =>
    obtain rfl : r' = r := h.requests i _ hi
    have hrecorded : Even cfg r' {s with
        cache := CacheServe.record s.cache c.request (varyHeaders c.response)} := h.withCache h.rep id
    exact hrecorded.move (fun _ => h.call hi rfl) (by simp)
  | @set i now r' names c hi =>
    obtain rfl : r' = r := h.requests i _ hi
    have hne := set_order h.rep (hq _ hi c rfl)
    exact (h.withCache (rep_set h.rep _ _) fun _ => hne).move (fun _ => h.call hi rfl) fun _ _ => hne
  | @finish i r' names res hi =>
    obtain rfl : r' = r := h.requests i _ hi
    exact h.finish hi
  | @reply i j r' r'' names names' res hi hj =>
    obtain rfl : r' = r := h.requests i _ hi
    exact h.move nofun fun _ _ => h.stored j _ res hj (.inr rfl)
  | @fall i j r' r'' names names' hi hj =>
    obtain rfl : r' = r := h.requests i _ hi
    exact h.move nofun (by simp)

theorem touched_of_calls {t : CacheFlights.State} {key : String} {j : Nat}
    (h : t.calls.lookup key = some j) : ¬ Untouched t := by
  rintro ⟨hempty, -⟩
  rw [hempty] at h
  cases h

theorem untouched_congr {t : CacheFlights.State} (hcalls : t.calls = s.calls)
    (hlen : t.cache.lru.order.length = s.cache.lru.order.length) : Untouched t ↔ Untouched s := by
  unfold Untouched
  rw [hcalls, ← List.length_eq_zero_iff, hlen, List.length_eq_zero_iff]

/-- The first call of the upstream is what ends the untouched state, and nothing brings it back. -/
theorem touched_step {resp : Response} {e : Event} {t : CacheFlights.State} (h : Even cfg r s)
    (hq : Undisturbed cfg s e) (hsame : Same r resp e) (hs : Step cfg s e t) :
    ¬ Untouched t ↔ ¬ Untouched s ∨ upstreamCall cfg s e ≠ none := by
  have hquiet (hcalls : t.calls = s.calls)
      (hlen : t.cache.lru.order.length = s.cache.lru.order.length) (hout : upstreamCall cfg s e = none) :
      ¬ Untouched t ↔ ¬ Untouched s ∨ upstreamCall cfg s e ≠ none := by
    rw [untouched_congr hcalls hlen, or_iff_left (not_not.mpr hout)]
  cases hs with
  | @hit i now r' names lru e hi hl => exact hquiet rfl (lookup_kept h.rep hq hl).2.1 rfl
  | @miss i now r' names lru hi hl => exact hquiet rfl (lookup_kept h.rep hq hl).2.1 rfl
  | @join i j r' names hi hj => exact hquiet rfl rfl (by simp [upstreamCall, hi, hj])
  | @lead i r' names hi hj =>
    refine iff_of_true ?_ (.inr (by simp [upstreamCall, hi, hj]))
    exact touched_of_calls (AList.lookup_insert s.calls)
  | panic hi => exact hsame.elim
  | @set i now r' names c hi =>
    obtain rfl : r' = r := h.requests i _ hi
    have hcall := h.call hi rfl
    exact iff_of_true (touched_of_calls (t := put _ i _) hcall) (.inl (touched_of_calls hcall))
  | @finish i r' names res hi =>
    obtain rfl : r' = r := h.requests i _ hi
    refine iff_of_true ?_ (.inl (touched_of_calls (h.call hi rfl)))
    exact fun hun => h.stored i _ res hi (.inl rfl) hun.2
  | _ => exact hquiet rfl rfl rfl

end Even

theorem onTime_iff (cfg : CacheConfig) (s : CacheFlights.State) (e : Event) :
    OnTime cfg s e ↔ upstreamCall cfg s e = none ∨ Untouched s := by
  cases e with
  | enter i =>
    simp only [OnTime, upstreamCall]
    split
    · rename_i r names hp
      simp only [hp, Option.mem_def, Option.some.injEq, forall_eq', keyOf, true_implies]
      cases s.calls.lookup (buildKey cfg.table r names) with
      | none => simp
      | some j => simp
    · rename_i hother
      refine iff_of_true ?_ (.inl rfl)
      intro p hp hpc
      exact (hother p.request p.names (by rw [hp, ← hpc])).elim
  | _ => exact iff_of_true trivial (.inl rfl)

/-- Copies of one request, over any interleaving of their steps, call the upstream exactly once
if and only if none of them comes to the group late. -/
theorem upstream_called_once_iff {cfg : CacheConfig} {r : Request} {resp : Response}
    (hc : ∀ i, cacheable cfg ⟨i, r, resp⟩ = true) {maxEntries maxBytes : Int} {es : List Event}
    {t : CacheFlights.State} (he : exec (step cfg) (start maxEntries maxBytes) es = some t)
    (hsame : ∀ e ∈ es, Same r resp e)
    (hq : StepsMeet (step cfg) (Undisturbed cfg) (start maxEntries maxBytes) es)
    {i : Nat} {p : Proc} {res : SfResult} (hp : t.procs i = some p) (hres : p.pc = .replied res) :
    (outputs (step cfg) (upstreamCall cfg) (start maxEntries maxBytes) es).length = 1 ↔
      StepsMeet (step cfg) (OnTime cfg) (start maxEntries maxBytes) es := by
  have hok := hq.and (step cfg) (stepsMeet_of_forall (step cfg) _ hsame)
  have hturn (a : CacheFlights.State) (e : Event) (b : CacheFlights.State) (ha : Even cfg r a)
      (hae : Undisturbed cfg a e ∧ Same r resp e) (hab : step cfg a e = some b) :
      Even cfg r b ∧ (¬ Untouched b ↔ ¬ Untouched a ∨ upstreamCall cfg a e ≠ none) :=
    ⟨even_step hc ha hae.1 hae.2 (step_cases hab), touched_step ha hae.1 hae.2 (step_cases hab)⟩
  have hstart := even_start cfg r maxEntries maxBytes
  have hend : Even cfg r t := exec_invariant (step cfg) (Even cfg r)
    (fun a e b ha hae hab => (hturn a e b ha hae hab).1) hstart hok he
  have htouched : ¬ Untouched t := fun hun => hend.stored i p res hp (.inr hres) hun.2
  rw [outputs_length_eq_one_iff (step cfg) (upstreamCall cfg) hturn hstart hok he
    (not_not.mpr ⟨rfl, rfl⟩) htouched]
  constructor
  · intro h
    refine h.mono (step cfg) fun a e ha => (onTime_iff cfg a e).mpr ?_
    exact ha.imp id not_not.mp
  · intro h
    refine h.mono (step cfg) fun a e ha => ?_
    exact ((onTime_iff cfg a e).mp ha).imp id not_not.mpr

instance (r : Request) (resp : Response) : DecidablePred (Same r resp) := fun e => by
  cases e <;> unfold Same <;> infer_instance

instance (cfg : CacheConfig) (s : CacheFlights.State) : DecidablePred (Undisturbed cfg s) := fun e => by
  cases e <;> unfold Undisturbed <;> infer_instance

instance (s : CacheFlights.State) : Decidable (Untouched s) :=
  decidable_of_iff (s.calls.entries = [] ∧ s.cache.lru.order = [])
    (and_congr_left fun _ => (AList.ext_iff (t := ∅)).symm)

instance (cfg : CacheConfig) (s : CacheFlights.State) : DecidablePred (OnTime cfg s) := fun e => by
  cases e <;> unfold OnTime <;> infer_instance

def page : Request := getRequest ⟨"/p", "", []⟩ .empty

def answered (s : CacheFlights.State) (i : Nat) : Bool :=
  match s.procs i with
  | some ⟨_, _, .replied _⟩ => true
  | _ => false

/-- Two requests in one flight, and a third that is served from the cache. -/
def inTime (resp : Response) : List Event :=
  [.arrive 0 page, .headersFor 0, .get 0 0, .arrive 1 page, .headersFor 1, .get 1 0,
    .enter 0, .enter 1, .answer 0 resp, .record 0, .set 0 0, .finish 0, .reply 1,
    .arrive 2 page, .headersFor 2, .get 2 0]

theorem called_once_in_time :
    (outputs (step sampleConfig) (upstreamCall sampleConfig) (start 8 100) (inTime (varying "k"))).length =
      1 := by
  have hrun : ((exec (step sampleConfig) (start 8 100) (inTime (varying "k"))).bind fun s => s.procs 2) =
      some ⟨page, ["k"], .replied (.entry (entryOf sampleConfig ⟨0, page, varying "k"⟩ 0))⟩ := by
    decide +kernel
  obtain ⟨s, hs, hproc⟩ := Option.bind_eq_some_iff.mp hrun
  have hc : cacheable sampleConfig ⟨0, page, varying "k"⟩ = true := by decide +kernel
  exact (upstream_called_once_iff (fun _ => hc) hs (by decide +kernel) (by decide +kernel) hproc rfl).mpr
    (by decide +kernel)

/-- Both requests miss; the second comes to the group when the first has stored and left. -/
def late (resp : Response) : List Event :=
  [.arrive 0 page, .headersFor 0, .get 0 0, .arrive 1 page, .headersFor 1, .get 1 0,
    .enter 0, .answer 0 resp, .record 0, .set 0 0, .finish 0,
    .enter 1, .answer 1 resp, .record 1, .set 1 0, .finish 1]

/-- The second request builds its key from the list the first has just recorded, and so does not
find the call that is about to store. -/
def rekeyed (resp : Response) : List Event :=
  [.arrive 0 page, .headersFor 0, .get 0 0, .enter 0, .answer 0 resp, .record 0,
    .arrive 1 page, .headersFor 1, .get 1 0, .enter 1,
    .set 0 0, .finish 0, .answer 1 resp, .record 1, .set 1 0, .finish 1]

/-- The run meets every assumption, both requests are answered, and each called the upstream. -/
def Stampedes (resp : Response) (es : List Event) : Prop :=
  cacheable sampleConfig ⟨0, page, resp⟩ = true ∧ (∀ e ∈ es, Same page resp e) ∧
    StepsMeet (step sampleConfig) (Undisturbed sampleConfig) (start 8 100) es ∧
    (exec (step sampleConfig) (start 8 100) es).map (fun s => (answered s 0, answered s 1)) =
      some (true, true) ∧
    outputs (step sampleConfig) (upstreamCall sampleConfig) (start 8 100) es = [0, 1]

theorem upstream_called_twice :
    Stampedes (varying "") (late (varying "")) ∧ Stampedes (varying "k") (rekeyed (varying "k")) := by
  unfold Stampedes
  decide +kernel

end ApiGateway.Stampede
