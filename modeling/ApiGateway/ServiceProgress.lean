import ApiGateway.Descent
import ApiGateway.RequestLife

/-!
# No request stays

Every service that `buildRouter` mounts gets rid of its requests. A request takes a bounded number
of steps, however the steps of others fall in between. As long as one has not been answered and
given its slot back, some request can take a step: a request that waits in the cache for a call of
another one waits for somebody who can go on. So once no more requests arrive, the chain runs
empty, in whatever order the requests take their steps, and the slots that are still taken are
those of other routes. That the upstream answers, or that the transport gives up, is a step here.
-/

namespace ApiGateway.ServiceProgress

open Config Fallible Runs Descent ServiceLimiter ServiceChain ProtectedService RequestLife Tables
set_option autoImplicit false

variable {Key : Type}

/-- What the options of a service never change about its chain. -/
structure Regular (svc : Service Key) : Prop where
  sorted : svc.stack.Pairwise fun m m' => place m < place m'
  limiter : ∀ keyFunc, .rateLimit keyFunc ∈ svc.stack → svc.limiter.isSome = true
  limit : ∀ limit, .concurrencyLimit limit ∈ svc.stack → limit = svc.maxInFlight
  idle : svc.handler.inFlight = ∅

/-- What holds in every reachable state. -/
structure Sound (w : World Key) (svc : Service Key) (s : State Key) : Prop where
  cache : CacheFlights.WellFormed (cacheConfig w svc) s.cache
  linked : ∀ i p, s.procs i = some p → Linked svc.stack (view s i p)
  absent : ∀ i, s.procs i = none → s.cache.procs i = none ∧ s.proxy.inFlight.lookup i = none
  limits : ∀ keyFunc, .rateLimit keyFunc ∈ svc.stack → s.limits.isSome = true

/-- The slots that are taken are those of other routes and of the requests that hold one. -/
structure SlotsOf (svc : Service Key) (s : State Key) (holders : Finset Nat) : Prop where
  mem : ∀ i, i ∈ holders ↔ ∃ p, s.procs i = some p ∧ p.slot = true
  count : s.slots = s.others + holders.card
  bound : (s.slots : Int) ≤ max svc.maxInFlight 0

def Settled (p : Proc Key) : Prop := (∃ a, p.pc = .ended a) ∧ p.slot = false

def rank (svc : Service Key) (s : State Key) (i : Nat) : Nat :=
  match s.procs i with
  | none => svc.stack.length + 12
  | some p => (view s i p).rank

section Built
variable {w : World Key} {cfg : GatewayConfig} {svc : Service Key} {services : List (Service Key)}

theorem regular_of_built (h : buildRouter w cfg = .ok services) (hsvc : svc ∈ services) : Regular svc := by
  obtain ⟨publicKey, sc, -, hsc, -⟩ := buildRouter_mem h hsvc
  simp only [buildService, ite_error_eq_ok, Except.ok.injEq] at hsc
  obtain ⟨-, rfl⟩ := hsc
  refine ⟨stack_ordered cfg publicKey sc _, ?_, ?_, rfl⟩
  · intro keyFunc hin
    cases hlimiter : buildServiceLimiter sc cfg (buildRedisClient cfg) with
    | none => simp [routerStack, serviceStack, hlimiter] at hin
    | some l => rfl
  · intro limit hin
    simpa [routerStack, serviceStack] using hin

end Built

section Steps
variable {w : World Key} {svc : Service Key} {s t : State Key} {i k : Nat} {p p' : Proc Key}

theorem ownTurn_cache_frame (h : OwnTurn w svc s i p p' t) (hk : k ≠ i) :
    t.cache.procs k = s.cache.procs k := by
  rcases h.cache with hsame | ⟨e, rfl, hstep⟩
  · rw [hsame]
  · exact CacheFlights.step_frame hstep hk

theorem ownTurn_view (h : OwnTurn w svc s i p p' t) (hk : k ≠ i) (q : Proc Key) :
    view t k q = view s k q := by
  rw [view, view, ownTurn_cache_frame h hk, h.proxy k hk]

theorem ownTurn_self (h : OwnTurn w svc s i p p' t) : t.procs i = some p' := by
  rw [h.procs, Function.update_self]

theorem ownTurn_other (h : OwnTurn w svc s i p p' t) (hk : k ≠ i) : t.procs k = s.procs k := by
  rw [h.procs, Function.update_of_ne hk]

theorem sound_own (hreg : Regular svc) (hs : Sound w svc s) (hp : s.procs i = some p)
    (h : OwnTurn w svc s i p p' t) : Sound w svc t where
  cache := by
    rcases h.cache with hsame | ⟨e, -, hstep⟩
    · rw [hsame]
      exact hs.cache
    · exact CacheFlights.wellFormed_step hs.cache hstep
  linked := by
    intro k q hq
    by_cases hk : k = i
    · subst hk
      rw [ownTurn_self h] at hq
      cases hq
      exact linked_turn hreg.sorted (hs.linked k p hp) h.turn
    · rw [ownTurn_other h hk] at hq
      rw [ownTurn_view h hk]
      exact hs.linked k q hq
  absent := by
    intro k hq
    have hk : k ≠ i := by
      rintro rfl
      rw [ownTurn_self h] at hq
      cases hq
    rw [ownTurn_other h hk] at hq
    rw [ownTurn_cache_frame h hk, h.proxy k hk]
    exact hs.absent k hq
  limits := by
    rw [isSome_of_limitsMove h.limits]
    exact hs.limits

theorem sound_arrive (hs : Sound w svc s) (hi : s.procs i = none) (r : Http.Request) (contentLength : Int) :
    Sound w svc (put s i (arrived svc r contentLength)) where
  cache := hs.cache
  linked := by
    intro k q hq
    rcases update_cases hq with ⟨rfl, rfl⟩ | ⟨hk, hq⟩
    · obtain ⟨hcache, hproxy⟩ := hs.absent k hi
      refine ⟨List.suffix_refl _, ?_, fun hslot => absurd hslot Bool.false_ne_true, ?_⟩
      · intro hne
        exact absurd (congrArg (Option.map CacheFlights.Proc.pc) hcache) hne
      · change Outside ((s.cache.procs k).map CacheFlights.Proc.pc) ∧ (s.proxy.inFlight.lookup k).isSome = false
        rw [hcache, hproxy]
        exact ⟨.unmet, rfl⟩
    · exact hs.linked k q hq
  absent := by
    intro k hq
    have hk : k ≠ i := by
      rintro rfl
      cases (Function.update_self (f := s.procs) ..).symm.trans hq
    exact hs.absent k ((Function.update_of_ne hk ..).symm.trans hq)
  limits := hs.limits

theorem sound_step (hreg : Regular svc) (hs : Sound w svc s) {e : Event} (hstep : step w svc s e = some t) :
    Sound w svc t := by
  cases e with
  | arrive i r contentLength =>
    simp only [step] at hstep
    split at hstep
    · cases hstep
      exact sound_arrive hs ‹_› r contentLength
    · cases hstep
  | own i a =>
    obtain ⟨p, hp, hact⟩ := own_cases hstep
    obtain ⟨p', hturn⟩ := act_turn hp hact
    exact sound_own hreg hs hp hturn
  | occupy =>
    simp only [step] at hstep
    split at hstep
    · cases hstep
      exact ⟨hs.cache, hs.linked, hs.absent, hs.limits⟩
    · cases hstep
  | release =>
    simp only [step] at hstep
    split at hstep
    · cases hstep
      exact ⟨hs.cache, hs.linked, hs.absent, hs.limits⟩
    · cases hstep
  | cleanup now =>
    cases hstep
    exact ⟨hs.cache, hs.linked, hs.absent,
      fun keyFunc hin => Option.isSome_map.trans (hs.limits keyFunc hin)⟩
  | redis key stored =>
    cases hstep
    exact ⟨hs.cache, hs.linked, hs.absent,
      fun keyFunc hin => Option.isSome_map.trans (hs.limits keyFunc hin)⟩

theorem sound_start (hreg : Regular svc) (redis : String → Option RedisLimiter.Key) :
    Sound w svc (start svc redis) where
  cache := CacheFlights.wellFormed_start _ _
  linked _ _ hp := by cases hp
  absent i _ := by
    refine ⟨rfl, ?_⟩
    change svc.handler.inFlight.lookup i = none
    rw [hreg.idle]
    rfl
  limits keyFunc hin := by
    change (svc.limiter.map _).isSome = true
    rw [Option.isSome_map]
    exact hreg.limiter keyFunc hin

theorem rank_present (hp : s.procs i = some p) : rank svc s i = (view s i p).rank := by
  rw [rank, hp]

theorem rank_congr (hprocs : t.procs i = s.procs i) (hview : ∀ q, view t i q = view s i q) :
    rank svc t i = rank svc s i := by
  rw [rank, rank, hprocs]
  cases s.procs i with
  | none => rfl
  | some q => exact congrArg View.rank (hview q)

theorem rank_arrived (hs : Sound w svc s) (hi : s.procs i = none) (r : Http.Request) (contentLength : Int) :
    rank svc (put s i (arrived svc r contentLength)) i = svc.stack.length + 11 := by
  rw [rank_present (Function.update_self ..)]
  change svc.stack.length + stageRank .walking ((s.cache.procs i).map CacheFlights.Proc.pc) = _
  rw [(hs.absent i hi).1]
  rfl

theorem descends (hreg : Regular svc) : Descends (step w svc) owner (Sound w svc) (rank svc) where
  keep _ _ _ hs hstep := sound_step hreg hs hstep
  own := by
    intro s e t i hs hstep howner
    cases e with
    | arrive k r contentLength =>
      cases howner
      simp only [step] at hstep
      split at hstep
      · rename_i hi
        cases hstep
        rw [rank_arrived hs hi, rank, hi]
        exact Nat.lt_succ_self _
      · cases hstep
    | own k a =>
      cases howner
      obtain ⟨p, hp, hact⟩ := own_cases hstep
      obtain ⟨p', hturn⟩ := act_turn hp hact
      rw [rank_present hp, rank_present (ownTurn_self hturn)]
      exact rank_turn hturn.turn
    | occupy => cases howner
    | release => cases howner
    | cleanup now => cases howner
    | redis key stored => cases howner
  others := by
    intro s e t i hs hstep howner
    refine (rank_congr (undisturbed_step howner hstep) fun q => ?_).le
    rcases own_or_aside hstep with ⟨k, a, rfl⟩ | ⟨hcache, hproxy⟩
    · obtain ⟨p, hp, hact⟩ := own_cases hstep
      obtain ⟨p', hturn⟩ := act_turn hp hact
      exact ownTurn_view hturn (fun hik => howner (congrArg some hik.symm)) q
    · rw [view, view, hcache, hproxy]

theorem slotsOf_start (redis : String → Option RedisLimiter.Key) : SlotsOf svc (start svc redis) ∅ := by
  refine ⟨?_, rfl, le_max_right _ _⟩
  intro i
  constructor
  · intro hin
    cases hin
  · rintro ⟨p, hp, -⟩
    cases hp

theorem slotsOf_congr {holders : Finset Nat} (h : SlotsOf svc s holders) (hslots : t.slots = s.slots)
    (hothers : t.others = s.others)
    (hsame : ∀ k, (∃ q, t.procs k = some q ∧ q.slot = true) ↔ ∃ q, s.procs k = some q ∧ q.slot = true) :
    SlotsOf svc t holders := by
  refine ⟨fun k => (h.mem k).trans (hsame k).symm, ?_, ?_⟩
  · rw [hslots, hothers]
    exact h.count
  · rw [hslots]
    exact h.bound

/-- Who holds a slot after a step of `i`. -/
theorem holds_iff (h : OwnTurn w svc s i p p' t) (k : Nat) :
    (∃ q, t.procs k = some q ∧ q.slot = true) ↔
      k = i ∧ p'.slot = true ∨ k ≠ i ∧ ∃ q, s.procs k = some q ∧ q.slot = true := by
  by_cases hk : k = i
  · subst hk
    simp [ownTurn_self h]
  · simp [ownTurn_other h hk, hk]

theorem slotsOf_own (hreg : Regular svc) (hs : Sound w svc s) {holders : Finset Nat}
    (hslots : SlotsOf svc s holders) (hp : s.procs i = some p) (h : OwnTurn w svc s i p p' t) : ∃ holders', SlotsOf svc t holders' := by
  have hlinked := hs.linked i p hp
  have hholds : i ∈ holders ↔ p.slot = true := by
    rw [hslots.mem i]
    simp [hp]
  cases h.slots with
  | kept hslot hn =>
    refine ⟨holders, slotsOf_congr hslots hn h.others fun k => ?_⟩
    rw [holds_iff h]
    by_cases hk : k = i
    · subst hk
      simp [hp, hslot]
    · simp [hk]
  | @taken limit rest htodo hfree hslot hn =>
    -- A request that holds a slot has `ConcurrencyLimit` behind it, so this one held none.
    have hnot : i ∉ holders := by
      intro hin
      have hlt := hlinked.held (hholds.mp hin) (.concurrencyLimit limit) (by simp [view, htodo])
      exact absurd hlt (by simp [place])
    refine ⟨insert i holders, ?_, ?_, ?_⟩
    · intro k
      rw [holds_iff h, Finset.mem_insert, hslots.mem k]
      by_cases hk : k = i
      · simp [hk, hslot]
      · simp [hk]
    · rw [Finset.card_insert_of_notMem hnot, hn, h.others, hslots.count]
      omega
    · have hmem : .concurrencyLimit limit ∈ svc.stack :=
        hlinked.suffix.mem (by simp [view, htodo])
      rw [hn, ← hreg.limit limit hmem]
      omega
  | givenBack hslot hslot' hn =>
    have hin : i ∈ holders := hholds.mpr hslot
    have hpos : 0 < holders.card := Finset.card_pos.mpr ⟨i, hin⟩
    have hbound := hslots.bound
    refine ⟨holders.erase i, ?_, ?_, ?_⟩
    · intro k
      rw [holds_iff h, Finset.mem_erase, hslots.mem k]
      by_cases hk : k = i
      · simp [hk, hslot']
      · simp [hk]
    · rw [Finset.card_erase_of_mem hin, hn, h.others, hslots.count]
      omega
    · rw [hn]
      omega

theorem slotsOf_step (hreg : Regular svc) (hs : Sound w svc s) {holders : Finset Nat}
    (hslots : SlotsOf svc s holders) {e : Event} (hstep : step w svc s e = some t) : ∃ holders', SlotsOf svc t holders' := by
  cases e with
  | arrive i r contentLength =>
    simp only [step] at hstep
    split at hstep
    · rename_i hi
      cases hstep
      refine ⟨holders, slotsOf_congr hslots rfl rfl fun k => ?_⟩
      by_cases hk : k = i
      · subst hk
        simp [put, arrived, hi]
      · simp [put, hk]
    · cases hstep
  | own i a =>
    obtain ⟨p, hp, hact⟩ := own_cases hstep
    obtain ⟨p', hturn⟩ := act_turn hp hact
    exact slotsOf_own hreg hs hslots hp hturn
  | occupy =>
    simp only [step] at hstep
    split at hstep
    · rename_i hfree
      cases hstep
      refine ⟨holders, hslots.mem, ?_, ?_⟩
      · change s.slots + 1 = s.others + 1 + holders.card
        rw [hslots.count]
        omega
      · change ((s.slots + 1 : Nat) : Int) ≤ _
        omega
    · cases hstep
  | release =>
    simp only [step] at hstep
    split at hstep
    · cases hstep
      have hcount := hslots.count
      have hbound := hslots.bound
      refine ⟨holders, hslots.mem, ?_, ?_⟩
      · change s.slots - 1 = s.others - 1 + holders.card
        omega
      · change ((s.slots - 1 : Nat) : Int) ≤ _
        omega
    · cases hstep
  | cleanup now =>
    cases hstep
    exact ⟨holders, hslots.mem, hslots.count, hslots.bound⟩
  | redis key stored =>
    cases hstep
    exact ⟨holders, hslots.mem, hslots.count, hslots.bound⟩

end Steps

section Enabled
variable {w : World Key} {svc : Service Key} {s : State Key} {i : Nat} {p : Proc Key}

def CanStep (w : World Key) (svc : Service Key) (s : State Key) (i : Nat) : Prop :=
  ∃ a t, step w svc s (.own i a) = some t

theorem canStep_of_act (hp : s.procs i = some p) {a : Action} {t : State Key} (h : act w svc s i p a = some t) :
    CanStep w svc s i :=
  ⟨a, t, by rw [step, hp]; exact h⟩

theorem proc_of_map {c : CacheFlights.State} {q : CacheFlights.Pc}
    (h : (c.procs i).map CacheFlights.Proc.pc = some q) : ∃ r names, c.procs i = some ⟨r, names, q⟩ := by
  obtain ⟨⟨r, names, pc⟩, hproc, rfl⟩ := Option.map_eq_some_iff.mp h
  exact ⟨r, names, hproc⟩

theorem answer_enabled (ops : List Compress.Op) : ∃ t, answer w svc s i p ops = some t := by
  unfold answer
  split
  · rename_i hq
    obtain ⟨r, names, hproc⟩ := proc_of_map hq
    simp only [CacheFlights.step, hproc]
    split <;> exact ⟨_, rfl⟩
  · exact ⟨_, rfl⟩

theorem fail_enabled : ∃ t, fail w svc s i p = some t := by
  unfold fail
  split
  · rename_i hq
    obtain ⟨r, names, hproc⟩ := proc_of_map hq
    simp only [CacheFlights.step, hproc]
    exact ⟨_, rfl⟩
  · exact ⟨_, rfl⟩

theorem serve_enabled (hfree : s.proxy.inFlight.lookup i = none) : ∃ t, serve w svc s i p none 0 = some t := by
  unfold serve
  split
  · exact answer_enabled _
  · have hstep : ProxyHandler.step s.proxy (.arrive i none 0) = some s.proxy := by
      simp [ProxyHandler.step, hfree, ProxyHandler.serveHTTP]
    rw [hstep]
    exact answer_enabled _

theorem roundTrip_enabled (u : CompressedCache.Upstream) (hin : (s.proxy.inFlight.lookup i).isSome = true) :
    ∃ t, roundTrip w svc s i p (.cut u) 0 = some t := by
  obtain ⟨target, htarget⟩ := Option.isSome_iff_exists.mp hin
  simp only [roundTrip, htarget, Option.bind_some, ProxyHandler.step, Option.map_some]
  exact fail_enabled

/-- Every middleware of a chain that was built answers the request or lets it on. -/
theorem meets_enabled (hs : Sound w svc s) (hp : s.procs i = some p) {m : Middleware Key}
    {rest : List (Middleware Key)} (htodo : p.todo = m :: rest) (x : Readings) :
    ∃ t, encounter w svc s i p x rest m = some t := by
  have hlinked := hs.linked i p hp
  have hin : m ∈ (view s i p).todo := by simp [view, htodo]
  rcases Nat.lt_or_ge 8 (place m) with hm | hm
  · cases m with
    | rateLimit keyFunc =>
      obtain ⟨l, hl⟩ := Option.isSome_iff_exists.mp (hs.limits keyFunc (hlinked.suffix.mem hin))
      simp only [encounter, hl]
      split <;> exact ⟨_, rfl⟩
    | cache =>
      have hnone : s.cache.procs i = none := by
        by_contra hne
        have hlt := hlinked.entered (by simpa [view] using hne) _ hin
        simp [place] at hlt
      simp only [encounter, CacheFlights.step, hnone]
      exact ⟨_, rfl⟩
    | compress minSize => exact ⟨_, rfl⟩
    | _ => simp [place] at hm
  · exact encounter_enabled x rest hm

theorem canStep_of_inside (hp : s.procs i = some p) (hpc : p.pc = .cached) {e : CacheFlights.Event}
    (he : insideCache e = some i) (hc : (CacheFlights.step (cacheConfig w svc) s.cache e).isSome = true) :
    CanStep w svc s i := by
  obtain ⟨c, hc⟩ := Option.isSome_iff_exists.mp hc
  refine canStep_of_act hp (a := .cache e) (t := {s with cache := c}) ?_
  simp only [act, hpc, he, if_true, hc, Option.map_some]

theorem cached_enabled {q : CacheFlights.Pc} (hp : s.procs i = some p) (hpc : p.pc = .cached)
    (hq : (s.cache.procs i).map CacheFlights.Proc.pc = some q) (hwait : ∀ j, q ≠ .waiting j) :
    CanStep w svc s i := by
  obtain ⟨r, names, hproc⟩ := proc_of_map hq
  have hnext (h : q = .passed ∨ q = .leading) : CanStep w svc s i := by
    refine canStep_of_act hp (a := .next) (t := put s i {p with pc := .walking}) ?_
    rcases h with rfl | rfl <;> simp only [act, hpc, hq]
  cases q with
  | arrived => exact canStep_of_inside hp hpc (e := .headersFor i) rfl (by simp [CacheFlights.step, hproc])
  | passed => exact hnext (.inl rfl)
  | keyed =>
    refine canStep_of_inside hp hpc (e := .get i 0) rfl ?_
    simp only [CacheFlights.step, hproc]
    split <;> rfl
  | missed =>
    refine canStep_of_inside hp hpc (e := .enter i) rfl ?_
    simp only [CacheFlights.step, hproc]
    split <;> rfl
  | leading => exact hnext (.inr rfl)
  | captured c => exact canStep_of_inside hp hpc (e := .record i) rfl (by simp [CacheFlights.step, hproc])
  | recorded c => exact canStep_of_inside hp hpc (e := .set i 0) rfl (by simp [CacheFlights.step, hproc])
  | filled res => exact canStep_of_inside hp hpc (e := .finish i) rfl (by simp [CacheFlights.step, hproc])
  | waiting j => exact absurd rfl (hwait j)
  | replied res =>
    cases hresp : (CacheServe.Reply.filled res).response p.header p.request with
    | none => cases res <;> cases hresp
    | some resp =>
      refine canStep_of_act hp (a := .write) (t := put s i {p with pc := .ended (.served resp)}) ?_
      simp only [act, hpc, hq, hresp, Option.map_some]
  | panicked =>
    refine canStep_of_act hp (a := .write) (t := put s i {p with pc := .ended .aborted}) ?_
    simp only [act, hpc, hq]

/-- Nobody but a request that waits in the cache depends on others. -/
theorem canStep_alone (hs : Sound w svc s) (hp : s.procs i = some p) (hopen : ¬ Settled p)
    (hwait : ∀ j, p.pc = .cached → (s.cache.procs i).map CacheFlights.Proc.pc ≠ some (.waiting j)) :
    CanStep w svc s i := by
  have hagree : Agree p.pc ((s.cache.procs i).map CacheFlights.Proc.pc) (s.proxy.inFlight.lookup i).isSome :=
    (hs.linked i p hp).agree
  cases hpc : p.pc with
  | walking =>
    rw [hpc] at hagree
    cases htodo : p.todo with
    | nil =>
      have hfree : s.proxy.inFlight.lookup i = none := by simpa using hagree.2
      obtain ⟨t, ht⟩ : ∃ t, serve w svc s i p none 0 = some t := serve_enabled hfree
      exact canStep_of_act hp (a := .serve none 0) (t := t) (by simp only [act, hpc, htodo, ht])
    | cons m rest =>
      have x : Readings := ⟨0, none, .answered false⟩
      obtain ⟨t, ht⟩ := meets_enabled hs hp htodo x
      exact canStep_of_act hp (a := .pass x) (t := t) (by simp only [act, hpc, htodo, ht])
  | cached =>
    rw [hpc] at hagree
    obtain ⟨q, hq⟩ := Option.ne_none_iff_exists'.mp hagree.1
    exact cached_enabled hp hpc hq fun j hj => hwait j hpc (hj ▸ hq)
  | proxied =>
    rw [hpc] at hagree
    have u : CompressedCache.Upstream := CompressedCache.answering ""
    obtain ⟨t, ht⟩ : ∃ t, roundTrip w svc s i p (.cut u) 0 = some t := roundTrip_enabled u hagree.2
    exact canStep_of_act hp (a := .roundTrip (.cut u) 0) (t := t) (by simp only [act, hpc, ht])
  | ended a =>
    cases hslot : p.slot with
    | false => exact absurd ⟨⟨a, hpc⟩, hslot⟩ hopen
    | true =>
      refine canStep_of_act hp (a := .leave) (t := put {s with slots := s.slots - 1} i {p with slot := false}) ?_
      simp only [act, hpc, hslot]

theorem not_settled_of_leads (hs : Sound w svc s) (hp : s.procs i = some p) {q : CacheFlights.Pc}
    (hq : (s.cache.procs i).map CacheFlights.Proc.pc = some q) (hleads : q.leads = true) : ¬ Settled p := by
  rintro ⟨⟨a, hpc⟩, -⟩
  have hagree := (hs.linked i p hp).agree
  rw [view, hpc, hq] at hagree
  obtain ⟨hnone | hpassed | ⟨q', hq', htold⟩, -⟩ := hagree
  · cases hnone
  · cases hpassed
    cases hleads
  · cases hq'
    cases htold <;> cases hleads

/-- The request at the head of a call in flight can take its next step. -/
theorem leader_canStep (hs : Sound w svc s) {q : CacheFlights.Proc} (hq : s.cache.procs i = some q)
    (hleads : q.pc.leads = true) : CanStep w svc s i := by
  have hmap : (s.cache.procs i).map CacheFlights.Proc.pc = some q.pc := by rw [hq]; rfl
  cases hp : s.procs i with
  | none =>
    rw [(hs.absent i hp).1] at hq
    cases hq
  | some p =>
    refine canStep_alone hs hp (not_settled_of_leads hs hp hmap hleads) ?_
    intro j _ hwait
    rw [hmap] at hwait
    rw [Option.some.inj hwait] at hleads
    cases hleads

/-- A request that has not been answered can go on, or waits for one that can. -/
theorem canStep_of_open (hs : Sound w svc s) (hp : s.procs i = some p) (hopen : ¬ Settled p) :
    ∃ k, CanStep w svc s k := by
  by_cases hwait : ∃ j, p.pc = .cached ∧ (s.cache.procs i).map CacheFlights.Proc.pc = some (.waiting j)
  · obtain ⟨j, hpc, hq⟩ := hwait
    obtain ⟨r, names, hproc⟩ := proc_of_map hq
    obtain ⟨⟨r', names', pc⟩, hleader, -, hled⟩ := hs.cache.waits i _ j hproc rfl
    cases pc with
    | replied res =>
      exact ⟨i, canStep_of_inside hp hpc (e := .reply i) rfl (by simp [CacheFlights.step, hproc, hleader])⟩
    | panicked =>
      exact ⟨i, canStep_of_inside hp hpc (e := .reply i) rfl (by simp [CacheFlights.step, hproc, hleader])⟩
    | _ => exact ⟨j, leader_canStep hs hleader hled⟩
  · exact ⟨i, canStep_alone hs hp hopen fun j hpc hq => hwait ⟨j, hpc, hq⟩⟩

end Enabled

def arrivalOf : Event → Option Nat
  | .arrive i _ _ => some i
  | _ => none

section Drained
variable {w : World Key} {cfg : GatewayConfig} {svc : Service Key} {services : List (Service Key)}
  {redis : String → Option RedisLimiter.Key} {s t : State Key} {es fs : List Event}

theorem arrived_of_present {i : Nat} (he : exec (step w svc) s es = some t) (hi : t.procs i ≠ none) :
    s.procs i ≠ none ∨ i ∈ es.filterMap arrivalOf := by
  induction es generalizing s with
  | nil =>
    cases he
    exact .inl hi
  | cons e es ih =>
    obtain ⟨s', hstep, hrest⟩ := (exec_cons_iff _).mp he
    rcases ih hrest with hpresent | hlater
    · by_cases howner : owner e = some i
      · cases e with
        | arrive k r contentLength =>
          cases howner
          exact .inr (by simp [arrivalOf])
        | own k a =>
          cases howner
          obtain ⟨p, hp, -⟩ := own_cases hstep
          exact .inl (by simp [hp])
        | _ => cases howner
      · rw [undisturbed_step howner hstep] at hpresent
        exact .inl hpresent
    · right
      rw [List.filterMap_cons]
      split
      · exact hlater
      · exact List.mem_cons_of_mem _ hlater

theorem rank_le (hs : Sound w svc s) {i : Nat} {p : Proc Key} (hp : s.procs i = some p) :
    rank svc s i ≤ svc.stack.length + 11 := by
  rw [rank_present hp]
  exact View.rank_le (hs.linked i p hp)

theorem settled_of_stuck (hs : Sound w svc s) (hstuck : ∀ k, ¬ CanStep w svc s k) (i : Nat) (p : Proc Key)
    (hp : s.procs i = some p) : Settled p := by
  by_contra hopen
  obtain ⟨k, hk⟩ := canStep_of_open hs hp hopen
  exact hstuck k hk

theorem slots_of_settled {holders : Finset Nat} (hslots : SlotsOf svc s holders)
    (hall : ∀ i p, s.procs i = some p → Settled p) : s.slots = s.others := by
  have hnone : holders = ∅ := by
    rw [Finset.eq_empty_iff_forall_notMem]
    intro i hin
    obtain ⟨p, hp, hslot⟩ := (hslots.mem i).mp hin
    rw [(hall i p hp).2] at hslot
    cases hslot
  rw [hslots.count, hnone, Finset.card_empty, Nat.add_zero]

/-- Whoever leads a call of the cache, or is with an upstream, is still in the chain. -/
theorem idle_of_settled (hs : Sound w svc s) (hall : ∀ i p, s.procs i = some p → Settled p) :
    (∀ key, s.cache.calls.lookup key = none) ∧ ∀ i, s.proxy.inFlight.lookup i = none := by
  constructor
  · intro key
    by_contra hne
    obtain ⟨j, hj⟩ := Option.ne_none_iff_exists'.mp hne
    obtain ⟨q, hq, -, hleads⟩ := hs.cache.calls key j hj
    have hmap : (s.cache.procs j).map CacheFlights.Proc.pc = some q.pc := by rw [hq]; rfl
    cases hp : s.procs j with
    | none =>
      rw [(hs.absent j hp).1] at hq
      cases hq
    | some p => exact not_settled_of_leads hs hp hmap hleads (hall j p hp)
  · intro i
    cases hp : s.procs i with
    | none => exact (hs.absent i hp).2
    | some p =>
      obtain ⟨a, hpc⟩ := (hall i p hp).1
      have hagree := (hs.linked i p hp).agree
      rw [view, hpc] at hagree
      simpa using hagree.2

/-- A request takes at most one step for each middleware of the chain, and at most twelve more for
its arrival, the cache, the upstream and the slot it gives back. -/
theorem request_steps_bounded (h : buildRouter w cfg = .ok services) (hsvc : svc ∈ services)
    (he : exec (step w svc) (start svc redis) es = some s) (i : Nat) :
    (es.countP fun e => owner e = some i) ≤ svc.stack.length + 12 := by
  have hreg := regular_of_built h hsvc
  have hbound := (descends hreg).countP_add_rank_le (sound_start hreg redis) he i
  change _ ≤ svc.stack.length + 12 at hbound
  omega

theorem ranks_le (hs : Sound w svc s) (A : Finset Nat) (hA : ∀ i ∈ A, s.procs i ≠ none) :
    ∑ i ∈ A, rank svc s i ≤ A.card * (svc.stack.length + 11) := by
  refine Finset.sum_le_card_nsmul A (rank svc s) (svc.stack.length + 11) fun i hi => ?_
  obtain ⟨p, hp⟩ := Option.ne_none_iff_exists'.mp (hA i hi)
  exact rank_le hs hp

theorem exec_sound (hreg : Regular svc) (he : exec (step w svc) s es = some t) (hs : Sound w svc s)
    (hslots : ∃ holders, SlotsOf svc s holders) : Sound w svc t ∧ ∃ holders, SlotsOf svc t holders := by
  refine visits_inductive (step w svc) (fun s => Sound w svc s ∧ ∃ holders, SlotsOf svc s holders) ?_
    ⟨hs, hslots⟩ ⟨es, [], (List.append_nil es).symm, he⟩
  rintro a e b ⟨ha, holders, hslots⟩ hstep
  exact ⟨sound_step hreg ha hstep, slotsOf_step hreg ha hslots hstep⟩

theorem present_of_own {k : Nat} {a : Action} (hfs : ∀ e ∈ fs, ∃ k a, e = .own k a)
    (hf : exec (step w svc) s fs = some t) (hin : .own k a ∈ fs) : s.procs k ≠ none := by
  obtain ⟨before, after, rfl⟩ := List.append_of_mem hin
  obtain ⟨u, hu, hrest⟩ := (exec_append_iff _).mp hf
  obtain ⟨u', hstep, -⟩ := (exec_cons_iff _).mp hrest
  obtain ⟨p, hp, -⟩ := own_cases hstep
  rcases arrived_of_present hu (Option.ne_none_iff_exists'.mpr ⟨p, hp⟩) with hpresent | harrived
  · exact hpresent
  · obtain ⟨e, he, hk⟩ := List.mem_filterMap.mp harrived
    obtain ⟨k', a', rfl⟩ := hfs e (List.mem_append_left _ he)
    cases hk

/-- Once no more requests arrive the requests take a bounded number of steps together, and when
none of them can take another one, all of them are answered and have given their slots back, and
no call of the cache and no request to an upstream is left. -/
theorem service_drains (h : buildRouter w cfg = .ok services) (hsvc : svc ∈ services)
    (he : exec (step w svc) (start svc redis) es = some s) (hfs : ∀ e ∈ fs, ∃ k a, e = .own k a)
    (hf : exec (step w svc) s fs = some t) :
    fs.length ≤ (es.filterMap arrivalOf).length * (svc.stack.length + 11) ∧
      (∃ holders, SlotsOf svc t holders) ∧
      ((∀ k, ¬ CanStep w svc t k) →
        (∀ i p, t.procs i = some p → Settled p) ∧ t.slots = t.others ∧
          (∀ key, t.cache.calls.lookup key = none) ∧ ∀ i, t.proxy.inFlight.lookup i = none) := by
  have hreg := regular_of_built h hsvc
  obtain ⟨hs, hslots⟩ := exec_sound hreg he (sound_start hreg redis) ⟨∅, slotsOf_start redis⟩
  obtain ⟨ht, holders, hslots'⟩ := exec_sound hreg hf hs hslots
  refine ⟨?_, ⟨holders, hslots'⟩, ?_⟩
  · let A := (es.filterMap arrivalOf).toFinset.filter fun i => (s.procs i).isSome = true
    have hpresent : ∀ i ∈ A, s.procs i ≠ none := by
      intro i hi
      exact Option.isSome_iff_ne_none.mp (Finset.mem_filter.mp hi).2
    have howner : ∀ e ∈ fs, ∃ i ∈ A, owner e = some i := by
      intro e hin
      obtain ⟨k, a, rfl⟩ := hfs e hin
      have hk := present_of_own hfs hf hin
      refine ⟨k, Finset.mem_filter.mpr ⟨?_, Option.isSome_iff_ne_none.mpr hk⟩, rfl⟩
      rcases arrived_of_present he hk with hstart | harrived
      · exact absurd rfl hstart
      · exact List.mem_toFinset.mpr harrived
    calc
      fs.length ≤ ∑ i ∈ A, rank svc s i := (descends hreg).length_le_sum hs A howner hf
      _ ≤ A.card * (svc.stack.length + 11) := ranks_le hs A hpresent
      _ ≤ _ := Nat.mul_le_mul_right _ ((Finset.card_filter_le _ _).trans (List.toFinset_card_le _))
  · intro hstuck
    have hall := settled_of_stuck ht hstuck
    exact ⟨hall, slots_of_settled hslots' hall, idle_of_settled ht hall⟩

theorem request_steps_bounded_three :
    ∃ s, exec (step sampleWorld mounted) (start mounted fun _ => none) threeRequests = some s ∧
      (threeRequests.countP fun e => owner e = some 0) = 24 ∧ 24 ≤ mounted.stack.length + 12 := by
  have hrun : (exec (step sampleWorld mounted) (start mounted fun _ => none) threeRequests).isSome = true := by
    decide +kernel
  obtain ⟨s, hs⟩ := Option.isSome_iff_exists.mp hrun
  have hcount : (threeRequests.countP fun e => owner e = some 0) = 24 := by decide +kernel
  exact ⟨s, hs, hcount, hcount ▸ request_steps_bounded built_gateway.2 List.mem_cons_self hs 0⟩

theorem service_drains_three :
    ∃ s t, exec (step sampleWorld mounted) (start mounted fun _ => none) threeRequests = some s ∧
      exec (step sampleWorld mounted) s [.own 2 .leave] = some t ∧
      1 ≤ (threeRequests.filterMap arrivalOf).length * (mounted.stack.length + 11) ∧
      (∃ holders, SlotsOf mounted t holders) ∧
      ((∀ k, ¬ CanStep sampleWorld mounted t k) →
        (∀ i p, t.procs i = some p → Settled p) ∧ t.slots = t.others ∧
          (∀ key, t.cache.calls.lookup key = none) ∧ ∀ i, t.proxy.inFlight.lookup i = none) := by
  have hrun : ((exec (step sampleWorld mounted) (start mounted fun _ => none) threeRequests).bind fun s =>
      exec (step sampleWorld mounted) s [.own 2 .leave]).isSome = true := by
    decide +kernel
  obtain ⟨t, ht⟩ := Option.isSome_iff_exists.mp hrun
  obtain ⟨s, hs, hf⟩ := Option.bind_eq_some_iff.mp ht
  have hown : ∀ e ∈ [Event.own 2 .leave], ∃ k a, e = .own k a := by simp
  exact ⟨s, t, hs, hf, service_drains built_gateway.2 List.mem_cons_self hs hown hf⟩

end Drained

end ApiGateway.ServiceProgress
