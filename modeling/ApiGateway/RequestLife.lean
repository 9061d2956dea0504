import ApiGateway.ProtectedService

/-!
# The life of one request

A request that walks the chain of a service is known to three of its parts: the chain itself, the
cache, where it may lead a call or wait for one, and the proxy, where it may be in flight. `View`
is what they know together, and `Turn` is everything that one step of the request can make of it.
Each step of the chain is a turn of the request that takes it and leaves the views of all the
others alone, so what holds of every life of a request, and how long such a life is, can be read
off the turns.
-/

namespace ApiGateway.RequestLife

open Runs ServiceChain ProtectedService Tables
set_option autoImplicit false

variable {Key : Type}

structure View (Key : Type) where
  pc : Pc
  todo : List (Middleware Key)
  slot : Bool
  inCache : Option CacheFlights.Pc
  flying : Bool

def view (s : State Key) (i : Nat) (p : Proc Key) : View Key :=
  ⟨p.pc, p.todo, p.slot, (s.cache.procs i).map CacheFlights.Proc.pc, (s.proxy.inFlight.lookup i).isSome⟩

/-- How a request gets on inside the cache, without the handler behind it. -/
inductive Within : CacheFlights.Pc → CacheFlights.Pc → Prop
  | keyed : Within .arrived .keyed
  | hit {res : CacheServe.SfResult} : Within .keyed (.replied res)
  | missed : Within .keyed .missed
  | joined {j : Nat} : Within .missed (.waiting j)
  | leads : Within .missed .leading
  | recorded {c : Lru.Captured} : Within (.captured c) (.recorded c)
  | stored {c : Lru.Captured} {res : CacheServe.SfResult} : Within (.recorded c) (.filled res)
  | finished {res : CacheServe.SfResult} : Within (.filled res) (.replied res)
  | replied {j : Nat} {res : CacheServe.SfResult} : Within (.waiting j) (.replied res)
  | fell {j : Nat} : Within (.waiting j) .panicked

/-- What the handler has answered the request that leads a call. -/
inductive Filled : CacheFlights.Pc → Prop
  | captured (c : Lru.Captured) : Filled (.captured c)
  | refused (res : CacheServe.SfResult) : Filled (.filled res)

/-- The cache has nothing more to say to the request. -/
inductive Told : CacheFlights.Pc → Prop
  | replied (res : CacheServe.SfResult) : Told (.replied res)
  | panicked : Told .panicked

/-- The request has got to the end of the chain, or is with the upstream. -/
inductive Handled : Pc → List (Middleware Key) → Prop
  | served : Handled .walking []
  | proxied (todo : List (Middleware Key)) : Handled .proxied todo

inductive Turn : View Key → View Key → Prop
  | pass {m : Middleware Key} {rest : List (Middleware Key)} {slot slot' : Bool}
    {q : Option CacheFlights.Pc} {f : Bool} (hm : place m ≠ 10)
    (hslot : slot' = slot ∨ place m = 6 ∧ slot' = true) :
    Turn ⟨.walking, m :: rest, slot, q, f⟩ ⟨.walking, rest, slot', q, f⟩
  | refuse {m : Middleware Key} {rest : List (Middleware Key)} {slot : Bool} {q : Option CacheFlights.Pc}
    {f : Bool} {a : Ending} (hm : place m < 10) :
    Turn ⟨.walking, m :: rest, slot, q, f⟩ ⟨.ended a, m :: rest, slot, q, f⟩
  | enter {rest : List (Middleware Key)} {slot : Bool} {q : CacheFlights.Pc} {f : Bool}
    (hq : q = .arrived ∨ q = .passed) :
    Turn ⟨.walking, .cache :: rest, slot, none, f⟩ ⟨.cached, rest, slot, some q, f⟩
  | inside {todo : List (Middleware Key)} {slot : Bool} {q q' : CacheFlights.Pc} {f : Bool}
    (hq : Within q q') : Turn ⟨.cached, todo, slot, some q, f⟩ ⟨.cached, todo, slot, some q', f⟩
  | next {todo : List (Middleware Key)} {slot : Bool} {q : CacheFlights.Pc} {f : Bool}
    (hq : q = .passed ∨ q = .leading) :
    Turn ⟨.cached, todo, slot, some q, f⟩ ⟨.walking, todo, slot, some q, f⟩
  | write {todo : List (Middleware Key)} {slot : Bool} {q : CacheFlights.Pc} {f : Bool} {a : Ending}
    (hq : Told q) : Turn ⟨.cached, todo, slot, some q, f⟩ ⟨.ended a, todo, slot, some q, f⟩
  | forward {slot : Bool} {q : Option CacheFlights.Pc} :
    Turn ⟨.walking, [], slot, q, false⟩ ⟨.proxied, [], slot, q, true⟩
  | answer {pc : Pc} {todo : List (Middleware Key)} {slot : Bool} {q : Option CacheFlights.Pc}
    {f f' : Bool} {a : Ending} (hpc : Handled pc todo) (hq : q ≠ some .leading)
    (hf : f' = false ∨ pc = .walking ∧ f' = f) : Turn ⟨pc, todo, slot, q, f⟩ ⟨.ended a, todo, slot, q, f'⟩
  | fill {pc : Pc} {todo : List (Middleware Key)} {slot : Bool} {q : CacheFlights.Pc} {f f' : Bool}
    (hpc : Handled pc todo) (hq : Filled q) (hf : f' = false ∨ pc = .walking ∧ f' = f) :
    Turn ⟨pc, todo, slot, some .leading, f⟩ ⟨.cached, todo, slot, some q, f'⟩
  | abort {pc : Pc} {todo : List (Middleware Key)} {slot : Bool} {f f' : Bool} {a : Ending}
    (hpc : Handled pc todo) (hf : f' = false ∨ pc = .walking ∧ f' = f) :
    Turn ⟨pc, todo, slot, some .leading, f⟩ ⟨.ended a, todo, slot, some .panicked, f'⟩
  | leave {a : Ending} {todo : List (Middleware Key)} {q : Option CacheFlights.Pc} {f : Bool} :
    Turn ⟨.ended a, todo, true, q, f⟩ ⟨.ended a, todo, false, q, f⟩

/-- The request is not inside the cache, or the cache has sent it on. -/
inductive Outside : Option CacheFlights.Pc → Prop
  | unmet : Outside none
  | passed : Outside (some .passed)
  | leading : Outside (some .leading)

/-- Where the cache and the proxy see a request that the chain sees at `pc`. -/
def Agree : Pc → Option CacheFlights.Pc → Bool → Prop
  | .walking, q, f => Outside q ∧ f = false
  | .cached, q, f => q ≠ none ∧ f = false
  | .proxied, q, f => Outside q ∧ f = true
  | .ended _, q, f => (q = none ∨ q = some .passed ∨ ∃ q', q = some q' ∧ Told q') ∧ f = false

/-- What holds of a request in every reachable state. `Cache` is behind it once the cache knows
it, and `ConcurrencyLimit` once it holds a slot. -/
structure Linked (stack : List (Middleware Key)) (v : View Key) : Prop where
  suffix : v.todo <:+ stack
  entered : v.inCache ≠ none → ∀ m ∈ v.todo, 10 < place m
  held : v.slot = true → ∀ m ∈ v.todo, 6 < place m
  agree : Agree v.pc v.inCache v.flying

/-- What a request inside the cache has still ahead of it. -/
def cacheRank : CacheFlights.Pc → Nat
  | .arrived => 11
  | .keyed => 10
  | .missed => 9
  | .passed => 8
  | .leading => 8
  | .captured _ => 5
  | .recorded _ => 4
  | .filled _ => 3
  | .waiting _ => 3
  | .replied _ => 2
  | .panicked => 2

/-- What a request has still ahead of it, apart from middlewares. -/
def stageRank : Pc → Option CacheFlights.Pc → Nat
  | .walking, none => 11
  | .walking, some _ => 7
  | .cached, none => 0
  | .cached, some q => cacheRank q
  | .proxied, _ => 6
  | .ended _, _ => 0

def View.rank (v : View Key) : Nat :=
  match v.pc with
  | .ended _ => v.slot.toNat
  | pc => v.todo.length + stageRank pc v.inCache

section Turns
variable {stack : List (Middleware Key)} {v v' : View Key}

theorem within_rank {q q' : CacheFlights.Pc} (h : Within q q') : cacheRank q' < cacheRank q := by
  cases h <;> simp [cacheRank]

theorem filled_rank {q : CacheFlights.Pc} (h : Filled q) : cacheRank q < 6 := by
  cases h <;> simp [cacheRank]

theorem rank_turn (ht : Turn v v') : v'.rank < v.rank := by
  cases ht with
  | @pass m rest slot slot' q f hm hslot =>
    cases q <;> simp [View.rank, stageRank]
  | @refuse m rest slot q f a hm =>
    cases slot <;> cases q <;> simp [View.rank, stageRank]
  | @enter rest slot q f hq =>
    rcases hq with rfl | rfl <;> simp only [View.rank, stageRank, cacheRank, List.length_cons] <;> omega
  | @inside todo slot q q' f hq =>
    have := within_rank hq
    simp only [View.rank, stageRank]
    omega
  | @next todo slot q f hq =>
    rcases hq with rfl | rfl <;> simp [View.rank, stageRank, cacheRank]
  | @write todo slot q f a hq =>
    cases hq <;> cases slot <;> simp [View.rank, stageRank, cacheRank]
  | @forward slot q =>
    cases q <;> simp [View.rank, stageRank]
  | @answer pc todo slot q f f' a hpc hq hf =>
    cases hpc <;> cases slot <;> cases q <;> simp [View.rank, stageRank]
  | @fill pc todo slot q f f' hpc hq hf =>
    have := filled_rank hq
    cases hpc <;> simp only [View.rank, stageRank] <;> omega
  | @abort pc todo slot f f' a hpc hf =>
    cases hpc <;> cases slot <;> simp [View.rank, stageRank]
  | leave => simp [View.rank]

theorem agree_flying {pc : Pc} {q : Option CacheFlights.Pc} {f f' : Bool} (h : Agree pc q f)
    (hf : f' = false ∨ pc = .walking ∧ f' = f) : f' = false := by
  rcases hf with hf | ⟨rfl, rfl⟩
  · exact hf
  · exact h.2

theorem outside_handled {pc : Pc} {todo : List (Middleware Key)} {q : Option CacheFlights.Pc} {f : Bool}
    (h : Agree pc q f) (hpc : Handled pc todo) : Outside q := by
  cases hpc
  · exact h.1
  · exact h.1

theorem linked_turn (hs : stack.Pairwise fun m m' => place m < place m') (h : Linked stack v)
    (ht : Turn v v') : Linked stack v' := by
  obtain ⟨hsuffix, hentered, hheld, hagree⟩ := h
  cases ht with
  | @pass m rest slot slot' q f hm hslot =>
    refine ⟨(List.suffix_cons m rest).trans hsuffix, ?_, ?_, hagree⟩
    · exact fun hq m' hin => hentered hq m' (List.mem_cons_of_mem m hin)
    · intro hslot' m' hin
      rcases hslot with rfl | ⟨hm', -⟩
      · exact hheld hslot' m' (List.mem_cons_of_mem m hin)
      · exact hm' ▸ place_lt_of_sorted hs hsuffix hin
  | @refuse m rest slot q f a hm =>
    refine ⟨hsuffix, hentered, hheld, ?_, hagree.2⟩
    -- Whoever is behind `Cache` meets no middleware that answers for itself.
    by_cases hq : q = none
    · exact .inl hq
    · have := hentered hq m List.mem_cons_self
      omega
  | @enter rest slot q f hq =>
    refine ⟨(List.suffix_cons _ rest).trans hsuffix, ?_, ?_, Option.some_ne_none q, hagree.2⟩
    · exact fun _ m' hin => place_lt_of_sorted hs hsuffix hin
    · exact fun hslot m' hin => hheld hslot m' (List.mem_cons_of_mem _ hin)
  | @inside todo slot q q' f hq =>
    exact ⟨hsuffix, fun _ => hentered (Option.some_ne_none q), hheld, Option.some_ne_none q', hagree.2⟩
  | @next todo slot q f hq =>
    refine ⟨hsuffix, hentered, hheld, ?_, hagree.2⟩
    rcases hq with rfl | rfl
    · exact .passed
    · exact .leading
  | @write todo slot q f a hq =>
    exact ⟨hsuffix, hentered, hheld, .inr (.inr ⟨q, rfl, hq⟩), hagree.2⟩
  | @forward slot q => exact ⟨hsuffix, hentered, hheld, hagree.1, rfl⟩
  | @answer pc todo slot q f f' a hpc hq hf =>
    refine ⟨hsuffix, hentered, hheld, ?_, agree_flying hagree hf⟩
    have hout : Outside q := outside_handled hagree hpc
    cases hout with
    | unmet => exact .inl rfl
    | passed => exact .inr (.inl rfl)
    | leading => exact absurd rfl hq
  | @fill pc todo slot q f f' hpc hq hf =>
    exact ⟨hsuffix, fun _ => hentered (Option.some_ne_none _), hheld, Option.some_ne_none q,
      agree_flying hagree hf⟩
  | @abort pc todo slot f f' a hpc hf =>
    exact ⟨hsuffix, fun _ => hentered (Option.some_ne_none _), hheld, .inr (.inr ⟨_, rfl, .panicked⟩),
      agree_flying hagree hf⟩
  | leave => exact ⟨hsuffix, hentered, by simp, hagree⟩

theorem stageRank_le (pc : Pc) (q : Option CacheFlights.Pc) : stageRank pc q ≤ 11 := by
  cases pc with
  | walking => cases q <;> simp [stageRank]
  | cached =>
    cases q with
    | none => simp [stageRank]
    | some q => cases q <;> simp [stageRank, cacheRank]
  | proxied => simp [stageRank]
  | ended a => simp [stageRank]

theorem View.rank_le (h : Linked stack v) : v.rank ≤ stack.length + 11 := by
  have htodo := h.suffix.length_le
  have hstage := stageRank_le v.pc v.inCache
  have hslot := v.slot.toNat_le
  unfold View.rank
  split <;> omega

end Turns

/-- What a step does to the slots of `ConcurrencyLimit`. -/
inductive SlotMove (s : State Key) (p p' : Proc Key) (t : State Key) : Prop
  | kept (hslot : p'.slot = p.slot) (hn : t.slots = s.slots)
  | taken {limit : Int} {rest : List (Middleware Key)} (htodo : p.todo = .concurrencyLimit limit :: rest)
    (hfree : (s.slots : Int) < limit) (hslot : p'.slot = true) (hn : t.slots = s.slots + 1)
  | givenBack (hslot : p.slot = true) (hslot' : p'.slot = false) (hn : t.slots = s.slots - 1)

/-- What a step does to the limiter: only a request that stands before `RateLimit` asks it. -/
inductive LimitsMove (s : State Key) (p : Proc Key) (limits : Option Limits) : Prop
  | kept (hsame : limits = s.limits)
  | asked {keyFunc : ServiceLimiter.KeyFunc} {rest : List (Middleware Key)} (hw : p.pc = .walking)
    (htodo : p.todo = .rateLimit keyFunc :: rest) (hsome : s.limits.isSome = true) (hsome' : limits.isSome = true)

/-- A step of the request `i` is a turn of its view, and the others see nothing of it but the slot
it takes or gives back. -/
structure OwnTurn (w : World Key) (svc : Service Key) (s : State Key) (i : Nat) (p p' : Proc Key)
    (t : State Key) : Prop where
  turn : Turn (view s i p) (view t i p')
  procs : t.procs = Function.update s.procs i (some p')
  others : t.others = s.others
  limits : LimitsMove s p t.limits
  cache : t.cache = s.cache ∨
    ∃ e, CacheFlights.Event.subject e = i ∧ CacheFlights.Step (cacheConfig w svc) s.cache e t.cache
  proxy : ∀ k, k ≠ i → t.proxy.inFlight.lookup k = s.proxy.inFlight.lookup k
  handler : t.proxy = s.proxy ∨ Handled p.pc p.todo
  slots : SlotMove s p p' t

section Steps
variable {w : World Key} {svc : Service Key} {s t : State Key} {i : Nat} {p p' : Proc Key}

section Pass
variable {x : Readings} {m : Middleware Key} {rest : List (Middleware Key)}

theorem isSome_of_limitsMove {limits : Option Limits} (h : LimitsMove s p limits) :
    limits.isSome = s.limits.isSome := by
  cases h with
  | kept hsame => rw [hsame]
  | asked hw htodo hsome hsome' => rw [hsome, hsome']

theorem ownTurn_pass (hw : p.pc = .walking) (htodo : p.todo = m :: rest) (hm : place m ≠ 10)
    {limits : Option Limits} (hlimits : LimitsMove s p limits)
    (hp' : p'.pc = p.pc ∧ p'.todo = rest ∧ p'.slot = p.slot) :
    ∃ q, OwnTurn w svc s i p q (put {s with limits := limits} i p') := by
  obtain ⟨hpc, hrest, hslot⟩ := hp'
  refine ⟨p', ?_, rfl, rfl, hlimits, .inl rfl, fun _ _ => rfl, .inl rfl, .kept hslot rfl⟩
  rw [view, view, hpc, hw, htodo, hrest]
  exact .pass hm (.inl hslot)

theorem ownTurn_refuse {a : Ending} (hw : p.pc = .walking) (htodo : p.todo = m :: rest) (hm : place m < 10)
    {limits : Option Limits} (hlimits : LimitsMove s p limits)
    (hp' : p'.pc = .ended a ∧ p'.todo = p.todo ∧ p'.slot = p.slot) :
    ∃ q, OwnTurn w svc s i p q (put {s with limits := limits} i p') := by
  obtain ⟨hpc, htodo', hslot⟩ := hp'
  refine ⟨p', ?_, rfl, rfl, hlimits, .inl rfl, fun _ _ => rfl, .inl rfl, .kept hslot rfl⟩
  rw [view, view, hw, hpc, htodo', htodo, hslot]
  exact .refuse hm

theorem ownTurn_slot {limit : Int} (hw : p.pc = .walking) (htodo : p.todo = .concurrencyLimit limit :: rest)
    (hfree : (s.slots : Int) < limit) :
    OwnTurn w svc s i p {p with todo := rest, slot := true}
      (put {s with slots := s.slots + 1} i {p with todo := rest, slot := true}) where
  turn := by
    rw [view, view, hw, htodo]
    exact .pass (by simp [place]) (.inr ⟨rfl, rfl⟩)
  procs := rfl
  others := rfl
  limits := .kept rfl
  cache := .inl rfl
  proxy _ _ := rfl
  handler := .inl rfl
  slots := .taken htodo hfree rfl rfl

theorem ownTurn_enter {c : CacheFlights.State} (hw : p.pc = .walking) (htodo : p.todo = .cache :: rest)
    (h : CacheFlights.step (cacheConfig w svc) s.cache (.arrive i p.request) = some c) :
    OwnTurn w svc s i p {p with todo := rest, pc := .cached}
      (put {s with cache := c} i {p with todo := rest, pc := .cached}) where
  turn := by
    cases CacheFlights.step_cases h with
    | arrive hi =>
      rw [view, view, hw, htodo, hi]
      change Turn _ ⟨_, _, _, Option.map _ ((CacheFlights.put _ _ _).procs i), _⟩
      rw [CacheFlights.put_self]
      refine .enter ?_
      split
      · exact .inl rfl
      · exact .inr rfl
  procs := rfl
  others := rfl
  limits := .kept rfl
  cache := .inr ⟨_, rfl, CacheFlights.step_cases h⟩
  proxy _ _ := rfl
  handler := .inl rfl
  slots := .kept rfl rfl

theorem encounter_turn (hw : p.pc = .walking) (htodo : p.todo = m :: rest)
    (h : encounter w svc s i p x rest m = some t) : ∃ p', OwnTurn w svc s i p p' t := by
  cases m with
  | recoverer =>
    cases h
    exact ownTurn_pass hw htodo (by simp [place]) (.kept rfl) ⟨rfl, rfl, rfl⟩
  | requestID =>
    simp only [encounter] at h
    split at h
    · cases h
      exact ownTurn_refuse hw htodo (by simp [place]) (.kept rfl) ⟨rfl, rfl, rfl⟩
    · cases h
      exact ownTurn_pass hw htodo (by simp [place]) (.kept rfl) ⟨rfl, rfl, rfl⟩
  | logger =>
    cases h
    exact ownTurn_pass hw htodo (by simp [place]) (.kept rfl) ⟨rfl, rfl, rfl⟩
  | maxBody limit =>
    simp only [encounter] at h
    split at h
    · cases h
      exact ownTurn_refuse hw htodo (by simp [place]) (.kept rfl) ⟨rfl, rfl, rfl⟩
    · cases h
      exact ownTurn_pass hw htodo (by simp [place]) (.kept rfl) ⟨rfl, rfl, rfl⟩
  | metrics =>
    cases h
    exact ownTurn_pass hw htodo (by simp [place]) (.kept rfl) ⟨rfl, rfl, rfl⟩
  | tracing =>
    cases h
    exact ownTurn_pass hw htodo (by simp [place]) (.kept rfl) ⟨rfl, rfl, rfl⟩
  | concurrencyLimit limit =>
    simp only [encounter] at h
    split at h
    · cases h
      exact ownTurn_pass hw htodo (by simp [place]) (.kept rfl) ⟨rfl, rfl, rfl⟩
    · split at h
      · cases h
        exact ⟨_, ownTurn_slot hw htodo ‹_›⟩
      · cases h
        exact ownTurn_refuse hw htodo (by simp [place]) (.kept rfl) ⟨rfl, rfl, rfl⟩
  | jwtAuth key =>
    simp only [encounter] at h
    split at h
    · cases h
      exact ownTurn_refuse hw htodo (by simp [place]) (.kept rfl) ⟨rfl, rfl, rfl⟩
    · cases h
      exact ownTurn_pass hw htodo (by simp [place]) (.kept rfl) ⟨rfl, rfl, rfl⟩
  | requireAnyRole roles =>
    simp only [encounter] at h
    split at h
    · cases h
      exact ownTurn_refuse hw htodo (by simp [place]) (.kept rfl) ⟨rfl, rfl, rfl⟩
    · cases h
      exact ownTurn_pass hw htodo (by simp [place]) (.kept rfl) ⟨rfl, rfl, rfl⟩
  | rateLimit keyFunc =>
    simp only [encounter] at h
    split at h
    · cases h
    · rename_i l hl
      split at h
      · cases h
        exact ownTurn_refuse hw htodo (by simp [place]) (.asked hw htodo (by rw [hl]; rfl) rfl) ⟨rfl, rfl, rfl⟩
      · cases h
        exact ownTurn_pass hw htodo (by simp [place]) (.asked hw htodo (by rw [hl]; rfl) rfl) ⟨rfl, rfl, rfl⟩
  | cache =>
    obtain ⟨c, hc, rfl⟩ := Option.map_eq_some_iff.mp h
    exact ⟨_, ownTurn_enter hw htodo hc⟩
  | compress minSize =>
    cases h
    exact ownTurn_pass hw htodo (by simp [place]) (.kept rfl) ⟨rfl, rfl, rfl⟩

end Pass

section Handled
variable {h : ProxyHandler.Handler} {ops : List Compress.Op}

/-- The handler has changed what is in flight for the request `i` at most, and for it only to
nothing, unless it was never called. -/
structure Returned (s : State Key) (i : Nat) (p : Proc Key) (h : ProxyHandler.Handler) : Prop where
  handled : Handled p.pc p.todo
  proxy : ∀ k, k ≠ i → h.inFlight.lookup k = s.proxy.inFlight.lookup k
  flying : (h.inFlight.lookup i).isSome = false ∨
    p.pc = .walking ∧ (h.inFlight.lookup i).isSome = (s.proxy.inFlight.lookup i).isSome

theorem answer_turn (hr : Returned s i p h) (ha : answer w svc {s with proxy := h} i p ops = some t) :
    ∃ p', OwnTurn w svc s i p p' t := by
  unfold answer at ha
  split at ha
  · rename_i hq
    obtain ⟨c, hc, rfl⟩ := Option.map_eq_some_iff.mp ha
    refine ⟨_, ?_, rfl, rfl, .kept rfl, .inr ⟨_, rfl, CacheFlights.step_cases hc⟩, hr.proxy, .inr hr.handled, .kept rfl rfl⟩
    change Turn ⟨_, _, _, (s.cache.procs i).map _, _⟩ ⟨_, _, _, (c.procs i).map _, _⟩
    change (s.cache.procs i).map CacheFlights.Proc.pc = some .leading at hq
    rw [hq]
    cases CacheFlights.step_cases hc with
    | capture hi hcacheable =>
      rw [CacheFlights.put_self]
      exact .fill hr.handled (.captured _) hr.flying
    | refuse hi hcacheable =>
      rw [CacheFlights.put_self]
      exact .fill hr.handled (.refused _) hr.flying
  · rename_i hq
    cases ha
    refine ⟨_, ?_, rfl, rfl, .kept rfl, .inl rfl, hr.proxy, .inr hr.handled, .kept rfl rfl⟩
    exact .answer hr.handled hq hr.flying

theorem fail_turn (hr : Returned s i p h) (ha : fail w svc {s with proxy := h} i p = some t) :
    ∃ p', OwnTurn w svc s i p p' t := by
  unfold fail at ha
  split at ha
  · rename_i hq
    obtain ⟨c, hc, rfl⟩ := Option.map_eq_some_iff.mp ha
    refine ⟨_, ?_, rfl, rfl, .kept rfl, .inr ⟨_, rfl, CacheFlights.step_cases hc⟩, hr.proxy, .inr hr.handled, .kept rfl rfl⟩
    change Turn ⟨_, _, _, (s.cache.procs i).map _, _⟩ ⟨_, _, _, (c.procs i).map _, _⟩
    change (s.cache.procs i).map CacheFlights.Proc.pc = some .leading at hq
    rw [hq]
    cases CacheFlights.step_cases hc with
    | panic hi =>
      rw [CacheFlights.put_self]
      exact .abort hr.handled hr.flying
  · rename_i hq
    cases ha
    refine ⟨_, ?_, rfl, rfl, .kept rfl, .inl rfl, hr.proxy, .inr hr.handled, .kept rfl rfl⟩
    exact .answer hr.handled hq hr.flying

theorem serveHTTP_inFlight (h : ProxyHandler.Handler) (next : Option String) (now : Int) :
    (ProxyHandler.serveHTTP h next now).1.inFlight = h.inFlight := by
  unfold ProxyHandler.serveHTTP
  split
  · rfl
  · split
    · rfl
    · split <;> rfl

theorem arrive_inFlight {h' : ProxyHandler.Handler} {next : Option String} {now : Int}
    (hstep : ProxyHandler.step h (.arrive i next now) = some h') :
    h.inFlight.lookup i = none ∧
      ((∃ u, (ProxyHandler.serveHTTP h next now).2 = .proxied u ∧ h'.inFlight = h.inFlight.insert i u) ∨
        (∀ u, (ProxyHandler.serveHTTP h next now).2 ≠ .proxied u) ∧ h'.inFlight = h.inFlight) := by
  have hsame := serveHTTP_inFlight h next now
  simp only [ProxyHandler.step] at hstep
  split at hstep
  · cases hstep
  · rename_i hfree
    refine ⟨Option.not_isSome_iff_eq_none.mp hfree, ?_⟩
    split at hstep
    · rename_i h₁ u heq
      cases hstep
      rw [heq] at hsame ⊢
      exact .inl ⟨u, rfl, by rw [← hsame]⟩
    · rename_i h₁ served hno heq
      cases hstep
      rw [heq] at hsame ⊢
      exact .inr ⟨fun u hu => hno u hu, hsame⟩

theorem finish_inFlight {h' : ProxyHandler.Handler} {outcome : ProxyHandler.Outcome} {now : Int}
    (hstep : ProxyHandler.step h (.finish i outcome now) = some h') :
    h'.inFlight = h.inFlight.erase i := by
  obtain ⟨u, -, rfl⟩ := Option.map_eq_some_iff.mp hstep
  rfl

theorem serve_turn {next : Option String} {now : Int} (hw : p.pc = .walking) (htodo : p.todo = [])
    (ha : serve w svc s i p next now = some t) : ∃ p', OwnTurn w svc s i p p' t := by
  have hhandled : Handled p.pc p.todo := by
    rw [hw, htodo]
    exact .served
  unfold serve at ha
  split at ha
  · exact (answer_turn ⟨hhandled, fun _ _ => rfl, .inr ⟨hw, rfl⟩⟩ ha :)
  · obtain ⟨h', hstep, ha⟩ := Option.bind_eq_some_iff.mp ha
    obtain ⟨hfree, ⟨u, hu, hin⟩ | ⟨hno, hin⟩⟩ := arrive_inFlight hstep
    · rw [hu] at ha
      cases ha
      refine ⟨_, ?_, rfl, rfl, .kept rfl, .inl rfl, ?_, .inr hhandled, .kept rfl rfl⟩
      · change Turn ⟨_, _, _, _, (s.proxy.inFlight.lookup i).isSome⟩
          ⟨_, _, _, _, (h'.inFlight.lookup i).isSome⟩
        rw [hin, hfree, AList.lookup_insert, hw, htodo]
        exact .forward
      · intro k hk
        exact (congrArg _ hin).trans (AList.lookup_insert_ne hk)
    · have hr : Returned s i p h' := by
        refine ⟨hhandled, fun k _ => congrArg _ hin, .inl ?_⟩
        rw [hin, hfree]
        rfl
      split at ha
      · rename_i u hu
        exact absurd hu (hno u)
      · exact answer_turn hr ha
      · exact fail_turn hr ha

theorem roundTrip_turn {result : RoundTrip} {now : Int} (hpc : p.pc = .proxied)
    (ha : roundTrip w svc s i p result now = some t) : ∃ p', OwnTurn w svc s i p p' t := by
  unfold roundTrip at ha
  obtain ⟨target, -, ha⟩ := Option.bind_eq_some_iff.mp ha
  obtain ⟨h', hstep, ha⟩ := Option.bind_eq_some_iff.mp ha
  have hin := finish_inFlight hstep
  have hr : Returned s i p h' := by
    refine ⟨hpc ▸ .proxied _, ?_, .inl ?_⟩
    · intro k hk
      rw [hin, AList.lookup_erase_ne hk]
    · rw [hin, AList.lookup_erase]
      rfl
  split at ha
  · exact answer_turn hr ha
  · exact fail_turn hr ha
  · split at ha
    · exact answer_turn hr ha
    · exact fail_turn hr ha

end Handled

theorem within_of_step {cfg : CacheControl.CacheConfig} {c c' : CacheFlights.State} {e : CacheFlights.Event}
    (he : insideCache e = some i) (h : CacheFlights.Step cfg c e c') :
    CacheFlights.Event.subject e = i ∧ ∃ q q', (c.procs i).map CacheFlights.Proc.pc = some q ∧
      (c'.procs i).map CacheFlights.Proc.pc = some q' ∧ Within q q' := by
  have hput {c₀ : CacheFlights.State} {k : Nat} {r r' : Http.Request} {names names' : List String}
      {q q' : CacheFlights.Pc} (hk : k = i) (hp : c.procs k = some ⟨r, names, q⟩) (hq : Within q q') :
      k = i ∧ ∃ a b, (c.procs i).map CacheFlights.Proc.pc = some a ∧
        ((CacheFlights.put c₀ k ⟨r', names', q'⟩).procs i).map CacheFlights.Proc.pc = some b ∧
        Within a b := by
    subst hk
    exact ⟨rfl, q, q', by rw [hp]; rfl, by rw [CacheFlights.put_self]; rfl, hq⟩
  cases h with
  | arrive hi => cases he
  | headersFor hi => exact hput (Option.some.inj he) hi .keyed
  | hit hi hl => exact hput (Option.some.inj he) hi .hit
  | miss hi hl => exact hput (Option.some.inj he) hi .missed
  | join hi hj => exact hput (Option.some.inj he) hi .joined
  | lead hi hj => exact hput (Option.some.inj he) hi .leads
  | capture hi hc => cases he
  | refuse hi hc => cases he
  | panic hi => cases he
  | record hi => exact hput (Option.some.inj he) hi .recorded
  | set hi => exact hput (Option.some.inj he) hi .stored
  | finish hi => exact hput (Option.some.inj he) hi .finished
  | reply hi hj => exact hput (Option.some.inj he) hi .replied
  | fall hi hj => exact hput (Option.some.inj he) hi .fell

theorem ownTurn_put (hslot : p'.slot = p.slot) (turn : Turn (view s i p) (view s i p')) :
    OwnTurn w svc s i p p' (put s i p') :=
  ⟨turn, rfl, rfl, .kept rfl, .inl rfl, fun _ _ => rfl, .inl rfl, .kept hslot rfl⟩

theorem act_turn {a : Action} (hp : s.procs i = some p) (h : act w svc s i p a = some t) :
    ∃ p', OwnTurn w svc s i p p' t := by
  cases a with
  | pass x =>
    simp only [act] at h
    split at h
    · exact encounter_turn ‹_› ‹_› h
    · cases h
  | cache e =>
    simp only [act] at h
    split at h
    · rename_i hpc
      split at h
      · rename_i he
        obtain ⟨c, hc, rfl⟩ := Option.map_eq_some_iff.mp h
        obtain ⟨hsubject, q, q', hq, hq', hwithin⟩ := within_of_step he (CacheFlights.step_cases hc)
        refine ⟨p, ?_, ?_, rfl, .kept rfl, .inr ⟨e, hsubject, CacheFlights.step_cases hc⟩,
          fun _ _ => rfl, .inl rfl, .kept rfl rfl⟩
        · rw [view, view, hq, hq', hpc]
          exact .inside hwithin
        · rw [← hp]
          exact (Function.update_eq_self i s.procs).symm
      · cases h
    · cases h
  | next =>
    simp only [act] at h
    split at h
    · rename_i hpc hq
      cases h
      refine ⟨_, ownTurn_put rfl ?_⟩
      rw [view, view, hpc, hq]
      exact .next (.inl rfl)
    · rename_i hpc hq
      cases h
      refine ⟨_, ownTurn_put rfl ?_⟩
      rw [view, view, hpc, hq]
      exact .next (.inr rfl)
    · cases h
  | write =>
    simp only [act] at h
    split at h
    · rename_i res hpc hq
      obtain ⟨resp, -, rfl⟩ := Option.map_eq_some_iff.mp h
      refine ⟨_, ownTurn_put rfl ?_⟩
      rw [view, view, hpc, hq]
      exact .write (.replied res)
    · rename_i hpc hq
      cases h
      refine ⟨_, ownTurn_put rfl ?_⟩
      rw [view, view, hpc, hq]
      exact .write .panicked
    · cases h
  | serve next now =>
    simp only [act] at h
    split at h
    · exact serve_turn ‹_› ‹_› h
    · cases h
  | roundTrip result now =>
    simp only [act] at h
    split at h
    · exact roundTrip_turn ‹_› h
    · cases h
  | leave =>
    simp only [act] at h
    split at h
    · rename_i a hpc hslot
      cases h
      refine ⟨_, ?_, rfl, rfl, .kept rfl, .inl rfl, fun _ _ => rfl, .inl rfl, .givenBack hslot rfl rfl⟩
      rw [view, view, hpc, hslot]
      exact .leave
    · cases h

/-- A step that no request takes, and the arrival of one, leave the cache and the proxy alone. -/
theorem own_or_aside {e : Event} (hstep : step w svc s e = some t) :
    (∃ k a, e = .own k a) ∨ t.cache = s.cache ∧ t.proxy = s.proxy := by
  cases e with
  | arrive k r contentLength =>
    simp only [step] at hstep
    split at hstep
    · cases hstep
      exact .inr ⟨rfl, rfl⟩
    · cases hstep
  | own k a => exact .inl ⟨k, a, rfl⟩
  | occupy =>
    simp only [step] at hstep
    split at hstep
    · cases hstep
      exact .inr ⟨rfl, rfl⟩
    · cases hstep
  | release =>
    simp only [step] at hstep
    split at hstep
    · cases hstep
      exact .inr ⟨rfl, rfl⟩
    · cases hstep
  | cleanup now =>
    cases hstep
    exact .inr ⟨rfl, rfl⟩
  | redis key stored =>
    cases hstep
    exact .inr ⟨rfl, rfl⟩

end Steps

end ApiGateway.RequestLife
