import ApiGateway.RedisKeys
import ApiGateway.RequestLife

/-!
# The calls of a service's limiter

In the chain of a service only `RateLimit` asks the limiter, and only the sweep of the in-memory
backend changes it besides. A step of the service therefore leaves the limiter alone, or sweeps it,
or is one call of `Allow`, and then the request goes on exactly if the call does not refuse it: an
error of the limiter lets the request on.

With the Redis backend the call is one run of the script on the key of the client, unless it never
got there. What becomes of the calls for one client is what one bucket would do that serves them
one after the other, `serveCall`.
-/

namespace ApiGateway.LimiterCalls

open ServiceLimiter ServiceChain ProtectedService RequestLife RedisKeys
open RedisLimiter (Run Script)
set_option autoImplicit false

variable {Key : Type}

/-- The steps of a service, as opposed to those of its surroundings. -/
def ofService : Event → Bool
  | .arrive _ _ _ => true
  | .own _ _ => true
  | .cleanup _ => true
  | .occupy => false
  | .release => false
  | .redis _ _ => false

/-- The client that a step asks the limiter for, and what the call reads. -/
def asked (w : World Key) (s : State Key) : Event → Option (String × Readings)
  | .own i (.pass x) =>
    (s.procs i).bind fun p =>
      match p.pc, p.todo with
      | .walking, .rateLimit keyFunc :: _ => some (clientKey w p.request p.claims keyFunc, x)
      | _, _ => none
  | _ => none

def isWalking : Pc → Bool
  | .walking => true
  | _ => false

/-- Whether the request that took the step is on its way in `t`. -/
def goesOn (t : State Key) : Event → Bool
  | .own i _ => ((t.procs i).map fun p => isWalking p.pc).getD false
  | _ => false

/-- Whether `RateLimit` lets the request on after an answer of the limiter. -/
def goesOnAfter : Except String Bool → Bool
  | .ok allowed => allowed
  | .error _ => true

/-- What a step of the service does with the limiter. -/
inductive LimitsStep (w : World Key) (s t : State Key) (e : Event) : Prop
  | kept (hnone : asked w s e = none) (hsame : t.limits = s.limits)
  | swept (now : Int) (hnone : asked w s e = none) (hswept : t.limits = s.limits.map (Limits.cleanup · now))
  | called {l : Limits} {client : String} {x : Readings} (hasked : asked w s e = some (client, x))
    (hl : s.limits = some l) (ht : t.limits = some (l.allow w.script client x.now x.redis).1)
    (hon : goesOn t e = goesOnAfter (l.allow w.script client x.now x.redis).2)

section Steps
variable {w : World Key} {svc : Service Key} {s t : State Key} {i : Nat} {p : Proc Key}

theorem asked_own {a : Action} {ask : String × Readings} (hp : s.procs i = some p)
    (h : asked w s (.own i a) = some ask) :
    ∃ x keyFunc rest, a = .pass x ∧ p.pc = .walking ∧ p.todo = .rateLimit keyFunc :: rest := by
  cases a with
  | pass x =>
    simp only [asked, hp, Option.bind_some] at h
    split at h
    · rename_i keyFunc rest hw htodo
      exact ⟨x, keyFunc, rest, rfl, hw, htodo⟩
    · cases h
  | _ => cases h

theorem limits_kept {a : Action} (hp : s.procs i = some p) (hact : act w svc s i p a = some t)
    (hnone : asked w s (.own i a) = none) : t.limits = s.limits := by
  obtain ⟨p', hturn⟩ := act_turn hp hact
  cases hturn.limits with
  | kept hsame => exact hsame
  | asked hw htodo _ _ =>
    cases a with
    | pass x => simp [asked, hp, hw, htodo] at hnone
    | _ => simp [act, hw, htodo] at hact

theorem called_step {x : Readings} {keyFunc : KeyFunc} {rest : List (Middleware Key)} {l : Limits}
    (hp : s.procs i = some p) (hw : p.pc = .walking) (htodo : p.todo = .rateLimit keyFunc :: rest)
    (hl : s.limits = some l) (hact : act w svc s i p (.pass x) = some t) : LimitsStep w s t (.own i (.pass x)) := by
  have hasked : asked w s (.own i (.pass x)) = some (clientKey w p.request p.claims keyFunc, x) := by
    simp only [asked, hp, Option.bind_some, hw, htodo]
  simp only [act, hw, htodo, encounter, hl] at hact
  -- Only a refusal ends the request.
  rcases hanswer : (l.allow w.script (clientKey w p.request p.claims keyFunc) x.now x.redis).2 with err | (_ | _)
  · rw [hanswer] at hact
    cases hact
    exact .called hasked hl rfl (by simp [goesOn, put, isWalking, hanswer, goesOnAfter])
  · rw [hanswer] at hact
    cases hact
    exact .called hasked hl rfl (by simp [goesOn, put, refuse, isWalking, hanswer, goesOnAfter])
  · rw [hanswer] at hact
    cases hact
    exact .called hasked hl rfl (by simp [goesOn, put, isWalking, hanswer, goesOnAfter])

theorem limits_step {e : Event} (he : ofService e = true) (hstep : step w svc s e = some t) : LimitsStep w s t e := by
  cases e with
  | arrive i r contentLength =>
    simp only [step] at hstep
    split at hstep
    · cases hstep
      exact .kept rfl rfl
    · cases hstep
  | own i a =>
    obtain ⟨p, hp, hact⟩ := own_cases hstep
    cases hasked : asked w s (.own i a) with
    | none => exact .kept hasked (limits_kept hp hact hasked)
    | some ask =>
      obtain ⟨x, keyFunc, rest, rfl, hw, htodo⟩ := asked_own hp hasked
      cases hl : s.limits with
      | none => simp [act, hw, htodo, encounter, hl] at hact
      | some l => exact called_step hp hw htodo hl hact
  | cleanup now =>
    cases hstep
    exact .swept now rfl rfl
  | occupy => cases he
  | release => cases he
  | redis key stored => cases he

end Steps

/-- What a backend that asks Redis was built with: the text before a client's key, rate and burst. -/
def sourceOf : Option Backend → Option (String × ℚ × ℤ)
  | some (.redis keyPrefix rate burst) => some (keyPrefix, rate, burst)
  | _ => none

section Written
variable {w : World Key} {s t : State Key} {e : Event} {l : Limits} {key : String}

theorem allow_source (script : Script) (l : Limits) (client : String) (now : Int) (call : RedisCall) :
    sourceOf (some (l.allow script client now call).1.backend) = sourceOf (some l.backend) := by
  unfold Limits.allow
  split
  · rename_i ml hbackend
    rw [hbackend]
    rfl
  · cases call <;> rfl

theorem cleanup_source (l : Limits) (now : Int) : sourceOf (some (l.cleanup now).backend) = sourceOf (some l.backend) := by
  unfold Limits.cleanup
  split
  · rename_i ml hbackend
    rw [hbackend]
    rfl
  · rfl

theorem cleanup_redis (l : Limits) (now : Int) : (l.cleanup now).redis = l.redis := by
  unfold Limits.cleanup
  split <;> rfl

theorem LimitsStep.source (h : LimitsStep w s t e) :
    sourceOf (t.limits.map Limits.backend) = sourceOf (s.limits.map Limits.backend) := by
  cases h with
  | kept hnone hsame => rw [hsame]
  | swept now hnone hswept =>
    rw [hswept]
    cases s.limits with
    | none => rfl
    | some l => exact cleanup_source l now
  | called hasked hl ht hon =>
    rw [ht, hl]
    exact allow_source ..

end Written

/-- A call of `Allow` as Redis sees it: a run of the script whose answer came back, one whose answer
did not, or no run. -/
inductive Call where
  | answered (run : Run)
  | unanswered (run : Run)
  | failed
  deriving DecidableEq

def callOf (x : Readings) : Call :=
  match x.redis with
  | .answered gone => .answered ⟨x.now / 1000000, gone⟩
  | .unanswered gone _ => .unanswered ⟨x.now / 1000000, gone⟩
  | .failed _ => .failed

section Bucket
variable (script : Script) (rate : ℚ) (burst : ℕ)

/-- One bucket that serves the calls of a client: what a call leaves of it. -/
def serveCall (key : Option RedisLimiter.Key) : Call → Option (Option RedisLimiter.Key)
  | .answered run => some (some (script rate burst key run).2)
  | .unanswered run => some (some (script rate burst key run).2)
  | .failed => some key

/-- Whether the request is let on. A call without an answer lets it on. -/
def ruling (key : Option RedisLimiter.Key) : Call → Option Bool
  | .answered run => some (script rate burst key run).1
  | .unanswered _ => some true
  | .failed => some true

end Bucket

section Observed
variable (w : World Key) (svc : Service Key) (client : String) (s : State Key) (e : Event)

/-- The call that a step makes for the client. -/
def callFor : Option Call := (asked w s e).bind fun ask => if ask.1 = client then some (callOf ask.2) else none

/-- Whether the client's request is let on by a step that calls for it. -/
def verdictFor : Option Bool := (callFor w client s e).bind fun _ => (step w svc s e).map fun t => goesOn t e

end Observed

end ApiGateway.LimiterCalls
