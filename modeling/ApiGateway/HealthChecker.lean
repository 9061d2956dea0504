import ApiGateway.LoadBalancer

/-!
# The health checker

`internal/health/checker.go`: a table of verdicts, written by the probes of one pass after
another and read by the load balancer. `Start` makes a pass and then waits for a tick or for its
context to be cancelled; when both are there it may take either. The probes of a pass run side by
side and end in any order.

A probe that was begun under a live context runs to completion, or, once the context is
cancelled, is cut off by an error of the client; one begun after that is always cut off. `check`
stores a verdict either way. Each state also keeps the outcome of the last probe of an upstream
that ran to completion; no code reads it.
-/

namespace ApiGateway.HealthChecker

open Runs
set_option autoImplicit false

/-- How a probe that is not cut off ends: no request could be made of the URL, no answer came, or
the status of an answer. -/
inductive Outcome where
  | badRequest
  | failed
  | answered (status : Nat)
  deriving DecidableEq, Repr

/-- What `check` stores. -/
def verdict : Outcome → Bool
  | .badRequest => false
  | .failed => false
  | .answered status => status = 200

/-- A running `check`; `live` if the context was when it began. -/
structure Check where
  url : String
  live : Bool
  deriving DecidableEq, Repr

inductive Phase where
  | starting
  | passing (running : List Check)
  | waiting
  | stopped
  deriving DecidableEq, Repr

structure State where
  status : String → Option Bool
  cancelled : Bool
  phase : Phase
  last : String → Option Bool

/-- What can happen: `checkAll` begins, for `Start` or for a tick; a probe ends or is cut off; the
pass is waited for; the context is cancelled; the loop returns. -/
inductive Event where
  | checkAll
  | complete (k : Nat) (outcome : Outcome)
  | cut (k : Nat)
  | waited
  | cancel
  | done
  deriving DecidableEq, Repr

def isHealthy (s : State) (url : String) : Bool := (s.status url).getD false

/-- The check at a place of the pass that is under way. -/
def running (s : State) (k : Nat) : Option Check :=
  match s.phase with
  | .passing running => running[k]?
  | _ => none

def store (s : State) (url : String) (healthy : Bool) : State :=
  {s with status := Function.update s.status url (some healthy)}

/-- The check at the place is over. -/
def leave (s : State) (k : Nat) : State :=
  match s.phase with
  | .passing running => {s with phase := .passing (running.eraseIdx k)}
  | _ => s

def step (urls : List String) (s : State) : Event → Option State
  | .checkAll =>
    if s.phase = .starting ∨ s.phase = .waiting then
      some {s with phase := .passing (urls.map fun url => ⟨url, !s.cancelled⟩)}
    else none
  | .complete k outcome =>
    match running s k with
    | some ⟨url, true⟩ =>
      let s := {s with last := Function.update s.last url (some (verdict outcome))}
      some (leave (store s url (verdict outcome)) k)
    | _ => none
  | .cut k =>
    match running s k with
    | some check => if s.cancelled then some (leave (store s check.url false) k) else none
    | none => none
  | .waited => if s.phase = .passing [] then some {s with phase := .waiting} else none
  | .cancel => some {s with cancelled := true}
  | .done => if s.phase = .waiting ∧ s.cancelled then some {s with phase := .stopped} else none

/-- `Start` is called with the table that the probes at startup left. -/
def start (table : String → Option Bool) : State := ⟨table, false, .starting, table⟩

/-- Each upstream is reported as its last completed probe found it. -/
def Reports (s : State) : Prop := ∀ url, isHealthy s url = (s.last url).getD false

/-- A probe is cut off only when its upstream is not reported healthy. -/
def SparesHealthy (s : State) : Event → Prop
  | .cut k => ∀ check ∈ running s k, isHealthy s check.url = false
  | _ => True

/-- What an event that may happen does to the table, the outcomes and the context. -/
inductive Step (s : State) : Event → State → Prop
  | quiet {e : Event} {t : State} (hstatus : t.status = s.status) (hlast : t.last = s.last)
    (hcancelled : s.cancelled = true → t.cancelled = true) (hcut : ∀ k, e ≠ .cut k) : Step s e t
  | complete {k : Nat} {outcome : Outcome} {url : String} {t : State}
    (hstatus : t.status = Function.update s.status url (some (verdict outcome)))
    (hlast : t.last = Function.update s.last url (some (verdict outcome)))
    (hcancelled : t.cancelled = s.cancelled) : Step s (.complete k outcome) t
  | cut {k : Nat} {check : Check} {t : State} (hk : running s k = some check)
    (hs : s.cancelled = true) (hstatus : t.status = Function.update s.status check.url (some false))
    (hlast : t.last = s.last) (hcancelled : t.cancelled = true) : Step s (.cut k) t

theorem leave_status (s : State) (k : Nat) : (leave s k).status = s.status := by
  unfold leave
  split <;> rfl

theorem leave_last (s : State) (k : Nat) : (leave s k).last = s.last := by
  unfold leave
  split <;> rfl

theorem leave_cancelled (s : State) (k : Nat) : (leave s k).cancelled = s.cancelled := by
  unfold leave
  split <;> rfl

theorem step_cases {urls : List String} {s t : State} {e : Event} (h : step urls s e = some t) :
    Step s e t := by
  cases e with
  | checkAll =>
    simp only [step, Option.ite_none_right_eq_some, Option.some.injEq] at h
    obtain ⟨-, rfl⟩ := h
    exact .quiet rfl rfl id nofun
  | complete k outcome =>
    simp only [step] at h
    split at h
    · cases h
      exact .complete (leave_status ..) (leave_last ..) (leave_cancelled ..)
    · cases h
  | cut k =>
    simp only [step] at h
    split at h
    · rename_i check hk
      simp only [Option.ite_none_right_eq_some, Option.some.injEq] at h
      obtain ⟨hs, rfl⟩ := h
      exact .cut hk hs (leave_status ..) (leave_last ..) ((leave_cancelled ..).trans hs)
    · cases h
  | waited =>
    simp only [step, Option.ite_none_right_eq_some, Option.some.injEq] at h
    obtain ⟨-, rfl⟩ := h
    exact .quiet rfl rfl id nofun
  | cancel =>
    cases h
    exact .quiet rfl rfl (fun _ => rfl) nofun
  | done =>
    simp only [step, Option.ite_none_right_eq_some, Option.some.injEq] at h
    obtain ⟨-, rfl⟩ := h
    exact .quiet rfl rfl id nofun

theorem isHealthy_update {s t : State} {url : String} {healthy : Bool}
    (h : t.status = Function.update s.status url (some healthy)) (url' : String) :
    isHealthy t url' = if url' = url then healthy else isHealthy s url' := by
  unfold isHealthy
  rw [h, Function.update_apply]
  split <;> rfl

/-- A step from a state that reports what was found ends in one exactly if it spares what is
reported healthy. -/
theorem reports_step {s t : State} {e : Event} (hs : Step s e t) (h : Reports s) :
    Reports t ↔ SparesHealthy s e := by
  cases hs with
  | quiet hstatus hlast hcancelled hcut =>
    refine iff_of_true ?_ ?_
    · intro url
      rw [isHealthy, hstatus, hlast]
      exact h url
    · cases e with
      | cut k => exact absurd rfl (hcut k)
      | _ => trivial
  | @complete k outcome url _ hstatus hlast hcancelled =>
    refine iff_of_true ?_ trivial
    intro url'
    rw [isHealthy_update hstatus, hlast, Function.update_apply]
    split
    · rfl
    · exact h url'
  | @cut k check _ hk hcancelled hstatus hlast _ =>
    have hspares : SparesHealthy s (.cut k) ↔ isHealthy s check.url = false := by
      simp [SparesHealthy, hk]
    rw [hspares]
    constructor
    · intro ht
      have hcut := ht check.url
      rw [isHealthy_update hstatus, if_pos rfl, hlast] at hcut
      rw [h check.url, ← hcut]
    · intro hdown url'
      rw [isHealthy_update hstatus, hlast]
      split
      · rename_i heq
        rw [heq, ← h check.url, hdown]
      · exact h url'

/-- The context stays cancelled, and until it is no probe is cut off. -/
theorem live_step {s t : State} {e : Event} (hs : Step s e t) (ht : t.cancelled = false) :
    s.cancelled = false ∧ SparesHealthy s e := by
  cases hs with
  | quiet hstatus hlast hcancelled hcut =>
    refine ⟨Bool.eq_false_iff.mpr fun h => ?_, ?_⟩
    · exact absurd (hcancelled h) (Bool.eq_false_iff.mp ht)
    · cases e with
      | cut k => exact absurd rfl (hcut k)
      | _ => trivial
  | complete hstatus hlast hcancelled => exact ⟨hcancelled ▸ ht, trivial⟩
  | cut hk hs hstatus hlast hcancelled => exact absurd hcancelled (Bool.eq_false_iff.mp ht)

/-- Along a run, every state after the cancellation reports each upstream as its last completed
probe found it exactly when no probe is cut off whose upstream is reported healthy. -/
theorem cancelled_reports_iff {urls : List String} {table : String → Option Bool} {es : List Event}
    {t : State} (he : exec (step urls) (start table) es = some t) :
    (∀ u, Visits (step urls) (start table) es u → u.cancelled = true → Reports u) ↔
      StepsMeet (step urls) SparesHealthy (start table) es := by
  refine visits_iff_stepsMeet (step urls) (fun s => s.cancelled = false → Reports s)
    (fun s => s.cancelled = true → Reports s) ?_ ?_ (fun _ _ => rfl) (fun _ _ => rfl) he
  · intro a e b ha hab hb
    obtain ⟨hlive, hspares⟩ := live_step (step_cases hab) hb
    exact (reports_step (step_cases hab) (ha hlive)).mpr hspares
  · intro a e b hlive hdead hab
    have ha : Reports a := by
      cases hc : a.cancelled with
      | false => exact hlive hc
      | true => exact hdead hc
    have hs := step_cases hab
    cases hb : b.cancelled with
    | false => exact iff_of_true nofun (live_step hs hb).2
    | true =>
      rw [← reports_step hs ha]
      exact ⟨fun h => h rfl, fun h _ => h⟩

/-- The load balancer of a service asks its checker. -/
def balancer (urls : List String) (hlen : urls.length < 2 ^ 63) (s : State) : LoadBalancer.RoundRobin :=
  ⟨urls, isHealthy s, hlen⟩

instance (s : State) : DecidablePred (SparesHealthy s) := fun e => by
  cases e <;> unfold SparesHealthy <;> infer_instance

def upstream : String := "http://users:8080"

def wasHealthy (url : String) : Option Bool := if url = upstream then some true else none

/-- The context is cancelled between two passes, and the loop returns. -/
def betweenPasses : List Event := [.checkAll, .complete 0 (.answered 200), .waited, .cancel, .done]

theorem reports_between_passes : ∃ s,
    exec (step [upstream]) (start wasHealthy) betweenPasses = some s ∧ s.cancelled = true ∧ Reports s := by
  have hrun : (exec (step [upstream]) (start wasHealthy) betweenPasses).map State.cancelled = some true := by
    decide +kernel
  obtain ⟨s, hs, hcancelled⟩ := Option.map_eq_some_iff.mp hrun
  have hreports := (cancelled_reports_iff hs).mpr (by decide +kernel) s
    ⟨_, [], (List.append_nil _).symm, hs⟩ hcancelled
  exact ⟨s, hs, hcancelled, hreports⟩

/-- The context is cancelled in the middle of a pass. The one upstream answered 200 whenever it was
let to; its last probe is cut off, it is reported unhealthy, and a request that is being drained is
refused. -/
theorem cancellation_marks_down :
    (exec (step [upstream]) (start wasHealthy)
        [.checkAll, .complete 0 (.answered 200), .waited, .checkAll, .cancel, .cut 0]).map (fun s =>
      (s.last upstream, isHealthy s upstream,
        (exec (LoadBalancer.step (balancer [upstream] (by decide) s)) (LoadBalancer.start 0)
          [.start 0, .attempt 0]).bind fun b => b.calls 0)) =
      some (some true, false, some .errNoHealthyUpstreams) := by
  decide +kernel

end ApiGateway.HealthChecker
