import ApiGateway.Descent
import ApiGateway.HealthChecker
import ApiGateway.ProtectedService
import Mathlib.Data.Finset.Sum

/-!
# The probes at startup

Before `buildRouter` returns a router, every service's checker makes one pass, `Checker.Probe`, in a
goroutine of an `errgroup`. The group keeps the first error that a goroutine returns and cancels the
context that all of them probe under; the context also ends after ten seconds or with the
gateway's own. `Wait` returns when every goroutine has, with the error that was kept.

A pass is the checker's machine up to its wait. The goroutines take their steps in any order, so a
service that is up may be found down because another one failed first. The error that is kept is
never such an error.

When `Wait` has returned no error, `buildRouter` calls `Start` on one checker after the other and
returns once each of them has made a further pass. Nothing is asked of that pass.
-/

namespace ApiGateway.Startup

open Runs Descent Config Fallible ServiceChain
open HealthChecker (Phase Check isHealthy)
set_option autoImplicit false

/-- The checker of each service, whether its goroutine has returned, the group's error with the
goroutine that returned it, whether the context of the probes has ended, and whether `Wait` has
returned. -/
structure State where
  checkers : Nat → HealthChecker.State
  returned : Nat → Bool
  err : Option (Nat × Errorf)
  expired : Bool
  waited : Bool

inductive Event where
  | pass (i : Nat) (e : HealthChecker.Event)
  | returns (i : Nat)
  | expire
  | wait

def start : State := ⟨fun _ => HealthChecker.start fun _ => none, fun _ => false, none, false, false⟩

/-- `Probe` has the checker make one pass. -/
def inProbe (phase : Phase) : HealthChecker.Event → Bool
  | .checkAll => phase = .starting
  | .complete _ _ => true
  | .cut _ => true
  | .waited => true
  | .cancel => false
  | .done => false

def cancelAll (s : State) : State :=
  {s with checkers := fun i => {s.checkers i with cancelled := true}}

def probeError (svc : ServiceConfig) : Errorf :=
  ⟨"service %q: %w", [.str svc.name, .str "no healthy upstreams after initial probe"]⟩

/-- `errOnce` of the group. -/
def fail (s : State) (i : Nat) (err : Errorf) : State :=
  if s.err.isSome then s else cancelAll {s with err := some (i, err)}

def step (services : List ServiceConfig) (s : State) : Event → Option State
  | .pass i e =>
    if inProbe (s.checkers i).phase e then
      (services[i]?).bind fun svc => (HealthChecker.step svc.upstreams (s.checkers i) e).map fun c =>
        {s with checkers := Function.update s.checkers i c}
    else none
  | .returns i =>
    if (s.checkers i).phase = .waiting ∧ s.returned i = false then
      (services[i]?).map fun svc =>
        let s' := {s with returned := Function.update s.returned i true}
        if svc.upstreams.any (isHealthy (s.checkers i)) then s' else fail s' i (probeError svc)
    else none
  | .expire => if s.expired then none else some (cancelAll {s with expired := true})
  | .wait =>
    if (∀ i < services.length, s.returned i = true) ∧ s.waited = false then
      some (cancelAll {s with waited := true})
    else none

/-- What `Wait` returns. -/
def waitResult (s : State) : Except Errorf Unit := s.err.elim (.ok ()) fun failure => .error failure.2

/-- The checkers after `Wait`, and how many calls of `Start` have made their pass. -/
structure Starts where
  checkers : Nat → HealthChecker.State
  started : Nat

/-- A checker goes on, or the context of the gateway ends. -/
inductive StartEvent where
  | check (i : Nat) (e : HealthChecker.Event)
  | cancel

/-- `Start` finds the tables that the probes left; `ended` if the context of the gateway has. No
upstream was probed since. -/
def starts (s : State) (ended : Bool) : Starts :=
  ⟨fun i => ⟨(s.checkers i).status, ended, .starting, fun _ => none⟩, 0⟩

/-- `Start` is called on a checker when the call before it has made its pass; the ticks of those
before go on meanwhile. -/
def startStep (services : List ServiceConfig) (l : Starts) : StartEvent → Option Starts
  | .check i e =>
    if i ≤ l.started ∧ e ≠ .cancel then
      (services[i]?).bind fun svc => (HealthChecker.step svc.upstreams (l.checkers i) e).map fun c =>
        ⟨Function.update l.checkers i c, if i = l.started ∧ e = .waited then l.started + 1 else l.started⟩
    else none
  | .cancel => some {l with checkers := fun i => {l.checkers i with cancelled := true}}

/-- No probe of the pass was cut off: the checker reports what was found, and every upstream is
being probed or has been. -/
structure Intact (urls : List String) (c : HealthChecker.State) : Prop where
  reports : ∀ url healthy, c.last url = some healthy → isHealthy c url = healthy
  probed : c.phase ≠ .starting → ∀ url ∈ urls,
    (∃ running, c.phase = .passing running ∧ ∃ check ∈ running, check.url = url) ∨ (c.last url).isSome = true

/-- What is reported healthy was found healthy, and whatever is under way can end. -/
structure Sound (urls : List String) (c : HealthChecker.State) : Prop where
  found : ∀ url, isHealthy c url = true → c.last url = some true
  going : c.phase ≠ .stopped
  live : ∀ running, c.phase = .passing running → ∀ check ∈ running, check.live = false → c.cancelled = true
  intact : c.cancelled = false → Intact urls c

/-- The error that is kept is one of a service none of whose upstreams is reported healthy; if the
context of the probes is still live, none was found healthy. -/
structure Blames (services : List ServiceConfig) (s : State) (i : Nat) (err : Errorf) : Prop where
  ended : (s.checkers i).phase = .waiting
  service : ∃ svc, services[i]? = some svc ∧ err = probeError svc ∧
    svc.upstreams.any (isHealthy (s.checkers i)) = false ∧
    (s.expired = false → Intact svc.upstreams (s.checkers i))

structure Inv (services : List ServiceConfig) (s : State) : Prop where
  sound : ∀ i svc, services[i]? = some svc → Sound svc.upstreams (s.checkers i)
  cancelled : ∀ i, (s.checkers i).cancelled = true → s.expired = true ∨ s.err.isSome = true ∨ s.waited = true
  ended : ∀ i, s.returned i = true → (s.checkers i).phase = .waiting
  passed : s.err = none → ∀ i svc, services[i]? = some svc → s.returned i = true →
    svc.upstreams.any (isHealthy (s.checkers i)) = true
  blames : ∀ i err, s.err = some (i, err) → Blames services s i err
  waited : s.waited = true → ∀ i < services.length, s.returned i = true

/-- While the context is live no pass loses a probe, and a call of `Start` that has made its pass has
probed every upstream. -/
def StartsInv (services : List ServiceConfig) (l : Starts) : Prop :=
  ∀ i svc, services[i]? = some svc → (l.checkers i).cancelled = false →
    Intact svc.upstreams (l.checkers i) ∧
      (i < l.started → ∀ url ∈ svc.upstreams, ((l.checkers i).last url).isSome = true)

/-- What a step of a pass does. -/
inductive Pass (urls : List String) (c : HealthChecker.State) : HealthChecker.State → Prop
  | begins (hphase : c.phase = .starting) :
    Pass urls c {c with phase := .passing (urls.map fun url => ⟨url, !c.cancelled⟩)}
  | completes {running : List Check} {k : Nat} {url : String} (healthy : Bool)
    (hphase : c.phase = .passing running) (hk : running[k]? = some ⟨url, true⟩) :
    Pass urls c {c with
      status := Function.update c.status url (some healthy)
      last := Function.update c.last url (some healthy)
      phase := .passing (running.eraseIdx k)}
  | cut {running : List Check} {k : Nat} {check : Check} (hphase : c.phase = .passing running)
    (hk : running[k]? = some check) (hcancelled : c.cancelled = true) :
    Pass urls c {c with
      status := Function.update c.status check.url (some false)
      phase := .passing (running.eraseIdx k)}
  | ends (hphase : c.phase = .passing []) : Pass urls c {c with phase := .waiting}

section Passes
variable {urls : List String} {c d : HealthChecker.State} {e : HealthChecker.Event}

theorem running_eq_some {k : Nat} {check : Check} (h : HealthChecker.running c k = some check) :
    ∃ running, c.phase = .passing running ∧ running[k]? = some check := by
  unfold HealthChecker.running at h
  split at h
  · rename_i running hphase
    exact ⟨running, hphase, h⟩
  · cases h

theorem leave_store {running : List Check} (h : c.phase = .passing running) (url : String) (healthy : Bool)
    (k : Nat) : HealthChecker.leave (HealthChecker.store c url healthy) k =
      {c with
        status := Function.update c.status url (some healthy)
        phase := .passing (running.eraseIdx k)} := by
  unfold HealthChecker.leave HealthChecker.store
  simp only [h]

theorem pass_of_step (h : HealthChecker.step urls c e = some d) (hin : inProbe c.phase e = true) :
    Pass urls c d := by
  cases e with
  | checkAll =>
    simp only [HealthChecker.step, Option.ite_none_right_eq_some, Option.some.injEq] at h
    obtain ⟨-, rfl⟩ := h
    exact .begins (of_decide_eq_true hin)
  | complete k outcome =>
    simp only [HealthChecker.step] at h
    split at h
    · rename_i url hk
      obtain ⟨running, hphase, hrunning⟩ := running_eq_some hk
      cases h
      rw [leave_store]
      · exact .completes (HealthChecker.verdict outcome) hphase hrunning
      · exact hphase
    · cases h
  | cut k =>
    simp only [HealthChecker.step] at h
    split at h
    · rename_i check hk
      obtain ⟨running, hphase, hrunning⟩ := running_eq_some hk
      simp only [Option.ite_none_right_eq_some, Option.some.injEq] at h
      obtain ⟨hcancelled, rfl⟩ := h
      rw [leave_store hphase]
      exact .cut hphase hrunning hcancelled
    · cases h
  | waited =>
    simp only [HealthChecker.step, Option.ite_none_right_eq_some, Option.some.injEq] at h
    obtain ⟨hphase, rfl⟩ := h
    exact .ends hphase
  | cancel => cases hin
  | done => cases hin

/-- A check that is over leaves the others running. -/
theorem mem_eraseIdx_or {running : List Check} {k : Nat} {check : Check} (hk : running[k]? = some check)
    {other : Check} (h : other ∈ running) : other = check ∨ other ∈ running.eraseIdx k := by
  obtain ⟨hlt, rfl⟩ := List.getElem?_eq_some_iff.mp hk
  have hperm := (List.getElem_cons_eraseIdx_perm hlt).mem_iff (a := other)
  exact List.mem_cons.mp (hperm.mpr h)

theorem intact_pass (hpass : Pass urls c d) (hlive : c.cancelled = false) (h : Intact urls c) :
    Intact urls d := by
  cases hpass with
  | begins hphase =>
    refine ⟨h.reports, fun _ url hurl => .inl ⟨_, rfl, ⟨url, !c.cancelled⟩, ?_, rfl⟩⟩
    exact List.mem_map_of_mem hurl
  | @completes running k url healthy hphase hk =>
    have hwas := h.probed (by rw [hphase]; exact nofun)
    refine ⟨fun url' found hlast => ?_, fun _ url' hurl => ?_⟩
    · rw [HealthChecker.isHealthy_update rfl]
      simp only [Function.update_apply] at hlast
      split at hlast
      · rename_i heq
        rw [if_pos heq, Option.some.inj hlast]
      · rename_i hne
        rw [if_neg hne, h.reports url' found hlast]
    · -- the upstream whose probe completed is the only one that stops being probed
      by_cases heq : url' = url
      · subst heq
        exact .inr (by simp only [Function.update_self, Option.isSome_some])
      · rcases hwas url' hurl with ⟨running', hphase', other, hother, rfl⟩ | hlast
        · cases hphase.symm.trans hphase'
          rcases mem_eraseIdx_or hk hother with rfl | hin
          · exact absurd rfl heq
          · exact .inl ⟨_, rfl, other, hin, rfl⟩
        · exact .inr (by simpa only [Function.update_of_ne heq] using hlast)
  | cut hphase hk hcancelled => exact absurd hcancelled (Bool.eq_false_iff.mp hlive)
  | ends hphase =>
    refine ⟨h.reports, fun _ url hurl => ?_⟩
    rcases h.probed (by rw [hphase]; exact nofun) url hurl with ⟨running, hphase', other, hother, -⟩ | hlast
    · cases hphase.symm.trans hphase'
      cases hother
    · exact .inr hlast

theorem found_update {url : String} {healthy : Bool} {last : String → Option Bool}
    (h : ∀ url', isHealthy c url' = true → c.last url' = some true)
    (hstatus : d.status = Function.update c.status url (some healthy))
    (hlast : d.last = last) (hself : healthy = true → last url = some true)
    (hother : ∀ url', url' ≠ url → last url' = c.last url') :
    ∀ url', isHealthy d url' = true → d.last url' = some true := by
  intro url' hup
  rw [HealthChecker.isHealthy_update hstatus] at hup
  rw [hlast]
  by_cases heq : url' = url
  · rw [if_pos heq] at hup
    exact heq ▸ hself hup
  · rw [if_neg heq] at hup
    exact (hother url' heq).trans (h url' hup)

theorem sound_pass (hpass : Pass urls c d) (h : Sound urls c) : Sound urls d := by
  have hintact : d.cancelled = false → Intact urls d := by
    intro hd
    have hc : c.cancelled = false := by cases hpass <;> exact hd
    exact intact_pass hpass hc (h.intact hc)
  cases hpass with
  | begins hphase =>
    refine ⟨h.found, nofun, ?_, hintact⟩
    intro running hrunning check hcheck hlive
    cases hrunning
    obtain ⟨url, -, rfl⟩ := List.mem_map.mp hcheck
    simpa using hlive
  | @completes running k url healthy hphase hk =>
    refine ⟨found_update h.found rfl rfl ?_ ?_, nofun, ?_, hintact⟩
    · rintro rfl
      exact Function.update_self ..
    · intro url' hne
      exact Function.update_of_ne hne ..
    · intro running' hrunning check hcheck
      cases hrunning
      exact h.live running hphase check (List.mem_of_mem_eraseIdx hcheck)
  | @cut running k check hphase hk hcancelled =>
    refine ⟨found_update h.found rfl rfl nofun fun _ _ => rfl, nofun, fun _ _ _ _ _ => hcancelled, hintact⟩
  | ends hphase => exact ⟨h.found, nofun, nofun, hintact⟩

theorem sound_cancelled (h : Sound urls c) : Sound urls {c with cancelled := true} :=
  ⟨h.found, h.going, fun _ _ _ _ _ => rfl, nofun⟩

/-- Once the pass is over the checker takes no more steps of it. -/
theorem not_pass_waiting (h : c.phase = .waiting) : ¬ Pass urls c d := by
  intro hpass
  cases hpass with
  | begins hphase => cases h.symm.trans hphase
  | completes _ hphase _ => cases h.symm.trans hphase
  | cut hphase _ _ => cases h.symm.trans hphase
  | ends hphase => cases h.symm.trans hphase

end Passes

section Group
variable {services : List ServiceConfig} {s t : State} {e : Event}

/-- What an event that may happen does. -/
inductive Step (services : List ServiceConfig) (s : State) : Event → State → Prop
  | pass {i : Nat} {e : HealthChecker.Event} {svc : ServiceConfig} {c : HealthChecker.State}
    (hsvc : services[i]? = some svc) (hpass : Pass svc.upstreams (s.checkers i) c) :
    Step services s (.pass i e) {s with checkers := Function.update s.checkers i c}
  | passed {i : Nat} {svc : ServiceConfig} (hsvc : services[i]? = some svc)
    (hphase : (s.checkers i).phase = .waiting) (hreturned : s.returned i = false)
    (hup : svc.upstreams.any (isHealthy (s.checkers i)) = true) :
    Step services s (.returns i) {s with returned := Function.update s.returned i true}
  | failed {i : Nat} {svc : ServiceConfig} (hsvc : services[i]? = some svc)
    (hphase : (s.checkers i).phase = .waiting) (hreturned : s.returned i = false)
    (hdown : svc.upstreams.any (isHealthy (s.checkers i)) = false) :
    Step services s (.returns i)
      (fail {s with returned := Function.update s.returned i true} i (probeError svc))
  | expire (hlive : s.expired = false) : Step services s .expire (cancelAll {s with expired := true})
  | wait (hall : ∀ i < services.length, s.returned i = true) (hwaited : s.waited = false) :
    Step services s .wait (cancelAll {s with waited := true})

theorem step_cases (h : step services s e = some t) : Step services s e t := by
  cases e with
  | pass i e =>
    simp only [step, Option.ite_none_right_eq_some, Option.bind_eq_some_iff, Option.map_eq_some_iff] at h
    obtain ⟨hin, svc, hsvc, c, hc, rfl⟩ := h
    exact .pass hsvc (pass_of_step hc hin)
  | returns i =>
    simp only [step, Option.ite_none_right_eq_some, Option.map_eq_some_iff] at h
    obtain ⟨⟨hphase, hreturned⟩, svc, hsvc, rfl⟩ := h
    cases hup : svc.upstreams.any (isHealthy (s.checkers i)) with
    | true => exact .passed hsvc hphase hreturned hup
    | false => exact .failed hsvc hphase hreturned hup
  | expire =>
    simp only [step, Option.ite_none_left_eq_some, Option.some.injEq] at h
    obtain ⟨hlive, rfl⟩ := h
    exact .expire (Bool.eq_false_iff.mpr hlive)
  | wait =>
    simp only [step, Option.ite_none_right_eq_some, Option.some.injEq] at h
    obtain ⟨⟨hall, hwaited⟩, rfl⟩ := h
    exact .wait hall hwaited

theorem lt_of_service {i : Nat} {svc : ServiceConfig} (h : services[i]? = some svc) : i < services.length :=
  (List.getElem?_eq_some_iff.mp h).1

theorem inv_start (services : List ServiceConfig) : Inv services start where
  sound _ _ _ := ⟨nofun, nofun, nofun, fun _ => ⟨nofun, fun h => absurd rfl h⟩⟩
  cancelled := nofun
  ended := nofun
  passed _ _ _ _ := nofun
  blames := nofun
  waited := nofun

theorem inv_pass (h : Inv services s) {i : Nat} {svc : ServiceConfig} {c : HealthChecker.State}
    (hsvc : services[i]? = some svc) (hpass : Pass svc.upstreams (s.checkers i) c) :
    Inv services {s with checkers := Function.update s.checkers i c} := by
  have hcancelled : c.cancelled = (s.checkers i).cancelled := by cases hpass <;> rfl
  -- a checker whose pass is over is another one
  have hother : ∀ j, (s.checkers j).phase = .waiting → Function.update s.checkers i c j = s.checkers j := by
    intro j hj
    refine Function.update_of_ne ?_ ..
    rintro rfl
    exact not_pass_waiting hj hpass
  refine ⟨?_, ?_, ?_, ?_, ?_, h.waited⟩
  · intro j svc' hsvc'
    by_cases hj : j = i
    · subst hj
      cases hsvc.symm.trans hsvc'
      simp only [Function.update_self]
      exact sound_pass hpass (h.sound j svc hsvc)
    · simp only [Function.update_of_ne hj]
      exact h.sound j svc' hsvc'
  · intro j hj
    by_cases hji : j = i
    · subst hji
      simp only [Function.update_self, hcancelled] at hj
      exact h.cancelled j hj
    · simp only [Function.update_of_ne hji] at hj
      exact h.cancelled j hj
  · intro j hj
    simp only [hother j (h.ended j hj)]
    exact h.ended j hj
  · intro herr j svc' hsvc' hj
    simp only [hother j (h.ended j hj)]
    exact h.passed herr j svc' hsvc' hj
  · intro j err herr
    obtain ⟨hended, hservice⟩ := h.blames j err herr
    refine ⟨?_, ?_⟩ <;> simp only [hother j hended]
    · exact hended
    · exact hservice

theorem inv_cancelAll (h : Inv services s) (hcause : s.expired = true ∨ s.err.isSome = true ∨ s.waited = true) :
    Inv services (cancelAll s) where
  sound i svc hsvc := sound_cancelled (h.sound i svc hsvc)
  cancelled _ _ := hcause
  ended := h.ended
  passed := h.passed
  blames i err herr := by
    obtain ⟨hended, svc, hsvc, heq, hdown, hintact⟩ := h.blames i err herr
    exact ⟨hended, svc, hsvc, heq, hdown, fun hlive => ⟨(hintact hlive).reports, (hintact hlive).probed⟩⟩
  waited := h.waited

/-- A goroutine returns; nobody has waited for it before. -/
theorem inv_returned (h : Inv services s) {i : Nat} {svc : ServiceConfig} (hsvc : services[i]? = some svc)
    (hphase : (s.checkers i).phase = .waiting) (hreturned : s.returned i = false)
    (hup : s.err = none → svc.upstreams.any (isHealthy (s.checkers i)) = true) :
    Inv services {s with returned := Function.update s.returned i true} := by
  refine ⟨h.sound, h.cancelled, ?_, ?_, ?_, ?_⟩
  · intro j hj
    by_cases hji : j = i
    · exact hji ▸ hphase
    · simp only [Function.update_of_ne hji] at hj
      exact h.ended j hj
  · intro herr j svc' hsvc' hj
    by_cases hji : j = i
    · subst hji
      cases hsvc.symm.trans hsvc'
      exact hup herr
    · simp only [Function.update_of_ne hji] at hj
      exact h.passed herr j svc' hsvc' hj
  · intro j err herr
    exact ⟨(h.blames j err herr).ended, (h.blames j err herr).service⟩
  · intro hwaited j hj
    by_cases hji : j = i
    · simp only [hji, Function.update_self]
    · simp only [Function.update_of_ne hji]
      exact h.waited hwaited j hj

/-- The first failure is kept. Nothing had cancelled the probes before it but the end of their own
context, so without that end none of them was cut off. -/
theorem inv_failed (h : Inv services s) {i : Nat} {svc : ServiceConfig} (hsvc : services[i]? = some svc)
    (hphase : (s.checkers i).phase = .waiting) (hreturned : s.returned i = false)
    (hdown : svc.upstreams.any (isHealthy (s.checkers i)) = false) :
    Inv services (fail {s with returned := Function.update s.returned i true} i (probeError svc)) := by
  unfold fail
  split
  · rename_i hsome
    refine inv_returned h hsvc hphase hreturned fun hnone => ?_
    simp only [hnone, Option.isSome_none, Bool.false_eq_true] at hsome
  · rename_i hnone
    have herr : s.err = none := Option.not_isSome_iff_eq_none.mp hnone
    have hwaited : s.waited ≠ true := fun hw =>
      absurd (h.waited hw i (lt_of_service hsvc)) (Bool.eq_false_iff.mp hreturned)
    have hintact : s.expired = false → Intact svc.upstreams (s.checkers i) := by
      intro hlive
      refine (h.sound i svc hsvc).intact (Bool.eq_false_iff.mpr fun hcancelled => ?_)
      rcases h.cancelled i hcancelled with hexpired | hfailed | hw
      · exact absurd hexpired (Bool.eq_false_iff.mp hlive)
      · exact hnone hfailed
      · exact hwaited hw
    refine inv_cancelAll ⟨h.sound, fun _ _ => .inr (.inl rfl), ?_, nofun, ?_, fun hw => absurd hw hwaited⟩
      (.inr (.inl rfl))
    · intro j hj
      by_cases hji : j = i
      · exact hji ▸ hphase
      · simp only [Function.update_of_ne hji] at hj
        exact h.ended j hj
    · intro j err hj
      cases hj
      exact ⟨hphase, svc, hsvc, rfl, hdown, hintact⟩

theorem inv_step (h : Inv services s) (hstep : step services s e = some t) : Inv services t := by
  cases step_cases hstep with
  | pass hsvc hpass => exact inv_pass h hsvc hpass
  | passed hsvc hphase hreturned hup => exact inv_returned h hsvc hphase hreturned fun _ => hup
  | failed hsvc hphase hreturned hdown => exact inv_failed h hsvc hphase hreturned hdown
  | expire hlive =>
    have hblames : ∀ i err, s.err = some (i, err) → Blames services {s with expired := true} i err := by
      intro i err herr
      obtain ⟨hended, svc, hsvc, heq, hdown, -⟩ := h.blames i err herr
      exact ⟨hended, svc, hsvc, heq, hdown, nofun⟩
    exact inv_cancelAll ⟨h.sound, fun _ _ => .inl rfl, h.ended, h.passed, hblames, h.waited⟩ (.inl rfl)
  | wait hall hwaited =>
    have hblames : ∀ i err, s.err = some (i, err) → Blames services {s with waited := true} i err := by
      intro i err herr
      exact ⟨(h.blames i err herr).ended, (h.blames i err herr).service⟩
    exact inv_cancelAll ⟨h.sound, fun _ _ => .inr (.inr rfl), h.ended, h.passed, hblames, fun _ => hall⟩
      (.inr (.inr rfl))

theorem inv_exec {es : List Event} (he : exec (step services) start es = some s) : Inv services s :=
  visits_inductive (step services) (Inv services) (fun _ _ _ h => inv_step h) (inv_start services)
    ⟨es, [], (List.append_nil es).symm, he⟩

/-- If the context of the probes did not end, every upstream of the service that is blamed was
probed to the end and found down. -/
theorem Intact.found_down {urls : List String} {c : HealthChecker.State} (h : Intact urls c)
    (hphase : c.phase = .waiting) (hdown : urls.any (isHealthy c) = false) :
    ∀ url ∈ urls, c.last url = some false := by
  intro url hurl
  rcases h.probed (by rw [hphase]; exact nofun) url hurl with ⟨running, hrunning, -⟩ | hlast
  · cases hphase.symm.trans hrunning
  · obtain ⟨healthy, hhealthy⟩ := Option.isSome_iff_exists.mp hlast
    rw [List.any_eq_false] at hdown
    rw [hhealthy, ← h.reports url healthy hhealthy, Bool.eq_false_iff.mpr (hdown url hurl)]

theorem waitResult_eq_ok : waitResult s = .ok () ↔ s.err = none := by
  unfold waitResult
  cases herr : s.err with
  | none => exact iff_of_true rfl rfl
  | some failure => exact iff_of_false nofun nofun

/-- When `Wait` has returned, it returned no error exactly if every service has an upstream that is
reported healthy. -/
theorem waitResult_ok_iff (h : Inv services s) (hwaited : s.waited = true) :
    waitResult s = .ok () ↔ ∀ i svc, services[i]? = some svc →
      ∃ url ∈ svc.upstreams, isHealthy (s.checkers i) url = true := by
  rw [waitResult_eq_ok]
  constructor
  · intro herr i svc hsvc
    exact List.any_eq_true.mp (h.passed herr i svc hsvc (h.waited hwaited i (lt_of_service hsvc)))
  · intro hall
    cases herr : s.err with
    | none => rfl
    | some failure =>
      obtain ⟨-, svc, hsvc, -, hdown, -⟩ := h.blames failure.1 failure.2 herr
      rw [List.any_eq_true.mpr (hall failure.1 svc hsvc)] at hdown
      cases hdown

end Group

section Starts
variable {services : List ServiceConfig} {l m : Starts}

/-- What a live checker does keeps its pass intact. -/
theorem intact_step {urls : List String} {c d : HealthChecker.State} {e : HealthChecker.Event}
    (h : HealthChecker.step urls c e = some d) (hlive : d.cancelled = false) (hc : Intact urls c) :
    Intact urls d := by
  have hwas : c.cancelled = false := (HealthChecker.live_step (HealthChecker.step_cases h) hlive).1
  by_cases hin : inProbe c.phase e = true
  · exact intact_pass (pass_of_step h hin) hwas hc
  · cases e with
    | checkAll =>
      -- a tick: every upstream is being probed again, and reported as it was found before
      simp only [HealthChecker.step, Option.ite_none_right_eq_some, Option.some.injEq] at h
      obtain ⟨-, rfl⟩ := h
      refine ⟨hc.reports, fun _ url hurl => .inl ⟨_, rfl, ⟨url, !c.cancelled⟩, ?_, rfl⟩⟩
      exact List.mem_map_of_mem hurl
    | cancel =>
      cases h
      cases hlive
    | done =>
      simp only [HealthChecker.step, Option.ite_none_right_eq_some] at h
      rw [h.1.2] at hwas
      cases hwas
    | complete k outcome => exact absurd rfl hin
    | cut k => exact absurd rfl hin
    | waited => exact absurd rfl hin

theorem probed_step {urls : List String} {c d : HealthChecker.State} {e : HealthChecker.Event}
    (h : HealthChecker.step urls c e = some d) {url : String} (hc : (c.last url).isSome = true) :
    (d.last url).isSome = true := by
  cases HealthChecker.step_cases h with
  | quiet hstatus hlast hcancelled hcut => rwa [hlast]
  | complete hstatus hlast hcancelled =>
    rw [hlast, Function.update_apply]
    split
    · rfl
    · exact hc
  | cut hk hs hstatus hlast hcancelled => rwa [hlast]

theorem probed_of_waited {urls : List String} {c d : HealthChecker.State}
    (h : HealthChecker.step urls c .waited = some d) (hc : Intact urls c) :
    ∀ url ∈ urls, (d.last url).isSome = true := by
  simp only [HealthChecker.step, Option.ite_none_right_eq_some, Option.some.injEq] at h
  obtain ⟨hphase, rfl⟩ := h
  intro url hurl
  rcases hc.probed (by rw [hphase]; rintro ⟨⟩) url hurl with ⟨running, hrunning, check, hcheck, -⟩ | hlast
  · cases hphase.symm.trans hrunning
    cases hcheck
  · exact hlast

theorem startsInv_starts (services : List ServiceConfig) (s : State) (ended : Bool) :
    StartsInv services (starts s ended) := by
  intro i svc _ _
  refine ⟨⟨?_, fun h => absurd rfl h⟩, fun hlt => absurd hlt (Nat.not_lt_zero i)⟩
  intro url healthy hlast
  cases hlast

theorem startsInv_step {e : StartEvent} (h : StartsInv services l) (hstep : startStep services l e = some m) :
    StartsInv services m := by
  cases e with
  | cancel =>
    cases hstep
    intro i svc hsvc hlive
    cases hlive
  | check i e =>
    simp only [startStep, Option.ite_none_right_eq_some, Option.bind_eq_some_iff, Option.map_eq_some_iff] at hstep
    obtain ⟨⟨hle, -⟩, svc, hsvc, c, hc, rfl⟩ := hstep
    intro j svc' hsvc' hlive
    by_cases hji : j = i
    · subst hji
      cases hsvc.symm.trans hsvc'
      simp only [Function.update_self] at hlive ⊢
      have hwas := (HealthChecker.live_step (HealthChecker.step_cases hc) hlive).1
      obtain ⟨hintact, hprobed⟩ := h j svc hsvc hwas
      refine ⟨intact_step hc hlive hintact, fun hlt url hurl => ?_⟩
      by_cases hnow : j = l.started ∧ e = .waited
      · obtain ⟨-, rfl⟩ := hnow
        exact probed_of_waited hc hintact url hurl
      · rw [if_neg hnow] at hlt
        exact probed_step hc (hprobed hlt url hurl)
    · simp only [Function.update_of_ne hji] at hlive ⊢
      obtain ⟨hintact, hprobed⟩ := h j svc' hsvc' hlive
      refine ⟨hintact, fun hlt => hprobed ?_⟩
      split at hlt
      · rename_i hnow
        omega
      · exact hlt

/-- When every call of `Start` has made its pass, the upstreams of a checker whose context is live
have all been probed again and are reported as they were found. -/
theorem reports_of_starts {s : State} {ended : Bool} {es : List StartEvent}
    (he : exec (startStep services) (starts s ended) es = some l) (hall : l.started = services.length) {i : Nat}
    {svc : ServiceConfig} (hsvc : services[i]? = some svc) (hlive : (l.checkers i).cancelled = false) {url : String}
    (hurl : url ∈ svc.upstreams) :
    ∃ healthy, (l.checkers i).last url = some healthy ∧ isHealthy (l.checkers i) url = healthy := by
  have hinv : StartsInv services l :=
    visits_inductive (startStep services) (StartsInv services) (fun _ _ _ h => startsInv_step h)
      (startsInv_starts services s ended) ⟨es, [], (List.append_nil es).symm, he⟩
  obtain ⟨hintact, hprobed⟩ := hinv i svc hsvc hlive
  have hlt : i < l.started := by
    rw [hall]
    exact lt_of_service hsvc
  obtain ⟨healthy, hhealthy⟩ := Option.isSome_iff_exists.mp (hprobed hlt url hurl)
  exact ⟨healthy, hhealthy, hintact.reports url healthy hhealthy⟩

end Starts

section Router
variable {Key : Type} {w : World Key} {cfg : GatewayConfig} {services : List (Service Key)} {err : Errorf}

theorem wrap_eq_error {α : Type} {format : String} {x : Except String α} (h : wrap format x = .error err) :
    ∃ msg, x = .error msg ∧ err = ⟨format, [.str msg]⟩ := by
  cases x with
  | error msg =>
    cases h
    exact ⟨msg, rfl, rfl⟩
  | ok a => cases h

theorem format_of_wrap {α : Type} {format : String} {x : Except String α} (h : wrap format x = .error err) :
    err.format = format := by
  obtain ⟨msg, -, rfl⟩ := wrap_eq_error h
  rfl

theorem buildServices_error {publicKey : Option Key} {configs : List ServiceConfig}
    (h : buildServices cfg publicKey configs = .error err) :
    err.format = "service %q requires auth but JWT_PUBLIC_KEY_PATH is not set" := by
  induction configs with
  | nil => cases h
  | cons sc configs ih =>
    simp only [buildServices, bind_eq_error] at h
    rcases h with hbuild | ⟨built, -, hothers | ⟨others, -, hpure⟩⟩
    · unfold buildService at hbuild
      split at hbuild
      · cases hbuild
        rfl
      · cases hbuild
    · exact ih hothers
    · cases hpure

/-- Of the errors of `buildRouter` only that of the probes says so. -/
theorem probe_of_error (h : buildRouter w cfg = .error err) (hformat : err.format = "startup probe: %w") :
    ∃ msg, w.probe = .error msg ∧ err.args = [.str msg] := by
  simp only [buildRouter, bind_eq_error] at h
  rcases h with hmetrics | ⟨_, -, hkey | ⟨_, -, hping | ⟨_, -, hservices | ⟨_, -, hregister |
    ⟨_, -, hprobe | ⟨_, -, hpure⟩⟩⟩⟩⟩⟩
  · exact absurd ((format_of_wrap hmetrics).symm.trans hformat) (by decide)
  · unfold publicKeyOf at hkey
    split at hkey
    · cases hkey
    · cases hload : wrap "loading JWT public key: %w" (w.loadPublicKey cfg.jwtPublicKey) with
      | error err' =>
        rw [hload] at hkey
        cases hkey
        exact absurd ((format_of_wrap hload).symm.trans hformat) (by decide)
      | ok key =>
        rw [hload] at hkey
        cases hkey
  · unfold pingRedis at hping
    split at hping
    · exact absurd ((format_of_wrap hping).symm.trans hformat) (by decide)
    · cases hping
  · exact absurd ((buildServices_error hservices).symm.trans hformat) (by decide)
  · exact absurd ((format_of_wrap hregister).symm.trans hformat) (by decide)
  · obtain ⟨msg, hmsg, rfl⟩ := wrap_eq_error hprobe
    exact ⟨msg, hmsg, rfl⟩
  · cases hpure

theorem probe_of_ok (h : buildRouter w cfg = .ok services) : w.probe = .ok () := by
  simp only [buildRouter, bind_eq_ok] at h
  obtain ⟨_, -, _, -, _, -, _, -, _, -, _, hprobe, -⟩ := h
  exact ProtectedService.wrap_eq_ok.mp hprobe

/-- `buildRouter` returns a router only if, when `Wait` returned, every service had an upstream that a
probe had found healthy and that was reported so; in the router that it returns, every upstream of a
checker whose context is live has been probed again and is reported as it was found. If `buildRouter`
fails because of the probes, the error names a service none of whose upstreams is reported healthy;
and unless the context of the probes itself ended, each of these upstreams was probed to the end and
found down. -/
theorem startup_verdict {es : List Event} {s : State} (render : Errorf → String)
    (he : exec (step cfg.services) start es = some s) (hwaited : s.waited = true)
    (hprobe : w.probe = (waitResult s).mapError render) :
    (∀ services, buildRouter w cfg = .ok services → ∀ i svc, cfg.services[i]? = some svc →
      (∃ url ∈ svc.upstreams, isHealthy (s.checkers i) url = true ∧ (s.checkers i).last url = some true) ∧
      ∀ ended starting l, exec (startStep cfg.services) (starts s ended) starting = some l →
        l.started = cfg.services.length → (l.checkers i).cancelled = false → ∀ url ∈ svc.upstreams,
          ∃ healthy, (l.checkers i).last url = some healthy ∧ isHealthy (l.checkers i) url = healthy) ∧
    ∀ err, buildRouter w cfg = .error err → err.format = "startup probe: %w" →
      ∃ i svc, cfg.services[i]? = some svc ∧ err.args = [.str (render (probeError svc))] ∧
        (∀ url ∈ svc.upstreams, isHealthy (s.checkers i) url = false) ∧
        (s.expired = false → ∀ url ∈ svc.upstreams, (s.checkers i).last url = some false) := by
  have hinv := inv_exec he
  constructor
  · intro services hbuilt i svc hsvc
    have hok : waitResult s = .ok () := by
      have hprobed := hprobe.symm.trans (probe_of_ok hbuilt)
      cases hresult : waitResult s with
      | ok _ => rfl
      | error err =>
        rw [hresult] at hprobed
        cases hprobed
    obtain ⟨url, hurl, hup⟩ := (waitResult_ok_iff hinv hwaited).mp hok i svc hsvc
    refine ⟨⟨url, hurl, hup, (hinv.sound i svc hsvc).found url hup⟩, ?_⟩
    intro ended starting l hstarts hall hlive url hurl
    exact reports_of_starts hstarts hall hsvc hlive hurl
  · intro err herr hformat
    obtain ⟨msg, hmsg, hargs⟩ := probe_of_error herr hformat
    rw [hprobe] at hmsg
    cases hkept : s.err with
    | none =>
      rw [waitResult_eq_ok.mpr hkept] at hmsg
      cases hmsg
    | some failure =>
      obtain ⟨hended, svc, hsvc, heq, hdown, hintact⟩ := hinv.blames failure.1 failure.2 hkept
      have hresult : waitResult s = .error (probeError svc) := by
        rw [← heq, waitResult, hkept]
        rfl
      rw [hresult] at hmsg
      cases hmsg
      refine ⟨failure.1, svc, hsvc, hargs, ?_, fun hlive => (hintact hlive).found_down hended hdown⟩
      intro url hurl
      exact Bool.eq_false_iff.mpr (List.any_eq_false.mp hdown url hurl)

def reports : ServiceConfig :=
  {ProtectedService.accounts with
    name := "reports", pathPrefix := "/reports", upstreams := ["http://reports:8080"]}

def twoServices : GatewayConfig :=
  {ProtectedService.gateway with services := [ProtectedService.accounts, reports]}

/-- Both services are probed; the second one's upstream answers, with the given status. The first
one's probe answers 200, or it is cut off. -/
def twoPasses (status : Nat) (first : HealthChecker.Event) : List Event :=
  [.pass 0 .checkAll, .pass 1 .checkAll, .pass 1 (.complete 0 (.answered status)), .pass 1 .waited, .returns 1,
    .pass 0 first, .pass 0 .waited, .returns 0, .wait]

def probedWorld (result : Except Errorf Unit) : World Unit :=
  {ProtectedService.sampleWorld with probe := result.mapError Errorf.format}

/-- `Start` makes the second pass of both checkers; the second service's upstream went down since. -/
def twoStarts : List StartEvent :=
  [.check 0 .checkAll, .check 0 (.complete 0 (.answered 200)), .check 0 .waited,
    .check 1 .checkAll, .check 1 (.complete 0 (.answered 503)), .check 1 .waited]

/-- With an upstream that is down the other service's probe is cut off, and the one that is down is
named; with both up the gateway boots, also if one of them is down when the router is returned. -/
theorem startup_verdict_two :
    (∃ s, exec (step twoServices.services) start (twoPasses 503 (.cut 0)) = some s ∧
      isHealthy (s.checkers 0) "http://accounts:8080" = false ∧
      (s.checkers 0).last "http://accounts:8080" = none ∧
      ∃ i svc, twoServices.services[i]? = some svc ∧ ∀ url ∈ svc.upstreams, (s.checkers i).last url = some false) ∧
    ∃ s, exec (step twoServices.services) start (twoPasses 200 (.complete 0 (.answered 200))) = some s ∧
      (∀ i svc, twoServices.services[i]? = some svc →
        ∃ url ∈ svc.upstreams, isHealthy (s.checkers i) url = true ∧ (s.checkers i).last url = some true) ∧
      ∃ l, exec (startStep twoServices.services) (starts s false) twoStarts = some l ∧
        (∀ url ∈ reports.upstreams, ∃ healthy, (l.checkers 1).last url = some healthy ∧
          isHealthy (l.checkers 1) url = healthy) ∧
        isHealthy (l.checkers 1) "http://reports:8080" = false := by
  constructor
  · obtain ⟨s, hs⟩ : ∃ s, exec (step twoServices.services) start (twoPasses 503 (.cut 0)) = some s := ⟨_, rfl⟩
    have hresult : waitResult s = .error (probeError reports) :=
      Option.some.inj (exec_observe (step twoServices.services) (fun s => some (waitResult s)) hs rfl)
    have hseen : (s.waited, s.expired, isHealthy (s.checkers 0) "http://accounts:8080",
        (s.checkers 0).last "http://accounts:8080") = (true, false, false, none) :=
      Option.some.inj (exec_observe (step twoServices.services) (fun s => some (s.waited, s.expired,
        isHealthy (s.checkers 0) "http://accounts:8080", (s.checkers 0).last "http://accounts:8080")) hs
        (by decide +kernel))
    simp only [Prod.mk.injEq] at hseen
    obtain ⟨hwaited, hlive, hdown, hlast⟩ := hseen
    have hprobe : (probedWorld (.error (probeError reports))).probe = (waitResult s).mapError Errorf.format := by
      rw [hresult]
      rfl
    obtain ⟨i, svc, hsvc, -, -, hfound⟩ := (startup_verdict Errorf.format hs hwaited hprobe).2
      ⟨"startup probe: %w", [.str "service %q: %w"]⟩ rfl rfl
    exact ⟨s, hs, hdown, hlast, i, svc, hsvc, hfound hlive⟩
  · obtain ⟨s, hs⟩ : ∃ s, exec (step twoServices.services) start
        (twoPasses 200 (.complete 0 (.answered 200))) = some s := ⟨_, rfl⟩
    have hresult : waitResult s = .ok () :=
      Option.some.inj (exec_observe (step twoServices.services) (fun s => some (waitResult s)) hs rfl)
    have hwaited : s.waited = true :=
      Option.some.inj (exec_observe (step twoServices.services) (fun s => some s.waited) hs rfl)
    have hprobe : (probedWorld (.ok ())).probe = (waitResult s).mapError Errorf.format := by
      rw [hresult]
      rfl
    have hverdict := (startup_verdict Errorf.format hs hwaited hprobe).1 _ rfl
    obtain ⟨l, hl⟩ : ∃ l, exec (startStep twoServices.services) (starts s false) twoStarts = some l := ⟨_, rfl⟩
    have hseen : (l.started, (l.checkers 1).cancelled, isHealthy (l.checkers 1) "http://reports:8080") =
        (2, false, false) :=
      Option.some.inj (exec_observe (startStep twoServices.services) (fun l => some (l.started,
        (l.checkers 1).cancelled, isHealthy (l.checkers 1) "http://reports:8080")) hl rfl)
    simp only [Prod.mk.injEq] at hseen
    obtain ⟨hall, hlive, hdown⟩ := hseen
    exact ⟨s, hs, fun i svc hsvc => (hverdict i svc hsvc).1, l, hl,
      (hverdict 1 reports rfl).2 false twoStarts l hl hall hlive, hdown⟩

end Router

section Progress
variable {services : List ServiceConfig} {s t : State}

/-- How many steps of a goroutine are left. -/
def stepsLeft (upstreams : Nat) (phase : Phase) (returned : Bool) : Nat :=
  match phase with
  | .starting => upstreams + 3
  | .passing running => running.length + 2
  | .waiting => if returned then 0 else 1
  | .stopped => 0

/-- The goroutines, the timer of the context and the one that waits. -/
def owner : Event → Option (Nat ⊕ Bool)
  | .pass i _ => some (.inl i)
  | .returns i => some (.inl i)
  | .expire => some (.inr false)
  | .wait => some (.inr true)

def rank (services : List ServiceConfig) (s : State) : Nat ⊕ Bool → Nat
  | .inl i => (services[i]?).elim 0 fun svc =>
    stepsLeft svc.upstreams.length (s.checkers i).phase (s.returned i)
  | .inr false => if s.expired then 0 else 1
  | .inr true => if s.waited then 0 else 1

theorem stepsLeft_pass {urls : List String} {c d : HealthChecker.State} (h : Pass urls c d) (returned : Bool) :
    stepsLeft urls.length d.phase returned < stepsLeft urls.length c.phase returned := by
  cases h with
  | begins hphase =>
    simp only [hphase, stepsLeft, List.length_map]
    omega
  | completes _ hphase hk =>
    have hlt := (List.getElem?_eq_some_iff.mp hk).1
    simp only [hphase, stepsLeft, List.length_eraseIdx_of_lt hlt]
    omega
  | cut hphase hk hcancelled =>
    have hlt := (List.getElem?_eq_some_iff.mp hk).1
    simp only [hphase, stepsLeft, List.length_eraseIdx_of_lt hlt]
    omega
  | ends hphase =>
    simp only [hphase, stepsLeft, List.length_nil]
    split <;> omega

theorem rank_cancelAll (p : Nat ⊕ Bool) : rank services (cancelAll s) p = rank services s p := by
  cases p with
  | inl i => rfl
  | inr b => cases b <;> rfl

theorem rank_fail (i : Nat) (err : Errorf) (p : Nat ⊕ Bool) :
    rank services (fail s i err) p = rank services s p := by
  unfold fail
  split
  · rfl
  · rw [rank_cancelAll]
    cases p with
    | inl i => rfl
    | inr b => cases b <;> rfl

theorem rank_returned {i : Nat} {svc : ServiceConfig} (hsvc : services[i]? = some svc)
    (hphase : (s.checkers i).phase = .waiting) (hreturned : s.returned i = false) (p : Nat ⊕ Bool) :
    rank services {s with returned := Function.update s.returned i true} p =
      if p = .inl i then rank services s p - 1 else rank services s p := by
  cases p with
  | inl j =>
    by_cases hj : j = i
    · subst hj
      simp [rank, hsvc, hphase, hreturned, stepsLeft]
    · have hne : (Sum.inl j : Nat ⊕ Bool) ≠ .inl i := fun h => hj (Sum.inl.inj h)
      simp [rank, hne, Function.update_of_ne hj]
  | inr b => cases b <;> rfl

theorem rank_waiting {i : Nat} {svc : ServiceConfig} (hsvc : services[i]? = some svc)
    (hphase : (s.checkers i).phase = .waiting) (hreturned : s.returned i = false) :
    rank services s (.inl i) = 1 := by
  simp [rank, hsvc, hphase, hreturned, stepsLeft]

theorem descends (services : List ServiceConfig) :
    Descends (step services) owner (Inv services) (rank services) where
  keep _ _ _ h hstep := inv_step h hstep
  own s e t p _ hstep howner := by
    cases step_cases hstep with
    | @pass i e svc c hsvc hpass =>
      cases howner
      simp only [rank, hsvc, Option.elim_some, Function.update_self]
      exact stepsLeft_pass hpass _
    | passed hsvc hphase hreturned hup =>
      cases howner
      rw [rank_returned hsvc hphase hreturned, if_pos rfl, rank_waiting hsvc hphase hreturned]
      exact Nat.zero_lt_one
    | failed hsvc hphase hreturned hdown =>
      cases howner
      rw [rank_fail, rank_returned hsvc hphase hreturned, if_pos rfl, rank_waiting hsvc hphase hreturned]
      exact Nat.zero_lt_one
    | expire hlive =>
      cases howner
      rw [rank_cancelAll]
      simp [rank, hlive]
    | wait hall hwaited =>
      cases howner
      rw [rank_cancelAll]
      simp [rank, hwaited]
  others s e t p _ hstep howner := by
    cases step_cases hstep with
    | @pass i e svc c hsvc hpass =>
      cases p with
      | inl j =>
        have hj : j ≠ i := fun h => howner (by rw [h]; rfl)
        simp only [rank, Function.update_of_ne hj]
        exact le_refl _
      | inr b => cases b <;> exact le_refl _
    | passed hsvc hphase hreturned hup =>
      rw [rank_returned hsvc hphase hreturned]
      split <;> omega
    | failed hsvc hphase hreturned hdown =>
      rw [rank_fail, rank_returned hsvc hphase hreturned]
      split <;> omega
    | expire hlive =>
      rw [rank_cancelAll]
      cases p with
      | inl j => exact le_refl _
      | inr b => cases b <;> simp [rank]
    | wait hall hwaited =>
      rw [rank_cancelAll]
      cases p with
      | inl j => exact le_refl _
      | inr b => cases b <;> simp [rank]

theorem sum_rank_start (services : List ServiceConfig) :
    ∑ p ∈ (Finset.range services.length).disjSum Finset.univ, rank services start p =
      (services.map fun svc => svc.upstreams.length + 3).sum + 2 := by
  have hpasses : ∑ i ∈ Finset.range services.length, rank services start (.inl i) =
      (services.map fun svc => svc.upstreams.length + 3).sum := by
    induction services with
    | nil => rfl
    | cons svc services ih =>
      rw [List.length_cons, Finset.sum_range_succ', List.map_cons, List.sum_cons, add_comm]
      exact congrArg (svc.upstreams.length + 3 + ·) ih
  rw [Finset.sum_disjSum, hpasses]
  rfl

theorem owner_mem {es : List Event} (he : exec (step services) s es = some t) :
    ∀ e ∈ es, ∃ p ∈ (Finset.range services.length).disjSum Finset.univ, owner e = some p := by
  induction es generalizing s with
  | nil => nofun
  | cons e es ih =>
    obtain ⟨s', hstep, hrest⟩ := (exec_cons_iff (step services)).mp he
    intro e' he'
    rcases List.mem_cons.mp he' with rfl | hin
    · cases step_cases hstep with
      | pass hsvc _ => exact ⟨_, Finset.inl_mem_disjSum.mpr (Finset.mem_range.mpr (lt_of_service hsvc)), rfl⟩
      | passed hsvc _ _ _ =>
        exact ⟨_, Finset.inl_mem_disjSum.mpr (Finset.mem_range.mpr (lt_of_service hsvc)), rfl⟩
      | failed hsvc _ _ _ =>
        exact ⟨_, Finset.inl_mem_disjSum.mpr (Finset.mem_range.mpr (lt_of_service hsvc)), rfl⟩
      | expire _ => exact ⟨_, Finset.inr_mem_disjSum.mpr (Finset.mem_univ _), rfl⟩
      | wait _ _ => exact ⟨_, Finset.inr_mem_disjSum.mpr (Finset.mem_univ _), rfl⟩
    · exact ih hrest e' hin

/-- A goroutine that has not returned can take a step: its pass begins, a probe ends, the pass is
over, or it returns. -/
theorem goroutine_enabled (h : Inv services s) {i : Nat} {svc : ServiceConfig} (hsvc : services[i]? = some svc)
    (hreturned : s.returned i = false) : ∃ e, e ≠ .expire ∧ (step services s e).isSome = true := by
  have hsound := h.sound i svc hsvc
  cases hphase : (s.checkers i).phase with
  | starting => exact ⟨.pass i .checkAll, by rintro ⟨⟩, by simp [step, inProbe, hphase, hsvc, HealthChecker.step]⟩
  | stopped => exact absurd hphase hsound.going
  | waiting =>
    refine ⟨.returns i, by rintro ⟨⟩, ?_⟩
    simp [step, hphase, hreturned, hsvc]
  | passing running =>
    cases running with
    | nil => exact ⟨.pass i .waited, by rintro ⟨⟩, by simp [step, inProbe, hphase, hsvc, HealthChecker.step]⟩
    | cons check running =>
      obtain ⟨url, live⟩ := check
      have hk : HealthChecker.running (s.checkers i) 0 = some ⟨url, live⟩ := by
        simp [HealthChecker.running, hphase]
      cases live with
      | true =>
        refine ⟨.pass i (.complete 0 .failed), by rintro ⟨⟩, ?_⟩
        simp [step, inProbe, hsvc, HealthChecker.step, hk]
      | false =>
        -- a probe that was begun under a dead context is cut off
        have hcancelled := hsound.live _ hphase ⟨url, false⟩ List.mem_cons_self rfl
        refine ⟨.pass i (.cut 0), by rintro ⟨⟩, ?_⟩
        simp [step, inProbe, hsvc, HealthChecker.step, hk, hcancelled]

theorem enabled_of_not_waited (h : Inv services s) (hwaited : s.waited = false) :
    ∃ e, e ≠ .expire ∧ (step services s e).isSome = true := by
  by_cases hall : ∀ i < services.length, s.returned i = true
  · refine ⟨.wait, by rintro ⟨⟩, ?_⟩
    simp only [step, if_pos (And.intro hall hwaited), Option.isSome_some]
  · simp only [not_forall] at hall
    obtain ⟨i, hi, hreturned⟩ := hall
    exact goroutine_enabled h (List.getElem?_eq_getElem hi) (Bool.eq_false_iff.mpr hreturned)

/-- However the goroutines, the probes and the end of the context interleave, the startup takes at
most three steps for each service, one for each upstream and two more; and until `Wait` has
returned some step other than the end of the context is possible. -/
theorem startup_ends {es : List Event} (he : exec (step services) start es = some s) :
    es.length ≤ (services.map fun svc => svc.upstreams.length + 3).sum + 2 ∧
    (s.waited = false → ∃ e, e ≠ .expire ∧ (step services s e).isSome = true) := by
  constructor
  · rw [← sum_rank_start]
    exact (descends services).length_le_sum (inv_start services) _ (owner_mem he) he
  · intro hwaited
    exact enabled_of_not_waited (inv_exec he) hwaited

theorem startup_ends_two :
    ∃ s, exec (step twoServices.services) start ((twoPasses 503 (.cut 0)).take 5) = some s ∧
      s.waited = false ∧ ∃ e, e ≠ .expire ∧ (step twoServices.services s e).isSome = true := by
  obtain ⟨s, hs⟩ : ∃ s, exec (step twoServices.services) start ((twoPasses 503 (.cut 0)).take 5) = some s :=
    ⟨_, rfl⟩
  have hwaited : s.waited = false :=
    Option.some.inj (exec_observe (step twoServices.services) (fun s => some s.waited) hs rfl)
  exact ⟨s, hs, hwaited, (startup_ends hs).2 hwaited⟩

end Progress

end ApiGateway.Startup
