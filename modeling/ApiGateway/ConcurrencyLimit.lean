import ApiGateway.Accounting

/-!
# The cap on requests in flight

`internal/middleware/concurrencylimit.go`. The value that `ConcurrencyLimit` returns holds one
semaphore, a channel with room for `limit` tokens, and may be mounted around any number of
handlers. A request that arrives at one of them takes a token if there is room and runs the
handler, and is refused otherwise. When the handler returns or panics, the deferred receive
gives the token back as part of that exit; the panic goes on after it. A limit that is not
positive disables the middleware: there is no semaphore.

Requests are numbered in the order of their arrival. The chain of a service and the account that
is kept of a request each have this middleware at the place where it is mounted; with as many
slots taken as there are tokens they decide as it does here.
-/

namespace ApiGateway.ConcurrencyLimit

open Http Runs
set_option autoImplicit false

inductive Phase where
  | running
  | returned
  | panicked
  | shed (reply : JsonReply) (retryAfter : String)
  deriving DecidableEq

/-- A request and the handler it arrived at. -/
structure Proc where
  mount : Nat
  phase : Phase
  deriving DecidableEq

/-- The tokens in the channel, and every request so far. -/
structure State where
  semaphore : Nat
  procs : List Proc
  deriving DecidableEq

inductive Event where
  | arrive (mount : Nat)
  | ret (i : Nat)
  | panic (i : Nat)
  deriving DecidableEq

/-- The capacity of the channel, if the middleware makes one. -/
def concurrencyLimit (limit : Int) : Option Nat := if limit ≤ 0 then none else some limit.toNat

def start : State := ⟨0, []⟩

def overloaded : Phase := .shed (jsonReply 503 [("error", "server overloaded")]) "1"

/-- The `select`: a send that does not block, or the refusal. -/
def enter (capacity : Option Nat) (s : State) (mount : Nat) : State :=
  match capacity with
  | none => {s with procs := s.procs ++ [⟨mount, .running⟩]}
  | some capacity =>
    if s.semaphore < capacity then ⟨s.semaphore + 1, s.procs ++ [⟨mount, .running⟩]⟩
    else {s with procs := s.procs ++ [⟨mount, overloaded⟩]}

/-- The handler of request `i` exits, and the deferred receive with it. -/
def leave (capacity : Option Nat) (s : State) (i : Nat) (phase : Phase) : Option State :=
  match s.procs[i]? with
  | some ⟨mount, .running⟩ =>
    some ⟨if capacity.isSome then s.semaphore - 1 else s.semaphore, s.procs.set i ⟨mount, phase⟩⟩
  | _ => none

def step (capacity : Option Nat) (s : State) : Event → Option State
  | .arrive mount => some (enter capacity s mount)
  | .ret i => leave capacity s i .returned
  | .panic i => leave capacity s i .panicked

def Proc.isRunning (p : Proc) : Bool := p.phase = .running

/-- The handlers that are running, over all mounts. -/
def running (s : State) : Nat := s.procs.countP Proc.isRunning

/-- One token for each handler that is running, and no more of them than there is room for. -/
structure Exact (capacity : Nat) (s : State) : Prop where
  tokens : s.semaphore = running s
  room : running s ≤ capacity

section Exact
variable {capacity : Nat} {s t : State}

theorem running_arrived (s : State) (semaphore mount : Nat) (phase : Phase) :
    running ⟨semaphore, s.procs ++ [⟨mount, phase⟩]⟩ = running s + if phase = .running then 1 else 0 := by
  simp [running, List.countP_append, List.countP_singleton, Proc.isRunning]

theorem exact_enter (h : Exact capacity s) (mount : Nat) : Exact capacity (enter (some capacity) s mount) := by
  unfold enter
  dsimp only
  split
  · rename_i hroom
    have hcount := running_arrived s (s.semaphore + 1) mount .running
    rw [if_pos rfl] at hcount
    rw [h.tokens] at hroom
    refine ⟨?_, ?_⟩
    · rw [hcount, h.tokens]
    · rw [hcount]
      exact hroom
  · have hcount := running_arrived s s.semaphore mount overloaded
    rw [if_neg (by decide), Nat.add_zero] at hcount
    refine ⟨?_, ?_⟩
    · rw [hcount]
      exact h.tokens
    · rw [hcount]
      exact h.room

theorem exact_leave (h : Exact capacity s) {i : Nat} {phase : Phase} (hphase : phase ≠ .running)
    (hs : leave (some capacity) s i phase = some t) : Exact capacity t := by
  unfold leave at hs
  split at hs
  · rename_i mount hi
    cases hs
    obtain ⟨hlt, hproc⟩ := List.getElem?_eq_some_iff.mp hi
    have hcount : (s.procs.set i ⟨mount, phase⟩).countP Proc.isRunning = running s - 1 := by
      rw [List.countP_set hlt, hproc]
      simp [Proc.isRunning, hphase, running]
    refine ⟨?_, ?_⟩
    · change s.semaphore - 1 = _
      rw [running, hcount, h.tokens]
    · rw [running, hcount]
      exact le_trans (Nat.sub_le _ _) h.room
  · cases hs

theorem exact_step {e : Event} (h : Exact capacity s) (hs : step (some capacity) s e = some t) :
    Exact capacity t := by
  cases e with
  | arrive mount =>
    cases hs
    exact exact_enter h mount
  | ret i =>
    have hphase : Phase.returned ≠ .running := by decide
    exact exact_leave h hphase hs
  | panic i =>
    have hphase : Phase.panicked ≠ .running := by decide
    exact exact_leave h hphase hs

theorem exact_start (capacity : Nat) : Exact capacity start := ⟨rfl, Nat.zero_le _⟩

/-- What an arriving request comes to. -/
theorem arrive_phase (h : Exact capacity s) (mount : Nat) :
    (enter (some capacity) s mount).procs[s.procs.length]? =
      some ⟨mount, if running s = capacity then overloaded else .running⟩ := by
  have hroom := h.room
  unfold enter
  dsimp only
  rw [h.tokens]
  split
  · rename_i hlt
    rw [if_neg (Nat.ne_of_lt hlt)]
    exact List.getElem?_concat_length
  · rename_i hlt
    rw [if_pos (by omega)]
    exact List.getElem?_concat_length

end Exact

/-- In every state of every run, over any number of mounts: the tokens in the channel are as many
as the handlers that are running, at most `limit`, and a request that arrives is refused with
503 exactly if `limit` handlers are running, and runs otherwise. -/
theorem concurrencyLimit_exact {limit : Int} (hlimit : 1 ≤ limit) {es : List Event} {s : State}
    (hv : Visits (step (concurrencyLimit limit)) start es s) :
    s.semaphore = running s ∧ (running s : Int) ≤ limit ∧
      ∀ mount, ∃ t p, step (concurrencyLimit limit) s (.arrive mount) = some t ∧
        t.procs[s.procs.length]? = some p ∧ p.mount = mount ∧
        (p.phase = overloaded ↔ (running s : Int) = limit) ∧
        (p.phase = .running ↔ (running s : Int) ≠ limit) := by
  have hcapacity : concurrencyLimit limit = some limit.toNat := if_neg (by omega)
  rw [hcapacity] at hv ⊢
  have hexact : Exact limit.toNat s :=
    visits_inductive _ (Exact limit.toNat) (fun _ _ _ h hs => exact_step h hs) (exact_start _) hv
  refine ⟨hexact.tokens, ?_, ?_⟩
  · have hroom := hexact.room
    omega
  · intro mount
    refine ⟨_, _, rfl, arrive_phase hexact mount, rfl, ?_, ?_⟩
    · by_cases hfull : running s = limit.toNat
      · simp only [hfull, if_true, true_iff]
        omega
      · simp only [hfull, if_false]
        refine iff_of_false nofun ?_
        omega
    · by_cases hfull : running s = limit.toNat
      · simp only [hfull, if_true]
        refine iff_of_false nofun ?_
        omega
      · simp only [hfull, if_false, true_iff]
        omega

/-- Two mounts, one slot: the second request is refused, the first panics, the third runs. -/
theorem concurrencyLimit_exact_one :
    ∃ s, exec (step (concurrencyLimit 1)) start [.arrive 0, .arrive 1, .panic 0, .arrive 1] = some s ∧
      s.procs.map Proc.phase = [.panicked, overloaded, .running] ∧ s.semaphore = running s ∧
      (running s : Int) ≤ 1 := by
  have hrun : exec (step (concurrencyLimit 1)) start [.arrive 0, .arrive 1, .panic 0, .arrive 1] =
      some ⟨1, [⟨0, .panicked⟩, ⟨1, overloaded⟩, ⟨1, .running⟩]⟩ := by decide
  obtain ⟨htokens, hroom, -⟩ := concurrencyLimit_exact (by decide) ⟨_, [], (List.append_nil _).symm, hrun⟩
  exact ⟨_, hrun, rfl, htokens, hroom⟩

section Mounted

theorem enter_concurrencyLimit (limit : Int) (c : State) (mount : Nat) :
    enter (concurrencyLimit limit) c mount =
      if limit ≤ 0 then {c with procs := c.procs ++ [⟨mount, .running⟩]}
      else if (c.semaphore : Int) < limit then ⟨c.semaphore + 1, c.procs ++ [⟨mount, .running⟩]⟩
      else {c with procs := c.procs ++ [⟨mount, overloaded⟩]} := by
  by_cases hlimit : limit ≤ 0
  · rw [concurrencyLimit, if_pos hlimit, if_pos hlimit, enter]
  · have hroom : c.semaphore < limit.toNat ↔ (c.semaphore : Int) < limit := by omega
    rw [concurrencyLimit, if_neg hlimit, if_neg hlimit, enter]
    simp only [hroom]

/-- In the chain of a service the middleware takes and refuses as the semaphore does. -/
theorem encounter_concurrencyLimit {Key : Type} (w : ServiceChain.World Key) (svc : ServiceChain.Service Key)
    {s : ServiceChain.State Key} {c : State} (hc : c.semaphore = s.slots) (i : Nat)
    (p : ServiceChain.Proc Key) (x : ServiceChain.Readings) (rest : List (ServiceChain.Middleware Key))
    (limit : Int) (mount : Nat) :
    ∃ t q, ServiceChain.encounter w svc s i p x rest (.concurrencyLimit limit) = some t ∧
      t.procs i = some q ∧ t.slots = (enter (concurrencyLimit limit) c mount).semaphore ∧
      ((q.pc = p.pc ∧ q.todo = rest ∧
          (enter (concurrencyLimit limit) c mount).procs = c.procs ++ [⟨mount, .running⟩]) ∨
        ∃ reply retryAfter, q = ServiceChain.refuse p reply (some retryAfter) ∧
          (enter (concurrencyLimit limit) c mount).procs = c.procs ++ [⟨mount, .shed reply retryAfter⟩]) := by
  rw [enter_concurrencyLimit, ServiceChain.encounter, ← hc]
  by_cases hlimit : limit ≤ 0
  · rw [if_pos hlimit, if_pos hlimit]
    exact ⟨_, _, rfl, Function.update_self .., hc.symm, .inl ⟨rfl, rfl, rfl⟩⟩
  · rw [if_neg hlimit, if_neg hlimit]
    by_cases hroom : (c.semaphore : Int) < limit
    · rw [if_pos hroom, if_pos hroom]
      exact ⟨_, _, rfl, Function.update_self .., rfl, .inl ⟨rfl, rfl, rfl⟩⟩
    · rw [if_neg hroom, if_neg hroom]
      exact ⟨_, _, rfl, Function.update_self .., hc.symm, .inr ⟨_, _, rfl, rfl⟩⟩

/-- The requests that the account takes as shed are those the semaphore refuses. -/
theorem sheds_iff_overloaded {c : State} {x : Accounting.Incoming} (hc : c.semaphore = x.slots) (limit : Int)
    (mount : Nat) : Accounting.sheds limit x = true ↔
      (enter (concurrencyLimit limit) c mount).procs = c.procs ++ [⟨mount, overloaded⟩] := by
  have hphase (phase : Phase) : c.procs ++ [⟨mount, phase⟩] = c.procs ++ [⟨mount, overloaded⟩] ↔
      phase = overloaded := by simp
  rw [enter_concurrencyLimit, hc, Accounting.sheds, decide_eq_true_iff]
  split
  · rw [hphase]
    refine iff_of_false ?_ nofun
    omega
  · split
    · rw [hphase]
      refine iff_of_false ?_ nofun
      omega
    · rw [hphase]
      refine iff_of_true ?_ rfl
      omega

end Mounted

end ApiGateway.ConcurrencyLimit
