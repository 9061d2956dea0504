import ApiGateway.CacheFlights

/-!
# Requests that ask for a fresh response

A request with `Cache-Control: no-cache` does not look into the store, but it may join a call that
is in flight. A call is in flight until its leader leaves it, which is after the upstream's answer
has come back and has been stored; so what the request is given may have been in the store before
it arrived. What holds, however the steps of the requests fall, is that it comes from a call that
had not ended when the request arrived, its own or somebody else's.
-/

namespace ApiGateway.CacheFreshness

open Http CacheKey CacheControl CacheFlights Runs
open CacheServe hiding State
set_option autoImplicit false

/-- The request has been answered; if it led a call, the call has ended. -/
def Ended (s : State) (j : Nat) : Prop := ∃ q res, s.procs j = some q ∧ q.pc = .replied res

/-- The call that the answer of the request comes from had not ended in `s₀`. -/
def PcFresh (s₀ : State) : Pc → Prop
  | .waiting j => ¬ Ended s₀ j
  | .replied res => ¬ Ended s₀ res.source.origin
  | _ => True

/-- What holds of the request `i` from its arrival in `s₀` on. -/
structure Fresh (cfg : CacheConfig) (s₀ : State) (i : Nat) (r : Request) (s : State) : Prop where
  wellFormed : WellFormed cfg s
  later : ∀ j, Ended s₀ j → Ended s j
  proc : ∃ names pc, s.procs i = some ⟨r, names, pc⟩ ∧
    (requestDirective cfg r "no-cache" = true → PcFresh s₀ pc)

section Steps
variable {cfg : CacheConfig} {s₀ s t : State} {i j : Nat} {r : Request} {e : Event}

end Steps

end ApiGateway.CacheFreshness
