import ApiGateway.Runs

/-!
# Log records for several handlers

The gateway's logger writes every record to its output and hands it on for export. The handler that
does so has a list of handlers and passes everything it is given to each of them: whether it is enabled, a
record to handle, attributes and groups. The first error of a handler ends a call, and the handlers
after it never see the record.

A handler is a value that a logger carries around, together with a place of its own that its records
go to, which all loggers made from one another share. What a handler does is a parameter. Records are values,
which is what `Clone` is for.
-/

namespace ApiGateway.LogFanout

open Runs
set_option autoImplicit false

structure Record (Attr : Type) where
  level : Int
  message : String
  attrs : List Attr

/-- `slog.Handler`: a handler of type `H` and the place of type `S` that it writes to. -/
structure Driver (H S Attr Err : Type) where
  enabled : S → H → Int → Bool
  handle : S → H → Record Attr → S × Option Err
  withAttrs : H → List Attr → H
  withGroup : H → String → H

inductive Event (Attr : Type) where
  | withAttrs (logger : Nat) (attrs : List Attr)
  | withGroup (logger : Nat) (name : String)
  | log (logger : Nat) (r : Record Attr)

section Model
variable {H S Attr Err : Type} (d : Driver H S Attr Err)

def enabled (sinks : List S) (handlers : List H) (level : Int) : Bool :=
  (sinks.zip handlers).any fun (s, h) => d.enabled s h level

/-- `Handle`: what becomes of each place, and the error. -/
def handle (r : Record Attr) : List (S × H) → List S × Option Err
  | [] => ([], none)
  | (s, h) :: rest =>
    if d.enabled s h r.level then
      match (d.handle s h r).2 with
      | some err => ((d.handle s h r).1 :: rest.map Prod.fst, some err)
      | none => ((d.handle s h r).1 :: (handle r rest).1, (handle r rest).2)
    else (s :: (handle r rest).1, (handle r rest).2)

/-- The places, and the handlers of each logger that was made. -/
structure State (H S : Type) where
  sinks : List S
  loggers : List (List H)

/-- A call on one of the loggers; one that is made from another comes after those there are. -/
def step (s : State H S) : Event Attr → Option (State H S)
  | .withAttrs i attrs => (s.loggers[i]?).map fun handlers =>
    {s with loggers := s.loggers ++ [handlers.map (d.withAttrs · attrs)]}
  | .withGroup i name => (s.loggers[i]?).map fun handlers =>
    {s with loggers := s.loggers ++ [handlers.map (d.withGroup · name)]}
  | .log i r => (s.loggers[i]?).map fun handlers =>
    if enabled d s.sinks handlers r.level then {s with sinks := (handle d r (s.sinks.zip handlers)).1} else s

/-- One handler that has the loggers to itself. -/
structure Alone (H S : Type) where
  sink : S
  loggers : List H

def stepAlone (s : Alone H S) : Event Attr → Option (Alone H S)
  | .withAttrs i attrs => (s.loggers[i]?).map fun h => {s with loggers := s.loggers ++ [d.withAttrs h attrs]}
  | .withGroup i name => (s.loggers[i]?).map fun h => {s with loggers := s.loggers ++ [d.withGroup h name]}
  | .log i r => (s.loggers[i]?).map fun h =>
    if d.enabled s.sink h r.level then {s with sink := (d.handle s.sink h r).1} else s

/-- A handler before the one at `k` is enabled for the record and fails. -/
def cutOff (r : Record Attr) (k : Nat) (pairs : List (S × H)) : Bool :=
  (pairs.take k).any fun (s, h) => d.enabled s h r.level && (d.handle s h r).2.isSome

/-- The call as the handler at `k` gets it. -/
def heard (k : Nat) (s : State H S) : Event Attr → Option (Event Attr)
  | .withAttrs i attrs => some (.withAttrs i attrs)
  | .withGroup i name => some (.withGroup i name)
  | .log i r => if (s.loggers[i]?).any fun handlers => cutOff d r k (s.sinks.zip handlers) then none else some (.log i r)

end Model

section Steps
variable {H S Attr Err : Type} {d : Driver H S Attr Err} {k : Nat}

/-- What a handler did with a record. -/
def written (d : Driver H S Attr Err) (r : Record Attr) (p : S × H) : S :=
  if d.enabled p.1 p.2 r.level then (d.handle p.1 p.2 r).1 else p.1

theorem cutOff_zero (r : Record Attr) (pairs : List (S × H)) : cutOff d r 0 pairs = false := rfl

theorem cutOff_succ (r : Record Attr) (k : Nat) (s : S) (h : H) (rest : List (S × H)) :
    cutOff d r (k + 1) ((s, h) :: rest) =
      (d.enabled s h r.level && (d.handle s h r).2.isSome || cutOff d r k rest) := by
  rw [cutOff, List.take_succ_cons, List.any_cons]
  rfl

/-- After a call of `Handle` each place has the record that its handler writes there, unless the call
ended before. -/
theorem handle_getElem? (r : Record Attr) (pairs : List (S × H)) (k : Nat) :
    (handle d r pairs).1[k]? = (pairs[k]?).map fun p => if cutOff d r k pairs then p.1 else written d r p := by
  induction pairs generalizing k with
  | nil => rfl
  | cons p rest ih =>
    obtain ⟨s, h⟩ := p
    cases henabled : d.enabled s h r.level with
    | false =>
      cases k with
      | zero => simp [handle, henabled, cutOff_zero, written]
      | succ k => simp [handle, henabled, cutOff_succ, ih]
    | true =>
      cases herr : (d.handle s h r).2 with
      | some err =>
        cases k with
        | zero => simp [handle, henabled, herr, cutOff_zero, written]
        | succ k => simp [handle, henabled, herr, cutOff_succ]
      | none =>
        cases k with
        | zero => simp [handle, henabled, herr, cutOff_zero, written]
        | succ k => simp [handle, henabled, herr, cutOff_succ, ih]

/-- What the handler at `k` has of a state. -/
structure Sees (k : Nat) (s : State H S) (a : Alone H S) : Prop where
  sink : s.sinks[k]? = some a.sink
  loggers : s.loggers.map (·[k]?) = a.loggers.map some

theorem Sees.logger {s : State H S} {a : Alone H S} (h : Sees k s a) {i : Nat} {handlers : List H}
    (hi : s.loggers[i]? = some handlers) : ∃ handler, a.loggers[i]? = some handler ∧ handlers[k]? = some handler := by
  have hat := congrArg (·[i]?) h.loggers
  simp only [List.getElem?_map, hi, Option.map_some] at hat
  obtain ⟨handler, hhandler, heq⟩ := Option.map_eq_some_iff.mp hat.symm
  exact ⟨handler, hhandler, heq.symm⟩

theorem Sees.add {s : State H S} {a : Alone H S} (h : Sees k s a) {handlers : List H} {handler : H}
    (hk : handlers[k]? = some handler) :
    Sees k {s with loggers := s.loggers ++ [handlers]} {a with loggers := a.loggers ++ [handler]} :=
  ⟨h.sink, by rw [List.map_append, List.map_append, h.loggers, List.map_singleton, List.map_singleton, hk]⟩

/-- One call: what the handler at `k` hears of it, it does as if it were alone. -/
theorem sees_step {s t : State H S} {a : Alone H S} {e : Event Attr} (h : Sees k s a) (hstep : step d s e = some t) :
    ∃ b, exec (stepAlone d) a (heard d k s e).toList = some b ∧ Sees k t b := by
  cases e with
  | withAttrs i attrs =>
    obtain ⟨handlers, hi, rfl⟩ := Option.map_eq_some_iff.mp hstep
    obtain ⟨handler, hai, hk⟩ := h.logger hi
    refine ⟨{a with loggers := a.loggers ++ [d.withAttrs handler attrs]}, ?_, h.add ?_⟩
    · simp [heard, exec, stepAlone, hai]
    · simp [hk]
  | withGroup i name =>
    obtain ⟨handlers, hi, rfl⟩ := Option.map_eq_some_iff.mp hstep
    obtain ⟨handler, hai, hk⟩ := h.logger hi
    refine ⟨{a with loggers := a.loggers ++ [d.withGroup handler name]}, ?_, h.add ?_⟩
    · simp [heard, exec, stepAlone, hai]
    · simp [hk]
  | log i r =>
    obtain ⟨handlers, hi, rfl⟩ := Option.map_eq_some_iff.mp hstep
    obtain ⟨handler, hai, hk⟩ := h.logger hi
    have hpair : (s.sinks.zip handlers)[k]? = some (a.sink, handler) :=
      List.getElem?_zip_eq_some.mpr ⟨h.sink, hk⟩
    have hsink : (if enabled d s.sinks handlers r.level then {s with sinks := (handle d r (s.sinks.zip handlers)).1}
        else s).sinks[k]? = some (if cutOff d r k (s.sinks.zip handlers) then a.sink
          else written d r (a.sink, handler)) := by
      split
      · rw [handle_getElem?, hpair, Option.map_some]
      · -- no handler is enabled, this one neither
        rename_i hoff
        have hself : d.enabled a.sink handler r.level = false := by
          rw [Bool.not_eq_true, enabled, List.any_eq_false] at hoff
          exact Bool.eq_false_iff.mpr (hoff _ (List.mem_of_getElem? hpair))
        rw [written, if_neg (Bool.eq_false_iff.mp hself), ite_self]
        exact h.sink
    have hloggers : (if enabled d s.sinks handlers r.level then
        {s with sinks := (handle d r (s.sinks.zip handlers)).1} else s).loggers = s.loggers := by
      split <;> rfl
    cases hcut : cutOff d r k (s.sinks.zip handlers) with
    | true =>
      rw [hcut, if_pos rfl] at hsink
      refine ⟨a, ?_, hsink, hloggers.symm ▸ h.loggers⟩
      simp [heard, hi, hcut]
    | false =>
      rw [hcut, if_neg Bool.false_ne_true] at hsink
      refine ⟨{a with sink := written d r (a.sink, handler)}, ?_, hsink, hloggers.symm ▸ h.loggers⟩
      cases henabled : d.enabled a.sink handler r.level with
      | true => simp [heard, hi, hcut, exec, stepAlone, hai, written, henabled]
      | false => simp [heard, hi, hcut, exec, stepAlone, hai, written, henabled]

theorem sees_run {s t : State H S} {a : Alone H S} {es : List (Event Attr)} (h : Sees k s a)
    (he : exec (step d) s es = some t) :
    ∃ b, exec (stepAlone d) a (outputs (step d) (heard d k) s es) = some b ∧ Sees k t b := by
  induction es generalizing s a with
  | nil =>
    obtain rfl := Option.some.inj he
    exact ⟨a, rfl, h⟩
  | cons e es ih =>
    obtain ⟨s', hstep, hrest⟩ := (exec_cons_iff (step d)).mp he
    obtain ⟨b, hb, hsees⟩ := sees_step h hstep
    obtain ⟨c, hc, hsees'⟩ := ih hsees hrest
    refine ⟨c, ?_, hsees'⟩
    rw [outputs_cons (step d) (heard d k) hstep]
    exact (exec_append_iff (stepAlone d)).mpr ⟨b, hb, hc⟩

/-- No call is cut off before the first handler. -/
theorem heard_zero (s : State H S) (e : Event Attr) : heard d 0 s e = some e := by
  cases e with
  | withAttrs i attrs => rfl
  | withGroup i name => rfl
  | log i r => simp [heard, cutOff_zero]

theorem outputs_heard_zero {s t : State H S} {es : List (Event Attr)} (he : exec (step d) s es = some t) :
    outputs (step d) (heard d 0) s es = es := by
  induction es generalizing s with
  | nil => rfl
  | cons e es ih =>
    obtain ⟨s', hstep, hrest⟩ := (exec_cons_iff (step d)).mp he
    rw [outputs_cons (step d) (heard d 0) hstep, heard_zero, ih hrest]
    rfl

end Steps

/-- Whatever loggers are made and used, each handler does with the calls it hears exactly what it would do
if it were the only one; it hears everything but the records on which a handler before it fails, and the
first one hears everything. -/
theorem fanout_transparent {H S Attr Err : Type} {d : Driver H S Attr Err} {sinks : List S} {handlers : List H}
    {t : State H S} {es : List (Event Attr)} (he : exec (step d) ⟨sinks, [handlers]⟩ es = some t) {k : Nat} {sink : S}
    {handler : H} (hsink : sinks[k]? = some sink) (hhandler : handlers[k]? = some handler) :
    (∃ b, exec (stepAlone d) ⟨sink, [handler]⟩ (outputs (step d) (heard d k) ⟨sinks, [handlers]⟩ es) = some b ∧
      t.sinks[k]? = some b.sink) ∧
    (k = 0 → outputs (step d) (heard d k) ⟨sinks, [handlers]⟩ es = es) := by
  have hsees : Sees k ⟨sinks, [handlers]⟩ ⟨sink, [handler]⟩ :=
    ⟨hsink, by rw [List.map_singleton, List.map_singleton, hhandler]⟩
  obtain ⟨b, hb, hend⟩ := sees_run hsees he
  refine ⟨⟨b, hb, hend.sink⟩, ?_⟩
  rintro rfl
  exact outputs_heard_zero he

/-- Handlers that keep the messages from a level on, and fail on those of a level. -/
def keeper : Driver (Int × Int) (List String) String String where
  enabled _ h level := h.1 ≤ level
  handle lines h r := (lines ++ [r.message], if r.level = h.2 then some "full" else none)
  withAttrs h _ := h
  withGroup h _ := h

def calls : List (Event String) :=
  [.log 0 ⟨0, "started", []⟩, .withGroup 0 "request", .log 1 ⟨4, "slow", []⟩, .log 1 ⟨8, "failed", []⟩]

/-- The first handler fails on the last record, which the second one then does not get. -/
theorem fanout_transparent_two :
    ∃ t, exec (step keeper) ⟨[[], []], [[(0, 8), (4, 0)]]⟩ calls = some t ∧
      t.sinks = [["started", "slow", "failed"], ["slow"]] ∧
      ∃ b, exec (stepAlone keeper) ⟨[], [(4, 0)]⟩
        (outputs (step keeper) (heard keeper 1) ⟨[[], []], [[(0, 8), (4, 0)]]⟩ calls) = some b ∧
        t.sinks[1]? = some b.sink := by
  obtain ⟨t, ht⟩ : ∃ t, exec (step keeper) ⟨[[], []], [[(0, 8), (4, 0)]]⟩ calls = some t := ⟨_, rfl⟩
  have hsinks : t.sinks = [["started", "slow", "failed"], ["slow"]] :=
    Option.some.inj (exec_observe (step keeper) (fun t => some t.sinks) ht (by decide +kernel))
  exact ⟨t, ht, hsinks, (fanout_transparent ht rfl rfl).1⟩

end ApiGateway.LogFanout
