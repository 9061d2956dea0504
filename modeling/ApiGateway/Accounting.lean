import ApiGateway.Recoverer
import ApiGateway.ServiceChain

/-!
# What is logged and counted of a request

The middlewares that `buildRouter` mounts on every route: `Recoverer`, `RequestID`, `Logger`,
`MaxBody`, the metrics, `Tracing` and `ConcurrencyLimit`. `Logger`, the metrics and `Tracing`
each put a writer of their own around the one they are given, which notes the status it is
asked to write, and report that status when the handler inside has returned. A panic unwinds
past all of them; only `Tracing` ends its span on the way.

A handler runs on a writer and exits, by returning or by a panic. One that calls `WriteHeader`
with a code that the server refuses panics there, whatever it meant to do next. The clock
readings, the identifier and the route pattern are given with the request.
-/

namespace ApiGateway.Accounting

open Http Compress NetHttp Recoverer
open ServiceChain (xRequestID)
set_option autoImplicit false

inductive Exit where
  | returned
  | panicked
  deriving DecidableEq

inductive Level where
  | info
  | warn
  | error
  deriving DecidableEq

structure RequestRecord where
  level : Level
  method : String
  path : String
  status : Int
  duration : Int
  bytes : Int
  requestID : String
  deriving DecidableEq

inductive LogRecord where
  | panicRecovered
  | request (r : RequestRecord)
  deriving DecidableEq

/-- The attributes of one increment of the counter. -/
structure CounterAdd where
  method : String
  path : String
  status : String
  deriving DecidableEq

structure DurationRecord where
  method : String
  path : String
  duration : Int
  deriving DecidableEq

/-- An ended span: the attributes it was given, if any, and whether its status is an error. -/
structure Span where
  attributes : Option (String × String × Int)
  failed : Bool
  deriving DecidableEq

structure Telemetry where
  log : List LogRecord
  requestsTotal : List CounterAdd
  requestDuration : List DurationRecord
  spans : List Span
  deriving DecidableEq

def Telemetry.empty : Telemetry := ⟨[], [], [], []⟩

/-- A request with what the middlewares read while it passes: a random identifier, the time the
handlers inside took, the pattern that was matched, the slots taken when it asks for one. -/
structure Incoming where
  request : Request
  contentLength : Int
  uuid : Option String
  loggerElapsed : Int
  metricsElapsed : Int
  routePattern : String
  slots : Nat

structure Limits where
  maxBodyBytes : Int
  maxInFlight : Int

abbrev Handler (W : Type) : Type := W → Telemetry → W × Telemetry × Exit

structure LoggerWriter where
  outer : ServerResponse
  status : Int
  bytes : Int
  deriving DecidableEq

def loggerWriter : ResponseWriter LoggerWriter where
  header rw := responseWriter.header rw.outer
  mapHeader f rw := {rw with outer := responseWriter.mapHeader f rw.outer}
  writeHeader code rw := {rw with status := code, outer := responseWriter.writeHeader code rw.outer}
  write b rw := {rw with
    outer := responseWriter.write b rw.outer
    bytes := rw.bytes + accepted (responseWriter.writeHeader 200 rw.outer) b}

/-- A writer that notes the status it is asked to write. -/
structure StatusWriter (W : Type) where
  outer : W
  status : Int
  deriving DecidableEq

def statusWriter {W : Type} (wr : ResponseWriter W) : ResponseWriter (StatusWriter W) where
  header rw := wr.header rw.outer
  mapHeader f rw := {rw with outer := wr.mapHeader f rw.outer}
  writeHeader code rw := ⟨wr.writeHeader code rw.outer, code⟩
  write b rw := {rw with outer := wr.write b rw.outer}

def metricsWriter : ResponseWriter (StatusWriter LoggerWriter) := statusWriter loggerWriter

def tracingWriter : ResponseWriter (StatusWriter (StatusWriter LoggerWriter)) := statusWriter metricsWriter

def retryAfter : FieldName := ⟨"Retry-After", by decide, by decide⟩

def levelOf (status : Int) : Level :=
  if status ≥ 500 then .error else if status ≥ 400 then .warn else .info

def recovering (next : Handler ServerResponse) : Handler ServerResponse := fun w tel =>
  match next w tel with
  | (w, tel, .returned) => (w, tel, .returned)
  | (w, tel, .panicked) => (recoverer w, {tel with log := tel.log ++ [.panicRecovered]}, .returned)

def requestID (x : Incoming) (next : Handler ServerResponse) : Handler ServerResponse := fun w tel =>
  match x.uuid with
  | none => (responseWriter.writeHeader 500 w, tel, .returned)
  | some uuid => next (responseWriter.mapHeader (fun h => h.set xRequestID uuid) w) tel

def logger (x : Incoming) (next : Handler LoggerWriter) : Handler ServerResponse := fun w tel =>
  match next ⟨w, 200, 0⟩ tel with
  | (rw, tel, .returned) =>
    (rw.outer, {tel with log := tel.log ++ [.request ⟨levelOf rw.status, x.request.method,
      x.request.url.path, rw.status, x.loggerElapsed, rw.bytes, x.uuid.getD ""⟩]}, .returned)
  | (rw, tel, .panicked) => (rw.outer, tel, .panicked)

def maxBody (limit : Int) (x : Incoming) (next : Handler LoggerWriter) : Handler LoggerWriter :=
  fun w tel =>
    if x.contentLength > limit then
      (performAll loggerWriter w [.header (.set contentType "application/json"), .writeHeader 413,
        .write (errorBody "request body too large")], tel, .returned)
    else next w tel

def metrics (x : Incoming) (next : Handler (StatusWriter LoggerWriter)) : Handler LoggerWriter :=
  fun w tel =>
    match next ⟨w, 200⟩ tel with
    | (rw, tel, .returned) =>
      let path := if x.routePattern = "" then "(shed)" else x.routePattern
      (rw.outer, {tel with
        requestDuration := tel.requestDuration ++ [⟨x.request.method, path, x.metricsElapsed⟩]
        requestsTotal := tel.requestsTotal ++ [⟨x.request.method, path, toString rw.status⟩]}, .returned)
    | (rw, tel, .panicked) => (rw.outer, tel, .panicked)

def tracing (x : Incoming) (next : Handler (StatusWriter (StatusWriter LoggerWriter))) :
    Handler (StatusWriter LoggerWriter) := fun w tel =>
  match next ⟨w, 200⟩ tel with
  | (rw, tel, .returned) =>
    (rw.outer, {tel with spans := tel.spans ++
      [⟨some (x.request.method, x.request.url.path, rw.status), decide (rw.status ≥ 500)⟩]}, .returned)
  | (rw, tel, .panicked) => (rw.outer, {tel with spans := tel.spans ++ [⟨none, false⟩]}, .panicked)

def shedOps : List Op :=
  [.header (.set contentType "application/json"), .header (.set retryAfter "1"), .writeHeader 503,
    .write (errorBody "server overloaded")]

def sheds (limit : Int) (x : Incoming) : Bool := 0 < limit ∧ limit ≤ x.slots

def concurrencyLimit (limit : Int) (x : Incoming)
    (next : Handler (StatusWriter (StatusWriter LoggerWriter))) :
    Handler (StatusWriter (StatusWriter LoggerWriter)) := fun w tel =>
  if sheds limit x then (performAll tracingWriter w shedOps, tel, .returned) else next w tel

/-- What the handler inside does: its operations on the writer, and how it means to end. -/
structure Behaviour where
  ops : List Op
  exit : Exit
  deriving DecidableEq

def handling (b : Behaviour) : Handler (StatusWriter (StatusWriter LoggerWriter)) := fun w tel =>
  let w := performAll tracingWriter w b.ops
  (w, tel, if w.outer.outer.outer.panicked then .panicked else b.exit)

/-- The response the client gets and what was recorded of the request. -/
def serveHTTP (cfg : Limits) (x : Incoming) (b : Behaviour) : ServerResponse × Telemetry :=
  let (w, tel, _) := recovering (requestID x (logger x (maxBody cfg.maxBodyBytes x (metrics x
    (tracing x (concurrencyLimit cfg.maxInFlight x (handling b)))))))
    (newResponse (x.request.method = "HEAD")) .empty
  (finishRequest w, tel)

/-- The status the three writers have noted when the handler is done. -/
def report (status : Int) : Op → Int
  | .writeHeader code => code
  | .header _ => status
  | .write _ => status

def reported (ops : List Op) : Int := ops.foldl report 200

/-- The status the operations leave the client with; `none` if one of them panics. -/
def settled : List Op → Option Int
  | [] => some 200
  | .header _ :: ops => settled ops
  | .write _ :: _ => some 200
  | .writeHeader code :: ops =>
    if code < 100 ∨ 999 < code then none else if informational code then settled ops else some code

def requestRecords (tel : Telemetry) : List RequestRecord :=
  tel.log.filterMap fun
    | .request r => some r
    | .panicRecovered => none

/-- One record and one increment, both with the status the client got. -/
structure Accounted (client : ServerResponse) (tel : Telemetry) : Prop where
  logged : ∃ r, requestRecords tel = [r] ∧ r.status = client.status
  counted : ∃ add, tel.requestsTotal = [add] ∧ add.status = toString client.status

section Writers
variable {W : Type} (wr : ResponseWriter W)

theorem performAll_statusWriter (w : W) (status : Int) (ops : List Op) :
    performAll (statusWriter wr) ⟨w, status⟩ ops = ⟨performAll wr w ops, ops.foldl report status⟩ := by
  induction ops generalizing w status with
  | nil => rfl
  | cons op ops ih =>
    cases op with
    | header op => exact ih _ _
    | writeHeader code => exact ih _ _
    | write b => exact ih _ _

theorem performAll_loggerWriter (rw : LoggerWriter) (ops : List Op) :
    (performAll loggerWriter rw ops).outer = performAll responseWriter rw.outer ops ∧
      (performAll loggerWriter rw ops).status = ops.foldl report rw.status := by
  induction ops generalizing rw with
  | nil => exact ⟨rfl, rfl⟩
  | cons op ops ih =>
    cases op with
    | header op => exact ih _
    | writeHeader code => exact ih _
    | write b => exact ih _

end Writers

section Settled

theorem kept_panicked : Kept responseWriter fun w => w.panicked = true where
  mapHeader w f h := by simp [responseWriter, h]
  writeHeader w code h := by simp [responseWriter, writeHeader, h]
  write w b h := by simp [responseWriter, write, h]

/-- The status is fixed and nothing panics any more. -/
def Fixed (code : Int) (w : ServerResponse) : Prop :=
  w.wroteHeader = true ∧ w.status = code ∧ w.panicked = false

theorem kept_fixed (code : Int) : Kept responseWriter (Fixed code) where
  mapHeader w f h := by
    obtain ⟨hsent, hstatus, hp⟩ := h
    simp [responseWriter, Fixed, hsent, hstatus, hp]
  writeHeader w c h := by
    change Fixed code (writeHeader c w)
    rwa [writeHeader_of_wroteHeader h.1]
  write w b h := by
    change Fixed code (write b w)
    obtain ⟨hsent, hstatus, hp⟩ := h
    unfold write
    rw [writeHeader_of_wroteHeader hsent, hp]
    simp only [Bool.false_eq_true, if_false]
    split
    · exact ⟨hsent, hstatus, hp⟩
    · exact ⟨hsent, hstatus, hp⟩

variable {w : ServerResponse}

theorem fixed_write (hp : w.panicked = false) (hw : w.wroteHeader = false) (b : List UInt8) :
    Fixed 200 (write b w) := by
  unfold write
  rw [writeHeader_commit hp hw (by decide), hp]
  simp only [Bool.false_eq_true, if_false]
  split
  · exact ⟨rfl, rfl, hp⟩
  · exact ⟨rfl, rfl, hp⟩

theorem fixed_writeHeader (hp : w.panicked = false) (hw : w.wroteHeader = false) {code : Int}
    (hvalid : ¬ (code < 100 ∨ 999 < code)) (hfinal : informational code = false) :
    Fixed code (writeHeader code w) := by
  simp only [writeHeader, hp, hw, Bool.or_self, Bool.false_eq_true, if_false, if_neg hvalid, hfinal]
  exact ⟨rfl, rfl, hp⟩

/-- Nothing done after the status is fixed makes a difference to it. -/
theorem Fixed.performAll {code : Int} (h : Fixed code w) (ops : List Op) :
    Fixed code (finishRequest (Compress.performAll responseWriter w ops)) ∧
      (Compress.performAll responseWriter w ops).panicked = false := by
  have hfixed := (kept_fixed code).performAll h ops
  rw [finishRequest, writeHeader_of_wroteHeader hfixed.1]
  exact ⟨hfixed, hfixed.2.2⟩

/-- Where the operations leave an open response: it panicked, or the client gets the settled
status. -/
theorem performAll_settled (hp : w.panicked = false) (hw : w.wroteHeader = false) (ops : List Op) :
    match settled ops with
    | none => (performAll responseWriter w ops).panicked = true
    | some code => Fixed code (finishRequest (performAll responseWriter w ops)) ∧
        (performAll responseWriter w ops).panicked = false := by
  induction ops generalizing w with
  | nil =>
    refine ⟨?_, hp⟩
    rw [finishRequest]
    exact fixed_writeHeader hp hw (by decide) (by decide)
  | cons op ops ih =>
    cases op with
    | header op =>
      refine ih ?_ ?_
      · simp [perform, responseWriter, hp]
      · simp [perform, responseWriter, hp, hw]
    | write b => exact (fixed_write hp hw b).performAll ops
    | writeHeader code =>
      change match settled (.writeHeader code :: ops) with
        | none => (performAll responseWriter (writeHeader code w) ops).panicked = true
        | some code' => Fixed code' (finishRequest (performAll responseWriter (writeHeader code w) ops)) ∧
            (performAll responseWriter (writeHeader code w) ops).panicked = false
      by_cases hvalid : code < 100 ∨ 999 < code
      · simp only [settled, if_pos hvalid]
        exact kept_panicked.performAll (by simp [writeHeader, hp, hw, hvalid]) ops
      · cases hinfo : informational code with
        | true =>
          have hsame : writeHeader code w = w := by simp [writeHeader, hp, hw, hvalid, hinfo]
          simp only [settled, if_neg hvalid, hinfo, if_true, hsame]
          exact ih hp hw
        | false =>
          simp only [settled, if_neg hvalid, hinfo, Bool.false_eq_true, if_false]
          exact (fixed_writeHeader hp hw hvalid hinfo).performAll ops

end Settled

section Chain
variable {cfg : Limits} {x : Incoming}

/-- What is performed inside `Tracing`: the refusal or what the handler does. -/
def effective (cfg : Limits) (x : Incoming) (b : Behaviour) : Behaviour :=
  if sheds cfg.maxInFlight x then ⟨shedOps, .returned⟩ else b

def tracked (w : ServerResponse) : StatusWriter (StatusWriter LoggerWriter) := ⟨⟨⟨w, 200, 0⟩, 200⟩, 200⟩

theorem performAll_tracked (w : ServerResponse) (ops : List Op) :
    performAll tracingWriter (tracked w) ops =
      ⟨⟨performAll loggerWriter ⟨w, 200, 0⟩ ops, reported ops⟩, reported ops⟩ := by
  rw [tracked, tracingWriter, performAll_statusWriter, metricsWriter, performAll_statusWriter]
  rfl

/-- The response the middlewares inside `RequestID` are given. -/
def opened (x : Incoming) (uuid : String) : ServerResponse :=
  responseWriter.mapHeader (fun h => h.set xRequestID uuid) (newResponse (x.request.method = "HEAD"))

/-- The exit of a handler that performs `b` on the open response. -/
def exitOf (x : Incoming) (uuid : String) (b : Behaviour) : Exit :=
  if (performAll responseWriter (opened x uuid) b.ops).panicked then .panicked else b.exit

theorem handling_tracked (uuid : String) (b : Behaviour) (tel : Telemetry) :
    handling b (tracked (opened x uuid)) tel =
      (⟨⟨performAll loggerWriter ⟨opened x uuid, 200, 0⟩ b.ops, reported b.ops⟩, reported b.ops⟩, tel,
        exitOf x uuid b) := by
  rw [handling, performAll_tracked, exitOf, (performAll_loggerWriter _ b.ops).1]

theorem exitOf_shed (uuid : String) : exitOf x uuid ⟨shedOps, .returned⟩ = .returned := by
  have hshed : (performAll responseWriter (opened x uuid) shedOps).panicked = false :=
    (performAll_settled (w := opened x uuid) rfl rfl shedOps).2
  simp [exitOf, hshed]

theorem concurrencyLimit_tracked (cfg : Limits) (x : Incoming) (uuid : String) (b : Behaviour) (tel : Telemetry) :
    concurrencyLimit cfg.maxInFlight x (handling b) (tracked (opened x uuid)) tel =
      handling (effective cfg x b) (tracked (opened x uuid)) tel := by
  unfold concurrencyLimit effective
  split
  · rw [handling_tracked, exitOf_shed, performAll_tracked]
  · rfl

section Outcome
variable {uuid : String} {b : Behaviour}

theorem tracing_eq (hexit : exitOf x uuid (effective cfg x b) = .returned) :
    tracing x (concurrencyLimit cfg.maxInFlight x (handling b)) ⟨⟨opened x uuid, 200, 0⟩, 200⟩ .empty =
      (⟨performAll loggerWriter ⟨opened x uuid, 200, 0⟩ (effective cfg x b).ops,
          reported (effective cfg x b).ops⟩,
        ⟨[], [], [], [⟨some (x.request.method, x.request.url.path, reported (effective cfg x b).ops),
          decide (reported (effective cfg x b).ops ≥ 500)⟩]⟩, .returned) := by
  have hinner := (concurrencyLimit_tracked cfg x uuid b .empty).trans (handling_tracked uuid _ _)
  rw [hexit, tracked] at hinner
  simp only [tracing, hinner]
  rfl

theorem tracing_eq_of_panicked (hexit : exitOf x uuid (effective cfg x b) = .panicked) :
    tracing x (concurrencyLimit cfg.maxInFlight x (handling b)) ⟨⟨opened x uuid, 200, 0⟩, 200⟩ .empty =
      (⟨performAll loggerWriter ⟨opened x uuid, 200, 0⟩ (effective cfg x b).ops,
          reported (effective cfg x b).ops⟩, ⟨[], [], [], [⟨none, false⟩]⟩, .panicked) := by
  have hinner := (concurrencyLimit_tracked cfg x uuid b .empty).trans (handling_tracked uuid _ _)
  rw [hexit, tracked] at hinner
  simp only [tracing, hinner]
  rfl

theorem serveHTTP_of_panicked (hid : x.uuid = some uuid) (hbody : x.contentLength ≤ cfg.maxBodyBytes)
    (hexit : exitOf x uuid (effective cfg x b) = .panicked) :
    (serveHTTP cfg x b).2 = ⟨[.panicRecovered], [], [], [⟨none, false⟩]⟩ := by
  have hopen : responseWriter.mapHeader (fun h => h.set xRequestID uuid)
      (newResponse (decide (x.request.method = "HEAD"))) = opened x uuid := rfl
  simp only [serveHTTP, recovering, requestID, hid, hopen, logger, maxBody, if_neg (not_lt.mpr hbody), metrics,
    tracing_eq_of_panicked hexit, List.nil_append, gt_iff_lt]

theorem serveHTTP_of_returned (hid : x.uuid = some uuid) (hbody : x.contentLength ≤ cfg.maxBodyBytes)
    (hexit : exitOf x uuid (effective cfg x b) = .returned) :
    (serveHTTP cfg x b).1 =
        finishRequest (performAll responseWriter (opened x uuid) (effective cfg x b).ops) ∧
      (∃ r, requestRecords (serveHTTP cfg x b).2 = [r] ∧ r.status = reported (effective cfg x b).ops) ∧
      ∃ add, (serveHTTP cfg x b).2.requestsTotal = [add] ∧
        add.status = toString (reported (effective cfg x b).ops) := by
  have hopen : responseWriter.mapHeader (fun h => h.set xRequestID uuid)
      (newResponse (decide (x.request.method = "HEAD"))) = opened x uuid := rfl
  obtain ⟨houter, hstatus⟩ := performAll_loggerWriter ⟨opened x uuid, 200, 0⟩ (effective cfg x b).ops
  simp only [serveHTTP, recovering, requestID, hid, hopen, logger, maxBody, if_neg (not_lt.mpr hbody), metrics,
    tracing_eq hexit, List.nil_append, gt_iff_lt, houter, requestRecords]
  exact ⟨trivial, ⟨_, rfl, hstatus⟩, ⟨_, rfl, rfl⟩⟩

theorem not_accounted_of_panicked (hid : x.uuid = some uuid) (hbody : x.contentLength ≤ cfg.maxBodyBytes)
    (hexit : exitOf x uuid (effective cfg x b) = .panicked) :
    ¬ Accounted (serveHTTP cfg x b).1 (serveHTTP cfg x b).2 := by
  rw [serveHTTP_of_panicked hid hbody hexit]
  rintro ⟨-, add, hadd, -⟩
  cases hadd

/-- Both records have the reported status, so it is all that has to be compared. -/
theorem accounted_of_returned_iff (hid : x.uuid = some uuid) (hbody : x.contentLength ≤ cfg.maxBodyBytes)
    (hexit : exitOf x uuid (effective cfg x b) = .returned) :
    Accounted (serveHTTP cfg x b).1 (serveHTTP cfg x b).2 ↔
      (finishRequest (performAll responseWriter (opened x uuid) (effective cfg x b).ops)).status =
        reported (effective cfg x b).ops := by
  obtain ⟨hclient, ⟨r, hr, hlogged⟩, ⟨add, hadd, hcounted⟩⟩ := serveHTTP_of_returned hid hbody hexit
  rw [← hclient]
  constructor
  · rintro ⟨⟨r', hr', hstatus⟩, -⟩
    obtain rfl : r = r' := List.singleton_inj.mp (hr.symm.trans hr')
    exact hstatus.symm.trans hlogged
  · intro hstatus
    exact ⟨⟨r, hr, hlogged.trans hstatus.symm⟩, ⟨add, hadd, by rw [hcounted, hstatus]⟩⟩

end Outcome

theorem effective_settled_iff (b : Behaviour) :
    ((effective cfg x b).exit = .returned ∧
      settled (effective cfg x b).ops = some (reported (effective cfg x b).ops)) ↔
      sheds cfg.maxInFlight x = true ∨ (b.exit = .returned ∧ settled b.ops = some (reported b.ops)) := by
  unfold effective
  split
  · rename_i hshed
    exact iff_of_true ⟨rfl, by decide⟩ (.inl hshed)
  · rename_i hshed
    simp [hshed]

/-- A request that gets past the identifier and the body limit is accounted for exactly if it is
shed, or the handler returns and the status it wrote last is the one the server sent. -/
theorem accounted_iff {uuid : String} (hid : x.uuid = some uuid) (hbody : x.contentLength ≤ cfg.maxBodyBytes)
    (b : Behaviour) : Accounted (serveHTTP cfg x b).1 (serveHTTP cfg x b).2 ↔
      sheds cfg.maxInFlight x = true ∨ (b.exit = .returned ∧ settled b.ops = some (reported b.ops)) := by
  rw [← effective_settled_iff]
  have hrun := performAll_settled (w := opened x uuid) rfl rfl (effective cfg x b).ops
  cases hsettled : settled (effective cfg x b).ops with
  | none =>
    rw [hsettled] at hrun
    have hexit : exitOf x uuid (effective cfg x b) = .panicked := by simp [exitOf, hrun]
    refine iff_of_false (not_accounted_of_panicked hid hbody hexit) ?_
    rintro ⟨-, hnone⟩
    cases hnone
  | some code =>
    rw [hsettled] at hrun
    obtain ⟨⟨-, hstatus, -⟩, hp⟩ := hrun
    have hexit : exitOf x uuid (effective cfg x b) = (effective cfg x b).exit := by simp [exitOf, hp]
    cases hends : (effective cfg x b).exit with
    | panicked =>
      refine iff_of_false (not_accounted_of_panicked hid hbody (hexit.trans hends)) ?_
      rintro ⟨hreturned, -⟩
      cases hreturned
    | returned =>
      rw [accounted_of_returned_iff hid hbody (hexit.trans hends), hstatus, Option.some.injEq]
      exact (and_iff_right rfl).symm

end Chain

def oneMegabyte : Limits := ⟨1048576, 100⟩

def arriving : Incoming := ⟨rootRequest, 0, some "id", 5000, 4000, "/", 3⟩

theorem accounted_notFound : Accounted (serveHTTP oneMegabyte arriving ⟨[.writeHeader 404, .write [45]], .returned⟩).1
    (serveHTTP oneMegabyte arriving ⟨[.writeHeader 404, .write [45]], .returned⟩).2 := by
  have hid : arriving.uuid = some "id" := rfl
  refine (accounted_iff hid (by decide) _).mpr (.inr ⟨rfl, ?_⟩)
  decide

def panicking : Behaviour := ⟨[.write [45]], .panicked⟩

def changingItsMind : Behaviour := ⟨[.writeHeader 200, .write [45], .writeHeader 502], .returned⟩

/-- A request whose handler panics is neither logged nor counted; a second status is logged
although the client got the first. -/
theorem panic_unaccounted :
    (¬ ∀ (cfg : Limits) (x : Incoming) (uuid : String) (b : Behaviour), x.uuid = some uuid →
      x.contentLength ≤ cfg.maxBodyBytes → Accounted (serveHTTP cfg x b).1 (serveHTTP cfg x b).2) ∧
    (serveHTTP oneMegabyte arriving panicking).2.log = [.panicRecovered] ∧
    (serveHTTP oneMegabyte arriving panicking).2.requestsTotal = [] ∧
    (serveHTTP oneMegabyte arriving panicking).1.status = 200 ∧
    (requestRecords (serveHTTP oneMegabyte arriving changingItsMind).2).map RequestRecord.status = [502] ∧
    (serveHTTP oneMegabyte arriving changingItsMind).1.status = 200 := by
  refine ⟨?_, by decide⟩
  intro hall
  obtain ⟨-, add, hadd, -⟩ := hall oneMegabyte arriving "id" panicking rfl (by decide)
  have hnone : (serveHTTP oneMegabyte arriving panicking).2.requestsTotal = [] := by decide
  rw [hnone] at hadd
  cases hadd

end ApiGateway.Accounting
