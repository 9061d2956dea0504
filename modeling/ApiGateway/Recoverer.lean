import ApiGateway.NetHttp

/-!
# Recovered panics

`internal/middleware/recoverer.go`, the outermost middleware, and a handler inside it that
panics, mounted there directly or through `Compress`. Whatever the handler did, the deferred
function sets a type, a 500 and a JSON body on the server's writer. What the client gets of
that depends only on the state of the response when the panic strikes: how much of it has
been sent and what the header map holds.
-/

namespace ApiGateway.Recoverer

open Http Compress NetHttp
set_option autoImplicit false

/-- What `json.NewEncoder(w).Encode` writes for an error text with nothing to escape in it. -/
def errorBody (msg : String) : List UInt8 := utf8 ("\x7b\"error\":\"" ++ msg ++ "\"\x7d\n")

def internalServerError : List UInt8 := errorBody "internal server error"

theorem internalServerError_length : internalServerError.length = 34 := by decide

/-- The deferred function, for a handler that panicked. -/
def recoverer (w : ServerResponse) : ServerResponse :=
  performAll responseWriter {w with panicked := false}
    [.header (.set contentType "application/json"), .writeHeader 500, .write internalServerError]

inductive Mount where
  | direct
  | compress (minSize : Int)

/-- The response when a handler so mounted has performed `ops` and panics: the compressing
writer is not finished then. -/
def Mount.interrupted (codec : Codec) (r : Request) (ops : List Op) (w : ServerResponse) :
    Mount → ServerResponse
  | .direct => performAll responseWriter w ops
  | .compress minSize =>
    let w := responseWriter.mapHeader (fun h => h.add varyName "Accept-Encoding") w
    if clientAcceptsGzip (r.header.get "Accept-Encoding") then
      (performAll (CompressWriter.responseWriter codec responseWriter)
        ⟨w, codec.gzip.reset, minSize, false, false, [], 0⟩ ops).outer
    else performAll responseWriter w ops

def interrupted (codec : Codec) (mount : Mount) (r : Request) (ops : List Op) : ServerResponse :=
  mount.interrupted codec r ops (newResponse (r.method = "HEAD"))

/-- What the client gets of a response that a panic interrupted. -/
def received (w : ServerResponse) : ServerResponse := finishRequest (recoverer w)

/-- The client gets either just what was sent before the panic or a fresh 500. -/
structure Clean (w out : ServerResponse) : Prop where
  sent : w.wroteHeader = true → out.body = w.body
  fresh : w.wroteHeader = false → out.status = 500 ∧ out.body = internalServerError ∧
    out.sent.values "Content-Length" = [] ∧ out.sent.values "Content-Encoding" = []

instance (w out : ServerResponse) : Decidable (Clean w out) :=
  decidable_of_iff ((w.wroteHeader = true → out.body = w.body) ∧
    (w.wroteHeader = false → out.status = 500 ∧ out.body = internalServerError ∧
      out.sent.values "Content-Length" = [] ∧ out.sent.values "Content-Encoding" = []))
    ⟨fun h => ⟨h.1, h.2⟩, fun h => ⟨h.sent, h.fresh⟩⟩

/-- The response takes no more bytes: it has no body, or the declared length leaves no room for
the error text. -/
def Full (w : ServerResponse) : Prop :=
  w.isHEAD = true ∨ bodyAllowedForStatus w.status = false ∨
    ∃ n, w.contentLength = some n ∧ n < w.written + internalServerError.length

/-- Nothing in the response is in the way of the 500. -/
structure Clear (w : ServerResponse) : Prop where
  body : w.isHEAD = false
  length : declaredLength w.handlerHeader = none
  encoding : w.handlerHeader.values "Content-Encoding" = []

theorem unsent_interrupted (codec : Codec) (mount : Mount) (r : Request) (ops : List Op) :
    Unsent (interrupted codec mount r ops) := by
  have hnew := unsent_newResponse (r.method = "HEAD")
  unfold interrupted
  cases mount with
  | direct => exact kept_unsent.performAll hnew ops
  | compress minSize =>
    have hvary := kept_unsent.mapHeader _ (fun h => h.add varyName "Accept-Encoding") hnew
    unfold Mount.interrupted
    dsimp only
    split
    · exact (kept_unsent.compressWriter codec).performAll hvary ops
    · exact kept_unsent.performAll hvary ops

section Sent
variable {w : ServerResponse}

theorem received_of_wroteHeader (h : w.wroteHeader = true) : (received w).body =
    if bodyAllowedForStatus w.status = true ∧ w.isHEAD = false then
      w.body ++ internalServerError.take (accepted w internalServerError)
    else w.body := by
  have hrecovered : recoverer w = write internalServerError {w with
      panicked := false, handlerHeader := w.handlerHeader.set contentType "application/json"} := by
    simp [recoverer, performAll, perform, responseWriter, HeaderOp.apply, writeHeader, h]
  have hsent : (recoverer w).wroteHeader = true := by
    rw [hrecovered]
    exact wroteHeader_write rfl _
  rw [received, finishRequest, writeHeader_of_wroteHeader hsent, hrecovered]
  cases hbody : bodyAllowedForStatus w.status with
  | false => simp [write, writeHeader, h, hbody]
  | true =>
    cases w.isHEAD with
    | true => simp [write, writeHeader, h, hbody]
    | false => simp [write, writeHeader, h, hbody, accepted]

theorem accepted_eq_zero_iff : accepted w internalServerError = 0 ↔ bodyAllowedForStatus w.status = false ∨
    ∃ n, w.contentLength = some n ∧ n < w.written + internalServerError.length := by
  unfold accepted
  cases hbody : bodyAllowedForStatus w.status with
  | false => simp
  | true =>
    cases hlength : w.contentLength with
    | none => simp [internalServerError_length]
    | some n =>
      rw [internalServerError_length]
      by_cases hroom : (w.written + 34 : Int) ≤ n
      · simp [hroom]
      · simp [hroom, not_le.mp hroom]

theorem sent_iff_full (h : w.wroteHeader = true) : (received w).body = w.body ↔ Full w := by
  rw [received_of_wroteHeader h]
  cases hhead : w.isHEAD with
  | true => simp [Full, hhead]
  | false =>
    cases hbody : bodyAllowedForStatus w.status with
    | false => simp [Full, hbody]
    | true =>
      have hzero : w.body ++ internalServerError.take (accepted w internalServerError) = w.body ↔
          accepted w internalServerError = 0 := by
        rw [List.append_right_eq_self, List.take_eq_nil_iff, ← List.length_eq_zero_iff,
          internalServerError_length]
        simp
      rw [if_pos ⟨rfl, rfl⟩, hzero, accepted_eq_zero_iff, Full, hhead, hbody]
      simp

end Sent

section Fresh
variable {w : ServerResponse}

def typed (w : ServerResponse) : Header := w.handlerHeader.set contentType "application/json"

theorem values_typed (w : ServerResponse) {name : String} (hn : contentType.text ≠ canonicalHeaderKey name) :
    (typed w).values name = w.handlerHeader.values name := Header.values_set_of_ne _ hn _

theorem declaredLength_typed (w : ServerResponse) :
    declaredLength (typed w) = declaredLength w.handlerHeader := by
  rw [declaredLength, Header.get, values_typed w (by decide)]
  rfl

theorem received_of_unsent (hu : Unsent w) (h : w.wroteHeader = false) :
    (received w).status = 500 ∧
    (received w).sent = (if (declaredLength w.handlerHeader).isSome then typed w
      else (typed w).del contentLength) ∧
    (declaredLength w.handlerHeader = none →
      (received w).body = if w.isHEAD then [] else internalServerError) := by
  obtain ⟨hwritten, hbody, -⟩ := hu h
  have hrecovered : recoverer w = write internalServerError (commit 500 {w with
      panicked := false, handlerHeader := typed w}) := by
    simp [recoverer, performAll, perform, responseWriter, HeaderOp.apply, typed, writeHeader, h,
      informational]
  have hallowed : bodyAllowedForStatus 500 = true := by decide
  have hsent : (recoverer w).wroteHeader = true := by
    rw [hrecovered]
    exact wroteHeader_write rfl _
  rw [received, finishRequest, writeHeader_of_wroteHeader hsent, hrecovered]
  refine ⟨?_, ?_, ?_⟩
  · simp [write, writeHeader, commit, hallowed]
  · simp [write, writeHeader, commit, hallowed, declaredLength_typed]
  · intro hnone
    simp [write, writeHeader, commit, hallowed, declaredLength_typed, accepted, hnone, hbody]

theorem received_encoding (hu : Unsent w) (h : w.wroteHeader = false) :
    (received w).sent.values "Content-Encoding" = w.handlerHeader.values "Content-Encoding" := by
  rw [(received_of_unsent hu h).2.1]
  split
  · exact values_typed w (by decide)
  · rw [Header.values_del_of_ne _ (by decide), values_typed w (by decide)]

/-- The length that is sent is one that parses. -/
theorem received_length_iff (hu : Unsent w) (h : w.wroteHeader = false) :
    (received w).sent.values "Content-Length" = [] ↔ declaredLength w.handlerHeader = none := by
  rw [(received_of_unsent hu h).2.1]
  split
  · rename_i hsome
    rw [values_typed w (by decide)]
    constructor
    · intro hnil
      rw [declaredLength, Header.get, hnil]
      decide
    · intro hnone
      rw [hnone] at hsome
      cases hsome
  · rename_i hnone
    have hdel := Header.values_del_self (typed w)
      (show contentLength.text = canonicalHeaderKey "Content-Length" by decide)
    exact iff_of_true hdel (Option.not_isSome_iff_eq_none.mp hnone)

theorem fresh_iff_clear (hu : Unsent w) (h : w.wroteHeader = false) :
    ((received w).status = 500 ∧ (received w).body = internalServerError ∧
      (received w).sent.values "Content-Length" = [] ∧
      (received w).sent.values "Content-Encoding" = []) ↔ Clear w := by
  obtain ⟨hstatus, -, hbody⟩ := received_of_unsent hu h
  rw [received_encoding hu h, received_length_iff hu h]
  constructor
  · rintro ⟨-, hjson, hnone, hce⟩
    refine ⟨?_, hnone, hce⟩
    rw [hbody hnone] at hjson
    cases hhead : w.isHEAD with
    | false => rfl
    | true =>
      rw [hhead] at hjson
      exact absurd hjson (by decide)
  · rintro ⟨hhead, hnone, hce⟩
    refine ⟨hstatus, ?_, hnone, hce⟩
    rw [hbody hnone, hhead]
    rfl

end Fresh

/-- A recovered panic leaves the client a clean response exactly if, when it strikes, either the
status has been sent and the response takes no more bytes, or it has not been sent and the
handler left neither a length nor an encoding in the header map. -/
theorem recovered_clean_iff (codec : Codec) (mount : Mount) (r : Request) (ops : List Op) :
    Clean (interrupted codec mount r ops) (received (interrupted codec mount r ops)) ↔
      ((interrupted codec mount r ops).wroteHeader = true → Full (interrupted codec mount r ops)) ∧
      ((interrupted codec mount r ops).wroteHeader = false → Clear (interrupted codec mount r ops)) := by
  have hu := unsent_interrupted codec mount r ops
  constructor
  · intro h
    exact ⟨fun hsent => (sent_iff_full hsent).mp (h.sent hsent),
      fun hfresh => (fresh_iff_clear hu hfresh).mp (h.fresh hfresh)⟩
  · rintro ⟨hfull, hclear⟩
    exact ⟨fun hsent => (sent_iff_full hsent).mpr (hfull hsent),
      fun hfresh => (fresh_iff_clear hu hfresh).mpr (hclear hfresh)⟩

def rootRequest : Request := ⟨"GET", ⟨"/", "", []⟩, .empty, "gateway:8080", "10.0.0.1:4711", false⟩

/-- The proxy copies a body of unknown length that breaks off after two bytes. -/
def brokenOff : List Op := [.header (.set contentType "text/plain"), .writeHeader 200, .write [104, 105]]

/-- A handler announces two compressed bytes and panics before it sends them. -/
def abandoned : List Op := [.header (.set contentEncoding "gzip"), .header (.set contentLength "2")]

def atBreak : ServerResponse := performAll responseWriter (newResponse false) brokenOff

def atAbandon : ServerResponse := performAll responseWriter (newResponse false) abandoned

/-- The error text is appended to the two bytes; the 500 is announced as two compressed bytes and
has none. -/
theorem panic_corrupts_response :
    (¬ ∀ (codec : Codec) (mount : Mount) (r : Request) (ops : List Op),
      Clean (interrupted codec mount r ops) (received (interrupted codec mount r ops))) ∧
    (received atBreak).status = 200 ∧ (received atBreak).body = [104, 105] ++ internalServerError ∧
    (received atAbandon).status = 500 ∧ (received atAbandon).body = [] ∧
    (received atAbandon).sent.values "Content-Length" = ["2"] ∧
    (received atAbandon).sent.values "Content-Encoding" = ["gzip"] := by
  refine ⟨?_, by decide⟩
  intro hall
  have hclean : Clean atBreak (received atBreak) :=
    hall ⟨⟨Unit, (), fun s b => (s, b), fun _ => []⟩, fun _ => ""⟩ .direct rootRequest brokenOff
  exact absurd hclean (by decide)

end ApiGateway.Recoverer
