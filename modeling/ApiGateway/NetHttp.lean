import ApiGateway.Compress

/-!
# The server's response writer

The `http.ResponseWriter` that `net/http` hands to the outermost handler, over HTTP/1.1. The
first status that is not informational fixes the status and the header; what is done to the
header map later has no effect. `WriteHeader` panics on a code that does not have three
digits. A `Write` before it sends a 200. A declared length is kept: a `Write` that would go
past it writes nothing. Statuses without a body and `HEAD` requests take no bytes.

`sent` is the header map as it was when the status was fixed, without a `Content-Length`
that does not parse, for which the body goes out in chunks. What the server adds to it on the
way out (the date, a length or a type that the handler left to it) is not in it. After a
panic nothing more is done by the code that panicked, so a panicked writer ignores
operations until the panic has been recovered.
-/

namespace ApiGateway.NetHttp

open Strings Http Compress
set_option autoImplicit false

structure ServerResponse where
  isHEAD : Bool
  handlerHeader : Header
  wroteHeader : Bool
  status : Int
  sent : Header
  contentLength : Option Int
  written : Nat
  body : List UInt8
  panicked : Bool
  deriving DecidableEq

def newResponse (isHEAD : Bool) : ServerResponse := ⟨isHEAD, .empty, false, 0, .empty, none, 0, [], false⟩

/-- A status line that does not end the exchange; 101 does. -/
def informational (code : Int) : Bool := 100 ≤ code ∧ code ≤ 199 ∧ code ≠ 101

def bodyAllowedForStatus (status : Int) : Bool :=
  !(decide (100 ≤ status ∧ status ≤ 199) || status == 204 || status == 304)

/-- The length that the header map declares. -/
def declaredLength (h : Header) : Option Int :=
  (atoi (h.get "Content-Length")).filter fun n => decide (0 ≤ n)

def commit (code : Int) (w : ServerResponse) : ServerResponse :=
  {w with
    wroteHeader := true
    status := code
    sent := if (declaredLength w.handlerHeader).isSome || !bodyAllowedForStatus code then w.handlerHeader
      else w.handlerHeader.del contentLength
    contentLength := declaredLength w.handlerHeader}

def writeHeader (code : Int) (w : ServerResponse) : ServerResponse :=
  if w.panicked || w.wroteHeader then w
  else if code < 100 ∨ 999 < code then {w with panicked := true}
  else if informational code then w
  else commit code w

/-- The number of bytes `Write` reports once the status is fixed. -/
def accepted (w : ServerResponse) (b : List UInt8) : Nat :=
  if bodyAllowedForStatus w.status = true ∧ ∀ n ∈ w.contentLength, (w.written + b.length : Int) ≤ n then
    b.length
  else 0

def write (b : List UInt8) (w : ServerResponse) : ServerResponse :=
  if w.panicked then w
  else
    let w := writeHeader 200 w
    if !bodyAllowedForStatus w.status then w
    else {w with
      written := w.written + b.length
      body := if w.isHEAD then w.body else w.body ++ b.take (accepted w b)}

def responseWriter : ResponseWriter ServerResponse where
  header w := w.handlerHeader
  mapHeader f w := if w.panicked then w else {w with handlerHeader := f w.handlerHeader}
  writeHeader := writeHeader
  write := write

/-- What the server does when the handler has returned. -/
def finishRequest (w : ServerResponse) : ServerResponse := writeHeader 200 w

section Response
variable {w : ServerResponse}

theorem writeHeader_of_wroteHeader (h : w.wroteHeader = true) (code : Int) : writeHeader code w = w := by
  simp [writeHeader, h]

theorem writeHeader_commit (hp : w.panicked = false) (h : w.wroteHeader = false) {code : Int}
    (hcode : 200 ≤ code ∧ code ≤ 999) : writeHeader code w = commit code w := by
  have hvalid : ¬ (code < 100 ∨ 999 < code) := by omega
  have hfinal : informational code = false := by
    simp only [informational, decide_eq_false_iff_not]
    omega
  simp [writeHeader, hp, h, hvalid, hfinal]

/-- Before the status is fixed nothing has been counted or sent. -/
def Unsent (w : ServerResponse) : Prop :=
  w.wroteHeader = false → w.written = 0 ∧ w.body = [] ∧ w.contentLength = none

theorem unsent_newResponse (isHEAD : Bool) : Unsent (newResponse isHEAD) := fun _ => ⟨rfl, rfl, rfl⟩

theorem wroteHeader_commit (code : Int) (w : ServerResponse) : (commit code w).wroteHeader = true := rfl

theorem unsent_of_wroteHeader (h : w.wroteHeader = true) : Unsent w := by
  intro hfalse
  rw [h] at hfalse
  cases hfalse

theorem unsent_writeHeader (h : Unsent w) (code : Int) : Unsent (writeHeader code w) := by
  unfold writeHeader
  split
  · exact h
  · split
    · exact h
    · split
      · exact h
      · exact unsent_of_wroteHeader (wroteHeader_commit code w)

theorem wroteHeader_writeHeader_ok (hp : w.panicked = false) : (writeHeader 200 w).wroteHeader = true := by
  cases h : w.wroteHeader with
  | true => rw [writeHeader_of_wroteHeader h, h]
  | false => rw [writeHeader_commit hp h (by decide), wroteHeader_commit]

theorem wroteHeader_write (hp : w.panicked = false) (b : List UInt8) : (write b w).wroteHeader = true := by
  have hok := wroteHeader_writeHeader_ok hp
  unfold write
  rw [hp]
  simp only [Bool.false_eq_true, if_false]
  split
  · exact hok
  · exact hok

theorem unsent_write (h : Unsent w) (b : List UInt8) : Unsent (write b w) := by
  cases hp : w.panicked with
  | true =>
    unfold write
    rwa [hp]
  | false => exact unsent_of_wroteHeader (wroteHeader_write hp b)

theorem kept_unsent : Kept responseWriter Unsent where
  mapHeader w f h := by
    change Unsent (if w.panicked then w else {w with handlerHeader := f w.handlerHeader})
    split
    · exact h
    · exact h
  writeHeader w code h := unsent_writeHeader h code
  write w b h := unsent_write h b

end Response

end ApiGateway.NetHttp
