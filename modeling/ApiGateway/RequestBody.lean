import ApiGateway.Fallible
import ApiGateway.ProxyHandler
import ApiGateway.Readers

/-!
# The limit on request bodies

`MaxBody` of `internal/middleware/maxbody.go` refuses a request by its `Content-Length` and gives
every other one a body that is read through `http.MaxBytesReader`. The reverse proxy reads that body
while it sends it; when a read fails the round trip does, and `ErrorHandler` of the proxy asks whether
the error is that of the limit.

A body is what the client sends: its bytes, and whether they end as announced. The server lets no
more bytes through than `Content-Length` announces; without one, with chunks, it is negative.
-/

namespace ApiGateway.RequestBody

open Runs Readers Http ProxyHandler
set_option autoImplicit false

inductive Fault where
  | eof
  | broken
  deriving DecidableEq

structure Body where
  contentLength : Int
  bytes : List UInt8
  fault : Fault
  announced : 0 ≤ contentLength → bytes.length ≤ contentLength

def tooLarge : JsonReply := jsonReply 413 [("error", "request body too large")]

/-- `http.MaxBytesReader`; a negative limit is none at all to read. -/
def maxBytesReader (limit : Int) (b : Body) : Limited UInt8 Fault := limited limit.toNat ⟨b.bytes, b.fault⟩

def maxBody (limit : Int) (b : Body) : Except JsonReply (Limited UInt8 Fault) :=
  if b.contentLength > limit then .error tooLarge else .ok (maxBytesReader limit b)

/-- The round trip fails because a read of the body did. -/
def bodyError (failure : Failure Fault) : RoundTripError := ⟨failure = .tooLong, false, false, false⟩

/-- What a reader of the body finds, and what the client is told if it fails. -/
structure Kept (limit : Int) (b : Body) (s : Limited UInt8 Fault) : Prop where
  front : s.passed <+: b.bytes ∧ s.passed.length ≤ limit.toNat
  whole : ∀ fault, s.failure = some (.ended fault) → fault = b.fault ∧ s.passed = b.bytes
  exceeded : s.failure = some .tooLong →
    b.contentLength < 0 ∧ s.passed = b.bytes.take limit.toNat ∧ limit.toNat < b.bytes.length
  told : ∀ failure, s.failure = some failure → ∀ h target now,
    (errorHandler h target (bodyError failure) now = .ok (h, tooLarge) ↔ failure = .tooLong)

/-- `ErrorHandler` answers 413, and leaves the breakers alone, exactly if the limit was hit. -/
theorem errorHandler_bodyError (failure : Failure Fault) (h : Handler) (target : String) (now : Int) :
    errorHandler h target (bodyError failure) now = .ok (h, tooLarge) ↔ failure = .tooLong := by
  cases failure with
  | tooLong => exact iff_of_true rfl rfl
  | ended fault =>
    refine iff_of_false ?_ nofun
    intro heq
    cases hb : h.breakers target with
    | none => simp [errorHandler, bodyError, mustGetBreaker, hb] at heq
    | some b =>
      have hanswer : errorHandler h target (bodyError (.ended fault)) now =
          .ok (setBreaker h target (CircuitBreaker.recordFailure b now),
            jsonError 502 [("error", "upstream unavailable")]) := by
        simp [errorHandler, bodyError, mustGetBreaker, hb, classifyProxyError]
      rw [hanswer] at heq
      exact absurd (Prod.mk.inj (Except.ok.inj heq)).2 (by decide)

/-- However a body that `MaxBody` lets through is read, what is read is a front part of it within the
limit. The limit is hit only on a longer body without a `Content-Length`, and the client is then told
so. Reads that bring something each hit the limit on every longer body and the body's end on every
other. -/
theorem maxBody_exact {limit : Int} {b : Body} {reader s : Limited UInt8 Fault} (h : maxBody limit b = .ok reader)
    {fs : List Fill} (hs : exec read reader fs = some s) :
    Kept limit b s ∧
    ((∀ f ∈ fs, f.busy) → min limit.toNat b.bytes.length < fs.length →
      (s.failure = some .tooLong ↔ limit.toNat < b.bytes.length) ∧
      (s.failure = some (.ended b.fault) ↔ b.bytes.length ≤ limit.toNat)) := by
  rw [maxBody, Fallible.ite_error_eq_ok, not_lt] at h
  obtain ⟨hlength, hreader⟩ := h
  obtain rfl := Except.ok.inj hreader
  have hreading : Reading limit.toNat ⟨b.bytes, b.fault⟩ s := reading_exec hs
  constructor
  · refine ⟨hreading.passed_front, ?_, ?_, fun failure _ => errorHandler_bodyError failure⟩
    · intro fault hfault
      obtain ⟨heq, hall, -⟩ := hreading.ended fault hfault
      exact ⟨heq, hall⟩
    · intro hover
      obtain ⟨hpassed, hlong⟩ := hreading.tooLong hover
      refine ⟨?_, hpassed, hlong⟩
      -- an announced length is within the limit, and so is the body
      by_contra hannounced
      have hwithin := b.announced (not_lt.mp hannounced)
      simp only at hlong
      omega
  · intro hbusy hmany
    have hstart : (maxBytesReader limit b).passed.length + fs.length = fs.length := Nat.zero_add _
    have hfailed := failed_of_busy hs (reading_limited _ _) hbusy (hstart.symm ▸ hmany)
    obtain ⟨failure, hfailure⟩ := Option.isSome_iff_exists.mp hfailed
    cases failure with
    | ended fault =>
      obtain ⟨rfl, -, hle⟩ := hreading.ended fault hfailure
      simp only at hle
      rw [hfailure]
      exact ⟨iff_of_false nofun (not_lt.mpr hle), iff_of_true rfl hle⟩
    | tooLong =>
      obtain ⟨-, hlong⟩ := hreading.tooLong hfailure
      rw [hfailure]
      exact ⟨iff_of_true rfl hlong, iff_of_false nofun (not_le.mpr hlong)⟩

/-- Five bytes in chunks, without a length, against a limit of four. -/
def chunked : Body := ⟨-1, [104, 101, 108, 108, 111], .eof, by decide⟩

def smallReads : List Fill := [⟨3, 2, false⟩, ⟨8, 1, false⟩, ⟨8, 2, true⟩, ⟨8, 0, true⟩, ⟨8, 0, true⟩]

theorem maxBody_exact_chunked :
    ∃ s, exec read (maxBytesReader 4 chunked) smallReads = some s ∧ s.passed = [104, 101, 108, 108] ∧
      s.failure = some .tooLong ∧ Kept 4 chunked s := by
  have hreader : maxBody 4 chunked = .ok (maxBytesReader 4 chunked) := rfl
  obtain ⟨s, hs⟩ : ∃ s, exec read (maxBytesReader 4 chunked) smallReads = some s := ⟨_, rfl⟩
  obtain ⟨hkept, hbusy⟩ := maxBody_exact hreader hs
  have hfailure : s.failure = some .tooLong := (hbusy (by decide) (by decide)).1.mpr (by decide)
  exact ⟨s, hs, (hkept.exceeded hfailure).2.1, hfailure, hkept⟩

end ApiGateway.RequestBody
