import ApiGateway.Lru

/-!
# What the cache reads from headers

`parseVary`, `parseCacheControl`, `cacheableResponse`, `etagMatches` and the lifetime and
entry computed in `fillCache`, all of `internal/middleware/cache.go`. A `Cache-Control`
map is the list of its assignments, the last one first. The truncated hash in a generated
tag is a parameter; a lifetime in seconds is converted in 64-bit arithmetic.
-/

namespace ApiGateway.CacheControl

open Strings Http Lru
set_option autoImplicit false

structure CacheConfig where
  table : CaseTable
  ttl : Int
  sum : List UInt8 → String

def parseVaryParts (out : List String) : List String → List String × Bool
  | [] => (out, false)
  | part :: parts =>
    let p := trimSpace part
    if p = "" then parseVaryParts out parts
    else if p = "*" then ([], true)
    else parseVaryParts (out ++ [p]) parts

def parseVary (vary : String) : List String × Bool :=
  if vary = "" then ([], false) else parseVaryParts [] (splitSeq vary ',')

def parseCacheControl (table : CaseTable) (value : String) : List (String × String) :=
  if value = "" then []
  else (splitSeq value ',').foldl (fun out part =>
    let token := trimSpace part
    if token = "" then out
    else (toLower table (trimSpace (cut token '=').1), trimSpace (cut token '=').2) :: out) []

/-- What one round of the loop in `parseCacheControl` assigns. -/
def assignment (table : CaseTable) (part : String) : Option (String × String) :=
  let token := trimSpace part
  if token = "" then none
  else some (toLower table (trimSpace (cut token '=').1), trimSpace (cut token '=').2)

def hasDirective (cc : List (String × String)) (name : String) : Bool := (cc.lookup name).isSome

def cacheableResponse (status : Int) (cc : List (String × String)) (varyAny : Bool) (r : Request) : Bool :=
  if status ≠ 200 then false
  else if hasDirective cc "no-store" then false
  else if hasDirective cc "private" then false
  else if varyAny then false
  else if r.header.get "Authorization" ≠ "" then hasDirective cc "public"
  else true

/-- Multiplication of durations wraps at 64 bits. -/
def durationMul (a b : Int) : Int := Int.bmod (a * b) (2 ^ 64)

def lifetime (cfg : CacheConfig) (cc : List (String × String)) : Int :=
  match (cc.lookup "max-age").bind atoi with
  | some secs => if secs > 0 then durationMul secs 1000000000 else cfg.ttl
  | none => cfg.ttl

def computeETag (cfg : CacheConfig) (body : List UInt8) : String := "\"" ++ cfg.sum body ++ "\""

def etagMatches (ifNoneMatch etag : String) : Bool :=
  if etag = "" then false
  else (splitSeq ifNoneMatch ',').any fun part =>
    let token := trimPrefix (trimSpace part) "W/"
    token = "*" || token = trimPrefix etag "W/"

def varyParts (h : Header) : List String :=
  (h.values "Vary").flatMap fun line => (splitSeq line ',').map trimSpace

/-- The header names of all Vary lines. -/
def listedNames (h : Header) : List String := (varyParts h).filter fun p => p ≠ "" ∧ p ≠ "*"

/-- The names `fillCache` takes from a response: those of the first Vary line. -/
def varyHeaders (resp : Response) : List String := (parseVary (resp.header.get "Vary")).1

def cacheable (cfg : CacheConfig) (c : Captured) : Bool :=
  cacheableResponse c.response.status
    (parseCacheControl cfg.table (c.response.header.get "Cache-Control"))
    (parseVary (c.response.header.get "Vary")).2 c.request

/-- The response's header with the generated tag where it has none. -/
def taggedHeader (cfg : CacheConfig) (resp : Response) : Header :=
  if resp.header.get "ETag" = "" then resp.header.set eTag (computeETag cfg resp.body) else resp.header

def entryOf (cfg : CacheConfig) (c : Captured) (now : Int) : Entry where
  status := c.response.status
  header := taggedHeader cfg c.response
  body := c.response.body
  etag := if c.response.header.get "ETag" = "" then computeETag cfg c.response.body
    else c.response.header.get "ETag"
  expiresAt := now + lifetime cfg
    (parseCacheControl cfg.table (c.response.header.get "Cache-Control"))
  source := c

def writeRaw (w : Header) (status : Int) (header : Header) (body : List UInt8) : Response :=
  ⟨if status = 0 then 200 else status, ⟨w.lines ++ header.lines⟩, body⟩

def serveFromCache (w : Header) (r : Request) (e : Entry) : Response :=
  if r.header.get "If-None-Match" ≠ "" ∧ etagMatches (r.header.get "If-None-Match") e.etag = true then
    let kept := e.header.lines.filter fun line => line.1 ≠ contentLength ∧ line.1 ≠ contentType
    ⟨304, Header.set ⟨w.lines ++ kept⟩ eTag e.etag, []⟩
  else writeRaw w e.status e.header e.body

example : parseVary "Accept, , Cookie" = (["Accept", "Cookie"], false) ∧
    parseVary "Accept, *" = ([], true) := by decide

example : (parseCacheControl asciiTable "Max-Age = 5, PUBLIC").lookup "max-age" = some "5" := by decide

theorem parseCacheControl_eq (table : CaseTable) (value : String) :
    parseCacheControl table value = ((splitSeq value ',').filterMap (assignment table)).reverse := by
  have hloop (parts : List String) (out : List (String × String)) :
      parts.foldl (fun out part =>
        let token := trimSpace part
        if token = "" then out
        else (toLower table (trimSpace (cut token '=').1), trimSpace (cut token '=').2) :: out) out =
        (parts.filterMap (assignment table)).reverse ++ out := by
    induction parts generalizing out with
    | nil => rfl
    | cons part parts ih =>
      rw [List.foldl_cons, ih, List.filterMap_cons]
      dsimp only [assignment]
      split
      · rfl
      · rw [List.reverse_cons, List.append_assoc, List.singleton_append]
  unfold parseCacheControl
  split
  · rename_i hempty
    subst hempty
    rfl
  · rw [hloop, List.append_nil]

theorem hasDirective_iff_mem (cc : List (String × String)) (name : String) :
    hasDirective cc name = true ↔ name ∈ cc.map Prod.fst := by
  rw [hasDirective, List.lookup_isSome_iff, List.mem_map]
  exact exists_congr fun d => and_congr_right fun _ => beq_iff_eq.trans eq_comm

theorem cacheableResponse_iff {status : Int} {cc : List (String × String)} {varyAny : Bool} {r : Request} :
    cacheableResponse status cc varyAny r = true ↔
      status = 200 ∧ hasDirective cc "no-store" = false ∧ hasDirective cc "private" = false ∧ varyAny = false ∧
        (r.header.get "Authorization" ≠ "" → hasDirective cc "public" = true) := by
  unfold cacheableResponse
  by_cases hstatus : status = 200
  · by_cases hauth : r.header.get "Authorization" = ""
    · simp [hstatus, hauth]
    · simp [hstatus, hauth]
  · simp [hstatus]

end ApiGateway.CacheControl
