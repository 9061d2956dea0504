import ApiGateway.Http
import ApiGateway.Tables
import Mathlib.Logic.Function.Basic

/-!
# The LRU of cached responses

`internal/cache/lru.go`. A list element is a pointer; here it carries a number that no
other element has, given by the allocation counter `next`. The index holds the element a
key points at. The two loops of `evict` run on the length of the list as fuel, of which
each turn takes one. Times are nanoseconds.

An entry carries, beside the fields of the source, the captured response it was made from
and the request whose upstream call produced it. No function reads that field; it is there
to say where an entry came from.
-/

namespace ApiGateway.Lru

open Http Tables
set_option autoImplicit false

/-- An upstream response, with the number of the request that fetched it and that request. -/
structure Captured where
  origin : Nat
  request : Request
  response : Response
  deriving DecidableEq

structure Entry where
  status : Int
  header : Header
  body : List UInt8
  etag : String
  expiresAt : Int
  source : Captured
  deriving DecidableEq

def Entry.size (e : Entry) : Int := e.body.length

structure Element where
  id : Nat
  key : String
  entry : Entry
  deriving DecidableEq

structure LRU where
  maxEntries : Int
  maxBytes : Int
  bytes : Int
  order : List Element
  index : String → Option Element
  next : Nat

def newLRU (maxEntries maxBytes : Int) : LRU := ⟨maxEntries, maxBytes, 0, [], fun _ => none, 0⟩

def removeElement (c : LRU) (el : Element) : LRU :=
  {c with
    order := c.order.filter fun x => x.id ≠ el.id
    index := Function.update c.index el.key none
    bytes := c.bytes - el.entry.size}

def moveToFront (order : List Element) (el : Element) : List Element :=
  if el ∈ order then el :: order.filter fun x => x.id ≠ el.id else order

def get (c : LRU) (key : String) (now : Int) : LRU × Option Entry :=
  match c.index key with
  | none => (c, none)
  | some el =>
    if now > el.entry.expiresAt then (removeElement c el, none)
    else ({c with order := moveToFront c.order el}, some el.entry)

def evictEntries : Nat → LRU → LRU
  | 0, c => c
  | fuel + 1, c =>
    match c.order.getLast? with
    | some back =>
      if c.maxEntries > 0 ∧ (c.order.length : Int) > c.maxEntries then
        evictEntries fuel (removeElement c back)
      else c
    | none => c

def evictBytes : Nat → LRU → LRU
  | 0, c => c
  | fuel + 1, c =>
    if c.maxBytes > 0 ∧ c.bytes > c.maxBytes then
      match c.order.getLast? with
      | some back => evictBytes fuel (removeElement c back)
      | none => c
    else c

def evict (c : LRU) : LRU :=
  let c := evictEntries c.order.length c
  evictBytes c.order.length c

def pushFront (c : LRU) (key : String) (entry : Entry) : LRU :=
  let el : Element := ⟨c.next, key, entry⟩
  {c with
    order := el :: c.order
    index := Function.update c.index key (some el)
    bytes := c.bytes + entry.size
    next := c.next + 1}

def set (c : LRU) (key : String) (entry : Entry) : LRU :=
  let c := match c.index key with
    | some el => removeElement c el
    | none => c
  evict (pushFront c key entry)

/-- Every element the index points at satisfies `P` under the key it is found by. -/
def Holds (P : String → Entry → Prop) (c : LRU) : Prop :=
  ∀ key el, c.index key = some el → P key el.entry

section Holds
variable {P : String → Entry → Prop} {c : LRU}

theorem holds_newLRU (maxEntries maxBytes : Int) : Holds P (newLRU maxEntries maxBytes) := by
  intro key el h
  cases h

theorem Holds.mono {Q : String → Entry → Prop} (h : Holds P c) (hPQ : ∀ key e, P key e → Q key e) :
    Holds Q c :=
  fun key el hel => hPQ key el.entry (h key el hel)

theorem holds_removeElement (h : Holds P c) (el : Element) : Holds P (removeElement c el) := by
  intro key x hx
  exact h key x (erase_cases hx).2

theorem holds_evictEntries (fuel : Nat) (h : Holds P c) : Holds P (evictEntries fuel c) := by
  induction fuel generalizing c with
  | zero => exact h
  | succ fuel ih =>
    unfold evictEntries
    split
    · split
      · exact ih (holds_removeElement h _)
      · exact h
    · exact h

theorem holds_evictBytes (fuel : Nat) (h : Holds P c) : Holds P (evictBytes fuel c) := by
  induction fuel generalizing c with
  | zero => exact h
  | succ fuel ih =>
    unfold evictBytes
    split
    · split
      · exact ih (holds_removeElement h _)
      · exact h
    · exact h

theorem holds_pushFront {key : String} {entry : Entry} (h : Holds P c) (hentry : P key entry) :
    Holds P (pushFront c key entry) := by
  exact forall_update h hentry

theorem holds_set {key : String} {entry : Entry} (h : Holds P c) (hentry : P key entry) :
    Holds P (set c key entry) := by
  unfold set evict
  apply holds_evictBytes
  apply holds_evictEntries
  refine holds_pushFront ?_ hentry
  split
  · exact holds_removeElement h _
  · exact h

theorem holds_get (h : Holds P c) (key : String) (now : Int) : Holds P (get c key now).1 := by
  unfold get
  split
  · exact h
  · split
    · exact holds_removeElement h _
    · exact h

/-- What `Get` answers was set under the key and has not expired. -/
theorem get_some {key : String} {now : Int} {e : Entry} (h : Holds P c)
    (hget : (get c key now).2 = some e) : P key e ∧ now ≤ e.expiresAt := by
  unfold get at hget
  split at hget
  · cases hget
  · rename_i el hel
    split at hget
    · cases hget
    · rename_i hfresh
      cases hget
      exact ⟨h key el hel, not_lt.mp hfresh⟩

end Holds

end ApiGateway.Lru
