import ApiGateway.UpstreamTarget
import ApiGateway.WellFormedConfig

/-!
# The path that an upstream is asked for

The server reads the path of a request's target twice: decoded, and as it was written if that is
not what the decoded path would be written as. `StripPrefix` takes the prefix from both, and the client
of the reverse proxy writes the path that is left as it was written, if it finds nothing wrong with that,
or else encodes the decoded one again.

A target here is the path of one, whose escapes stand for text. The requests are those whose path is the
service's prefix or goes on with a slash after it, in the form in which it was written where the server has
kept that; whether the router gives a service any others is not asked here.
-/

namespace ApiGateway.ForwardedPath

open Strings Http Config ServiceChain ProxyRewrite
set_option autoImplicit false

/-- The text is empty or begins with a slash. -/
def Rooted (s : String) : Prop := ∀ c ∈ s.toList.head?, c = '/'

/-- The path is the prefix, or the prefix is followed by a slash in it. -/
def Covers (start path : String) : Prop := ∃ rest, path = start ++ rest ∧ Rooted rest

section Bytes

theorem utf8_cons (c : Char) (cs : List Char) :
    utf8 (String.ofList (c :: cs)) = String.utf8EncodeChar c ++ utf8 (String.ofList cs) := by
  simp [utf8]

/-- No letter's bytes begin another's. -/
theorem utf8EncodeChar_cancel {c d : Char} {a b : List UInt8}
    (h : String.utf8EncodeChar c ++ a = String.utf8EncodeChar d ++ b) : c = d ∧ a = b := by
  have hbytes := congrArg List.toByteArray h
  rw [List.toByteArray_append, List.toByteArray_append] at hbytes
  have hdecode := congrArg (fun bytes => ByteArray.utf8DecodeChar? bytes 0) hbytes
  simp only [ByteArray.utf8DecodeChar?_utf8EncodeChar_append, Option.some.injEq] at hdecode
  subst hdecode
  exact ⟨rfl, List.append_cancel_left h⟩

/-- A text whose bytes begin with those of another begins with that. -/
theorem exists_of_utf8_append {start path : String} {bytes : List UInt8} (h : utf8 path = utf8 start ++ bytes) :
    ∃ rest, path = start ++ rest ∧ utf8 rest = bytes := by
  suffices hlist : ∀ cs ds : List Char, utf8 (String.ofList ds) = utf8 (String.ofList cs) ++ bytes →
      ∃ rest, ds = cs ++ rest ∧ utf8 (String.ofList rest) = bytes by
    obtain ⟨rest, hrest, hbytes⟩ := hlist start.toList path.toList (by simpa using h)
    refine ⟨String.ofList rest, ?_, hbytes⟩
    rw [← String.toList_inj, hrest, String.toList_append, String.toList_ofList]
  intro cs
  induction cs with
  | nil =>
    intro ds hds
    exact ⟨ds, rfl, by simpa [utf8] using hds⟩
  | cons c cs ih =>
    intro ds hds
    rw [utf8_cons, List.append_assoc] at hds
    cases ds with
    | nil =>
      have hnil : String.utf8EncodeChar c = [] := (List.append_eq_nil_iff.mp hds.symm).1
      exact absurd hnil String.utf8EncodeChar_ne_nil
    | cons d ds =>
      rw [utf8_cons] at hds
      obtain ⟨rfl, hrest⟩ := utf8EncodeChar_cancel hds
      obtain ⟨rest, rfl, hbytes⟩ := ih ds hrest
      exact ⟨rest, rfl, hbytes⟩

end Bytes

section Escapes

theorem unescape_cons {c : Char} (hc : c ≠ '%') (cs : List Char) :
    unescape (c :: cs) = (unescape cs).map (String.utf8EncodeChar c ++ ·) := by
  rw [unescape]
  · intro _ _ _ h
    exact absurd h hc
  · exact hc

/-- Text without a percent sign is decoded as itself. -/
theorem unescape_plain {a : List Char} (ha : ∀ c ∈ a, c ≠ '%') (b : List Char) :
    unescape (a ++ b) = (unescape b).map (utf8 (String.ofList a) ++ ·) := by
  induction a with
  | nil => simp [utf8]
  | cons c a ih =>
    rw [List.cons_append, unescape_cons (ha c List.mem_cons_self), ih fun d hd => ha d (List.mem_cons_of_mem c hd),
      Option.map_map, utf8_cons]
    congr 1
    funext bytes
    simp

end Escapes

section Written
variable {u : URL}

theorem utf8_eq_nil {s : String} : utf8 s = [] ↔ s = "" := by
  constructor
  · intro h
    rw [utf8, List.flatMap_eq_nil_iff] at h
    by_contra hne
    obtain ⟨c, hc⟩ := List.exists_mem_of_ne_nil s.toList (mt String.toList_eq_nil_iff.mp hne)
    exact String.utf8EncodeChar_ne_nil (h c hc)
  · rintro rfl
    rfl

theorem rooted_iff {s : String} : Rooted s ↔ s = "" ∨ ∃ rest, s = "/" ++ rest := by
  constructor
  · intro h
    cases hs : s.toList with
    | nil => exact .inl (String.toList_eq_nil_iff.mp hs)
    | cons c cs =>
      obtain rfl : c = '/' := h c (by simp [hs])
      refine .inr ⟨String.ofList cs, ?_⟩
      rw [← String.toList_inj, hs]
      simp
  · rintro (rfl | ⟨rest, rfl⟩)
    · intro c hc
      cases hc
    · intro c hc
      simpa [eq_comm] using hc

/-- What is decoded begins with a slash where the text does. -/
theorem Rooted.decoded {raw path : String} (h : Rooted raw) (hpath : unescape raw.toList = some (utf8 path)) :
    Rooted path := by
  rw [rooted_iff] at h ⊢
  rcases h with rfl | ⟨rest, rfl⟩
  · exact .inl (utf8_eq_nil.mp (Option.some.inj hpath).symm)
  · rw [String.toList_append, unescape_plain (by simp)] at hpath
    obtain ⟨bytes, -, hbytes⟩ := Option.map_eq_some_iff.mp hpath
    obtain ⟨tail, htail, -⟩ := exists_of_utf8_append hbytes.symm
    exact .inr ⟨tail, htail⟩

end Written

section Stripped
variable {start target : String} {r : Request}

end Stripped

/-- A service with a prefix, and a request for a path of it with an escaped slash. -/
def users : GatewayConfig :=
  {ServiceLimiter.halfPerSecondFilled (2 * second) with
    services := [⟨"users", "/users", ["http://users:8080"], false, [], none, none⟩]}

end ApiGateway.ForwardedPath
