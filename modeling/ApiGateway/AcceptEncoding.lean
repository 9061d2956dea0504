import ApiGateway.CompressDecision
import ApiGateway.Delimiters

/-!
# Which clients accept gzip

`Accept-Encoding` is a list of codings, each with an optional weight: `gzip;q=0` says that the
client does not take gzip. The grammar is the one of HTTP: elements are separated by commas, a
weight is `q=` and a number from 0 to 1 with at most three decimals, blanks and tabs may stand
around an element and around the semicolon. `clientAcceptsGzip` looks at the name only, so a client
that lists gzip with the weight 0 is sent gzip.
-/

namespace ApiGateway.AcceptEncoding

open Strings Http Compress CompressBody CompressDecision Delimiters
set_option autoImplicit false

/-- A weight in thousandths. -/
def qvalue : List Char → Option Nat
  | ['0'] => some 0
  | '0' :: '.' :: decimals =>
    if decimals.length ≤ 3 then digits ('0' :: (decimals ++ List.replicate (3 - decimals.length) '0')) else none
  | ['1'] => some 1000
  | '1' :: '.' :: decimals => if decimals.length ≤ 3 ∧ decimals.all (· = '0') then some 1000 else none
  | _ => none

/-- What stands after the semicolon. -/
def weight : List Char → Option Nat
  | 'q' :: '=' :: text => qvalue text
  | 'Q' :: '=' :: text => qvalue text
  | _ => none

/-- The weight of an element; without a semicolon it is 1. -/
def weightOf (element : List Char) : Option Nat :=
  match element.dropWhile (· ≠ ';') with
  | [] => some 1000
  | _ :: rest => weight (trimmed isOWS rest)

/-- The coding of an element is what stands before the semicolon. -/
def codingOf (element : List Char) : List Char := trimmed isOWS (element.takeWhile (· ≠ ';'))

/-- An element of the list as its coding and weight, `none` if it is not one of the grammar. -/
def element (part : String) : Option (String × Nat) :=
  let text := trimmed isOWS part.toList
  if isToken (String.ofList (codingOf text)) then
    (weightOf text).map fun w => (String.ofList (codingOf text), w)
  else none

/-- The list has a gzip element whose weight is not zero. -/
def Accepts (value : String) : Prop :=
  ∃ part ∈ splitSeq value ',', ∃ e ∈ element part, equalFold e.1 "gzip" = true ∧ e.2 ≠ 0

instance (value : String) : Decidable (Accepts value) :=
  inferInstanceAs (Decidable (∃ part ∈ splitSeq value ',', ∃ e ∈ element part, _))

/-- The test that `clientAcceptsGzip` makes of each part. -/
def namesGzip (part : String) : Bool := equalFold (trimSpace (cut (trimSpace part) ';').1) "gzip"

/-- There are parts that are named gzip, and each of them either has the weight 0 or is not an
element of the grammar. -/
def RefusesGzip (value : String) : Prop :=
  (∃ part ∈ splitSeq value ',', namesGzip part = true) ∧
    ∀ part ∈ splitSeq value ',', namesGzip part = true → ∀ e ∈ element part, e.2 = 0

example : element "gzip" = some ("gzip", 1000) ∧ element " gzip ; q=0.5" = some ("gzip", 500) ∧
    element "gzip;q=0.000" = some ("gzip", 0) ∧ element "gzip;q=2" = none := by decide +kernel

/-- Around a token it makes no difference what is taken for padding. -/
theorem trimmed_isSpace_of_token {s : List Char} (h : isToken (String.ofList (trimmed isOWS s)) = true) :
    trimmed isSpace s = trimmed isOWS s := by
  obtain ⟨a, b, ha, hb, hs⟩ := trimmed_split isOWS s
  have hchars : ∀ c ∈ trimmed isOWS s, isSpace c = false :=
    fun c hc => isSpace_of_isTokenChar (isTokenChar_of_isToken h c hc)
  conv_lhs => rw [hs, trimmed_pad_left fun c hc => isSpace_of_isOWS (ha c hc),
    trimmed_pad_right fun c hc => isSpace_of_isOWS (hb c hc), trimmed_eq_self hchars]

theorem codingOf_trimmed (s : List Char) : codingOf (trimmed isOWS s) = codingOf s := by
  unfold codingOf
  exact trimmed_takeWhile (by decide) s

theorem namesGzip_eq (part : String) :
    namesGzip part = equalFold (String.ofList (trimmed isSpace (part.toList.takeWhile (· ≠ ';')))) "gzip" := by
  have htrim := trimmed_takeWhile (p := isSpace) (x := ';') (by decide) part.toList
  rw [← htrim, namesGzip, cut, trimSpace, trimSpace, String.toList_ofList, String.toList_ofList]
  rfl

/-- On an element of the grammar the code reads the coding. -/
theorem namesGzip_of_element {part : String} {e : String × Nat} (h : element part = some e) :
    namesGzip part = equalFold e.1 "gzip" := by
  simp only [element, codingOf_trimmed, Option.ite_none_right_eq_some] at h
  obtain ⟨htoken, hmap⟩ := h
  obtain ⟨w, -, rfl⟩ := Option.map_eq_some_iff.mp hmap
  rw [namesGzip_eq, trimmed_isSpace_of_token htoken]
  rfl

theorem accepts_iff (value : String) : Accepts value ↔
    ∃ part ∈ splitSeq value ',', namesGzip part = true ∧ ∃ e ∈ element part, e.2 ≠ 0 := by
  constructor
  · rintro ⟨part, hpart, e, he, hname, hweight⟩
    exact ⟨part, hpart, (namesGzip_of_element (Option.mem_def.mp he)).trans hname, e, he, hweight⟩
  · rintro ⟨part, hpart, hname, e, he, hweight⟩
    exact ⟨part, hpart, e, he, (namesGzip_of_element (Option.mem_def.mp he)).symm.trans hname, hweight⟩

theorem clientAcceptsGzip_iff (value : String) :
    clientAcceptsGzip value = true ↔ ∃ part ∈ splitSeq value ',', namesGzip part = true := by
  rw [clientAcceptsGzip, List.any_eq_true]
  rfl

theorem accepts_of_clientAcceptsGzip_iff (value : String) :
    (clientAcceptsGzip value = true → Accepts value) ↔ ¬ RefusesGzip value := by
  rw [clientAcceptsGzip_iff, accepts_iff, RefusesGzip]
  constructor
  · rintro himp ⟨hnamed, hall⟩
    obtain ⟨part, hpart, hname, e, he, hweight⟩ := himp hnamed
    exact hweight (hall part hpart hname e he)
  · intro hnot hnamed
    by_contra hnone
    refine hnot ⟨hnamed, fun part hpart hname e he => ?_⟩
    by_contra hweight
    exact hnone ⟨part, hpart, hname, e, he, hweight⟩

/-- Only a client that accepts gzip is sent gzip, except where it names gzip only to refuse it and
the handler's response is one to compress. -/
theorem gzips_only_accepted_iff (codec : Codec) (minSize : Int) (r : Request) (h : Header) (ops : List Op) :
    (gzips codec recorder minSize r ops (fresh h) = true → Accepts (r.header.get "Accept-Encoding")) ↔
      ¬ (RefusesGzip (r.header.get "Accept-Encoding") ∧
        Zippable codec minSize (h.add varyName "Accept-Encoding") ops) := by
  have hvalue := accepts_of_clientAcceptsGzip_iff (r.header.get "Accept-Encoding")
  rw [gzips_eq, Bool.and_eq_true, verdict_zips]
  constructor
  · rintro himp ⟨hrefuses, hzippable⟩
    have hclient := (clientAcceptsGzip_iff _).mpr hrefuses.1
    exact hvalue.mp (fun _ => himp ⟨hclient, hzippable⟩) hrefuses
  · rintro hnot ⟨hclient, hzippable⟩
    exact hvalue.mpr (fun hrefuses => hnot ⟨hrefuses, hzippable⟩) hclient

def refusing : Request :=
  ⟨"GET", ⟨"/p", "", []⟩, ⟨[(acceptEncoding, "gzip;q=0")]⟩, "gateway", "10.0.0.1:40000", false⟩

/-- The client takes anything but gzip, and is sent gzip. -/
theorem refusing_gzipped : gzips helloCodec recorder 1 refusing
      (handlerOps [.set contentType "text/plain"] (some 200) [hello]) (fresh .empty) = true ∧
    ¬ Accepts (refusing.header.get "Accept-Encoding") := by
  decide +kernel

end ApiGateway.AcceptEncoding
