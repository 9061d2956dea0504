import ApiGateway.Strings

/-!
# Requests, responses and their headers

The parts of `net/http`, `net/textproto` and `net/url` that the gateway's code reads. A
header map holds, under each name in canonical form, the values of that name in order.
It is kept as the list of its lines; only the order among lines of one name can be
observed. The server and the client both refuse a message with a field name that is not
a token, and every name the gateway adds itself is a constant, so a field name carries the
proof that it is a token in canonical form. A name to look up is any text.

A URL has its decoded path and, when the encoding that was sent is not the default one,
the path as sent. The query is the list of its decoded pairs.
-/

namespace ApiGateway.Http

open Strings
set_option autoImplicit false

/-- `validHeaderFieldByte`: letters, digits and the marks a token may have. -/
def isTokenChar (c : Char) : Bool :=
  c.isAlphanum || c.toNat ∈ [0x21, 0x23, 0x24, 0x25, 0x26, 0x27, 0x2a, 0x2b, 0x2d, 0x2e, 0x5e, 0x5f,
    0x60, 0x7c, 0x7e]

def isToken (s : String) : Bool := s ≠ "" && s.toList.all isTokenChar

/-- White space that a field value may have around its parts. -/
def isOWS (c : Char) : Bool := c = ' ' || c = '\t'

def canonicalFrom (upper : Bool) : List Char → List Char
  | [] => []
  | c :: cs => (if upper then c.toUpper else c.toLower) :: canonicalFrom (c == '-') cs

/-- `CanonicalHeaderKey`: words joined by dashes, each capitalised; what is not a token is
left alone. -/
def canonicalHeaderKey (s : String) : String :=
  if isToken s then String.ofList (canonicalFrom true s.toList) else s

structure FieldName where
  text : String
  token : isToken text = true
  canonical : canonicalHeaderKey text = text
  deriving DecidableEq

def eTag : FieldName := ⟨"Etag", by decide, by decide⟩

def varyName : FieldName := ⟨"Vary", by decide, by decide⟩

def contentLength : FieldName := ⟨"Content-Length", by decide, by decide⟩

def contentType : FieldName := ⟨"Content-Type", by decide, by decide⟩

def contentEncoding : FieldName := ⟨"Content-Encoding", by decide, by decide⟩

def cacheControl : FieldName := ⟨"Cache-Control", by decide, by decide⟩

def acceptEncoding : FieldName := ⟨"Accept-Encoding", by decide, by decide⟩

def acceptLanguage : FieldName := ⟨"Accept-Language", by decide, by decide⟩

def authorization : FieldName := ⟨"Authorization", by decide, by decide⟩

structure Header where
  lines : List (FieldName × String)
  deriving DecidableEq

namespace Header

def empty : Header := ⟨[]⟩

def values (h : Header) (name : String) : List String :=
  (h.lines.filter fun line => line.1.text = canonicalHeaderKey name).map Prod.snd

def get (h : Header) (name : String) : String := (h.values name).headD ""

def add (h : Header) (name : FieldName) (value : String) : Header := ⟨h.lines ++ [(name, value)]⟩

def del (h : Header) (name : FieldName) : Header := ⟨h.lines.filter fun line => line.1 ≠ name⟩

def set (h : Header) (name : FieldName) (value : String) : Header := (h.del name).add name value

def remove (h : Header) (name : String) : Header :=
  ⟨h.lines.filter fun line => line.1.text ≠ canonicalHeaderKey name⟩

end Header

structure URL where
  path : String
  rawPath : String
  query : List (String × String)
  deriving DecidableEq

structure Request where
  method : String
  url : URL
  header : Header
  host : String
  remoteAddr : String
  tls : Bool
  deriving DecidableEq

structure Response where
  status : Int
  header : Header
  body : List UInt8
  deriving DecidableEq

/-- An answer the gateway makes itself: the status, the `Content-Type` and the members of the
object. -/
structure JsonReply where
  status : Nat
  contentType : String
  msg : List (String × String)
  deriving DecidableEq, Repr

def jsonReply (status : Nat) (msg : List (String × String)) : JsonReply :=
  ⟨status, "application/json", msg⟩

def utf8 (s : String) : List UInt8 := s.toList.flatMap String.utf8EncodeChar

def hexDigit (n : Nat) : Char := if n < 10 then Char.ofNat (n + 48) else Char.ofNat (n + 55)

def unhex (c : Char) : Option UInt8 :=
  if '0' ≤ c ∧ c ≤ '9' then some (UInt8.ofNat (c.toNat - 48))
  else if 'a' ≤ c ∧ c ≤ 'f' then some (UInt8.ofNat (c.toNat - 87))
  else if 'A' ≤ c ∧ c ≤ 'F' then some (UInt8.ofNat (c.toNat - 55))
  else none

def shouldEscape (c : Char) : Bool :=
  !(c.isAlphanum || c ∈ ['-', '_', '.', '~', '$', '&', '+', ',', '/', ':', ';', '=', '@'])

def escape (s : String) : String :=
  String.ofList ((utf8 s).flatMap fun b =>
    let c := Char.ofNat b.toNat
    if shouldEscape c then ['%', hexDigit (b.toNat / 16), hexDigit (b.toNat % 16)] else [c])

/-- `unescape` of a path, to bytes; `none` for a percent sign without its two digits. -/
def unescape : List Char → Option (List UInt8)
  | [] => some []
  | '%' :: a :: b :: cs => do
    let hi ← unhex a
    let lo ← unhex b
    return (16 * hi + lo) :: (← unescape cs)
  | '%' :: _ => none
  | c :: cs => (unescape cs).map (String.utf8EncodeChar c ++ ·)

def validEncoded (s : String) : Bool :=
  s.toList.all fun c => c.toNat ∈ [0x21, 0x24, 0x26, 0x27, 0x28, 0x29, 0x2a, 0x2b, 0x2c, 0x3b, 0x3d,
    0x3a, 0x40, 0x5b, 0x5d, 0x25] || !shouldEscape c

def URL.escapedPath (u : URL) : String :=
  if u.rawPath ≠ "" ∧ validEncoded u.rawPath = true ∧ unescape u.rawPath.toList = some (utf8 u.path) then
    u.rawPath
  else if u.path = "*" then "*"
  else escape u.path

example : URL.escapedPath ⟨"/a/b", "/a%2Fb", []⟩ = "/a%2Fb" ∧
    URL.escapedPath ⟨"/é", "", []⟩ = "/%C3%A9" := by decide

theorem isSpace_of_isOWS {c : Char} (h : isOWS c = true) : isSpace c = true := by
  rcases Bool.or_eq_true_iff.mp h with h | h
  · rw [of_decide_eq_true h]
    decide
  · rw [of_decide_eq_true h]
    decide

theorem comma_not_mem_blank {a : List Char} (ha : ∀ c ∈ a, isOWS c = true) : ',' ∉ a :=
  fun h => absurd (ha ',' h) (by decide)

theorem FieldName.eq_of_text {n n' : FieldName} (h : n.text = n'.text) : n = n' := by
  cases n
  cases n'
  cases h
  rfl

namespace Header

theorem values_append (h h' : Header) (name : String) :
    (Header.mk (h.lines ++ h'.lines)).values name = h.values name ++ h'.values name := by
  simp [values]

theorem values_add_self (h : Header) {n : FieldName} {name : String}
    (hn : n.text = canonicalHeaderKey name) (value : String) :
    (h.add n value).values name = h.values name ++ [value] := by
  simp [values, add, hn]

theorem values_add_of_ne (h : Header) {n : FieldName} {name : String}
    (hn : n.text ≠ canonicalHeaderKey name) (value : String) :
    (h.add n value).values name = h.values name := by
  simp [values, add, hn]

theorem values_del_self (h : Header) {n : FieldName} {name : String}
    (hn : n.text = canonicalHeaderKey name) : (h.del n).values name = [] := by
  unfold values del
  rw [List.map_eq_nil_iff, List.filter_eq_nil_iff]
  intro line hline htext
  have hne : line.1 ≠ n := by simpa using (List.mem_filter.mp hline).2
  have heq : line.1.text = canonicalHeaderKey name := by simpa using htext
  exact hne (FieldName.eq_of_text (heq.trans hn.symm))

theorem values_del_of_ne (h : Header) {n : FieldName} {name : String}
    (hn : n.text ≠ canonicalHeaderKey name) : (h.del n).values name = h.values name := by
  unfold values del
  rw [List.filter_filter]
  congr 1
  apply List.filter_congr
  intro line _
  by_cases htext : line.1.text = canonicalHeaderKey name
  · have hne : line.1 ≠ n := by
      rintro rfl
      exact hn htext
    simp [htext, hne]
  · simp [htext]

theorem values_set_self (h : Header) {n : FieldName} {name : String}
    (hn : n.text = canonicalHeaderKey name) (value : String) :
    (h.set n value).values name = [value] := by
  rw [set, values_add_self _ hn, values_del_self h hn, List.nil_append]

theorem values_set_of_ne (h : Header) {n : FieldName} {name : String}
    (hn : n.text ≠ canonicalHeaderKey name) (value : String) :
    (h.set n value).values name = h.values name := by
  rw [set, values_add_of_ne _ hn, values_del_of_ne h hn]

theorem values_remove (h : Header) (removed name : String) :
    (h.remove removed).values name =
      if canonicalHeaderKey removed = canonicalHeaderKey name then [] else h.values name := by
  unfold values remove
  rw [List.filter_filter]
  split
  · rename_i heq
    simp [heq]
  · rename_i hne
    congr 1
    apply List.filter_congr
    intro line _
    by_cases htext : line.1.text = canonicalHeaderKey name
    · simp [htext, Ne.symm hne]
    · simp [htext]

end Header

/-- No character of the text outside ASCII turns into an ASCII one in lower case. -/
def Plain (table : CaseTable) (s : String) : Prop :=
  ∀ c ∈ s.toList, isASCII c = true ∨ isASCII (table.toLower c) = false

instance (table : CaseTable) (s : String) : Decidable (Plain table s) :=
  List.decidableBAll (fun c => isASCII c = true ∨ isASCII (table.toLower c) = false) s.toList

theorem forall_ascii (P : Char → Prop) (h : ∀ n < 128, P (Char.ofNat n)) {c : Char}
    (hc : isASCII c = true) : P c := by
  have hlt : c.toNat < 128 := by simpa [isASCII] using hc
  have hP := h c.toNat hlt
  rwa [Char.ofNat_toNat] at hP

theorem isTokenChar_toLower {c : Char} (hc : isASCII c = true) :
    isTokenChar c.toLower = isTokenChar c :=
  forall_ascii (fun c => isTokenChar c.toLower = isTokenChar c) (by decide) hc

theorem isASCII_toLower {c : Char} (hc : isASCII c = true) : isASCII c.toLower = true :=
  forall_ascii (fun c => isASCII c.toLower = true) (by decide) hc

theorem isASCII_of_isTokenChar {c : Char} (h : isTokenChar c = true) : isASCII c = true := by
  have hval : c.val.toNat = c.toNat := rfl
  unfold isTokenChar Char.isAlphanum Char.isAlpha Char.isUpper Char.isLower Char.isDigit at h
  simp only [Bool.or_eq_true, Bool.and_eq_true, decide_eq_true_eq, ge_iff_le, UInt32.le_iff_toNat_le,
    List.mem_cons, List.not_mem_nil, or_false, hval, Char.reduceVal, UInt32.reduceToNat] at h
  simp only [isASCII, decide_eq_true_eq]
  omega

theorem isSpace_of_isTokenChar {c : Char} (h : isTokenChar c = true) : isSpace c = false := by
  have hall : ∀ n < 128, isTokenChar (Char.ofNat n) = true → isSpace (Char.ofNat n) = false := by decide +kernel
  exact forall_ascii (fun c => isTokenChar c = true → isSpace c = false) hall (isASCII_of_isTokenChar h) h

theorem canonicalFrom_eq_of_toLower {cs ds : List Char} (hcs : ∀ c ∈ cs, isASCII c = true)
    (hds : ∀ d ∈ ds, isASCII d = true) (h : cs.map Char.toLower = ds.map Char.toLower) (upper : Bool) :
    canonicalFrom upper cs = canonicalFrom upper ds := by
  have hfold (cs : List Char) (hcs : ∀ c ∈ cs, isASCII c = true) (upper : Bool) :
      canonicalFrom upper (cs.map Char.toLower) = canonicalFrom upper cs := by
    induction cs generalizing upper with
    | nil => rfl
    | cons c cs ih =>
      obtain ⟨hlower, hupper, hdash⟩ := forall_ascii (fun c => c.toLower.toLower = c.toLower ∧
        c.toLower.toUpper = c.toUpper ∧ (c.toLower == '-') = (c == '-')) (by decide)
        (hcs c List.mem_cons_self)
      simp only [List.map_cons, canonicalFrom, hlower, hupper, hdash,
        ih fun d hd => hcs d (List.mem_cons_of_mem c hd)]
  rw [← hfold cs hcs, ← hfold ds hds, h]

section Plain
variable {table : CaseTable} {a b : String}

theorem toLower_of_isTokenChar {c d : Char} (h : table.toLower c = table.toLower d)
    (hd : isASCII d = true ∨ isASCII (table.toLower d) = false) (hc : isTokenChar c = true) :
    c.toLower = d.toLower ∧ isTokenChar d = true := by
  have hcA := isASCII_of_isTokenChar hc
  rw [table.ascii c hcA] at h
  have hdA : isASCII d = true := by
    rcases hd with hd | hd
    · exact hd
    · rw [← h, isASCII_toLower hcA] at hd
      cases hd
  rw [table.ascii d hdA] at h
  exact ⟨h, by rw [← isTokenChar_toLower hdA, ← h, isTokenChar_toLower hcA, hc]⟩

theorem map_toLower_of_isToken {cs ds : List Char}
    (h : cs.map table.toLower = ds.map table.toLower)
    (hds : ∀ d ∈ ds, isASCII d = true ∨ isASCII (table.toLower d) = false)
    (hcs : ∀ c ∈ cs, isTokenChar c = true) :
    cs.map Char.toLower = ds.map Char.toLower ∧ ∀ d ∈ ds, isTokenChar d = true := by
  induction cs generalizing ds with
  | nil =>
    obtain rfl : ds = [] := List.map_eq_nil_iff.mp h.symm
    simp
  | cons c cs ih =>
    cases ds with
    | nil => cases h
    | cons d ds =>
      simp only [List.map_cons, List.cons.injEq] at h
      obtain ⟨hlower, htoken⟩ := toLower_of_isTokenChar h.1 (hds d List.mem_cons_self)
        (hcs c List.mem_cons_self)
      obtain ⟨hlowers, htokens⟩ := ih h.2 (fun e he => hds e (List.mem_cons_of_mem d he))
        (fun e he => hcs e (List.mem_cons_of_mem c he))
      refine ⟨by rw [List.map_cons, List.map_cons, hlower, hlowers], ?_⟩
      intro e he
      rcases List.mem_cons.mp he with rfl | he
      · exact htoken
      · exact htokens e he

theorem isToken_iff (s : String) :
    isToken s = true ↔ s ≠ "" ∧ ∀ c ∈ s.toList, isTokenChar c = true := by
  simp [isToken]

theorem isTokenChar_of_isToken {s : List Char} (h : isToken (String.ofList s) = true) :
    ∀ c ∈ s, isTokenChar c = true := by
  have hall := ((isToken_iff _).mp h).2
  rwa [String.toList_ofList] at hall

theorem not_mem_of_isToken {s : List Char} (h : isToken (String.ofList s) = true) {c : Char}
    (hc : isTokenChar c = false) : c ∉ s :=
  fun hmem => Bool.false_ne_true (hc.symm.trans (isTokenChar_of_isToken h c hmem))

theorem canonicalHeaderKey_eq_of_isToken (ha : isToken a = true) (hb : Plain table b)
    (h : toLower table a = toLower table b) :
    isToken b = true ∧ canonicalHeaderKey a = canonicalHeaderKey b := by
  have hchars : a.toList.map table.toLower = b.toList.map table.toLower := by
    rw [← toList_toLower, h, toList_toLower]
  obtain ⟨hne, htokens⟩ := (isToken_iff a).mp ha
  obtain ⟨hlower, htokens'⟩ := map_toLower_of_isToken hchars hb htokens
  have hne' : b ≠ "" := by
    rintro rfl
    apply hne
    apply String.toList_inj.mp
    exact List.map_eq_nil_iff.mp hchars
  have hb' : isToken b = true := (isToken_iff b).mpr ⟨hne', htokens'⟩
  refine ⟨hb', ?_⟩
  rw [canonicalHeaderKey, canonicalHeaderKey, if_pos ha, if_pos hb',
    canonicalFrom_eq_of_toLower (fun c hc => isASCII_of_isTokenChar (htokens c hc))
      (fun c hc => isASCII_of_isTokenChar (htokens' c hc)) hlower]

theorem values_of_not_isToken (h : Header) (ha : isToken a = false) : h.values a = [] := by
  unfold Header.values
  rw [List.map_eq_nil_iff, List.filter_eq_nil_iff]
  intro line _ hline
  have htext : line.1.text = a := by simpa [canonicalHeaderKey, ha] using hline
  have htoken := line.1.token
  rw [htext, ha] at htoken
  cases htoken

/-- Two plain names with one lower case read the same lines of every header. -/
theorem values_eq_of_toLower (h : Header) (ha : Plain table a) (hb : Plain table b)
    (hlower : toLower table a = toLower table b) : h.values a = h.values b := by
  cases hta : isToken a with
  | true =>
    obtain ⟨-, hkey⟩ := canonicalHeaderKey_eq_of_isToken hta hb hlower
    unfold Header.values
    rw [hkey]
  | false =>
    cases htb : isToken b with
    | true =>
      obtain ⟨hta', -⟩ := canonicalHeaderKey_eq_of_isToken htb ha hlower.symm
      rw [hta] at hta'
      cases hta'
    | false => rw [values_of_not_isToken h hta, values_of_not_isToken h htb]

end Plain

end ApiGateway.Http
