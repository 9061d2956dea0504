import ApiGateway.CacheControl
import ApiGateway.Delimiters

/-!
# The grammar of Cache-Control

`Cache-Control` is a list of directives. A directive is a token, which may be followed by an equals
sign and an argument: a token again, or a text in quotes. A quoted text may hold commas and equals
signs, and quotes with a backslash before them. The elements of the list are separated by commas,
may be empty, and may have blanks and tabs around them. `parseCacheControl` cuts the value at every
comma, those inside quotes too, and takes what stands behind such a comma for a directive.
-/

namespace ApiGateway.CacheDirectives

open Strings Http CacheControl Delimiters
set_option autoImplicit false

/-- `qdtext`: what stands in quotes as it is. -/
def isQuotedChar (c : Char) : Bool :=
  isOWS c || c.toNat = 0x21 || (0x23 ≤ c.toNat && c.toNat ≤ 0x5b) || (0x5d ≤ c.toNat && c.toNat ≤ 0x7e) ||
    0x80 ≤ c.toNat

/-- What may stand behind a backslash. -/
def isEscapable (c : Char) : Bool := isOWS c || (0x21 ≤ c.toNat && c.toNat ≤ 0x7e) || 0x80 ≤ c.toNat

def wellQuoted : List Char → Bool
  | [] => true
  | '\\' :: c :: text => isEscapable c && wellQuoted text
  | c :: text => isQuotedChar c && wellQuoted text

inductive Argument where
  | absent
  | token (text : List Char) (valid : isToken (String.ofList text) = true)
  | quoted (text : List Char) (valid : wellQuoted text = true)

structure Directive where
  name : List Char
  argument : Argument
  valid : isToken (String.ofList name) = true

/-- Names are compared without regard to case. -/
def Directive.key (d : Directive) : String := String.ofList (d.name.map Char.toLower)

def Argument.render : Argument → List Char
  | .absent => []
  | .token text _ => '=' :: text
  | .quoted text _ => '=' :: '"' :: (text ++ ['"'])

def Directive.render (d : Directive) : List Char := d.name ++ d.argument.render

structure Value where
  elements : List (ListElement isOWS Directive)
  nonempty : elements ≠ []

def Value.render (v : Value) : List Char := [','].intercalate (v.elements.map (ListElement.render Directive.render))

def Value.directives (v : Value) : List Directive := v.elements.filterMap ListElement.item

/-- The directive is the last one of its name, with `after` behind it. -/
def LastOfName (v : Value) (d : Directive) (after : List Directive) : Prop :=
  (∃ before, v.directives = before ++ d :: after) ∧ d.key ∉ after.map Directive.key

structure ReadByGrammar (table : CaseTable) (v : Value) : Prop where
  names : ∀ name, hasDirective (parseCacheControl table (String.ofList v.render)) name = true ↔
    name ∈ v.directives.map Directive.key
  arguments : ∀ d after text valid, LastOfName v d after → d.argument = .token text valid →
    (parseCacheControl table (String.ofList v.render)).lookup d.key = some (String.ofList text)

/-- The pieces behind the commas of a quoted argument. The closing quote is part of the last one. -/
def Directive.behindCommas (d : Directive) : List (List Char) :=
  match d.argument with
  | .quoted text _ => ((text ++ ['"']).splitOn ',').tail
  | _ => []

/-- The text before the first equals sign, as a name. -/
def heading (table : CaseTable) (piece : List Char) : String :=
  String.ofList ((trimmed isSpace (piece.takeWhile (· ≠ '='))).map table.toLower)

/-- The text behind the first equals sign. -/
def remainder (piece : List Char) : String :=
  String.ofList (trimmed isSpace ((piece.dropWhile (· ≠ '=')).drop 1))

/-- The commas in quoted arguments change nothing: a piece behind one, if it is not blank, starts
with the name of a directive of the value, and where such pieces follow an unquoted argument under
its own name, the last of them repeats it. -/
structure HarmlessCommas (table : CaseTable) (v : Value) : Prop where
  names : ∀ d ∈ v.directives, ∀ piece ∈ d.behindCommas, trimmed isSpace piece ≠ [] →
    heading table piece ∈ v.directives.map Directive.key
  arguments : ∀ d after text valid, LastOfName v d after → d.argument = .token text valid →
    ∀ piece ∈ (after.flatMap Directive.behindCommas).reverse.find? fun piece => heading table piece = d.key,
      remainder piece = String.ofList text

section Pieces
variable (table : CaseTable)

theorem assignment_eq (piece : List Char) : assignment table (String.ofList piece) =
    if trimmed isSpace piece = [] then none else some (heading table piece, remainder piece) := by
  have htrim (s : List Char) : trimSpace (String.ofList s) = String.ofList (trimmed isSpace s) := by
    rw [trimSpace, String.toList_ofList, trimmed]
  have hempty : String.ofList (trimmed isSpace piece) = "" ↔ trimmed isSpace piece = [] := String.ofList_inj
  have hname := trimmed_takeWhile (p := isSpace) (x := '=') (by decide) piece
  have hvalue := trimmed_dropWhile (p := isSpace) (x := '=') (by decide) piece
  simp only [assignment, cut, htrim, toLower, String.toList_ofList, hempty, hname, hvalue, heading, remainder]

theorem heading_of_blank {piece : List Char} (h : trimmed isSpace piece = []) : heading table piece = "" := by
  rw [heading, ← trimmed_takeWhile (by decide), h]
  rfl

/-- What is assigned for these pieces, one after the other. -/
def assigned (pieces : List (List Char)) : List (String × String) :=
  pieces.filterMap (assignment table ∘ String.ofList)

theorem parseCacheControl_pieces (s : List Char) :
    parseCacheControl table (String.ofList s) = (assigned table (s.splitOn ',')).reverse := by
  rw [parseCacheControl_eq, splitSeq, String.toList_ofList, List.filterMap_map, assigned]

theorem assigned_append (l r : List (List Char)) : assigned table (l ++ r) = assigned table l ++ assigned table r :=
  List.filterMap_append

/-- Under a name stands what the last piece with this heading has behind its equals sign. -/
theorem lookup_assigned {name : String} (hname : name ≠ "") (pieces : List (List Char)) :
    (assigned table pieces).reverse.lookup name =
      (pieces.reverse.find? fun piece => heading table piece = name).map remainder := by
  rw [assigned, ← List.filterMap_reverse]
  induction pieces.reverse with
  | nil => rfl
  | cons piece pieces ih =>
    rw [List.filterMap_cons, Function.comp_apply, assignment_eq, List.find?_cons]
    by_cases hblank : trimmed isSpace piece = []
    · have hne : heading table piece ≠ name := by
        rw [heading_of_blank table hblank]
        exact hname.symm
      simp only [hblank, hne, if_true, decide_false]
      exact ih
    · simp only [hblank, if_false, List.lookup_cons]
      by_cases hheading : heading table piece = name
      · simp [hheading]
      · simp only [hheading, beq_eq_false_iff_ne.mpr (Ne.symm hheading), decide_false]
        exact ih

theorem mem_names_assigned {pieces : List (List Char)} {name : String} :
    name ∈ (assigned table pieces).map Prod.fst ↔
      ∃ piece ∈ pieces, trimmed isSpace piece ≠ [] ∧ heading table piece = name := by
  rw [assigned, List.map_filterMap, List.mem_filterMap]
  refine exists_congr fun piece => and_congr_right fun _ => ?_
  rw [Function.comp_apply, assignment_eq]
  split
  · rename_i hblank
    simp [hblank]
  · rename_i hblank
    simp [hblank]

theorem assignment_congr {l r : List Char} (h : trimmed isSpace l = trimmed isSpace r) :
    assignment table (String.ofList l) = assignment table (String.ofList r) := by
  have htrim : trimSpace (String.ofList l) = trimSpace (String.ofList r) := by
    change String.ofList (trimmed isSpace _) = String.ofList (trimmed isSpace _)
    rw [String.toList_ofList, String.toList_ofList, h]
  rw [assignment, htrim, assignment]

theorem assigned_pad_left {a : List Char} (ha : ∀ c ∈ a, isOWS c = true) (s : List Char) :
    assigned table ((a ++ s).splitOn ',') = assigned table (s.splitOn ',') := by
  obtain ⟨first, rest, hs⟩ := List.exists_cons_of_ne_nil (List.splitOn_ne_nil ',' s)
  have htrim := trimmed_pad_left (fun c hc => isSpace_of_isOWS (ha c hc)) first
  rw [splitOn_prepend (comma_not_mem_blank ha) hs, hs, assigned, assigned, List.filterMap_cons, List.filterMap_cons,
    Function.comp_apply, Function.comp_apply, assignment_congr table htrim]

theorem assigned_pad_right {b : List Char} (hb : ∀ c ∈ b, isOWS c = true) (s : List Char) :
    assigned table ((s ++ b).splitOn ',') = assigned table (s.splitOn ',') := by
  rcases List.eq_nil_or_concat (s.splitOn ',') with hs | ⟨rest, last, hs⟩
  · exact absurd hs (List.splitOn_ne_nil ',' s)
  · rw [List.concat_eq_append] at hs
    have htrim := trimmed_pad_right (fun c hc => isSpace_of_isOWS (hb c hc)) last
    rw [splitOn_extend (comma_not_mem_blank hb) hs, hs, assigned_append, assigned_append, assigned, assigned, assigned,
      List.filterMap_cons, List.filterMap_cons, Function.comp_apply, Function.comp_apply, assignment_congr table htrim]

end Pieces

section Directives
variable {table : CaseTable}

theorem trimmed_of_isToken {s : List Char} (h : isToken (String.ofList s) = true) : trimmed isSpace s = s :=
  trimmed_eq_self fun c hc => isSpace_of_isTokenChar (isTokenChar_of_isToken h c hc)

theorem Directive.key_ne (d : Directive) : d.key ≠ "" := by
  intro h
  have hnil : d.name.map Char.toLower = [] := String.ofList_inj.mp h
  refine ((isToken_iff _).mp d.valid).1 ?_
  rw [List.map_eq_nil_iff.mp hnil]

/-- The piece of a directive up to its first comma. -/
def Directive.opening (d : Directive) : List Char :=
  d.name ++ match d.argument with
    | .absent => []
    | .token text _ => '=' :: text
    | .quoted text _ => '=' :: '"' :: ((text ++ ['"']).splitOn ',').headD []

theorem Directive.splitOn_render (d : Directive) : d.render.splitOn ',' = d.opening :: d.behindCommas := by
  have hname : ',' ∉ d.name := not_mem_of_isToken d.valid (by decide)
  rw [Directive.render, Directive.opening, Directive.behindCommas]
  cases d.argument with
  | absent =>
    refine List.splitOn_eq_singleton ?_
    simpa [Argument.render] using hname
  | token text valid =>
    refine List.splitOn_eq_singleton ?_
    simp [Argument.render, hname, not_mem_of_isToken valid (show isTokenChar ',' = false by decide)]
  | quoted text valid =>
    obtain ⟨first, rest, hs⟩ := List.exists_cons_of_ne_nil (List.splitOn_ne_nil ',' (text ++ ['"']))
    have hopen : ',' ∉ d.name ++ ['=', '"'] := by simp [hname]
    have hsplit := splitOn_prepend hopen hs
    simpa [Argument.render, hs] using hsplit

theorem Directive.no_equals (d : Directive) : ∀ c ∈ d.name, decide (c ≠ '=') = true := by
  intro c hc
  refine decide_eq_true ?_
  rintro rfl
  exact not_mem_of_isToken d.valid (by decide) hc

theorem Directive.heading_opening (d : Directive) : heading table d.opening = d.key := by
  have htake : d.opening.takeWhile (· ≠ '=') = d.name := by
    rw [Directive.opening, List.takeWhile_append_of_pos d.no_equals]
    cases d.argument with
    | absent => exact List.append_nil d.name
    | token text valid => exact List.append_nil d.name
    | quoted text valid => exact List.append_nil d.name
  have hlower : d.name.map table.toLower = d.name.map Char.toLower :=
    List.map_congr_left fun c hc => table.ascii c (isASCII_of_isTokenChar (isTokenChar_of_isToken d.valid c hc))
  rw [heading, htake, trimmed_of_isToken d.valid, hlower, Directive.key]

theorem Directive.remainder_opening (d : Directive) {text : List Char} {valid : isToken (String.ofList text) = true}
    (h : d.argument = .token text valid) : remainder d.opening = String.ofList text := by
  rw [remainder, Directive.opening, h, List.dropWhile_append_of_pos d.no_equals]
  exact congrArg String.ofList (trimmed_of_isToken valid)

theorem Directive.opening_not_blank (d : Directive) : trimmed isSpace d.opening ≠ [] := by
  intro h
  exact d.key_ne (d.heading_opening.symm.trans (heading_of_blank asciiTable h))

/-- The pieces that these directives are cut into. -/
def pieces (ds : List Directive) : List (List Char) := ds.flatMap fun d => d.opening :: d.behindCommas

theorem assigned_elements (elements : List (ListElement isOWS Directive)) :
    assigned table ((elements.map (ListElement.render Directive.render)).flatMap fun row => row.splitOn ',') =
      assigned table (pieces (elements.filterMap ListElement.item)) := by
  induction elements with
  | nil => rfl
  | cons e elements ih =>
    rw [List.map_cons, List.flatMap_cons, assigned_append, ih, ListElement.render,
      assigned_pad_left table e.before_blank, assigned_pad_right table e.after_blank, List.filterMap_cons]
    cases e.item with
    | none => rfl
    | some d =>
      dsimp only [Option.elim_some]
      rw [d.splitOn_render, ← assigned_append]
      rfl

theorem parseCacheControl_render (v : Value) :
    parseCacheControl table (String.ofList v.render) = (assigned table (pieces v.directives)).reverse := by
  have hrows : v.elements.map (ListElement.render Directive.render) ≠ [] := by simpa using v.nonempty
  rw [parseCacheControl_pieces, Value.render, splitOn_intercalate_flatMap hrows, assigned_elements, Value.directives]

end Directives

section Reading
variable {table : CaseTable} {v : Value}

theorem mem_names_render {name : String} :
    hasDirective (parseCacheControl table (String.ofList v.render)) name = true ↔
      name ∈ v.directives.map Directive.key ∨
        ∃ d ∈ v.directives, ∃ piece ∈ d.behindCommas, trimmed isSpace piece ≠ [] ∧ heading table piece = name := by
  rw [hasDirective_iff_mem, parseCacheControl_render, List.map_reverse, List.mem_reverse, mem_names_assigned]
  constructor
  · rintro ⟨piece, hpiece, hblank, rfl⟩
    obtain ⟨d, hd, hpiece⟩ := List.mem_flatMap.mp hpiece
    rcases List.mem_cons.mp hpiece with rfl | hpiece
    · exact .inl (List.mem_map.mpr ⟨d, hd, d.heading_opening.symm⟩)
    · exact .inr ⟨d, hd, piece, hpiece, hblank, rfl⟩
  · rintro (hname | ⟨d, hd, piece, hpiece, hblank, hheading⟩)
    · obtain ⟨d, hd, rfl⟩ := List.mem_map.mp hname
      exact ⟨d.opening, List.mem_flatMap.mpr ⟨d, hd, List.mem_cons_self⟩, d.opening_not_blank, d.heading_opening⟩
    · exact ⟨piece, List.mem_flatMap.mpr ⟨d, hd, List.mem_cons_of_mem _ hpiece⟩, hblank, hheading⟩

/-- Among the pieces of directives with other names only those behind commas can have the name. -/
theorem find_pieces {name : String} {ds : List Directive} (h : name ∉ ds.map Directive.key) :
    ((pieces ds).reverse.find? fun piece => heading table piece = name) =
      (ds.flatMap Directive.behindCommas).reverse.find? fun piece => heading table piece = name := by
  induction ds with
  | nil => rfl
  | cons d ds ih =>
    rw [List.map_cons, List.mem_cons, not_or] at h
    have hopening : ¬ (decide (heading table d.opening = name)) = true := by
      rw [d.heading_opening]
      simpa using Ne.symm h.1
    rw [pieces, List.flatMap_cons, List.flatMap_cons, List.reverse_append, List.reverse_append, List.find?_append,
      List.find?_append, List.reverse_cons, List.find?_append, List.find?_singleton, if_neg hopening, Option.or_none]
    exact congrArg (Option.or · _) (ih h.2)

theorem lookup_last {d : Directive} {after : List Directive} (hlast : LastOfName v d after) {text : List Char}
    {valid : isToken (String.ofList text) = true} (harg : d.argument = .token text valid) :
    (parseCacheControl table (String.ofList v.render)).lookup d.key =
      (((after.flatMap Directive.behindCommas).reverse.find? fun piece => heading table piece = d.key).map
        remainder).or (some (String.ofList text)) := by
  obtain ⟨⟨before, hsplit⟩, hafter⟩ := hlast
  have hpieces : pieces v.directives = pieces before ++ ([d.opening] ++ pieces after) := by
    have hbehind : d.behindCommas = [] := by
      rw [Directive.behindCommas, harg]
    rw [hsplit, pieces, List.flatMap_append, List.flatMap_cons, hbehind]
    rfl
  rw [parseCacheControl_render, lookup_assigned table d.key_ne, hpieces, List.reverse_append, List.reverse_append,
    List.find?_append, List.find?_append, find_pieces hafter, List.reverse_singleton, List.find?_singleton,
    if_pos (decide_eq_true d.heading_opening), Option.or_assoc, Option.some_or, Option.map_or, Option.map_some,
    d.remainder_opening harg]

theorem HarmlessCommas.of_read (h : ReadByGrammar table v) : HarmlessCommas table v := by
  constructor
  · intro d hd piece hpiece hblank
    exact (h.names _).mp (mem_names_render.mpr (.inr ⟨d, hd, piece, hpiece, hblank, rfl⟩))
  · intro d after text valid hlast harg piece hpiece
    have hlookup := h.arguments d after text valid hlast harg
    rw [lookup_last hlast harg, Option.mem_def.mp hpiece] at hlookup
    exact Option.some.inj hlookup

theorem HarmlessCommas.read (h : HarmlessCommas table v) : ReadByGrammar table v := by
  constructor
  · intro name
    rw [mem_names_render]
    refine or_iff_left_of_imp ?_
    rintro ⟨d, hd, piece, hpiece, hblank, rfl⟩
    exact h.names d hd piece hpiece hblank
  · intro d after text valid hlast harg
    rw [lookup_last hlast harg]
    cases hfind : (after.flatMap Directive.behindCommas).reverse.find? fun piece => heading table piece = d.key with
    | none => rfl
    | some piece => exact congrArg some (h.arguments d after text valid hlast harg piece hfind)

/-- No directive is lost: the commas in quoted arguments only add names. -/
theorem hasDirective_of_directive {name : String} (h : name ∈ v.directives.map Directive.key) :
    hasDirective (parseCacheControl table (String.ofList v.render)) name = true :=
  mem_names_render.mpr (.inl h)

theorem readByGrammar_of_no_commas
    (h : ∀ d ∈ v.directives, ∀ text valid, d.argument = .quoted text valid → ',' ∉ text) :
    ReadByGrammar table v := by
  have hnone : ∀ d ∈ v.directives, d.behindCommas = [] := by
    intro d hd
    rw [Directive.behindCommas]
    split
    · rename_i text valid harg
      have hcomma : ',' ∉ text ++ ['"'] := by simp [h d hd text valid harg]
      rw [List.splitOn_eq_singleton hcomma, List.tail_cons]
    · rfl
  refine HarmlessCommas.read ⟨?_, ?_⟩
  · intro d hd piece hpiece
    rw [hnone d hd] at hpiece
    cases hpiece
  · intro d after text valid hlast harg piece hpiece
    obtain ⟨⟨before, hsplit⟩, -⟩ := hlast
    have hafter : after.flatMap Directive.behindCommas = [] := by
      refine List.flatMap_eq_nil_iff.mpr fun e he => hnone e ?_
      rw [hsplit]
      exact List.mem_append_right before (List.mem_cons_of_mem d he)
    rw [hafter] at hpiece
    cases hpiece

theorem Directive.quote_not_mem_key (d : Directive) : '"' ∉ d.key.toList := by
  rw [Directive.key, String.toList_ofList]
  intro hmem
  obtain ⟨c, hc, hquote⟩ := List.mem_map.mp hmem
  have htoken := isTokenChar_of_isToken d.valid c hc
  rw [← isTokenChar_toLower (isASCII_of_isTokenChar htoken), hquote] at htoken
  exact absurd htoken (by decide)

/-- A quoted argument with commas is misread if no equals sign follows the last of them: its end is
taken for a name, which has the closing quote in it. -/
theorem not_readByGrammar_of_end {d : Directive} (hd : d ∈ v.directives) {text : List Char}
    {valid : wellQuoted text = true} (harg : d.argument = .quoted text valid) {first last : List Char}
    {inner : List (List Char)} (hsplit : text.splitOn ',' = first :: (inner ++ [last])) (hequals : '=' ∉ last) :
    ¬ ReadByGrammar table v := by
  intro h
  have hclosed : (text ++ ['"']).splitOn ',' = (first :: inner) ++ [last ++ ['"']] :=
    splitOn_extend (by decide) hsplit
  have hpiece : last ++ ['"'] ∈ d.behindCommas := by
    rw [Directive.behindCommas, harg]
    dsimp only
    rw [hclosed]
    exact List.mem_append_right inner List.mem_cons_self
  have htrim : trimmed isSpace (last ++ ['"']) = last.dropWhile isSpace ++ ['"'] := trimmed_concat (by decide) last
  have hblank : trimmed isSpace (last ++ ['"']) ≠ [] := by
    rw [htrim]
    exact List.append_ne_nil_of_right_ne_nil _ (List.cons_ne_nil _ _)
  obtain ⟨e, -, hkey⟩ := List.mem_map.mp ((HarmlessCommas.of_read h).names d hd _ hpiece hblank)
  have hwhole : (last ++ ['"']).takeWhile (· ≠ '=') = last ++ ['"'] := by
    refine List.takeWhile_eq_self_iff.mpr fun c hc => decide_eq_true ?_
    rintro rfl
    exact (List.mem_append.mp hc).elim hequals (by decide)
  refine e.quote_not_mem_key ?_
  rw [hkey, heading, hwhole, htrim, String.toList_ofList, List.map_append, List.map_singleton,
    table.ascii '"' (by decide)]
  exact List.mem_append_right _ List.mem_cons_self

end Reading

section Stored
variable {table : CaseTable} {v : Value} {status : Int} {varyAny : Bool} {r : Request}

/-- However the value is quoted, a directive against storing is obeyed. -/
theorem cacheableResponse_obeys
    (h : cacheableResponse status (parseCacheControl table (String.ofList v.render)) varyAny r = true) :
    "no-store" ∉ v.directives.map Directive.key ∧ "private" ∉ v.directives.map Directive.key := by
  obtain ⟨-, hstore, hprivate, -, -⟩ := cacheableResponse_iff.mp h
  constructor
  · intro hmem
    exact Bool.false_ne_true (hstore.symm.trans (hasDirective_of_directive hmem))
  · intro hmem
    exact Bool.false_ne_true (hprivate.symm.trans (hasDirective_of_directive hmem))

/-- Where the value is read by its grammar, the decision is about its directives. -/
theorem cacheableResponse_of_read (h : ReadByGrammar table v) :
    cacheableResponse status (parseCacheControl table (String.ofList v.render)) varyAny r = true ↔
      status = 200 ∧ "no-store" ∉ v.directives.map Directive.key ∧
        "private" ∉ v.directives.map Directive.key ∧ varyAny = false ∧
        (r.header.get "Authorization" ≠ "" → "public" ∈ v.directives.map Directive.key) := by
  simp only [cacheableResponse_iff, ← Bool.not_eq_true, h.names]

end Stored

/-- The code reads `Cache-Control` by its grammar exactly if the commas in quoted arguments are
harmless. -/
theorem parseCacheControl_grammar_iff (table : CaseTable) (v : Value) :
    ReadByGrammar table v ↔ HarmlessCommas table v :=
  ⟨HarmlessCommas.of_read, HarmlessCommas.read⟩

theorem unpadded : (([] : List Char) ++ []).all isOWS = true := rfl

def listed (ds : List Directive) (h : ds ≠ []) : Value :=
  ⟨ds.map fun d => ⟨[], some d, [], unpadded⟩, by simpa using h⟩

def maxAge : Directive := ⟨"max-age".toList, .token ['5'] (by decide), by decide⟩

def quotedPublic : Directive := ⟨"ext".toList, .quoted "a,public,b".toList (by decide), by decide⟩

def quotedMaxAge : Directive := ⟨"ext".toList, .quoted "a,max-age=9,b".toList (by decide), by decide⟩

def signedIn : Request := ⟨"GET", ⟨"/me", "", []⟩, ⟨[(authorization, "Bearer t")]⟩, "", "", false⟩

/-- A directive `public` is read that the value does not have, and the answer to an authorised
request is stored because of it; a text in quotes replaces the argument of `max-age`. -/
theorem directives_read_from_quotes :
    let v := listed [quotedPublic] (List.cons_ne_nil _ _)
    let w := listed [maxAge, quotedMaxAge] (List.cons_ne_nil _ _)
    (String.ofList v.render = "ext=\"a,public,b\"" ∧ v.directives.map Directive.key = ["ext"] ∧
      hasDirective (parseCacheControl asciiTable (String.ofList v.render)) "public" = true ∧
      cacheableResponse 200 (parseCacheControl asciiTable (String.ofList v.render)) false signedIn = true ∧
      ¬ ReadByGrammar asciiTable v) ∧
    String.ofList w.render = "max-age=5,ext=\"a,max-age=9,b\"" ∧
      (parseCacheControl asciiTable (String.ofList w.render)).lookup "max-age" = some "9" ∧
      ¬ ReadByGrammar asciiTable w := by
  intro v w
  have hkeys : v.directives.map Directive.key = ["ext"] := by decide +kernel
  have hpublic : hasDirective (parseCacheControl asciiTable (String.ofList v.render)) "public" = true := by
    decide +kernel
  have hage : (parseCacheControl asciiTable (String.ofList w.render)).lookup "max-age" = some "9" := by
    decide +kernel
  refine ⟨⟨by decide +kernel, hkeys, hpublic, by decide +kernel, ?_⟩, by decide +kernel, hage, ?_⟩
  · intro h
    have hmem := (h.names "public").mp hpublic
    rw [hkeys] at hmem
    exact absurd hmem (by decide)
  · intro h
    have hfive := h.arguments maxAge [quotedMaxAge] ['5'] (by decide) ⟨⟨[], rfl⟩, by decide +kernel⟩ rfl
    rw [show maxAge.key = "max-age" by decide +kernel, hage] at hfive
    exact absurd hfive (by decide)

end ApiGateway.CacheDirectives
