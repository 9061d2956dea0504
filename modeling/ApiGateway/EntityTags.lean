import ApiGateway.CacheControl
import ApiGateway.Delimiters

/-!
# The grammar of If-None-Match

`If-None-Match` is `*` or a list of entity tags. A tag is a text in quotes, with `W/` before it if
it is weak; the text is of visible characters other than the quote, so it may hold commas and
stars. The elements of the list are separated by commas, may be empty, and may have blanks and tabs
around them. `etagMatches` cuts the value at every comma, those inside a tag too: a tag with a comma
is never found, and a star that stands alone between two commas of a tag is taken for the value `*`.
-/

namespace ApiGateway.EntityTags

open Strings Http CacheControl Delimiters
set_option autoImplicit false

/-- `etagc`: a visible character other than the quote, or one outside ASCII. -/
def isEtagChar (c : Char) : Bool :=
  c.toNat = 0x21 || (0x23 ≤ c.toNat && c.toNat ≤ 0x7e) || 0x80 ≤ c.toNat

structure EntityTag where
  weak : Bool
  text : List Char
  valid : text.all isEtagChar = true

def quotes (text : List Char) : List Char := '"' :: (text ++ ['"'])

def tagged (weak : Bool) (text : List Char) : List Char := (if weak then ['W', '/'] else []) ++ quotes text

def EntityTag.render (t : EntityTag) : List Char := tagged t.weak t.text

inductive IfNoneMatch where
  | any
  | tags (elements : List (ListElement isOWS EntityTag)) (nonempty : elements ≠ [])

def IfNoneMatch.render : IfNoneMatch → List Char
  | .any => ['*']
  | .tags elements _ => [','].intercalate (elements.map (ListElement.render EntityTag.render))

/-- The tags of the list. -/
def IfNoneMatch.listed : IfNoneMatch → List EntityTag
  | .any => []
  | .tags elements _ => elements.filterMap ListElement.item

/-- Weak and strong tags are compared by their texts. -/
def Lists (value : IfNoneMatch) (stored : EntityTag) : Prop := ∃ t ∈ value.listed, t.text = stored.text

def Names (value : IfNoneMatch) (stored : EntityTag) : Prop := value = .any ∨ Lists value stored

def dropWeak : List Char → List Char
  | 'W' :: '/' :: rest => rest
  | rest => rest

/-- A piece of the value as the code compares it. -/
def token (piece : List Char) : List Char := dropWeak (trimmed isSpace piece)

/-- Between two commas of the tag stands nothing but a star, apart from white space and a `W/`. -/
def HoldsStar (t : EntityTag) : Prop :=
  ∃ piece ∈ (t.text.splitOn ',').tail.dropLast,
    trimmed isSpace piece = ['*'] ∨ trimmed isSpace piece = ['W', '/', '*']

theorem quote_not_mem (t : EntityTag) : '"' ∉ t.text := by
  intro h
  exact absurd (List.all_eq_true.mp t.valid '"' h) (by decide)

section Tokens

theorem trimPrefix_weak (s : List Char) : trimPrefix (String.ofList s) "W/" = String.ofList (dropWeak s) := by
  simp only [trimPrefix, hasPrefix, String.toList_ofList]
  split
  · rename_i hstart
    obtain ⟨rest, rfl⟩ := List.isPrefixOf_iff_prefix.mp hstart
    rfl
  · rename_i hstart
    unfold dropWeak
    split
    · rename_i rest
      exact absurd (List.isPrefixOf_iff_prefix.mpr (List.prefix_append ['W', '/'] rest)) hstart
    · rfl

theorem token_eq (piece : List Char) :
    trimPrefix (trimSpace (String.ofList piece)) "W/" = String.ofList (token piece) := by
  rw [trimSpace, String.toList_ofList]
  exact trimPrefix_weak (trimmed isSpace piece)

theorem mem_of_mem_dropWeak {s : List Char} {c : Char} (hc : c ∈ dropWeak s) : c ∈ s := by
  unfold dropWeak at hc
  split at hc
  · exact List.mem_cons_of_mem _ (List.mem_cons_of_mem _ hc)
  · exact hc

theorem mem_of_mem_token {piece : List Char} {c : Char} (hc : c ∈ token piece) : c ∈ piece :=
  mem_of_mem_trimmed (mem_of_mem_dropWeak hc)

theorem token_eq_star (piece : List Char) :
    token piece = ['*'] ↔ trimmed isSpace piece = ['*'] ∨ trimmed isSpace piece = ['W', '/', '*'] := by
  constructor
  · intro h
    unfold token dropWeak at h
    split at h
    · rename_i rest heq
      exact .inr (by rw [heq, h])
    · exact .inl h
  · rintro (h | h)
    · rw [token, h]
      rfl
    · rw [token, h]
      rfl

theorem dropWeak_tagged (weak : Bool) (text : List Char) : dropWeak (tagged weak text) = quotes text := by
  cases weak with
  | true => rfl
  | false => rfl

theorem quotes_inj {a b : List Char} : quotes a = quotes b ↔ a = b := by
  rw [quotes, quotes, List.cons.injEq, List.append_cancel_right_eq]
  exact and_iff_right rfl

theorem quotes_ne_star (text : List Char) : quotes text ≠ ['*'] := by
  intro h
  exact absurd (List.cons.inj h).1 (by decide)

/-- White space around a piece is not compared. -/
theorem token_pad {a b : List Char} (ha : ∀ c ∈ a, isOWS c = true) (hb : ∀ c ∈ b, isOWS c = true)
    (s : List Char) : token (a ++ (s ++ b)) = token s := by
  rw [token, trimmed_pad_left fun c hc => isSpace_of_isOWS (ha c hc),
    trimmed_pad_right fun c hc => isSpace_of_isOWS (hb c hc), token]

theorem token_tagged (weak : Bool) (text : List Char) : token (tagged weak text) = quotes text := by
  have hquote : isSpace '"' = false := by decide
  have hkept : trimmed isSpace (tagged weak text) = tagged weak text := by
    cases weak with
    | true => exact trimmed_concat hquote ('W' :: '/' :: '"' :: text)
    | false => exact trimmed_concat hquote ('"' :: text)
  rw [token, hkept, dropWeak_tagged]

/-- The beginning of a tag is compared with its opening quote. -/
theorem token_opening (weak : Bool) (s : List Char) : ∃ rest,
    token ((if weak then ['W', '/'] else []) ++ '"' :: s) = '"' :: rest ∧ ∀ c ∈ rest, c ∈ s := by
  have hquote : isSpace '"' = false := by decide
  refine ⟨s.rdropWhile isSpace, ?_, fun c hc => (List.rdropWhile_prefix isSpace s).subset hc⟩
  cases weak with
  | true =>
    have hslash : isSpace '/' = false := by decide
    change dropWeak (trimmed isSpace ('W' :: '/' :: '"' :: s)) = _
    rw [trimmed_cons (by decide), rdropWhile_cons hslash, rdropWhile_cons hquote]
    rfl
  | false =>
    change dropWeak (trimmed isSpace ('"' :: s)) = _
    rw [trimmed_cons hquote]
    rfl

/-- The end of a tag is compared with its closing quote. -/
theorem token_closing (s : List Char) : ∃ rest, token (s ++ ['"']) = rest ++ ['"'] ∧ ∀ c ∈ rest, c ∈ s := by
  have hquote : isSpace '"' = false := by decide
  have hdrop (u : List Char) : ∃ rest, dropWeak (u ++ ['"']) = rest ++ ['"'] ∧ ∀ c ∈ rest, c ∈ u := by
    unfold dropWeak
    split
    · rename_i rest heq
      rcases u with _ | ⟨a, _ | ⟨b, u⟩⟩
      · exact absurd (List.cons.inj heq).1 (by decide)
      · exact absurd (List.cons.inj (List.cons.inj heq).2).1 (by decide)
      · exact ⟨u, (List.cons.inj (List.cons.inj heq).2).2.symm,
          fun c hc => List.mem_cons_of_mem a (List.mem_cons_of_mem b hc)⟩
    · exact ⟨u, rfl, fun c hc => hc⟩
  obtain ⟨rest, hrest, hmem⟩ := hdrop (s.dropWhile isSpace)
  exact ⟨rest, by rw [token, trimmed_concat hquote, hrest],
    fun c hc => (List.dropWhile_suffix isSpace).subset (hmem c hc)⟩

end Tokens

section Pieces
variable {stored : List Char} (e : ListElement isOWS EntityTag)

/-- The test that the code makes of a piece, for a stored tag with this text. -/
def Found (stored piece : List Char) : Prop := token piece = ['*'] ∨ token piece = quotes stored

theorem etagMatches_iff (s : List Char) (weak : Bool) (stored : List Char) :
    etagMatches (String.ofList s) (String.ofList (tagged weak stored)) = true ↔
      ∃ piece ∈ s.splitOn ',', Found stored piece := by
  have hne : String.ofList (tagged weak stored) ≠ "" := by
    intro h
    have hnil := congrArg String.toList h
    rw [String.toList_ofList, tagged, quotes] at hnil
    simp at hnil
  have hstored : trimPrefix (String.ofList (tagged weak stored)) "W/" = String.ofList (quotes stored) := by
    rw [trimPrefix_weak, dropWeak_tagged]
  have hstar (t : List Char) : String.ofList t = "*" ↔ t = ['*'] := String.ofList_inj
  rw [etagMatches, if_neg hne, splitSeq, List.any_map, List.any_eq_true, String.toList_ofList]
  refine exists_congr fun piece => and_congr_right fun _ => ?_
  simp only [Function.comp_apply, token_eq, hstored, Bool.or_eq_true, decide_eq_true_eq]
  exact or_congr (hstar (token piece)) String.ofList_inj

theorem found_tagged (weak : Bool) (text : List Char) : Found stored (tagged weak text) ↔ text = stored := by
  rw [Found, token_tagged, quotes_inj]
  exact or_iff_right (quotes_ne_star text)

theorem found_pad {a b : List Char} (ha : ∀ c ∈ a, isOWS c = true) (hb : ∀ c ∈ b, isOWS c = true)
    (s : List Char) : Found stored (a ++ (s ++ b)) ↔ Found stored s := by
  rw [Found, token_pad ha hb, Found]

theorem not_found_of_opening (stored : List Char) (weak : Bool) {s : List Char} (hs : '"' ∉ s) :
    ¬ Found stored ((if weak then ['W', '/'] else []) ++ '"' :: s) := by
  obtain ⟨rest, hrest, hmem⟩ := token_opening weak s
  rintro (h | h)
  · exact absurd (List.cons.inj (hrest.symm.trans h)).1 (by decide)
  · have htail : rest = stored ++ ['"'] := (List.cons.inj (hrest.symm.trans h)).2
    exact hs (hmem '"' (htail ▸ List.mem_append_right stored List.mem_cons_self))

theorem not_found_of_closing (stored : List Char) {s : List Char} (hs : '"' ∉ s) : ¬ Found stored (s ++ ['"']) := by
  obtain ⟨rest, hrest, hmem⟩ := token_closing s
  rintro (h | h)
  · have hlast : '"' ∈ ['*'] := by
      rw [← h, hrest]
      exact List.mem_append_right rest List.mem_cons_self
    exact absurd hlast (by decide)
  · have hrest' : rest = '"' :: stored := List.append_cancel_right (hrest.symm.trans h)
    exact hs (hmem '"' (hrest' ▸ List.mem_cons_self))

theorem found_inner {s : List Char} (hs : '"' ∉ s) :
    Found stored s ↔ trimmed isSpace s = ['*'] ∨ trimmed isSpace s = ['W', '/', '*'] := by
  rw [← token_eq_star]
  refine or_iff_left ?_
  intro h
  exact hs (mem_of_mem_token (h ▸ List.mem_cons_self))

/-- A tag without commas is one piece, which is found if it is the stored tag. -/
theorem found_of_whole {t : EntityTag} (hrender : e.render EntityTag.render = e.before ++ (t.render ++ e.after))
    (hcomma : ',' ∉ t.text) :
    (∃ piece ∈ (e.render EntityTag.render).splitOn ',', Found stored piece) ↔ t.text = stored := by
  have hnone : ',' ∉ e.render EntityTag.render := by
    rw [hrender, EntityTag.render, tagged, quotes]
    have hweak : ',' ∉ (if t.weak then ['W', '/'] else []) := by
      cases t.weak <;> decide
    simp [comma_not_mem_blank e.before_blank, comma_not_mem_blank e.after_blank, hweak, hcomma]
  rw [List.splitOn_eq_singleton hnone]
  simp only [List.mem_singleton, exists_eq_left]
  rw [hrender, found_pad e.before_blank e.after_blank]
  exact found_tagged t.weak t.text

/-- A tag with commas is cut into its beginning, its end and the pieces between two commas. -/
theorem found_of_cut {t : EntityTag} (hrender : e.render EntityTag.render = e.before ++ (t.render ++ e.after))
    {first last : List Char} {inner : List (List Char)} (hsplit : t.text.splitOn ',' = first :: (inner ++ [last])) :
    (∃ piece ∈ (e.render EntityTag.render).splitOn ',', Found stored piece) ↔ HoldsStar t := by
  have hquote : ∀ piece ∈ first :: (inner ++ [last]), '"' ∉ piece := by
    intro piece hpiece hmem
    rw [← hsplit] at hpiece
    exact quote_not_mem t (subset_of_mem_splitOn hpiece hmem)
  have hweak : ',' ∉ (if t.weak then ['W', '/'] else []) := by
    cases t.weak <;> decide
  have hpieces : (e.render EntityTag.render).splitOn ',' =
      (e.before ++ (((if t.weak then ['W', '/'] else []) ++ '"' :: first) ++ [])) ::
        (inner ++ [[] ++ ((last ++ ['"']) ++ e.after)]) := by
    have haround := splitOn_around (a := e.before ++ ((if t.weak then ['W', '/'] else []) ++ ['"']))
      (b := '"' :: e.after) (by simp [comma_not_mem_blank e.before_blank, hweak])
      (by simp [comma_not_mem_blank e.after_blank]) hsplit
    rw [hrender, EntityTag.render, tagged, quotes]
    simpa using haround
  have hnil : ∀ c ∈ ([] : List Char), isOWS c = true := by simp
  have hinner : HoldsStar t ↔
      ∃ piece ∈ inner, trimmed isSpace piece = ['*'] ∨ trimmed isSpace piece = ['W', '/', '*'] := by
    rw [HoldsStar, hsplit, List.tail_cons, List.dropLast_concat]
  rw [hpieces, hinner]
  constructor
  · rintro ⟨piece, hpiece, hfound⟩
    rcases List.mem_cons.mp hpiece with rfl | hpiece
    · rw [found_pad e.before_blank hnil] at hfound
      exact absurd hfound (not_found_of_opening stored t.weak (hquote first List.mem_cons_self))
    rcases List.mem_append.mp hpiece with hmem | hmem
    · refine ⟨piece, hmem, (found_inner (hquote piece ?_)).mp hfound⟩
      exact List.mem_cons_of_mem first (List.mem_append_left [last] hmem)
    · rw [List.mem_singleton.mp hmem, found_pad hnil e.after_blank] at hfound
      refine absurd hfound (not_found_of_closing stored (hquote last ?_))
      exact List.mem_cons_of_mem first (List.mem_append_right inner List.mem_cons_self)
  · rintro ⟨piece, hmem, hstar⟩
    exact ⟨piece, List.mem_cons_of_mem _ (List.mem_append_left _ hmem), .inl ((token_eq_star piece).mpr hstar)⟩

theorem found_in_tag {t : EntityTag} (htag : e.item = some t) :
    (∃ piece ∈ (e.render EntityTag.render).splitOn ',', Found stored piece) ↔
      (',' ∉ t.text ∧ t.text = stored) ∨ HoldsStar t := by
  have hrender : e.render EntityTag.render = e.before ++ (t.render ++ e.after) := by
    rw [ListElement.render, htag, Option.elim_some]
  by_cases hcomma : ',' ∈ t.text
  · obtain ⟨first, inner, last, hsplit⟩ := exists_pieces_of_mem hcomma
    rw [found_of_cut e hrender hsplit, or_iff_right fun h => h.1 hcomma]
  · have hstar : ¬ HoldsStar t := by
      simp [HoldsStar, List.splitOn_eq_singleton hcomma]
    rw [found_of_whole e hrender hcomma, or_iff_left hstar, and_iff_right hcomma]

theorem not_found_of_empty (htag : e.item = none) :
    ¬ ∃ piece ∈ (e.render EntityTag.render).splitOn ',', Found stored piece := by
  have hrender : e.render EntityTag.render = e.before ++ ([] ++ e.after) := by
    rw [ListElement.render, htag, Option.elim_none]
  have hnone : ',' ∉ e.render EntityTag.render := by
    simp [hrender, comma_not_mem_blank e.before_blank, comma_not_mem_blank e.after_blank]
  rw [List.splitOn_eq_singleton hnone]
  simp only [List.mem_singleton, exists_eq_left]
  rw [hrender, found_pad e.before_blank e.after_blank]
  rintro (h | h) <;> cases h

/-- A list is matched if the stored tag is listed and has no comma, or if a listed tag holds a
star. -/
theorem etagMatches_tags (elements : List (ListElement isOWS EntityTag)) (hne : elements ≠ [])
    (stored : EntityTag) :
    etagMatches (String.ofList (IfNoneMatch.tags elements hne).render) (String.ofList stored.render) = true ↔
      ∃ t ∈ (IfNoneMatch.tags elements hne).listed, (',' ∉ t.text ∧ t.text = stored.text) ∨ HoldsStar t := by
  have hrows : elements.map (ListElement.render EntityTag.render) ≠ [] := by simpa using hne
  rw [EntityTag.render, etagMatches_iff, IfNoneMatch.render, splitOn_intercalate_flatMap hrows]
  constructor
  · rintro ⟨piece, hpiece, hfound⟩
    obtain ⟨row, hrow, hpiece⟩ := List.mem_flatMap.mp hpiece
    obtain ⟨e, he, rfl⟩ := List.mem_map.mp hrow
    cases htag : e.item with
    | none => exact absurd ⟨piece, hpiece, hfound⟩ (not_found_of_empty e htag)
    | some t => exact ⟨t, List.mem_filterMap.mpr ⟨e, he, htag⟩, (found_in_tag e htag).mp ⟨piece, hpiece, hfound⟩⟩
  · rintro ⟨t, ht, h⟩
    obtain ⟨e, he, htag⟩ := List.mem_filterMap.mp ht
    obtain ⟨piece, hpiece, hfound⟩ := (found_in_tag e htag).mpr h
    exact ⟨piece, List.mem_flatMap.mpr ⟨_, List.mem_map.mpr ⟨e, he, rfl⟩, hpiece⟩, hfound⟩

end Pieces

/-- The code reads `If-None-Match` by its grammar where the value is a star or lists the stored tag
and this has no comma. Elsewhere a stored tag that has a comma is not found and a listed tag that
holds a star always is, so the reading is right only if both errors are made or neither. -/
theorem etagMatches_grammar_iff (value : IfNoneMatch) (stored : EntityTag) :
    (etagMatches (String.ofList value.render) (String.ofList stored.render) = true ↔ Names value stored) ↔
      value = .any ∨ (Lists value stored ∧ ',' ∉ stored.text) ∨
        (Lists value stored ∧ ',' ∈ stored.text ↔ ∃ t ∈ value.listed, HoldsStar t) := by
  cases value with
  | any =>
    have hmatch : etagMatches (String.ofList IfNoneMatch.any.render) (String.ofList stored.render) = true := by
      rw [EntityTag.render, etagMatches_iff]
      exact ⟨['*'], List.mem_cons_self, .inl rfl⟩
    simp [hmatch, Names]
  | tags elements hne =>
    have hnot : IfNoneMatch.tags elements hne ≠ .any := nofun
    have hlists : (∃ t ∈ (IfNoneMatch.tags elements hne).listed, ',' ∉ t.text ∧ t.text = stored.text) ↔
        Lists (.tags elements hne) stored ∧ ',' ∉ stored.text := by
      constructor
      · rintro ⟨t, ht, hcomma, htext⟩
        exact ⟨⟨t, ht, htext⟩, htext ▸ hcomma⟩
      · rintro ⟨⟨t, ht, htext⟩, hcomma⟩
        exact ⟨t, ht, htext ▸ hcomma, htext⟩
    have hsplit : (∃ t ∈ (IfNoneMatch.tags elements hne).listed,
          (',' ∉ t.text ∧ t.text = stored.text) ∨ HoldsStar t) ↔
        (Lists (.tags elements hne) stored ∧ ',' ∉ stored.text) ∨
          ∃ t ∈ (IfNoneMatch.tags elements hne).listed, HoldsStar t := by
      simp only [and_or_left, exists_or, hlists]
    rw [etagMatches_tags, hsplit, Names]
    simp only [hnot, false_or]
    by_cases hlisted : Lists (.tags elements hne) stored
    · by_cases hcomma : ',' ∈ stored.text
      · simp [hlisted, hcomma]
      · simp [hlisted, hcomma]
    · simp [hlisted]

def plainTag : EntityTag := ⟨false, ['x'], by decide⟩

def commaTag : EntityTag := ⟨true, ['a', ',', 'b'], by decide⟩

def starTag : EntityTag := ⟨false, ['a', ',', '*', ',', 'b'], by decide⟩

def single (t : EntityTag) : IfNoneMatch := .tags [⟨[], some t, [], rfl⟩] (List.cons_ne_nil _ _)

/-- The one tag listed is the stored one and is not found; a tag that is not the stored one is. -/
theorem commas_cut_tags :
    (Names (single commaTag) commaTag ∧
      etagMatches (String.ofList (single commaTag).render) (String.ofList commaTag.render) = false) ∧
    ¬ Names (single starTag) plainTag ∧
      etagMatches (String.ofList (single starTag).render) (String.ofList plainTag.render) = true := by
  refine ⟨⟨.inr ⟨commaTag, List.mem_cons_self, rfl⟩, by decide +kernel⟩, ?_, by decide +kernel⟩
  rintro (h | ⟨t, ht, htext⟩)
  · cases h
  · obtain rfl := List.mem_singleton.mp ht
    cases htext

end ApiGateway.EntityTags
