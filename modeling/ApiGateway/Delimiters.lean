import Mathlib.Data.List.Basic
import Mathlib.Data.List.DropRight
import Mathlib.Data.List.TakeWhile

/-!
# Texts put together with delimiters

Rows of a name and a value written one after the other without escaping, either each
with a closing delimiter or each with an opening one. Over any alphabet, such a text
determines its rows as long as no name or value holds the delimiter that ends it; the
statements carry what follows the rows, so that they compose. Padding at the ends of a text
is what a predicate on letters says; a text may be trimmed before or after it is cut at a letter
that is no padding. A text is cut at the first of some stop letters, and cuts at several of them can
be made in one. Texts joined with a separator are split again into the pieces of each, so the join
can be undone exactly if there is a text and none holds the separator. An element of such a list may have
padding around it and may be empty.
-/

namespace ApiGateway.Delimiters

set_option autoImplicit false

universe u v
variable {α : Type u}

/-- Rows `name eq value stop`. -/
def closed (eq stop : α) (rows : List (List α × List α)) : List α :=
  rows.flatMap fun row => row.1 ++ eq :: (row.2 ++ [stop])

/-- Rows `bar name eq value`. -/
def opened (bar eq : α) (rows : List (List α × List α)) : List α :=
  rows.flatMap fun row => bar :: (row.1 ++ eq :: row.2)

@[simp] theorem closed_nil (eq stop : α) : closed eq stop [] = [] := rfl

@[simp] theorem closed_cons (eq stop : α) (row : List α × List α) (rows : List (List α × List α)) :
    closed eq stop (row :: rows) = row.1 ++ eq :: (row.2 ++ stop :: closed eq stop rows) := by
  simp [closed]

@[simp] theorem opened_nil (bar eq : α) : opened bar eq [] = [] := rfl

@[simp] theorem opened_cons (bar eq : α) (row : List α × List α) (rows : List (List α × List α)) :
    opened bar eq (row :: rows) = bar :: (row.1 ++ eq :: (row.2 ++ opened bar eq rows)) := by
  simp [opened]

/-- A text is empty or begins with `bar`. -/
def StartsWith (bar : α) (s : List α) : Prop := ∀ c ∈ s.head?, c = bar

theorem startsWith_cons (bar : α) (s : List α) : StartsWith bar (bar :: s) := by
  simp [StartsWith]

theorem opened_startsWith (bar eq : α) (rows : List (List α × List α)) :
    StartsWith bar (opened bar eq rows) := by
  cases rows with
  | nil => simp [StartsWith]
  | cons row rows => simp [StartsWith]

theorem eq_nil_of_startsWith {bar : α} {c t : List α} (hs : StartsWith bar (c ++ t))
    (hc : bar ∉ c) : c = [] := by
  cases c with
  | nil => rfl
  | cons x c =>
    have hx : x = bar := hs x rfl
    exact absurd (hx ▸ List.mem_cons_self) hc

theorem split_before {bar : α} {a b s t : List α} (ha : bar ∉ a) (hb : bar ∉ b)
    (hs : StartsWith bar s) (ht : StartsWith bar t) (h : a ++ s = b ++ t) : a = b ∧ s = t := by
  rcases List.append_eq_append_iff.mp h with ⟨c, rfl, rfl⟩ | ⟨c, rfl, rfl⟩
  · obtain rfl := eq_nil_of_startsWith hs fun hc => hb (List.mem_append_right a hc)
    simp
  · obtain rfl := eq_nil_of_startsWith ht fun hc => ha (List.mem_append_right b hc)
    simp

theorem split_at_first {x : α} {a b s t : List α} (ha : x ∉ a) (hb : x ∉ b)
    (h : a ++ x :: s = b ++ x :: t) : a = b ∧ s = t := by
  obtain ⟨rfl, hst⟩ := split_before ha hb (startsWith_cons x s) (startsWith_cons x t) h
  exact ⟨rfl, (List.cons.inj hst).2⟩

/-- Two names, each ended by the same letter, begin the same text only if one of them goes on
after that letter where the other ends. -/
theorem tagged_eq_iff {x : α} {a b s t : List α} (hab : a ≠ b) : a ++ x :: s = b ++ x :: t ↔
    (∃ m, b = a ++ x :: m ∧ s = m ++ x :: t) ∨ ∃ m, a = b ++ x :: m ∧ t = m ++ x :: s := by
  have hgoes {c s t : List α} (hc : c ≠ []) (h : x :: s = c ++ x :: t) : ∃ m, c = x :: m ∧ s = m ++ x :: t := by
    cases c with
    | nil => exact absurd rfl hc
    | cons y m =>
      obtain ⟨rfl, hm⟩ := List.cons.inj h
      exact ⟨m, rfl, hm⟩
  constructor
  · intro h
    rcases List.append_eq_append_iff.mp h with ⟨c, rfl, hc⟩ | ⟨c, rfl, hc⟩
    · obtain ⟨m, rfl, hm⟩ := hgoes (fun hnil => hab (by rw [hnil, List.append_nil])) hc
      exact .inl ⟨m, rfl, hm⟩
    · obtain ⟨m, rfl, hm⟩ := hgoes (fun hnil => hab (by rw [hnil, List.append_nil])) hc
      exact .inr ⟨m, rfl, hm⟩
  · rintro (⟨m, rfl, rfl⟩ | ⟨m, rfl, rfl⟩)
    · simp
    · simp

/-- A marker whose first letter it does not repeat splits a text in one way at its last
occurrence. -/
theorem split_at_last {x : α} {m a b v w : List α} (hx : x ∉ m) (hv : ¬ (x :: m) <:+: v)
    (hw : ¬ (x :: m) <:+: w) (h : a ++ (x :: m ++ v) = b ++ (x :: m ++ w)) : a = b ∧ v = w := by
  have hshift {c v w : List α} (hv : ¬ (x :: m) <:+: v) (h : c ++ (x :: m ++ w) = x :: m ++ v) :
      c = [] := by
    cases c with
    | nil => rfl
    | cons y c =>
      have htail : c ++ (x :: m ++ w) = m ++ v := (List.cons.inj h).2
      rcases List.append_eq_append_iff.mp htail with ⟨d, hm, hd⟩ | ⟨d, rfl, hd⟩
      · cases d with
        | nil =>
          simp only [List.nil_append] at hd
          exact absurd ⟨[], w, by simpa using hd⟩ hv
        | cons z d =>
          have hz : x = z := (List.cons.inj hd).1
          exact absurd (hm ▸ List.mem_append_right c (hz ▸ List.mem_cons_self)) hx
      · exact absurd ⟨d, w, by rw [hd, List.append_assoc]⟩ hv
  rcases List.append_eq_append_iff.mp h with ⟨c, rfl, hc⟩ | ⟨c, rfl, hc⟩
  · obtain rfl := hshift hv hc.symm
    simpa using List.append_cancel_left hc
  · obtain rfl := hshift hw hc.symm
    simpa using (List.append_cancel_left hc).symm

theorem opened_injective {bar eq : α} {rows rows' : List (List α × List α)}
    (hrows : ∀ row ∈ rows, eq ∉ row.1 ∧ bar ∉ row.2)
    (hrows' : ∀ row ∈ rows', eq ∉ row.1 ∧ bar ∉ row.2)
    (h : opened bar eq rows = opened bar eq rows') : rows = rows' := by
  induction rows generalizing rows' with
  | nil =>
    cases rows' with
    | nil => rfl
    | cons row' rows' => simp at h
  | cons row rows ih =>
    cases rows' with
    | nil => simp at h
    | cons row' rows' =>
      simp only [opened_cons, List.cons.injEq, true_and] at h
      obtain ⟨hname, hvalue⟩ := hrows row List.mem_cons_self
      obtain ⟨hname', hvalue'⟩ := hrows' row' List.mem_cons_self
      obtain ⟨hnames, hrest⟩ := split_at_first hname hname' h
      obtain ⟨hvalues, hrest⟩ := split_before hvalue hvalue' (opened_startsWith bar eq rows)
        (opened_startsWith bar eq rows') hrest
      have htail := ih (fun r hr => hrows r (List.mem_cons_of_mem row hr))
        (fun r hr => hrows' r (List.mem_cons_of_mem row' hr)) hrest
      rw [htail, Prod.ext hnames hvalues]

theorem getLast_closed (x eq stop : α) (rows : List (List α × List α)) :
    (x :: closed eq stop rows).getLast? = some x ∨ (x :: closed eq stop rows).getLast? = some stop := by
  rcases List.eq_nil_or_concat rows with rfl | ⟨rows, row, rfl⟩
  · exact .inl rfl
  · refine .inr ?_
    rw [List.concat_eq_append, closed, List.flatMap_append]
    simp [List.getLast?_cons]

theorem closed_cons_ne {bar eq stop : α} {row : List α × List α} {rows : List (List α × List α)}
    {s t : List α} (heq : eq ≠ bar) (hrow : row.1.head? ≠ some bar) (hs : StartsWith bar s) :
    s ≠ closed eq stop (row :: rows) ++ t := by
  intro h
  rw [closed_cons] at h
  obtain ⟨name, value⟩ := row
  cases name with
  | nil =>
    rw [h] at hs
    exact heq (hs eq rfl)
  | cons c name =>
    rw [h] at hs
    exact hrow (congrArg some (hs c rfl))

theorem closed_append_injective {bar eq stop : α} (heq : eq ≠ bar)
    {rows rows' : List (List α × List α)} {s t : List α}
    (hrows : ∀ row ∈ rows, eq ∉ row.1 ∧ row.1.head? ≠ some bar ∧ stop ∉ row.2)
    (hrows' : ∀ row ∈ rows', eq ∉ row.1 ∧ row.1.head? ≠ some bar ∧ stop ∉ row.2)
    (hs : StartsWith bar s) (ht : StartsWith bar t)
    (h : closed eq stop rows ++ s = closed eq stop rows' ++ t) : rows = rows' ∧ s = t := by
  induction rows generalizing rows' with
  | nil =>
    cases rows' with
    | nil => exact ⟨rfl, h⟩
    | cons row' rows' =>
      exact absurd h (closed_cons_ne heq (hrows' row' List.mem_cons_self).2.1 hs)
  | cons row rows ih =>
    cases rows' with
    | nil => exact absurd h.symm (closed_cons_ne heq (hrows row List.mem_cons_self).2.1 ht)
    | cons row' rows' =>
      simp only [closed_cons, List.append_assoc, List.cons_append] at h
      obtain ⟨hname, -, hvalue⟩ := hrows row List.mem_cons_self
      obtain ⟨hname', -, hvalue'⟩ := hrows' row' List.mem_cons_self
      obtain ⟨hnames, hrest⟩ := split_at_first hname hname' h
      obtain ⟨hvalues, hrest⟩ := split_at_first hvalue hvalue' hrest
      obtain ⟨htail, hst⟩ := ih (fun r hr => hrows r (List.mem_cons_of_mem row hr))
        (fun r hr => hrows' r (List.mem_cons_of_mem row' hr)) hrest
      exact ⟨by rw [htail, Prod.ext hnames hvalues], hst⟩

section Padding
variable {p : α → Bool}

/-- A text without the padding at its ends. -/
def trimmed (p : α → Bool) (s : List α) : List α := ((s.dropWhile p).reverse.dropWhile p).reverse

theorem trimmed_eq_self {s : List α} (hs : ∀ c ∈ s, p c = false) : trimmed p s = s := by
  have hkept {t : List α} (ht : ∀ c ∈ t, p c = false) : t.dropWhile p = t := by
    cases t with
    | nil => rfl
    | cons c t => exact List.dropWhile_cons_of_neg (by simp [ht c List.mem_cons_self])
  rw [trimmed, hkept hs, hkept fun c hc => hs c (List.mem_reverse.mp hc), List.reverse_reverse]

theorem trimmed_pad_left {a : List α} (ha : ∀ c ∈ a, p c = true) (s : List α) :
    trimmed p (a ++ s) = trimmed p s := by
  rw [trimmed, List.dropWhile_append_of_pos ha, trimmed]

theorem trimmed_pad_right {b : List α} (hb : ∀ c ∈ b, p c = true) (s : List α) :
    trimmed p (s ++ b) = trimmed p s := by
  have hrev : ∀ c ∈ b.reverse, p c = true := fun c hc => hb c (List.mem_reverse.mp hc)
  rw [trimmed, List.dropWhile_append]
  split
  · rename_i hnil
    rw [trimmed, List.isEmpty_iff.mp hnil, List.dropWhile_eq_nil_iff.mpr hb]
  · rw [List.reverse_append, List.dropWhile_append_of_pos hrev, trimmed]

theorem trimmed_split (p : α → Bool) (s : List α) :
    ∃ a b, (∀ c ∈ a, p c = true) ∧ (∀ c ∈ b, p c = true) ∧ s = a ++ (trimmed p s ++ b) := by
  refine ⟨s.takeWhile p, ((s.dropWhile p).reverse.takeWhile p).reverse,
    fun c hc => List.mem_takeWhile_imp hc, fun c hc => List.mem_takeWhile_imp (List.mem_reverse.mp hc), ?_⟩
  rw [trimmed, ← List.reverse_append, List.takeWhile_append_dropWhile, List.reverse_reverse,
    List.takeWhile_append_dropWhile]

theorem mem_of_mem_trimmed {s : List α} {c : α} (hc : c ∈ trimmed p s) : c ∈ s := by
  obtain ⟨a, b, -, -, hs⟩ := trimmed_split p s
  rw [hs]
  exact List.mem_append_right a (List.mem_append_left b hc)

theorem rdropWhile_cons {c : α} (hc : p c = false) (s : List α) :
    (c :: s).rdropWhile p = c :: s.rdropWhile p := by
  rw [List.rdropWhile, List.reverse_cons, List.dropWhile_append]
  split
  · rename_i hnil
    rw [List.dropWhile_cons_of_neg (by simp [hc]), List.rdropWhile, List.isEmpty_iff.mp hnil]
    rfl
  · rw [List.reverse_append, List.rdropWhile]
    rfl

theorem trimmed_cons {c : α} (hc : p c = false) (s : List α) :
    trimmed p (c :: s) = c :: s.rdropWhile p := by
  rw [trimmed, List.dropWhile_cons_of_neg (by simp [hc])]
  exact rdropWhile_cons hc s

theorem trimmed_concat {c : α} (hc : p c = false) (s : List α) :
    trimmed p (s ++ [c]) = s.dropWhile p ++ [c] := by
  have hneg : ¬ p c = true := by simp [hc]
  have hdrop : (s ++ [c]).dropWhile p = s.dropWhile p ++ [c] := by
    rw [List.dropWhile_append]
    split
    · rename_i hnil
      rw [List.dropWhile_cons_of_neg hneg, List.isEmpty_iff.mp hnil, List.nil_append]
    · rfl
  rw [trimmed, hdrop]
  exact List.rdropWhile_concat_neg p (s.dropWhile p) c hneg

theorem ne_of_padding [DecidableEq α] {x : α} (hx : p x = false) {t : List α} (ht : ∀ c ∈ t, p c = true) :
    ∀ c ∈ t, decide (c ≠ x) = true := by
  intro c hc
  refine decide_eq_true ?_
  rintro rfl
  exact Bool.false_ne_true (hx.symm.trans (ht c hc))

/-- Where the text is cut at a letter that is no padding, it may be trimmed before or after. -/
theorem trimmed_takeWhile [DecidableEq α] {x : α} (hx : p x = false) (s : List α) :
    trimmed p ((trimmed p s).takeWhile (· ≠ x)) = trimmed p (s.takeWhile (· ≠ x)) := by
  obtain ⟨a, b, ha, hb, hs⟩ := trimmed_split p s
  have hne {t : List α} (ht : ∀ c ∈ t, p c = true) := ne_of_padding hx ht
  conv_rhs => rw [hs, List.takeWhile_append_of_pos (hne ha), trimmed_pad_left ha, List.takeWhile_append]
  split
  · rename_i hall
    have htake : (trimmed p s).takeWhile (· ≠ x) = trimmed p s :=
      (List.takeWhile_prefix _).eq_of_length hall
    rw [List.takeWhile_eq_self_iff.mpr (hne hb), trimmed_pad_right hb, htake]
  · rfl

theorem trimmed_dropWhile [DecidableEq α] {x : α} (hx : p x = false) (s : List α) :
    trimmed p (((trimmed p s).dropWhile (· ≠ x)).drop 1) = trimmed p ((s.dropWhile (· ≠ x)).drop 1) := by
  obtain ⟨a, b, ha, hb, hs⟩ := trimmed_split p s
  have hne {t : List α} (ht : ∀ c ∈ t, p c = true) := ne_of_padding hx ht
  conv_rhs => rw [hs, List.dropWhile_append_of_pos (hne ha), List.dropWhile_append]
  split
  · rename_i hnone
    rw [List.isEmpty_iff.mp hnone, List.dropWhile_eq_nil_iff.mpr (hne hb)]
  · rename_i hsome
    obtain ⟨c, rest, hrest⟩ := List.exists_cons_of_ne_nil fun h => hsome (List.isEmpty_iff.mpr h)
    rw [hrest, List.cons_append, List.drop_one, List.drop_one, List.tail_cons, List.tail_cons, trimmed_pad_right hb]

end Padding

section Stops
variable [DecidableEq α] {stops stops' : List α}

/-- A text up to the first of some letters. -/
def upTo (stops s : List α) : List α := s.takeWhile fun c => c ∉ stops

/-- A text from the first of some letters on. -/
def onward (stops s : List α) : List α := s.dropWhile fun c => c ∉ stops

theorem upTo_append_onward (stops s : List α) : upTo stops s ++ onward stops s = s :=
  List.takeWhile_append_dropWhile

theorem upTo_append {a : List α} (ha : ∀ c ∈ a, c ∉ stops) (s : List α) :
    upTo stops (a ++ s) = a ++ upTo stops s :=
  List.takeWhile_append_of_pos fun c hc => decide_eq_true (ha c hc)

theorem onward_append {a : List α} (ha : ∀ c ∈ a, c ∉ stops) (s : List α) :
    onward stops (a ++ s) = onward stops s :=
  List.dropWhile_append_of_pos fun c hc => decide_eq_true (ha c hc)

theorem onward_eq_nil {s : List α} : onward stops s = [] ↔ ∀ c ∈ s, c ∉ stops := by
  simp [onward]

theorem upTo_eq_nil {s : List α} : upTo stops s = [] ↔ ∀ c ∈ s.head?, c ∈ stops := by
  cases s with
  | nil => simp [upTo]
  | cons c s =>
    by_cases hc : c ∈ stops
    · simp [upTo, hc]
    · simp [upTo, hc]

theorem not_mem_of_mem_upTo {s : List α} {c : α} (hc : c ∈ upTo stops s) : c ∉ stops := by
  have hdecide := List.mem_takeWhile_imp hc
  exact of_decide_eq_true hdecide

theorem mem_of_mem_head_onward {s : List α} {c : α} (hc : c ∈ (onward stops s).head?) : c ∈ stops := by
  induction s with
  | nil => cases hc
  | cons d s ih =>
    by_cases hd : d ∈ stops
    · have hcd : d = c := by simpa [onward, hd] using hc
      exact hcd ▸ hd
    · exact ih (by simpa [onward, hd] using hc)

theorem mem_head_of_mem_head_upTo {s : List α} {c : α} (hc : c ∈ (upTo stops s).head?) : c ∈ s.head? := by
  cases s with
  | nil => cases hc
  | cons d s =>
    by_cases hd : d ∈ stops
    · simp [upTo, hd] at hc
    · simpa [upTo, hd] using hc

theorem upTo_upTo (s : List α) : upTo stops (upTo stops' s) = upTo (stops ++ stops') s := by
  simp [upTo, List.takeWhile_takeWhile]

theorem onward_upTo (s : List α) : onward stops (upTo stops' s) = upTo stops' (onward (stops ++ stops') s) := by
  induction s with
  | nil => rfl
  | cons c s ih =>
    by_cases hc : c ∈ stops'
    · simp [upTo, onward, hc]
    · by_cases hc' : c ∈ stops
      · simp [upTo, onward, hc, hc']
      · simpa [upTo, onward, hc, hc'] using ih

/-- What follows a text either is cut off with its end or is read on into. -/
theorem upTo_append_cases (stops a b : List α) : upTo stops (a ++ b) = upTo stops a ∨
    upTo stops (a ++ b) = a ++ upTo stops b ∧ upTo stops a = a ∧ onward stops a = [] := by
  by_cases ha : ∀ c ∈ a, c ∉ stops
  · refine .inr ⟨upTo_append ha b, ?_, onward_eq_nil.mpr ha⟩
    simpa [upTo] using upTo_append ha []
  · refine .inl ?_
    induction a with
    | nil => exact absurd (fun _ hc => absurd hc List.not_mem_nil) ha
    | cons c a ih =>
      by_cases hc : c ∈ stops
      · simp [upTo, hc]
      · have hrest : ¬ ∀ d ∈ a, d ∉ stops := fun h => ha (List.forall_mem_cons.mpr ⟨hc, h⟩)
        simpa [upTo, hc] using ih hrest

theorem onward_append_of_head {b : List α} (hb : ∀ c ∈ b.head?, c ∈ stops) (a : List α) :
    onward stops (a ++ b) = onward stops a ++ b := by
  induction a with
  | nil =>
    have hsplit := upTo_append_onward stops b
    rwa [upTo_eq_nil.mpr hb] at hsplit
  | cons c a ih =>
    by_cases hc : c ∈ stops
    · simp [onward, hc]
    · simpa [onward, hc] using ih

theorem onward_append_of_ne_nil {a : List α} (ha : onward stops a ≠ []) (b : List α) :
    onward stops (a ++ b) = onward stops a ++ b := by
  induction a with
  | nil => exact absurd rfl ha
  | cons c a ih =>
    by_cases hc : c ∈ stops
    · simp [onward, hc]
    · have hrest : onward stops a ≠ [] := by simpa [onward, hc] using ha
      simpa [onward, hc] using ih hrest

end Stops

section Joined
variable {x : α}

theorem intercalate_concat_append (rows : List (List α)) (row b : List α) :
    [x].intercalate (rows ++ [row ++ b]) = [x].intercalate (rows ++ [row]) ++ b := by
  induction rows with
  | nil => simp
  | cons first rows ih =>
    cases rows with
    | nil => simp [List.intercalate_cons_cons]
    | cons next rows =>
      simp only [List.cons_append, List.intercalate_cons_cons, List.append_assoc] at ih ⊢
      rw [ih]

theorem subset_intercalate {rows : List (List α)} {row : List α} (hrow : row ∈ rows) :
    row ⊆ [x].intercalate rows := by
  induction rows with
  | nil => exact absurd hrow List.not_mem_nil
  | cons first rows ih =>
    cases rows with
    | nil =>
      obtain rfl := List.mem_singleton.mp hrow
      simp
    | cons next rows =>
      rw [List.intercalate_cons_cons]
      rcases List.mem_cons.mp hrow with rfl | hrow
      · exact fun c hc => List.mem_append_left _ (List.mem_append_left _ hc)
      · exact fun c hc => List.mem_append_right _ (ih hrow hc)

variable [DecidableEq α]

theorem subset_of_mem_splitOn {s piece : List α} (h : piece ∈ s.splitOn x) : piece ⊆ s := by
  have hsub := subset_intercalate (x := x) h
  rwa [List.intercalate_splitOn] at hsub

theorem not_mem_of_mem_splitOn {s piece : List α} (h : piece ∈ s.splitOn x) : x ∉ piece := by
  induction s generalizing piece with
  | nil =>
    obtain rfl := List.mem_singleton.mp h
    exact List.not_mem_nil
  | cons c s ih =>
    rw [List.splitOn_cons_eq_if_modifyHead] at h
    split at h
    · rcases List.mem_cons.mp h with rfl | hpiece
      · exact List.not_mem_nil
      · exact ih hpiece
    · rename_i hc
      cases hs : s.splitOn x with
      | nil => exact absurd hs (List.splitOn_ne_nil x s)
      | cons first rest =>
        rw [hs] at h ih
        rcases List.mem_cons.mp h with rfl | hpiece
        · intro hmem
          rcases List.mem_cons.mp hmem with rfl | hmem
          · exact hc (beq_self_eq_true x)
          · exact ih List.mem_cons_self hmem
        · exact ih (List.mem_cons_of_mem first hpiece)

theorem splitOn_intercalate_flatMap {rows : List (List α)} (h : rows ≠ []) :
    ([x].intercalate rows).splitOn x = rows.flatMap fun row => row.splitOn x := by
  induction rows with
  | nil => exact absurd rfl h
  | cons row rows ih =>
    cases rows with
    | nil => simp
    | cons next rows =>
      rw [List.intercalate_cons_cons, List.append_assoc, List.singleton_append, List.splitOn_append_cons_self,
        ih (List.cons_ne_nil next rows)]
      rfl

/-- A join is undone exactly if it is of some texts that do not hold the separator. -/
theorem splitOn_intercalate_iff {rows : List (List α)} :
    ([x].intercalate rows).splitOn x = rows ↔ rows ≠ [] ∧ ∀ row ∈ rows, x ∉ row := by
  constructor
  · intro h
    rw [← h]
    exact ⟨List.splitOn_ne_nil x _, fun row hrow => not_mem_of_mem_splitOn hrow⟩
  · rintro ⟨hne, hrows⟩
    exact List.splitOn_intercalate x hrows hne

theorem exists_pieces_of_mem {s : List α} (h : x ∈ s) :
    ∃ first inner last, s.splitOn x = first :: (inner ++ [last]) := by
  obtain ⟨a, b, rfl⟩ := List.append_of_mem h
  obtain ⟨first, rest, hfirst⟩ := List.exists_cons_of_ne_nil (List.splitOn_ne_nil x a)
  rcases List.eq_nil_or_concat (b.splitOn x) with hb | ⟨inner, last, hlast⟩
  · exact absurd hb (List.splitOn_ne_nil x b)
  · refine ⟨first, rest ++ inner, last, ?_⟩
    rw [List.splitOn_append_cons_self, hfirst, hlast, List.concat_eq_append, List.cons_append, List.append_assoc]

theorem splitOn_prepend {a s first : List α} {rest : List (List α)} (ha : x ∉ a)
    (hs : s.splitOn x = first :: rest) : (a ++ s).splitOn x = (a ++ first) :: rest := by
  induction a with
  | nil => exact hs
  | cons c a ih =>
    have hc : ¬ (c == x) = true := fun h => ha (beq_iff_eq.mp h ▸ List.mem_cons_self)
    rw [List.cons_append, List.splitOn_cons_eq_if_modifyHead, if_neg hc, ih fun h => ha (List.mem_cons_of_mem c h)]
    rfl

theorem splitOn_extend {b s last : List α} {rest : List (List α)} (hb : x ∉ b)
    (hs : s.splitOn x = rest ++ [last]) : (s ++ b).splitOn x = rest ++ [last ++ b] := by
  have hjoin : [x].intercalate (rest ++ [last ++ b]) = s ++ b := by
    rw [intercalate_concat_append, ← hs, List.intercalate_splitOn]
  have hpieces : ∀ piece ∈ rest ++ [last], x ∉ piece := by
    intro piece hpiece
    rw [← hs] at hpiece
    exact not_mem_of_mem_splitOn hpiece
  rw [← hjoin]
  refine List.splitOn_intercalate x ?_ (List.append_ne_nil_of_right_ne_nil rest (List.cons_ne_nil _ _))
  intro piece hpiece
  rcases List.mem_append.mp hpiece with hrest | hlast
  · exact hpieces piece (List.mem_append_left _ hrest)
  · obtain rfl := List.mem_singleton.mp hlast
    have hx : x ∉ last := hpieces last (List.mem_append_right rest List.mem_cons_self)
    exact fun h => (List.mem_append.mp h).elim hx hb

/-- What is put around a text that holds the separator goes to its first and to its last piece. -/
theorem splitOn_around {a b s first last : List α} {inner : List (List α)} (ha : x ∉ a) (hb : x ∉ b)
    (hs : s.splitOn x = first :: (inner ++ [last])) :
    (a ++ (s ++ b)).splitOn x = (a ++ first) :: (inner ++ [last ++ b]) := by
  have hend : (s ++ b).splitOn x = (first :: inner) ++ [last ++ b] := splitOn_extend hb hs
  exact splitOn_prepend ha hend

end Joined

section Elements
variable {β : Type v} {p : α → Bool}

/-- An element of a list: an item, if there is one, with padding around it. -/
structure ListElement (p : α → Bool) (β : Type v) where
  before : List α
  item : Option β
  after : List α
  blank : (before ++ after).all p = true

def ListElement.render (write : β → List α) (e : ListElement p β) : List α :=
  e.before ++ (e.item.elim [] write ++ e.after)

theorem ListElement.before_blank (e : ListElement p β) : ∀ c ∈ e.before, p c = true :=
  fun c hc => List.all_eq_true.mp e.blank c (List.mem_append_left e.after hc)

theorem ListElement.after_blank (e : ListElement p β) : ∀ c ∈ e.after, p c = true :=
  fun c hc => List.all_eq_true.mp e.blank c (List.mem_append_right e.before hc)

end Elements

end ApiGateway.Delimiters
