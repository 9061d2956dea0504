import ApiGateway.LruRuns

/-!
# What an eviction is for

`Set` puts the entry in front and cuts from the cold end until both bounds hold. What it cuts then
had to go: the most recently used of the entries it took out would not fit beside those that are
left. Not so for an entry that is larger than `maxBytes` by itself. The loop takes out everything
else before it comes to that entry, and ends with an empty cache.
-/

namespace ApiGateway.Lru

open Recency
set_option autoImplicit false

/-- The `Set` takes out an entry of another key. -/
structure Displaced (g : Traced) (key : String) (entry : Entry) (x : Element) : Prop where
  held : x ∈ g.lru.order
  other : x.key ≠ key
  gone : x ∉ (set g.lru key entry).order

/-- The one of them that was used last does not fit beside the entries that are left. -/
def NoWaste (maxEntries maxBytes : Int) (g : Traced) (key : String) (entry : Entry) : Prop :=
  ∀ x, Displaced g key entry x → (∀ y, Displaced g key entry y → g.touched y.key ≤ g.touched x.key) →
    ¬ Fits maxEntries maxBytes (x :: (set g.lru key entry).order)

/-- The entry does not fit by itself, and others are held. -/
structure Oversized (maxBytes : Int) (g : Traced) (key : String) (entry : Entry) : Prop where
  bounded : 0 < maxBytes
  larger : maxBytes < entry.size
  others : ∃ x ∈ g.lru.order, x.key ≠ key

variable {maxEntries maxBytes : Int} {g : Traced} {key : String} {entry : Entry}

theorem Fits.of_perm {l m : List Element} (h : Fits maxEntries maxBytes m) (hp : l.Perm m) :
    Fits maxEntries maxBytes l where
  entries hpos := by
    rw [hp.length_eq]
    exact h.entries hpos
  bytes hpos := by
    rw [totalSize_perm hp]
    exact h.bytes hpos

theorem not_fits_singleton {el : Element} :
    ¬ Fits maxEntries maxBytes [el] ↔ 0 < maxBytes ∧ maxBytes < el.entry.size := by
  constructor
  · intro hnot
    by_contra hsmall
    refine hnot ⟨fun hpos => ?_, fun hpos => ?_⟩
    · rw [List.length_singleton]
      omega
    · rw [totalSize_cons, totalSize_nil]
      omega
  · rintro ⟨hpos, hlarge⟩ hfits
    have hle := hfits.bytes hpos
    rw [totalSize_cons, totalSize_nil] at hle
    omega

/-- The held entries of other keys, in their order. -/
def others (g : Traced) (key : String) : List Element := g.lru.order.filter fun x => x.key ≠ key

theorem mem_others {x : Element} : x ∈ others g key ↔ x ∈ g.lru.order ∧ x.key ≠ key := by
  rw [others, List.mem_filter, decide_eq_true_eq]

section Set
variable (h : Sound maxEntries maxBytes g)
include h

theorem Sound.ranked_others (key : String) : Ranked (fun el => g.touched el.key) (others g key) :=
  List.Pairwise.sublist List.filter_sublist h.ranked

theorem Sound.evicted (key : String) (entry : Entry) :
    Longest (Fits maxEntries maxBytes) (⟨g.lru.next, key, entry⟩ :: others g key) (set g.lru key entry).order := by
  obtain ⟨-, hev⟩ := h.inserted key entry
  obtain ⟨-, -, -, ho⟩ := inserted_spec h.rep key entry
  have horder := hev.order
  rwa [ho] at horder

/-- Either the entry itself does not fit and nothing is left, or it is left in front of the others
that were used last. -/
theorem Sound.set_order (key : String) (entry : Entry) :
    ((0 < maxBytes ∧ maxBytes < entry.size) ∧ (set g.lru key entry).order = []) ∨
      ∃ kept gone, others g key = kept ++ gone ∧
        (set g.lru key entry).order = ⟨g.lru.next, key, entry⟩ :: kept := by
  have hlongest := h.evicted key entry
  obtain ⟨gone, hgone⟩ := hlongest.initial
  cases hset : (set g.lru key entry).order with
  | nil =>
    rw [hset] at hlongest
    have hnot := hlongest.next_not (List.nil_append _).symm
    rw [List.nil_append] at hnot
    exact .inl ⟨not_fits_singleton.mp hnot, rfl⟩
  | cons el kept =>
    rw [hset, List.cons_append] at hgone
    obtain ⟨rfl, hothers⟩ := List.cons.inj hgone
    exact .inr ⟨kept, gone, hothers.symm, rfl⟩

theorem Sound.noWaste_of_fits {kept gone : List Element} (hothers : others g key = kept ++ gone)
    (hset : (set g.lru key entry).order = ⟨g.lru.next, key, entry⟩ :: kept) :
    NoWaste maxEntries maxBytes g key entry := by
  intro x hx hlast hfits
  have hlongest := h.evicted key entry
  have hranked : Ranked (fun el => g.touched el.key) gone :=
    List.Pairwise.sublist (by rw [hothers]; exact List.sublist_append_right kept gone) (h.ranked_others key)
  have hmem : x ∈ gone := by
    have hx' : x ∈ kept ++ gone := hothers ▸ mem_others.mpr ⟨hx.held, hx.other⟩
    rcases List.mem_append.mp hx' with hkept | hgone
    · exact absurd (by rw [hset]; exact List.mem_cons_of_mem _ hkept) hx.gone
    · exact hgone
  cases gone with
  | nil => cases hmem
  | cons y rest =>
    -- the first entry that was cut off is the one used last
    have hnodup : (kept ++ y :: rest).Nodup := hothers ▸ (h.ranked_others key).nodup
    have hfirst : y ∈ others g key := hothers ▸ List.mem_append_right kept List.mem_cons_self
    obtain ⟨hheld, hother⟩ := mem_others.mp hfirst
    have hy : Displaced g key entry y := by
      refine ⟨hheld, hother, ?_⟩
      rw [hset]
      intro hin
      rcases List.mem_cons.mp hin with rfl | hin
      · exact hother rfl
      · exact List.disjoint_of_nodup_append hnodup hin List.mem_cons_self
    obtain rfl := hranked.eq_head hmem (hlast y hy)
    rw [hset] at hfits hlongest
    refine hlongest.next_not (x := x) (r := rest) ?_ (hfits.of_perm (List.perm_append_singleton x _))
    rw [hothers]
    rfl

theorem Sound.wasted_of_oversized (hover : Oversized maxBytes g key entry) :
    (set g.lru key entry).order = [] ∧ ¬ NoWaste maxEntries maxBytes g key entry := by
  have hempty : (set g.lru key entry).order = [] := by
    rcases h.set_order key entry with ⟨-, hempty⟩ | ⟨kept, gone, -, hset⟩
    · exact hempty
    · have hfits := (h.evicted key entry).holds
      rw [hset] at hfits
      exact absurd (hfits.of_sublist (List.cons_sublist_cons.mpr (List.nil_sublist kept)))
        (not_fits_singleton.mpr ⟨hover.bounded, hover.larger⟩)
  refine ⟨hempty, fun hnone => ?_⟩
  obtain ⟨z, hz, hzkey⟩ := hover.others
  cases hothers : others g key with
  | nil =>
    have hmem := mem_others.mpr ⟨hz, hzkey⟩
    rw [hothers] at hmem
    cases hmem
  | cons x rest =>
    obtain ⟨hheld, hother⟩ := mem_others.mp (hothers ▸ List.mem_cons_self : x ∈ others g key)
    have hranked := h.ranked_others key
    rw [hothers] at hranked
    refine hnone x ⟨hheld, hother, by simp [hempty]⟩ (fun y hy => ?_) ?_
    · have hmem := mem_others.mpr ⟨hy.held, hy.other⟩
      rw [hothers] at hmem
      rcases List.mem_cons.mp hmem with rfl | hrest
      · exact Nat.le_refl _
      · exact Nat.le_of_lt ((List.pairwise_cons.mp hranked).1 y hrest)
    · rw [hempty]
      exact h.fits.of_sublist (List.singleton_sublist.mpr hheld)

theorem Sound.noWaste_iff : NoWaste maxEntries maxBytes g key entry ↔ ¬ Oversized maxBytes g key entry := by
  constructor
  · intro hnone hover
    exact (h.wasted_of_oversized hover).2 hnone
  · intro hnot
    rcases h.set_order key entry with ⟨⟨hbounded, hlarger⟩, -⟩ | ⟨kept, gone, hothers, hset⟩
    · intro x hx _ _
      exact hnot ⟨hbounded, hlarger, x, hx.held, hx.other⟩
    · exact h.noWaste_of_fits hothers hset

end Set

/-- In every state the LRU can reach, a `Set` displaces no entry that could have stayed, except
where it sets an entry larger than `maxBytes` beside others. -/
theorem eviction_noWaste_iff (maxEntries maxBytes : Int) (ops : List Op) (key : String) (entry : Entry) :
    NoWaste maxEntries maxBytes (after maxEntries maxBytes ops) key entry ↔
      ¬ Oversized maxBytes (after maxEntries maxBytes ops) key entry :=
  (sound_after maxEntries maxBytes ops).noWaste_iff

/-- A warm cache of three bytes, and a response of four: nothing is held afterwards, although
each of the two entries fits. -/
theorem oversized_empties :
    let g := after 8 3 [.set "a" (bodyEntry [1] 9), .set "b" (bodyEntry [2] 9)]
    (g.lru.order.map Element.key = ["b", "a"]) ∧
      (set g.lru "c" (bodyEntry [1, 2, 3, 4] 9)).order = [] ∧
      ¬ NoWaste 8 3 g "c" (bodyEntry [1, 2, 3, 4] 9) := by
  intro g
  have hover : Oversized 3 g "c" (bodyEntry [1, 2, 3, 4] 9) :=
    ⟨by decide, by decide, ⟨1, "b", bodyEntry [2] 9⟩, by decide +kernel, by decide⟩
  obtain ⟨hempty, hwaste⟩ := (sound_after 8 3 _).wasted_of_oversized hover
  exact ⟨by decide +kernel, hempty, hwaste⟩

end ApiGateway.Lru
