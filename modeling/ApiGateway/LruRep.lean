import ApiGateway.Lru
import ApiGateway.Recency
import Mathlib.Algebra.BigOperators.Group.List.Basic
import Mathlib.Algebra.Order.Ring.Int

/-!
# The three pieces of the LRU's state

The list, the index and the byte counter of `lru.go` describe one set of entries (`Rep`).
Every part of `Set` and `Get` keeps that, and what each part does is said here as an effect
on the list alone: removing, moving to the front and inserting as splits of it, and the two
loops of `evict` as the longest prefix that fits.
-/

namespace ApiGateway.Lru

open Recency
set_option autoImplicit false

def totalSize (l : List Element) : Int := (l.map fun el => el.entry.size).sum

/-- The three pieces of state agree: every element has its own number and its own key, the
index finds exactly the listed elements, and the counter is the sum of their sizes. -/
structure Rep (c : LRU) : Prop where
  ids : (c.order.map Element.id).Nodup
  next : ∀ el ∈ c.order, el.id < c.next
  keys : (c.order.map Element.key).Nodup
  index : ∀ key el, c.index key = some el ↔ el ∈ c.order ∧ el.key = key
  bytes : c.bytes = totalSize c.order

/-- A non-positive bound is no bound. -/
structure Fits (maxEntries maxBytes : Int) (l : List Element) : Prop where
  entries : 0 < maxEntries → (l.length : Int) ≤ maxEntries
  bytes : 0 < maxBytes → totalSize l ≤ maxBytes

instance (maxEntries maxBytes : Int) (l : List Element) : Decidable (Fits maxEntries maxBytes l) :=
  decidable_of_iff ((0 < maxEntries → (l.length : Int) ≤ maxEntries) ∧ (0 < maxBytes → totalSize l ≤ maxBytes))
    ⟨fun h => ⟨h.1, h.2⟩, fun h => ⟨h.entries, h.bytes⟩⟩

@[simp] theorem totalSize_nil : totalSize [] = 0 := rfl

@[simp] theorem totalSize_cons (el : Element) (l : List Element) :
    totalSize (el :: l) = el.entry.size + totalSize l := by
  simp [totalSize]

@[simp] theorem totalSize_append (l m : List Element) :
    totalSize (l ++ m) = totalSize l + totalSize m := by
  simp [totalSize]

theorem size_nonneg (e : Entry) : 0 ≤ e.size := Int.natCast_nonneg _

theorem totalSize_nonneg (l : List Element) : 0 ≤ totalSize l := by
  induction l with
  | nil => exact Int.le_refl 0
  | cons el l ih =>
    rw [totalSize_cons]
    have h := size_nonneg el.entry
    omega

theorem totalSize_perm {l m : List Element} (h : l.Perm m) : totalSize l = totalSize m :=
  (h.map _).sum_eq

theorem totalSize_le_of_sublist {l m : List Element} (h : l.Sublist m) : totalSize l ≤ totalSize m := by
  induction h with
  | slnil => exact Int.le_refl 0
  | cons el _ ih =>
    rw [totalSize_cons]
    have hel := size_nonneg el.entry
    omega
  | cons_cons el _ ih =>
    rw [totalSize_cons, totalSize_cons]
    omega

theorem Fits.of_sublist {maxEntries maxBytes : Int} {l m : List Element} (h : Fits maxEntries maxBytes m)
    (hl : l.Sublist m) : Fits maxEntries maxBytes l where
  entries := by
    intro hpos
    have hle := h.entries hpos
    have hlen := hl.length_le
    omega
  bytes := fun hpos => (totalSize_le_of_sublist hl).trans (h.bytes hpos)

theorem rep_newLRU (maxEntries maxBytes : Int) : Rep (newLRU maxEntries maxBytes) where
  ids := List.nodup_nil
  next := by
    intro el hel
    cases hel
  keys := List.nodup_nil
  index := by
    intro key el
    simp [newLRU]
  bytes := rfl

section Element
variable {c : LRU} {p r : List Element} {el : Element}

/-- Elements are told apart by their numbers, so removing one by its number leaves the others
in their order. -/
theorem filter_others (h : ((p ++ el :: r).map Element.id).Nodup) :
    (p ++ el :: r).filter (fun x => x.id ≠ el.id) = p ++ r := by
  rw [List.map_append, List.map_cons] at h
  obtain ⟨_, hcons, hdis⟩ := List.nodup_append.mp h
  have hp : p.filter (fun x => x.id ≠ el.id) = p := by
    refine List.filter_eq_self.mpr ?_
    intro x hx
    exact decide_eq_true (hdis x.id (List.mem_map_of_mem hx) el.id List.mem_cons_self)
  have hr : r.filter (fun x => x.id ≠ el.id) = r := by
    refine List.filter_eq_self.mpr ?_
    intro x hx
    refine decide_eq_true ?_
    intro heq
    exact (List.nodup_cons.mp hcons).1 (heq ▸ List.mem_map_of_mem hx)
  simp only [List.filter_append, List.filter_cons, hp, hr, ne_eq, not_true_eq_false, decide_false,
    Bool.false_eq_true, if_false]

theorem removeElement_order (h : Rep c) (ho : c.order = p ++ el :: r) :
    (removeElement c el).order = p ++ r := by
  have hids := h.ids
  rw [ho] at hids
  unfold removeElement
  dsimp only
  rw [ho]
  exact filter_others hids

theorem Rep.eq_of_key (h : Rep c) {x y : Element} (hx : x ∈ c.order) (hy : y ∈ c.order)
    (hxy : x.key = y.key) : x = y :=
  List.inj_on_of_nodup_map h.keys hx hy hxy

theorem not_mem_others (h : Rep c) (ho : c.order = p ++ el :: r) : el ∉ p ++ r := by
  have hids := h.ids
  rw [ho] at hids
  have hnd : (p ++ el :: r).Nodup := hids.of_map
  rw [List.nodup_middle] at hnd
  exact (List.nodup_cons.mp hnd).1

/-- The key is found at no other place of the list. -/
theorem Rep.key_others (h : Rep c) {p r : List Element} {el : Element} (ho : c.order = p ++ el :: r) :
    ∀ x ∈ p ++ r, x.key ≠ el.key := by
  intro x hx hkey
  have hmem : x ∈ c.order := by
    rw [ho]
    exact ((List.sublist_cons_self el r).append_left p).subset hx
  obtain rfl := h.eq_of_key hmem (by simp [ho]) hkey
  exact not_mem_others h ho hx

theorem rep_removeElement (h : Rep c) (ho : c.order = p ++ el :: r) : Rep (removeElement c el) where
  ids := by
    rw [removeElement_order h ho]
    exact h.ids.sublist (by rw [ho]; exact ((List.sublist_cons_self el r).append_left p).map _)
  next := by
    intro x hx
    rw [removeElement_order h ho] at hx
    refine h.next x ?_
    rw [ho]
    exact ((List.sublist_cons_self el r).append_left p).subset hx
  keys := by
    rw [removeElement_order h ho]
    exact h.keys.sublist (by rw [ho]; exact ((List.sublist_cons_self el r).append_left p).map _)
  index := by
    intro key x
    rw [removeElement_order h ho]
    change Function.update c.index el.key none key = some x ↔ _
    by_cases hk : key = el.key
    · subst hk
      rw [Function.update_self]
      refine iff_of_false (by simp) ?_
      rintro ⟨hx, hkey⟩
      exact h.key_others ho x hx hkey
    · rw [Function.update_of_ne hk, h.index, ho]
      refine and_congr_left ?_
      intro hkey
      have hne : x ≠ el := by
        rintro rfl
        exact hk hkey.symm
      simp [hne]
  bytes := by
    rw [removeElement_order h ho]
    change c.bytes - el.entry.size = _
    rw [h.bytes, ho]
    simp only [totalSize_append, totalSize_cons]
    omega

theorem moveToFront_order (h : Rep c) (ho : c.order = p ++ el :: r) :
    moveToFront c.order el = el :: (p ++ r) := by
  have hids := h.ids
  rw [ho] at hids ⊢
  rw [moveToFront, if_pos (by simp), filter_others hids]

theorem moveToFront_perm (h : Rep c) (ho : c.order = p ++ el :: r) :
    (moveToFront c.order el).Perm c.order := by
  rw [moveToFront_order h ho, ho]
  exact List.perm_middle.symm

theorem rep_moveToFront (h : Rep c) (ho : c.order = p ++ el :: r) :
    Rep {c with order := moveToFront c.order el} := by
  have hperm := moveToFront_perm h ho
  refine ⟨(hperm.map _).nodup_iff.mpr h.ids, fun x hx => h.next x (hperm.subset hx),
    (hperm.map _).nodup_iff.mpr h.keys, ?_, h.bytes.trans (totalSize_perm hperm.symm)⟩
  intro key x
  rw [hperm.mem_iff]
  exact h.index key x

theorem Rep.key_ne_of_free (h : Rep c) {key : String} (hkey : c.index key = none) {x : Element}
    (hx : x ∈ c.order) : x.key ≠ key := by
  intro hk
  have hfound := (h.index key x).mpr ⟨hx, hk⟩
  rw [hkey] at hfound
  cases hfound

theorem rep_pushFront (h : Rep c) {key : String} (hkey : c.index key = none) (e : Entry) :
    Rep (pushFront c key e) where
  ids := by
    refine List.nodup_cons.mpr ⟨?_, h.ids⟩
    intro hmem
    obtain ⟨x, hx, hid⟩ := List.mem_map.mp hmem
    have hlt := h.next x hx
    change x.id = c.next at hid
    omega
  next := by
    intro x hx
    change x.id < c.next + 1
    rcases List.mem_cons.mp hx with rfl | hx'
    · exact Nat.lt_succ_self _
    · exact Nat.lt_succ_of_lt (h.next x hx')
  keys := by
    refine List.nodup_cons.mpr ⟨?_, h.keys⟩
    intro hmem
    obtain ⟨x, hx, hk⟩ := List.mem_map.mp hmem
    exact h.key_ne_of_free hkey hx hk
  index := by
    intro k x
    change Function.update c.index key _ k = some x ↔ x ∈ _ :: c.order ∧ _
    by_cases hk : k = key
    · subst hk
      rw [Function.update_self, List.mem_cons]
      constructor
      · intro hx
        cases hx
        exact ⟨.inl rfl, rfl⟩
      · rintro ⟨rfl | hx, hxk⟩
        · rfl
        · exact absurd hxk (h.key_ne_of_free hkey hx)
    · rw [Function.update_of_ne hk, h.index, List.mem_cons]
      refine and_congr_left ?_
      intro hxk
      constructor
      · exact .inr
      · rintro (rfl | hx)
        · exact absurd hxk.symm hk
        · exact hx
  bytes := by
    change c.bytes + e.size = totalSize (_ :: c.order)
    rw [h.bytes, totalSize_cons]
    exact Int.add_comm _ _

end Element

section Evict

theorem eq_concat_of_getLast {l : List Element} {back : Element} (h : l.getLast? = some back) :
    l = l.dropLast ++ [back] := by
  obtain ⟨init, rfl⟩ := List.getLast?_eq_some_iff.mp h
  simp

def EntriesFit (maxEntries : Int) (l : List Element) : Prop := 0 < maxEntries → (l.length : Int) ≤ maxEntries

def BytesFit (maxBytes : Int) (l : List Element) : Prop := 0 < maxBytes → totalSize l ≤ maxBytes

/-- What an eviction loop leaves: the same bounds, agreeing state, and the longest prefix with `P`. -/
structure Evicted (P : List Element → Prop) (c c' : LRU) : Prop where
  rep : Rep c'
  maxEntries : c'.maxEntries = c.maxEntries
  maxBytes : c'.maxBytes = c.maxBytes
  order : Longest P c.order c'.order

/-- A turn of a loop whose condition is that `P` fails: the last element goes. -/
theorem Evicted.turn {P : List Element → Prop} {c c' : LRU} {back : Element} (h : Rep c)
    (hback : c.order.getLast? = some back) (hnot : ¬ P c.order)
    (hrest : Evicted P (removeElement c back) c') : Evicted P c c' where
  rep := hrest.rep
  maxEntries := hrest.maxEntries
  maxBytes := hrest.maxBytes
  order := by
    have ho := eq_concat_of_getLast hback
    have hlongest := hrest.order
    rw [removeElement_order h ho, List.append_nil] at hlongest
    rw [ho] at hnot ⊢
    exact longest_concat hnot hlongest

theorem evicted_self {P : List Element → Prop} {c : LRU} (h : Rep c) (hP : P c.order) : Evicted P c c :=
  ⟨h, rfl, rfl, longest_self hP⟩

theorem evictEntries_spec (fuel : Nat) {c : LRU} (h : Rep c) (hfuel : c.order.length ≤ fuel) :
    Evicted (EntriesFit c.maxEntries) c (evictEntries fuel c) := by
  induction fuel generalizing c with
  | zero =>
    refine evicted_self h ?_
    intro hpos
    omega
  | succ fuel ih =>
    unfold evictEntries
    split
    · rename_i back hback
      have ho := eq_concat_of_getLast hback
      split
      · rename_i hover
        refine .turn h hback (fun hfit => ?_) (ih (rep_removeElement h ho) ?_)
        · exact absurd (hfit hover.1) (not_le.mpr hover.2)
        · rw [removeElement_order h ho, List.append_nil, List.length_dropLast]
          omega
      · rename_i hover
        refine evicted_self h ?_
        intro hpos
        exact not_lt.mp fun hlt => hover ⟨hpos, hlt⟩
    · rename_i hback
      refine evicted_self h ?_
      intro hpos
      rw [List.getLast?_eq_none_iff.mp hback]
      exact hpos.le

theorem evictBytes_spec (fuel : Nat) {c : LRU} (h : Rep c) (hfuel : c.order.length ≤ fuel) :
    Evicted (BytesFit c.maxBytes) c (evictBytes fuel c) := by
  induction fuel generalizing c with
  | zero =>
    refine evicted_self h ?_
    intro hpos
    rw [List.length_eq_zero_iff.mp (Nat.le_zero.mp hfuel)]
    exact hpos.le
  | succ fuel ih =>
    unfold evictBytes
    split
    · rename_i hover
      rw [h.bytes] at hover
      split
      · rename_i back hback
        have ho := eq_concat_of_getLast hback
        refine .turn h hback (fun hfit => ?_) (ih (rep_removeElement h ho) ?_)
        · exact absurd (hfit hover.1) (not_le.mpr hover.2)
        · rw [removeElement_order h ho, List.append_nil, List.length_dropLast]
          omega
      · rename_i hback
        rw [List.getLast?_eq_none_iff.mp hback, totalSize_nil] at hover
        exact absurd hover.2 (not_lt.mpr hover.1.le)
    · rename_i hover
      refine evicted_self h ?_
      intro hpos
      rw [h.bytes] at hover
      exact not_lt.mp fun hlt => hover ⟨hpos, hlt⟩

theorem evict_spec {c : LRU} (h : Rep c) : Evicted (Fits c.maxEntries c.maxBytes) c (evict c) := by
  have hentries := evictEntries_spec c.order.length h (Nat.le_refl _)
  have hbytes := evictBytes_spec (evictEntries c.order.length c).order.length hentries.rep (Nat.le_refl _)
  refine ⟨hbytes.rep, hbytes.maxEntries.trans hentries.maxEntries,
    hbytes.maxBytes.trans hentries.maxBytes, ?_⟩
  have hclosed : ∀ p q : List Element, p <+: q → EntriesFit c.maxEntries q → EntriesFit c.maxEntries p := by
    intro p q hpq hq hpos
    have hle := hq hpos
    have hlen := hpq.length_le
    omega
  have hb := hbytes.order
  rw [hentries.maxBytes] at hb
  have hboth := hentries.order.and hclosed hb
  exact ⟨hboth.initial, ⟨hboth.holds.1, hboth.holds.2⟩,
    fun p hp hfit => hboth.longest p hp ⟨hfit.entries, hfit.bytes⟩⟩

end Evict

section Calls
variable {c : LRU}

/-- The state of `Set` between the insertion and the eviction. -/
def inserted (c : LRU) (key : String) (e : Entry) : LRU :=
  pushFront (match c.index key with
    | some el => removeElement c el
    | none => c) key e

theorem set_eq_evict (c : LRU) (key : String) (e : Entry) : set c key e = evict (inserted c key e) := rfl

theorem Rep.split (h : Rep c) {key : String} {el : Element} (hel : c.index key = some el) :
    el.key = key ∧ ∃ p r, c.order = p ++ el :: r := by
  obtain ⟨hmem, hkey⟩ := (h.index key el).mp hel
  exact ⟨hkey, List.append_of_mem hmem⟩

theorem inserted_spec (h : Rep c) (key : String) (e : Entry) :
    Rep (inserted c key e) ∧ (inserted c key e).maxEntries = c.maxEntries ∧
      (inserted c key e).maxBytes = c.maxBytes ∧
      (inserted c key e).order = ⟨c.next, key, e⟩ :: c.order.filter fun x => x.key ≠ key := by
  unfold inserted
  cases hi : c.index key with
  | none =>
    refine ⟨rep_pushFront h hi e, rfl, rfl, ?_⟩
    have hall : c.order.filter (fun x => x.key ≠ key) = c.order := by
      refine List.filter_eq_self.mpr ?_
      intro x hx
      exact decide_eq_true (h.key_ne_of_free hi hx)
    rw [hall]
    rfl
  | some el =>
    obtain ⟨rfl, p, r, ho⟩ := h.split hi
    have hrem := rep_removeElement h ho
    have hnone : (removeElement c el).index el.key = none := Function.update_self ..
    refine ⟨rep_pushFront hrem hnone e, rfl, rfl, ?_⟩
    have hothers : c.order.filter (fun x => x.key ≠ el.key) = p ++ r := by
      have hkeys := h.key_others ho
      have hself : (p ++ r).filter (fun x => x.key ≠ el.key) = p ++ r :=
        List.filter_eq_self.mpr fun x hx => decide_eq_true (hkeys x hx)
      rw [ho, ← hself]
      simp
    rw [hothers, ← removeElement_order h ho]
    rfl

/-- The three ends of a `Get`: nothing under the key, an expired entry, a hit. -/
inductive GetEnds (c : LRU) (key : String) (now : Int) : LRU × Option Entry → Prop
  | absent (hi : c.index key = none) : GetEnds c key now (c, none)
  | expired {el : Element} {p r : List Element} (ho : c.order = p ++ el :: r) (hk : el.key = key)
    (hold : el.entry.expiresAt < now) : GetEnds c key now (removeElement c el, none)
  | hit {el : Element} {p r : List Element} (ho : c.order = p ++ el :: r) (hk : el.key = key)
    (hfresh : now ≤ el.entry.expiresAt) :
    GetEnds c key now ({c with order := moveToFront c.order el}, some el.entry)

theorem get_ends (h : Rep c) (key : String) (now : Int) : GetEnds c key now (get c key now) := by
  unfold get
  cases hi : c.index key with
  | none => exact .absent hi
  | some el =>
    obtain ⟨hkey, p, r, ho⟩ := h.split hi
    dsimp only
    split
    · exact .expired ho hkey ‹_›
    · exact .hit ho hkey (not_lt.mp ‹_›)

/-- The entry `e` is held under `key`. -/
def Held (c : LRU) (key : String) (e : Entry) : Prop := ∃ el ∈ c.order, el.key = key ∧ el.entry = e

instance (c : LRU) (key : String) (e : Entry) : Decidable (Held c key e) :=
  inferInstanceAs (Decidable (∃ el ∈ c.order, el.key = key ∧ el.entry = e))

theorem Rep.held_iff (h : Rep c) {key : String} {el : Element} (hel : el ∈ c.order) (hk : el.key = key)
    (e : Entry) : Held c key e ↔ el.entry = e := by
  constructor
  · rintro ⟨x, hx, hxk, rfl⟩
    rw [h.eq_of_key hx hel (hxk.trans hk.symm)]
  · intro he
    exact ⟨el, hel, hk, he⟩

theorem Rep.not_held (h : Rep c) {key : String} (hi : c.index key = none) (e : Entry) : ¬ Held c key e := by
  rintro ⟨el, hel, hk, _⟩
  exact h.key_ne_of_free hi hel hk

/-- `Get` answers what is held and has not expired. -/
theorem get_returns (h : Rep c) (key : String) (now : Int) (e : Entry) :
    (get c key now).2 = some e ↔ Held c key e ∧ now ≤ e.expiresAt := by
  have hends := get_ends h key now
  generalize get c key now = res at hends ⊢
  cases hends with
  | absent hi => exact iff_of_false (by simp) fun hh => h.not_held hi e hh.1
  | expired ho hk hold =>
    refine iff_of_false (by simp) ?_
    rintro ⟨hheld, hfresh⟩
    rw [h.held_iff (by simp [ho]) hk] at hheld
    subst hheld
    exact absurd hfresh (not_le.mpr hold)
  | hit ho hk hfresh =>
    rw [h.held_iff (by simp [ho]) hk]
    constructor
    · intro he
      cases he
      exact ⟨rfl, hfresh⟩
    · rintro ⟨rfl, _⟩
      rfl

theorem held_removeElement (h : Rep c) {p r : List Element} {el : Element} (ho : c.order = p ++ el :: r)
    (k : String) (e : Entry) : Held (removeElement c el) k e ↔ k ≠ el.key ∧ Held c k e := by
  unfold Held
  rw [removeElement_order h ho]
  constructor
  · rintro ⟨x, hx, rfl, rfl⟩
    refine ⟨h.key_others ho x hx, x, ?_, rfl, rfl⟩
    rw [ho]
    exact ((List.sublist_cons_self el r).append_left p).subset hx
  · rintro ⟨hne, x, hx, rfl, rfl⟩
    refine ⟨x, ?_, rfl, rfl⟩
    have hxel : x ≠ el := by
      rintro rfl
      exact hne rfl
    rw [ho] at hx
    simpa [hxel] using hx

theorem held_moveToFront (h : Rep c) {p r : List Element} {el : Element} (ho : c.order = p ++ el :: r)
    (k : String) (e : Entry) : Held {c with order := moveToFront c.order el} k e ↔ Held c k e := by
  unfold Held
  simp only [(moveToFront_perm h ho).mem_iff]

/-- `Get` forgets the entry of its own key if that has expired, and nothing else. -/
theorem held_get (h : Rep c) (key : String) (now : Int) (k : String) (e : Entry) :
    Held (get c key now).1 k e ↔ Held c k e ∧ (k = key → now ≤ e.expiresAt) := by
  have hends := get_ends h key now
  generalize get c key now = res at hends ⊢
  cases hends with
  | absent hi =>
    constructor
    · intro hheld
      refine ⟨hheld, ?_⟩
      rintro rfl
      exact absurd hheld (h.not_held hi e)
    · exact And.left
  | @expired el p r ho hk hold =>
    rw [held_removeElement h ho, hk]
    constructor
    · rintro ⟨hne, hheld⟩
      exact ⟨hheld, fun heq => absurd heq hne⟩
    · rintro ⟨hheld, hfresh⟩
      refine ⟨?_, hheld⟩
      rintro rfl
      rw [h.held_iff (by simp [ho]) hk] at hheld
      subst hheld
      exact absurd (hfresh rfl) (not_le.mpr hold)
  | @hit el p r ho hk hfresh =>
    rw [held_moveToFront h ho]
    constructor
    · intro hheld
      refine ⟨hheld, ?_⟩
      rintro rfl
      rw [h.held_iff (by simp [ho]) hk] at hheld
      exact hheld ▸ hfresh
    · exact And.left

theorem rep_get (h : Rep c) (key : String) (now : Int) : Rep (get c key now).1 := by
  have hends := get_ends h key now
  generalize get c key now = res at hends ⊢
  cases hends with
  | absent _ => exact h
  | expired ho _ _ => exact rep_removeElement h ho
  | hit ho _ _ => exact rep_moveToFront h ho

theorem rep_set (h : Rep c) (key : String) (entry : Entry) : Rep (set c key entry) :=
  (evict_spec (inserted_spec h key entry).1).rep

theorem held_inserted (h : Rep c) (key : String) (entry : Entry) (k : String) (e : Entry) :
    Held (inserted c key entry) k e ↔ (k = key ∧ e = entry) ∨ (k ≠ key ∧ Held c k e) := by
  unfold Held
  rw [(inserted_spec h key entry).2.2.2]
  constructor
  · rintro ⟨x, hx, rfl, rfl⟩
    rcases List.mem_cons.mp hx with rfl | hx
    · exact .inl ⟨rfl, rfl⟩
    · obtain ⟨hmem, hne⟩ := List.mem_filter.mp hx
      exact .inr ⟨of_decide_eq_true hne, x, hmem, rfl, rfl⟩
  · rintro (⟨rfl, rfl⟩ | ⟨hne, x, hx, rfl, rfl⟩)
    · exact ⟨_, List.mem_cons_self, rfl, rfl⟩
    · exact ⟨x, List.mem_cons_of_mem _ (List.mem_filter.mpr ⟨hx, decide_eq_true hne⟩), rfl, rfl⟩

end Calls

end ApiGateway.Lru
