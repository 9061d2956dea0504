import ApiGateway.LruRep
import Mathlib.Data.List.Induction

/-!
# Whole runs of the LRU

Any sequence of `Set` and `Get` calls on a new LRU, with a history beside the state that no
call reads: how many calls there were and which of them touched a key last. The list is always
in the order of these touches. Each `Set` keeps the longest part of it that fits both bounds,
so a key is found exactly as long as it and the entries touched after it have fitted at every
`Set` since its own.
-/

namespace ApiGateway.Lru

open Http Recency
set_option autoImplicit false

inductive Op where
  | set (key : String) (entry : Entry)
  | get (key : String) (now : Int)

/-- The LRU with its history: the number of calls so far and, for each key, the number of the
last call that touched it, a `Set` or a `Get` that found it. -/
structure Traced where
  lru : LRU
  count : Nat
  touched : String → Nat

def perform (g : Traced) : Op → Traced
  | .set key entry => ⟨set g.lru key entry, g.count + 1, Function.update g.touched key (g.count + 1)⟩
  | .get key now =>
    ⟨(get g.lru key now).1, g.count + 1,
      if (get g.lru key now).2.isSome then Function.update g.touched key (g.count + 1) else g.touched⟩

/-- A new LRU after the calls `ops`. -/
def after (maxEntries maxBytes : Int) (ops : List Op) : Traced :=
  ops.foldl perform ⟨newLRU maxEntries maxBytes, 0, fun _ => 0⟩

/-- Just after the insertion of a `Set`: the entry of `k` and the held entries touched since. -/
def recent (g : Traced) (key : String) (entry : Entry) (k : String) : List Element :=
  (inserted g.lru key entry).order.filter fun el =>
    el.key = k ∨ (perform g (.set key entry)).touched k < (perform g (.set key entry)).touched el.key

theorem after_concat (maxEntries maxBytes : Int) (ops : List Op) (op : Op) :
    after maxEntries maxBytes (ops ++ [op]) = perform (after maxEntries maxBytes ops) op := by
  simp only [after, List.foldl_append, List.foldl_cons, List.foldl_nil]

/-- What every run keeps. -/
structure Sound (maxEntries maxBytes : Int) (g : Traced) : Prop where
  rep : Rep g.lru
  boundEntries : g.lru.maxEntries = maxEntries
  boundBytes : g.lru.maxBytes = maxBytes
  fits : Fits maxEntries maxBytes g.lru.order
  ranked : Ranked (fun el => g.touched el.key) g.lru.order
  count : ∀ k, g.touched k ≤ g.count

variable {maxEntries maxBytes : Int} {g : Traced}

theorem sound_new (maxEntries maxBytes : Int) :
    Sound maxEntries maxBytes ⟨newLRU maxEntries maxBytes, 0, fun _ => 0⟩ where
  rep := rep_newLRU maxEntries maxBytes
  boundEntries := rfl
  boundBytes := rfl
  fits := ⟨fun hpos => hpos.le, fun hpos => hpos.le⟩
  ranked := List.Pairwise.nil
  count := fun _ => Nat.le_refl 0

/-- A fresh touch of `key` puts it before everybody else. -/
theorem Sound.ranked_front (h : Sound maxEntries maxBytes g) {key : String} {el : Element}
    {others : List Element} (hk : el.key = key) (hsub : others.Sublist g.lru.order)
    (hne : ∀ x ∈ others, x.key ≠ key) :
    Ranked (fun x => Function.update g.touched key (g.count + 1) x.key) (el :: others) := by
  subst hk
  have hsame : ∀ x ∈ others, Function.update g.touched el.key (g.count + 1) x.key = g.touched x.key :=
    fun x hx => Function.update_of_ne (hne x hx) ..
  refine List.pairwise_cons.mpr ⟨?_, ?_⟩
  · intro x hx
    dsimp only
    rw [hsame x hx, Function.update_self]
    exact Nat.lt_succ_of_le (h.count x.key)
  · refine List.Pairwise.imp_of_mem ?_ (List.Pairwise.sublist hsub h.ranked)
    intro x y hx hy hxy
    dsimp only
    rw [hsame x hx, hsame y hy]
    exact hxy

theorem Sound.count_update (h : Sound maxEntries maxBytes g) (key k : String) :
    Function.update g.touched key (g.count + 1) k ≤ g.count + 1 := by
  by_cases hk : k = key
  · subst hk
    rw [Function.update_self]
  · rw [Function.update_of_ne hk]
    exact Nat.le_succ_of_le (h.count k)

/-- Before the eviction of a `Set` the list is in the order of the touches, the key of the call
first; the eviction keeps the longest part of it that fits. -/
theorem Sound.inserted (h : Sound maxEntries maxBytes g) (key : String) (entry : Entry) :
    Ranked (fun el => (perform g (.set key entry)).touched el.key) (inserted g.lru key entry).order ∧
      Evicted (Fits maxEntries maxBytes) (inserted g.lru key entry) (set g.lru key entry) := by
  obtain ⟨hrep, hme, hmb, ho⟩ := inserted_spec h.rep key entry
  constructor
  · rw [ho]
    refine h.ranked_front rfl List.filter_sublist ?_
    intro x hx
    exact of_decide_eq_true (List.mem_filter.mp hx).2
  · have hev := evict_spec hrep
    rwa [hme, hmb, h.boundEntries, h.boundBytes, ← set_eq_evict] at hev

theorem sound_set (h : Sound maxEntries maxBytes g) (key : String) (entry : Entry) :
    Sound maxEntries maxBytes (perform g (.set key entry)) := by
  obtain ⟨hranked, hev⟩ := h.inserted key entry
  obtain ⟨_, hme, hmb, _⟩ := inserted_spec h.rep key entry
  exact ⟨hev.rep, hev.maxEntries.trans (hme.trans h.boundEntries), hev.maxBytes.trans (hmb.trans h.boundBytes),
    hev.order.holds, List.Pairwise.sublist hev.order.initial.sublist hranked, h.count_update key⟩

theorem sound_get (h : Sound maxEntries maxBytes g) (key : String) (now : Int) :
    Sound maxEntries maxBytes (perform g (.get key now)) := by
  have hends := get_ends h.rep key now
  unfold perform
  dsimp only
  generalize get g.lru key now = res at hends ⊢
  cases hends with
  | absent hi => exact ⟨h.rep, h.boundEntries, h.boundBytes, h.fits, h.ranked, fun k => Nat.le_succ_of_le (h.count k)⟩
  | @expired el p r ho hk hold =>
    have hsub : (removeElement g.lru el).order.Sublist g.lru.order := List.filter_sublist
    exact ⟨rep_removeElement h.rep ho, h.boundEntries, h.boundBytes, h.fits.of_sublist hsub,
      List.Pairwise.sublist hsub h.ranked, fun k => Nat.le_succ_of_le (h.count k)⟩
  | @hit el p r ho hk hfresh =>
    have hperm := moveToFront_perm h.rep ho
    refine ⟨rep_moveToFront h.rep ho, h.boundEntries, h.boundBytes, ⟨?_, ?_⟩, ?_, h.count_update key⟩
    · intro hpos
      exact hperm.length_eq ▸ h.fits.entries hpos
    · intro hpos
      rw [totalSize_perm hperm]
      exact h.fits.bytes hpos
    · dsimp only [Option.isSome_some, if_true]
      rw [moveToFront_order h.rep ho]
      refine h.ranked_front hk ?_ (hk ▸ h.rep.key_others ho)
      rw [ho]
      exact (List.sublist_cons_self el r).append_left p

theorem sound_after (maxEntries maxBytes : Int) (ops : List Op) :
    Sound maxEntries maxBytes (after maxEntries maxBytes ops) := by
  induction ops using List.reverseRecOn with
  | nil => exact sound_new maxEntries maxBytes
  | append_singleton ops op ih =>
    rw [after_concat]
    cases op with
    | set key entry => exact sound_set ih key entry
    | get key now => exact sound_get ih key now

/-- In every state that calls of `Set` and `Get` reach: the list has each key once, the index
finds exactly the listed element with the key, the counter is the sum of the body lengths, and
both bounds hold. -/
theorem lru_representation (maxEntries maxBytes : Int) (ops : List Op) :
    let c := (after maxEntries maxBytes ops).lru
    (c.order.map Element.key).Nodup ∧
      (∀ key el, c.index key = some el ↔ el ∈ c.order ∧ el.key = key) ∧
      c.bytes = (c.order.map fun el => (el.entry.body.length : Int)).sum ∧ 0 ≤ c.bytes ∧
      (0 < maxEntries → (c.order.length : Int) ≤ maxEntries) ∧
      (0 < maxBytes → c.bytes ≤ maxBytes) := by
  intro c
  have h := sound_after maxEntries maxBytes ops
  refine ⟨h.rep.keys, h.rep.index, h.rep.bytes, ?_, h.fits.entries, ?_⟩
  · rw [h.rep.bytes]
    exact totalSize_nonneg _
  · rw [h.rep.bytes]
    exact h.fits.bytes

/-- A key is kept by a `Set` exactly if its entry and those touched since fit. -/
theorem held_set (h : Sound maxEntries maxBytes g) (key : String) (entry : Entry) (k : String) (e : Entry) :
    Held (set g.lru key entry) k e ↔
      Held (inserted g.lru key entry) k e ∧ Fits maxEntries maxBytes (recent g key entry k) := by
  obtain ⟨hranked, hev⟩ := h.inserted key entry
  have hkeep : ∀ x ∈ (inserted g.lru key entry).order, x.key = k →
      (x ∈ (set g.lru key entry).order ↔ Fits maxEntries maxBytes (recent g key entry k)) := by
    intro x hx hxk
    rw [hev.order.mem_iff_ranked (fun p q hpq hq => hq.of_sublist hpq.sublist) hranked hx]
    have hsame : recent g key entry k = (inserted g.lru key entry).order.filter fun y =>
        (perform g (.set key entry)).touched x.key ≤ (perform g (.set key entry)).touched y.key := by
      refine List.filter_congr ?_
      intro y hy
      subst hxk
      refine decide_eq_decide.mpr ⟨?_, ?_⟩
      · rintro (heq | hlt)
        · rw [heq]
        · exact Nat.le_of_lt hlt
      · intro hle
        rcases Nat.lt_or_eq_of_le hle with hlt | heq
        · exact .inr hlt
        · exact .inl (congrArg Element.key (hranked.inj hy hx heq.symm))
    rw [hsame]
  constructor
  · rintro ⟨x, hx, hxk, he⟩
    have hmem := hev.order.initial.subset hx
    exact ⟨⟨x, hmem, hxk, he⟩, (hkeep x hmem hxk).mp hx⟩
  · rintro ⟨⟨x, hx, hxk, he⟩, hfits⟩
    exact ⟨x, (hkeep x hx hxk).mpr hfits, hxk, he⟩

/-- At every `Set` from the end of `earlier` on, `k` and what was touched after it fitted. -/
def FitsSince (maxEntries maxBytes : Int) (ops earlier : List Op) (k : String) : Prop :=
  ∀ before key entry rest, ops = before ++ .set key entry :: rest → earlier.length ≤ before.length →
    Fits maxEntries maxBytes (recent (after maxEntries maxBytes before) key entry k)

/-- The last `Set` of `k` stored `e`, no `Get` has found it expired, and it has fitted since. -/
def Stored (maxEntries maxBytes : Int) (ops : List Op) (k : String) (e : Entry) : Prop :=
  ∃ earlier later, ops = earlier ++ .set k e :: later ∧ (∀ e', .set k e' ∉ later) ∧
    (∀ now, .get k now ∈ later → now ≤ e.expiresAt) ∧ FitsSince maxEntries maxBytes ops earlier k

theorem concat_eq_split {ops earlier later : List Op} {op x : Op} :
    ops ++ [op] = earlier ++ x :: later ↔
      (later = [] ∧ ops = earlier ∧ op = x) ∨ ∃ later', later = later' ++ [op] ∧ ops = earlier ++ x :: later' := by
  rcases List.eq_nil_or_concat' later with rfl | ⟨later', y, rfl⟩
  · rw [List.append_singleton_inj]
    constructor
    · exact fun h => .inl ⟨rfl, h⟩
    · rintro (⟨_, h⟩ | ⟨later', h, _⟩)
      · exact h
      · simp at h
  · rw [← List.cons_append, ← List.append_assoc, List.append_singleton_inj]
    constructor
    · rintro ⟨hops, rfl⟩
      exact .inr ⟨later', rfl, hops⟩
    · rintro (⟨h, _⟩ | ⟨later'', h, hops⟩)
      · simp at h
      · obtain ⟨rfl, rfl⟩ := List.append_singleton_inj.mp h
        exact ⟨hops, rfl⟩

theorem fitsSince_concat_get {ops earlier : List Op} {k key : String} {now : Int} :
    FitsSince maxEntries maxBytes (ops ++ [.get key now]) earlier k ↔
      FitsSince maxEntries maxBytes ops earlier k := by
  constructor
  · intro h before key' entry rest hsplit hle
    exact h before key' entry (rest ++ [.get key now]) (by simp [hsplit]) hle
  · intro h before key' entry rest hsplit hle
    rcases concat_eq_split.mp hsplit with ⟨_, _, hop⟩ | ⟨rest', _, hops⟩
    · cases hop
    · exact h before key' entry rest' hops hle

theorem fitsSince_concat_set {ops earlier : List Op} {k key : String} {entry : Entry}
    (hlen : earlier.length ≤ ops.length) :
    FitsSince maxEntries maxBytes (ops ++ [.set key entry]) earlier k ↔
      FitsSince maxEntries maxBytes ops earlier k ∧
        Fits maxEntries maxBytes (recent (after maxEntries maxBytes ops) key entry k) := by
  constructor
  · intro h
    refine ⟨?_, h ops key entry [] rfl hlen⟩
    intro before key' entry' rest hsplit hle
    exact h before key' entry' (rest ++ [.set key entry]) (by simp [hsplit]) hle
  · rintro ⟨h, hlast⟩ before key' entry' rest hsplit hle
    rcases concat_eq_split.mp hsplit with ⟨_, rfl, hop⟩ | ⟨rest', _, hops⟩
    · cases hop
      exact hlast
    · exact h before key' entry' rest' hops hle

theorem stored_concat_get {ops : List Op} {key k : String} {now : Int} {e : Entry} :
    Stored maxEntries maxBytes (ops ++ [.get key now]) k e ↔
      Stored maxEntries maxBytes ops k e ∧ (k = key → now ≤ e.expiresAt) := by
  constructor
  · rintro ⟨earlier, later, hsplit, hlast, hfresh, hfits⟩
    rcases concat_eq_split.mp hsplit with ⟨_, _, hop⟩ | ⟨later', rfl, hops⟩
    · cases hop
    · refine ⟨⟨earlier, later', hops, ?_, ?_, fitsSince_concat_get.mp hfits⟩, ?_⟩
      · intro e' hmem
        exact hlast e' (List.mem_append_left _ hmem)
      · intro now' hmem
        exact hfresh now' (List.mem_append_left _ hmem)
      · rintro rfl
        exact hfresh now (List.mem_append_right _ List.mem_cons_self)
  · rintro ⟨⟨earlier, later, hops, hlast, hfresh, hfits⟩, hnow⟩
    refine ⟨earlier, later ++ [.get key now], by simp [hops], ?_, ?_, fitsSince_concat_get.mpr hfits⟩
    · intro e' hmem
      refine hlast e' ?_
      simpa using hmem
    · intro now' hmem
      rcases List.mem_append.mp hmem with hmem | hmem
      · exact hfresh now' hmem
      · cases List.mem_singleton.mp hmem
        exact hnow rfl

theorem stored_concat_set {ops : List Op} {key k : String} {entry e : Entry} :
    Stored maxEntries maxBytes (ops ++ [.set key entry]) k e ↔
      ((k = key ∧ e = entry) ∨ (k ≠ key ∧ Stored maxEntries maxBytes ops k e)) ∧
        Fits maxEntries maxBytes (recent (after maxEntries maxBytes ops) key entry k) := by
  constructor
  · rintro ⟨earlier, later, hsplit, hlast, hfresh, hfits⟩
    rcases concat_eq_split.mp hsplit with ⟨rfl, rfl, hop⟩ | ⟨later', rfl, hops⟩
    · cases hop
      exact ⟨.inl ⟨rfl, rfl⟩, hfits ops key entry [] rfl (Nat.le_refl _)⟩
    · have hlen : earlier.length ≤ ops.length := by simp [hops]
      obtain ⟨hbefore, hnow⟩ := (fitsSince_concat_set hlen).mp hfits
      refine ⟨.inr ⟨?_, earlier, later', hops, ?_, ?_, hbefore⟩, hnow⟩
      · rintro rfl
        exact hlast entry (List.mem_append_right _ List.mem_cons_self)
      · intro e' hmem
        exact hlast e' (List.mem_append_left _ hmem)
      · intro now' hmem
        exact hfresh now' (List.mem_append_left _ hmem)
  · rintro ⟨⟨rfl, rfl⟩ | ⟨hne, earlier, later, hops, hlast, hfresh, hfits⟩, hnow⟩
    · refine ⟨ops, [], rfl, by simp, by simp, ?_⟩
      refine (fitsSince_concat_set (Nat.le_refl _)).mpr ⟨?_, hnow⟩
      intro before key' entry' rest hsplit hle
      rw [hsplit, List.length_append, List.length_cons] at hle
      omega
    · have hlen : earlier.length ≤ ops.length := by simp [hops]
      refine ⟨earlier, later ++ [.set key entry], by simp [hops], ?_, ?_,
        (fitsSince_concat_set hlen).mpr ⟨hfits, hnow⟩⟩
      · intro e' hmem
        rcases List.mem_append.mp hmem with hmem | hmem
        · exact hlast e' hmem
        · cases List.mem_singleton.mp hmem
          exact hne rfl
      · intro now' hmem
        refine hfresh now' ?_
        simpa using hmem

/-- What the LRU holds after a run is what the history says it holds. -/
theorem held_after_iff (maxEntries maxBytes : Int) (ops : List Op) (k : String) (e : Entry) :
    Held (after maxEntries maxBytes ops).lru k e ↔ Stored maxEntries maxBytes ops k e := by
  induction ops using List.reverseRecOn generalizing k e with
  | nil =>
    refine iff_of_false ?_ ?_
    · rintro ⟨el, hel, _⟩
      cases hel
    · rintro ⟨earlier, later, hsplit, _⟩
      simp at hsplit
  | append_singleton ops op ih =>
    have h := sound_after maxEntries maxBytes ops
    rw [after_concat]
    cases op with
    | get key now =>
      rw [stored_concat_get, ← ih]
      exact held_get h.rep key now k e
    | set key entry =>
      rw [stored_concat_set, ← ih, ← held_inserted h.rep]
      exact held_set h key entry k e

/-- Each `Set` of a run finds the list in the order of the last touches, inserts its own entry
at the front and keeps the longest prefix that fits both bounds. `Get` of `k` at `t`, not earlier
than the calls before it, returns `e` exactly if `e` is the entry of the last `Set` of `k`, has
not expired, and at every `Set` since then has fitted together with what was touched after it. -/
theorem lru_exact (maxEntries maxBytes : Int) (ops : List Op) :
    (∀ before key entry rest, ops = before ++ .set key entry :: rest →
      let g := after maxEntries maxBytes before
      Ranked (fun el => (perform g (.set key entry)).touched el.key) (inserted g.lru key entry).order ∧
        Longest (Fits maxEntries maxBytes) (inserted g.lru key entry).order (set g.lru key entry).order) ∧
    ∀ k t e, (∀ key now, .get key now ∈ ops → now ≤ t) →
      ((get (after maxEntries maxBytes ops).lru k t).2 = some e ↔
        ∃ earlier later, ops = earlier ++ .set k e :: later ∧ (∀ e', .set k e' ∉ later) ∧
          t ≤ e.expiresAt ∧
          ∀ before key entry rest, ops = before ++ .set key entry :: rest →
            earlier.length ≤ before.length →
            Fits maxEntries maxBytes (recent (after maxEntries maxBytes before) key entry k)) := by
  constructor
  · intro before key entry rest _ g
    obtain ⟨hranked, hev⟩ := (sound_after maxEntries maxBytes before).inserted key entry
    exact ⟨hranked, hev.order⟩
  · intro k t e hclock
    rw [get_returns (sound_after maxEntries maxBytes ops).rep, held_after_iff]
    constructor
    · rintro ⟨⟨earlier, later, hops, hlast, _, hfits⟩, ht⟩
      exact ⟨earlier, later, hops, hlast, ht, hfits⟩
    · rintro ⟨earlier, later, hops, hlast, ht, hfits⟩
      refine ⟨⟨earlier, later, hops, hlast, ?_, hfits⟩, ht⟩
      intro now hmem
      refine (hclock k now ?_).trans ht
      rw [hops]
      exact List.mem_append_right _ (List.mem_cons_of_mem _ hmem)

def bodyEntry (body : List UInt8) (expiresAt : Int) : Entry :=
  ⟨200, Header.empty, body, "", expiresAt,
    ⟨0, ⟨"GET", ⟨"/", "", []⟩, Header.empty, "", "", false⟩, ⟨200, Header.empty, body⟩⟩⟩

/-- Two entries at most: the older of two is read again, so the third displaces the newer. -/
theorem lru_exact_promoted :
    let ops : List Op := [.set "a" (bodyEntry [1] 9), .set "b" (bodyEntry [2] 9), .get "a" 3,
      .set "c" (bodyEntry [3] 9)]
    (get (after 2 0 ops).lru "a" 5).2 = some (bodyEntry [1] 9) ∧
      (get (after 2 0 ops).lru "b" 5).2 = none ∧
      ∃ earlier later, ops = earlier ++ .set "a" (bodyEntry [1] 9) :: later ∧
        FitsSince 2 0 ops earlier "a" := by
  intro ops
  have hclock : ∀ key now, .get key now ∈ ops → now ≤ 5 := by
    intro key now hmem
    simp only [ops, List.mem_cons, reduceCtorEq, Op.get.injEq, List.not_mem_nil, false_or, or_false] at hmem
    omega
  have hget : (get (after 2 0 ops).lru "a" 5).2 = some (bodyEntry [1] 9) := by decide +kernel
  obtain ⟨earlier, later, hops, _, _, hfits⟩ :=
    ((lru_exact 2 0 ops).2 "a" 5 (bodyEntry [1] 9) hclock).mp hget
  exact ⟨hget, by decide +kernel, earlier, later, hops, hfits⟩

end ApiGateway.Lru
