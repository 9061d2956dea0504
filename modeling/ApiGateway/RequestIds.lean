import ApiGateway.Config
import ApiGateway.Validators

/-!
# Request identifiers

`newUUID` of `internal/middleware/requestid.go` reads sixteen random bytes, overwrites six of their
bits with the version and the variant and writes them in hexadecimal. What it writes are exactly the
texts of version 4, and it loses nothing but the six bits: each of these texts stands for one choice of
the other hundred and twenty-two.
-/

namespace ApiGateway.RequestIds

open Config Validators
set_option autoImplicit false

/-- `%x` of a slice. -/
def hex (bytes : List UInt8) : List Char := bytes.flatMap hexPair

/-- Bytes six and eight with the version and the variant in them. -/
def stamp (uuid : Vector UInt8 16) : Vector UInt8 16 :=
  (uuid.set 6 ((uuid[6] &&& 0x0f) ||| 0x40)).set 8 ((uuid[8] &&& 0x3f) ||| 0x80)

/-- `fmt.Sprintf("%x-%x-%x-%x-%x", uuid[0:4], uuid[4:6], uuid[6:8], uuid[8:10], uuid[10:16])` -/
def grouped (uuid : List UInt8) : List Char :=
  hex (uuid.take 4) ++ '-' :: (hex ((uuid.drop 4).take 2) ++ '-' :: (hex ((uuid.drop 6).take 2) ++
    '-' :: (hex ((uuid.drop 8).take 2) ++ '-' :: hex (uuid.drop 10))))

/-- `rand.Read` fills the bytes or fails. -/
def newUUID (read : Except String (Vector UInt8 16)) : Except Errorf String :=
  (read.mapError fun err => ⟨"UUID creation failed: %w", [.str err]⟩).map fun uuid =>
    String.ofList (grouped (stamp uuid).toList)

/-- A text of version 4: digits in groups of eight, four, four, four and twelve, of which the third
begins with the version and the fourth with the variant. -/
structure IsV4 (text : List Char) : Prop where
  groups : ∃ a b c d e variant, text = a ++ '-' :: (b ++ '-' :: ('4' :: c ++ '-' :: (variant :: d ++ '-' :: e))) ∧
    a.length = 8 ∧ b.length = 4 ∧ c.length = 3 ∧ d.length = 3 ∧ e.length = 12 ∧ variant ∈ ['8', '9', 'a', 'b'] ∧
    ∀ digit ∈ a ++ b ++ c ++ d ++ e, isHexDigit digit = true

/-- What is written for the byte at a place. -/
def stampAt (i : Nat) (byte : UInt8) : UInt8 :=
  if i = 6 then (byte &&& 0x0f) ||| 0x40 else if i = 8 then (byte &&& 0x3f) ||| 0x80 else byte

/-- The bits of a byte that are not overwritten. -/
def random (i : Nat) (byte : UInt8) : UInt8 :=
  if i = 6 then byte &&& 0x0f else if i = 8 then byte &&& 0x3f else byte

section Digits

theorem exists_digit {c : Char} (h : isHexDigit c = true) : ∃ n < 16, Nat.digitChar n = c := by
  have hascii : Strings.isASCII c = true := by
    have hval : c.val.toNat = c.toNat := rfl
    unfold isHexDigit Char.isDigit at h
    simp only [Bool.or_eq_true, Bool.and_eq_true, decide_eq_true_eq, ge_iff_le, Char.le_def,
      UInt32.le_iff_toNat_le, hval, Char.reduceVal, UInt32.reduceToNat] at h
    simp only [Strings.isASCII, decide_eq_true_eq]
    omega
  have hall : ∀ n < 128, isHexDigit (Char.ofNat n) = true → ∃ m < 16, Nat.digitChar m = Char.ofNat n := by decide
  exact Http.forall_ascii (fun c => isHexDigit c = true → ∃ n < 16, Nat.digitChar n = c) hall hascii h

theorem hex_cons (b : UInt8) (bytes : List UInt8) :
    hex (b :: bytes) = Nat.digitChar (b.toNat / 16) :: Nat.digitChar (b.toNat % 16) :: hex bytes := rfl

/-- Every even number of digits is what some bytes are written as. -/
theorem exists_bytes : ∀ {n : Nat} {digits : List Char}, digits.length = 2 * n →
    (∀ c ∈ digits, isHexDigit c = true) → ∃ bytes, bytes.length = n ∧ hex bytes = digits := by
  intro n
  induction n with
  | zero =>
    intro digits hlength _
    exact ⟨[], rfl, (List.eq_nil_of_length_eq_zero hlength).symm⟩
  | succ n ih =>
    intro digits hlength hdigits
    rcases digits with _ | ⟨high, _ | ⟨low, digits⟩⟩
    · simp only [List.length_nil] at hlength
      omega
    · simp only [List.length_cons, List.length_nil] at hlength
      omega
    · obtain ⟨i, hi, rfl⟩ := exists_digit (hdigits high List.mem_cons_self)
      obtain ⟨j, hj, rfl⟩ := exists_digit (hdigits low (List.mem_cons_of_mem _ List.mem_cons_self))
      have hrest : digits.length = 2 * n := by
        simp only [List.length_cons] at hlength
        omega
      obtain ⟨bytes, hbytes, rfl⟩ := ih hrest fun c hc =>
        hdigits c (List.mem_cons_of_mem _ (List.mem_cons_of_mem _ hc))
      have hbyte : (UInt8.ofNat (16 * i + j)).toNat = 16 * i + j := by
        rw [UInt8.toNat_ofNat']
        omega
      refine ⟨UInt8.ofNat (16 * i + j) :: bytes, by rw [List.length_cons, hbytes], ?_⟩
      rw [hex_cons, hbyte, Nat.mul_add_div (by omega), Nat.div_eq_of_lt hj, Nat.add_zero, Nat.mul_add_mod,
        Nat.mod_eq_of_lt hj]

theorem isHexDigit_of_mem_hex {bytes : List UInt8} {c : Char} (h : c ∈ hex bytes) : isHexDigit c = true := by
  obtain ⟨b, -, hc⟩ := List.mem_flatMap.mp h
  have hb := b.toNat_lt
  simp only [hexPair, List.mem_cons, List.not_mem_nil, or_false] at hc
  rcases hc with rfl | rfl
  · exact isHexDigit_digitChar _ (by omega)
  · exact isHexDigit_digitChar _ (by omega)

end Digits

section Text
variable {uuid a b : Vector UInt8 16} {bytes : List UInt8}

theorem hex_append (a b : List UInt8) : hex (a ++ b) = hex a ++ hex b := List.flatMap_append

theorem filter_hex (bytes : List UInt8) : (hex bytes).filter (· ≠ '-') = hex bytes := by
  rw [List.filter_eq_self]
  intro c hc
  have hdash : isHexDigit '-' = false := by decide
  refine decide_eq_true ?_
  rintro rfl
  rw [isHexDigit_of_mem_hex hc] at hdash
  cases hdash

/-- The dashes aside, the text is that of the bytes. -/
theorem filter_grouped (bytes : List UInt8) : (grouped bytes).filter (· ≠ '-') = hex bytes := by
  have hdash (text : List Char) : ('-' :: text).filter (· ≠ '-') = text.filter (· ≠ '-') := rfl
  have hparts : bytes = bytes.take 4 ++ ((bytes.drop 4).take 2 ++ ((bytes.drop 6).take 2 ++
      ((bytes.drop 8).take 2 ++ bytes.drop 10))) := by
    rw [← List.drop_drop (i := 2) (j := 8), List.take_append_drop, ← List.drop_drop (i := 2) (j := 6),
      List.take_append_drop, ← List.drop_drop (i := 2) (j := 4), List.take_append_drop, List.take_append_drop]
  simp only [grouped, List.filter_append, filter_hex, hdash]
  conv_rhs => rw [hparts, hex_append, hex_append, hex_append, hex_append]

theorem grouped_injective : Function.Injective grouped := by
  intro a b h
  refine flatMap_hexPair_injective ?_
  have hfilter := congrArg (List.filter (· ≠ '-')) h
  rwa [filter_grouped, filter_grouped] at hfilter

theorem stamp_getElem (uuid : Vector UInt8 16) (i : Nat) (hi : i < 16) :
    (stamp uuid)[i] = stampAt i uuid[i] := by
  unfold stamp stampAt
  by_cases h8 : i = 8
  · subst h8
    simp
  · by_cases h6 : i = 6
    · subst h6
      simp
    · rw [Vector.getElem_set_ne _ _ (Ne.symm h8), Vector.getElem_set_ne _ _ (Ne.symm h6), if_neg h6, if_neg h8]

/-- What is overwritten is lost, and what is not is kept. -/
theorem stampAt_eq_iff (i : Nat) (x y : UInt8) : stampAt i x = stampAt i y ↔ random i x = random i y := by
  have hversion : ∀ n < 256, ((n &&& 15) ||| 64) &&& 15 = n &&& 15 := by decide +kernel
  have hvariant : ∀ n < 256, ((n &&& 63) ||| 128) &&& 63 = n &&& 63 := by decide +kernel
  unfold stampAt random
  split
  · constructor
    · intro h
      have hx := hversion x.toNat x.toNat_lt
      have hy := hversion y.toNat y.toNat_lt
      have hmasked := congrArg (fun z : UInt8 => z.toNat &&& 15) h
      simp only [UInt8.toNat_or, UInt8.toNat_and, UInt8.reduceToNat, hx, hy] at hmasked
      exact UInt8.toNat_inj.mp (by simpa only [UInt8.toNat_and, UInt8.reduceToNat] using hmasked)
    · intro h
      rw [h]
  · split
    · constructor
      · intro h
        have hx := hvariant x.toNat x.toNat_lt
        have hy := hvariant y.toNat y.toNat_lt
        have hmasked := congrArg (fun z : UInt8 => z.toNat &&& 63) h
        simp only [UInt8.toNat_or, UInt8.toNat_and, UInt8.reduceToNat, hx, hy] at hmasked
        exact UInt8.toNat_inj.mp (by simpa only [UInt8.toNat_and, UInt8.reduceToNat] using hmasked)
      · intro h
        rw [h]
    · exact Iff.rfl

theorem stamp_eq_iff : stamp a = stamp b ↔ ∀ i (hi : i < 16), random i a[i] = random i b[i] := by
  constructor
  · intro h i hi
    rw [← stampAt_eq_iff, ← stamp_getElem a i hi, ← stamp_getElem b i hi, h]
  · intro h
    refine Vector.ext fun i hi => ?_
    rw [stamp_getElem, stamp_getElem, stampAt_eq_iff]
    exact h i hi

theorem slice_eq {bytes : List UInt8} {i : Nat} (h : i + 1 < bytes.length) :
    (bytes.drop i).take 2 = [bytes[i], bytes[i + 1]] := by
  rw [List.drop_eq_getElem_cons (by omega), List.drop_eq_getElem_cons h]
  rfl

theorem hex_pair (x y : UInt8) : hex [x, y] =
    [Nat.digitChar (x.toNat / 16), Nat.digitChar (x.toNat % 16), Nat.digitChar (y.toNat / 16),
      Nat.digitChar (y.toNat % 16)] := rfl

/-- What is written has the version and the variant in their places. -/
theorem isV4_grouped (uuid : Vector UInt8 16) : IsV4 (grouped (stamp uuid).toList) := by
  have hversion : ∀ n < 256, Nat.digitChar (((n &&& 15) ||| 64) / 16) = '4' := by decide +kernel
  have hvariant : ∀ n < 256, Nat.digitChar (((n &&& 63) ||| 128) / 16) ∈ ['8', '9', 'a', 'b'] := by decide +kernel
  have hlength : (stamp uuid).toList.length = 16 := Vector.length_toList
  generalize hm : (stamp uuid).toList = m at hlength
  have hsix : m[6] = (uuid[6] &&& 0x0f) ||| 0x40 := by
    subst hm
    exact stamp_getElem uuid 6 (by omega)
  have height : m[8] = (uuid[8] &&& 0x3f) ||| 0x80 := by
    subst hm
    exact stamp_getElem uuid 8 (by omega)
  have hthird : hex ((m.drop 6).take 2) = '4' :: (hex [m[6], m[7]]).tail := by
    rw [slice_eq (by omega), hex_pair, hsix, UInt8.toNat_or, UInt8.toNat_and]
    exact congrArg (· :: _) (hversion _ uuid[6].toNat_lt)
  have hfourth : hex ((m.drop 8).take 2) = Nat.digitChar (m[8].toNat / 16) :: (hex [m[8], m[9]]).tail := by
    rw [slice_eq (by omega), hex_pair]
    rfl
  have hcount (bytes : List UInt8) : (hex bytes).length = 2 * bytes.length := length_flatMap_hexPair bytes
  refine ⟨hex (m.take 4), hex ((m.drop 4).take 2), (hex [m[6], m[7]]).tail, (hex [m[8], m[9]]).tail, hex (m.drop 10),
    Nat.digitChar (m[8].toNat / 16), ?_, ?_, ?_, rfl, rfl, ?_, ?_, ?_⟩
  · rw [grouped, hthird, hfourth]
  · rw [hcount, List.length_take, hlength]
    rfl
  · rw [hcount, List.length_take, List.length_drop, hlength]
    rfl
  · rw [hcount, List.length_drop, hlength]
  · rw [height, UInt8.toNat_or, UInt8.toNat_and]
    exact hvariant _ uuid[8].toNat_lt
  · intro digit hdigit
    simp only [List.mem_append] at hdigit
    rcases hdigit with (((h | h) | h) | h) | h
    · exact isHexDigit_of_mem_hex h
    · exact isHexDigit_of_mem_hex h
    · exact isHexDigit_of_mem_hex (List.mem_of_mem_tail h)
    · exact isHexDigit_of_mem_hex (List.mem_of_mem_tail h)
    · exact isHexDigit_of_mem_hex h

theorem grouped_append {a b c d e : List UInt8} (ha : a.length = 4) (hb : b.length = 2) (hc : c.length = 2)
    (hd : d.length = 2) : grouped (a ++ (b ++ (c ++ (d ++ e)))) =
      hex a ++ '-' :: (hex b ++ '-' :: (hex c ++ '-' :: (hex d ++ '-' :: hex e))) := by
  have hbehind (rest : List UInt8) : (a ++ rest).drop 4 = rest := List.drop_left' ha
  have hsix : (a ++ (b ++ (c ++ (d ++ e)))).drop 6 = c ++ (d ++ e) := by
    rw [← List.append_assoc]
    exact List.drop_left' (by rw [List.length_append, ha, hb])
  have height : (a ++ (b ++ (c ++ (d ++ e)))).drop 8 = d ++ e := by
    rw [← List.drop_drop (i := 2) (j := 6), hsix]
    exact List.drop_left' hc
  have hten : (a ++ (b ++ (c ++ (d ++ e)))).drop 10 = e := by
    rw [← List.drop_drop (i := 2) (j := 8), height]
    exact List.drop_left' hd
  rw [grouped, hbehind, hsix, height, hten, List.take_left' ha, List.take_left' hb, List.take_left' hc,
    List.take_left' hd]

theorem variant_digit {variant : Char} (h : variant ∈ ['8', '9', 'a', 'b']) : isHexDigit variant = true := by
  simp only [List.mem_cons, List.not_mem_nil, or_false] at h
  rcases h with rfl | rfl | rfl | rfl <;> decide

/-- Two bytes that are written with a given first digit. -/
theorem exists_pair (first : Char) {digits : List Char} (hlength : digits.length = 3)
    (hfirst : isHexDigit first = true) (hdigits : ∀ c ∈ digits, isHexDigit c = true) :
    ∃ x y, hex [x, y] = first :: digits ∧ Nat.digitChar (x.toNat / 16) = first := by
  have hfour : (first :: digits).length = 2 * 2 := by rw [List.length_cons, hlength]
  obtain ⟨bytes, hbytes, htext⟩ := exists_bytes hfour (List.forall_mem_cons.mpr ⟨hfirst, hdigits⟩)
  obtain ⟨x, y, rfl⟩ := List.length_eq_two.mp hbytes
  exact ⟨x, y, htext, (List.cons.inj htext).1⟩

theorem stampAt_version {x : UInt8} (h : Nat.digitChar (x.toNat / 16) = '4') : stampAt 6 x = x := by
  have hall : ∀ n < 256, Nat.digitChar (n / 16) = '4' → (n &&& 15) ||| 64 = n := by decide +kernel
  refine UInt8.toNat_inj.mp ?_
  rw [stampAt, if_pos rfl, UInt8.toNat_or, UInt8.toNat_and]
  exact hall x.toNat x.toNat_lt h

theorem stampAt_variant {x : UInt8} (h : Nat.digitChar (x.toNat / 16) ∈ ['8', '9', 'a', 'b']) :
    stampAt 8 x = x := by
  have hall : ∀ n < 256, Nat.digitChar (n / 16) ∈ ['8', '9', 'a', 'b'] → (n &&& 63) ||| 128 = n := by decide +kernel
  refine UInt8.toNat_inj.mp ?_
  rw [stampAt, if_neg (by decide), if_pos rfl, UInt8.toNat_or, UInt8.toNat_and]
  exact hall x.toNat x.toNat_lt h

/-- Every text of version 4 is what its own bytes are written as: the stamps change nothing. -/
theorem exists_of_isV4 {text : List Char} (h : IsV4 text) :
    ∃ uuid : Vector UInt8 16, grouped (stamp uuid).toList = text := by
  obtain ⟨a, b, c, d, e, variant, rfl, ha, hb, hc, hd, he, hvariant, hdigits⟩ := h.groups
  simp only [List.mem_append] at hdigits
  obtain ⟨bytesA, hlengthA, rfl⟩ := exists_bytes (n := 4) ha fun x hx => hdigits x (.inl (.inl (.inl (.inl hx))))
  obtain ⟨bytesB, hlengthB, rfl⟩ := exists_bytes (n := 2) hb fun x hx => hdigits x (.inl (.inl (.inl (.inr hx))))
  obtain ⟨x, x', htextC, hx⟩ := exists_pair '4' hc (by decide) fun y hy => hdigits y (.inl (.inl (.inr hy)))
  obtain ⟨z, z', htextD, hz⟩ := exists_pair variant hd (variant_digit hvariant) fun y hy => hdigits y (.inl (.inr hy))
  obtain ⟨bytesE, hlengthE, rfl⟩ := exists_bytes (n := 6) he fun x hx => hdigits x (.inr hx)
  have hlength : (bytesA ++ (bytesB ++ ([x, x'] ++ ([z, z'] ++ bytesE)))).length = 16 := by
    simp only [List.length_append, hlengthA, hlengthB, hlengthE, List.length_cons, List.length_nil]
  let uuid : Vector UInt8 16 := ⟨(bytesA ++ (bytesB ++ ([x, x'] ++ ([z, z'] ++ bytesE)))).toArray, hlength⟩
  have hstamp : stamp uuid = uuid := by
    refine Vector.ext fun i hi => ?_
    rw [stamp_getElem]
    by_cases hsix : i = 6
    · subst hsix
      have hat : uuid[6] = x := by simp [uuid, hlengthA, hlengthB]
      rw [hat, stampAt_version hx]
    · by_cases height : i = 8
      · subst height
        have hat : uuid[8] = z := by simp [uuid, hlengthA, hlengthB]
        rw [hat, stampAt_variant (hz ▸ hvariant)]
      · rw [stampAt, if_neg hsix, if_neg height]
  refine ⟨uuid, ?_⟩
  rw [hstamp]
  change grouped (bytesA ++ (bytesB ++ ([x, x'] ++ ([z, z'] ++ bytesE)))) = _
  rw [grouped_append hlengthA hlengthB rfl rfl, htextC, htextD]

theorem newUUID_ok (uuid : Vector UInt8 16) : newUUID (.ok uuid) = .ok (String.ofList (grouped (stamp uuid).toList)) :=
  rfl

/-- What `newUUID` writes are exactly the texts of version 4, and two reads are written as the same
text exactly if they agree in every bit but the six that are overwritten. -/
theorem newUUID_exact :
    (∀ text, (∃ uuid, newUUID (.ok uuid) = .ok text) ↔ IsV4 text.toList) ∧
    ∀ a b : Vector UInt8 16, newUUID (.ok a) = newUUID (.ok b) ↔ ∀ i (hi : i < 16), random i a[i] = random i b[i] := by
  constructor
  · intro text
    constructor
    · rintro ⟨uuid, h⟩
      obtain rfl := Except.ok.inj (newUUID_ok uuid ▸ h)
      rw [String.toList_ofList]
      exact isV4_grouped uuid
    · intro h
      obtain ⟨uuid, huuid⟩ := exists_of_isV4 h
      exact ⟨uuid, by rw [newUUID_ok, huuid, String.ofList_toList]⟩
  · intro a b
    rw [newUUID_ok, newUUID_ok, Except.ok.injEq, ← stamp_eq_iff]
    constructor
    · intro h
      have hlist := grouped_injective (String.ofList_injective h)
      exact Vector.toList_inj.mp hlist
    · intro h
      rw [h]

example : newUUID (.ok (Vector.replicate 16 255)) = .ok "ffffffff-ffff-4fff-bfff-ffffffffffff" := by decide

end Text

end ApiGateway.RequestIds
