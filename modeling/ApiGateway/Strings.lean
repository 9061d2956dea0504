import Mathlib.Algebra.Group.Int.Defs
import Mathlib.Algebra.Group.Nat.Defs
import Mathlib.Data.List.Sort
import Mathlib.Data.String.Basic

/-!
# Text as the gateway's code handles it

The functions of `strings`, `sort` and `strconv` that the gateway calls. A Go string is a
sequence of bytes and is read here as the characters it encodes; texts that are not UTF-8
are outside the model. `sort.Strings` orders by bytes, which for encoded characters is the
order of the characters.

`strings.ToLower` maps each character by the Unicode tables. They enter as a parameter: any
table that is right on ASCII and maps the two characters outside ASCII whose lower case
is an ASCII letter, the Kelvin sign and the dotted capital I. `asciiTable` is the least such
table.
-/

namespace ApiGateway.Strings

set_option autoImplicit false

def isASCII (c : Char) : Bool := c.toNat < 128

def kelvinSign : Char := Char.ofNat 0x212a

def dottedCapitalI : Char := Char.ofNat 0x130

structure CaseTable where
  toLower : Char → Char
  ascii : ∀ c, isASCII c = true → toLower c = c.toLower
  kelvin : toLower kelvinSign = 'k'
  dotted : toLower dottedCapitalI = 'i'

def asciiTable : CaseTable where
  toLower c := if c = kelvinSign then 'k' else if c = dottedCapitalI then 'i' else c.toLower
  ascii c hc := by
    have hk : c ≠ kelvinSign := by
      rintro rfl
      revert hc
      decide
    have hi : c ≠ dottedCapitalI := by
      rintro rfl
      revert hc
      decide
    rw [if_neg hk, if_neg hi]
  kelvin := rfl
  dotted := rfl

def toLower (table : CaseTable) (s : String) : String :=
  String.ofList (s.toList.map table.toLower)

def isSpace (c : Char) : Bool :=
  c.toNat ∈ [0x09, 0x0a, 0x0b, 0x0c, 0x0d, 0x20, 0x85, 0xa0, 0x1680, 0x2000, 0x2001, 0x2002, 0x2003,
    0x2004, 0x2005, 0x2006, 0x2007, 0x2008, 0x2009, 0x200a, 0x2028, 0x2029, 0x202f, 0x205f, 0x3000]

def trimSpace (s : String) : String :=
  String.ofList ((s.toList.dropWhile isSpace).reverse.dropWhile isSpace).reverse

/-- `strings.SplitSeq` at a separator of one character. -/
def splitSeq (s : String) (sep : Char) : List String := (s.toList.splitOn sep).map String.ofList

/-- `strings.Cut` at a separator of one character: the text before and after the first one. -/
def cut (s : String) (sep : Char) : String × String :=
  (String.ofList (s.toList.takeWhile (· ≠ sep)),
    String.ofList ((s.toList.dropWhile (· ≠ sep)).drop 1))

def hasPrefix (s start : String) : Bool := start.toList.isPrefixOf s.toList

def trimPrefix (s start : String) : String :=
  if hasPrefix s start then String.ofList (s.toList.drop start.toList.length) else s

/-- `strings.CutPrefix`, `none` if the text does not start so. -/
def cutPrefix (s start : String) : Option String :=
  if hasPrefix s start then some (String.ofList (s.toList.drop start.toList.length)) else none

/-- `textproto.TrimString`: blanks, tabs and line ends. -/
def trimString (s : String) : String :=
  let blank (c : Char) : Bool := c.toNat ∈ [0x09, 0x0a, 0x0d, 0x20]
  String.ofList ((s.toList.dropWhile blank).reverse.dropWhile blank).reverse

def sortStrings (xs : List String) : List String := xs.insertionSort (· ≤ ·)

def digits (cs : List Char) : Option Nat :=
  if cs ≠ [] ∧ cs.all Char.isDigit = true then
    some (cs.foldl (fun n c => 10 * n + (c.toNat - '0'.toNat)) 0)
  else none

/-- `strconv.Atoi` on a 64-bit platform; `none` for a syntax or range error. -/
def atoi (s : String) : Option Int :=
  let value := match s.toList with
    | '-' :: cs => (digits cs).map fun n => -(n : Int)
    | '+' :: cs => (digits cs).map fun n => (n : Int)
    | cs => (digits cs).map fun n => (n : Int)
  value.filter fun i => decide (-2 ^ 63 ≤ i ∧ i < 2 ^ 63)

example : (atoi "+60", atoi "-5", atoi "6 0", atoi "9223372036854775808") =
    (some 60, some (-5), none, none) := by decide

theorem toList_toLower (table : CaseTable) (s : String) :
    (toLower table s).toList = s.toList.map table.toLower := by
  simp [toLower]

theorem hasPrefix_append (start rest : String) : hasPrefix (start ++ rest) start = true := by
  rw [hasPrefix, String.toList_append, List.isPrefixOf_iff_prefix]
  exact List.prefix_append _ _

theorem trimPrefix_append (start rest : String) : trimPrefix (start ++ rest) start = rest := by
  rw [trimPrefix, if_pos (hasPrefix_append start rest), String.toList_append, List.drop_left, String.ofList_toList]

theorem cutPrefix_eq_some {s start rest : String} : cutPrefix s start = some rest ↔ s = start ++ rest := by
  constructor
  · intro h
    simp only [cutPrefix, hasPrefix, Option.ite_none_right_eq_some, List.isPrefixOf_iff_prefix] at h
    obtain ⟨⟨tail, htail⟩, hrest⟩ := h
    rw [← String.toList_inj, String.toList_append, ← Option.some.inj hrest, ← htail, List.drop_left,
      String.toList_ofList]
  · rintro rfl
    rw [cutPrefix, if_pos (hasPrefix_append start rest), String.toList_append, List.drop_left, String.ofList_toList]

theorem sortStrings_perm (xs : List String) : (sortStrings xs).Perm xs :=
  List.perm_insertionSort (· ≤ ·) xs

theorem sortStrings_eq_of_perm {xs ys : List String} (h : xs.Perm ys) :
    sortStrings xs = sortStrings ys :=
  ((sortStrings_perm xs).trans (h.trans (sortStrings_perm ys).symm)).eq_of_pairwise'
    (List.pairwise_insertionSort (· ≤ ·) xs) (List.pairwise_insertionSort (· ≤ ·) ys)

end ApiGateway.Strings
