import Mathlib.Algebra.Group.Int.Defs
import Mathlib.Algebra.GroupWithZero.Nat

/-!
# Text

The string operations of the Rust standard library that the sources use, on `String` where the
text is only stored or compared and on `List Char` where it is taken apart.
-/

namespace Azbridge.Text

/-- `char::is_whitespace`: the Unicode White_Space property. -/
def isWhitespace (c : Char) : Bool :=
  (0x9 ≤ c.toNat && c.toNat ≤ 0xd) || c.toNat == 0x20 || c.toNat == 0x85 || c.toNat == 0xa0 ||
    c.toNat == 0x1680 || (0x2000 ≤ c.toNat && c.toNat ≤ 0x200a) || c.toNat == 0x2028 ||
    c.toNat == 0x2029 || c.toNat == 0x202f || c.toNat == 0x205f || c.toNat == 0x3000

/-- `char::is_control`: the general category Cc. -/
def isControl (c : Char) : Bool := c.toNat < 0x20 || (0x7f ≤ c.toNat && c.toNat ≤ 0x9f)

/-- Tables of the Unicode character database that `std` consults. -/
structure Unicode where
  isAlphanumeric : Char → Bool
  toLowercase : Char → List Char

def trimList (cs : List Char) : List Char :=
  ((cs.dropWhile isWhitespace).reverse.dropWhile isWhitespace).reverse

def trim (s : String) : String := String.ofList (trimList s.toList)

def toAsciiLowercase (s : String) : String := String.ofList (s.toList.map Char.toLower)

def eqIgnoreAsciiCase (a b : String) : Bool := a.toList.map Char.toLower == b.toList.map Char.toLower

theorem toLower_toLower (c : Char) : c.toLower.toLower = c.toLower := by
  unfold Char.toLower
  by_cases upper : c.val ≥ 'A'.val ∧ c.val ≤ 'Z'.val
  · rw [dif_pos upper]
    apply dif_neg
    have low : 65 ≤ c.val.toNat := UInt32.le_iff_toNat_le.mp upper.1
    have high : c.val.toNat ≤ 90 := UInt32.le_iff_toNat_le.mp upper.2
    rintro ⟨-, small⟩
    have bound := UInt32.le_iff_toNat_le.mp small
    change (c.val.toNat + 32) % 2 ^ 32 ≤ 90 at bound
    omega
  · rw [dif_neg upper, dif_neg upper]

theorem eqIgnoreAsciiCase_toAsciiLowercase (a b : String) :
    eqIgnoreAsciiCase (toAsciiLowercase a) b = eqIgnoreAsciiCase a b := by
  have lower : (toAsciiLowercase a).toList.map Char.toLower = a.toList.map Char.toLower := by
    rw [toAsciiLowercase, String.toList_ofList, List.map_map]
    exact List.map_congr_left fun c _ => toLower_toLower c
  rw [eqIgnoreAsciiCase, lower, eqIgnoreAsciiCase]

def startsWith (p : Char → Bool) (s : String) : Bool := s.toList.head?.any p

def endsWith (p : Char → Bool) (s : String) : Bool := s.toList.getLast?.any p

theorem endsWith_append {p : Char → Bool} (s : String) {t : String} (some_ : t ≠ "") : endsWith p (s ++ t) = endsWith p t := by
  unfold endsWith
  rw [String.toList_append, List.getLast?_append]
  cases last : t.toList.getLast? with
  | none => exact absurd (String.toList_inj.mp (by simpa using List.getLast?_eq_none_iff.mp last)) some_
  | some c => rfl

/-- `str::strip_prefix`. -/
def stripPrefix (p s : String) : Option String :=
  if p.toList.isPrefixOf s.toList then some (String.ofList (s.toList.drop p.toList.length)) else none

/-- `str::split` at a character. -/
def split (c : Char) (s : String) : List String := (s.toList.splitOn c).map String.ofList

/-- `str::split_once` at a character. -/
def splitOnce (c : Char) (s : String) : Option (String × String) :=
  if c ∈ s.toList then
    some (String.ofList (s.toList.takeWhile (· != c)), String.ofList ((s.toList.dropWhile (· != c)).drop 1))
  else none

theorem splitOnce_append {c : Char} {a : List Char} (b : List Char) (first : c ∉ a) :
    splitOnce c (String.ofList (a ++ c :: b)) = some (String.ofList a, String.ofList b) := by
  have other : ∀ x ∈ a, (x != c) = true := by
    intro x member
    simp only [bne_iff_ne]
    rintro rfl
    exact first member
  unfold splitOnce
  rw [String.toList_ofList, if_pos (by simp)]
  rw [List.takeWhile_append_of_pos other, List.dropWhile_append_of_pos other]
  simp

theorem splitOnce_none {c : Char} {s : String} (none_ : c ∉ s.toList) : splitOnce c s = none := if_neg none_

theorem mem_of_splitOnce {c : Char} {s a b : String} (cut : splitOnce c s = some (a, b)) : c ∈ s.toList := by
  unfold splitOnce at cut
  split at cut
  · assumption
  · cases cut

theorem not_mem_of_splitOnce {c : Char} {s : String} (cut : splitOnce c s = none) : c ∉ s.toList := by
  unfold splitOnce at cut
  split at cut
  · cases cut
  · assumption

/-- `str::rsplit_once` at a character. -/
def rsplitOnce (c : Char) (s : String) : Option (String × String) :=
  if c ∈ s.toList then
    some (String.ofList ((s.toList.reverse.dropWhile (· != c)).drop 1).reverse,
      String.ofList (s.toList.reverse.takeWhile (· != c)).reverse)
  else none

theorem rsplitOnce_append {c : Char} (a : List Char) {b : List Char} (last : c ∉ b) :
    rsplitOnce c (String.ofList (a ++ c :: b)) = some (String.ofList a, String.ofList b) := by
  have other : ∀ x ∈ b.reverse, (x != c) = true := by
    intro x member
    simp only [bne_iff_ne]
    rintro rfl
    exact last (List.mem_reverse.mp member)
  have reversed : (a ++ c :: b).reverse = b.reverse ++ c :: a.reverse := by simp
  unfold rsplitOnce
  rw [String.toList_ofList, if_pos (by simp), reversed]
  rw [List.takeWhile_append_of_pos other, List.dropWhile_append_of_pos other]
  simp

theorem rsplitOnce_none {c : Char} {s : String} (none_ : c ∉ s.toList) : rsplitOnce c s = none := if_neg none_

theorem splitOnce_between {c : Char} {a sep : String} (b : String) (is : sep = String.ofList [c]) (first : c ∉ a.toList) :
    splitOnce c (a ++ sep ++ b) = some (a, b) := by
  have chars : a ++ sep ++ b = String.ofList (a.toList ++ c :: b.toList) := by
    apply String.toList_inj.mp
    simp [is]
  rw [chars, splitOnce_append _ first, String.ofList_toList, String.ofList_toList]

theorem rsplitOnce_between {c : Char} (a : String) {sep b : String} (is : sep = String.ofList [c]) (last : c ∉ b.toList) :
    rsplitOnce c (a ++ sep ++ b) = some (a, b) := by
  have chars : a ++ sep ++ b = String.ofList (a.toList ++ c :: b.toList) := by
    apply String.toList_inj.mp
    simp [is]
  rw [chars, rsplitOnce_append _ last, String.ofList_toList, String.ofList_toList]

/-- A text is cut at the last of its separators. -/
theorem exists_last {c : Char} {s : String} (member : c ∈ s.toList) : ∃ a b, s = a ++ String.ofList [c] ++ b ∧ c ∉ b.toList := by
  obtain ⟨b, a, same, first⟩ := List.eq_append_cons_of_mem (List.mem_reverse.mpr member)
  refine ⟨String.ofList a.reverse, String.ofList b.reverse, ?_, by simpa using first⟩
  apply String.toList_inj.mp
  have whole := congrArg List.reverse same
  rw [List.reverse_reverse] at whole
  simp [whole]

theorem splitOn_intercalate {c : Char} {parts : List (List Char)} (some_ : parts ≠ []) :
    ([c].intercalate parts).splitOn c = parts.flatMap (·.splitOn c) := by
  induction parts with
  | nil => exact absurd rfl some_
  | cons part rest ih =>
    cases rest with
    | nil => simp
    | cons next rest =>
      rw [List.intercalate_cons_cons, List.append_assoc, List.singleton_append, List.splitOn_append_cons_self, ih (by simp)]
      rfl

theorem split_intercalate {c : Char} {sep : String} {parts : List String} (some_ : parts ≠ []) (is : sep = String.ofList [c]) :
    split c (sep.intercalate parts) = parts.flatMap (split c) := by
  have some' : parts.map String.toList ≠ [] := by simpa using some_
  unfold split
  rw [String.toList_intercalate, is, String.toList_ofList, splitOn_intercalate some', List.map_flatMap, List.flatMap_map]

theorem split_whole {c : Char} {s : String} (whole : c ∉ s.toList) : split c s = [s] := by
  unfold split
  rw [List.splitOn_eq_singleton whole]
  simp

/-- Texts joined by a separator that none of them holds. -/
theorem split_joined {c : Char} {sep : String} {parts : List String} (some_ : parts ≠ []) (is : sep = String.ofList [c])
    (whole : ∀ part ∈ parts, c ∉ part.toList) : split c (sep.intercalate parts) = parts := by
  rw [split_intercalate some_ is]
  clear some_
  induction parts with
  | nil => rfl
  | cons part rest ih =>
    rw [List.flatMap_cons, split_whole (whole part (.head _)), ih fun part later => whole part (.tail _ later)]
    rfl

theorem mem_intercalate {c : Char} {sep : String} {parts : List String} (member : c ∈ (sep.intercalate parts).toList) :
    c ∈ sep.toList ∨ ∃ part ∈ parts, c ∈ part.toList := by
  induction parts with
  | nil =>
    rw [String.intercalate_nil] at member
    cases member
  | cons part rest ih =>
    by_cases last : rest = []
    · rw [last, String.intercalate_singleton] at member
      exact .inr ⟨part, .head _, member⟩
    · rw [String.intercalate_cons_of_ne_nil last, String.toList_append, String.toList_append, List.mem_append,
        List.mem_append] at member
      obtain (first | between) | later := member
      · exact .inr ⟨part, .head _, first⟩
      · exact .inl between
      · obtain within | ⟨other, there, within⟩ := ih later
        · exact .inl within
        · exact .inr ⟨other, .tail _ there, within⟩

/-- `str::contains` of a pattern. -/
def contains (pattern : List Char) : List Char → Bool
  | [] => pattern.isPrefixOf []
  | c :: rest => pattern.isPrefixOf (c :: rest) || contains pattern rest

/-- `str::len` of these characters. -/
def utf8Length (cs : List Char) : Nat := (cs.map Char.utf8Size).sum

theorem byteSize_ofList (cs : List Char) : (String.ofList cs).utf8ByteSize = utf8Length cs := by
  induction cs with
  | nil => rfl
  | cons c cs ih =>
    have parts : String.ofList (c :: cs) = String.singleton c ++ String.ofList cs := by
      apply String.toList_inj.mp
      simp
    rw [parts, String.utf8ByteSize_append, String.utf8ByteSize_singleton, ih]
    simp [utf8Length]

theorem byteSize_of_ascii {s : String} (ascii : ∀ c ∈ s.toList, c.toNat < 128) : s.utf8ByteSize = s.toList.length := by
  have ones : s.toList.map Char.utf8Size = s.toList.map fun _ => 1 := by
    apply List.map_congr_left
    intro c member
    have small := ascii c member
    rw [Char.utf8Size_eq_one_iff]
    exact UInt32.le_iff_toNat_le.mpr (by simpa using Nat.le_of_lt_succ small)
  have whole := byteSize_ofList s.toList
  rw [String.ofList_toList, utf8Length, ones, List.map_const', List.sum_replicate_nat, Nat.mul_one] at whole
  exact whole

/-- `str::strip_prefix` on characters. -/
def stripPrefixList (p cs : List Char) : Option (List Char) :=
  if p.isPrefixOf cs then some (cs.drop p.length) else none

theorem stripPrefixList_eq_some {p cs rest : List Char} : stripPrefixList p cs = some rest ↔ cs = p ++ rest := by
  unfold stripPrefixList
  constructor
  · intro h
    split at h
    · next found =>
      obtain ⟨t, rfl⟩ := List.isPrefixOf_iff_prefix.mp found
      simp at h
      rw [h]
    · cases h
  · rintro rfl
    simp

theorem stripPrefixList_append (p rest : List Char) : stripPrefixList p (p ++ rest) = some rest :=
  stripPrefixList_eq_some.mpr rfl

theorem stripPrefix_eq_some {pre s rest : String} (h : stripPrefix pre s = some rest) : s = pre ++ rest := by
  unfold stripPrefix at h
  split at h
  · next starts =>
    obtain ⟨tail, same⟩ := List.isPrefixOf_iff_prefix.mp starts
    rw [← same, List.drop_left, Option.some.injEq] at h
    apply String.toList_inj.mp
    rw [← h, String.toList_append, String.toList_ofList, same]
  · cases h

theorem stripPrefix_append (p s : String) : stripPrefix p (p ++ s) = some s := by
  unfold stripPrefix
  rw [String.toList_append, if_pos (by simp), List.drop_left, String.ofList_toList]

theorem ne_empty_append {s t : String} (some_ : t ≠ "") : s ++ t ≠ "" := by
  intro empty
  have parts := congrArg String.toList empty
  rw [String.toList_append] at parts
  exact some_ (String.toList_inj.mp (List.append_eq_nil_iff.mp parts).2)

/-- `str::split_whitespace`. -/
def splitWhitespace (cs : List Char) : List (List Char) := (cs.splitOnP isWhitespace).filter fun word => !word.isEmpty

/-- No white space, as in a word of `splitWhitespace`. -/
def Solid (cs : List Char) : Prop := ∀ c ∈ cs, isWhitespace c = false

theorem range_of_isAlphanum {c : Char} (alphanum : c.isAlphanum = true) :
    (48 ≤ c.toNat ∧ c.toNat ≤ 57) ∨ (65 ≤ c.toNat ∧ c.toNat ≤ 90) ∨ (97 ≤ c.toNat ∧ c.toNat ≤ 122) := by
  delta Char.isAlphanum Char.isAlpha Char.isUpper Char.isLower Char.isDigit at alphanum
  simp only [Bool.or_eq_true, Bool.and_eq_true, decide_eq_true_eq] at alphanum
  obtain (⟨low, high⟩ | ⟨low, high⟩) | ⟨low, high⟩ := alphanum
  · exact .inr (.inl ⟨UInt32.le_iff_toNat_le.mp low, UInt32.le_iff_toNat_le.mp high⟩)
  · exact .inr (.inr ⟨UInt32.le_iff_toNat_le.mp low, UInt32.le_iff_toNat_le.mp high⟩)
  · exact .inl ⟨UInt32.le_iff_toNat_le.mp low, UInt32.le_iff_toNat_le.mp high⟩

theorem isWhitespace_of_isAlphanum {c : Char} (alphanum : c.isAlphanum = true) : isWhitespace c = false := by
  have range := range_of_isAlphanum alphanum
  unfold isWhitespace
  simp
  omega

theorem isWhitespace_of_isDigit {c : Char} (digit : c.isDigit = true) : isWhitespace c = false :=
  isWhitespace_of_isAlphanum (by simp [Char.isAlphanum, digit])

theorem forall_mem_of_all {α : Type} {p : α → Prop} [DecidablePred p] {cs : List α} (all : cs.all (fun c => decide (p c)) = true) :
    ∀ c ∈ cs, p c := by
  simpa using all

theorem solid_of_all {s : String} (all : s.toList.all (fun c => !isWhitespace c) = true) : Solid s.toList := by
  intro c member
  simpa using List.all_eq_true.mp all c member

theorem solid_append {s t : String} (first : Solid s.toList) (second : Solid t.toList) : Solid (s ++ t).toList := by
  intro c member
  rw [String.toList_append] at member
  exact (List.mem_append.mp member).elim (first c) (second c)

theorem dropWhile_of_solid {cs : List Char} (solid : Solid cs) : cs.dropWhile isWhitespace = cs := by
  cases cs with
  | nil => rfl
  | cons c cs => simp [solid c (.head _)]

theorem trimList_of_solid {cs : List Char} (solid : Solid cs) : trimList cs = cs := by
  have reversed : Solid cs.reverse := fun c member => solid c (List.mem_reverse.mp member)
  rw [trimList, dropWhile_of_solid solid, dropWhile_of_solid reversed, List.reverse_reverse]

theorem trim_of_solid {s : String} (solid : Solid s.toList) : trim s = s := by
  rw [trim, trimList_of_solid solid, String.ofList_toList]

theorem trimList_between {c d : Char} (cs : List Char) (first : isWhitespace c = false) (last : isWhitespace d = false) :
    trimList (c :: (cs ++ [d])) = c :: (cs ++ [d]) := by
  simp [trimList, first, last]

theorem dropWhile_of_blank {cs : List Char} (blank : ∀ c ∈ cs, isWhitespace c = true) : cs.dropWhile isWhitespace = [] := by
  have dropped : (cs ++ []).dropWhile isWhitespace = [].dropWhile isWhitespace := List.dropWhile_append_of_pos blank
  simpa using dropped

theorem trimList_last {cs : List Char} {c : Char} (blank : isWhitespace c = true) : trimList (cs ++ [c]) = trimList cs := by
  unfold trimList
  by_cases empty : cs.dropWhile isWhitespace = []
  · have all : ∀ d ∈ cs ++ [c], isWhitespace d = true := by
      intro d member
      rcases List.mem_append.mp member with before | last
      · have taken := List.takeWhile_append_dropWhile (p := isWhitespace) (l := cs)
        rw [empty, List.append_nil] at taken
        rw [← taken] at before
        exact List.all_eq_true.mp List.all_takeWhile d before
      · exact List.mem_singleton.mp last ▸ blank
    rw [empty, dropWhile_of_blank all]
  · rw [List.dropWhile_append, if_neg (by simpa [List.isEmpty_iff] using empty)]
    simp [blank]

section Trimmed

variable {cs ds : List Char} {c : Char}

theorem head?_trimList (first : (trimList cs).head? = some c) : isWhitespace c = false := by
  have before : ((cs.dropWhile isWhitespace).reverse.dropWhile isWhitespace).reverse <+: cs.dropWhile isWhitespace := by
    rw [← List.reverse_suffix, List.reverse_reverse]
    exact List.dropWhile_suffix _
  have same : (cs.dropWhile isWhitespace).head? = some c := by
    obtain ⟨rest, same⟩ := before
    rw [← same, List.head?_append]
    unfold trimList at first
    rw [first]
    rfl
  have := List.head?_dropWhile_not isWhitespace cs
  rw [same] at this
  simpa using this

theorem getLast?_trimList (last : (trimList cs).getLast? = some c) : isWhitespace c = false := by
  unfold trimList at last
  rw [List.getLast?_reverse] at last
  have := List.head?_dropWhile_not isWhitespace (cs.dropWhile isWhitespace).reverse
  rw [last] at this
  simpa using this

theorem dropWhile_of_head (first : ∀ c, cs.head? = some c → isWhitespace c = false) : cs.dropWhile isWhitespace = cs := by
  cases cs with
  | nil => rfl
  | cons c cs => simp [first c rfl]

theorem trimList_of_ends (first : ∀ c, cs.head? = some c → isWhitespace c = false)
    (last : ∀ c, cs.getLast? = some c → isWhitespace c = false) : trimList cs = cs := by
  have reversed : ∀ c, cs.reverse.head? = some c → isWhitespace c = false := by
    intro c same
    exact last c (by rwa [List.head?_reverse] at same)
  rw [trimList, dropWhile_of_head first, dropWhile_of_head reversed, List.reverse_reverse]

theorem trimList_trimList : trimList (trimList cs) = trimList cs :=
  trimList_of_ends (fun _ => head?_trimList) (fun _ => getLast?_trimList)

/-- What is before a trimmed text may be anything that starts without white space. -/
theorem trimList_append (solid : Solid ds) (some_ : ds ≠ []) (trimmed : trimList cs = cs) (some' : cs ≠ []) :
    trimList (ds ++ cs) = ds ++ cs := by
  apply trimList_of_ends
  · intro c first
    apply solid
    cases ds with
    | nil => exact absurd rfl some_
    | cons d ds =>
      cases first
      exact .head _
  · intro c last
    rw [List.getLast?_append] at last
    cases end_ : cs.getLast? with
    | none => exact absurd (List.getLast?_eq_none_iff.mp end_) some'
    | some d =>
      rw [end_] at last
      cases last
      exact getLast?_trimList (trimmed.symm ▸ end_)

end Trimmed

theorem solid_of_mem_splitWhitespace {cs word : List Char} (h : word ∈ splitWhitespace cs) : Solid word := by
  have piece := (List.mem_filter.mp h).1
  clear h
  induction cs generalizing word with
  | nil =>
    obtain rfl := List.mem_singleton.mp (List.splitOnP_nil ▸ piece)
    nofun
  | cons c cs ih =>
    rw [List.splitOnP_cons_eq_if_modifyHead] at piece
    split at piece
    · rcases List.mem_cons.mp piece with rfl | later
      · nofun
      · exact ih later
    · next blank =>
      cases split : cs.splitOnP isWhitespace with
      | nil => exact absurd split (List.splitOnP_ne_nil _ _)
      | cons head rest =>
        rw [split] at piece ih
        rcases List.mem_cons.mp piece with rfl | later
        · intro d member
          rcases List.mem_cons.mp member with rfl | member
          · simpa using blank
          · exact ih (.head _) d member
        · exact ih (.tail _ later)

theorem splitWhitespace_of_solid {cs : List Char} (solid : Solid cs) (some_ : cs ≠ []) : splitWhitespace cs = [cs] := by
  rw [splitWhitespace, List.splitOnP_eq_singleton solid]
  simp [some_]

theorem splitWhitespace_append {left right : List Char} (solid : Solid left) (some_ : left ≠ []) :
    splitWhitespace (left ++ ' ' :: right) = left :: splitWhitespace right := by
  rw [splitWhitespace, List.splitOnP_append_cons_of_forall_mem solid ' ' rfl]
  simp [some_, splitWhitespace]

/-! ### Numbers -/

/-- One more than the largest `u64`. -/
def u64 : Nat := 2 ^ 64

/-- `u64::saturating_add`. -/
def saturatingAdd (a b : Nat) : Nat := min (a + b) (u64 - 1)

/-- `Option::ok_or`. -/
def okOr {α ε : Type} (value : Option α) (e : ε) : Except ε α :=
  match value with
  | some a => .ok a
  | none => .error e

theorem okOr_eq_ok {α ε : Type} {value : Option α} {e : ε} {a : α} : okOr value e = .ok a ↔ value = some a := by
  cases value <;> simp [okOr]

/-- `str::parse::<u64>`. -/
def parseU64 (s : String) : Option Nat :=
  let digits := match s.toList with
    | '+' :: rest => rest
    | cs => cs
  if digits ≠ [] ∧ digits.all Char.isDigit = true ∧ Nat.ofDigitChars 10 digits 0 < u64 then
    some (Nat.ofDigitChars 10 digits 0)
  else none

/-- `str::parse::<u16>`. -/
def parseU16 (s : String) : Option Nat := (parseU64 s).filter (· < 2 ^ 16)

/-- The digits of a number, after its sign if it has one. -/
def unsigned : List Char → List Char
  | '+' :: rest => rest
  | '-' :: rest => rest
  | cs => cs

/-- The value of decimal digits with an optional sign. -/
def signed (cs : List Char) : Int :=
  let magnitude : Int := Nat.ofDigitChars 10 (unsigned cs) 0
  if cs.head? = some '-' then -magnitude else magnitude

/-- `str::parse::<i32>`: nothing but digits after an optional sign, and nothing out of range. -/
def parseI32 (s : String) : Option Int :=
  let digits := unsigned s.toList
  let value := signed s.toList
  if digits ≠ [] ∧ digits.all Char.isDigit = true ∧ -2 ^ 31 ≤ value ∧ value < 2 ^ 31 then some value else none

/-- `{n:0width}` as characters. -/
def padded (width n : Nat) : List Char :=
  List.replicate (width - (Nat.toDigits 10 n).length) '0' ++ Nat.toDigits 10 n

theorem ofDigitChars_padded (width n : Nat) : Nat.ofDigitChars 10 (padded width n) 0 = n := by
  rw [padded, Nat.ofDigitChars_append, Nat.ofDigitChars_replicate_zero, Nat.mul_zero]
  exact Nat.ofDigitChars_ten_toDigits

theorem padded_injective {width m n : Nat} (h : padded width m = padded width n) : m = n := by
  rw [← ofDigitChars_padded width m, h, ofDigitChars_padded]

theorem isDigit_of_mem_padded {width n : Nat} {c : Char} (h : c ∈ padded width n) : c.isDigit = true := by
  rcases List.mem_append.mp h with zero | digit
  · obtain ⟨-, rfl⟩ := List.mem_replicate.mp zero
    rfl
  · exact Nat.isDigit_of_mem_toDigits (by decide) (by decide) digit

theorem all_isDigit_padded (width n : Nat) : (padded width n).all Char.isDigit = true :=
  List.all_eq_true.mpr fun _ member => isDigit_of_mem_padded member

theorem padded_ne_nil (width n : Nat) : padded width n ≠ [] := by
  simp [padded, Nat.toDigits_ne_nil]

theorem toString_injective {m n : Nat} (h : toString m = toString n) : m = n := by
  have digits : Nat.toDigits 10 m = Nat.toDigits 10 n :=
    Nat.toList_repr.symm.trans ((congrArg String.toList h).trans Nat.toList_repr)
  have value := congrArg (Nat.ofDigitChars 10 · 0) digits
  simpa only [Nat.ofDigitChars_ten_toDigits] using value

theorem cut_injective {separator : Char} {a a' b b' : List Char} (clean : separator ∉ b) (clean' : separator ∉ b')
    (same : a ++ separator :: b = a' ++ separator :: b') : a = a' ∧ b = b' := by
  obtain ⟨c, rfl, rest⟩ | ⟨c, rfl, rest⟩ := List.append_eq_append_iff.mp same
  · cases c with
    | nil => exact ⟨(List.append_nil a).symm, (List.cons.inj rest).2⟩
    | cons d c =>
      obtain ⟨-, rfl⟩ := List.cons.inj rest
      exact absurd (by simp) clean
  · cases c with
    | nil => exact ⟨List.append_nil a', (List.cons.inj rest).2.symm⟩
    | cons d c =>
      obtain ⟨-, rfl⟩ := List.cons.inj rest
      exact absurd (by simp) clean'

theorem digit_of_toString {n : Nat} {c : Char} (h : c ∈ (toString n).toList) : c.isDigit = true := by
  have digits : (toString n).toList = Nat.toDigits 10 n := Nat.toList_repr
  rw [digits] at h
  exact Nat.isDigit_of_mem_toDigits (by decide) (by decide) h

/-- Decimal digits whose value is in range are read as that value. -/
theorem parseU64_of_digits {digits : List Char} (some_ : digits ≠ []) (all : digits.all Char.isDigit = true)
    (bound : Nat.ofDigitChars 10 digits 0 < u64) : parseU64 (String.ofList digits) = some (Nat.ofDigitChars 10 digits 0) := by
  cases digits with
  | nil => exact absurd rfl some_
  | cons c rest =>
    have unsigned : c ≠ '+' := by
      rintro rfl
      exact absurd (List.all_eq_true.mp all '+' (List.mem_cons_self ..)) (by decide)
    simp only [parseU64, String.toList_ofList]
    split
    · next digits rest' same =>
      cases same
      exact absurd rfl unsigned
    · exact if_pos ⟨some_, all, bound⟩

theorem parseU64_toString {n : Nat} (bound : n < u64) : parseU64 (toString n) = some n := by
  have digits : toString n = String.ofList (Nat.toDigits 10 n) := String.toList_inj.mp (by simp)
  have all : (Nat.toDigits 10 n).all Char.isDigit = true :=
    List.all_eq_true.mpr fun c member => Nat.isDigit_of_mem_toDigits (by decide) (by decide) member
  rw [digits, parseU64_of_digits Nat.toDigits_ne_nil all (by rwa [Nat.ofDigitChars_ten_toDigits]), Nat.ofDigitChars_ten_toDigits]

theorem parseI32_of_digits {digits : List Char} (some_ : digits ≠ []) (all : digits.all Char.isDigit = true)
    (bound : Nat.ofDigitChars 10 digits 0 < 2 ^ 31) : parseI32 (String.ofList digits) = some (Nat.ofDigitChars 10 digits 0 : Int) := by
  cases digits with
  | nil => exact absurd rfl some_
  | cons c rest =>
    have first : c.isDigit = true := List.all_eq_true.mp all c (.head _)
    have plus : c ≠ '+' := by
      rintro rfl
      exact absurd first (by decide)
    have minus : c ≠ '-' := by
      rintro rfl
      exact absurd first (by decide)
    have bare : unsigned (c :: rest) = c :: rest := by
      unfold unsigned
      split
      · next same =>
        cases same
        exact absurd rfl plus
      · next same =>
        cases same
        exact absurd rfl minus
      · rfl
    have value : signed (c :: rest) = (Nat.ofDigitChars 10 (c :: rest) 0 : Int) := by
      unfold signed
      rw [bare]
      simp [minus]
    unfold parseI32
    simp only [String.toList_ofList]
    rw [bare, value, if_pos]
    refine ⟨by simp, all, ?_, ?_⟩
    · omega
    · omega

theorem parseI32_toString {n : Nat} (bound : n < 2 ^ 31) : parseI32 (toString n) = some (n : Int) := by
  have digits : toString n = String.ofList (Nat.toDigits 10 n) := String.toList_inj.mp (by simp)
  have all : (Nat.toDigits 10 n).all Char.isDigit = true :=
    List.all_eq_true.mpr fun c member => Nat.isDigit_of_mem_toDigits (by decide) (by decide) member
  rw [digits, parseI32_of_digits Nat.toDigits_ne_nil all (by rwa [Nat.ofDigitChars_ten_toDigits]), Nat.ofDigitChars_ten_toDigits]

theorem solid_toString (n : Nat) : Solid (toString n).toList := fun _ member => isWhitespace_of_isDigit (digit_of_toString member)

theorem toString_ne_empty (n : Nat) : toString n ≠ "" := by
  intro empty
  have digits : (toString n).toList = Nat.toDigits 10 n := Nat.toList_repr
  rw [empty] at digits
  exact Nat.toDigits_ne_nil digits.symm

end Azbridge.Text
