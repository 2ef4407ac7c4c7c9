import Azbridge.Hosts.Allocation

/-!
# Allocation in the browser

The browser shows the addresses that the gateway will use. Its rule is the same except for the text
functions of the two languages: which white space is trimmed, and which letters have a lower case.
-/

namespace Azbridge.Hosts.Browser
open Text

/-! ### Strings of the browser -/

/-- What `String.prototype.trim` removes: white space and line terminators. -/
def isSpace (c : Char) : Bool :=
  (0x9 ≤ c.toNat && c.toNat ≤ 0xd) || c.toNat == 0x20 || c.toNat == 0xa0 || c.toNat == 0x1680 ||
    (0x2000 ≤ c.toNat && c.toNat ≤ 0x200a) || c.toNat == 0x2028 || c.toNat == 0x2029 || c.toNat == 0x202f ||
    c.toNat == 0x205f || c.toNat == 0x3000 || c.toNat == 0xfeff

def nextLine : Char := Char.ofNat 0x85
def byteOrderMark : Char := Char.ofNat 0xfeff

/-- The Unicode tables behind `String.prototype.toLowerCase`: the lower case of a character among others. -/
structure Lowercase where
  char : (before : List Char) → Char → (after : List Char) → List Char
  ascii : ∀ before c after, c.toNat < 128 → char before c after = [c.toLower]
  nextLine : ∀ before after, char before nextLine after = [nextLine]
  byteOrderMark : ∀ before after, char before byteOrderMark after = [byteOrderMark]
  some_ : ∀ before c after, char before c after ≠ []
  other : ∀ before c after, ∀ d ∈ char before c after, d = Browser.nextLine ∨ d = Browser.byteOrderMark ∨ d = '.' → c = d

/-- The characters are lowered one by one; what stands before one is given in order. -/
def toLowerCaseFrom (unicode : Lowercase) : List Char → List Char → List Char
  | _, [] => []
  | before, c :: after => unicode.char before c after ++ toLowerCaseFrom unicode (before ++ [c]) after

def toLowerCase (unicode : Lowercase) (text : List Char) : List Char := toLowerCaseFrom unicode [] text

def trim (text : List Char) : List Char := ((text.dropWhile isSpace).reverse.dropWhile isSpace).reverse

/-- The code units of a character. -/
def utf16 (c : Char) : List Nat :=
  if c.toNat < 0x10000 then [c.toNat]
  else [0xd800 + (c.toNat - 0x10000) / 0x400, 0xdc00 + (c.toNat - 0x10000) % 0x400]

/-- `text.length`. -/
def length (text : List Char) : Nat := (text.flatMap utf16).length

/-- The order of `sort`: by code units. -/
def sortsBefore (a b : List Char) : Prop := a.flatMap utf16 ≤ b.flatMap utf16

instance : DecidableRel sortsBefore := fun a b => inferInstanceAs (Decidable (a.flatMap utf16 ≤ b.flatMap utf16))

/-! ### Hosts with an alias -/

def normalizeHostname (unicode : Lowercase) (host : List Char) : List Char :=
  let name := toLowerCase unicode (trim host)
  if name.getLast? = some '.' then name.dropLast else name

/-- `/^\d{1,3}(\.\d{1,3}){3}$/`. -/
def ipv4Pattern (name : List Char) : Bool :=
  (name.splitOn '.').length == 4 &&
    (name.splitOn '.').all fun part => 1 ≤ part.length && part.length ≤ 3 && part.all Char.isDigit

/-- `[a-z0-9_]`. -/
def isWord (c : Char) : Bool := c.isLower || c.isDigit || c == '_'

/-- `[a-z0-9_]([a-z0-9_-]{0,62})`. -/
def labelPattern : List Char → Bool
  | [] => false
  | c :: rest => isWord c && rest.length ≤ 62 && rest.all fun d => isWord d || d == '-'

def isAliasableHost (unicode : Lowercase) (host : List Char) : Bool :=
  let name := normalizeHostname unicode host
  !host.isEmpty && !(name.isEmpty || name == localhost || name.contains ':' || name == ['*']) && !ipv4Pattern name &&
    (name.splitOn '.').all labelPattern && length name ≤ 253

/-- `Math.imul` and `>>> 0` keep the low 32 bits. -/
def fnv1a32 (text : List Char) : Nat :=
  (text.flatMap String.utf8EncodeChar).foldl (fun hash byte => (hash ^^^ byte.toNat) * 0x01000193 % 2 ^ 32) 0x811c9dc5

/-- `[...new Set(..)].sort()`. -/
def sortedNames (unicode : Lowercase) (hosts : List (List Char)) : List (List Char) :=
  ((hosts.filter (isAliasableHost unicode)).map (normalizeHostname unicode)).dedup.insertionSort sortsBefore

/-- The first loop, with the entries of `result` and what is in `used`, the last ones first. -/
def keepExisting (existing : Existing) : List (List Char) → Addresses → List (List Char) → Addresses × List (List Char)
  | [], result, used => (result, used)
  | name :: rest, result, used =>
    match existing name with
    | some kept =>
      if !kept.isEmpty && (addressPrefix ++ ['.']).isPrefixOf kept && !used.contains kept then
        keepExisting existing rest ((name, kept) :: result) (kept :: used)
      else keepExisting existing rest result used
    | none => keepExisting existing rest result used

/-- The second loop. -/
def assignSlots : List (List Char) → Addresses → List (List Char) → Option Addresses
  | [], result, _ => some result
  | name :: rest, result, used =>
    if (result.map (·.1)).contains name then assignSlots rest result used
    else
      match probe used slots (1 + fnv1a32 name % slots) with
      | some slot => assignSlots rest ((name, slotAddress slot) :: result) (slotAddress slot :: used)
      | none => none

/-- `none` where the search for a free slot never ends. -/
def allocateLoopback (unicode : Lowercase) (hosts : List (List Char)) (existing : Existing) : Option Addresses :=
  let names := sortedNames unicode hosts
  let (result, used) := keepExisting existing names [] []
  assignSlots names result used

/-! ### The same white space -/

def trimBy (p : Char → Bool) (text : List Char) : List Char := ((text.dropWhile p).reverse.dropWhile p).reverse

section Trimming
variable {p q : Char → Bool} {cs : List Char}

theorem dropWhile_congr (h : ∀ c ∈ cs.takeWhile p, q c = true) (h' : ∀ c ∈ cs.takeWhile q, p c = true) :
    cs.dropWhile p = cs.dropWhile q := by
  induction cs with
  | nil => rfl
  | cons c cs ih =>
    cases left : p c <;> cases right : q c
    · simp [left, right]
    · have same := h' c (by simp [right])
      rw [left] at same
      cases same
    · have same := h c (by simp [left])
      rw [right] at same
      cases same
    · rw [List.dropWhile_cons_of_pos left, List.dropWhile_cons_of_pos right]
      refine ih (fun d member => h d ?_) (fun d member => h' d ?_)
      · rw [List.takeWhile_cons_of_pos left]
        exact .tail _ member
      · rw [List.takeWhile_cons_of_pos right]
        exact .tail _ member

theorem count_dropWhile {x : Char} (kept : p x = false) (cs : List Char) : (cs.dropWhile p).count x = cs.count x := by
  induction cs with
  | nil => rfl
  | cons c cs ih =>
    cases drops : p c
    · rw [List.dropWhile_cons_of_neg (by simp [drops])]
    · have other : c ≠ x := by
        rintro rfl
        rw [drops] at kept
        cases kept
      rw [List.dropWhile_cons_of_pos drops, ih, List.count_cons_of_ne other]

theorem count_trimBy {x : Char} (kept : p x = false) (cs : List Char) : (trimBy p cs).count x = cs.count x := by
  rw [trimBy, List.count_reverse, count_dropWhile kept, List.count_reverse, count_dropWhile kept]

theorem not_trimmed {x : Char} (same : (trimBy p cs).count x = cs.count x) :
    x ∉ cs.takeWhile p ∧ x ∉ (cs.dropWhile p).reverse.takeWhile p := by
  have front := congrArg (List.count x) (List.takeWhile_append_dropWhile (p := p) (l := cs))
  have back := congrArg (List.count x) (List.takeWhile_append_dropWhile (p := p) (l := (cs.dropWhile p).reverse))
  rw [List.count_append] at front back
  rw [List.count_reverse] at back
  rw [trimBy, List.count_reverse] at same
  rw [← List.count_eq_zero, ← List.count_eq_zero]
  omega

theorem trimBy_congr {x y : Char} (same : (trimBy p cs).count x = cs.count x) (same' : (trimBy q cs).count y = cs.count y)
    (h : ∀ c, p c = true → c ≠ x → q c = true) (h' : ∀ c, q c = true → c ≠ y → p c = true) : trimBy p cs = trimBy q cs := by
  have kept := not_trimmed same
  have kept' := not_trimmed same'
  have all : ∀ {r : Char → Bool} {l : List Char}, ∀ c ∈ l.takeWhile r, r c = true :=
    fun {r l} c member => List.all_eq_true.mp (List.all_takeWhile (p := r) (l := l)) c member
  have front : cs.dropWhile p = cs.dropWhile q :=
    dropWhile_congr (fun c member => h c (all c member) (ne_of_mem_of_not_mem member kept.1))
      (fun c member => h' c (all c member) (ne_of_mem_of_not_mem member kept'.1))
  rw [← front] at kept'
  have back : (cs.dropWhile p).reverse.dropWhile p = (cs.dropWhile p).reverse.dropWhile q :=
    dropWhile_congr (fun c member => h c (all c member) (ne_of_mem_of_not_mem member kept.2))
      (fun c member => h' c (all c member) (ne_of_mem_of_not_mem member kept'.2))
  rw [trimBy, trimBy, back, front]

end Trimming

theorem space_of_isSpace {c : Char} (h : isSpace c = true) (other : c ≠ byteOrderMark) : isWhitespace c = true := by
  have value : c.toNat ≠ 0xfeff := fun same => other (by rw [byteOrderMark, ← same, Char.ofNat_toNat])
  simp only [isSpace, Bool.or_eq_true, Bool.and_eq_true, decide_eq_true_eq, beq_iff_eq] at h
  simp only [isWhitespace, Bool.or_eq_true, Bool.and_eq_true, decide_eq_true_eq, beq_iff_eq]
  omega

theorem isSpace_of_space {c : Char} (h : isWhitespace c = true) (other : c ≠ nextLine) : isSpace c = true := by
  have value : c.toNat ≠ 0x85 := fun same => other (by rw [nextLine, ← same, Char.ofNat_toNat])
  simp only [isWhitespace, Bool.or_eq_true, Bool.and_eq_true, decide_eq_true_eq, beq_iff_eq] at h
  simp only [isSpace, Bool.or_eq_true, Bool.and_eq_true, decide_eq_true_eq, beq_iff_eq]
  omega

/-! ### The same lower case -/

theorem count_toLowerCase (unicode : Lowercase) {x : Char} (special : x = nextLine ∨ x = byteOrderMark) (text : List Char) :
    (toLowerCase unicode text).count x = text.count x := by
  have fixed : ∀ before after, unicode.char before x after = [x] := by
    rcases special with rfl | rfl
    · exact unicode.nextLine
    · exact unicode.byteOrderMark
  have from_ : ∀ before, (toLowerCaseFrom unicode before text).count x = text.count x := by
    induction text with
    | nil => exact fun _ => rfl
    | cons c after ih =>
      intro before
      rw [toLowerCaseFrom, List.count_append, ih]
      by_cases same : c = x
      · subst same
        rw [fixed, List.count_cons_self, List.count_cons_self, List.count_nil]
        omega
      · have none_ : (unicode.char before c after).count x = 0 := by
          refine List.count_eq_zero.mpr fun member => same (unicode.other before c after x member ?_)
          exact special.elim .inl fun h => .inr (.inl h)
        rw [none_, List.count_cons_of_ne same, Nat.zero_add]
  exact from_ []

theorem toLower_eq_iff {c x : Char} (other : x.toNat < 65 ∨ 122 < x.toNat) : c.toLower = x ↔ c = x := by
  have value : x.toNat = x.val.toNat := rfl
  by_cases upper : c.val ≥ 'A'.val ∧ c.val ≤ 'Z'.val
  · have lowered := congrArg UInt32.toNat (toLower_of_upper upper)
    simp only [ge_iff_le, UInt32.le_iff_toNat_le] at upper
    have lower : ('a'.val - 'A'.val) = 32 := rfl
    have first : 'A'.val.toNat = 65 := rfl
    have last : 'Z'.val.toNat = 90 := rfl
    rw [lower, UInt32.toNat_add] at lowered
    have shift : (32 : UInt32).toNat = 32 := rfl
    constructor
    · rintro rfl
      omega
    · rintro rfl
      omega
  · rw [toLower_of_not_upper upper]

theorem count_map_toLower {x : Char} (other : x.toNat < 65 ∨ 122 < x.toNat) (text : List Char) :
    (text.map Char.toLower).count x = text.count x := by
  induction text with
  | nil => rfl
  | cons c text ih =>
    have same := @toLower_eq_iff c x other
    rw [List.map_cons, List.count_cons, List.count_cons, ih]
    simp only [beq_iff_eq, same]

theorem getLast_toLowerCase (unicode : Lowercase) (text : List Char) :
    (toLowerCase unicode text).getLast? = some '.' ↔ text.getLast? = some '.' := by
  have from_ : ∀ before, (toLowerCaseFrom unicode before text).getLast? = some '.' ↔ text.getLast? = some '.' := by
    induction text with
    | nil => exact fun _ => Iff.rfl
    | cons c after ih =>
      intro before
      have tail := ih (before ++ [c])
      rw [toLowerCaseFrom, List.getLast?_append]
      cases after with
      | nil =>
        obtain ⟨front, last, block⟩ := List.eq_nil_or_concat (unicode.char before c []) |>.resolve_left (unicode.some_ _ _ _)
        rw [List.concat_eq_append] at block
        rw [toLowerCaseFrom, block]
        simp only [List.getLast?_nil, Option.none_or, List.getLast?_append, List.getLast?_singleton, Option.some_or,
          Option.some.injEq]
        constructor
        · rintro rfl
          exact unicode.other before c [] '.' (by rw [block]; simp) (.inr (.inr rfl))
        · rintro rfl
          rw [unicode.ascii before '.' [] (by decide)] at block
          have single := congrArg List.getLast? block
          simpa using single.symm
      | cons d after =>
        have some_ : toLowerCaseFrom unicode (before ++ [c]) (d :: after) ≠ [] := by
          rw [toLowerCaseFrom]
          simp [unicode.some_]
        rw [List.getLast?_cons_cons, ← tail]
        obtain ⟨last, final⟩ := Option.isSome_iff_exists.mp (List.getLast?_isSome.mpr some_)
        rw [final, Option.some_or]
  exact from_ []

theorem getLast_map_toLower (text : List Char) : (text.map Char.toLower).getLast? = some '.' ↔ text.getLast? = some '.' := by
  rw [List.getLast?_map, Option.map_eq_some_iff]
  constructor
  · rintro ⟨c, last, lowered⟩
    rw [last, (toLower_eq_iff (.inl (by decide))).mp lowered]
  · exact fun last => ⟨'.', last, rfl⟩

/-! ### The same names -/

/-- A trailing dot is removed. -/
def stripDot (name : List Char) : List Char := if name.getLast? = some '.' then name.dropLast else name

theorem count_stripDot {x : Char} (other : x ≠ '.') (name : List Char) : (stripDot name).count x = name.count x := by
  unfold stripDot
  split
  · next last =>
    obtain ⟨before, rfl⟩ := List.getLast?_eq_some_iff.mp last
    rw [List.dropLast_concat, List.count_append, List.count_singleton, if_neg (by simpa using other.symm), Nat.add_zero]
  · rfl

theorem stripDot_injective {name name' : List Char} (dots : name.getLast? = some '.' ↔ name'.getLast? = some '.')
    (same : stripDot name = stripDot name') : name = name' := by
  unfold stripDot at same
  by_cases last : name.getLast? = some '.'
  · obtain ⟨before, rfl⟩ := List.getLast?_eq_some_iff.mp last
    obtain ⟨before', rfl⟩ := List.getLast?_eq_some_iff.mp (dots.mp last)
    simpa using same
  · rwa [if_neg last, if_neg (mt dots.mpr last)] at same

/-- Both languages trim the host alike, and it has no capital letters but those of ASCII. -/
structure Plainly (unicode : Lowercase) (host : List Char) : Prop where
  trimmed : trim host = trimList host
  lowered : toLowerCase unicode (trimList host) = (trimList host).map Char.toLower

theorem normalizeHostname_eq_iff (unicode : Lowercase) (host : List Char) :
    normalizeHostname unicode host = Hosts.normalizeHostname host ↔ Plainly unicode host := by
  have left : normalizeHostname unicode host = stripDot (toLowerCase unicode (trim host)) := rfl
  have right : Hosts.normalizeHostname host = stripDot ((trimList host).map Char.toLower) := rfl
  rw [left, right]
  constructor
  · intro same
    have counted : ∀ x, x = nextLine ∨ x = byteOrderMark → (trim host).count x = (trimList host).count x := by
      intro x special
      have other : x ≠ '.' ∧ 122 < x.toNat := by
        rcases special with rfl | rfl <;> decide
      have counts := congrArg (List.count x) same
      rwa [count_stripDot other.1, count_stripDot other.1, count_toLowerCase unicode special,
        count_map_toLower (.inr other.2)] at counts
    have mark : (trimBy isSpace host).count byteOrderMark = host.count byteOrderMark :=
      (counted _ (.inr rfl)).trans (count_trimBy (by decide) host)
    have next : (trimBy isWhitespace host).count nextLine = host.count nextLine :=
      (counted _ (.inl rfl)).symm.trans (count_trimBy (by decide) host)
    have trimmed : trim host = trimList host :=
      trimBy_congr mark next (fun c => space_of_isSpace) (fun c => isSpace_of_space)
    refine ⟨trimmed, ?_⟩
    rw [trimmed] at same
    refine stripDot_injective ?_ same
    rw [getLast_toLowerCase, getLast_map_toLower]
  · intro h
    rw [h.trimmed, h.lowered]

/-! ### The same hosts -/

theorem colon_mem_of_isIpv6 {text : List Char} (h : isIpv6 text = true) : ':' ∈ text := by
  have elided : ∀ {cs before after : List Char}, splitElision cs = some (before, after) → ':' ∈ cs := by
    intro cs
    induction cs with
    | nil => nofun
    | cons c cs ih =>
      intro before after found
      rw [splitElision.eq_def] at found
      split at found
      · next same => simp_all
      · next c' rest _ same =>
        obtain ⟨rfl, rfl⟩ := List.cons.inj same
        obtain ⟨⟨before', after'⟩, later, -⟩ := Option.map_eq_some_iff.mp found
        exact .tail _ (ih later)
      · cases found
  by_contra none_
  unfold isIpv6 at h
  cases found : splitElision text with
  | some parts => exact none_ (elided found)
  | none =>
    rw [found] at h
    have groups : ipv6Groups text = some 8 := by simpa using h
    have single : text.splitOn ':' = [text] := List.splitOn_eq_singleton none_
    simp only [ipv6Groups, single] at groups
    split at groups
    · cases groups
    · split at groups
      · cases groups
      · split at groups <;> cases groups

theorem looksIpv4_of_isIpv4 {name : List Char} (h : isIpv4 name = true) : looksIpv4 name = true := by
  unfold isIpv4 at h
  unfold looksIpv4
  rw [Bool.and_eq_true] at h ⊢
  refine ⟨h.1, List.all_eq_true.mpr fun part member => ?_⟩
  have octet := List.all_eq_true.mp h.2 part member
  simp only [isOctet, Bool.and_eq_true] at octet ⊢
  exact octet.1.1

theorem ipv4Pattern_eq (name : List Char) : ipv4Pattern name = looksIpv4 name := by
  have parts : (fun part : List Char => decide (1 ≤ part.length) && decide (part.length ≤ 3) && part.all Char.isDigit) =
      fun part => !part.isEmpty && decide (part.length ≤ 3) && part.all Char.isDigit := by
    funext part
    cases part <;> simp
  rw [ipv4Pattern, looksIpv4, parts]

theorem isWord_iff {c : Char} (lower : c.toLower = c) : isWord c = (c.isAlphanum || c == '_') := by
  have noCapital : c.isUpper = false := by
    rw [Bool.eq_false_iff]
    intro upper
    have range : c.val ≥ 'A'.val ∧ c.val ≤ 'Z'.val := by
      delta Char.isUpper at upper
      simpa using upper
    have lowered := congrArg UInt32.toNat (toLower_of_upper range)
    rw [lower, UInt32.toNat_add] at lowered
    simp only [ge_iff_le, UInt32.le_iff_toNat_le] at range
    have shift : ('a'.val - 'A'.val).toNat = 32 := rfl
    have last : 'Z'.val.toNat = 90 := rfl
    omega
  unfold isWord
  delta Char.isAlphanum Char.isAlpha
  simp [noCapital]

/-- Characters of a hostname are one byte and one code unit each. -/
theorem single_of_nameChar {c : Char} (h : isNameChar c = true) : c.utf8Size = 1 ∧ utf16 c = [c.toNat] := by
  have small : c.toNat ≤ 127 := by
    simp only [isNameChar, Bool.or_eq_true, beq_iff_eq] at h
    rcases h with ((here | rfl) | rfl) | rfl
    · have range := Text.range_of_isAlphanum here
      omega
    all_goals decide
  constructor
  · rw [Char.utf8Size_eq_one_iff]
    exact UInt32.le_iff_toNat_le.mpr small
  · exact if_pos (by omega)

theorem utf8Length_of_nameChar {cs : List Char} (h : ∀ c ∈ cs, isNameChar c = true) : utf8Length cs = cs.length := by
  unfold utf8Length
  induction cs with
  | nil => rfl
  | cons c cs ih =>
    rw [List.map_cons, List.sum_cons, ih fun d member => h d (.tail _ member), (single_of_nameChar (h c (.head _))).1,
      List.length_cons]
    omega

theorem flatMap_utf16_of_nameChar {cs : List Char} (h : ∀ c ∈ cs, isNameChar c = true) : cs.flatMap utf16 = cs.map Char.toNat := by
  induction cs with
  | nil => rfl
  | cons c cs ih =>
    rw [List.flatMap_cons, ih fun d member => h d (.tail _ member), (single_of_nameChar (h c (.head _))).2]
    rfl

theorem labelPattern_eq {label : List Char} (lower : ∀ c ∈ label, c.toLower = c) : labelPattern label = isLabel label := by
  cases label with
  | nil => rfl
  | cons c rest =>
    have first := isWord_iff (lower c (.head _))
    have others : ∀ d ∈ rest, (isWord d || d == '-') = (d.isAlphanum || d == '-' || d == '_') := by
      intro d member
      rw [isWord_iff (lower d (.tail _ member)), Bool.or_right_comm]
    have inLabel : ∀ d, (d.isAlphanum || d == '-' || d == '_') = true → isNameChar d = true := by
      intro d word
      simp only [isNameChar, Bool.or_eq_true] at word ⊢
      exact .inl word
    rw [Bool.eq_iff_iff]
    simp only [labelPattern, isLabel, first, List.isEmpty_cons, Bool.not_false, Bool.true_and, List.head?_cons, Option.any_some,
      List.all_cons, Bool.and_eq_true, decide_eq_true_eq, List.all_eq_true]
    constructor
    · rintro ⟨⟨head, short⟩, tail⟩
      have headWord : (c.isAlphanum || c == '-' || c == '_') = true := by
        simp only [Bool.or_eq_true] at head ⊢
        exact head.elim (fun h => .inl (.inl h)) .inr
      have tailWord : ∀ d ∈ rest, (d.isAlphanum || d == '-' || d == '_') = true := fun d member => others d member ▸ tail d member
      have size : utf8Length (c :: rest) = rest.length + 1 := utf8Length_of_nameChar fun d member => by
        rcases List.mem_cons.mp member with rfl | member
        · exact inLabel d headWord
        · exact inLabel d (tailWord d member)
      exact ⟨⟨by omega, head⟩, headWord, tailWord⟩
    · rintro ⟨⟨short, head⟩, headWord, tailWord⟩
      have size : utf8Length (c :: rest) = rest.length + 1 := utf8Length_of_nameChar fun d member => by
        rcases List.mem_cons.mp member with rfl | member
        · exact inLabel d headWord
        · exact inLabel d (tailWord d member)
      exact ⟨⟨head, by omega⟩, fun d member => (others d member).symm ▸ tailWord d member⟩

theorem mem_of_mem_splitOn {cs part : List Char} {sep c : Char} (member : part ∈ cs.splitOn sep) (within : c ∈ part) : c ∈ cs := by
  have joined : [sep].intercalate (cs.splitOn sep) = cs := List.intercalate_splitOn sep
  rw [← joined]
  generalize cs.splitOn sep = parts at member
  induction parts with
  | nil => cases member
  | cons first parts ih =>
    by_cases last : parts = []
    · subst last
      rw [List.intercalate_singleton]
      exact List.mem_singleton.mp member ▸ within
    · rw [List.intercalate_cons_of_ne_nil last]
      rcases List.mem_cons.mp member with rfl | later
      · exact List.mem_append_left _ (List.mem_append_left _ within)
      · exact List.mem_append_right _ (ih later)

theorem isNameChar_of_labels {name : List Char} {c : Char} (labels : (name.splitOn '.').all isLabel = true) (member : c ∈ name) :
    isNameChar c = true := by
  have parts : c = '.' ∨ ∃ part ∈ name.splitOn '.', c ∈ part := mem_splitOn member
  rcases parts with rfl | ⟨part, within, here⟩
  · rfl
  · exact isNameChar_of_label (List.all_eq_true.mp labels part within) c here

theorem isAliasableHost_eq {unicode : Lowercase} {host : List Char}
    (same : normalizeHostname unicode host = Hosts.normalizeHostname host) :
    isAliasableHost unicode host = Hosts.isAliasableHost host := by
  have lower := map_toLower_normalize host
  unfold isAliasableHost Hosts.isAliasableHost
  simp only [same, ipv4Pattern_eq]
  have empty : host.isEmpty = true → Hosts.normalizeHostname host = [] := by
    intro none_
    rw [List.isEmpty_iff.mp none_]
    rfl
  generalize Hosts.normalizeHostname host = name at lower empty
  have lowered : ∀ c ∈ name, c.toLower = c := by
    have fixed := List.map_inj_left.mp (lower.trans (List.map_id _).symm)
    exact fixed
  have labels : (name.splitOn '.').all labelPattern = (name.splitOn '.').all isLabel := by
    rw [Bool.eq_iff_iff, List.all_eq_true, List.all_eq_true]
    refine forall₂_congr fun part member => ?_
    rw [labelPattern_eq fun c within => lowered c (mem_of_mem_splitOn member within)]
  rw [labels]
  cases all : (name.splitOn '.').all isLabel with
  | false => simp
  | true =>
    have chars : ∀ c ∈ name, isNameChar c = true := fun c member => isNameChar_of_labels all member
    have colon : ':' ∉ name := fun member => absurd (chars _ member) (by decide)
    have colonless : name.contains ':' = false := by simpa using colon
    have star : name ≠ ['*'] := by
      rintro rfl
      exact absurd (chars '*' (.head _)) (by decide)
    have units : length name = utf8Length name := by
      rw [length, flatMap_utf16_of_nameChar chars, List.length_map, utf8Length_of_nameChar chars]
    have address : isIpAddr name = true → looksIpv4 name = true := by
      intro h
      rcases Bool.or_eq_true_iff.mp h with four | six
      · exact looksIpv4_of_isIpv4 four
      · exact absurd (colon_mem_of_isIpv6 six) colon
    rw [Bool.eq_iff_iff]
    simp only [colonless, beq_eq_false_iff_ne.mpr star, Bool.or_false, units, Bool.and_true, Bool.and_eq_true,
      Bool.not_eq_true', Bool.or_eq_false_iff, decide_eq_true_eq, decide_eq_false_iff_not]
    constructor
    · rintro ⟨⟨⟨-, some_, notLocal⟩, notFour⟩, short⟩
      have notAddress : isIpAddr name = false := by
        rw [Bool.eq_false_iff]
        intro h
        rw [address h] at notFour
        cases notFour
      exact ⟨⟨⟨⟨some_, notLocal⟩, by omega⟩, notAddress⟩, notFour⟩
    · rintro ⟨⟨⟨⟨some_, notLocal⟩, short⟩, -⟩, notFour⟩
      have given : host.isEmpty = false := by
        rw [Bool.eq_false_iff]
        intro none_
        rw [empty none_] at some_
        cases some_
      exact ⟨⟨⟨given, some_, notLocal⟩, notFour⟩, by omega⟩

theorem map_toNat_lt {a b : List Char} : a.map Char.toNat < b.map Char.toNat ↔ a < b := by
  induction a generalizing b with
  | nil => cases b <;> simp
  | cons c a ih =>
    cases b with
    | nil => simp
    | cons d b =>
      have less : c.toNat < d.toNat ↔ c < d := UInt32.lt_iff_toNat_lt.symm
      have same : c.toNat = d.toNat ↔ c = d := by
        constructor
        · intro h
          rw [← Char.ofNat_toNat c, h, Char.ofNat_toNat]
        · rintro rfl
          rfl
      rw [List.map_cons, List.map_cons, List.cons_lt_cons_iff, List.cons_lt_cons_iff, ih, less, same]

theorem sortsBefore_iff {a b : List Char} (left : ∀ c ∈ a, isNameChar c = true) (right : ∀ c ∈ b, isNameChar c = true) :
    sortsBefore a b ↔ a ≤ b := by
  rw [sortsBefore, flatMap_utf16_of_nameChar left, flatMap_utf16_of_nameChar right, ← not_lt, ← not_lt, map_toNat_lt]

theorem sortedNames_eq {unicode : Lowercase} {hosts : List (List Char)} (h : ∀ host ∈ hosts, Plainly unicode host) :
    sortedNames unicode hosts = Hosts.sortedNames hosts := by
  have names : ∀ host ∈ hosts, normalizeHostname unicode host = Hosts.normalizeHostname host :=
    fun host member => (normalizeHostname_eq_iff unicode host).mpr (h host member)
  have kept : hosts.filter (isAliasableHost unicode) = hosts.filter Hosts.isAliasableHost :=
    List.filter_congr fun host member => isAliasableHost_eq (names host member)
  have mapped : (hosts.filter Hosts.isAliasableHost).map (normalizeHostname unicode) =
      (hosts.filter Hosts.isAliasableHost).map Hosts.normalizeHostname :=
    List.map_congr_left fun host member => names host (List.mem_of_mem_filter member)
  rw [sortedNames, Hosts.sortedNames, sortedSet, kept, mapped]
  have chars : ∀ name ∈ ((hosts.filter Hosts.isAliasableHost).map Hosts.normalizeHostname).dedup, ∀ c ∈ name, isNameChar c = true := by
    intro name member
    obtain ⟨host, listed, rfl⟩ := List.mem_map.mp (List.mem_dedup.mp member)
    exact isNameChar_of_aliasable (List.mem_filter.mp listed).2
  have order := List.map_insertionSort (r := sortsBefore) (s := (· ≤ ·)) id _ fun a left b right =>
    sortsBefore_iff (chars a left) (chars b right)
  simpa using order

/-! ### The same loops -/

theorem fnv1a32_eq (text : List Char) : fnv1a32 text = (Hosts.fnv1a32 text).toNat := by
  have fold : ∀ (bytes : List UInt8) (hash : UInt32),
      bytes.foldl (fun (hash : Nat) byte => (hash ^^^ byte.toNat) * 0x01000193 % 2 ^ 32) hash.toNat =
        (bytes.foldl (fun (hash : UInt32) byte => (hash ^^^ byte.toUInt32) * 0x01000193) hash).toNat := by
    intro bytes
    induction bytes with
    | nil => exact fun _ => rfl
    | cons byte bytes ih =>
      intro hash
      have step : ((hash ^^^ byte.toUInt32) * 0x01000193).toNat = (hash.toNat ^^^ byte.toNat) * 0x01000193 % 2 ^ 32 := by
        rw [UInt32.toNat_mul, UInt32.toNat_xor, UInt8.toNat_toUInt32]
        rfl
      rw [List.foldl_cons, List.foldl_cons, ← ih, step]
  unfold fnv1a32 Hosts.fnv1a32
  exact fold _ 0x811c9dc5

theorem keepExisting_eq (existing : Existing) (names : List (List Char)) (result : Addresses) :
    keepExisting existing names result (used result) = (keep existing names result, used (keep existing names result)) := by
  induction names generalizing result with
  | nil => rfl
  | cons name rest ih =>
    rw [keepExisting, keep, keptAddress]
    cases existing name with
    | none => exact ih result
    | some kept =>
      dsimp only
      rw [Option.filter_some]
      cases inRange : (addressPrefix ++ ['.']).isPrefixOf kept with
      | false => simpa using ih result
      | true =>
        have some_ : kept.isEmpty = false := by
          cases kept with
          | nil => cases inRange
          | cons => rfl
        cases busy : (used result).contains kept with
        | true =>
          simp only [some_, if_true, busy, Bool.not_false, Bool.not_true, Bool.and_false, Bool.false_eq_true, if_false]
          exact ih result
        | false =>
          simp only [some_, if_true, busy, Bool.not_false, Bool.and_true, Bool.false_eq_true, if_false]
          exact ih ((name, kept) :: result)

theorem assignSlots_eq (names : List (List Char)) (result : Addresses) : assignSlots names result (used result) = assign names result := by
  induction names generalizing result with
  | nil => rfl
  | cons name rest ih =>
    rw [assignSlots, assign, fnv1a32_eq, ← firstSlot]
    split
    · exact ih result
    · cases probe (used result) slots (firstSlot name) with
      | some slot => exact ih ((name, slotAddress slot) :: result)
      | none => rfl

def asMap (entries : Addresses) : Existing := fun name => entries.lookup name

theorem asMap_inOrder {names : List (List Char)} {result : Addresses} (once : names.Nodup) (distinct : Distinct result)
    (complete : ∀ name ∈ names, name ∈ result.map (·.1)) (within : ∀ entry ∈ result, entry.1 ∈ names) :
    asMap (inOrder names result) = asMap result := by
  funext name
  have ordered : ((inOrder names result).map (·.1)).Nodup := by rwa [map_inOrder complete]
  refine Option.ext fun ip => ?_
  constructor
  · intro found
    exact lookup_of_mem distinct.names ((mem_inOrder distinct).mp (mem_of_lookup found)).2
  · intro found
    have member := mem_of_lookup found
    exact lookup_of_mem ordered ((mem_inOrder distinct).mpr ⟨within _ member, member⟩)

theorem allocateLoopback_eq {unicode : Lowercase} {hosts : List (List Char)} {existing : Existing}
    (h : ∀ host ∈ hosts, Plainly unicode host) :
    (allocateLoopback unicode hosts existing).map asMap = (allocate hosts existing).map asMap := by
  have start : keepExisting existing (Hosts.sortedNames hosts) [] [] =
      (keep existing (Hosts.sortedNames hosts) [], used (keep existing (Hosts.sortedNames hosts) [])) := keepExisting_eq existing _ []
  have kept := kept_nil existing hosts
  simp only [allocateLoopback, allocate, sortedNames_eq h]
  rw [start]
  dsimp only
  rw [assignSlots_eq, Option.map_map]
  refine Option.map_congr fun result assigned => ?_
  have total := assigned_assign kept.distinct assigned
  refine (asMap_inOrder (nodup_sortedNames hosts) total.distinct total.complete fun entry member => ?_).symm
  rcases total.source entry member with old | ⟨among, -⟩
  · rcases kept.source entry old with impossible | ⟨among, -⟩
    · cases impossible
    · exact among
  · exact among

/-- The browser allocates what the gateway does, and sees the hosts as it does. -/
structure Parity (unicode : Lowercase) (hosts : List (List Char)) (existing : Existing) : Prop where
  allocation : (allocateLoopback unicode hosts existing).map asMap = (allocate hosts existing).map asMap
  normalized : ∀ host ∈ hosts, normalizeHostname unicode host = Hosts.normalizeHostname host
  aliasable : ∀ host ∈ hosts, isAliasableHost unicode host = Hosts.isAliasableHost host

theorem parity_iff_plainly (unicode : Lowercase) (hosts : List (List Char)) (existing : Existing) :
    Parity unicode hosts existing ↔ ∀ host ∈ hosts, Plainly unicode host := by
  constructor
  · exact fun h host member => (normalizeHostname_eq_iff unicode host).mp (h.normalized host member)
  · intro h
    have names : ∀ host ∈ hosts, normalizeHostname unicode host = Hosts.normalizeHostname host :=
      fun host member => (normalizeHostname_eq_iff unicode host).mpr (h host member)
    exact ⟨allocateLoopback_eq h, names, fun host member => isAliasableHost_eq (names host member)⟩

/-- The Kelvin sign, of which the lower case is a `k`. -/
def kelvin : Char := Char.ofNat 0x212a

/-- Lower case as it is for ASCII and the Kelvin sign. -/
def kelvinCase : Lowercase where
  char _ c _ := [if c = kelvin then 'k' else c.toLower]
  ascii before c after small := by
    have other : c ≠ kelvin := by
      rintro rfl
      exact absurd small (by decide)
    rw [if_neg other]
  nextLine before after := by decide
  byteOrderMark before after := by decide
  some_ before c after := by simp
  other before c after d member special := by
    obtain rfl := List.mem_singleton.mp member
    by_cases same : c = kelvin
    · rw [if_pos same] at special
      exact absurd special (by decide)
    · rw [if_neg same] at special ⊢
      rcases special with h | h | h
      · exact ((toLower_eq_iff (.inr (by decide))).mp h).trans h.symm
      · exact ((toLower_eq_iff (.inr (by decide))).mp h).trans h.symm
      · exact ((toLower_eq_iff (.inl (by decide))).mp h).trans h.symm

theorem kelvin_sign_differs :
    let hosts := [kelvin :: "8s.example".toList]
    (allocateLoopback kelvinCase hosts fun _ => none) = some [("k8s.example".toList, "127.77.234.70".toList)] ∧
    (allocate hosts fun _ => none) = some [] ∧ ¬ Parity kelvinCase hosts fun _ => none := by
  intro hosts
  have browser : (allocateLoopback kelvinCase hosts fun _ => none) = some [("k8s.example".toList, "127.77.234.70".toList)] := by
    decide +kernel
  have gateway : (allocate hosts fun _ => none) = some [] := by decide +kernel
  refine ⟨browser, gateway, fun parity => ?_⟩
  have same := parity.allocation
  rw [browser, gateway, Option.map_some, Option.map_some, Option.some.injEq] at same
  have entry := congrFun same "k8s.example".toList
  exact absurd entry (by decide +kernel)

end Azbridge.Hosts.Browser
