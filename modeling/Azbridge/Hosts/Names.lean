import Azbridge.Text

/-!
# Hostnames and loopback addresses

Which hosts can be mapped in a hosts file, the name they are mapped under, and the address in
`127.77.0.0/16` that a slot stands for.
-/

namespace Azbridge.Hosts

def normalizeHostname (host : List Char) : List Char :=
  let name := (Text.trimList host).map Char.toLower
  if name.getLast? = some '.' then name.dropLast else name

/-! ### IP literals -/

/-- A decimal octet without leading zeros. -/
def isOctet (part : List Char) : Bool :=
  !part.isEmpty && part.length ≤ 3 && part.all Char.isDigit && (part.length == 1 || part.head? != some '0') &&
    Nat.ofDigitChars 10 part 0 < 256

def isIpv4 (text : List Char) : Bool := (text.splitOn '.').length == 4 && (text.splitOn '.').all isOctet

def isHextet (part : List Char) : Bool :=
  !part.isEmpty && part.length ≤ 4 && part.all fun c => c.isDigit || ('a' ≤ c && c ≤ 'f') || ('A' ≤ c && c ≤ 'F')

/-- How many 16-bit groups these are; an IPv4 address may stand for the last two. -/
def ipv6Groups (text : List Char) : Option Nat :=
  let parts := text.splitOn ':'
  if text.isEmpty then some 0
  else if parts.all isHextet then some parts.length
  else if parts.dropLast.all isHextet && parts.getLast?.any isIpv4 then some (parts.length + 1)
  else none

/-- What stands before and after the first `"::"`. -/
def splitElision : List Char → Option (List Char × List Char)
  | ':' :: ':' :: rest => some ([], rest)
  | c :: rest => (splitElision rest).map fun (before, after) => (c :: before, after)
  | [] => none

def isIpv6 (text : List Char) : Bool :=
  match splitElision text with
  | none => ipv6Groups text == some 8
  | some (before, after) =>
    (before.isEmpty || (before.splitOn ':').all isHextet) &&
      ((ipv6Groups before).bind fun head => (ipv6Groups after).map fun tail => decide (head + tail ≤ 7)) == some true

/-- `name.parse::<std::net::IpAddr>().is_ok()`. -/
def isIpAddr (text : List Char) : Bool := isIpv4 text || isIpv6 text

/-! ### Hosts with an alias -/

def isLabel (label : List Char) : Bool :=
  !label.isEmpty && Text.utf8Length label ≤ 63 && label.head?.any (fun c => c.isAlphanum || c == '_') &&
    label.all fun c => c.isAlphanum || c == '-' || c == '_'

/-- Four groups of at most three digits, as an IPv4 address has. -/
def looksIpv4 (name : List Char) : Bool :=
  (name.splitOn '.').length == 4 &&
    (name.splitOn '.').all fun part => !part.isEmpty && part.length ≤ 3 && part.all Char.isDigit

def localhost : List Char := ['l', 'o', 'c', 'a', 'l', 'h', 'o', 's', 't']

def isAliasableHost (host : List Char) : Bool :=
  let name := normalizeHostname host
  !(name.isEmpty || name == localhost || decide (253 < Text.utf8Length name) || isIpAddr name) &&
    !looksIpv4 name && (name.splitOn '.').all isLabel

def fnv1a32 (text : List Char) : UInt32 :=
  (text.flatMap String.utf8EncodeChar).foldl (fun hash byte => (hash ^^^ byte.toUInt32) * 0x01000193) 0x811c9dc5

def addressPrefix : List Char := ['1', '2', '7', '.', '7', '7']

def slots : Nat := 65534

def slotAddress (slot : Nat) : List Char :=
  addressPrefix ++ '.' :: Nat.toDigits 10 (slot >>> 8) ++ '.' :: Nat.toDigits 10 (slot &&& 255)

def firstSlot (name : List Char) : Nat := 1 + (fnv1a32 name).toNat % slots

/-! ### Names -/

/-- A character of a mapped hostname. -/
def isNameChar (c : Char) : Bool := c.isAlphanum || c == '-' || c == '_' || c == '.'

/-- A hostname that can be mapped, in the form it is mapped under. -/
structure IsName (name : List Char) : Prop where
  aliasable : isAliasableHost name = true
  normal : normalizeHostname name = name

theorem mem_splitOn {cs : List Char} {sep c : Char} (h : c ∈ cs) : c = sep ∨ ∃ part ∈ cs.splitOn sep, c ∈ part := by
  have joined : [sep].intercalate (cs.splitOn sep) = cs := List.intercalate_splitOn sep
  generalize cs.splitOn sep = parts at joined
  rw [← joined] at h
  clear joined
  induction parts with
  | nil => cases h
  | cons part parts ih =>
    by_cases last : parts = []
    · subst last
      rw [List.intercalate_singleton] at h
      exact .inr ⟨part, .head _, h⟩
    · rw [List.intercalate_cons_of_ne_nil last] at h
      simp only [List.mem_append, List.mem_singleton] at h
      rcases h with (here | here) | later
      · exact .inr ⟨part, .head _, here⟩
      · exact .inl here
      · rcases ih later with same | ⟨p, member, within⟩
        · exact .inl same
        · exact .inr ⟨p, .tail _ member, within⟩

theorem isNameChar_of_label {label : List Char} (h : isLabel label = true) : ∀ c ∈ label, isNameChar c = true := by
  unfold isLabel at h
  simp only [Bool.and_eq_true, List.all_eq_true] at h
  intro c member
  have here := h.2 c member
  simp only [isNameChar, Bool.or_eq_true] at here ⊢
  exact .inl here

theorem labels_of_aliasable {host : List Char} (h : isAliasableHost host = true) :
    ∀ label ∈ (normalizeHostname host).splitOn '.', isLabel label = true := by
  unfold isAliasableHost at h
  simp only [Bool.and_eq_true, List.all_eq_true] at h
  exact h.2

theorem isNameChar_of_aliasable {host : List Char} (h : isAliasableHost host = true) :
    ∀ c ∈ normalizeHostname host, isNameChar c = true := by
  intro c member
  have parts : c = '.' ∨ ∃ part ∈ (normalizeHostname host).splitOn '.', c ∈ part := mem_splitOn member
  rcases parts with rfl | ⟨label, part, within⟩
  · rfl
  · exact isNameChar_of_label (labels_of_aliasable h label part) c within

theorem ne_nil_of_aliasable {host : List Char} (h : isAliasableHost host = true) : normalizeHostname host ≠ [] := by
  intro empty
  unfold isAliasableHost at h
  simp [empty] at h

theorem getLast_of_aliasable {host : List Char} (h : isAliasableHost host = true) :
    (normalizeHostname host).getLast? ≠ some '.' := by
  intro dot
  obtain ⟨before, split⟩ := List.getLast?_eq_some_iff.mp dot
  have labels := labels_of_aliasable h
  rw [split, List.splitOn_append_cons_self] at labels
  have empty := labels [] (by simp)
  simp [isLabel] at empty

theorem solid_of_nameChar {cs : List Char} (h : ∀ c ∈ cs, isNameChar c = true) : Text.Solid cs := by
  intro c member
  have here := h c member
  simp only [isNameChar, Bool.or_eq_true, beq_iff_eq] at here
  rcases here with ((here | rfl) | rfl) | rfl
  · have range := Text.range_of_isAlphanum here
    have bounds : 48 ≤ c.toNat ∧ c.toNat ≤ 122 := by omega
    simp only [Text.isWhitespace, Bool.or_eq_false_iff, Bool.and_eq_false_iff, decide_eq_false_iff_not, beq_eq_false_iff_ne]
    omega
  all_goals rfl

theorem toLower_of_upper {c : Char} (h : c.val ≥ 'A'.val ∧ c.val ≤ 'Z'.val) : c.toLower.val = c.val + ('a'.val - 'A'.val) := by
  delta Char.toLower
  rw [dif_pos h]

theorem toLower_of_not_upper {c : Char} (h : ¬ (c.val ≥ 'A'.val ∧ c.val ≤ 'Z'.val)) : c.toLower = c := by
  delta Char.toLower
  rw [dif_neg h]

theorem map_toLower_normalize (host : List Char) : (normalizeHostname host).map Char.toLower = normalizeHostname host := by
  have lower : ∀ cs : List Char, (cs.map Char.toLower).map Char.toLower = cs.map Char.toLower := by
    intro cs
    rw [List.map_map]
    exact List.map_congr_left fun c _ => Text.toLower_toLower c
  unfold normalizeHostname
  dsimp only
  split
  · rw [← List.map_dropLast, lower]
  · exact lower _

theorem normalize_normalize {host : List Char} (h : isAliasableHost host = true) :
    normalizeHostname (normalizeHostname host) = normalizeHostname host := by
  have trimmed := Text.trimList_of_solid (solid_of_nameChar (isNameChar_of_aliasable h))
  rw [normalizeHostname, trimmed, map_toLower_normalize]
  simp [getLast_of_aliasable h]

theorem isName_of_aliasable {host : List Char} (h : isAliasableHost host = true) : IsName (normalizeHostname host) := by
  refine ⟨?_, normalize_normalize h⟩
  rw [isAliasableHost, normalize_normalize h]
  exact h

namespace IsName
variable {name : List Char}

theorem chars (h : IsName name) : ∀ c ∈ name, isNameChar c = true := by
  have all := isNameChar_of_aliasable h.aliasable
  rwa [h.normal] at all

theorem solid (h : IsName name) : Text.Solid name := solid_of_nameChar h.chars

theorem ne_nil (h : IsName name) : name ≠ [] := by
  have some_ := ne_nil_of_aliasable h.aliasable
  rwa [h.normal] at some_

end IsName

theorem toDigits_isDigit {n : Nat} : ∀ c ∈ Nat.toDigits 10 n, c.isDigit = true :=
  fun _ member => Nat.isDigit_of_mem_toDigits (by decide) (by decide) member

theorem slotAddress_injective {s t : Nat} (h : slotAddress s = slotAddress t) : s = t := by
  unfold slotAddress at h
  simp only [List.append_assoc, List.cons_append, List.append_cancel_left_eq, List.cons.injEq, true_and] at h
  have pieces := congrArg (List.splitOn '.') h
  have digits : ∀ n, '.' ∉ Nat.toDigits 10 n := fun n member => absurd (toDigits_isDigit _ member) (by decide)
  rw [List.splitOn_append_cons_self_of_not_mem (digits _), List.splitOn_append_cons_self_of_not_mem (digits _),
    List.splitOn_eq_singleton (digits _), List.splitOn_eq_singleton (digits _)] at pieces
  simp only [List.cons.injEq, and_true] at pieces
  have same : ∀ {m n}, Nat.toDigits 10 m = Nat.toDigits 10 n → m = n := by
    intro m n equal
    have value := congrArg (Nat.ofDigitChars 10 · 0) equal
    simpa only [Nat.ofDigitChars_ten_toDigits] using value
  have high := same pieces.1
  have low := same pieces.2
  have mask : ∀ n, n &&& 255 = n % 256 := fun n => Nat.and_two_pow_sub_one_eq_mod n 8
  rw [mask, mask] at low
  rw [Nat.shiftRight_eq_div_pow, Nat.shiftRight_eq_div_pow] at high
  omega

theorem slotAddress_chars {s : Nat} : ∀ c ∈ slotAddress s, isNameChar c = true := by
  intro c member
  have digit : c.isDigit = true → isNameChar c = true := fun h => by simp [isNameChar, Char.isAlphanum, h]
  simp only [slotAddress, List.mem_append, List.mem_cons] at member
  rcases member with ((member | rfl | member) | rfl | member)
  · exact List.all_eq_true.mp (show addressPrefix.all isNameChar = true by decide) c member
  · rfl
  · exact digit (toDigits_isDigit c member)
  · rfl
  · exact digit (toDigits_isDigit c member)

end Azbridge.Hosts
