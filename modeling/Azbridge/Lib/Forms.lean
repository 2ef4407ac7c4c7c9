import Mathlib.Data.List.Basic

/-!
# Percent-encoded forms

Bytes written as themselves or as a percent sign and two hexadecimal digits, and forms of named values that
are joined by ampersands. A reader takes any text apart; it gives back what was encoded.
-/

namespace Forms

def percent : UInt8 := 37
def plus : UInt8 := 43
def space : UInt8 := 32
def ampersand : UInt8 := 38
def equals : UInt8 := 61

def hexDigit (n : Nat) : UInt8 := UInt8.ofNat (if n < 10 then 48 + n else 55 + n)

def hexValue (b : UInt8) : Option Nat :=
  let n := b.toNat
  if 48 ≤ n ∧ n ≤ 57 then some (n - 48)
  else if 65 ≤ n ∧ n ≤ 70 then some (n - 55)
  else if 97 ≤ n ∧ n ≤ 102 then some (n - 87)
  else none

def escape (b : UInt8) : List UInt8 := [percent, hexDigit (b.toNat / 16), hexDigit (b.toNat % 16)]

def encodeByte (keep : UInt8 → Bool) (b : UInt8) : List UInt8 := if keep b then [b] else escape b

def encode (keep : UInt8 → Bool) (bytes : List UInt8) : List UInt8 := bytes.flatMap (encodeByte keep)

/-- A percent sign without two digits stands for itself. -/
def percentDecode : List UInt8 → List UInt8
  | 37 :: high :: low :: rest =>
    match hexValue high, hexValue low with
    | some h, some l => UInt8.ofNat (16 * h + l) :: percentDecode rest
    | _, _ => 37 :: percentDecode (high :: low :: rest)
  | b :: rest => b :: percentDecode rest
  | [] => []

def replacePlus (bytes : List UInt8) : List UInt8 := bytes.map fun b => if b = plus then space else b

/-- A name or a value of a form. -/
def decode (bytes : List UInt8) : List UInt8 := percentDecode (replacePlus bytes)

/-- The name ends at the first equals sign; without one there is no value. -/
def parseField (field : List UInt8) : List UInt8 × List UInt8 :=
  (decode (field.takeWhile (· != equals)), decode ((field.dropWhile (· != equals)).drop 1))

/-- `application/x-www-form-urlencoded`; empty fields are left out. -/
def parse (bytes : List UInt8) : List (List UInt8 × List UInt8) :=
  ((bytes.splitOn ampersand).filter fun field => !field.isEmpty).map parseField

variable {keep : UInt8 → Bool} {bytes : List UInt8}

theorem hexValue_hexDigit : ∀ n < 16, hexValue (hexDigit n) = some n := by decide

theorem hexDigit_plain : ∀ n < 16, hexDigit n ≠ percent ∧ hexDigit n ≠ plus ∧ hexDigit n ≠ ampersand ∧
    hexDigit n ≠ equals := by decide

theorem halves (b : UInt8) : b.toNat / 16 < 16 ∧ b.toNat % 16 < 16 ∧ UInt8.ofNat (16 * (b.toNat / 16) + b.toNat % 16) = b := by
  have small : b.toNat < 256 := b.toNat_lt
  refine ⟨by omega, by omega, ?_⟩
  rw [Nat.div_add_mod, UInt8.ofNat_toNat]

theorem percentDecode_plain {b : UInt8} (plain : b ≠ percent) (rest : List UInt8) :
    percentDecode (b :: rest) = b :: percentDecode rest := by
  rw [percentDecode]
  rintro high low more rfl
  exact absurd rfl plain

theorem percentDecode_escape (b : UInt8) (rest : List UInt8) : percentDecode (escape b ++ rest) = b :: percentDecode rest := by
  obtain ⟨high, low, whole⟩ := halves b
  unfold escape percent
  rw [List.cons_append, List.cons_append, List.cons_append, List.nil_append, percentDecode]
  simp only [hexValue_hexDigit _ high, hexValue_hexDigit _ low, whole]

theorem percentDecode_encode (known : keep percent = false) (rest : List UInt8) :
    percentDecode (encode keep bytes ++ rest) = bytes ++ percentDecode rest := by
  induction bytes with
  | nil => rfl
  | cons b bytes ih =>
    have split : encode keep (b :: bytes) = encodeByte keep b ++ encode keep bytes := List.flatMap_cons
    rw [split, List.append_assoc]
    unfold encodeByte
    cases kept : keep b with
    | true =>
      have plain : b ≠ percent := by
        rintro rfl
        rw [known] at kept
        cases kept
      show percentDecode (b :: (encode keep bytes ++ rest)) = b :: (bytes ++ percentDecode rest)
      rw [percentDecode_plain plain, ih]
    | false =>
      show percentDecode (escape b ++ (encode keep bytes ++ rest)) = b :: (bytes ++ percentDecode rest)
      rw [percentDecode_escape, ih]

theorem percentDecode_of_plain (plain : percent ∉ bytes) : percentDecode bytes = bytes := by
  induction bytes with
  | nil => rfl
  | cons b bytes ih =>
    have first : b ≠ percent := fun same => plain (same ▸ List.mem_cons_self)
    rw [percentDecode_plain first, ih fun later => plain (List.mem_cons_of_mem _ later)]

theorem replacePlus_of_plain (plain : plus ∉ bytes) : replacePlus bytes = bytes := by
  unfold replacePlus
  conv => rhs; rw [← List.map_id bytes]
  apply List.map_congr_left
  intro b member
  have other : b ≠ plus := fun same => plain (same ▸ member)
  rw [if_neg other]
  rfl

theorem mem_encode {b : UInt8} (member : b ∈ encode keep bytes) : keep b = true ∨ b = percent ∨ ∃ n < 16, b = hexDigit n := by
  obtain ⟨a, _, written⟩ := List.mem_flatMap.mp member
  unfold encodeByte at written
  split at written
  · next kept =>
    obtain rfl := List.mem_singleton.mp written
    exact .inl kept
  · obtain ⟨high, low, _⟩ := halves a
    simp only [escape, List.mem_cons, List.not_mem_nil, or_false] at written
    obtain rfl | rfl | rfl := written
    · exact .inr (.inl rfl)
    · exact .inr (.inr ⟨_, high, rfl⟩)
    · exact .inr (.inr ⟨_, low, rfl⟩)

/-- The bytes that are kept are none of those that mean something in a form. -/
structure Plain (keep : UInt8 → Bool) : Prop where
  percent : keep percent = false
  plus : keep plus = false
  ampersand : keep ampersand = false
  equals : keep equals = false

theorem decode_encode (plain : Plain keep) : decode (encode keep bytes) = bytes := by
  have clean : plus ∉ encode keep bytes := by
    intro member
    rcases mem_encode member with kept | sign | ⟨n, small, digit⟩
    · exact absurd kept (by rw [plain.plus]; decide)
    · exact absurd sign (by decide)
    · exact (hexDigit_plain n small).2.1 digit.symm
  unfold decode
  rw [replacePlus_of_plain clean]
  have whole : percentDecode (encode keep bytes ++ []) = bytes ++ percentDecode [] := percentDecode_encode plain.percent []
  rwa [List.append_nil, show percentDecode [] = [] from rfl, List.append_nil] at whole

theorem decode_of_plain (signs : percent ∉ bytes) (pluses : plus ∉ bytes) : decode bytes = bytes := by
  rw [decode, replacePlus_of_plain pluses, percentDecode_of_plain signs]

theorem parseField_pair {name value : List UInt8} (whole : equals ∉ name) :
    parseField (name ++ equals :: value) = (decode name, decode value) := by
  have other : ∀ b ∈ name, (b != equals) = true := by
    intro b member
    simp only [bne_iff_ne]
    rintro rfl
    exact whole member
  unfold parseField
  rw [List.takeWhile_append_of_pos other, List.dropWhile_append_of_pos other]
  simp

/-- Fields whose names and values hold no ampersand, and no equals sign in the names. -/
theorem parse_fields {fields : List (List UInt8 × List UInt8)} (some_ : fields ≠ [])
    (clean : ∀ f ∈ fields, ampersand ∉ f.1 ∧ ampersand ∉ f.2 ∧ equals ∉ f.1) :
    parse ([ampersand].intercalate (fields.map fun f => f.1 ++ equals :: f.2)) =
      fields.map fun f => (decode f.1, decode f.2) := by
  have parts : ([ampersand].intercalate (fields.map fun f => f.1 ++ equals :: f.2)).splitOn ampersand =
      fields.map fun f => f.1 ++ equals :: f.2 := by
    apply List.splitOn_intercalate
    · intro part member
      obtain ⟨f, held, rfl⟩ := List.mem_map.mp member
      obtain ⟨first, second, _⟩ := clean f held
      have sign : ampersand ≠ equals := by decide
      simp [first, second, sign]
    · simpa using some_
  unfold parse
  rw [parts, List.filter_eq_self.mpr, List.map_map]
  · apply List.map_congr_left
    intro f held
    exact parseField_pair (clean f held).2.2
  · intro part member
    obtain ⟨f, _, rfl⟩ := List.mem_map.mp member
    simp

end Forms
