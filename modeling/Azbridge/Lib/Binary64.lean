import Mathlib.Algebra.Order.Field.Power
import Mathlib.Data.Int.Log
import Mathlib.Data.List.TakeWhile
import Mathlib.Data.Rat.Floor
import Mathlib.Tactic.Linarith
import Mathlib.Tactic.Positivity
import Mathlib.Tactic.NormNum
import Mathlib.Tactic.FieldSimp
import Mathlib.Tactic.Ring

/-!
# Double precision

Rationals that are not negative, rounded to whole numbers and to doubles: to the nearest one, and
halfway to the even one.
-/

namespace Binary64

def nearest (q : ℚ) : Nat :=
  let n := ⌊q⌋₊
  if q - n < 1 / 2 then n
  else if 1 / 2 < q - n then n + 1
  else n + n % 2

theorem nearest_error {q : ℚ} (positive : 0 ≤ q) : |(nearest q : ℚ) - q| ≤ 1 / 2 := by
  have low := Nat.floor_le positive
  have high := Nat.lt_floor_add_one q
  have parity : ((⌊q⌋₊ % 2 : Nat) : ℚ) ≤ 1 := by
    have : ⌊q⌋₊ % 2 ≤ 1 := by omega
    exact_mod_cast this
  have parity' : (0 : ℚ) ≤ ((⌊q⌋₊ % 2 : Nat) : ℚ) := Nat.cast_nonneg _
  rw [abs_le]
  unfold nearest
  dsimp only
  split_ifs with below above
  · constructor <;> linarith
  · push_cast
    constructor <;> linarith
  · rw [Nat.cast_add]
    constructor <;> linarith

theorem nearest_eq {q : ℚ} {n : Nat} (positive : 0 ≤ q) (close : |q - n| < 1 / 2) : nearest q = n := by
  have error := nearest_error positive
  rw [abs_le] at error
  rw [abs_lt] at close
  have below : (nearest q : ℚ) < n + 1 := by linarith
  have above : (n : ℚ) < nearest q + 1 := by linarith
  have below' : nearest q < n + 1 := by exact_mod_cast below
  have above' : n < nearest q + 1 := by exact_mod_cast above
  omega

/-- The exponent of the last binary place: 53 places, and none below the subnormal ones. -/
def lastPlace (q : ℚ) : Int := max (Int.log 2 q - 52) (-1074)

def round (q : ℚ) : ℚ := nearest (q / 2 ^ lastPlace q) * 2 ^ lastPlace q

theorem round_nonneg (q : ℚ) : 0 ≤ round q := by
  unfold round
  positivity

theorem round_error {q : ℚ} (positive : 0 ≤ q) : |round q - q| ≤ 2 ^ lastPlace q / 2 := by
  have place : (0 : ℚ) < 2 ^ lastPlace q := by positivity
  have error := nearest_error (q := q / 2 ^ lastPlace q) (by positivity)
  have scaled : round q - q = (nearest (q / 2 ^ lastPlace q) - q / 2 ^ lastPlace q) * 2 ^ lastPlace q := by
    unfold round
    field_simp
  rw [scaled, abs_mul, abs_of_pos place]
  calc |(nearest (q / 2 ^ lastPlace q) : ℚ) - q / 2 ^ lastPlace q| * 2 ^ lastPlace q
      ≤ 1 / 2 * 2 ^ lastPlace q := mul_le_mul_of_nonneg_right error place.le
    _ = 2 ^ lastPlace q / 2 := by ring

/-- Below one, doubles are dense. -/
theorem round_error_of_le_one {q : ℚ} (positive : 0 ≤ q) (small : q ≤ 1) : |round q - q| ≤ 1 / 2 ^ 53 := by
  have place : lastPlace q ≤ -52 := by
    have : Int.log 2 q ≤ 0 := by
      rw [Int.log_of_right_le_one 2 small]
      omega
    unfold lastPlace
    omega
  have power : (2 : ℚ) ^ lastPlace q ≤ 2 ^ (-52 : Int) := zpow_le_zpow_right₀ (by norm_num) place
  calc |round q - q| ≤ 2 ^ lastPlace q / 2 := round_error positive
    _ ≤ 2 ^ (-52 : Int) / 2 := div_le_div_of_nonneg_right power (by norm_num)
    _ = 1 / 2 ^ 53 := by norm_num

inductive Double where
  | nan
  | infinite (negative : Bool)
  | finite (negative : Bool) (magnitude : ℚ)
  deriving DecidableEq

namespace Double

/-- The double next to a number, infinite where that is too large. -/
def ofMagnitude (negative : Bool) (q : ℚ) : Double :=
  if round q < 2 ^ 1024 then .finite negative (round q) else .infinite negative

/-- Less than zero, which a negative zero is not. -/
def isNegative : Double → Bool
  | .nan => false
  | .infinite negative => negative
  | .finite negative q => negative && decide (q ≠ 0)

/-- The digits of an exponent count until it is large enough. -/
def exponent (digits : List Char) : Nat :=
  digits.foldl (fun e c => if e < 0x10000 then 10 * e + (c.toNat - '0'.toNat) else e) 0

/-- A sign and digits after the letter of an exponent, and nothing else. -/
def parseExponent : List Char → Option Int
  | '-' :: digits => if digits ≠ [] ∧ digits.all Char.isDigit = true then some (-(exponent digits : Int)) else none
  | '+' :: digits => if digits ≠ [] ∧ digits.all Char.isDigit = true then some (exponent digits) else none
  | digits => if digits ≠ [] ∧ digits.all Char.isDigit = true then some (exponent digits) else none

def parseFraction : List Char → List Char × List Char
  | '.' :: rest => (rest.takeWhile Char.isDigit, rest.dropWhile Char.isDigit)
  | rest => ([], rest)

/-- The double that digits stand for, some of them after the point. -/
def ofDigits (negative : Bool) (whole fraction : List Char) (exponent : Int) : Double :=
  ofMagnitude negative (Nat.ofDigitChars 10 (whole ++ fraction) 0 * 10 ^ (exponent - fraction.length))

def parseNumber (negative : Bool) (cs : List Char) : Option Double :=
  let whole := cs.takeWhile Char.isDigit
  let (fraction, rest) := parseFraction (cs.dropWhile Char.isDigit)
  if whole ++ fraction = [] then none
  else match rest with
    | [] => some (ofDigits negative whole fraction 0)
    | c :: rest => if c = 'e' ∨ c = 'E' then (parseExponent rest).map (ofDigits negative whole fraction) else none

def parseSpecial (negative : Bool) (cs : List Char) : Option Double :=
  let word := cs.map Char.toLower
  if word = "nan".toList then some .nan
  else if word = "inf".toList ∨ word = "infinity".toList then some (.infinite negative)
  else none

/-- `str::parse::<f64>`. -/
def parse (cs : List Char) : Option Double :=
  let (negative, cs) := match cs with
    | '-' :: rest => (true, rest)
    | '+' :: rest => (false, rest)
    | cs => (false, cs)
  (parseNumber negative cs).or (parseSpecial negative cs)

/-- Digits after a point. -/
theorem parse_fraction {digits : List Char} (all : digits.all Char.isDigit = true) :
    parse ('0' :: '.' :: digits) = some (ofDigits false ['0'] digits 0) := by
  have whole : digits.takeWhile Char.isDigit = digits := List.takeWhile_eq_self_iff.mpr (by simpa using all)
  have rest : digits.dropWhile Char.isDigit = [] := List.dropWhile_eq_nil_iff.mpr (by simpa using all)
  simp [parse, parseNumber, parseFraction, whole, rest]

/-! No text of a number holds a colon. -/

theorem colon_mem_dropWhile {cs : List Char} (colon : ':' ∈ cs) : ':' ∈ cs.dropWhile Char.isDigit := by
  rw [← List.takeWhile_append_dropWhile (p := Char.isDigit) (l := cs)] at colon
  cases List.mem_append.mp colon with
  | inl digit => exact absurd (List.mem_takeWhile_imp digit) (by decide)
  | inr rest => exact rest

theorem not_all_of_colon {cs : List Char} (colon : ':' ∈ cs) : ¬ (cs ≠ [] ∧ cs.all Char.isDigit = true) := by
  rintro ⟨-, all⟩
  exact absurd (List.all_eq_true.mp all _ colon) (by decide)

theorem parseExponent_colon {cs : List Char} (colon : ':' ∈ cs) : parseExponent cs = none := by
  unfold parseExponent
  split <;> exact if_neg (not_all_of_colon (by simpa using colon))

theorem parseNumber_colon {negative : Bool} {cs : List Char} (colon : ':' ∈ cs) : parseNumber negative cs = none := by
  have rest : ':' ∈ (parseFraction (cs.dropWhile Char.isDigit)).2 := by
    have after := colon_mem_dropWhile colon
    unfold parseFraction
    split
    · next rest same =>
      rw [same] at after
      exact colon_mem_dropWhile (by simpa using after)
    · exact after
  unfold parseNumber
  dsimp only
  split
  · rfl
  · split
    · next same => simp [same] at rest
    · next c tail same =>
      split
      · next exponent =>
        rw [same] at rest
        have colon : ':' ∈ tail := by
          cases List.mem_cons.mp rest with
          | inl first =>
            subst first
            simp at exponent
          | inr later => exact later
        rw [parseExponent_colon colon]
        rfl
      · rfl

theorem parseSpecial_colon {negative : Bool} {cs : List Char} (colon : ':' ∈ cs) : parseSpecial negative cs = none := by
  have word : ':' ∈ cs.map Char.toLower := List.mem_map.mpr ⟨':', colon, rfl⟩
  have other : ∀ name : List Char, ':' ∉ name → cs.map Char.toLower ≠ name := by
    intro name clean same
    exact clean (same ▸ word)
  unfold parseSpecial
  simp [other]

theorem parse_colon {cs : List Char} (colon : ':' ∈ cs) : parse cs = none := by
  unfold parse
  split
  · next negative body same =>
    have within : ':' ∈ body := by
      split at same <;> cases same
      · simpa using colon
      · simpa using colon
      · exact colon
    rw [parseNumber_colon within, parseSpecial_colon within]
    rfl

end Double

end Binary64
