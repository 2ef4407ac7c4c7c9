import Azbridge.Lib.Binary64
import Azbridge.Text

/-!
# Time spans

How an operation timeout is read and written, with the sums and products of `u64` that a debug build
checks, and when it is read back within 100 nanoseconds.
-/

namespace Azbridge.Timespan
open Binary64 (Double)

/-- `std::time::Duration`. -/
structure Duration where
  secs : Nat
  nanos : Nat
  bounded : secs < Text.u64
  subsecond : nanos < 10 ^ 9
  deriving DecidableEq

inductive Failure where
  /-- `RelayError::InvalidConnectionString`. -/
  | invalid (message : String)
  | panicked
  deriving DecidableEq

inductive Build where
  | debug
  | release
  deriving DecidableEq

/-- What a sum or a product of `u64` comes to. -/
def arith (build : Build) (n : Nat) : Except Failure Nat :=
  if n < Text.u64 then .ok n
  else match build with
    | .debug => .error .panicked
    | .release => .ok (n % Text.u64)

namespace Duration

def total (d : Duration) : Nat := d.secs * 10 ^ 9 + d.nanos

/-- The time of this many nanoseconds, which panics if it is too long. -/
def ofNanos (n : Nat) : Except Failure Duration :=
  if bounded : n / 10 ^ 9 < Text.u64 then .ok ⟨n / 10 ^ 9, n % 10 ^ 9, bounded, Nat.mod_lt _ (by decide)⟩
  else .error .panicked

/-- `Duration::from_secs_f64`. -/
def fromSecsF64 : Double → Except Failure Duration
  | .finite negative q =>
    if negative = true ∧ q ≠ 0 then .error .panicked else ofNanos (Binary64.nearest (q * 10 ^ 9))
  | _ => .error .panicked

def add (a b : Duration) : Except Failure Duration := ofNanos (a.total + b.total)

end Duration

def invalid {α : Type} (message s : String) : Except Failure α := .error (.invalid (message ++ s ++ "'"))

/-- The days before a point, unless it is the point of the seconds. -/
def splitDays (s : String) : Except Failure (Nat × String) :=
  match Text.splitOnce '.' s with
  | some (d, rest) =>
    if ':' ∈ d.toList then .ok (0, s)
    else match Text.parseU64 d with
      | some days => .ok (days, rest)
      | none => invalid "Invalid OperationTimeout format: '" s
  | none => .ok (0, s)

def splitFraction (s timePart : String) : Except Failure (String × Double) :=
  match Text.splitOnce '.' timePart with
  | some (hms, frac) =>
    if ':' ∈ hms.toList then
      match Double.parse ("0." ++ frac).toList with
      | some frac => .ok (hms, frac)
      | none => invalid "Invalid fractional seconds in OperationTimeout: '" s
    else invalid "Invalid OperationTimeout format: '" s
  | none => .ok (timePart, .finite false 0)

def totalSecs (build : Build) (days hours minutes seconds : Nat) : Except Failure Nat := do
  let days ← arith build (days * 86400)
  let hours ← arith build (hours * 3600)
  let sum ← arith build (days + hours)
  let minutes ← arith build (minutes * 60)
  let sum ← arith build (sum + minutes)
  arith build (sum + seconds)

def parseClock (build : Build) (s : String) (days : Nat) (hms : String) (frac : Double) : Except Failure Duration :=
  match Text.split ':' hms with
  | [hours, minutes, seconds] => do
    let some hours := Text.parseU64 hours | invalid "Invalid hours in OperationTimeout: '" s
    let some minutes := Text.parseU64 minutes | invalid "Invalid minutes in OperationTimeout: '" s
    let some seconds := Text.parseU64 seconds | invalid "Invalid seconds in OperationTimeout: '" s
    let whole ← Duration.ofNanos ((← totalSecs build days hours minutes seconds) * 10 ^ 9)
    let rest ← Duration.fromSecsF64 frac
    whole.add rest
  | _ => invalid "Invalid OperationTimeout format (expected hh:mm:ss): '" s

def parseTimespan (build : Build) (text : String) : Except Failure Duration :=
  let s := Text.trim text
  match Double.parse s.toList with
  | some secs =>
    if secs.isNegative = true then invalid "OperationTimeout cannot be negative: '" s else Duration.fromSecsF64 secs
  | none => do
    let (days, timePart) ← splitDays s
    let (hms, frac) ← splitFraction s timePart
    parseClock build s days hms frac

/-- `{q:.places}`. -/
def fixed (places : Nat) (q : ℚ) : List Char :=
  let scaled := Binary64.nearest (q * 10 ^ places)
  Nat.toDigits 10 (scaled / 10 ^ places) ++ '.' :: Text.padded places (scaled % 10 ^ places)

def clock (hours minutes seconds : List Char) : List Char := hours ++ ':' :: (minutes ++ ':' :: seconds)

def formatTimespan (d : Duration) : String :=
  let hms := clock (Text.padded 2 (d.secs / 3600)) (Text.padded 2 (d.secs % 3600 / 60)) (Text.padded 2 (d.secs % 60))
  if d.nanos = 0 then String.ofList hms
  else
    let frac := Binary64.round (d.nanos / 10 ^ 9)
    String.ofList (hms ++ (fixed 7 frac).dropWhile (· == '0'))

example : (parseTimespan .debug "59.99999999").map formatTimespan = .ok "00:00:591.0000000" := by decide +kernel

/-! ### The fraction of a second -/

/-- The fraction of a second as it is written, in tenths of a microsecond. -/
def tenths (n : Nat) : Nat := Binary64.nearest (Binary64.round (n / 10 ^ 9) * 10 ^ 7)

theorem fraction_error {n k : Nat} (small : n ≤ k) (some_ : 0 < k) :
    0 ≤ (n / k : ℚ) ∧ |Binary64.round (n / k) - n / k| ≤ 1 / 2 ^ 53 := by
  have bound : (n : ℚ) ≤ k := by exact_mod_cast small
  have positive : (0 : ℚ) < k := by exact_mod_cast some_
  have nonneg : (0 : ℚ) ≤ n / k := by positivity
  exact ⟨nonneg, Binary64.round_error_of_le_one nonneg ((div_le_one positive).mpr bound)⟩

/-- The written fraction is off by half a tenth at most. -/
theorem tenths_error {n : Nat} (small : n < 10 ^ 9) : 100 * tenths n ≤ n + 50 ∧ n ≤ 100 * tenths n + 50 := by
  obtain ⟨_, rounded⟩ := fraction_error small.le (by decide)
  rw [Nat.cast_pow, Nat.cast_ofNat] at rounded
  have nearest := Binary64.nearest_error (q := Binary64.round (n / 10 ^ 9) * 10 ^ 7)
    (mul_nonneg (Binary64.round_nonneg _) (by norm_num))
  change |(tenths n : ℚ) - _| ≤ _ at nearest
  rw [abs_le] at rounded nearest
  norm_num at rounded
  have above : (100 * tenths n : ℚ) < n + 51 := by linarith
  have below : (n : ℚ) < 100 * tenths n + 51 := by linarith
  have above' : 100 * tenths n < n + 51 := by exact_mod_cast above
  have below' : n < 100 * tenths n + 51 := by exact_mod_cast below
  omega

theorem tenths_carry {n : Nat} (small : n < 10 ^ 9) :
    n ≤ 999999950 ∧ tenths n < 10 ^ 7 ∨ 999999950 < n ∧ tenths n = 10 ^ 7 := by
  obtain ⟨above, below⟩ := tenths_error small
  by_cases boundary : n = 999999950
  · subst boundary
    exact .inl ⟨Nat.le_refl _, by decide +kernel⟩
  · omega

theorem length_padded {width n : Nat} (some_ : 0 < width) (small : n < 10 ^ width) : (Text.padded width n).length = width := by
  have fits : (Nat.toDigits 10 n).length ≤ width := (Nat.length_toDigits_le_iff (by decide) some_).mpr small
  rw [Text.padded, List.length_append, List.length_replicate]
  omega

theorem fromSecsF64_positive (q : ℚ) :
    Duration.fromSecsF64 (.finite false q) = Duration.ofNanos (Binary64.nearest (q * 10 ^ 9)) := by
  simp [Duration.fromSecsF64]

/-- What is written of a fraction is read as such. -/
theorem fromSecsF64_tenths {k : Nat} (small : k < 10 ^ 7) :
    Duration.fromSecsF64 (Double.ofDigits false ['0'] (Text.padded 7 k) 0) = Duration.ofNanos (100 * k) := by
  obtain ⟨nonneg, rounded⟩ := fraction_error small.le (by decide)
  rw [Nat.cast_pow, Nat.cast_ofNat] at nonneg rounded
  have value : Nat.ofDigitChars 10 ('0' :: Text.padded 7 k) 0 = k := Text.ofDigitChars_padded 7 k
  have scaled : (k : ℚ) * 10 ^ (0 - (7 : Nat) : Int) = k / 10 ^ 7 := by norm_num [div_eq_mul_inv]
  have finite : Binary64.round (k / 10 ^ 7) < 2 ^ 1024 := by
    have below : (k / 10 ^ 7 : ℚ) ≤ 1 := (div_le_one (by norm_num)).mpr (by exact_mod_cast small.le)
    rw [abs_le] at rounded
    calc Binary64.round (k / 10 ^ 7) ≤ k / 10 ^ 7 + 1 / 2 ^ 53 := by linarith
      _ ≤ 1 + 1 := add_le_add below (by norm_num)
      _ = 2 ^ 1 := by norm_num
      _ < 2 ^ 1024 := pow_lt_pow_right₀ (by norm_num) (by decide)
  have read : Double.ofDigits false ['0'] (Text.padded 7 k) 0 = .finite false (Binary64.round (k / 10 ^ 7)) := by
    unfold Double.ofDigits Double.ofMagnitude
    rw [length_padded (by decide) small, List.singleton_append, value, scaled]
    exact if_pos finite
  have nearest : Binary64.nearest (Binary64.round (k / 10 ^ 7) * 10 ^ 9) = 100 * k := by
    apply Binary64.nearest_eq
    · exact mul_nonneg (Binary64.round_nonneg _) (by norm_num)
    · rw [abs_le] at rounded
      rw [abs_lt, Nat.cast_mul, Nat.cast_ofNat]
      norm_num at rounded
      constructor <;> linarith
  rw [read, fromSecsF64_positive, nearest]

/-! ### Clocks -/

section Clocks

variable {build : Build} {hours minutes seconds digits : List Char}

/-- Some decimal digits. -/
structure Digits (cs : List Char) : Prop where
  some_ : cs ≠ []
  all : cs.all Char.isDigit = true

theorem Digits.padded (width n : Nat) : Digits (Text.padded width n) := 
  ⟨Text.padded_ne_nil width n, Text.all_isDigit_padded width n⟩

theorem Digits.append {cs ds : List Char} (first : Digits cs) (second : Digits ds) : Digits (cs ++ ds) :=
  ⟨by simp [first.some_], by simp only [List.all_append, first.all, second.all, Bool.and_self]⟩

theorem Digits.not_mem {cs : List Char} {c : Char} (digits : Digits cs) (other : c.isDigit = false) : c ∉ cs := by
  intro member
  have is := List.all_eq_true.mp digits.all c member
  rw [other] at is
  cases is

theorem Digits.solid {cs : List Char} (digits : Digits cs) : Text.Solid cs :=
  fun c member => Text.isWhitespace_of_isDigit (List.all_eq_true.mp digits.all c member)

theorem parseClock_digits {s : String} {days : Nat} {frac : Double} (h : Digits hours) (m : Digits minutes) (t : Digits seconds)
    (bh : Nat.ofDigitChars 10 hours 0 < Text.u64) (bm : Nat.ofDigitChars 10 minutes 0 < Text.u64)
    (bs : Nat.ofDigitChars 10 seconds 0 < Text.u64) :
    parseClock build s days (String.ofList (clock hours minutes seconds)) frac = (do
      let whole ← Duration.ofNanos ((← totalSecs build days (Nat.ofDigitChars 10 hours 0) (Nat.ofDigitChars 10 minutes 0)
        (Nat.ofDigitChars 10 seconds 0)) * 10 ^ 9)
      let rest ← Duration.fromSecsF64 frac
      whole.add rest) := by
  have parts : Text.split ':' (String.ofList (clock hours minutes seconds)) =
      [String.ofList hours, String.ofList minutes, String.ofList seconds] := by
    unfold Text.split clock
    rw [String.toList_ofList, List.splitOn_append_cons_self_of_not_mem (h.not_mem (by decide)),
      List.splitOn_append_cons_self_of_not_mem (m.not_mem (by decide)), List.splitOn_eq_singleton (t.not_mem (by decide))]
    rfl
  unfold parseClock
  rw [parts]
  dsimp only
  rw [Text.parseU64_of_digits h.some_ h.all bh, Text.parseU64_of_digits m.some_ m.all bm, Text.parseU64_of_digits t.some_ t.all bs]

theorem colon_mem_clock : ':' ∈ clock hours minutes seconds := by simp [clock]

theorem solid_clock (h : Digits hours) (m : Digits minutes) (t : Digits seconds) : Text.Solid (clock hours minutes seconds) := by
  intro c member
  simp only [clock, List.mem_append, List.mem_cons] at member
  obtain hour | rfl | minute | rfl | second := member
  · exact h.solid c hour
  · rfl
  · exact m.solid c minute
  · rfl
  · exact t.solid c second

theorem point_not_mem_clock (h : Digits hours) (m : Digits minutes) (t : Digits seconds) : '.' ∉ clock hours minutes seconds := by
  simp [clock, h.not_mem (c := '.') (by decide), m.not_mem (c := '.') (by decide), t.not_mem (c := '.') (by decide)]

theorem trim_of_solid {cs : List Char} (solid : Text.Solid cs) : Text.trim (String.ofList cs) = String.ofList cs := by
  rw [Text.trim, String.toList_ofList, Text.trimList_of_solid solid]

theorem parseTimespan_of_parts {s hms timePart : String} {days : Nat} {frac : Double} (trimmed : Text.trim s = s)
    (number : Double.parse s.toList = none) (first : splitDays s = .ok (days, timePart))
    (second : splitFraction s timePart = .ok (hms, frac)) : parseTimespan build s = parseClock build s days hms frac := by
  unfold parseTimespan
  rw [trimmed]
  dsimp only
  rw [number, first]
  show (splitFraction s timePart >>= _) = _
  rw [second]
  rfl

theorem parseTimespan_clock (h : Digits hours) (m : Digits minutes) (t : Digits seconds) :
    parseTimespan build (String.ofList (clock hours minutes seconds)) =
      parseClock build (String.ofList (clock hours minutes seconds)) 0 (String.ofList (clock hours minutes seconds)) (.finite false 0) := by
  have whole : Text.splitOnce '.' (String.ofList (clock hours minutes seconds)) = none :=
    Text.splitOnce_none (by rw [String.toList_ofList]; exact point_not_mem_clock h m t)
  have number : Double.parse (String.ofList (clock hours minutes seconds)).toList = none := by
    rw [String.toList_ofList]
    exact Double.parse_colon colon_mem_clock
  have days : splitDays (String.ofList (clock hours minutes seconds)) = .ok (0, String.ofList (clock hours minutes seconds)) := by
    simp only [splitDays, whole]
  apply parseTimespan_of_parts (trim_of_solid (solid_clock h m t)) number days
  simp only [splitFraction, whole]

theorem parseTimespan_point (h : Digits hours) (m : Digits minutes) (t : Digits seconds) (f : Digits digits) :
    parseTimespan build (String.ofList (clock hours minutes seconds ++ '.' :: digits)) =
      parseClock build (String.ofList (clock hours minutes seconds ++ '.' :: digits)) 0
        (String.ofList (clock hours minutes seconds)) (.ofDigits false ['0'] digits 0) := by
  have solid : Text.Solid (clock hours minutes seconds ++ '.' :: digits) := by
    intro c member
    obtain clock | rfl | fraction := by simpa only [List.mem_append, List.mem_cons] using member
    · exact solid_clock h m t c clock
    · rfl
    · exact f.solid c fraction
  have cut : Text.splitOnce '.' (String.ofList (clock hours minutes seconds ++ '.' :: digits)) =
      some (String.ofList (clock hours minutes seconds), String.ofList digits) :=
    Text.splitOnce_append digits (point_not_mem_clock h m t)
  have fraction : Double.parse ("0." ++ String.ofList digits).toList = some (.ofDigits false ['0'] digits 0) := by
    rw [String.toList_append, String.toList_ofList, String.toList_ofList]
    exact Double.parse_fraction f.all
  have colon : ':' ∈ (String.ofList (clock hours minutes seconds)).toList := by
    rw [String.toList_ofList]
    exact colon_mem_clock
  have number : Double.parse (String.ofList (clock hours minutes seconds ++ '.' :: digits)).toList = none := by
    rw [String.toList_ofList]
    exact Double.parse_colon (List.mem_append_left _ colon_mem_clock)
  have days : splitDays (String.ofList (clock hours minutes seconds ++ '.' :: digits)) =
      .ok (0, String.ofList (clock hours minutes seconds ++ '.' :: digits)) := by
    simp only [splitDays, cut, if_pos colon]
  apply parseTimespan_of_parts (trim_of_solid solid) number days
  simp only [splitFraction, cut, if_pos colon, fraction]

end Clocks

/-! ### Sums -/

section Sums

variable {build : Build}

theorem arith_ok {n total : Nat} (h : arith build n = .ok total) : total < Text.u64 ∧ (n < Text.u64 ∧ total = n ∨ Text.u64 ≤ n ∧ total = n % Text.u64) := by
  unfold arith at h
  split at h
  · next small =>
    cases h
    exact ⟨small, .inl ⟨small, rfl⟩⟩
  · next large =>
    cases build with
    | debug => cases h
    | release =>
      cases h
      exact ⟨Nat.mod_lt _ (by decide), .inr ⟨Nat.le_of_not_lt large, rfl⟩⟩

theorem arith_small {n : Nat} (small : n < Text.u64) : arith build n = .ok n := if_pos small

theorem totalSecs_small {hours minutes seconds : Nat} (small : hours * 3600 + minutes * 60 < Text.u64) :
    totalSecs build 0 hours minutes seconds = arith build (hours * 3600 + minutes * 60 + seconds) := by
  have inHours : hours * 3600 < Text.u64 := Nat.lt_of_le_of_lt (Nat.le_add_right ..) small
  have inMinutes : minutes * 60 < Text.u64 := Nat.lt_of_le_of_lt (Nat.le_add_left ..) small
  have none_ : 0 < Text.u64 := by decide
  unfold totalSecs
  rw [Nat.zero_mul, arith_small none_, arith_small inHours, arith_small inMinutes]
  show (arith build (0 + hours * 3600) >>= _) = _
  rw [Nat.zero_add, arith_small inHours]
  show (arith build (hours * 3600 + minutes * 60) >>= _) = _
  rw [arith_small small]
  rfl

theorem ofNanos_ok {n : Nat} (bounded : n / 10 ^ 9 < Text.u64) : ∃ d, Duration.ofNanos n = .ok d ∧ d.total = n := by
  refine ⟨_, dif_pos bounded, ?_⟩
  show n / 10 ^ 9 * 10 ^ 9 + n % 10 ^ 9 = n
  omega

theorem total_of_ofNanos {n : Nat} {d : Duration} (h : Duration.ofNanos n = .ok d) : d.total = n := by
  by_cases bounded : n / 10 ^ 9 < Text.u64
  · obtain ⟨d', made, total⟩ := ofNanos_ok bounded
    cases made.symm.trans h
    exact total
  · rw [Duration.ofNanos, dif_neg bounded] at h
    cases h

theorem ok_bind {α β : Type} (a : α) (f : α → Except Failure β) : (Except.ok a >>= f) = f a := rfl

theorem error_bind {α β : Type} (e : Failure) (f : α → Except Failure β) : (Except.error e >>= f) = .error e := rfl

/-- Whole seconds and a fraction of one. -/
theorem ofNanos_add {secs nanos : Nat} (bounded : secs < Text.u64) (small : nanos < 10 ^ 9) : (do
    let whole ← Duration.ofNanos (secs * 10 ^ 9)
    let rest ← Duration.ofNanos nanos
    whole.add rest) = Duration.ofNanos (secs * 10 ^ 9 + nanos) := by
  have whole : secs * 10 ^ 9 / 10 ^ 9 < Text.u64 := by
    have : secs * 10 ^ 9 / 10 ^ 9 = secs := by omega
    rwa [this]
  have rest : nanos / 10 ^ 9 < Text.u64 := by
    have : nanos / 10 ^ 9 = 0 := by omega
    rw [this]
    decide
  obtain ⟨d, made, total⟩ := ofNanos_ok whole
  obtain ⟨d', made', total'⟩ := ofNanos_ok rest
  rw [made, made', ok_bind, ok_bind, Duration.add, total, total']

section Texts

variable {hours minutes : Nat} {seconds : List Char} {tenths : Nat} (t : Digits seconds)
  (small : hours * 3600 + minutes * 60 < Text.u64) (bs : Nat.ofDigitChars 10 seconds 0 < Text.u64)
include t small bs

theorem parseClock_padded {s : String} {frac : Double} (few : tenths < 10 ^ 7)
    (read : Duration.fromSecsF64 frac = Duration.ofNanos (100 * tenths)) :
    parseClock build s 0 (String.ofList (clock (Text.padded 2 hours) (Text.padded 2 minutes) seconds)) frac =
      (do Duration.ofNanos ((← arith build (hours * 3600 + minutes * 60 + Nat.ofDigitChars 10 seconds 0)) * 10 ^ 9 + 100 * tenths)) := by
  have bh : Nat.ofDigitChars 10 (Text.padded 2 hours) 0 < Text.u64 := by
    rw [Text.ofDigitChars_padded]
    omega
  have bm : Nat.ofDigitChars 10 (Text.padded 2 minutes) 0 < Text.u64 := by
    rw [Text.ofDigitChars_padded]
    omega
  rw [parseClock_digits (.padded 2 hours) (.padded 2 minutes) t bh bm bs, Text.ofDigitChars_padded, Text.ofDigitChars_padded,
    totalSecs_small small, read]
  cases sum : arith build (hours * 3600 + minutes * 60 + Nat.ofDigitChars 10 seconds 0) with
  | error failure => rw [error_bind, error_bind]
  | ok total =>
    have fraction : 100 * tenths < 10 ^ 9 := by omega
    rw [ok_bind, ok_bind, ofNanos_add (arith_ok sum).1 fraction]

end Texts

end Sums

/-! ### Reading what was written -/

/-- At most 100 nanoseconds apart. -/
def Near (d d' : Duration) : Prop := ((d.total : Int) - d'.total).natAbs ≤ 100

/-- The fraction of the second does not carry, or it carries into no seconds. -/
def Kept (d : Duration) : Prop := d.nanos ≤ 999999950 ∨ d.secs % 60 = 0

section Written

variable {build : Build} {d : Duration}

theorem fixed_tenths (few : tenths d.nanos < 10 ^ 7) :
    (fixed 7 (Binary64.round (d.nanos / 10 ^ 9))).dropWhile (· == '0') = '.' :: Text.padded 7 (tenths d.nanos) := by
  have whole : tenths d.nanos / 10 ^ 7 = 0 := Nat.div_eq_of_lt few
  have rest : tenths d.nanos % 10 ^ 7 = tenths d.nanos := Nat.mod_eq_of_lt few
  show (Nat.toDigits 10 (tenths d.nanos / 10 ^ 7) ++ '.' :: Text.padded 7 (tenths d.nanos % 10 ^ 7)).dropWhile (· == '0') = _
  rw [whole, rest]
  rfl

theorem fixed_carry (carry : tenths d.nanos = 10 ^ 7) :
    (fixed 7 (Binary64.round (d.nanos / 10 ^ 9))).dropWhile (· == '0') = '1' :: '.' :: Text.padded 7 0 := by
  show (Nat.toDigits 10 (tenths d.nanos / 10 ^ 7) ++ '.' :: Text.padded 7 (tenths d.nanos % 10 ^ 7)).dropWhile (· == '0') = _
  rw [carry]
  rfl

theorem seconds_padded (n : Nat) : Nat.ofDigitChars 10 (Text.padded 2 n) 0 = n := Text.ofDigitChars_padded 2 n

/-- Without a carry the fraction is read as it was written. -/
theorem parse_tenths (few : tenths d.nanos < 10 ^ 7) :
    parseTimespan build (formatTimespan d) = Duration.ofNanos (d.secs * 10 ^ 9 + 100 * tenths d.nanos) := by
  have split : d.secs / 3600 * 3600 + d.secs % 3600 / 60 * 60 + d.secs % 60 = d.secs := by omega
  have bounded := d.bounded
  have small : d.secs / 3600 * 3600 + d.secs % 3600 / 60 * 60 < Text.u64 :=
    Nat.lt_of_le_of_lt (Nat.le.intro split) bounded
  have bs : Nat.ofDigitChars 10 (Text.padded 2 (d.secs % 60)) 0 < Text.u64 := by
    rw [seconds_padded]
    exact Nat.lt_of_le_of_lt (Nat.mod_le ..) bounded
  have sum : arith build (d.secs / 3600 * 3600 + d.secs % 3600 / 60 * 60 + Nat.ofDigitChars 10 (Text.padded 2 (d.secs % 60)) 0) =
      .ok d.secs := by
    rw [seconds_padded, split, arith_small bounded]
  unfold formatTimespan
  dsimp only
  by_cases none_ : d.nanos = 0
  · have nothing : tenths d.nanos = 0 := by
      have := tenths_error d.subsecond
      omega
    have read : Duration.fromSecsF64 (.finite false 0) = Duration.ofNanos (100 * 0) := by
      rw [fromSecsF64_positive, zero_mul, Binary64.nearest_eq (n := 0) (le_refl 0) (by simp)]
    rw [if_pos none_, parseTimespan_clock (.padded ..) (.padded ..) (.padded ..),
      parseClock_padded (.padded ..) small bs (by decide) read, sum, ok_bind, nothing]
  · rw [if_neg none_, fixed_tenths few, parseTimespan_point (.padded ..) (.padded ..) (.padded ..) (.padded ..),
      parseClock_padded (.padded ..) small bs few (fromSecsF64_tenths few), sum, ok_bind]

/-- With a carry the seconds are followed by a one. -/
theorem parse_carry (carry : tenths d.nanos = 10 ^ 7) : parseTimespan build (formatTimespan d) =
    (do Duration.ofNanos ((← arith build (d.secs + 9 * (d.secs % 60) + 1)) * 10 ^ 9)) := by
  have split : d.secs / 3600 * 3600 + d.secs % 3600 / 60 * 60 + (10 * (d.secs % 60) + 1) = d.secs + 9 * (d.secs % 60) + 1 := by
    omega
  have small : d.secs / 3600 * 3600 + d.secs % 3600 / 60 * 60 < Text.u64 := by
    have bounded := d.bounded
    have : d.secs / 3600 * 3600 + d.secs % 3600 / 60 * 60 ≤ d.secs := by omega
    exact Nat.lt_of_le_of_lt this bounded
  have value : Nat.ofDigitChars 10 (Text.padded 2 (d.secs % 60) ++ ['1']) 0 = 10 * (d.secs % 60) + 1 := by
    rw [Nat.ofDigitChars_append, seconds_padded]
    rfl
  have bs : Nat.ofDigitChars 10 (Text.padded 2 (d.secs % 60) ++ ['1']) 0 < Text.u64 := by
    rw [value]
    have : d.secs % 60 < 60 := Nat.mod_lt _ (by decide)
    have : 10 * (d.secs % 60) + 1 < 600 := by omega
    exact Nat.lt_trans this (by decide)
  have one : Digits ['1'] := ⟨by decide, by decide⟩
  have texts : clock (Text.padded 2 (d.secs / 3600)) (Text.padded 2 (d.secs % 3600 / 60)) (Text.padded 2 (d.secs % 60)) ++
      '1' :: '.' :: Text.padded 7 0 = clock (Text.padded 2 (d.secs / 3600)) (Text.padded 2 (d.secs % 3600 / 60))
        (Text.padded 2 (d.secs % 60) ++ ['1']) ++ '.' :: Text.padded 7 0 := by simp [clock]
  have some_ : d.nanos ≠ 0 := by
    have := tenths_error d.subsecond
    omega
  have seconds : Digits (Text.padded 2 (d.secs % 60) ++ ['1']) := .append (.padded ..) one
  unfold formatTimespan
  dsimp only
  rw [if_neg some_, fixed_carry carry, texts, parseTimespan_point (.padded ..) (.padded ..) seconds (.padded ..),
    parseClock_padded seconds small bs (by decide) (fromSecsF64_tenths (by decide)), value, split]
  simp only [Nat.mul_zero, Nat.add_zero]

/-- What is written consists of digits, colons and a point. -/
theorem mem_formatTimespan {c : Char} (member : c ∈ (formatTimespan d).toList) : c.isDigit = true ∨ c = ':' ∨ c = '.' := by
  have clock : ∀ h m s, c ∈ clock (Text.padded 2 h) (Text.padded 2 m) (Text.padded 2 s) → c.isDigit = true ∨ c = ':' := by
    intro h m s within
    simp only [clock, List.mem_append, List.mem_cons] at within
    obtain hour | colon | minute | colon | second := within
    · exact .inl (Text.isDigit_of_mem_padded hour)
    · exact .inr colon
    · exact .inl (Text.isDigit_of_mem_padded minute)
    · exact .inr colon
    · exact .inl (Text.isDigit_of_mem_padded second)
  have fraction : ∀ q, c ∈ fixed 7 q → c.isDigit = true ∨ c = '.' := by
    intro q within
    unfold fixed at within
    simp only [List.mem_append, List.mem_cons] at within
    obtain whole | point | rest := within
    · exact .inl (Nat.isDigit_of_mem_toDigits (by decide) (by decide) whole)
    · exact .inr point
    · exact .inl (Text.isDigit_of_mem_padded rest)
  unfold formatTimespan at member
  dsimp only at member
  split at member
  · rw [String.toList_ofList] at member
    obtain digit | colon := clock _ _ _ member
    · exact .inl digit
    · exact .inr (.inl colon)
  · rw [String.toList_ofList] at member
    cases List.mem_append.mp member with
    | inl within =>
      obtain digit | colon := clock _ _ _ within
      · exact .inl digit
      · exact .inr (.inl colon)
    | inr within =>
      obtain digit | point := fraction _ ((List.dropWhile_subset _) within)
      · exact .inl digit
      · exact .inr (.inr point)

theorem formatTimespan_solid : Text.Solid (formatTimespan d).toList := by
  intro c member
  obtain digit | rfl | rfl := mem_formatTimespan member
  · exact Text.isWhitespace_of_isDigit digit
  · rfl
  · rfl

theorem formatTimespan_ne_empty : formatTimespan d ≠ "" := by
  intro empty
  have := congrArg String.toList empty
  unfold formatTimespan at this
  dsimp only at this
  split at this <;> simp [clock] at this

theorem wrapped_early {n carried u : Nat} (bounded : n < u) (few : carried < 600) (wide : 2000 < u) (wraps : u ≤ n + carried) :
    (n + carried) % u < 600 ∧ 1400 < n := by
  have rest : (n + carried) % u = n + carried - u := by
    rw [Nat.mod_eq_sub_mod wraps]
    apply Nat.mod_eq_of_lt
    omega
  omega

theorem near_iff_kept : (∃ d', parseTimespan build (formatTimespan d) = .ok d' ∧ Near d d') ↔ Kept d := by
  have error := tenths_error d.subsecond
  have bounded := d.bounded
  have subsecond := d.subsecond
  cases tenths_carry d.subsecond with
  | inl few =>
    have fits : (d.secs * 10 ^ 9 + 100 * tenths d.nanos) / 10 ^ 9 < Text.u64 := by
      have : (d.secs * 10 ^ 9 + 100 * tenths d.nanos) / 10 ^ 9 = d.secs := by omega
      rwa [this]
    obtain ⟨d', made, total⟩ := ofNanos_ok fits
    rw [parse_tenths few.2, made]
    have near : Near d d' := by
      unfold Near
      rw [total, Duration.total]
      omega
    exact ⟨fun _ => .inl few.1, fun _ => ⟨d', rfl, near⟩⟩
  | inr carry =>
    rw [parse_carry carry.2]
    constructor
    · intro near
      obtain ⟨d', read, near⟩ := near
      right
      cases sum : arith build (d.secs + 9 * (d.secs % 60) + 1) with
      | error failure =>
        rw [sum, error_bind] at read
        cases read
      | ok total =>
        rw [sum, ok_bind] at read
        have same := total_of_ofNanos read
        unfold Near at near
        rw [same, Duration.total] at near
        obtain ⟨-, exact_ | wrapped⟩ := arith_ok sum
        · omega
        · -- A sum that wraps around is far off too.
          have carried : 9 * (d.secs % 60) + 1 < 600 := by omega
          rw [Nat.add_assoc] at wrapped
          obtain ⟨early, late⟩ := wrapped_early bounded carried (by decide) wrapped.1
          rw [← wrapped.2] at early
          omega
    · intro kept
      have whole : d.secs % 60 = 0 := by
        cases kept with
        | inl few => omega
        | inr whole => exact whole
      have fits : d.secs + 1 < Text.u64 := by
        have modulus : Text.u64 = 2 ^ 64 := rfl
        omega
      have total : (d.secs + 1) * 10 ^ 9 / 10 ^ 9 < Text.u64 := by
        have : (d.secs + 1) * 10 ^ 9 / 10 ^ 9 = d.secs + 1 := by omega
        rwa [this]
      obtain ⟨d', made, same⟩ := ofNanos_ok total
      rw [whole, Nat.mul_zero, Nat.add_zero, arith_small fits, ok_bind]
      refine ⟨d', made, ?_⟩
      unfold Near
      rw [same, Duration.total]
      omega

end Written

end Azbridge.Timespan
