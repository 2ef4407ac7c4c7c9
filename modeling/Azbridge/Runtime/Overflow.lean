import Azbridge.Runtime.ConnectionString

/-!
# Timeouts that are too long

A build that checks its sums and products panics where a time does not fit. The time that a text
names is computed here without a bound, and compared with what the parser makes of it.
-/

namespace Azbridge.Timespan
open Binary64 (Double)

/-- The nanoseconds that a number of seconds comes to, unless it is no such number. -/
def nanosOf : Double → Option Nat
  | .finite _ q => some (Binary64.nearest (q * 10 ^ 9))
  | _ => none

/-- The nanoseconds of a clock with its days and its fraction, without a bound. -/
def clockNanos (days : Nat) (hms : String) (frac : Double) : Option (Option Nat) :=
  match Text.split ':' hms with
  | [hours, minutes, seconds] => do
    let hours ← Text.parseU64 hours
    let minutes ← Text.parseU64 minutes
    let seconds ← Text.parseU64 seconds
    return (nanosOf frac).map ((days * 86400 + hours * 3600 + minutes * 60 + seconds) * 10 ^ 9 + ·)
  | _ => none

/-- The nanoseconds that a text names, or `some none` where it names no finite time, or `none` where
it names nothing. -/
def named (text : String) : Option (Option Nat) :=
  let s := Text.trim text
  match Double.parse s.toList with
  | some secs => if secs.isNegative = true then none else some (nanosOf secs)
  | none =>
    match splitDays s with
    | .error _ => none
    | .ok (days, timePart) =>
      match splitFraction s timePart with
      | .error _ => none
      | .ok (hms, frac) => clockNanos days hms frac

def Fits (text : String) : Prop := ∀ time, named text = some time → ∃ n, time = some n ∧ n / 10 ^ 9 < Text.u64

/-- The time, if it is one that fits. -/
def bounded : Option Nat → Except Failure Duration
  | some n => Duration.ofNanos n
  | none => .error .panicked

theorem ofNanos_panics {n : Nat} : Duration.ofNanos n = .error .panicked ↔ ¬ n / 10 ^ 9 < Text.u64 := by
  constructor
  · intro panics fits
    obtain ⟨d, made, _⟩ := ofNanos_ok fits
    rw [made] at panics
    cases panics
  · intro large
    exact dif_neg large

theorem fromSecsF64_nanosOf {d : Double} (positive : d.isNegative = false) : Duration.fromSecsF64 d = bounded (nanosOf d) := by
  cases d with
  | nan => rfl
  | infinite negative => rfl
  | finite negative q =>
    unfold Duration.fromSecsF64
    apply if_neg
    intro both
    simp [Double.isNegative, both.1, both.2] at positive

theorem arith_bind {α : Type} (n : Nat) (f : Nat → Except Failure α) :
    (arith .debug n >>= f) = if n < Text.u64 then f n else .error .panicked := by
  by_cases fits : n < Text.u64
  · rw [arith_small fits, ok_bind, if_pos fits]
  · rw [if_neg fits, arith, if_neg fits]
    rfl

/-- The sum is found too large at some step exactly if it is. -/
theorem totalSecs_debug (days hours minutes seconds : Nat) : totalSecs .debug days hours minutes seconds =
    arith .debug (days * 86400 + hours * 3600 + minutes * 60 + seconds) := by
  unfold totalSecs
  simp only [arith_bind]
  by_cases fits : days * 86400 + hours * 3600 + minutes * 60 + seconds < Text.u64
  · have part : ∀ n, n ≤ days * 86400 + hours * 3600 + minutes * 60 + seconds → n < Text.u64 :=
      fun n le => Nat.lt_of_le_of_lt le fits
    rw [if_pos (part _ (by omega)), if_pos (part _ (by omega)), if_pos (part _ (by omega)), if_pos (part _ (by omega)),
      if_pos (part _ (by omega))]
  · have total : arith .debug (days * 86400 + hours * 3600 + minutes * 60 + seconds) = .error .panicked := if_neg fits
    rw [total]
    split_ifs <;> rfl

theorem ofNanos_large {n : Nat} (large : ¬ n / 10 ^ 9 < Text.u64) : Duration.ofNanos n = .error .panicked := dif_neg large

theorem bounded_add (secs : Nat) (frac : Option Nat) : (do
    let whole ← Duration.ofNanos (secs * 10 ^ 9)
    let rest ← bounded frac
    whole.add rest) = bounded (frac.map (secs * 10 ^ 9 + ·)) := by
  by_cases whole : secs * 10 ^ 9 / 10 ^ 9 < Text.u64
  · obtain ⟨d, made, total⟩ := ofNanos_ok whole
    rw [made, ok_bind]
    cases frac with
    | none => rw [bounded, error_bind, Option.map_none, bounded]
    | some n =>
      rw [Option.map_some, bounded, bounded]
      by_cases rest : n / 10 ^ 9 < Text.u64
      · obtain ⟨d', made', total'⟩ := ofNanos_ok rest
        rw [made', ok_bind, Duration.add, total, total']
      · have sum : ¬ (secs * 10 ^ 9 + n) / 10 ^ 9 < Text.u64 := by
          have : n / 10 ^ 9 ≤ (secs * 10 ^ 9 + n) / 10 ^ 9 := Nat.div_le_div_right (Nat.le_add_left ..)
          exact fun fits => rest (Nat.lt_of_le_of_lt this fits)
        rw [ofNanos_large rest, error_bind, ofNanos_large sum]
  · rw [ofNanos_large whole, error_bind]
    cases frac with
    | none => rfl
    | some n =>
      have sum : ¬ (secs * 10 ^ 9 + n) / 10 ^ 9 < Text.u64 := by
        have : secs * 10 ^ 9 / 10 ^ 9 ≤ (secs * 10 ^ 9 + n) / 10 ^ 9 := Nat.div_le_div_right (Nat.le_add_right ..)
        exact fun fits => whole (Nat.lt_of_le_of_lt this fits)
      rw [Option.map_some, bounded, ofNanos_large sum]

/-- The number of whole seconds may be too large on its own. -/
theorem arith_add (secs : Nat) (frac : Option Nat) : (do
    let whole ← Duration.ofNanos ((← arith .debug secs) * 10 ^ 9)
    let rest ← bounded frac
    whole.add rest) = bounded (frac.map (secs * 10 ^ 9 + ·)) := by
  rw [arith_bind]
  by_cases fits : secs < Text.u64
  · rw [if_pos fits, bounded_add]
  · have whole : ¬ secs * 10 ^ 9 / 10 ^ 9 < Text.u64 := by
      have : secs * 10 ^ 9 / 10 ^ 9 = secs := by omega
      rwa [this]
    rw [if_neg fits, ← bounded_add, ofNanos_large whole, error_bind]

theorem ofMagnitude_positive (q : ℚ) : (Double.ofMagnitude false q).isNegative = false := by
  unfold Double.ofMagnitude
  split <;> rfl

/-- A text without a sign is not negative. -/
theorem isNegative_of_digit {cs : List Char} {d : Double} (h : Double.parse ('0' :: cs) = some d) : d.isNegative = false := by
  have number : ∀ body d, Double.parseNumber false body = some d → d.isNegative = false := by
    intro body d parsed
    unfold Double.parseNumber at parsed
    dsimp only at parsed
    split at parsed
    · cases parsed
    · split at parsed
      · cases parsed
        exact ofMagnitude_positive _
      · split at parsed
        · obtain ⟨exponent, _, rfl⟩ := Option.map_eq_some_iff.mp parsed
          exact ofMagnitude_positive _
        · cases parsed
  have special : ∀ body d, Double.parseSpecial false body = some d → d.isNegative = false := by
    intro body d parsed
    unfold Double.parseSpecial at parsed
    dsimp only at parsed
    split at parsed
    · cases parsed
      rfl
    · split at parsed
      · cases parsed
        rfl
      · cases parsed
  have either : (Double.parseNumber false ('0' :: cs)).or (Double.parseSpecial false ('0' :: cs)) = some d := h
  cases Option.or_eq_some_iff.mp either with
  | inl parsed => exact number _ d parsed
  | inr parsed => exact special _ d parsed.2

theorem splitFraction_positive {s timePart hms : String} {frac : Double} (h : splitFraction s timePart = .ok (hms, frac)) :
    frac.isNegative = false := by
  unfold splitFraction at h
  split at h
  · split at h
    · split at h
      · next text _ _ frac' parsed =>
        cases h
        rw [String.toList_append] at parsed
        exact isNegative_of_digit parsed
      · cases h
    · cases h
  · cases h
    rfl

/-- A result for a text that names this: an error that says so where it names nothing, and else the
time if it fits. -/
def Agrees : Option (Option Nat) → Except Failure Duration → Prop
  | some time, result => result = bounded time
  | none, result => ∃ message, result = .error (.invalid message)

theorem parseClock_agrees {s hms : String} {days : Nat} {frac : Double} (positive : frac.isNegative = false) :
    Agrees (clockNanos days hms frac) (parseClock .debug s days hms frac) := by
  unfold clockNanos parseClock
  match Text.split ':' hms with
  | [hours, minutes, seconds] =>
    dsimp only
    cases Text.parseU64 hours with
    | none => exact ⟨_, rfl⟩
    | some hours =>
      cases Text.parseU64 minutes with
      | none => exact ⟨_, rfl⟩
      | some minutes =>
        cases Text.parseU64 seconds with
        | none => exact ⟨_, rfl⟩
        | some seconds =>
          dsimp only
          rw [fromSecsF64_nanosOf positive, totalSecs_debug, arith_add]
          rfl
  | [] => exact ⟨_, rfl⟩
  | [_] => exact ⟨_, rfl⟩
  | [_, _] => exact ⟨_, rfl⟩
  | _ :: _ :: _ :: _ :: _ => exact ⟨_, rfl⟩

theorem splitDays_error {s : String} {failure : Failure} (h : splitDays s = .error failure) : ∃ message, failure = .invalid message := by
  unfold splitDays at h
  split at h
  · split at h
    · cases h
    · split at h
      · cases h
      · cases h
        exact ⟨_, rfl⟩
  · cases h

theorem splitFraction_error {s timePart : String} {failure : Failure} (h : splitFraction s timePart = .error failure) :
    ∃ message, failure = .invalid message := by
  unfold splitFraction at h
  split at h
  · split at h
    · split at h
      · cases h
      · cases h
        exact ⟨_, rfl⟩
    · cases h
      exact ⟨_, rfl⟩
  · cases h

theorem parseTimespan_agrees {text : String} {time : Option (Option Nat)} (names : named text = time) :
    Agrees time (parseTimespan .debug text) := by
  subst names
  unfold named parseTimespan
  dsimp only
  cases number : Double.parse (Text.trim text).toList with
  | some secs =>
    dsimp only
    split
    · exact ⟨_, rfl⟩
    · next positive => exact fromSecsF64_nanosOf (by simpa using positive)
  | none =>
    dsimp only
    cases first : splitDays (Text.trim text) with
    | error failure =>
      obtain ⟨message, rfl⟩ := splitDays_error first
      exact ⟨message, rfl⟩
    | ok parts =>
      obtain ⟨days, timePart⟩ := parts
      dsimp only
      rw [ok_bind]
      cases second : splitFraction (Text.trim text) timePart with
      | error failure =>
        obtain ⟨message, rfl⟩ := splitFraction_error second
        exact ⟨message, rfl⟩
      | ok parts =>
        obtain ⟨hms, frac⟩ := parts
        exact parseClock_agrees (splitFraction_positive second)

theorem bounded_panics {time : Option Nat} : bounded time = .error .panicked ↔ ¬ ∃ n, time = some n ∧ n / 10 ^ 9 < Text.u64 := by
  cases time with
  | none => simp [bounded]
  | some n => simp [bounded, ofNanos_panics]

theorem Agrees.panics {time : Option (Option Nat)} {result : Except Failure Duration} (agrees : Agrees time result) :
    result = .error .panicked ↔ ¬ ∀ t, time = some t → ∃ n, t = some n ∧ n / 10 ^ 9 < Text.u64 := by
  cases time with
  | none =>
    obtain ⟨message, refused⟩ := agrees
    rw [refused]
    simp
  | some time =>
    have read : result = bounded time := agrees
    rw [read, bounded_panics]
    simp

theorem parseTimespan_panics (text : String) : parseTimespan .debug text = .error .panicked ↔ ¬ Fits text := by
  unfold Fits
  generalize names : named text = time
  exact (parseTimespan_agrees names).panics

theorem fits_empty : Fits "" := by
  have nothing : named "" = none := by decide +kernel
  intro time same
  rw [nothing] at same
  cases same

end Azbridge.Timespan

namespace Azbridge.ConnectionString
open Timespan (Build Duration Failure Fits)

section Panics

variable (urls : Urls)

/-- A part is accepted, whatever came before it. -/
def Accepts (part : String) : Prop := ∃ b, readPart .debug urls {} part = .ok b

def PartFits (part : String) : Prop := ∀ name text, Text.splitOnce '=' (Text.trim part) = some (name, text) →
  Key.ofLowercase (Text.toAsciiLowercase (Text.trim name)) = some .operationTimeout → Fits (Text.trim text)

variable {urls} {b b' : Builder urls.Url} {part : String}

/-- What becomes of a part does not depend on the builder. -/
theorem readPart_independent : (readPart .debug urls b part).map (fun _ => ()) = (readPart .debug urls b' part).map fun _ => () := by
  have set : ∀ value key, (setKey .debug urls value b key).map (fun _ => ()) = (setKey .debug urls value b' key).map fun _ => () := by
    intro value key
    cases key with
    | endpoint =>
      simp only [setKey]
      cases urls.parse value <;> rfl
    | operationTimeout =>
      simp only [setKey]
      cases Timespan.parseTimespan .debug value <;> rfl
    | _ => rfl
  unfold readPart
  dsimp only
  split
  · rfl
  · split
    · rfl
    · split
      · rfl
      · split
        · rfl
        · exact set _ _

theorem setKey_panics {value : String} {key : Key} :
    setKey .debug urls value b key = .error .panicked ↔ key = .operationTimeout ∧ ¬ Fits value := by
  cases key with
  | endpoint =>
    simp only [setKey]
    cases urls.parse value <;> simp
  | operationTimeout =>
    rw [← Timespan.parseTimespan_panics]
    simp only [setKey]
    cases read : Timespan.parseTimespan .debug value with
    | ok duration => simp [bind, Except.bind, pure, Except.pure]
    | error failure => simp [bind, Except.bind]
  | _ => simp [setKey]

theorem readPart_panics : readPart .debug urls b part = .error .panicked ↔ ¬ PartFits part := by
  unfold readPart PartFits
  dsimp only
  split
  · next empty => simp [empty, show Text.splitOnce '=' "" = none by decide]
  · cases cut : Text.splitOnce '=' (Text.trim part) with
    | none => simp
    | some pair =>
      obtain ⟨name, text⟩ := pair
      dsimp only
      split
      · next empty => simp [empty, Timespan.fits_empty]
      · cases known : Key.ofLowercase (Text.toAsciiLowercase (Text.trim name)) with
        | none => simp [known]
        | some key => simp [known, setKey_panics]

theorem accepts_of_read (read : readPart .debug urls b part = .ok b') : Accepts urls part := by
  have same := @readPart_independent urls b {} part
  rw [read] at same
  cases fresh : readPart .debug urls {} part with
  | error failure =>
    rw [fresh] at same
    cases same
  | ok b'' => exact ⟨b'', fresh⟩

theorem read_of_accepts (accepts : Accepts urls part) : ∃ b', readPart .debug urls b part = .ok b' := by
  obtain ⟨b', fresh⟩ := accepts
  have same := @readPart_independent urls b {} part
  rw [fresh] at same
  cases read : readPart .debug urls b part with
  | error failure =>
    rw [read] at same
    cases same
  | ok b'' => exact ⟨b'', rfl⟩

/-- Reading parts from any builder panics exactly if it reaches a timeout that does not fit. -/
theorem foldlM_panics (parts : List String) (b : Builder urls.Url) :
    parts.foldlM (readPart .debug urls) b ≠ .error .panicked ↔
      ∀ before part after, parts = before ++ part :: after → (∀ p ∈ before, Accepts urls p) → PartFits part := by
  induction parts generalizing b with
  | nil => simp [pure, Except.pure]
  | cons first rest ih =>
    rw [List.foldlM_cons]
    cases read : readPart .debug urls b first with
    | error failure =>
      rw [Timespan.error_bind]
      constructor
      · intro safe before part after same reached
        cases before with
        | nil =>
          obtain ⟨rfl, rfl⟩ := List.cons.inj same
          by_contra panics
          rw [readPart_panics.mpr panics] at read
          cases read
          exact safe rfl
        | cons p before =>
          obtain ⟨rfl, -⟩ := List.cons.inj same
          obtain ⟨b', ok⟩ := @read_of_accepts urls b _ (reached _ (.head _))
          cases read.symm.trans ok
      · intro fits panics
        cases panics
        exact readPart_panics.mp read (fits [] first rest rfl (by simp))
    | ok b₁ =>
      rw [Timespan.ok_bind, ih b₁]
      constructor
      · intro fits before part after same reached
        cases before with
        | nil =>
          obtain ⟨rfl, rfl⟩ := List.cons.inj same
          by_contra panics
          rw [readPart_panics.mpr panics] at read
          cases read
        | cons p before =>
          obtain ⟨rfl, rest'⟩ := List.cons.inj same
          exact fits before part after rest' fun p member => reached p (.tail _ member)
      · intro fits before part after same reached
        apply fits (first :: before) part after (by rw [same]; rfl)
        intro p member
        cases member with
        | head => exact accepts_of_read read
        | tail _ member => exact reached p member

/-- A connection string makes the parser panic exactly if it reaches a timeout that does not fit. -/
theorem never_panics_iff (urls : Urls) (s : String) : fromConnectionString .debug urls s ≠ .error .panicked ↔
    ∀ before part after, Text.split ';' s = before ++ part :: after → (∀ p ∈ before, Accepts urls p) → PartFits part :=
  foldlM_panics _ _

/-- A timeout of no number of seconds panics. -/
theorem nan_panics : ¬ ∀ (urls : Urls) (s : String), fromConnectionString .debug urls s ≠ .error .panicked := by
  intro claim
  have panics : timeout "OperationTimeout=nan" = .error .panicked := by decide +kernel
  unfold timeout at panics
  cases read : fromConnectionString .debug oneUrl "OperationTimeout=nan" with
  | error failure =>
    rw [read] at panics
    cases panics
    exact claim _ _ read
  | ok b =>
    rw [read] at panics
    cases panics

end Panics

end Azbridge.ConnectionString
