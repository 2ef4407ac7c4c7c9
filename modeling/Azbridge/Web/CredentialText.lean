import Azbridge.Broker.Managed
import Azbridge.Broker.Scripts

/-!
# Credential-like text

The browser and the broker look for the same patterns in a text without its white space, in lower case. What
counts as white space differs by two characters, and the broker first refuses texts that are too long.
-/

namespace Azbridge.Web
open Broker (App)
open Broker.Profiles (parseManagedConfig credentialPatterns credentialLike managedErrors)

/-! ### The browser -/

/-- `\s` of a regular expression in JavaScript. -/
def jsSpace (c : Char) : Bool :=
  (0x9 ≤ c.toNat && c.toNat ≤ 0xd) || c.toNat == 0x20 || c.toNat == 0xa0 || c.toNat == 0x1680 ||
    (0x2000 ≤ c.toNat && c.toNat ≤ 0x200a) || c.toNat == 0x2028 || c.toNat == 0x2029 || c.toNat == 0x202f ||
    c.toNat == 0x205f || c.toNat == 0x3000 || c.toNat == 0xfeff

/-- The tables of Unicode that `toLowerCase` consults. -/
structure Casing extends Text.Unicode where
  cased : Char → Bool
  caseIgnorable : Char → Bool

/-- A sigma after a letter and before none, with the letters before it in reverse. -/
def finalSigma (t : Casing) (before after : List Char) : Bool :=
  (before.dropWhile t.caseIgnorable).head?.any t.cased && !(after.dropWhile t.caseIgnorable).head?.any t.cased

def lowerFrom (t : Casing) : List Char → List Char → List Char
  | _, [] => []
  | before, c :: after =>
    (if c = 'Σ' ∧ finalSigma t before after = true then ['ς'] else t.toLowercase c) ++ lowerFrom t (c :: before) after

/-- `String.prototype.toLowerCase`. -/
def toLowerCase (t : Casing) (text : String) : List Char := lowerFrom t [] text.toList

def hasCredentialText (t : Casing) (text : String) : Bool :=
  credentialPatterns.any fun pattern => Text.contains pattern.toList ((toLowerCase t text).filter fun c => !jsSpace c)

section Patterns
variable {pattern cs : List Char} {space : Char → Bool}

theorem contains_iff : Text.contains pattern cs = true ↔ pattern <:+: cs := by
  induction cs with
  | nil =>
    unfold Text.contains
    rw [List.isPrefixOf_iff_prefix, List.prefix_nil, List.infix_nil]
  | cons c cs ih =>
    unfold Text.contains
    rw [Bool.or_eq_true, ih, List.isPrefixOf_iff_prefix, List.infix_cons_iff]

/-- What is found without the white space is spelled with some of it in between. -/
theorem infix_filter : pattern <:+: cs.filter (fun c => !space c) ↔
    ∃ spelling, spelling <:+: cs ∧ spelling.filter (fun c => !space c) = pattern := by
  constructor
  · rintro ⟨before, after, same⟩
    obtain ⟨front, back, rfl, kept, _⟩ := List.filter_eq_append_iff.mp same.symm
    obtain ⟨start, spelling, rfl, _, spelled⟩ := List.filter_eq_append_iff.mp kept
    exact ⟨spelling, ⟨start, back, rfl⟩, spelled⟩
  · rintro ⟨spelling, ⟨before, after, rfl⟩, rfl⟩
    refine ⟨before.filter fun c => !space c, after.filter fun c => !space c, ?_⟩
    rw [List.filter_append, List.filter_append]

theorem infix_map {f : Char → Char} (apart : ∀ c, f c ∈ pattern ∨ c ∈ pattern → f c = c) : pattern <:+: cs.map f ↔ pattern <:+: cs := by
  constructor
  · rintro ⟨before, after, same⟩
    obtain ⟨front, back, rfl, kept, _⟩ := List.append_eq_map_iff.mp same
    obtain ⟨start, spelling, rfl, _, spelled⟩ := List.append_eq_map_iff.mp kept.symm
    have fixed : spelling.map f = spelling := by
      conv => rhs; rw [← List.map_id spelling]
      apply List.map_congr_left
      intro c member
      exact apart c (.inl (spelled ▸ List.mem_map_of_mem member))
    exact ⟨start, back, by rw [← spelled, fixed]⟩
  · rintro ⟨before, after, rfl⟩
    have fixed : pattern.map f = pattern := by
      conv => rhs; rw [← List.map_id pattern]
      apply List.map_congr_left
      intro c member
      exact apart c (.inr member)
    refine ⟨before.map f, after.map f, ?_⟩
    rw [List.map_append, List.map_append, fixed]

end Patterns

/-! ### Lower case -/

/-- What is known of the lower case of characters. -/
structure Casing.Known (t : Casing) : Prop where
  sigma : t.toLowercase 'Σ' = ['σ']
  blank : ∀ c, jsSpace c = true ∨ Text.isWhitespace c = true → t.toLowercase c = [c]
  solid : ∀ c, jsSpace c = false → Text.isWhitespace c = false → ∀ d ∈ t.toLowercase c, jsSpace d = false ∧ Text.isWhitespace d = false

/-- Both guards look at this text, up to its sigmas. -/
def lowered (t : Casing) (text : String) : List Char := text.toList.flatMap t.toLowercase

def plainSigma (c : Char) : Char := if c = 'ς' then 'σ' else c

section Lower
variable {t : Casing} (known : t.Known)

include known in
theorem lowerFrom_map (before cs : List Char) : (lowerFrom t before cs).map plainSigma = (cs.flatMap t.toLowercase).map plainSigma := by
  induction cs generalizing before with
  | nil => rfl
  | cons c cs ih =>
    unfold lowerFrom
    rw [List.map_append, ih, List.flatMap_cons, List.map_append]
    congr 1
    split
    · next final =>
      rw [final.1, known.sigma]
      rfl
    · rfl

theorem jsSpace_plainSigma (c : Char) : jsSpace (plainSigma c) = jsSpace c := by
  unfold plainSigma
  split
  · next final =>
    subst final
    rfl
  · rfl

theorem credentialPatterns_plain : ∀ pattern ∈ credentialPatterns, ∀ c ∈ pattern.toList,
    (jsSpace c = false ∧ Text.isWhitespace c = false) ∧ c ≠ 'ς' ∧ c ≠ 'σ' := by
  have all : (credentialPatterns.all fun pattern => pattern.toList.all fun c =>
      !jsSpace c && !Text.isWhitespace c && c != 'ς' && c != 'σ') = true := by decide +kernel
  intro pattern member c inPattern
  have plain := List.all_eq_true.mp (List.all_eq_true.mp all pattern member) c inPattern
  simp only [Bool.and_eq_true, Bool.not_eq_true', bne_iff_ne] at plain
  exact ⟨plain.1.1, plain.1.2, plain.2⟩

include known in
theorem hasCredentialText_lowered {text : String} : hasCredentialText t text = true ↔
    ∃ pattern ∈ credentialPatterns, pattern.toList <:+: (lowered t text).filter fun c => !jsSpace c := by
  have plain : ∀ cs : List Char, (cs.map plainSigma).filter (fun c => !jsSpace c) = (cs.filter fun c => !jsSpace c).map plainSigma := by
    intro cs
    rw [List.filter_map]
    congr 1
    apply List.filter_congr
    intro c _
    simp [jsSpace_plainSigma]
  have apart : ∀ pattern ∈ credentialPatterns, ∀ c, plainSigma c ∈ pattern.toList ∨ c ∈ pattern.toList → plainSigma c = c := by
    intro pattern member c inPattern
    unfold plainSigma at inPattern ⊢
    split
    · next final =>
      rw [if_pos final] at inPattern
      rcases inPattern with sigma | same
      · exact absurd rfl (credentialPatterns_plain pattern member _ sigma).2.2
      · exact absurd final (credentialPatterns_plain pattern member c same).2.1
    · rfl
  unfold hasCredentialText
  rw [List.any_eq_true]
  apply exists_congr
  intro pattern
  apply and_congr_right
  intro member
  rw [contains_iff, ← infix_map (apart pattern member), ← plain]
  unfold toLowerCase
  rw [lowerFrom_map known, plain, infix_map (apart pattern member)]
  rfl

include known in
theorem credentialLike_lowered {text : String} : credentialLike t.toUnicode text = true ↔
    ∃ pattern ∈ credentialPatterns, pattern.toList <:+: (lowered t text).filter fun c => !Text.isWhitespace c := by
  have commute : ∀ cs : List Char, (cs.filter fun c => !Text.isWhitespace c).flatMap t.toLowercase =
      (cs.flatMap t.toLowercase).filter fun c => !Text.isWhitespace c := by
    intro cs
    induction cs with
    | nil => rfl
    | cons c cs ih =>
      rw [List.flatMap_cons, List.filter_append, ← ih, List.filter_cons]
      cases blank : Text.isWhitespace c with
      | true =>
        rw [known.blank c (.inr blank)]
        simp [blank]
      | false =>
        have solid : ∀ d ∈ t.toLowercase c, Text.isWhitespace d = false := by
          intro d member
          by_cases space : jsSpace c = true
          · rw [known.blank c (.inl space), List.mem_singleton] at member
            exact member ▸ blank
          · exact (known.solid c (Bool.eq_false_iff.mpr space) blank d member).2
        have kept : (t.toLowercase c).filter (fun d => !Text.isWhitespace d) = t.toLowercase c :=
          List.filter_eq_self.mpr fun d member => by simp [solid d member]
        rw [kept]
        simp
  unfold credentialLike Broker.Profiles.compact
  rw [List.any_eq_true]
  apply exists_congr
  intro pattern
  apply and_congr_right
  intro _
  rw [contains_iff, commute]
  rfl

end Lower

/-! ### Spellings -/

def nextLine : Char := Char.ofNat 0x85

def byteOrderMark : Char := Char.ofNat 0xfeff

/-- Part of the text in lower case that is a pattern, apart from white space of either kind. -/
def Spells (t : Casing) (text : String) (spelling : List Char) : Prop :=
  spelling <:+: lowered t text ∧
    ∃ pattern ∈ credentialPatterns, (spelling.filter fun c => !(jsSpace c || Text.isWhitespace c)) = pattern.toList

theorem eq_of_toNat {c : Char} {n : Nat} (h : c.toNat = n) : c = Char.ofNat n := by
  rw [← h, Char.ofNat_toNat]

theorem eq_nextLine {c : Char} : jsSpace c = false ∧ Text.isWhitespace c = true ↔ c = nextLine := by
  constructor
  · rintro ⟨other, blank⟩
    apply eq_of_toNat
    simp [jsSpace] at other
    simp [Text.isWhitespace] at blank
    omega
  · rintro rfl
    decide

theorem eq_byteOrderMark {c : Char} : jsSpace c = true ∧ Text.isWhitespace c = false ↔ c = byteOrderMark := by
  constructor
  · rintro ⟨blank, other⟩
    apply eq_of_toNat
    simp [jsSpace] at blank
    simp [Text.isWhitespace] at other
    omega
  · rintro rfl
    decide

/-- What is found with less white space left out is spelled without what was kept. -/
theorem spelled_iff {t : Casing} {text : String} {space : Char → Bool} {extra : Char}
    (less : ∀ c, space c = false ∧ (jsSpace c || Text.isWhitespace c) = true ↔ c = extra)
    (within : ∀ c, space c = true → (jsSpace c || Text.isWhitespace c) = true) :
    (∃ pattern ∈ credentialPatterns, pattern.toList <:+: (lowered t text).filter fun c => !space c) ↔
      ∃ spelling, Spells t text spelling ∧ extra ∉ spelling := by
  have same : ∀ spelling : List Char, extra ∉ spelling →
      spelling.filter (fun c => !space c) = spelling.filter fun c => !(jsSpace c || Text.isWhitespace c) := by
    intro spelling without
    apply List.filter_congr
    intro c member
    congr 1
    cases kept : space c with
    | true => exact (within c kept).symm
    | false =>
      cases blank : (jsSpace c || Text.isWhitespace c) with
      | true => exact absurd ((less c).mp ⟨kept, blank⟩ ▸ member) without
      | false => rfl
  constructor
  · rintro ⟨pattern, member, found⟩
    obtain ⟨spelling, inside, spelled⟩ := infix_filter.mp found
    have without : extra ∉ spelling := by
      intro there
      obtain ⟨kept, blank⟩ := (less extra).mpr rfl
      have inPattern : extra ∈ pattern.toList := by
        rw [← spelled, List.mem_filter]
        exact ⟨there, by rw [kept]; rfl⟩
      have plain := (credentialPatterns_plain pattern member extra inPattern).1
      rw [plain.1, plain.2] at blank
      cases blank
    exact ⟨spelling, ⟨inside, pattern, member, by rw [← same spelling without, spelled]⟩, without⟩
  · rintro ⟨spelling, ⟨inside, pattern, member, spelled⟩, without⟩
    exact ⟨pattern, member, infix_filter.mpr ⟨spelling, inside, by rw [same spelling without, spelled]⟩⟩

section Guards
variable {t : Casing} (known : t.Known) {text : String}

include known in
theorem hasCredentialText_iff : hasCredentialText t text = true ↔ ∃ spelling, Spells t text spelling ∧ nextLine ∉ spelling := by
  rw [hasCredentialText_lowered known]
  apply spelled_iff
  · intro c
    rw [← eq_nextLine]
    cases jsSpace c <;> simp
  · intro c space
    rw [space, Bool.true_or]

include known in
theorem credentialLike_iff : credentialLike t.toUnicode text = true ↔ ∃ spelling, Spells t text spelling ∧ byteOrderMark ∉ spelling := by
  rw [credentialLike_lowered known]
  apply spelled_iff
  · intro c
    rw [← eq_byteOrderMark]
    cases Text.isWhitespace c <;> simp
  · intro c space
    rw [space, Bool.or_true]

/-! ### Refusals -/

def refused : List String := ["Credential-like text is not allowed in managed profiles (including comments)"]

open Broker.Profiles in
/-- It says nothing like it of a configuration. -/
theorem managedErrors_other {app : App} {config : Config} {ignored : List String} {raw : Broker.Yaml} {m : String}
    (member : m ∈ managedErrors app config ignored raw) : m.toList.head? ≠ some 'C' := by
  have only : ∀ {condition : Bool} {message : String}, m ∈ errorIf condition message → m = message := by
    intro condition message member
    unfold errorIf at member
    split at member
    · exact List.mem_singleton.mp member
    · cases member
  have append : ∀ {s : String}, s.toList.head?.isSome = true → ∀ rest : String, (s ++ rest).toList.head? = s.toList.head? := by
    intro s some_ rest
    rw [String.toList_append, List.head?_append]
    cases first : s.toList.head? with
    | none =>
      rw [first] at some_
      cases some_
    | some c => rfl
  simp only [managedErrors, List.mem_append] at member
  obtain ((((((member | member) | member) | member) | member) | member) | member) | member := member
  · obtain ⟨path, _, rfl⟩ := List.mem_map.mp member
    rw [append (by decide)]
    decide
  · unfold forbiddenErrors at member
    obtain ⟨⟨field, present⟩, held, message⟩ := List.mem_filterMap.mp member
    dsimp only at message
    split at message
    · obtain rfl := Option.some.inj message
      simp only [forbiddenFields, List.mem_cons, List.not_mem_nil, or_false, Prod.mk.injEq] at held
      obtain ⟨rfl, -⟩ | ⟨rfl, -⟩ | ⟨rfl, -⟩ | ⟨rfl, -⟩ | ⟨rfl, -⟩ | ⟨rfl, -⟩ | ⟨rfl, -⟩ := held <;> decide
    · cases message
  · rw [only member]
    decide
  · obtain ⟨errors, listed, inErrors⟩ := List.mem_flatten.mp member
    obtain ⟨index, _, rfl⟩ := List.mem_mapIdx.mp listed
    simp only [localErrors, List.mem_append] at inErrors
    obtain ((inErrors | inErrors) | inErrors) | inErrors := inErrors <;> rw [only inErrors] <;> decide
  · obtain ⟨errors, listed, inErrors⟩ := List.mem_flatten.mp member
    obtain ⟨index, _, rfl⟩ := List.mem_mapIdx.mp listed
    simp only [remoteErrors, List.mem_append] at inErrors
    obtain (inErrors | inErrors) | inErrors := inErrors <;> rw [only inErrors] <;> decide
  · obtain ⟨forward, _, inForward⟩ := List.mem_flatMap.mp member
    obtain ⟨binding, _, inBinding⟩ := List.mem_flatMap.mp inForward
    rw [only inBinding]
    decide
  · obtain ⟨forward, _, inForward⟩ := List.mem_flatMap.mp member
    obtain ⟨binding, _, inBinding⟩ := List.mem_flatMap.mp inForward
    rw [only inBinding]
    decide
  · split at member
    · cases member
    · rw [List.mem_singleton.mp member]
      decide

theorem refused_iff {app : App} : parseManagedConfig app text = .error refused ↔
    text.utf8ByteSize ≤ 1024 * 1024 ∧ credentialLike app.unicode text = true := by
  unfold parseManagedConfig
  split
  · next long =>
    have fits : ¬ text.utf8ByteSize ≤ 1024 * 1024 := by omega
    simp [refused, fits]
  · next short =>
    have fits : text.utf8ByteSize ≤ 1024 * 1024 := by omega
    split
    · next credential => simp [refused, fits, credential]
    · next plain =>
      apply iff_of_false ?_ fun both => plain both.2
      intro same
      split at same
      · next config ignored raw _ _ =>
        split at same
        · cases same
        · have errors : managedErrors app config ignored raw = refused := Except.error.inj same
          have listed : "Credential-like text is not allowed in managed profiles (including comments)" ∈
              managedErrors app config ignored raw := by
            rw [errors]
            exact .head _
          exact managedErrors_other listed (by decide)
      · have texts := Except.error.inj same
        revert texts
        decide

include known in
/-- The browser's guard says of a text what the broker's does exactly where the text, if it is not too long, spells a
pattern without the next-line character if it spells one without the byte order mark, and conversely; and where it
is too long and spells none without the next-line character. -/
theorem guards_agree_iff {app : App} (same : app.unicode = t.toUnicode) :
    (hasCredentialText t text = true ↔ parseManagedConfig app text = .error refused) ↔
      (text.utf8ByteSize ≤ 1024 * 1024 →
        ((∃ spelling, Spells t text spelling ∧ nextLine ∉ spelling) ↔ ∃ spelling, Spells t text spelling ∧ byteOrderMark ∉ spelling)) ∧
      (1024 * 1024 < text.utf8ByteSize → ¬ ∃ spelling, Spells t text spelling ∧ nextLine ∉ spelling) := by
  rw [refused_iff, same, hasCredentialText_iff known, credentialLike_iff known]
  by_cases fits : text.utf8ByteSize ≤ 1024 * 1024
  · have short : ¬ 1024 * 1024 < text.utf8ByteSize := by omega
    simp [fits, short]
  · have long : 1024 * 1024 < text.utf8ByteSize := by omega
    simp [fits, long]

include known in
theorem mem_of_mem_lowered {c : Char} (blank : jsSpace c = true ∨ Text.isWhitespace c = true) (member : c ∈ lowered t text) :
    c ∈ text.toList := by
  obtain ⟨d, inside, made⟩ := List.mem_flatMap.mp member
  by_cases space : jsSpace d = true ∨ Text.isWhitespace d = true
  · rw [known.blank d space, List.mem_singleton] at made
    exact made ▸ inside
  · rw [not_or, Bool.not_eq_true, Bool.not_eq_true] at space
    obtain ⟨js, rust⟩ := known.solid d space.1 space.2 c made
    rw [js, rust] at blank
    simp at blank

include known in
/-- Of a text without the two characters both guards say the same, unless it is too long. -/
theorem guards_agree {app : App} (same : app.unicode = t.toUnicode) (fits : text.utf8ByteSize ≤ 1024 * 1024)
    (next : nextLine ∉ text.toList) (mark : byteOrderMark ∉ text.toList) :
    hasCredentialText t text = true ↔ parseManagedConfig app text = .error refused := by
  have without : ∀ c, jsSpace c = true ∨ Text.isWhitespace c = true → c ∉ text.toList →
      ((∃ spelling, Spells t text spelling ∧ c ∉ spelling) ↔ ∃ spelling, Spells t text spelling) := by
    intro c blank absent
    apply exists_congr
    intro spelling
    refine and_iff_left_of_imp fun spelled member => absent ?_
    exact mem_of_mem_lowered known blank (spelled.1.subset member)
  rw [refused_iff, same, hasCredentialText_iff known, credentialLike_iff known, without nextLine (.inr (by decide)) next,
    without byteOrderMark (.inl (by decide)) mark]
  exact (and_iff_right fits).symm

end Guards

/-! ### Two texts -/

/-- The lower case of ASCII letters and of the sigma. -/
def plainCasing : Casing where
  isAlphanumeric := Char.isAlphanum
  toLowercase c := if c = 'Σ' then ['σ'] else [c.toLower]
  cased := Char.isAlpha
  caseIgnorable c := c == '.'

theorem plainCasing_known : plainCasing.Known := by
  have spaces : ∀ c : Char, jsSpace c = true ∨ Text.isWhitespace c = true → c.toLower = c ∧ c ≠ 'Σ' := by
    intro c blank
    have range : ¬ (65 ≤ c.toNat ∧ c.toNat ≤ 90) ∧ c.toNat ≠ 931 := by
      simp [jsSpace, Text.isWhitespace] at blank
      omega
    refine ⟨?_, fun same => range.2 (same ▸ rfl)⟩
    unfold Char.toLower
    apply dif_neg
    rintro ⟨low, high⟩
    exact range.1 ⟨UInt32.le_iff_toNat_le.mp low, UInt32.le_iff_toNat_le.mp high⟩
  refine ⟨rfl, ?_, ?_⟩
  · intro c blank
    obtain ⟨lower, other⟩ := spaces c blank
    show (if c = 'Σ' then _ else _) = _
    rw [if_neg other, lower]
  · intro c js rust d member
    change d ∈ (if c = 'Σ' then _ else _) at member
    split at member
    · rw [List.mem_singleton.mp member]
      decide
    · obtain rfl := List.mem_singleton.mp member
      by_cases upper : c.val ≥ 'A'.val ∧ c.val ≤ 'Z'.val
      · have low : 65 ≤ c.toNat := UInt32.le_iff_toNat_le.mp upper.1
        have high : c.toNat ≤ 90 := UInt32.le_iff_toNat_le.mp upper.2
        have moved : c.toLower.toNat = c.toNat + 32 := by
          unfold Char.toLower
          rw [dif_pos upper]
          show (c.val.toNat + 32) % 2 ^ 32 = c.val.toNat + 32
          change c.val.toNat ≤ 90 at high
          omega
        simp [jsSpace, Text.isWhitespace, moved]
        omega
      · have same : c.toLower = c := dif_neg upper
        rw [same]
        exact ⟨js, rust⟩

def localApp : App := { Broker.localApp with unicode := plainCasing.toUnicode }

/-- Both guards see a credential that is spread over a line with a blank. -/
theorem guards_agree_iff_blank : hasCredentialText plainCasing "SIG =" = true ↔ parseManagedConfig localApp "SIG =" = .error refused := by
  apply (guards_agree_iff plainCasing_known rfl).mpr
  have spelling : Spells plainCasing "SIG =" "sig =".toList := ⟨List.infix_rfl, "sig=", by decide, by decide⟩
  refine ⟨fun _ => ?_, fun long => absurd long (by decide)⟩
  exact iff_of_true ⟨_, spelling, by decide⟩ ⟨_, spelling, by decide⟩

/-- A credential with the next-line character in it leaves the browser and is refused by the broker. -/
theorem next_line_passes : hasCredentialText plainCasing "sig\u0085=" = false ∧
    parseManagedConfig localApp "sig\u0085=" = .error refused := by decide

end Azbridge.Web
