import Azbridge.Lib.Forms
import Azbridge.Lib.Utf8
import Azbridge.Runtime.Sas

/-!
# The text of a token

A token is a form whose values are percent-encoded, except for the key name. Whoever reads the form finds what
was written as long as the name holds nothing that means something there.
-/

namespace Azbridge.Sas
open Utf8

def bytes (s : String) : List UInt8 := s.toList.flatMap String.utf8EncodeChar

/-- `String::from_utf8_lossy`; `lossy` is what is made of bytes that are not UTF-8. -/
def decodeUtf8 (lossy : List UInt8 → String) (bs : List UInt8) : String :=
  match bs.toByteArray.utf8Decode? with
  | some cs => String.ofList cs.toList
  | none => lossy bs

/-- The fields of `application/x-www-form-urlencoded` text. -/
def readForm (lossy : List UInt8 → String) (fields : String) : List (String × String) :=
  (Forms.parse (bytes fields)).map fun f => (decodeUtf8 lossy f.1, decodeUtf8 lossy f.2)

def upperHex (c : Char) : Bool := c.isDigit || ('A' ≤ c && c ≤ 'F')

/-- Unreserved characters, and triples of a percent sign and two digits. -/
inductive Escaped : List Char → Prop
  | nil : Escaped []
  | plain {c : Char} {rest : List Char} (kept : unreserved c = true) (more : Escaped rest) : Escaped (c :: rest)
  | triple {high low : Char} {rest : List Char} (first : upperHex high = true) (second : upperHex low = true)
      (more : Escaped rest) : Escaped ('%' :: high :: low :: rest)

theorem Escaped.append {cs ds : List Char} (first : Escaped cs) (second : Escaped ds) : Escaped (cs ++ ds) := by
  induction first with
  | nil => exact second
  | plain kept _ ih => exact .plain kept ih
  | triple high low _ ih => exact .triple high low ih

section Bytes
variable {c : Char} {b : UInt8}

theorem bytes_append (s t : String) : bytes (s ++ t) = bytes s ++ bytes t := by
  unfold bytes
  rw [String.toList_append, List.flatMap_append]

theorem decodeUtf8_bytes (lossy : List UInt8 → String) (s : String) : decodeUtf8 lossy (bytes s) = s := by
  have decoded : (bytes s).toByteArray.utf8Decode? = some s.toList.toArray := List.utf8Decode?_utf8Encode
  unfold decodeUtf8
  rw [decoded]
  exact String.ofList_toList

/-- A byte that is ASCII is that of its character only. -/
theorem mem_bytes_ascii {s : String} (member : b ∈ bytes s) (ascii : b.toNat < 128) : ∃ c ∈ s.toList, c.toNat = b.toNat := by
  obtain ⟨c, held, within⟩ := List.mem_flatMap.mp member
  refine ⟨c, held, ?_⟩
  by_cases small : c.toNat < 128
  · rw [utf8EncodeChar_ascii small] at within
    rw [List.mem_singleton.mp within, UInt8.toNat_ofNat', Nat.mod_eq_of_lt (by omega)]
  · have high := utf8EncodeChar_high (Nat.not_lt.mp small) within
    omega

theorem not_mem_bytes {s : String} {c : Char} (absent : c ∉ s.toList) (ascii : c.toNat < 128) : UInt8.ofNat c.toNat ∉ bytes s := by
  intro member
  have value : (UInt8.ofNat c.toNat).toNat = c.toNat := by rw [UInt8.toNat_ofNat', Nat.mod_eq_of_lt (by omega)]
  obtain ⟨d, held, same⟩ := mem_bytes_ascii member (by omega)
  have equal : d = c := Char.toNat_inj.mp (same.trans value)
  exact absent (equal ▸ held)

end Bytes

/-- The bytes that `url_encode` keeps. -/
def keepByte (b : UInt8) : Bool := b.toNat < 128 && unreserved (Char.ofNat b.toNat)

theorem keepByte_plain : Forms.Plain keepByte := by
  constructor <;> decide

theorem unreserved_ascii {c : Char} (kept : unreserved c = true) : c.toNat < 128 := by
  unfold unreserved at kept
  rcases Bool.or_eq_true_iff.mp kept with alphanum | sign
  · have range := Text.range_of_isAlphanum alphanum
    omega
  · simp only [List.contains_cons, List.contains_nil, Bool.or_false, Bool.or_eq_true, beq_iff_eq] at sign
    obtain rfl | rfl | rfl | rfl := sign <;> decide

theorem upperHex_hexDigit : ∀ n < 16, upperHex (hexDigit n) = true := by decide

theorem bytes_hexDigit : ∀ n < 16, String.utf8EncodeChar (hexDigit n) = [Forms.hexDigit n] := by decide

theorem escaped_encodeChar (c : Char) : Escaped (encodeChar c) := by
  unfold encodeChar
  split
  · next kept => exact .plain kept .nil
  · generalize String.utf8EncodeChar c = bs
    induction bs with
    | nil => exact .nil
    | cons b bs ih =>
      obtain ⟨high, low, _⟩ := Forms.halves b
      exact .triple (upperHex_hexDigit _ high) (upperHex_hexDigit _ low) ih

theorem escaped_urlEncode (s : String) : Escaped (urlEncode s).toList := by
  unfold urlEncode
  rw [String.toList_ofList]
  induction s.toList with
  | nil => exact .nil
  | cons c cs ih => exact (escaped_encodeChar c).append ih

theorem bytes_encodeChar (c : Char) :
    (encodeChar c).flatMap String.utf8EncodeChar = Forms.encode keepByte (String.utf8EncodeChar c) := by
  have ascii : c.toNat < 128 → keepByte (UInt8.ofNat c.toNat) = unreserved c := by
    intro small
    have value : (UInt8.ofNat c.toNat).toNat = c.toNat := by rw [UInt8.toNat_ofNat', Nat.mod_eq_of_lt (by omega)]
    unfold keepByte
    rw [value, Char.ofNat_toNat, decide_eq_true small, Bool.true_and]
  unfold encodeChar Forms.encode
  split
  · next kept =>
    have small := unreserved_ascii kept
    rw [utf8EncodeChar_ascii small]
    simp [Forms.encodeByte, ascii small, kept, utf8EncodeChar_ascii small]
  · next other =>
    have lost : ∀ b ∈ String.utf8EncodeChar c, keepByte b = false := by
      intro b member
      by_cases small : c.toNat < 128
      · rw [utf8EncodeChar_ascii small] at member
        rw [List.mem_singleton.mp member, ascii small]
        exact Bool.not_eq_true _ ▸ other
      · have high := utf8EncodeChar_high (Nat.not_lt.mp small) member
        simp [keepByte, Nat.not_lt.mpr high]
    rw [List.flatMap_assoc]
    apply List.flatMap_congr
    intro b member
    obtain ⟨high, low, _⟩ := Forms.halves b
    have sign : String.utf8EncodeChar '%' = [Forms.percent] := by decide
    unfold Forms.encodeByte
    rw [lost b member]
    simp [Forms.escape, bytes_hexDigit _ high, bytes_hexDigit _ low, sign]

theorem bytes_urlEncode (s : String) : bytes (urlEncode s) = Forms.encode keepByte (bytes s) := by
  unfold bytes urlEncode Forms.encode
  rw [String.toList_ofList, List.flatMap_assoc, List.flatMap_assoc]
  apply List.flatMap_congr
  intro c _
  exact bytes_encodeChar c

theorem percentDecode_urlEncode (s : String) : Forms.percentDecode (bytes (urlEncode s)) = bytes s := by
  have whole : Forms.percentDecode (Forms.encode keepByte (bytes s) ++ []) = bytes s ++ Forms.percentDecode [] :=
    Forms.percentDecode_encode keepByte_plain.percent []
  rwa [List.append_nil, ← bytes_urlEncode, show Forms.percentDecode [] = [] from rfl, List.append_nil] at whole

theorem bytes_injective {s t : String} (same : bytes s = bytes t) : s = t := by
  rw [← decodeUtf8_bytes (fun _ => "") s, same, decodeUtf8_bytes]

theorem urlEncode_injective : Function.Injective urlEncode := by
  intro s t same
  apply bytes_injective
  rw [← percentDecode_urlEncode s, same, percentDecode_urlEncode]

section Tokens
variable {libs : Libraries} {lossy : List UInt8 → String} {p : KeyProvider} {audience : String} {expiry : Nat}

/-- A name that a form holds as it is. -/
def PlainName (name : String) : Prop := ∀ c ∈ ['&', '%', '+', '='], c ∉ name.toList

def KeyProvider.signature (libs : Libraries) (p : KeyProvider) (audience : String) (expiry : Nat) : String :=
  libs.mac p.key (urlEncode audience ++ "\n" ++ toString expiry)

/-- The fields of a token, as they are read. -/
def KeyProvider.fields (libs : Libraries) (p : KeyProvider) (audience : String) (expiry : Nat) : List (String × String) :=
  [("sr", audience), ("sig", p.signature libs audience expiry), ("se", toString expiry), ("skn", p.keyName)]

/-- The fields of a token, as they are written. -/
def KeyProvider.written (libs : Libraries) (p : KeyProvider) (audience : String) (expiry : Nat) : List (List UInt8 × List UInt8) :=
  [(bytes "sr", bytes (urlEncode audience)), (bytes "sig", bytes (urlEncode (p.signature libs audience expiry))),
    (bytes "se", bytes (toString expiry)), (bytes "skn", bytes p.keyName)]

theorem clean_urlEncode (s : String) : Forms.ampersand ∉ bytes (urlEncode s) := by
  intro member
  rw [bytes_urlEncode] at member
  rcases Forms.mem_encode member with kept | sign | ⟨n, small, digit⟩
  · exact absurd kept (by rw [keepByte_plain.ampersand]; decide)
  · exact absurd sign (by decide)
  · exact (Forms.hexDigit_plain n small).2.2.1 digit.symm

theorem decode_urlEncode (s : String) : Forms.decode (bytes (urlEncode s)) = bytes s := by
  rw [bytes_urlEncode]
  exact Forms.decode_encode keepByte_plain

theorem decode_of_absent {s : String} (sign : '%' ∉ s.toList) (plus : '+' ∉ s.toList) : Forms.decode (bytes s) = bytes s :=
  Forms.decode_of_plain (not_mem_bytes sign (by decide)) (not_mem_bytes plus (by decide))

theorem not_mem_number {c : Char} (other : c.isDigit = false) : c ∉ (toString expiry).toList := by
  intro member
  rw [Text.digit_of_toString member] at other
  cases other

theorem text_fields : ∃ fields, Text.stripPrefix "SharedAccessSignature " (p.text libs audience expiry) = some fields ∧
    bytes fields = [Forms.ampersand].intercalate ((p.written libs audience expiry).map fun f => f.1 ++ Forms.equals :: f.2) := by
  let rest := "sr=" ++ urlEncode audience ++ "&sig=" ++ urlEncode (p.signature libs audience expiry) ++ "&se=" ++ toString expiry ++
    "&skn=" ++ p.keyName
  have whole : p.text libs audience expiry = "SharedAccessSignature " ++ rest := by
    unfold KeyProvider.text
    rw [show "SharedAccessSignature sr=" = "SharedAccessSignature " ++ "sr=" by decide]
    simp only [rest, KeyProvider.signature, String.append_assoc]
  refine ⟨rest, by rw [whole, Text.stripPrefix_append], ?_⟩
  have names : bytes "sr=" = bytes "sr" ++ [Forms.equals] ∧ bytes "&sig=" = Forms.ampersand :: (bytes "sig" ++ [Forms.equals]) ∧
      bytes "&se=" = Forms.ampersand :: (bytes "se" ++ [Forms.equals]) ∧
        bytes "&skn=" = Forms.ampersand :: (bytes "skn" ++ [Forms.equals]) := by decide
  simp only [rest, bytes_append, names.1, names.2.1, names.2.2.1, names.2.2.2, KeyProvider.written, List.map_cons, List.map_nil,
    List.intercalate_cons_cons, List.intercalate_singleton, List.append_assoc, List.cons_append, List.nil_append]

theorem readForm_text (plain : PlainName p.keyName) :
    ∃ fields, Text.stripPrefix "SharedAccessSignature " (p.text libs audience expiry) = some fields ∧
      readForm lossy fields = p.fields libs audience expiry := by
  obtain ⟨fields, stripped, form⟩ := @text_fields libs p audience expiry
  refine ⟨fields, stripped, ?_⟩
  have number : ∀ {c : Char}, c.isDigit = false → c.toNat < 128 → UInt8.ofNat c.toNat ∉ bytes (toString expiry) :=
    fun other ascii => not_mem_bytes (not_mem_number other) ascii
  have name : ∀ c ∈ ['&', '%', '+', '='], c.toNat < 128 → UInt8.ofNat c.toNat ∉ bytes p.keyName :=
    fun c member ascii => not_mem_bytes (plain c member) ascii
  have digits : Forms.ampersand ∉ bytes (toString expiry) := number (c := '&') (by decide) (by decide)
  have policy : Forms.ampersand ∉ bytes p.keyName := name '&' (by decide) (by decide)
  have first : ∀ n ∈ ["sr", "sig", "se", "skn"], Forms.ampersand ∉ bytes n ∧ Forms.equals ∉ bytes n :=
    Text.forall_mem_of_all (by decide)
  have clean : ∀ f ∈ p.written libs audience expiry,
      Forms.ampersand ∉ f.1 ∧ Forms.ampersand ∉ f.2 ∧ Forms.equals ∉ f.1 := by
    intro f member
    simp only [KeyProvider.written, List.mem_cons, List.not_mem_nil, or_false] at member
    obtain rfl | rfl | rfl | rfl := member
    · have sr := first "sr" (by decide)
      dsimp only
      exact ⟨sr.1, clean_urlEncode audience, sr.2⟩
    · have sig := first "sig" (by decide)
      dsimp only
      exact ⟨sig.1, clean_urlEncode (p.signature libs audience expiry), sig.2⟩
    · have se := first "se" (by decide)
      dsimp only
      exact ⟨se.1, digits, se.2⟩
    · have skn := first "skn" (by decide)
      dsimp only
      exact ⟨skn.1, policy, skn.2⟩
  have names : Forms.decode (bytes "sr") = bytes "sr" ∧ Forms.decode (bytes "sig") = bytes "sig" ∧
      Forms.decode (bytes "se") = bytes "se" ∧ Forms.decode (bytes "skn") = bytes "skn" := by decide
  have values : Forms.decode (bytes (toString expiry)) = bytes (toString expiry) ∧ Forms.decode (bytes p.keyName) = bytes p.keyName :=
    ⟨decode_of_absent (not_mem_number (by decide)) (not_mem_number (by decide)),
      decode_of_absent (plain '%' (by decide)) (plain '+' (by decide))⟩
  unfold readForm
  rw [form, Forms.parse_fields (by simp [KeyProvider.written]) clean]
  simp only [KeyProvider.written, KeyProvider.fields, List.map_cons, List.map_nil, names.1, names.2.1, names.2.2.1, names.2.2.2,
    values.1, values.2, decode_urlEncode, decodeUtf8_bytes]

/-- What is encoded holds only unreserved characters and triples and is decoded to what it was; so whatever token is
made, its form holds its audience, signature, expiry and key name. -/
theorem token_text_round_trips :
    (∀ s, Escaped (urlEncode s).toList ∧ Forms.percentDecode (bytes (urlEncode s)) = bytes s ∧
      ∀ lossy, decodeUtf8 lossy (Forms.percentDecode (bytes (urlEncode s))) = s) ∧
    Function.Injective urlEncode ∧
    (∀ libs p now audience validFor token, KeyProvider.getToken libs p now audience validFor = some token →
      ∃ expiry, token = ⟨p.text libs audience expiry, expiry * second⟩) ∧
    ∀ libs lossy (p : KeyProvider) audience expiry, PlainName p.keyName →
      ∃ fields, Text.stripPrefix "SharedAccessSignature " (p.text libs audience expiry) = some fields ∧
        readForm lossy fields = [("sr", audience), ("sig", libs.mac p.key (urlEncode audience ++ "\n" ++ toString expiry)),
          ("se", toString expiry), ("skn", p.keyName)] := by
  refine ⟨?_, urlEncode_injective, ?_, fun _ _ _ _ _ plain => readForm_text plain⟩
  · intro s
    refine ⟨escaped_urlEncode s, percentDecode_urlEncode s, ?_⟩
    intro lossy
    rw [percentDecode_urlEncode, decodeUtf8_bytes]
  · intro libs p now audience validFor token made
    unfold KeyProvider.getToken at made
    split at made
    · cases made
    · obtain rfl := Option.some.inj made
      exact ⟨_, rfl⟩

/-- The token of a key whose name has a blank, for an audience with a letter beyond ASCII. -/
theorem token_text_round_trips_once : ∃ libs token expiry fields,
    KeyProvider.getToken libs ⟨"send key", "k"⟩ 0 "http://h/\u00e9" 60 = some token ∧ token.expiresAt = expiry * second ∧
      Text.stripPrefix "SharedAccessSignature " token.token = some fields ∧
      readForm (fun _ => "") fields = [("sr", "http://h/\u00e9"), ("sig", "a+b="), ("se", toString expiry), ("skn", "send key")] := by
  let libs : Libraries := ⟨fun _ => none, fun _ => [], fun _ _ => "a+b=", ⟨Char.isAlphanum, fun c => [c]⟩⟩
  obtain ⟨token, made⟩ : ∃ token, KeyProvider.getToken libs ⟨"send key", "k"⟩ 0 "http://h/\u00e9" 60 = some token := ⟨_, rfl⟩
  have plain : PlainName "send key" := Text.forall_mem_of_all (by decide)
  obtain ⟨expiry, same⟩ := token_text_round_trips.2.2.1 libs _ _ _ _ _ made
  obtain ⟨fields, stripped, read⟩ := token_text_round_trips.2.2.2 libs (fun _ => "") ⟨"send key", "k"⟩ "http://h/\u00e9" expiry plain
  exact ⟨libs, token, expiry, fields, made, by rw [same], by rw [same]; exact stripped, read⟩

end Tokens
end Azbridge.Sas
