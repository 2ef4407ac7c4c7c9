import Azbridge.Arm.Naming

/-!
# Tokens for gateways

The broker signs an audience that it has built and lowered, and a gateway takes the token if it names
the audience that the gateway has built. What URLs, forms and signatures are known to be like is a
hypothesis.
-/

namespace Azbridge.Arm
open Broker (RelayRight RelayTokenResponse)
open Sas (Libraries SystemTime BrokerTokenProvider TokenError buildRelayAddress urlEncode encodeChar unreserved tokenRenewalMargin
  longestLifetime lastSecond)

/-- Stands between the slashes of an address and is not dropped there. -/
def AuthorityChar (c : Char) : Prop := c ∉ ['/', '\\', '?', '#', '\t', '\n', '\r']

def Ascii (s : String) : Prop := ∀ c ∈ s.toList, c.toNat < 128

def formText (fields : List (String × String)) : String := "&".intercalate (fields.map fun f => f.1 ++ "=" ++ urlEncode f.2)

/-- The name of a field that needs no encoding, and a value that may need it. -/
structure FormField (f : String × String) : Prop where
  named : f.1 ≠ ""
  plain : ∀ c ∈ f.1.toList, c.isAlphanum = true
  value : Ascii f.2

/-- What is known of the crates that read URLs and forms and that sign. -/
structure Conventional (libs : Libraries) : Prop where
  /-- A host is percent-encoded or in Punycode. -/
  host : ∀ {text : String} {url : Sas.Url} {host : String}, libs.parseUrl text = some url → url.host = some host →
    Ascii host ∧ ∀ c ∈ host.toList, AuthorityChar c
  path : ∀ {authority : String} {segments : List String} {address : Sas.Url}, authority ≠ "" →
    (∀ c ∈ authority.toList, AuthorityChar c) → segments ≠ [] → (∀ s ∈ segments, PlainSegment s) →
    libs.parseUrl ("wss://" ++ authority ++ "/" ++ "/".intercalate segments) = some address →
      address.path = "/" ++ "/".intercalate segments
  form : ∀ fields : List (String × String), (∀ f ∈ fields, FormField f) → libs.parseForm (formText fields) = fields
  mac : ∀ key text : String, libs.mac key text ≠ "" ∧ Ascii (libs.mac key text)
  lower : ∀ c : Char, c.toNat < 128 → libs.unicode.toLowercase c = [c.toLower]

/-! ### Audiences -/

def audienceOf (host name : String) : String := "http://" ++ host ++ "/" ++ name ++ "/"

theorem audienceOf_inj {host a b : String} (same : audienceOf host a = audienceOf host b) : a = b := by
  unfold audienceOf at same
  have lists := congrArg String.toList same
  simp only [String.toList_append, List.append_assoc, List.append_cancel_left_eq, List.append_cancel_right_eq] at lists
  exact String.toList_inj.mp lists

theorem normalizeAudience_eq {libs : Libraries} {address : Sas.Url} {name : String} (accepted : Accepted name)
    (path : address.path = "/$hc/" ++ name) : Sas.normalizeAudience libs address =
      audienceOf (String.ofList ((address.host.getD "").toList.flatMap libs.unicode.toLowercase)) name := by
  have slash : Text.stripPrefix "/" name = none := by
    cases stripped : Text.stripPrefix "/" name with
    | none => rfl
    | some rest =>
      have starts := Text.stripPrefix_eq_some stripped
      have member : '/' ∈ name.toList := by simp [starts]
      exact absurd member (accepted.not_mem (by decide) (by decide))
  have ends : Text.endsWith (· == '/') name = false := by
    unfold Text.endsWith
    cases last : name.toList.getLast? with
    | none => rfl
    | some c =>
      have member := List.mem_of_getLast? last
      have other : c ≠ '/' := by
        rintro rfl
        exact accepted.not_mem (by decide) (by decide) member
      simp [other]
  unfold Sas.normalizeAudience
  rw [path, Text.stripPrefix_append]
  simp only [Option.orElse, Option.getD_some, slash, Option.getD_none]
  rw [Text.endsWith_append _ accepted.some_, ends]
  rfl

theorem toAsciiLowercase_audienceOf {host name : String} (lowered : ∀ c ∈ host.toList, c.toLower = c) :
    Text.toAsciiLowercase (audienceOf host name) = audienceOf host (Text.toAsciiLowercase name) := by
  unfold audienceOf Text.toAsciiLowercase
  apply String.toList_inj.mp
  have scheme : "http://".toList.map Char.toLower = "http://".toList := by decide
  have slash : "/".toList.map Char.toLower = "/".toList := by decide
  have same : host.toList.map Char.toLower = host.toList := (List.map_congr_left lowered).trans (List.map_id' _)
  simp only [String.toList_append, String.toList_ofList, List.map_append, scheme, slash, same]

theorem toAsciiLowercase_eq_self {name : String} : Text.toAsciiLowercase name = name ↔ ∀ c ∈ name.toList, c.toLower = c := by
  unfold Text.toAsciiLowercase
  rw [← String.toList_inj, String.toList_ofList]
  constructor
  · intro same c member
    obtain ⟨i, bound, rfl⟩ := List.getElem_of_mem member
    have at_ := congrArg (·[i]?) same
    simpa [bound] using at_
  · intro lowered
    exact (List.map_congr_left lowered).trans (List.map_id' _)

/-! ### Tokens -/

theorem urlEncode_of_unreserved {s : String} (all : ∀ c ∈ s.toList, unreserved c = true) : urlEncode s = s := by
  have kept : ∀ cs : List Char, (∀ c ∈ cs, unreserved c = true) → cs.flatMap encodeChar = cs := by
    intro cs plain
    induction cs with
    | nil => rfl
    | cons c cs ih =>
      have first : encodeChar c = [c] := if_pos (plain c List.mem_cons_self)
      rw [List.flatMap_cons, first, ih fun d member => plain d (List.mem_cons_of_mem _ member)]
      rfl
  unfold urlEncode
  rw [kept _ all, String.ofList_toList]

theorem urlEncode_toString (n : Nat) : urlEncode (toString n) = toString n := by
  apply urlEncode_of_unreserved
  intro c member
  have digit := Text.digit_of_toString member
  simp [unreserved, Char.isAlphanum, digit]

theorem urlEncode_rule (right : RelayRight) : urlEncode (rule right) = rule right := by
  cases right with
  | send => decide +kernel
  | listen => decide +kernel

def tokenFields (audience signature : String) (expiry : Nat) (keyName : String) : List (String × String) :=
  [("sr", audience), ("sig", signature), ("se", toString expiry), ("skn", keyName)]

theorem text_eq (libs : Libraries) (right : RelayRight) (key audience : String) (expiry : Nat) :
    (⟨rule right, key⟩ : Sas.KeyProvider).text libs audience expiry = "SharedAccessSignature " ++
      formText (tokenFields audience (libs.mac key (urlEncode audience ++ "\n" ++ toString expiry)) expiry (rule right)) := by
  unfold Sas.KeyProvider.text formText tokenFields
  simp only [List.map_cons, List.map_nil, String.intercalate_cons_cons, String.intercalate_singleton, urlEncode_toString, urlEncode_rule]
  have scope : "SharedAccessSignature sr=" = "SharedAccessSignature " ++ "sr" ++ "=" := by decide
  have sig : "&sig=" = "&" ++ "sig" ++ "=" := by decide
  have se : "&se=" = "&" ++ "se" ++ "=" := by decide
  have skn : "&skn=" = "&" ++ "skn" ++ "=" := by decide
  rw [scope, sig, se, skn]
  simp only [String.append_assoc]

/-- A gateway takes a token of these fields where they name its audience and the token neither expires soon nor
lasts long. -/
theorem validateToken_iff {libs : Libraries} {p : BrokerTokenProvider} {now : SystemTime} {response : RelayTokenResponse}
    {audience signature keyName fields : String} (text : response.token = "SharedAccessSignature " ++ fields)
    (read : libs.parseForm fields = tokenFields audience signature response.expiresAt keyName) (signed : signature ≠ "")
    (ruled : keyName ≠ "") (counted : response.expiresAt ≤ lastSecond) :
    (∃ token, p.validateToken libs now response = .ok token) ↔ audience = p.audience ∧
      (tokenRenewalMargin : Int) < (response.expiresAt : Int) * Sas.second - now ∧
      (response.expiresAt : Int) * Sas.second - now ≤ (longestLifetime : Int) := by
  have bound : response.expiresAt < Text.u64 := by
    have last : lastSecond < Text.u64 := by decide
    omega
  have distinct : ((tokenFields audience signature response.expiresAt keyName).map (·.1)).Nodup := by
    show ["sr", "sig", "se", "skn"].Nodup
    decide
  have sr : Sas.field (tokenFields audience signature response.expiresAt keyName) "sr" = some audience := rfl
  have sig : Sas.field (tokenFields audience signature response.expiresAt keyName) "sig" = some signature := rfl
  have se : Sas.field (tokenFields audience signature response.expiresAt keyName) "se" = some (toString response.expiresAt) := rfl
  have skn : Sas.field (tokenFields audience signature response.expiresAt keyName) "skn" = some keyName := rfl
  unfold BrokerTokenProvider.validateToken
  rw [text, Text.stripPrefix_append]
  simp only [read, sr, sig, se, skn, distinct, not_true_eq_false, if_false, Option.bind_some, Text.parseU64_toString bound,
    Option.all_some, String.isEmpty_iff, signed, ruled, or_false, ne_eq, Option.some.injEq, Nat.not_lt.mpr counted]
  simp only [bind, Except.bind, pure, Except.pure, throw, throwThe, MonadExceptOf.throw]
  have margin : (0 : Int) ≤ tokenRenewalMargin := Int.natCast_nonneg _
  generalize (response.expiresAt : Int) * Sas.second = expiry
  split
  · next other => simp [other]
  · next same =>
    have same := Classical.not_not.mp same
    split
    · next past =>
      have late : expiry - now < 0 := Int.sub_neg_of_lt past
      have none_left : ¬ (tokenRenewalMargin : Int) < expiry - now := by omega
      simp [none_left]
    · next ahead =>
      split
      · next outside =>
        have out : ¬ ((tokenRenewalMargin : Int) < expiry - now ∧ expiry - now ≤ longestLifetime) := by
          rintro ⟨near, far⟩
          obtain near' | far' := outside
          · exact Int.not_le.mpr near near'
          · exact Int.not_lt.mpr far far'
        constructor
        · rintro ⟨token, given⟩
          cases given
        · rintro ⟨_, within⟩
          exact absurd within out
      · next inside =>
        have within : (tokenRenewalMargin : Int) < expiry - now ∧ expiry - now ≤ longestLifetime := by
          rw [not_or] at inside
          exact ⟨Int.not_le.mp inside.1, Int.not_lt.mp inside.2⟩
        simp [same, within]

theorem ascii_append {a b : String} (first : Ascii a) (last : Ascii b) : Ascii (a ++ b) := by
  intro c member
  rw [String.toList_append, List.mem_append] at member
  exact member.elim (first c) (last c)

theorem toLower_ascii {c : Char} (ascii : c.toNat < 128) : c.toLower.toNat < 128 := by
  unfold Char.toLower
  split
  · next upper =>
    have bound : c.val.toNat ≤ 90 := UInt32.le_iff_toNat_le.mp upper.2
    show (c.val + 32).toNat < 128
    rw [UInt32.toNat_add]
    have small : (32 : UInt32).toNat = 32 := rfl
    omega
  · exact ascii

theorem ascii_toAsciiLowercase {s : String} (ascii : Ascii s) : Ascii (Text.toAsciiLowercase s) := by
  intro c member
  unfold Text.toAsciiLowercase at member
  rw [String.toList_ofList] at member
  obtain ⟨d, held, rfl⟩ := List.mem_map.mp member
  exact toLower_ascii (ascii d held)

theorem lowered_toAsciiLowercase (s : String) : ∀ c ∈ (Text.toAsciiLowercase s).toList, c.toLower = c := by
  intro c member
  unfold Text.toAsciiLowercase at member
  rw [String.toList_ofList] at member
  obtain ⟨d, _, rfl⟩ := List.mem_map.mp member
  exact Text.toLower_toLower d

theorem text_read {libs : Libraries} (known : Conventional libs) (right : RelayRight) (key : String) {audience : String}
    (ascii : Ascii audience) (expiry : Nat) : ∃ fields signature,
      (⟨rule right, key⟩ : Sas.KeyProvider).text libs audience expiry = "SharedAccessSignature " ++ fields ∧
      libs.parseForm fields = tokenFields audience signature expiry (rule right) ∧ signature ≠ "" := by
  obtain ⟨some_, plain⟩ := known.mac key (urlEncode audience ++ "\n" ++ toString expiry)
  refine ⟨_, _, text_eq libs right key audience expiry, ?_, some_⟩
  apply known.form
  have digits : Ascii (toString expiry) := by
    intro c member
    have digit := Text.digit_of_toString member
    have := Text.range_of_isAlphanum (c := c) (by simp [Char.isAlphanum, digit])
    omega
  have ruled : Ascii (rule right) := by
    cases right with
    | send => exact Text.forall_mem_of_all (by decide)
    | listen => exact Text.forall_mem_of_all (by decide)
  have named : ∀ name ∈ ["sr", "sig", "se", "skn"], name ≠ "" ∧ name.toList.all Char.isAlphanum = true :=
    Text.forall_mem_of_all (by decide)
  have field : ∀ {name value : String}, name ∈ ["sr", "sig", "se", "skn"] → Ascii value → FormField (name, value) := by
    intro name value known plain
    obtain ⟨some_, all⟩ := named name known
    exact ⟨some_, List.all_eq_true.mp all, plain⟩
  intro f member
  simp only [tokenFields, List.mem_cons, List.not_mem_nil, or_false] at member
  obtain rfl | rfl | rfl | rfl := member
  · exact field (by decide) ascii
  · exact field (by decide) plain
  · exact field (by decide) digits
  · exact field (by decide) ruled

theorem lifetime {issued : SystemTime} (since : 0 ≤ issued) {expiry : Nat} (expires : expiry = issued.toNat / Sas.second + tokenTtl) :
    (tokenRenewalMargin : Int) < (expiry : Int) * Sas.second - issued ∧ (expiry : Int) * Sas.second - issued ≤ (longestLifetime : Int) := by
  obtain ⟨elapsed, rfl⟩ := Int.eq_ofNat_of_zero_le since
  have one : Sas.second = 1000000000 := rfl
  have margin : tokenRenewalMargin = 300 * 1000000000 := rfl
  have longest : longestLifetime = 3660 * 1000000000 := rfl
  have ttl : tokenTtl = 3600 := rfl
  rw [Int.toNat_natCast, one] at expires
  rw [one]
  rw [margin, longest]
  rw [ttl] at expires
  omega

/-- What the broker has signed, where it has. -/
theorem sign_ok {libs : Libraries} {issued : SystemTime} {namespaceName name : String} {right : RelayRight} {key : String}
    {response : RelayTokenResponse} (signed : sign libs issued namespaceName name right key = .ok response) :
    ∃ endpoint address, libs.parseUrl (endpointText namespaceName) = some endpoint ∧
      buildRelayAddress libs endpoint name = some address ∧ 0 ≤ issued ∧
      response.expiresAt = issued.toNat / Sas.second + tokenTtl ∧
      response.token = (⟨rule right, key⟩ : Sas.KeyProvider).text libs (Text.toAsciiLowercase (Sas.normalizeAudience libs address))
        response.expiresAt := by
  unfold sign at signed
  obtain ⟨endpoint, parsed, signed⟩ := Fallible.bind_eq_ok.mp signed
  obtain ⟨address, built, signed⟩ := Fallible.bind_eq_ok.mp signed
  obtain ⟨provider, held, signed⟩ := Fallible.bind_eq_ok.mp signed
  obtain ⟨token, given, signed⟩ := Fallible.bind_eq_ok.mp signed
  rw [Text.okOr_eq_ok] at parsed built held given
  have rest : provider = ⟨rule right, key⟩ := by
    unfold Sas.KeyProvider.new at held
    split at held
    · cases held
    · exact (Option.some.inj held).symm
  subst rest
  unfold Sas.KeyProvider.getToken at given
  split at given
  · cases given
  · next fits =>
    cases given
    cases signed
    simp only [not_or, Int.not_lt] at fits
    have whole : (((issued.toNat / Sas.second + tokenTtl : Nat) : Int) * Sas.second).toNat / Sas.second =
        issued.toNat / Sas.second + tokenTtl := by
      rw [← Int.natCast_mul, Int.toNat_natCast]
      exact Nat.mul_div_cancel _ (by decide)
    refine ⟨endpoint, address, parsed, built, fits.2.2, whole, ?_⟩
    dsimp only
    rw [whole]

namespace Accepted

variable {name : String} (accepted : Accepted name)
include accepted

theorem ascii : Ascii name := by
  intro c member
  obtain alphanum | other := accepted.chars c member
  · have := Text.range_of_isAlphanum alphanum
    omega
  · simp only [List.mem_cons, List.not_mem_nil, or_false] at other
    obtain rfl | rfl | rfl := other <;> decide

theorem audience {libs : Libraries} (known : Conventional libs) {text : String} {endpoint address : Sas.Url}
    (parsed : libs.parseUrl text = some endpoint) (built : buildRelayAddress libs endpoint name = some address) :
    ∃ host, Ascii host ∧ Sas.normalizeAudience libs address = audienceOf (Text.toAsciiLowercase host) name := by
  unfold buildRelayAddress at built
  obtain ⟨host, given, built⟩ := Option.bind_eq_some_iff.mp built
  dsimp only at built
  rw [hc_text] at built
  have clean : ∀ c ∈ (host ++ ":" ++ toString (endpoint.port.getD 443)).toList, AuthorityChar c := by
    intro c member special
    obtain inHost | rfl | digit := mem_authority member
    · exact (known.host parsed given).2 c inHost special
    · exact absurd special (by decide)
    · simp only [List.mem_cons, List.not_mem_nil, or_false] at special
      obtain rfl | rfl | rfl | rfl | rfl | rfl | rfl := special <;> exact absurd digit (by decide)
  have colon : host ++ ":" ++ toString (endpoint.port.getD 443) ≠ "" := by
    intro empty
    have lists := congrArg String.toList empty
    simp at lists
  have path := known.path colon clean (by simp) accepted.hc_segments built
  rw [hc_path] at path
  have ascii : Ascii (address.host.getD "") := by
    cases at_ : address.host with
    | none =>
      intro c member
      cases member
    | some host => exact (known.host built at_).1
  have lowered : (address.host.getD "").toList.flatMap libs.unicode.toLowercase = (address.host.getD "").toList.map Char.toLower := by
    rw [List.map_eq_flatMap]
    exact List.flatMap_congr fun c member => known.lower c (ascii c member)
  refine ⟨address.host.getD "", ascii, ?_⟩
  rw [normalizeAudience_eq accepted path, lowered]
  rfl

end Accepted

/-- A gateway of this endpoint, relay and right takes the token at all times from the signing to the renewal
margin exactly if the name has no capital letter: the broker lowers the whole audience, the gateway its
host only. -/
theorem token_taken_iff {libs : Libraries} (known : Conventional libs) {issued : SystemTime} {namespaceName name : String}
    {right : RelayRight} {key : String} {response : RelayTokenResponse} (named : validateConnection name = .ok ())
    (signed : sign libs issued namespaceName name right key = .ok response) (counted : response.expiresAt ≤ lastSecond) :
    ∃ endpoint provider, libs.parseUrl (endpointText namespaceName) = some endpoint ∧
      BrokerTokenProvider.new libs endpoint name right = some provider ∧
      ((∀ now : SystemTime, issued ≤ now → (tokenRenewalMargin : Int) < (response.expiresAt : Int) * Sas.second - now →
          ∃ token, provider.validateToken libs now response = .ok token) ↔ ∀ c ∈ name.toList, c.toLower = c) := by
  have accepted := accepted_of_validateConnection named
  obtain ⟨endpoint, address, parsed, built, since, expires, text⟩ := sign_ok signed
  obtain ⟨host, ascii, audience⟩ := accepted.audience known parsed built
  rw [audience, toAsciiLowercase_audienceOf (lowered_toAsciiLowercase host)] at text
  have scope : Ascii (audienceOf (Text.toAsciiLowercase host) (Text.toAsciiLowercase name)) := by
    have slash : Ascii "/" := Text.forall_mem_of_all (by decide)
    have scheme : Ascii "http://" := Text.forall_mem_of_all (by decide)
    exact ascii_append (ascii_append (ascii_append (ascii_append scheme (ascii_toAsciiLowercase ascii)) slash)
      (ascii_toAsciiLowercase accepted.ascii)) slash
  obtain ⟨fields, signature, written, read, some_⟩ := text_read known right key scope response.expiresAt
  rw [written] at text
  have ruled : rule right ≠ "" := by cases right <;> decide
  have spanned := lifetime since expires
  refine ⟨endpoint, ⟨name, right, Sas.normalizeAudience libs address⟩, parsed, ?_, ?_⟩
  · rw [accepted.scope, built]
    rfl
  · rw [← toAsciiLowercase_eq_self]
    constructor
    · intro taken
      have now := taken issued (Int.le_refl _) spanned.1
      rw [validateToken_iff text read some_ ruled counted, audience] at now
      exact audienceOf_inj now.1
    · intro same now after margin
      rw [validateToken_iff text read some_ ruled counted, audience, same]
      refine ⟨rfl, margin, ?_⟩
      have later : (response.expiresAt : Int) * Sas.second - now ≤ (response.expiresAt : Int) * Sas.second - issued :=
        Int.sub_le_sub_left after _
      exact Int.le_trans later spanned.2

/-! ### A form reader for plain texts -/

def hexValue (c : Char) : Option Nat :=
  if c.isDigit then some (c.toNat - 48) else if 'A' ≤ c ∧ c ≤ 'F' then some (c.toNat - 55) else none

/-- Where every byte is that of an ASCII character. -/
def percentDecode : List Char → List Char
  | '%' :: high :: low :: rest =>
    match hexValue high, hexValue low with
    | some h, some l => Char.ofNat (16 * h + l) :: percentDecode rest
    | _, _ => '%' :: percentDecode (high :: low :: rest)
  | '+' :: rest => ' ' :: percentDecode rest
  | c :: rest => c :: percentDecode rest
  | [] => []

def readField (part : String) : Option (String × String) :=
  if part.isEmpty then none
  else
    let (name, value) := (Text.splitOnce '=' part).getD (part, "")
    some (String.ofList (percentDecode name.toList), String.ofList (percentDecode value.toList))

def hostChar (c : Char) : Bool := c.toNat < 128 && !(['/', '\\', '?', '#', '\t', '\n', '\r'].contains c)

def readAuthority (authority : String) : String × Option Nat :=
  match Text.splitOnce ':' authority with
  | some (host, port) => (host, (Text.parseU64 port).filter (· != 443))
  | none => (authority, none)

def readUrl (s : String) : Option Sas.Url := do
  let rest ← (Text.stripPrefix "wss://" s).orElse fun _ => Text.stripPrefix "sb://" s
  let (authority, path) ← Text.splitOnce '/' rest
  let (host, port) := readAuthority authority
  if host.toList.all hostChar then some ⟨some host, port, "/" ++ path⟩ else none

/-- Reads `wss` and `sb` addresses with a path, forms of ASCII texts, and two signatures. -/
def plainLibs : Libraries where
  parseUrl := readUrl
  parseForm fields := (Text.split '&' fields).filterMap readField
  mac _ text :=
    if text = "http%3A%2F%2Fazb-web-1.servicebus.windows.net%2Fweb-1.a%2F\n4600" then "xkwu45luA1wzWSdtAx7qCs7Nl5ZqojC7A34wnjX8u1E="
    else "UTLQYxLKmwt1DNSTSu43e8d35zEt7E08Y4dtqTM5fqo="
  unicode := ⟨Char.isAlphanum, fun c => [c.toLower]⟩

theorem hexValue_hexDigit : ∀ n < 16, hexValue (Sas.hexDigit n) = some n ∧ unreserved (Sas.hexDigit n) = true := by decide

theorem percentDecode_plain {c : Char} (kept : unreserved c = true) (rest : List Char) :
    percentDecode (c :: rest) = c :: percentDecode rest := by
  rw [percentDecode]
  · rintro high low more rfl
    exact absurd kept (by decide)
  · rintro rfl
    exact absurd kept (by decide)

theorem utf8EncodeChar_ascii {c : Char} (ascii : c.toNat < 128) : String.utf8EncodeChar c = [c.toNat.toUInt8] := by
  unfold String.utf8EncodeChar
  have small : c.val.toNat ≤ 127 := by
    have : c.toNat = c.val.toNat := rfl
    omega
  exact if_pos small

theorem percentDecode_encodeChar {c : Char} (ascii : c.toNat < 128) (rest : List Char) :
    percentDecode (encodeChar c ++ rest) = c :: percentDecode rest := by
  unfold encodeChar
  split
  · next kept => exact percentDecode_plain kept rest
  · next other =>
    rw [utf8EncodeChar_ascii ascii]
    have byte : c.toNat.toUInt8.toNat = c.toNat := by
      show c.toNat % 256 = c.toNat
      omega
    have high := (hexValue_hexDigit (c.toNat / 16) (by omega)).1
    have low := (hexValue_hexDigit (c.toNat % 16) (by omega)).1
    simp only [List.flatMap_cons, List.flatMap_nil, List.append_nil, List.cons_append, List.nil_append, byte]
    rw [percentDecode]
    simp only [high, low]
    rw [Nat.div_add_mod, Char.ofNat_toNat]

theorem percentDecode_urlEncode {s : String} (ascii : Ascii s) : percentDecode (urlEncode s).toList = s.toList := by
  have kept : ∀ cs : List Char, (∀ c ∈ cs, c.toNat < 128) → percentDecode (cs.flatMap encodeChar) = cs := by
    intro cs all
    induction cs with
    | nil => rfl
    | cons c cs ih =>
      rw [List.flatMap_cons, percentDecode_encodeChar (all c List.mem_cons_self), ih fun d member => all d (List.mem_cons_of_mem _ member)]
  unfold urlEncode
  rw [String.toList_ofList]
  exact kept _ ascii

theorem urlEncode_chars {s : String} {c : Char} (ascii : Ascii s) (member : c ∈ (urlEncode s).toList) : unreserved c = true ∨ c = '%' := by
  unfold urlEncode at member
  rw [String.toList_ofList] at member
  obtain ⟨d, held, written⟩ := List.mem_flatMap.mp member
  have small := ascii d held
  unfold encodeChar at written
  split at written
  · next kept =>
    obtain rfl := List.mem_singleton.mp written
    exact .inl kept
  · next other =>
    have byte : d.toNat.toUInt8.toNat = d.toNat := by
      show d.toNat % 256 = d.toNat
      omega
    rw [utf8EncodeChar_ascii small] at written
    simp only [List.flatMap_cons, List.flatMap_nil, List.append_nil, List.mem_cons, List.not_mem_nil, or_false, byte] at written
    obtain rfl | rfl | rfl := written
    · exact .inr rfl
    · exact .inl (hexValue_hexDigit (d.toNat / 16) (by omega)).2
    · exact .inl (hexValue_hexDigit (d.toNat % 16) (by omega)).2

namespace FormField

variable {f : String × String} (plain : FormField f)
include plain

theorem name_encoded : urlEncode f.1 = f.1 := by
  apply urlEncode_of_unreserved
  intro c member
  simp [unreserved, plain.plain c member]

theorem name_ascii : Ascii f.1 := by
  intro c member
  have := Text.range_of_isAlphanum (plain.plain c member)
  omega

theorem read : '&' ∉ (f.1 ++ "=" ++ urlEncode f.2).toList ∧ readField (f.1 ++ "=" ++ urlEncode f.2) = some f := by
  have other : ∀ {c : Char}, c.isAlphanum = false → c ∉ f.1.toList := by
    intro c alphanum member
    rw [plain.plain c member] at alphanum
    cases alphanum
  constructor
  · rw [String.toList_append, String.toList_append, List.mem_append, List.mem_append]
    rintro ((inName | inSign) | inValue)
    · exact other (by decide) inName
    · exact absurd inSign (by decide)
    · exact absurd (urlEncode_chars plain.value inValue) (by decide)
  · have cut : Text.splitOnce '=' (f.1 ++ "=" ++ urlEncode f.2) = some (f.1, urlEncode f.2) :=
      Text.splitOnce_between _ (by rfl) (other (by decide))
    have some_ : (f.1 ++ "=" ++ urlEncode f.2).isEmpty = false := by
      have lists : (f.1 ++ "=" ++ urlEncode f.2) ≠ "" := by
        intro empty
        have chars := congrArg String.toList empty
        simp at chars
      simp [lists]
    have name : percentDecode f.1.toList = f.1.toList := by
      have decoded := percentDecode_urlEncode plain.name_ascii
      rwa [plain.name_encoded] at decoded
    unfold readField
    rw [some_, cut]
    simp only [Bool.false_eq_true, if_false, Option.getD_some, name, percentDecode_urlEncode plain.value, String.ofList_toList]

end FormField

theorem parseForm_formText {fields : List (String × String)} (plain : ∀ f ∈ fields, FormField f) :
    plainLibs.parseForm (formText fields) = fields := by
  have parts : ∀ fields : List (String × String), (∀ f ∈ fields, FormField f) →
      (fields.map fun f => f.1 ++ "=" ++ urlEncode f.2).filterMap readField = fields := by
    intro fields all
    induction fields with
    | nil => rfl
    | cons f rest ih =>
      rw [List.map_cons, List.filterMap_cons_some (all f List.mem_cons_self).read.2, ih fun g member => all g (List.mem_cons_of_mem _ member)]
  show (Text.split '&' (formText fields)).filterMap readField = fields
  cases fields with
  | nil => decide
  | cons f rest =>
    unfold formText
    rw [Text.split_joined (by simp) (by rfl)]
    · exact parts _ plain
    · intro part member
      obtain ⟨g, held, rfl⟩ := List.mem_map.mp member
      exact (plain g held).read.1

theorem plainLibs_conventional : Conventional plainLibs := by
  refine ⟨?_, ?_, fun _ plain => parseForm_formText plain, ?_, fun _ _ => rfl⟩
  · intro text url host parsed given
    obtain ⟨rest, _, parsed⟩ := Option.bind_eq_some_iff.mp parsed
    obtain ⟨⟨authority, path⟩, _, parsed⟩ := Option.bind_eq_some_iff.mp parsed
    dsimp only at parsed
    split at parsed
    · next all =>
      cases parsed
      cases given
      have each : ∀ c ∈ (readAuthority authority).1.toList, c.toNat < 128 ∧ AuthorityChar c := by
        intro c member
        have one := List.all_eq_true.mp all c member
        unfold hostChar at one
        simp only [Bool.and_eq_true, decide_eq_true_eq, Bool.not_eq_true', List.contains_eq_mem, decide_eq_false_iff_not] at one
        exact one
      exact ⟨fun c member => (each c member).1, fun c member => (each c member).2⟩
    · cases parsed
  · intro authority segments address _ clean _ _ parsed
    obtain ⟨rest, found, parsed⟩ := Option.bind_eq_some_iff.mp parsed
    have slash : '/' ∉ authority.toList := fun member => clean '/' member (by decide)
    rw [String.append_assoc, String.append_assoc, Text.stripPrefix_append, ← String.append_assoc] at found
    cases found
    rw [Text.splitOnce_between _ (by rfl) slash] at parsed
    dsimp only [bind, Option.bind] at parsed
    split at parsed
    · cases parsed
      rfl
    · cases parsed
  · intro key text
    unfold plainLibs
    dsimp only
    split
    · exact ⟨by decide, Text.forall_mem_of_all (by decide)⟩
    · exact ⟨by decide, Text.forall_mem_of_all (by decide)⟩

/-- What is signed for `web-1.a`, a thousand seconds after the epoch. -/
def lowerToken : RelayTokenResponse :=
  ⟨"SharedAccessSignature sr=http%3A%2F%2Fazb-web-1.servicebus.windows.net%2Fweb-1.a%2F" ++
    "&sig=xkwu45luA1wzWSdtAx7qCs7Nl5ZqojC7A34wnjX8u1E%3D&se=4600&skn=azbridge-send", 4600⟩

theorem lowerToken_signed : sign plainLibs (1000 * Sas.second) "azb-web-1" "web-1.a" .send "secret" = .ok lowerToken := by decide +kernel

/-- Ten minutes after it was signed, the token is taken. -/
theorem token_taken_iff_lower : ∃ endpoint provider token, plainLibs.parseUrl (endpointText "azb-web-1") = some endpoint ∧
    BrokerTokenProvider.new plainLibs endpoint "web-1.a" .send = some provider ∧
    provider.validateToken plainLibs (1600 * Sas.second) lowerToken = .ok token := by
  obtain ⟨endpoint, provider, parsed, configured, taken⟩ :=
    token_taken_iff plainLibs_conventional (by decide) lowerToken_signed (by decide)
  have lowered : ∀ c ∈ "web-1.a".toList, c.toLower = c := Text.forall_mem_of_all (by decide)
  obtain ⟨token, read⟩ := taken.mpr lowered (1600 * Sas.second) (by decide) (by decide)
  exact ⟨endpoint, provider, token, parsed, configured, read⟩

/-- What is signed for `Web`, with another audience than a gateway's. -/
def capitalToken : RelayTokenResponse :=
  ⟨"SharedAccessSignature sr=http%3A%2F%2Fazb-web-1.servicebus.windows.net%2Fweb%2F" ++
    "&sig=UTLQYxLKmwt1DNSTSu43e8d35zEt7E08Y4dtqTM5fqo%3D&se=4600&skn=azbridge-send", 4600⟩

theorem capital_refused : Broker.Workspaces.validConnectionName "Web" = true ∧
    sign plainLibs (1000 * Sas.second) "azb-web-1" "Web" .send "secret" = .ok capitalToken ∧
    ∃ endpoint provider, plainLibs.parseUrl (endpointText "azb-web-1") = some endpoint ∧
      BrokerTokenProvider.new plainLibs endpoint "Web" .send = some provider ∧
      (tokenRenewalMargin : Int) < (capitalToken.expiresAt : Int) * Sas.second - 1600 * Sas.second ∧
      provider.validateToken plainLibs (1600 * Sas.second) capitalToken = .error .invalid := by
  refine ⟨by decide, by decide +kernel, ⟨some "azb-web-1.servicebus.windows.net", none, "/"⟩,
    ⟨"Web", .send, "http://azb-web-1.servicebus.windows.net/Web/"⟩, by decide +kernel, by decide +kernel, by decide, by decide +kernel⟩

end Azbridge.Arm
