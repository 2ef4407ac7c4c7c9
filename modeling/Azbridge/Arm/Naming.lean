import Azbridge.Broker.Administration
import Azbridge.Arm.Signing
import Azbridge.Config
import Azbridge.Runtime.TokenProvider

/-!
# Names that fit

A name that the broker accepts or derives passes every later check on its way to the address of a
relay. Where `url::Url::parse` stands in that way, what it is known to do is a hypothesis.
-/

namespace Azbridge.Arm
open Broker (Uuid RelayRight isHexLower)
open Broker.Workspaces (validConnectionName)
open Broker.Administration (namespaceOf slug slugChars trimDashes)
open Sas (Libraries BrokerTokenProvider buildRelayAddress)

theorem trimDashes_sublist (cs : List Char) : (trimDashes cs).Sublist cs := by
  have last := (List.dropWhile_sublist (· == '-') (l := (cs.dropWhile (· == '-')).reverse)).reverse
  rw [List.reverse_reverse] at last
  exact last.trans (List.dropWhile_sublist _)

def NamespaceChar (c : Char) : Prop := c.isAlphanum = true ∨ c = '-'

theorem namespaceChar_of_slugChars {name : String} {c : Char} (member : c ∈ slugChars name) : NamespaceChar c := by
  unfold slugChars at member
  obtain ⟨d, _, rfl⟩ := List.mem_map.mp (List.mem_of_mem_take member)
  unfold NamespaceChar
  split
  · next alphanum => exact .inl alphanum
  · exact .inr rfl

theorem slug_chars (name : String) : ∀ c ∈ (slug name).toList, NamespaceChar c := by
  intro c member
  unfold slug at member
  dsimp only at member
  split at member
  · simp only [show "workspace".toList = ['w', 'o', 'r', 'k', 's', 'p', 'a', 'c', 'e'] from rfl, List.mem_cons, List.not_mem_nil,
      or_false] at member
    unfold NamespaceChar
    obtain rfl | rfl | rfl | rfl | rfl | rfl | rfl | rfl | rfl := member <;> exact .inl rfl
  · rw [String.toList_ofList] at member
    exact namespaceChar_of_slugChars ((trimDashes_sublist _).subset member)

theorem slug_length (name : String) : (slug name).toList.length ≤ 13 := by
  unfold slug
  dsimp only
  split
  · decide
  · rw [String.toList_ofList]
    have cut : (slugChars name).length ≤ 13 := List.length_take_le ..
    exact Nat.le_trans (trimDashes_sublist _).length_le cut

theorem isAlphanum_of_hex {c : Char} (hex : isHexLower c = true) : c.isAlphanum = true := by
  unfold isHexLower at hex
  obtain digit | letter := Bool.or_eq_true_iff.mp hex
  · simp [Char.isAlphanum, digit]
  · simp only [Bool.and_eq_true, decide_eq_true_eq] at letter
    have lower : c.isLower = true := by
      delta Char.isLower
      simp only [Bool.and_eq_true, decide_eq_true_eq]
      constructor
      · exact UInt32.le_iff_toNat_le.mpr letter.1
      · exact UInt32.le_iff_toNat_le.mpr (Nat.le_trans letter.2 (by decide))
    delta Char.isAlphanum Char.isAlpha
    simp [lower]

theorem namespaceChar_ascii {c : Char} (allowed : NamespaceChar c) : c.toNat < 128 := by
  obtain alphanum | rfl := allowed
  · have := Text.range_of_isAlphanum alphanum
    omega
  · decide

theorem simple_chars (u : Uuid) {c : Char} (member : c ∈ u.simple.toList) : c.isAlphanum = true := by
  rw [Uuid.simple, String.toList_ofList] at member
  exact isAlphanum_of_hex (List.all_eq_true.mp u.hex c member)

theorem endsWith_simple (u : Uuid) : Text.endsWith Char.isAlphanum u.simple = true := by
  unfold Text.endsWith
  cases last : u.simple.toList.getLast? with
  | none =>
    have size := u.size
    rw [Uuid.simple, String.toList_ofList, List.getLast?_eq_none_iff] at last
    rw [last] at size
    cases size
  | some c => exact simple_chars u (List.mem_of_getLast? last)

/-- The name that is derived for a workspace's namespace is one that may be created. -/
theorem validateNamespace_derived (name : String) (u : Uuid) : validateNamespace (namespaceOf name u) = .ok () := by
  unfold namespaceOf
  have chars : ∀ c ∈ ("azb-" ++ slug name ++ "-" ++ u.simple).toList, NamespaceChar c := by
    intro c member
    rw [String.toList_append, String.toList_append, String.toList_append, List.mem_append, List.mem_append, List.mem_append] at member
    obtain ((first | middle) | dash) | digit := member
    · simp only [show "azb-".toList = ['a', 'z', 'b', '-'] from rfl, List.mem_cons, List.not_mem_nil, or_false] at first
      unfold NamespaceChar
      obtain rfl | rfl | rfl | rfl := first
      · exact .inl rfl
      · exact .inl rfl
      · exact .inl rfl
      · exact .inr rfl
    · exact slug_chars name c middle
    · exact .inr (List.mem_singleton.mp dash)
    · exact .inl (simple_chars u digit)
  have size : ("azb-" ++ slug name ++ "-" ++ u.simple).utf8ByteSize = 4 + (slug name).toList.length + 1 + 32 := by
    rw [Text.byteSize_of_ascii fun c member => namespaceChar_ascii (chars c member)]
    simp only [String.toList_append, List.length_append, Uuid.simple, String.toList_ofList, u.size]
    rfl
  have short := slug_length name
  have simple : u.simple ≠ "" := by
    intro empty
    have ends := endsWith_simple u
    rw [empty] at ends
    cases ends
  have first : Text.startsWith Char.isAlpha ("azb-" ++ slug name ++ "-" ++ u.simple) = true := by
    unfold Text.startsWith
    rw [String.append_assoc, String.append_assoc, String.toList_append]
    rfl
  have last : Text.endsWith Char.isAlphanum ("azb-" ++ slug name ++ "-" ++ u.simple) = true := by
    rw [Text.endsWith_append _ simple]
    exact endsWith_simple u
  have all : (("azb-" ++ slug name ++ "-" ++ u.simple).toList.all fun c => c.isAlphanum || c == '-') = true := by
    rw [List.all_eq_true]
    intro c member
    obtain alphanum | rfl := chars c member
    · simp [alphanum]
    · simp
  unfold validateNamespace
  apply if_neg
  rw [size, first, last, all]
  rintro (range | wrong | wrong | wrong)
  · omega
  · exact wrong rfl
  · exact wrong rfl
  · exact wrong rfl

/-- A segment that `url::Url::parse` keeps in a path as it is: no dot segment, and nothing to encode. -/
structure PlainSegment (s : String) : Prop where
  some_ : s ≠ ""
  notDot : s ≠ "."
  notDots : s ≠ ".."
  plain : ∀ c ∈ s.toList, c.isAlphanum = true ∨ c ∈ ['-', '_', '.', '~', '$']

/-- What `url::Url::parse` makes of a path behind an authority that it accepts. -/
structure KeepsPaths (libs : Libraries) : Prop where
  kept : ∀ (authority : String) (root : Sas.Url) (segments : List String), (∀ c ∈ authority.toList, c ∉ ['/', '\\', '?', '#']) →
    libs.parseUrl ("wss://" ++ authority ++ "/") = some root → segments ≠ [] → (∀ s ∈ segments, PlainSegment s) →
    libs.parseUrl ("wss://" ++ authority ++ "/" ++ "/".intercalate segments) = some { root with path := "/" ++ "/".intercalate segments }

/-- An endpoint whose host, which is that of a URL, makes a WebSocket address. -/
structure Connectable (libs : Libraries) (endpoint : Sas.Url) : Prop where
  address : ∃ host root, endpoint.host = some host ∧ (∀ c ∈ host.toList, c ∉ ['/', '\\', '?', '#']) ∧
    libs.parseUrl ("wss://" ++ (host ++ ":" ++ toString (endpoint.port.getD 443)) ++ "/") = some root

/-- What is asked of a connection's name. -/
structure Accepted (name : String) : Prop where
  first : Text.startsWith Char.isAlphanum name = true
  last : Text.endsWith Char.isAlphanum name = true
  chars : ∀ c ∈ name.toList, c.isAlphanum = true ∨ c ∈ ['-', '_', '.']

theorem accepted_of_valid {name : String} (valid : validConnectionName name = true) : Accepted name ∧ name.utf8ByteSize ≤ 128 := by
  unfold validConnectionName at valid
  simp only [Bool.and_eq_true, decide_eq_true_eq] at valid
  obtain ⟨⟨⟨⟨_, size⟩, first⟩, last⟩, all⟩ := valid
  refine ⟨⟨first, last, ?_⟩, size⟩
  intro c member
  have allowed := List.all_eq_true.mp all c member
  simpa using allowed

theorem accepted_of_validateConnection {name : String} (valid : validateConnection name = .ok ()) : Accepted name := by
  unfold validateConnection at valid
  split at valid
  · cases valid
  · next fits =>
    simp only [not_or, Classical.not_not] at fits
    obtain ⟨_, _, first, last, all⟩ := fits
    refine ⟨first, last, ?_⟩
    intro c member
    have allowed := List.all_eq_true.mp all c member
    simpa using allowed

/-- The characters of what stands between the slashes of an address. -/
theorem mem_authority {host : String} {port : Nat} {c : Char} (member : c ∈ (host ++ ":" ++ toString port).toList) :
    c ∈ host.toList ∨ c = ':' ∨ c.isDigit = true := by
  rw [String.toList_append, String.toList_append, List.mem_append, List.mem_append] at member
  obtain (inHost | inColon) | inPort := member
  · exact .inl inHost
  · exact .inr (.inl (List.mem_singleton.mp inColon))
  · exact .inr (.inr (Text.digit_of_toString inPort))

theorem hc_text (host port name : String) : "wss://" ++ host ++ ":" ++ port ++ "/" ++ Sas.hcPathPrefix ++ name =
    "wss://" ++ (host ++ ":" ++ port) ++ "/" ++ "/".intercalate ["$hc", name] := by
  rw [String.intercalate_cons_cons, String.intercalate_singleton, show Sas.hcPathPrefix = "$hc" ++ "/" by decide]
  simp only [String.append_assoc]

theorem hc_path (name : String) : "/" ++ "/".intercalate ["$hc", name] = "/$hc/" ++ name := by
  rw [String.intercalate_cons_cons, String.intercalate_singleton, ← String.append_assoc, ← String.append_assoc]
  exact congrArg (· ++ name) (by decide)

namespace Accepted

variable {name : String} (accepted : Accepted name)
include accepted

theorem some_ : name ≠ "" := by
  rintro rfl
  have first := accepted.first
  cases first

theorem not_mem {c : Char} (alphanum : c.isAlphanum = false) (other : c ∉ ['-', '_', '.']) : c ∉ name.toList := by
  intro member
  obtain is | is := accepted.chars c member
  · rw [alphanum] at is
    cases is
  · exact other is

theorem plainSegment : PlainSegment name := by
  have first := accepted.first
  refine ⟨accepted.some_, ?_, ?_, ?_⟩
  · rintro rfl
    exact absurd first (by decide)
  · rintro rfl
    exact absurd first (by decide)
  · intro c member
    refine (accepted.chars c member).imp_right fun other => ?_
    simp only [List.mem_cons, List.not_mem_nil, or_false] at other ⊢
    tauto

theorem hc_segments : ∀ s ∈ ["$hc", name], PlainSegment s := by
  intro s member
  obtain rfl | rfl := List.mem_pair.mp member
  · exact ⟨by decide, by decide, by decide, Text.forall_mem_of_all (by decide)⟩
  · exact accepted.plainSegment

theorem validateConnection (size : name.utf8ByteSize ≤ 260) : validateConnection name = .ok () := by
  have some_ := accepted.some_
  have all : (name.toList.all fun c => c.isAlphanum || ['-', '_', '.'].contains c) = true := by
    rw [List.all_eq_true]
    intro c member
    simpa using accepted.chars c member
  unfold Arm.validateConnection
  apply if_neg
  rw [accepted.first, accepted.last, all]
  rintro (empty | long | wrong | wrong | wrong)
  · exact some_ (by simpa using empty)
  · omega
  · exact wrong rfl
  · exact wrong rfl
  · exact wrong rfl

theorem relayName : relayNameRegex name = true := by
  unfold relayNameRegex
  rw [Bool.and_eq_true]
  constructor
  · simpa using accepted.some_
  · rw [List.all_eq_true]
    intro c member
    have allowed := accepted.chars c member
    simp only [List.mem_cons, List.not_mem_nil, or_false] at allowed
    simp only [Bool.or_eq_true, List.contains_eq_mem, List.mem_cons, List.not_mem_nil, or_false, decide_eq_true_eq]
    tauto

theorem scope (libs : Libraries) (endpoint : Sas.Url) (right : RelayRight) : BrokerTokenProvider.new libs endpoint name right =
    (buildRelayAddress libs endpoint name).map fun address => ⟨name, right, Sas.normalizeAudience libs address⟩ := by
  have whole : Text.split '/' name = [name] := Text.split_whole (accepted.not_mem (by decide) (by decide))
  have segment := accepted.plainSegment
  have all : name.toList.all Sas.scopeChar = true := by
    rw [List.all_eq_true]
    intro c member
    have allowed := accepted.chars c member
    simp only [List.mem_cons, List.not_mem_nil, or_false] at allowed
    simp only [Sas.scopeChar, Bool.or_eq_true, List.contains_eq_mem, List.mem_cons, List.not_mem_nil, or_false, decide_eq_true_eq]
    tauto
  unfold BrokerTokenProvider.new
  apply if_neg
  rw [whole, all]
  rintro (empty | dots | wrong)
  · exact segment.some_ (by simpa using empty)
  · simp [segment.some_, segment.notDot, segment.notDots] at dots
  · exact wrong rfl

theorem address {libs : Libraries} (paths : KeepsPaths libs) {endpoint : Sas.Url} (connectable : Connectable libs endpoint) :
    ∃ address, buildRelayAddress libs endpoint name = some address ∧ address.path = "/$hc/" ++ name := by
  obtain ⟨host, root, given, clean, parsed⟩ := connectable.address
  have colon : ∀ c ∈ (host ++ ":" ++ toString (endpoint.port.getD 443)).toList, c ∉ ['/', '\\', '?', '#'] := by
    intro c member special
    obtain inHost | rfl | digit := mem_authority member
    · exact clean c inHost special
    · exact absurd special (by decide)
    · simp only [List.mem_cons, List.not_mem_nil, or_false] at special
      obtain rfl | rfl | rfl | rfl := special <;> exact absurd digit (by decide)
  have kept := paths.kept _ root ["$hc", name] colon parsed (by simp) accepted.hc_segments
  rw [hc_path, ← hc_text] at kept
  refine ⟨{ root with path := "/$hc/" ++ name }, ?_, rfl⟩
  unfold buildRelayAddress
  rw [given]
  exact kept

end Accepted

/-- The names that the broker derives and accepts fit every later check: the namespace is one that may be
created, whatever the workspace is called, and a connection's name passes the checks of its own kind, of a
configuration and of a token's scope, and is the end of the path of the relay's address. -/
theorem names_fit {libs : Libraries} (paths : KeepsPaths libs) :
    (∀ (name : String) (u : Uuid), validateNamespace (namespaceOf name u) = .ok ()) ∧
    ∀ name : String, validConnectionName name = true → validateConnection name = .ok () ∧ relayNameRegex name = true ∧
      ∀ endpoint : Sas.Url, Connectable libs endpoint →
        (∀ right, ∃ provider, BrokerTokenProvider.new libs endpoint name right = some provider ∧ provider.relayName = name) ∧
        ∃ address, buildRelayAddress libs endpoint name = some address ∧ address.path = "/$hc/" ++ name := by
  refine ⟨validateNamespace_derived, ?_⟩
  intro name valid
  obtain ⟨accepted, size⟩ := accepted_of_valid valid
  refine ⟨accepted.validateConnection (by omega), accepted.relayName, ?_⟩
  intro endpoint connectable
  have found := accepted.address paths connectable
  refine ⟨?_, found⟩
  intro right
  obtain ⟨address, built, _⟩ := found
  rw [accepted.scope, built]
  exact ⟨_, rfl, rfl⟩

/-- Reads `wss` addresses with a path, and nothing else. -/
def plainUrls : Libraries where
  parseUrl s :=
    match Text.stripPrefix "wss://" s with
    | some rest =>
      match Text.splitOnce '/' rest with
      | some (authority, path) =>
        match Text.splitOnce ':' authority with
        | some (host, port) => some ⟨some host, (Text.parseU64 port).filter (· != 443), "/" ++ path⟩
        | none => some ⟨some authority, none, "/" ++ path⟩
      | none => none
    | none => none
  parseForm _ := []
  mac _ _ := ""
  unicode := ⟨Char.isAlphanum, fun c => [c.toLower]⟩

theorem plainUrls_read {authority : String} (slash : '/' ∉ authority.toList) (rest : String) :
    plainUrls.parseUrl ("wss://" ++ authority ++ "/" ++ rest) =
      (match Text.splitOnce ':' authority with
        | some (host, port) => some ⟨some host, (Text.parseU64 port).filter (· != 443), "/" ++ rest⟩
        | none => some ⟨some authority, none, "/" ++ rest⟩) := by
  have cut : Text.splitOnce '/' (authority ++ "/" ++ rest) = some (authority, rest) := Text.splitOnce_between rest (by rfl) slash
  unfold plainUrls
  dsimp only
  rw [String.append_assoc, String.append_assoc, Text.stripPrefix_append, ← String.append_assoc]
  dsimp only
  rw [cut]

theorem plainUrls_keepsPaths : KeepsPaths plainUrls := by
  constructor
  intro authority root segments clean parsed _ _
  have slash : '/' ∉ authority.toList := fun member => clean '/' member (by decide)
  have bare := plainUrls_read slash ""
  rw [String.append_empty, parsed] at bare
  rw [plainUrls_read slash]
  cases parts : Text.splitOnce ':' authority with
  | none =>
    rw [parts] at bare
    cases bare
    rfl
  | some pair =>
    rw [parts] at bare
    cases bare
    rfl

/-- A workspace's name of other letters and spaces, cut within a word. -/
def unevenName : String := "  Übung 2026, Raum 7"

def onesUuid : Uuid where
  digits := List.replicate 32 '1'
  size := List.length_replicate
  hex := by decide

/-- Such a namespace, and a connection with capitals and dots at an endpoint of its own. -/
theorem names_fit_dots : namespaceOf unevenName onesUuid = "azb-bung-2026-11111111111111111111111111111111" ∧
    validateNamespace "azb-bung-2026-11111111111111111111111111111111" = .ok () ∧ validateConnection "Web.v1_a" = .ok () ∧
    ∃ address, buildRelayAddress plainUrls ⟨some "azb-x-0.servicebus.windows.net", none, "/"⟩ "Web.v1_a" = some address ∧
      address.path = "/$hc/Web.v1_a" := by
  obtain ⟨derived, accepted⟩ := names_fit plainUrls_keepsPaths
  have fit := accepted "Web.v1_a" (by decide)
  have text : namespaceOf unevenName onesUuid = "azb-bung-2026-11111111111111111111111111111111" := by decide +kernel
  have connectable : Connectable plainUrls ⟨some "azb-x-0.servicebus.windows.net", none, "/"⟩ := by
    refine ⟨_, ⟨some "azb-x-0.servicebus.windows.net", none, "/"⟩, rfl, Text.forall_mem_of_all (by decide), by decide +kernel⟩
  exact ⟨text, text ▸ derived unevenName onesUuid, fit.1, (fit.2.2 _ connectable).2⟩

end Azbridge.Arm
