import Azbridge.Runtime.HttpForward

/-!
# The URL of a forwarded request

What the forwarder asks for, compared with the prefix and the request target that it is meant to
be made of. The text that it makes is read by the URL parser of its HTTP client, which resolves dot
segments, encodes some characters, cuts the fragment off, and refuses what is no URL.
-/

namespace Azbridge.Http

/-! ### Reading a URL -/

/-- What a request is sent by. -/
structure RequestUrl where
  https : Bool
  host : String
  port : UInt16
  path : String
  query : Option String
  deriving DecidableEq, Repr

def RequestUrl.pathAndQuery (url : RequestUrl) : String := url.path ++ url.query.elim "" fun query => "?" ++ query

/-- `scheme://host:port`. -/
def originText (https : Bool) (host : String) (port : UInt16) : String :=
  (if https then "https" else "http") ++ "://" ++ host ++ ":" ++ toString port.toNat

/-- What stands before the first question mark. -/
def pathOf (text : String) : String := String.ofList (text.toList.takeWhile (· ≠ '?'))

/-- What stands after the first question mark. -/
def queryOf (text : String) : Option String :=
  match text.toList.dropWhile (· ≠ '?') with
  | [] => none
  | _ :: query => some (String.ofList query)

/-- `.` and `..`, also where their dots are encoded. -/
def isDotSegment (segment : List Char) : Bool :=
  [".", "..", "%2e", ".%2e", "%2e.", "%2e%2e"].contains (String.ofList (segment.map Char.toLower))

/-- The path and the query consist of characters that are kept, and no segment is resolved. -/
def plain (pathChar queryChar : Char → Bool) (path : String) (query : Option String) : Bool :=
  path.toList.all pathChar && !(path.toList.splitOn '/').any isDotSegment && query.all fun query => query.toList.all queryChar

/-- The URL parser of the HTTP client, as far as it is documented for texts that go on with a slash after a host
and a port. -/
structure UrlParser where
  /-- `Url::parse`; a text that is refused is not asked for. -/
  parse : String → Option RequestUrl
  /-- The host that a text is taken for where it stands before a port. -/
  host : String → Option String
  /-- The characters that stay as they are in a path, and in a query. -/
  pathChar : Char → Bool
  queryChar : Char → Bool
  /-- A hash starts the fragment. -/
  hash : pathChar '#' = false ∧ queryChar '#' = false
  /-- The first question mark starts the query. -/
  mark : pathChar '?' = false
  keeps : ∀ {https h name port rest}, host h = some name → rest.toList.head? = some '/' →
    plain pathChar queryChar (pathOf rest) (queryOf rest) = true →
    parse (originText https h port ++ rest) = some ⟨https, name, port, pathOf rest, queryOf rest⟩
  normal : ∀ {https h name port rest url}, host h = some name → rest.toList.head? = some '/' →
    parse (originText https h port ++ rest) = some url → plain pathChar queryChar url.path url.query = true
  /-- A path of such characters only loses segments. -/
  shrinks : ∀ {https h name port rest url}, host h = some name → rest.toList.head? = some '/' →
    (pathOf rest).toList.all pathChar = true → parse (originText https h port ++ rest) = some url →
    url.path.toList.length ≤ (pathOf rest).toList.length
  query : ∀ {https h name port rest url}, host h = some name → rest.toList.head? = some '/' → '#' ∉ rest.toList →
    parse (originText https h port ++ rest) = some url →
    (queryOf rest).all (fun query => query.toList.all queryChar) = true → url.query = queryOf rest

section Splitting
variable {s t : String}

theorem pathOf_append (plain : '?' ∉ s.toList) : pathOf (s ++ t) = s ++ pathOf t := by
  have kept : ∀ c ∈ s.toList, decide (c ≠ '?') = true := by
    intro c member
    exact decide_eq_true fun same => plain (same ▸ member)
  apply String.toList_inj.mp
  simp only [pathOf, String.toList_ofList, String.toList_append]
  exact List.takeWhile_append_of_pos kept

theorem queryOf_append (plain : '?' ∉ s.toList) : queryOf (s ++ t) = queryOf t := by
  have kept : ∀ c ∈ s.toList, decide (c ≠ '?') = true := by
    intro c member
    exact decide_eq_true fun same => plain (same ▸ member)
  unfold queryOf
  rw [String.toList_append, List.dropWhile_append_of_pos kept]

theorem split_at_mark (marked : '?' ∈ s.toList) : ∃ path query, s = path ++ "?" ++ query ∧ '?' ∉ path.toList := by
  obtain ⟨before, after, same, first⟩ := List.eq_append_cons_of_mem marked
  refine ⟨String.ofList before, String.ofList after, ?_, by rwa [String.toList_ofList]⟩
  apply String.toList_inj.mp
  simp [same]

theorem pathOf_mark (plain : '?' ∉ s.toList) : pathOf (s ++ "?" ++ t) = s := by
  have stops : pathOf ("?" ++ t) = "" := by
    simp [pathOf]
  rw [String.append_assoc, pathOf_append plain, stops, String.append_empty]

theorem queryOf_mark (plain : '?' ∉ s.toList) : queryOf (s ++ "?" ++ t) = some t := by
  have starts : queryOf ("?" ++ t) = some t := by
    simp [queryOf]
  rw [String.append_assoc, queryOf_append plain, starts]

theorem pathOf_plain (plain : '?' ∉ s.toList) : pathOf s = s := by
  have whole := pathOf_append (t := "") plain
  have none_ : pathOf "" = "" := rfl
  rwa [String.append_empty, none_, String.append_empty] at whole

theorem queryOf_plain (plain : '?' ∉ s.toList) : queryOf s = none := by
  have whole := queryOf_append (t := "") plain
  rwa [String.append_empty] at whole

end Splitting

theorem plain_mark {pathChar queryChar : Char → Bool} {path : String} {query : Option String} (mark : pathChar '?' = false)
    (kept : plain pathChar queryChar path query = true) : '?' ∉ path.toList := by
  simp only [plain, Bool.and_eq_true, List.all_eq_true] at kept
  intro member
  rw [kept.1.1 _ member] at mark
  cases mark

theorem RequestUrl.split {url : RequestUrl} (plain : '?' ∉ url.path.toList) :
    pathOf url.pathAndQuery = url.path ∧ queryOf url.pathAndQuery = url.query := by
  unfold pathAndQuery
  cases url.query with
  | none =>
    rw [Option.elim_none, String.append_empty]
    exact ⟨pathOf_plain plain, queryOf_plain plain⟩
  | some query =>
    rw [Option.elim_some, ← String.append_assoc]
    exact ⟨pathOf_mark plain, queryOf_mark plain⟩

theorem RequestUrl.pathAndQuery_of (https : Bool) (host : String) (port : UInt16) (text : String) :
    (⟨https, host, port, pathOf text, queryOf text⟩ : RequestUrl).pathAndQuery = text := by
  unfold pathAndQuery
  by_cases marked : '?' ∈ text.toList
  · obtain ⟨path, query, rfl, plain⟩ := split_at_mark marked
    rw [pathOf_mark plain, queryOf_mark plain, Option.elim_some, String.append_assoc]
  · rw [pathOf_plain marked, queryOf_plain marked, Option.elim_none, String.append_empty]

namespace UrlParser
variable {parser : UrlParser} {https : Bool} {h name : String} {port : UInt16} {url : RequestUrl}

theorem plain_split (named : parser.host h = some name) {rest : String} (slash : rest.toList.head? = some '/')
    (parsed : parser.parse (originText https h port ++ rest) = some url) :
    pathOf url.pathAndQuery = url.path ∧ queryOf url.pathAndQuery = url.query ∧
      plain parser.pathChar parser.queryChar url.path url.query = true := by
  have kept := parser.normal named slash parsed
  have split := RequestUrl.split (plain_mark parser.mark kept)
  exact ⟨split.1, split.2, kept⟩

theorem hash_free (kept : plain parser.pathChar parser.queryChar url.path url.query = true) : '#' ∉ url.pathAndQuery.toList := by
  simp only [plain, Bool.and_eq_true, List.all_eq_true] at kept
  obtain ⟨⟨paths, -⟩, queries⟩ := kept
  have path : '#' ∉ url.path.toList := by
    intro member
    have := parser.hash.1.symm.trans (paths _ member)
    cases this
  unfold RequestUrl.pathAndQuery
  cases found : url.query with
  | none => rwa [Option.elim_none, String.append_empty]
  | some query =>
    rw [found] at queries
    have rest : '#' ∉ query.toList := by
      intro member
      have := parser.hash.2.symm.trans (List.all_eq_true.mp queries _ member)
      cases this
    simp [path, rest]

/-- A URL never makes up for what its text lacks. -/
theorem nothing_added (named : parser.host h = some name) {left middle right : String} (slash : (left ++ right).toList.head? = some '/')
    (parsed : parser.parse (originText https h port ++ (left ++ right)) = some url)
    (same : url.pathAndQuery = left ++ (middle ++ right)) : middle = "" := by
  obtain ⟨path, query, kept⟩ := plain_split named slash parsed
  have hash := hash_free kept
  rw [same] at path query hash
  have unhashed : '#' ∉ (left ++ right).toList := by
    simp only [String.toList_append, List.mem_append, not_or] at hash ⊢
    exact ⟨hash.1, hash.2.2⟩
  simp only [plain, Bool.and_eq_true, List.all_eq_true] at kept
  obtain ⟨⟨paths, -⟩, queries⟩ := kept
  have asked := parser.query named slash unhashed parsed
  by_cases before : '?' ∈ left.toList
  · -- All that follows belongs to the query.
    obtain ⟨a, b, rfl, plain⟩ := split_at_mark before
    have mark : ∀ t, queryOf (a ++ "?" ++ b ++ t) = some (b ++ t) := by
      intro t
      rw [String.append_assoc, queryOf_mark plain]
    rw [mark] at query asked
    rw [← query] at queries asked
    have all : (b ++ right).toList.all parser.queryChar = true := by
      simp only [Option.all_some, String.toList_append, List.all_append, Bool.and_eq_true] at queries ⊢
      exact ⟨queries.1, queries.2.2⟩
    have equal := (String.append_right_inj b).mp (Option.some.inj (asked all))
    have lengths := congrArg (fun s : String => s.toList.length) equal
    simp at lengths
    exact lengths
  · by_cases within : '?' ∈ middle.toList
    · obtain ⟨a, b, rfl, plain⟩ := split_at_mark within
      rw [queryOf_append before, String.append_assoc, queryOf_mark plain] at query
      rw [queryOf_append before, ← query] at asked
      rw [← query] at queries
      by_cases after : '?' ∈ right.toList
      · obtain ⟨c, d, rfl, plain'⟩ := split_at_mark after
        rw [queryOf_mark plain'] at asked
        have all : d.toList.all parser.queryChar = true := by
          simp only [Option.all_some, String.toList_append, List.all_append, Bool.and_eq_true] at queries
          exact queries.2.2
        have lengths := congrArg (fun s : String => s.toList.length) (Option.some.inj (asked all))
        simp at lengths
        omega
      · rw [queryOf_plain after] at asked
        exact absurd (asked rfl) (Option.some_ne_none _)
    · rw [pathOf_append before, pathOf_append within] at path
      have all : (pathOf (left ++ right)).toList.all parser.pathChar = true := by
        rw [pathOf_append before, List.all_eq_true]
        intro c member
        apply paths
        rw [← path]
        simp only [String.toList_append, List.mem_append] at member ⊢
        exact member.imp_right .inr
      have shorter := parser.shrinks named slash all parsed
      rw [← path, pathOf_append before] at shorter
      simp only [String.toList_append, List.length_append] at shorter
      apply String.toList_inj.mp
      exact List.length_eq_zero_iff.mp (by omega)

end UrlParser

/-! ### The text that is made -/

def HttpForwardConfig.origin (c : HttpForwardConfig) : String := originText c.https c.host c.port

def slashed (path : String) : String := if path.startsWith "/" then path else "/" ++ path

def HttpForwardConfig.prefixPath (c : HttpForwardConfig) : String := trimSlashes (c.pathPrefix.elim "" slashed)

/-- A segment of a path may end before this. -/
def endsSegment (rest : String) : Bool := rest == "" || rest.startsWith "/" || rest.startsWith "?"

/-- A request target without the segment of the relay that it may start with. -/
def withoutRelay (relayName target : String) : String :=
  match Text.stripPrefix ("/" ++ relayName) target with
  | some rest => if endsSegment rest then rest else target
  | none => target

/-- The client asks the configured host for the prefix and the target without its relay, with one slash where they meet. -/
structure Mapped (parser : UrlParser) (c : HttpForwardConfig) (relayName target text : String) : Prop where
  asked : ∃ url, parser.parse text = some url ∧ url.https = c.https ∧ parser.host c.host = some url.host ∧ url.port = c.port ∧
    url.pathAndQuery = c.prefixPath ++ slashed (withoutRelay relayName target)
  before : c.prefixPath.toList.getLast? ≠ some '/'
  after : (slashed (withoutRelay relayName target)).toList.head? = some '/'

theorem startsWith_slash {path : String} : path.startsWith "/" = true ↔ path.toList.head? = some '/' := by
  rw [String.startsWith_string_iff]
  cases path.toList with
  | nil => simp
  | cons c rest => simp [List.prefix_cons_iff, eq_comm]

theorem slashed_head (path : String) : (slashed path).toList.head? = some '/' := by
  unfold slashed
  split
  · next starts => exact startsWith_slash.mp starts
  · rw [String.toList_append]
    rfl

theorem slashed_of_slash (rest : String) : slashed ("/" ++ rest) = "/" ++ rest := by
  apply if_pos
  rw [startsWith_slash, String.toList_append]
  rfl

theorem trimSlashes_last (url : String) : (trimSlashes url).toList.getLast? ≠ some '/' := by
  intro last
  unfold trimSlashes at last
  rw [String.toList_ofList, List.getLast?_reverse] at last
  have := List.head?_dropWhile_not (· = '/') url.toList.reverse
  rw [last] at this
  simp at this

/-- What does not end with a slash is kept, whatever is trimmed after it. -/
theorem trimSlashes_append {s t : String} {c : Char} (last : s.toList.getLast? = some c) (other : c ≠ '/') :
    trimSlashes (s ++ t) = s ++ trimSlashes t := by
  apply String.toList_inj.mp
  unfold trimSlashes
  have kept : s.toList.reverse.dropWhile (· = '/') = s.toList.reverse := by
    rw [← List.head?_reverse] at last
    cases chars : s.toList.reverse with
    | nil => rfl
    | cons d rest =>
      rw [chars] at last
      cases last
      simp [other]
  rw [String.toList_ofList, String.toList_append, String.toList_append, String.toList_ofList, List.reverse_append,
    List.dropWhile_append]
  split
  · next none_ =>
    have empty := List.isEmpty_iff.mp none_
    rw [kept, empty]
    simp
  · simp

namespace HttpForwardConfig

variable (c : HttpForwardConfig)

/-- The port is at the end of the origin. -/
theorem origin_last : ∃ d, c.origin.toList.getLast? = some d ∧ d ≠ '/' := by
  unfold origin originText
  rw [String.toList_append, List.getLast?_append]
  cases last : (toString c.port.toNat).toList.getLast? with
  | none =>
    have empty := String.toList_inj.mp ((List.getLast?_eq_none_iff.mp last).trans (by rfl : ([] : List Char) = "".toList))
    exact absurd empty (Text.toString_ne_empty _)
  | some d =>
    refine ⟨d, rfl, ?_⟩
    rintro rfl
    exact absurd (Text.digit_of_toString (List.mem_of_getLast? last)) (by decide)

theorem baseUrl_eq : c.baseUrl = c.origin ++ c.pathPrefix.elim "" slashed := rfl

theorem trimSlashes_baseUrl : trimSlashes c.baseUrl = c.origin ++ c.prefixPath := by
  obtain ⟨d, last, other⟩ := c.origin_last
  rw [baseUrl_eq, trimSlashes_append last other]
  rfl

/-- What the prefix is followed by starts a path, whether or not there is a prefix. -/
theorem prefixPath_head {rest : String} (slash : rest.toList.head? = some '/') : (c.prefixPath ++ rest).toList.head? = some '/' := by
  rw [String.toList_append]
  cases chars : c.prefixPath.toList with
  | nil => exact slash
  | cons first more =>
    have trimmed : first :: more <+: (c.pathPrefix.elim "" slashed).toList := by
      rw [← chars, prefixPath, trimSlashes, String.toList_ofList, ← List.reverse_suffix, List.reverse_reverse]
      exact List.dropWhile_suffix _
    obtain ⟨rest', whole⟩ := trimmed
    cases given : c.pathPrefix with
    | none =>
      rw [given] at whole
      cases whole
    | some path =>
      rw [given] at whole
      have head := slashed_head path
      have same : first :: more ++ rest' = (slashed path).toList := whole
      rw [← same] at head
      exact head

end HttpForwardConfig

theorem segment_begins (relayName : String) {rest : String} (within : ¬ endsSegment rest = true) :
    slashed (stripRelayPrefix ("/" ++ relayName ++ rest) relayName) = "/" ++ rest ∧
      slashed (withoutRelay relayName ("/" ++ relayName ++ rest)) = "/" ++ (relayName ++ rest) := by
  unfold stripRelayPrefix withoutRelay
  rw [Text.stripPrefix_append]
  dsimp only
  have some_ : rest ≠ "" := by
    rintro rfl
    exact within rfl
  have plain : ¬ rest.startsWith "/" = true := by
    intro starts
    exact within (by simp [endsSegment, starts])
  rw [if_neg some_, if_neg within, String.append_assoc, slashed_of_slash]
  exact ⟨if_neg plain, rfl⟩

/-- Nothing but the relay is taken off. -/
theorem slashed_stripRelayPrefix {relayName target : String}
    (ends : ∀ rest, target = "/" ++ relayName ++ rest → endsSegment rest = true) :
    slashed (stripRelayPrefix target relayName) = slashed (withoutRelay relayName target) := by
  unfold stripRelayPrefix withoutRelay
  cases found : Text.stripPrefix ("/" ++ relayName) target with
  | none => rfl
  | some rest =>
    dsimp only
    rw [if_pos (ends rest (Text.stripPrefix_eq_some found))]
    split
    · next empty =>
      rw [empty]
      decide +kernel
    · rfl

/-- The text that is handed to the client: the target's relay is taken off wherever it begins with its name. -/
theorem clientRequest_url (f : HttpRemoteForwarder) (isMethod : String → Bool) (context : RelayedHttpListenerContext) :
    (f.clientRequest isMethod context).url =
      f.config.origin ++ (f.config.prefixPath ++ slashed (stripRelayPrefix context.request.url f.relayName)) := by
  rw [← String.append_assoc, ← f.config.trimSlashes_baseUrl]
  rfl

def UrlParser.AsWritten (parser : UrlParser) (c : HttpForwardConfig) (rest : String) : Prop :=
  (parser.host c.host).isSome = true ∧ plain parser.pathChar parser.queryChar (pathOf rest) (queryOf rest) = true

/-- The URL that is asked for: the configured host is one, the path and query have nothing in them that the URL parser
resolves, encodes or cuts off, and no segment of the target only begins with the relay. -/
theorem url_mapped_iff (parser : UrlParser) (f : HttpRemoteForwarder) (isMethod : String → Bool) (context : RelayedHttpListenerContext) :
    Mapped parser f.config f.relayName context.request.url (f.clientRequest isMethod context).url ↔
      parser.AsWritten f.config (f.config.prefixPath ++ slashed (withoutRelay f.relayName context.request.url)) ∧
        (f.relayName = "" ∨ ∀ rest, context.request.url = "/" ++ f.relayName ++ rest → endsSegment rest = true) := by
  rw [clientRequest_url]
  have starts (path : String) := f.config.prefixPath_head (slashed_head path)
  constructor
  · intro mapped
    obtain ⟨url, parsed, -, named, -, asked⟩ := mapped.asked
    obtain ⟨path, query, kept⟩ := UrlParser.plain_split named (starts _) parsed
    rw [asked] at path query
    refine ⟨⟨by rw [named]; rfl, by rw [path, query]; exact kept⟩, or_iff_not_imp_left.mpr ?_⟩
    intro some_ rest same
    by_contra within
    obtain ⟨cut, whole⟩ := segment_begins f.relayName within
    have slash := starts (stripRelayPrefix context.request.url f.relayName)
    have joined (text : String) : f.config.prefixPath ++ ("/" ++ text) = f.config.prefixPath ++ "/" ++ text :=
      String.append_assoc.symm
    rw [same, whole, joined] at asked
    rw [same, cut, joined] at parsed slash
    exact some_ (UrlParser.nothing_added named slash parsed asked)
  · rintro ⟨⟨host, kept⟩, separate⟩
    obtain ⟨name, named⟩ := Option.isSome_iff_exists.mp host
    have same : slashed (stripRelayPrefix context.request.url f.relayName) = slashed (withoutRelay f.relayName context.request.url) := by
      by_cases ends : ∀ rest, context.request.url = "/" ++ f.relayName ++ rest → endsSegment rest = true
      · exact slashed_stripRelayPrefix ends
      · obtain ⟨rest, written, within⟩ : ∃ rest, context.request.url = "/" ++ f.relayName ++ rest ∧ ¬ endsSegment rest = true := by
          simpa only [not_forall, exists_prop] using ends
        obtain ⟨cut, whole⟩ := segment_begins f.relayName within
        rw [written, cut, whole, separate.resolve_right ends, String.empty_append]
    rw [same]
    refine ⟨⟨_, parser.keeps named (starts _) kept, rfl, named, rfl, ?_⟩, trimSlashes_last _, slashed_head _⟩
    exact RequestUrl.pathAndQuery_of _ _ _ _

/-- Whatever is taken off, one slash is where the prefix meets the rest of the target in the text. -/
theorem one_slash (f : HttpRemoteForwarder) (isMethod : String → Bool) (context : RelayedHttpListenerContext) :
    ∃ after, (f.clientRequest isMethod context).url = f.config.origin ++ (f.config.prefixPath ++ after) ∧
      f.config.prefixPath.toList.getLast? ≠ some '/' ∧ after.toList.head? = some '/' :=
  ⟨_, clientRequest_url f isMethod context, trimSlashes_last _, slashed_head _⟩

/-! ### A local target -/

/-- Visible ASCII, save what is encoded in a path or ends it. -/
def localPathChar (c : Char) : Bool :=
  0x21 ≤ c.toNat && c.toNat ≤ 0x7e && !(['"', '#', '<', '>', '?', '\\', '^', '{', '}', Char.ofNat 0x60].contains c)

def localQueryChar (c : Char) : Bool := 0x21 ≤ c.toNat && c.toNat ≤ 0x7e && !(['"', '#', '\'', '<', '>'].contains c)

/-- What follows `localhost:` in a URL. -/
def localUrl (https : Bool) (text : String) : Option RequestUrl :=
  let rest := String.ofList (text.toList.dropWhile Char.isDigit)
  match Text.parseU64 (String.ofList (text.toList.takeWhile Char.isDigit)) with
  | some port =>
    if plain localPathChar localQueryChar (pathOf rest) (queryOf rest) = true then
      some ⟨https, "localhost", UInt16.ofNat port, pathOf rest, queryOf rest⟩
    else none
  | none => none

theorem localUrl_port {https : Bool} {port : UInt16} {rest : String} (slash : rest.toList.head? = some '/') :
    localUrl https (toString port.toNat ++ rest) =
      if plain localPathChar localQueryChar (pathOf rest) (queryOf rest) = true then
        some ⟨https, "localhost", port, pathOf rest, queryOf rest⟩
      else none := by
  have digits : ∀ c ∈ (toString port.toNat).toList, c.isDigit = true := fun c => Text.digit_of_toString
  have stops : rest.toList.takeWhile Char.isDigit = [] ∧ rest.toList.dropWhile Char.isDigit = rest.toList := by
    cases chars : rest.toList with
    | nil => exact ⟨rfl, rfl⟩
    | cons c more =>
      rw [chars] at slash
      cases slash
      exact ⟨rfl, rfl⟩
  have bound : port.toNat < Text.u64 := Nat.lt_trans port.toNat_lt (by decide)
  unfold localUrl
  simp only [String.toList_append, List.takeWhile_append_of_pos digits, List.dropWhile_append_of_pos digits, stops.1, stops.2,
    List.append_nil, String.ofList_toList, Text.parseU64_toString bound, UInt16.ofNat_toNat]

def parseLocal (text : String) : Option RequestUrl :=
  match Text.stripPrefix "http://localhost:" text with
  | some rest => localUrl false rest
  | none => (Text.stripPrefix "https://localhost:" text).bind (localUrl true)

theorem parseLocal_origin {https : Bool} {port : UInt16} {rest : String} (slash : rest.toList.head? = some '/') :
    parseLocal (originText https "localhost" port ++ rest) =
      if plain localPathChar localQueryChar (pathOf rest) (queryOf rest) = true then
        some ⟨https, "localhost", port, pathOf rest, queryOf rest⟩
      else none := by
  rw [← localUrl_port slash]
  have whole : originText https "localhost" port ++ rest =
      (if https then "https://localhost:" else "http://localhost:") ++ (toString port.toNat ++ rest) := by
    have head : (if https then "https" else "http") ++ "://" ++ "localhost" ++ ":" =
        if https then "https://localhost:" else "http://localhost:" := by
      cases https <;> decide
    unfold originText
    rw [head, String.append_assoc]
  rw [whole]
  unfold parseLocal
  cases https with
  | false =>
    rw [if_neg Bool.false_ne_true, Text.stripPrefix_append]
  | true =>
    have other : Text.stripPrefix "http://localhost:" ("https://localhost:" ++ (toString port.toNat ++ rest)) = none := by
      cases found : Text.stripPrefix "http://localhost:" ("https://localhost:" ++ (toString port.toNat ++ rest)) with
      | none => rfl
      | some after =>
        have fifth := congrArg (fun text : String => text.toList[4]?) (Text.stripPrefix_eq_some found)
        simp only [String.toList_append] at fifth
        rw [List.getElem?_append_left (by decide), List.getElem?_append_left (by decide)] at fifth
        exact absurd fifth (by decide)
    rw [if_pos rfl, other, Text.stripPrefix_append]
    exact Option.bind_some ..

def localHost (h : String) : Option String := if h = "localhost" then some h else none

theorem localHost_eq_some {h name : String} (named : localHost h = some name) : h = "localhost" ∧ name = "localhost" := by
  unfold localHost at named
  split at named
  · next same => exact ⟨same, (Option.some.inj named).symm.trans same⟩
  · cases named

/-- What is parsed has nothing in it that would be changed. -/
theorem parseLocal_eq_some {https : Bool} {h name : String} {port : UInt16} {rest : String} {url : RequestUrl}
    (named : localHost h = some name) (slash : rest.toList.head? = some '/')
    (parsed : parseLocal (originText https h port ++ rest) = some url) :
    plain localPathChar localQueryChar (pathOf rest) (queryOf rest) = true ∧ url = ⟨https, "localhost", port, pathOf rest, queryOf rest⟩ := by
  obtain ⟨rfl, -⟩ := localHost_eq_some named
  rw [parseLocal_origin slash] at parsed
  split at parsed
  · next kept => exact ⟨kept, (Option.some.inj parsed).symm⟩
  · cases parsed

/-- A parser that knows one host, and refuses what it would have to change. -/
def localUrls : UrlParser where
  parse := parseLocal
  host := localHost
  pathChar := localPathChar
  queryChar := localQueryChar
  hash := by decide
  mark := by decide
  keeps := by
    intro https h name port rest named slash kept
    obtain ⟨rfl, rfl⟩ := localHost_eq_some named
    rw [parseLocal_origin slash, if_pos kept]
  normal := by
    intro https h name port rest url named slash parsed
    obtain ⟨kept, rfl⟩ := parseLocal_eq_some named slash parsed
    exact kept
  shrinks := by
    intro https h name port rest url named slash _ parsed
    obtain ⟨-, rfl⟩ := parseLocal_eq_some named slash parsed
    exact Nat.le_refl _
  query := by
    intro https h name port rest url named slash _ parsed _
    obtain ⟨-, rfl⟩ := parseLocal_eq_some named slash parsed
    rfl

/-- The relay `api` behind a prefix. -/
def apiForwarder : HttpRemoteForwarder := ⟨⟨"localhost", 8080, false, false, some "/v1/"⟩, "api", "http"⟩

def requestFor (target : String) : RelayedHttpListenerContext where
  request := { method := "GET", url := target, headers := .empty, hasBody := false, body := none, remoteAddress := none,
               remotePort := none }
  trackingId := "1"
  rendezvousAddress := none

/-- A whole segment is taken off. -/
theorem url_mapped_iff_segment : Mapped localUrls apiForwarder.config "api" "/api/x?y=/.." "http://localhost:8080/v1/x?y=/.." := by
  have text : (apiForwarder.clientRequest (fun _ => true) (requestFor "/api/x?y=/..")).url = "http://localhost:8080/v1/x?y=/.." := by
    decide +kernel
  rw [← text]
  apply (url_mapped_iff localUrls apiForwarder (fun _ => true) (requestFor "/api/x?y=/..")).mpr
  refine ⟨⟨by decide +kernel, by decide +kernel⟩, .inr ?_⟩
  intro rest written
  have same : rest = "/x?y=/.." := by
    have whole : "/api" ++ "/x?y=/.." = "/api" ++ rest := written
    exact ((String.append_right_inj _).mp whole).symm
  rw [same]
  decide +kernel

/-- Another path of the target is asked for. -/
theorem segment_cut : ¬ ∀ (parser : UrlParser) (f : HttpRemoteForwarder) (isMethod : String → Bool) (context : RelayedHttpListenerContext),
    Mapped parser f.config f.relayName context.request.url (f.clientRequest isMethod context).url := by
  intro all
  obtain ⟨url, parsed, -, -, -, asked⟩ := (all localUrls apiForwarder (fun _ => true) (requestFor "/apis/x")).asked
  have other : (parseLocal (apiForwarder.clientRequest (fun _ => true) (requestFor "/apis/x")).url).map (·.pathAndQuery) =
      some "/v1/s/x" := by decide +kernel
  have same : parseLocal (apiForwarder.clientRequest (fun _ => true) (requestFor "/apis/x")).url = some url := parsed
  rw [same, Option.map_some, asked] at other
  exact absurd other (by decide +kernel)

end Azbridge.Http
