import Azbridge.Cli.Expressions

/-!
# The grammar of forwarding expressions

Bindings are written in the forms that the command line documents, and read back.
-/

namespace Azbridge.Expressions
open Text

/-! ### What a binding is written from -/

/-- A name that the separators do not cut. -/
structure Word (separators : List Char) where
  text : String
  some_ : text ≠ ""
  solid : Solid text.toList
  clean : ∀ c ∈ separators, c ∉ text.toList

def word {separators : List Char} (text : String) (some_ : text ≠ "")
    (plain : text.toList.all (fun c => !isWhitespace c && !separators.contains c) = true) : Word separators where
  text := text
  some_ := some_
  solid := by
    intro c member
    have ok := List.all_eq_true.mp plain c member
    simp only [Bool.and_eq_true, Bool.not_eq_true'] at ok
    exact ok.1
  clean := by
    intro c separator member
    have ok := List.all_eq_true.mp plain c member
    simp [separator] at ok

/-- A port of a TCP or a UDP socket. -/
structure Port where
  number : Nat
  positive : 0 < number
  bound : number ≤ 65535
  udp : Bool

namespace Port

def value (port : Port) : Int := if port.udp then -port.number else port.number

def text (port : Port) : String := toString port.number ++ if port.udp then "U" else ""

end Port

/-- `before`, if it is there, ahead of a separator and the rest. -/
def ahead (sep : String) (before : Option String) (rest : String) : String :=
  match before with
  | some s => s ++ sep ++ rest
  | none => rest

@[simp] theorem ahead_none (sep rest : String) : ahead sep none rest = rest := rfl

@[simp] theorem ahead_some (sep s rest : String) : ahead sep (some s) rest = s ++ sep ++ rest := rfl

/-- A binding of `-T` or `-R`. -/
structure RemoteSpec where
  host : Option (Word [':', ';', '/'])
  portName : Option (Word [':', ';', '/'])
  port : Port

namespace RemoteSpec

def binding (spec : RemoteSpec) : RemoteForwardBinding :=
  { host := spec.host.map (·.text), hostPort := spec.port.value, portName := spec.portName.map (·.text) }

/-- `[port_name/][host:]port[U]` -/
def render (spec : RemoteSpec) : String :=
  ahead "/" (spec.portName.map (·.text)) (ahead ":" (spec.host.map (·.text)) spec.port.text)

/-- `[host:][port_name/]port[U]` -/
def renderLegacy (spec : RemoteSpec) : String :=
  ahead ":" (spec.host.map (·.text)) (ahead "/" (spec.portName.map (·.text)) spec.port.text)

end RemoteSpec

/-- A binding of `-L`. -/
structure LocalSpec where
  address : Option (Word [':', ';'])
  portName : Option (Word [':', ';'])
  port : Port

namespace LocalSpec

def binding (spec : LocalSpec) : LocalForwardBinding :=
  { bindAddress := spec.address.map (·.text), bindPort := spec.port.value, portName := spec.portName.map (·.text) }

/-- `port[U][/port_name]` -/
def renderPort (spec : LocalSpec) : String :=
  match spec.portName with
  | some name => spec.port.text ++ "/" ++ name.text
  | none => spec.port.text

/-- `[address:]port[U][/port_name]` -/
def render (spec : LocalSpec) : String := ahead ":" (spec.address.map (·.text)) spec.renderPort

end LocalSpec

/-- A binding of `-H`: a host or a path that is empty is not there. -/
structure HttpSpec where
  https : Bool
  host : String
  hostSolid : Solid host.toList
  hostClean : ∀ c ∈ ['/', ';'], c ∉ host.toList
  path : String
  pathSolid : Solid path.toList
  pathClean : ';' ∉ path.toList
  pathStart : path = "" ∨ path.toList.head? = some '/'
  port : Option {n : Nat // 0 < n ∧ n ≤ 65535}

namespace HttpSpec

def scheme (spec : HttpSpec) : String := if spec.https then "https" else "http"

def binding (spec : HttpSpec) : RemoteForwardBinding where
  host := if spec.host = "" then none else some spec.host
  hostPort := match spec.port with
    | some n => n.val
    | none => if spec.https then 443 else 80
  portName := some spec.scheme
  http := true
  path := if spec.path = "" ∨ spec.path = "/" then none else some spec.path

/-- `:port`, if it is written. -/
def suffix (spec : HttpSpec) : String :=
  match spec.port with
  | some n => ":" ++ toString n.val
  | none => ""

/-- `{scheme}/[host][path][:port]` -/
def render (spec : HttpSpec) : String := spec.scheme ++ "/" ++ (spec.host ++ spec.path ++ spec.suffix)

end HttpSpec

namespace Port

variable (port : Port)

theorem solid : Solid port.text.toList := by
  unfold text
  apply solid_append (solid_toString _)
  cases port.udp with
  | false => nofun
  | true =>
    intro c member
    obtain rfl := List.mem_singleton.mp member
    rfl

theorem text_ne_empty : port.text ≠ "" := by
  intro empty
  have parts := congrArg String.toList empty
  unfold text at parts
  rw [String.toList_append] at parts
  exact toString_ne_empty _ (String.toList_inj.mp (List.append_eq_nil_iff.mp parts).1)

theorem not_mem {c : Char} (digit : c.isDigit = false) (letter : c ≠ 'U') : c ∉ port.text.toList := by
  unfold text
  rw [String.toList_append, List.mem_append]
  rintro (number | suffix)
  · rw [digit_of_toString number] at digit
    cases digit
  · cases udp : port.udp with
    | false =>
      rw [udp] at suffix
      cases suffix
    | true =>
      rw [udp] at suffix
      exact letter (List.mem_singleton.mp suffix)

/-- A port is read as what it was written from. -/
theorem tryParsePort_text : tryParsePort port.text = some port.value := by
  have positive := port.positive
  have bound := port.bound
  have read : parseI32 (toString port.number) = some (port.number : Int) := parseI32_toString (by omega)
  have inRange : ¬ ((port.number : Int) ≤ 0 ∨ (port.number : Int) > 65535) := by omega
  unfold tryParsePort
  dsimp only
  rw [trim_of_solid port.solid, if_neg port.text_ne_empty]
  cases udp : port.udp with
  | true =>
    have whole : port.text = toString port.number ++ "U" := by simp [text, udp]
    have ends : endsWith (fun c => c == 'U' || c == 'u') port.text = true := by
      rw [whole, endsWith_append _ (by decide)]
      rfl
    have rest : String.ofList port.text.toList.dropLast = toString port.number := by
      apply String.toList_inj.mp
      rw [whole, String.toList_ofList, String.toList_append]
      show ((toString port.number).toList ++ ['U']).dropLast = _
      exact List.dropLast_concat
    rw [if_pos ends, rest, read]
    simp only [inRange, if_false, ends, if_true, value, udp]
  | false =>
    have whole : port.text = toString port.number := by simp [text, udp]
    have ends : endsWith (fun c => c == 'U' || c == 'u') port.text = false := by
      unfold endsWith
      cases last : port.text.toList.getLast? with
      | none => rfl
      | some c =>
        have digit : c.isDigit = true := digit_of_toString (whole ▸ List.mem_of_getLast? last)
        have upper : c ≠ 'U' := by
          rintro rfl
          exact absurd digit (by decide)
        have lower : c ≠ 'u' := by
          rintro rfl
          exact absurd digit (by decide)
        simp [upper, lower]
    rw [ends, if_neg (by decide), whole, read]
    simp only [inRange, if_false, value, udp]

end Port

/-! ### Expressions -/

/-- The text of a binding that the frame leaves as it is. -/
structure Segment (s : String) : Prop where
  some_ : s ≠ ""
  solid : Solid s.toList
  whole : ';' ∉ s.toList

theorem Segment.ahead {sep s : String} {before : Option String} (sepSolid : Solid sep.toList) (sepWhole : ';' ∉ sep.toList)
    (segment : Segment s) (solid : ∀ t, before = some t → Solid t.toList) (whole : ∀ t, before = some t → ';' ∉ t.toList) :
    Segment (ahead sep before s) := by
  cases before with
  | none => exact segment
  | some t =>
    constructor
    · exact ne_empty_append segment.some_
    · exact solid_append (solid_append (solid t rfl) sepSolid) segment.solid
    · have first := whole t rfl
      have rest := segment.whole
      simp only [Expressions.ahead, String.toList_append, List.mem_append]
      tauto

theorem Port.segment (port : Port) : Segment port.text :=
  ⟨port.text_ne_empty, port.solid, port.not_mem (by decide) (by decide)⟩

theorem relayName_solid {relay : String} (valid : relayNameRegex relay = true) : Solid relay.toList := by
  intro c member
  have allowed := List.all_eq_true.mp (Bool.and_eq_true_iff.mp valid).2 c member
  obtain alphanum | other := Bool.or_eq_true_iff.mp allowed
  · exact isWhitespace_of_isAlphanum alphanum
  · simp only [List.contains_eq_mem, decide_eq_true_eq, List.mem_cons, List.not_mem_nil, or_false] at other
    obtain rfl | rfl | rfl | rfl := other <;> rfl

theorem relayName_colon {relay : String} (valid : relayNameRegex relay = true) : ':' ∉ relay.toList :=
  fun member => absurd (List.all_eq_true.mp (Bool.and_eq_true_iff.mp valid).2 ':' member) (by decide)

section Frame

variable {σ : Type} {specs : List σ} {render : σ → String} (segment : ∀ spec ∈ specs, Segment (render spec))
variable (given : specs ≠ []) {relay : String} (valid : relayNameRegex relay = true)
include segment

theorem joined_solid : Solid (";".intercalate (specs.map render)).toList := by
  intro c member
  obtain separator | ⟨part, there, within⟩ := mem_intercalate member
  · obtain rfl := List.mem_singleton.mp separator
    rfl
  · obtain ⟨spec, chosen, rfl⟩ := List.mem_map.mp there
    exact (segment spec chosen).solid c within

include given

theorem joined_ne_empty : ";".intercalate (specs.map render) ≠ "" := by
  cases specs with
  | nil => exact absurd rfl given
  | cons spec rest =>
    have first := (segment spec (.head _)).some_
    by_cases last : rest = []
    · rw [last, List.map_singleton, String.intercalate_singleton]
      exact first
    · rw [List.map_cons, String.intercalate_cons_of_ne_nil (by simpa using last), String.append_assoc]
      intro empty
      have parts := congrArg String.toList empty
      rw [String.toList_append] at parts
      exact first (String.toList_inj.mp (List.append_eq_nil_iff.mp parts).1)

theorem split_joined_segments : split ';' (";".intercalate (specs.map render)) = specs.map render := by
  apply split_joined (by simpa using given) (by rfl)
  intro part there
  obtain ⟨spec, chosen, rfl⟩ := List.mem_map.mp there
  exact (segment spec chosen).whole

theorem parseExpression_joined {β : Type} {kind expr : String} {cut : String → Option (String × String)}
    {parseBinding : String → Except String β} {binding : σ → β} (solid : Solid expr.toList) (some_ : expr ≠ "")
    (found : cut expr = some (relay, ";".intercalate (specs.map render))) (valid : relayNameRegex relay = true) :
    parseExpression kind cut parseBinding expr = .ok (relay, specs.map binding) ↔
      ∀ spec ∈ specs, parseBinding (render spec) = .ok (binding spec) := by
  have trimmed := trim_of_solid solid
  rw [parseExpression_of_cut (by rwa [trimmed]) (by rwa [trimmed]) valid (joined_ne_empty segment given),
    split_joined_segments segment given, List.forall₂_map_left_iff, List.forall₂_map_right_iff, List.forall₂_same]

include valid

theorem parseRemoteWith_render {kind : String} {parseBinding : String → Except String RemoteForwardBinding}
    {binding : σ → RemoteForwardBinding} :
    parseRemoteWith kind parseBinding (relay ++ ":" ++ ";".intercalate (specs.map render)) =
        .ok { relayName := relay, bindings := specs.map binding } ↔
      ∀ spec ∈ specs, parseBinding (render spec) = .ok (binding spec) := by
  rw [parseRemoteWith_iff]
  apply parseExpression_joined segment given _ _ _ valid
  · exact solid_append (solid_append (relayName_solid valid) (solid_of_all (by decide))) (joined_solid segment)
  · exact ne_empty_append (joined_ne_empty segment given)
  · exact splitOnce_between _ (by rfl) (relayName_colon valid)

theorem parseLocalForward_render {binding : σ → LocalForwardBinding} :
    parseLocalForward (";".intercalate (specs.map render) ++ ":" ++ relay) =
        .ok { relayName := relay, bindings := specs.map binding } ↔
      ∀ spec ∈ specs, parseLocalBinding (render spec) = .ok (binding spec) := by
  have named : relay ≠ "" := by
    rintro rfl
    exact absurd valid (by decide)
  rw [parseLocalForward_iff]
  apply parseExpression_joined segment given _ _ _ valid
  · exact solid_append (solid_append (joined_solid segment) (solid_of_all (by decide))) (relayName_solid valid)
  · exact ne_empty_append named
  · unfold cutLocal
    rw [rsplitOnce_between _ (by rfl) (relayName_colon valid)]
    rfl

end Frame

/-! ### Local forwards -/

namespace LocalSpec

variable (spec : LocalSpec)

theorem segment_port : Segment spec.renderPort := by
  unfold renderPort
  cases spec.portName with
  | none => exact spec.port.segment
  | some name =>
    constructor
    · exact ne_empty_append name.some_
    · exact solid_append (solid_append spec.port.solid (solid_of_all (by decide))) name.solid
    · have first := spec.port.segment.whole
      have rest := name.clean ';' (by decide)
      simp only [String.toList_append, List.mem_append]
      rintro ((number | slash) | last)
      · exact first number
      · exact absurd slash (by decide)
      · exact rest last

theorem colon_port : ':' ∉ spec.renderPort.toList := by
  have first := spec.port.not_mem (c := ':') (by decide) (by decide)
  unfold renderPort
  cases spec.portName with
  | none => exact first
  | some name =>
    have rest := name.clean ':' (by decide)
    simp only [String.toList_append, List.mem_append]
    rintro ((number | slash) | last)
    · exact first number
    · exact absurd slash (by decide)
    · exact rest last

theorem segment : Segment spec.render := by
  apply Segment.ahead (solid_of_all (by decide)) (by decide) spec.segment_port
  · intro t same
    obtain ⟨address, _, rfl⟩ := Option.map_eq_some_iff.mp same
    exact address.solid
  · intro t same
    obtain ⟨address, _, rfl⟩ := Option.map_eq_some_iff.mp same
    exact address.clean ';' (by decide)

theorem parsePortWithName_render : parsePortWithName spec.renderPort = .ok (spec.port.value, spec.portName.map (·.text)) := by
  have slash := spec.port.not_mem (c := '/') (by decide) (by decide)
  unfold renderPort parsePortWithName
  cases spec.portName with
  | none =>
    dsimp only
    rw [splitOnce_none slash, spec.port.tryParsePort_text]
    rfl
  | some name =>
    dsimp only
    rw [splitOnce_between _ (by rfl) slash]
    dsimp only
    rw [spec.port.tryParsePort_text]
    rfl

theorem parseLocalBinding_render : parseLocalBinding spec.render = .ok spec.binding := by
  have segment := spec.segment
  have read := spec.parsePortWithName_render
  have admitted := parsePortWithName_admitted read
  unfold parseLocalBinding
  dsimp only
  rw [trim_of_solid segment.solid, if_neg segment.some_]
  unfold render binding
  cases spec.address with
  | none =>
    rw [Option.map_none, ahead_none, splitOnce_none spec.colon_port]
    dsimp only
    rw [read]
    exact if_neg admitted.1
  | some address =>
    have cut : splitOnce ':' (address.text ++ ":" ++ spec.renderPort) = some (address.text, spec.renderPort) :=
      splitOnce_between _ (by rfl) (address.clean ':' (by decide))
    rw [Option.map_some, ahead_some, cut]
    dsimp only
    rw [read]
    rfl

end LocalSpec

/-- What is written in the form of `-L` is read as it was written. -/
theorem local_round_trip {relay : String} (valid : relayNameRegex relay = true) {specs : List LocalSpec} (given : specs ≠ []) :
    parseLocalForward (";".intercalate (specs.map LocalSpec.render) ++ ":" ++ relay) =
      .ok { relayName := relay, bindings := specs.map LocalSpec.binding } :=
  (parseLocalForward_render (fun spec _ => spec.segment) given valid).mpr fun spec _ => spec.parseLocalBinding_render

theorem local_round_trip_ssh : parseLocalForward "127.0.0.1:2222/22;53U;80/a/b:dev/ssh" = .ok { relayName := "dev/ssh", bindings :=
    [{ bindAddress := some "127.0.0.1", bindPort := 2222, portName := some "22" }, { bindPort := -53 },
      { bindPort := 80, portName := some "a/b" }] } := by
  have read := @local_round_trip "dev/ssh" (by decide)
    [⟨some (word "127.0.0.1" (by decide) (by decide)), some (word "22" (by decide) (by decide)), ⟨2222, by decide, by decide, false⟩⟩,
      ⟨none, none, ⟨53, by decide, by decide, true⟩⟩,
      ⟨none, some (word "a/b" (by decide) (by decide)), ⟨80, by decide, by decide, false⟩⟩] (by simp)
  exact read

/-! ### Remote forwards -/

namespace RemoteSpec

variable (spec : RemoteSpec)

theorem name_solid (t : String) (same : spec.portName.map (·.text) = some t) : Solid t.toList := by
  obtain ⟨name, _, rfl⟩ := Option.map_eq_some_iff.mp same
  exact name.solid

theorem name_clean {c : Char} (separator : c ∈ [':', ';', '/']) (t : String) (same : spec.portName.map (·.text) = some t) :
    c ∉ t.toList := by
  obtain ⟨name, _, rfl⟩ := Option.map_eq_some_iff.mp same
  exact name.clean c separator

theorem host_solid (t : String) (same : spec.host.map (·.text) = some t) : Solid t.toList := by
  obtain ⟨host, _, rfl⟩ := Option.map_eq_some_iff.mp same
  exact host.solid

theorem host_clean {c : Char} (separator : c ∈ [':', ';', '/']) (t : String) (same : spec.host.map (·.text) = some t) :
    c ∉ t.toList := by
  obtain ⟨host, _, rfl⟩ := Option.map_eq_some_iff.mp same
  exact host.clean c separator

theorem segment : Segment spec.render :=
  .ahead (solid_of_all (by decide)) (by decide)
    (.ahead (solid_of_all (by decide)) (by decide) spec.port.segment spec.host_solid (spec.host_clean (by decide)))
    spec.name_solid (spec.name_clean (by decide))

theorem segmentLegacy : Segment spec.renderLegacy :=
  .ahead (solid_of_all (by decide)) (by decide)
    (.ahead (solid_of_all (by decide)) (by decide) spec.port.segment spec.name_solid (spec.name_clean (by decide)))
    spec.host_solid (spec.host_clean (by decide))

/-- A name is before the port of a binding without a host, whatever it looks like. -/
theorem parseSegment_render : parseSegment (ahead "/" (spec.portName.map (·.text)) spec.port.text) =
    { hostPort := spec.port.value, portName := spec.portName.map (·.text) } := by
  unfold parseSegment
  cases spec.portName with
  | none =>
    rw [Option.map_none, ahead_none, splitOnce_none (spec.port.not_mem (by decide) (by decide))]
    dsimp only
    rw [spec.port.tryParsePort_text]
  | some name =>
    rw [Option.map_some, ahead_some, splitOnce_between _ (by rfl) (name.clean '/' (by decide))]
    dsimp only
    rw [spec.port.tryParsePort_text]

theorem colon_name : ':' ∉ (ahead "/" (spec.portName.map (·.text)) spec.port.text).toList := by
  have number := spec.port.not_mem (c := ':') (by decide) (by decide)
  cases spec.portName with
  | none => exact number
  | some name =>
    have first := name.clean ':' (by decide)
    simp only [Option.map_some, ahead_some, String.toList_append, List.mem_append]
    rintro ((before | slash) | after)
    · exact first before
    · exact absurd slash (by decide)
    · exact number after

/-- A host is not taken to have a name in it, and a name is not taken for a port. -/
def NamePlain : Prop :=
  spec.host.isSome = true → ∀ name, spec.portName = some name → parseU16 name.text = none

/-- A name is not taken for a port, or is the text of the port that it is before. -/
def NamePlainLegacy : Prop :=
  spec.host.isSome = true → ∀ name, spec.portName = some name → tryParsePort name.text = none ∨ name.text = spec.port.text

theorem parseRemoteBinding_render : parseRemoteBinding spec.render = .ok spec.binding ↔ spec.NamePlain := by
  have segment := spec.segment
  unfold parseRemoteBinding
  dsimp only
  rw [trim_of_solid segment.solid, if_neg segment.some_]
  have single := spec.parseSegment_render
  have colon := spec.colon_name
  unfold render binding NamePlain
  cases spec.host with
  | none =>
    rw [Option.map_none, ahead_none, rsplitOnce_none colon]
    dsimp only
    rw [single]
    simp
  | some host =>
    have plain := host.clean '/' (by decide)
    have last := spec.port.not_mem (c := ':') (by decide) (by decide)
    cases spec.portName with
    | none =>
      rw [Option.map_some, Option.map_none, ahead_none, ahead_some, rsplitOnce_between _ (by rfl) last]
      dsimp only
      rw [spec.port.tryParsePort_text]
      simp [splitPortNamePrefix, splitOnce_none plain]
    | some name =>
      have text : name.text ++ "/" ++ (host.text ++ ":" ++ spec.port.text) = name.text ++ "/" ++ host.text ++ ":" ++ spec.port.text := by
        simp only [String.append_assoc]
      have first : splitOnce '/' (name.text ++ "/" ++ host.text) = some (name.text, host.text) :=
        splitOnce_between _ (by rfl) (name.clean '/' (by decide))
      rw [Option.map_some, Option.map_some, ahead_some, ahead_some, text, rsplitOnce_between _ (by rfl) last]
      dsimp only
      rw [spec.port.tryParsePort_text]
      unfold splitPortNamePrefix
      rw [first]
      cases number : parseU16 name.text <;> simp [number]

theorem parseRemoteBindingLegacy_render : parseRemoteBindingLegacy spec.renderLegacy = .ok spec.binding ↔ spec.NamePlainLegacy := by
  have segment := spec.segmentLegacy
  unfold parseRemoteBindingLegacy
  dsimp only
  rw [trim_of_solid segment.solid, if_neg segment.some_]
  have single := spec.parseSegment_render
  have colon := spec.colon_name
  unfold renderLegacy binding NamePlainLegacy
  cases spec.host with
  | none =>
    rw [Option.map_none, ahead_none, splitOnce_none colon]
    dsimp only
    rw [single]
    simp
  | some host =>
    have slash := spec.port.not_mem (c := '/') (by decide) (by decide)
    rw [Option.map_some, ahead_some, splitOnce_between _ (by rfl) (host.clean ':' (by decide))]
    dsimp only
    unfold parsePortWithName
    cases spec.portName with
    | none =>
      rw [Option.map_none, ahead_none, splitOnce_none slash]
      dsimp only
      rw [spec.port.tryParsePort_text]
      simp [bind, Except.bind, pure, Except.pure]
    | some name =>
      rw [Option.map_some, ahead_some, splitOnce_between _ (by rfl) (name.clean '/' (by decide))]
      dsimp only
      cases left : tryParsePort name.text with
      | none =>
        dsimp only
        rw [spec.port.tryParsePort_text]
        simp [bind, Except.bind, pure, Except.pure, left]
      | some number =>
        have same : name.text = spec.port.text → number = spec.port.value := by
          intro text
          rw [text, spec.port.tryParsePort_text] at left
          exact (Option.some.inj left).symm
        simp only [bind, Except.bind, pure, Except.pure]
        constructor
        · intro read _ other chosen
          cases chosen
          simp only [Except.ok.injEq, RemoteForwardBinding.mk.injEq, Option.some.injEq] at read
          exact .inr read.2.2.1.symm
        · intro plain
          obtain absent | text := plain rfl name rfl
          · rw [left] at absent
            cases absent
          · rw [same text, text]

end RemoteSpec

/-- What is written in the form of `-T` or of `-R` is read as it was written exactly if no name ahead of
a port that has a host is taken for a number. -/
theorem remote_round_trip_iff {relay : String} (valid : relayNameRegex relay = true) {specs : List RemoteSpec} (given : specs ≠ []) :
    (parseRemoteForward (relay ++ ":" ++ ";".intercalate (specs.map RemoteSpec.render)) =
        .ok { relayName := relay, bindings := specs.map RemoteSpec.binding } ↔ ∀ spec ∈ specs, spec.NamePlain) ∧
      (parseRemoteForwardLegacy (relay ++ ":" ++ ";".intercalate (specs.map RemoteSpec.renderLegacy)) =
        .ok { relayName := relay, bindings := specs.map RemoteSpec.binding } ↔ ∀ spec ∈ specs, spec.NamePlainLegacy) := by
  unfold parseRemoteForward parseRemoteForwardLegacy
  rw [parseRemoteWith_render (fun spec _ => spec.segment) given valid,
    parseRemoteWith_render (fun spec _ => spec.segmentLegacy) given valid]
  constructor
  · exact forall₂_congr fun spec _ => spec.parseRemoteBinding_render
  · exact forall₂_congr fun spec _ => spec.parseRemoteBindingLegacy_render

/-- A binding with a host and a name that is a number. -/
def numbered : RemoteSpec where
  host := some (word "db" (by decide) (by decide))
  portName := some (word "5432" (by decide) (by decide))
  port := ⟨6432, by decide, by decide, false⟩

theorem remote_round_trip_iff_name : parseRemoteForward "r:dns/ns:53U;8080/80" = .ok { relayName := "r", bindings :=
      [{ host := some "ns", hostPort := -53, portName := some "dns" }, { hostPort := 80, portName := some "8080" }] } ∧
    parseRemoteForwardLegacy "r:ns:dns/53U;8080/80" = .ok { relayName := "r", bindings :=
      [{ host := some "ns", hostPort := -53, portName := some "dns" }, { hostPort := 80, portName := some "8080" }] } := by
  have both := @remote_round_trip_iff "r" (by decide)
    [⟨some (word "ns" (by decide) (by decide)), some (word "dns" (by decide) (by decide)), ⟨53, by decide, by decide, true⟩⟩,
      ⟨none, some (word "8080" (by decide) (by decide)), ⟨80, by decide, by decide, false⟩⟩] (by simp)
  constructor
  · apply both.1.mpr
    intro spec member host name same
    obtain rfl | rfl := List.mem_pair.mp member
    · cases same
      decide +kernel
    · cases host
  · apply both.2.mpr
    intro spec member host name same
    obtain rfl | rfl := List.mem_pair.mp member
    · cases same
      exact .inl (by decide +kernel)
    · cases host

/-- The name of the port is read as part of the host, or as the port. -/
theorem numbered_misread : ¬ ∀ (relay : String) (specs : List RemoteSpec), relayNameRegex relay = true → specs ≠ [] →
    parseRemoteForward (relay ++ ":" ++ ";".intercalate (specs.map RemoteSpec.render)) =
        .ok { relayName := relay, bindings := specs.map RemoteSpec.binding } ∧
      parseRemoteForwardLegacy (relay ++ ":" ++ ";".intercalate (specs.map RemoteSpec.renderLegacy)) =
        .ok { relayName := relay, bindings := specs.map RemoteSpec.binding } := by
  intro all
  have both := all "r" [numbered] (by decide) (by simp)
  have legacy : parseRemoteForwardLegacy ("r" ++ ":" ++ ";".intercalate ([numbered].map RemoteSpec.renderLegacy)) =
      .ok { relayName := "r", bindings := [{ host := some "db", hostPort := 5432, portName := some "6432" }] } := by decide +kernel
  rw [legacy] at both
  exact absurd both.2 (by decide +kernel)

/-! ### HTTP forwards -/

/-- A text that is read as a port. -/
def IsPort (s : String) : Prop := ∃ p : Int, parseI32 s = some p ∧ 0 < p ∧ p ≤ 65535

theorem parseHttpPort_eq_none {s : String} : parseHttpPort s = none ↔ ¬ IsPort s := by
  unfold parseHttpPort IsPort
  cases parseI32 s with
  | none => simp
  | some p => simp

theorem parseHttpPort_toString {n : Nat} (positive : 0 < n) (bound : n ≤ 65535) : parseHttpPort (toString n) = some (n : Int) := by
  unfold parseHttpPort
  rw [parseI32_toString (by omega)]
  dsimp only
  rw [if_pos (by omega)]

namespace HttpSpec

variable (spec : HttpSpec)

theorem splitScheme_render (rest : String) : splitScheme (spec.scheme ++ "/" ++ rest) = some (spec.scheme, rest) := by
  unfold splitScheme scheme
  cases spec.https with
  | true =>
    show (match stripPrefix "https/" ("https/" ++ rest) with | some rest => some ("https", rest) | none => _) = _
    rw [stripPrefix_append]
    rfl
  | false =>
    have other : stripPrefix "https/" ("http/" ++ rest) = none := by
      unfold stripPrefix
      rw [String.toList_append]
      rfl
    show (match stripPrefix "https/" ("http/" ++ rest) with
      | some rest => some ("https", rest)
      | none => match stripPrefix "http/" ("http/" ++ rest) with | some rest => some ("http", rest) | none => none) = some ("http", rest)
    rw [other, stripPrefix_append]

theorem splitHostPath_render : splitHostPath (spec.host ++ spec.path) = (spec.binding.host, spec.binding.path) := by
  unfold splitHostPath binding
  have plain := spec.hostClean '/' (by decide)
  obtain empty | start := spec.pathStart
  · rw [empty, String.append_empty, splitOnce_none plain]
    rfl
  · obtain ⟨tail, same⟩ : ∃ tail, spec.path = "/" ++ tail := by
      cases chars : spec.path.toList with
      | nil =>
        rw [chars] at start
        cases start
      | cons c rest =>
        rw [chars] at start
        cases start
        refine ⟨String.ofList rest, String.toList_inj.mp ?_⟩
        simp [chars]
    have some_ : "/" ++ tail ≠ "" := by
      intro empty
      have parts := congrArg String.toList empty
      rw [String.toList_append] at parts
      cases parts
    rw [same, ← String.append_assoc, splitOnce_between _ (by rfl) plain]
    simp [some_]

theorem splitHttpPort_render (unported : spec.port = none → ∀ a b, spec.render = a ++ ":" ++ b → ':' ∉ b.toList → ¬ IsPort b) :
    splitHttpPort (spec.host ++ spec.path ++ spec.suffix) (defaultPort spec.scheme) =
      (spec.host ++ spec.path, spec.binding.hostPort) := by
  unfold splitHttpPort suffix binding defaultPort scheme
  cases given : spec.port with
  | some n =>
    have last : ':' ∉ (toString n.val).toList := by
      intro member
      exact absurd (digit_of_toString member) (by decide)
    dsimp only
    rw [← String.append_assoc, rsplitOnce_between _ (by rfl) last]
    dsimp only
    rw [parseHttpPort_toString n.property.1 n.property.2]
  | none =>
    have usual : (if (if spec.https = true then "https" else "http") = "https" then (443 : Int) else 80) =
        if spec.https = true then 443 else 80 := by
      cases spec.https <;> rfl
    dsimp only
    rw [String.append_empty, usual]
    by_cases colon : ':' ∈ (spec.host ++ spec.path).toList
    · obtain ⟨a, b, same, last⟩ := exists_last colon
      have whole : spec.render = spec.scheme ++ "/" ++ a ++ ":" ++ b := by
        unfold render suffix
        rw [given, String.append_empty, same]
        simp only [String.append_assoc]
      have number := parseHttpPort_eq_none.mpr (unported given _ b whole last)
      rw [same, rsplitOnce_between a rfl last]
      dsimp only
      rw [number]
    · rw [rsplitOnce_none colon]

theorem suffix_solid : Solid spec.suffix.toList := by
  unfold suffix
  cases spec.port with
  | some n => exact solid_append (solid_of_all (by decide)) (solid_toString _)
  | none => exact solid_of_all (by decide)

theorem suffix_whole : ';' ∉ spec.suffix.toList := by
  unfold suffix
  cases spec.port with
  | none => nofun
  | some n =>
    dsimp only
    rw [String.toList_append, List.mem_append]
    rintro (colon | number)
    · exact absurd colon (by decide)
    · exact absurd (digit_of_toString number) (by decide)

theorem scheme_cases : spec.scheme = "https" ∨ spec.scheme = "http" := by
  unfold scheme
  cases spec.https
  · exact .inr rfl
  · exact .inl rfl

theorem segment : Segment spec.render := by
  constructor
  · intro empty
    have cut := spec.splitScheme_render (spec.host ++ spec.path ++ spec.suffix)
    unfold render at empty
    rw [empty] at cut
    cases cut
  · have scheme : Solid spec.scheme.toList := by
      obtain same | same := spec.scheme_cases <;> rw [same] <;> exact solid_of_all (by decide)
    exact solid_append (solid_append scheme (solid_of_all (by decide)))
      (solid_append (solid_append spec.hostSolid spec.pathSolid) spec.suffix_solid)
  · have scheme : ';' ∉ spec.scheme.toList := by
      obtain same | same := spec.scheme_cases <;> rw [same] <;> decide
    have host := spec.hostClean ';' (by decide)
    have path := spec.pathClean
    have suffix := spec.suffix_whole
    have slash : ';' ∉ "/".toList := by decide
    unfold render
    simp only [String.toList_append, List.mem_append]
    tauto

theorem parseHttpBinding_render (unported : spec.port = none → ∀ a b, spec.render = a ++ ":" ++ b → ':' ∉ b.toList → ¬ IsPort b) :
    parseHttpBinding spec.render = .ok spec.binding := by
  have segment := spec.segment
  have port := spec.splitHttpPort_render unported
  unfold parseHttpBinding
  dsimp only
  rw [trim_of_solid segment.solid, if_neg segment.some_]
  unfold render
  rw [splitScheme_render]
  dsimp only
  rw [port]
  dsimp only
  rw [splitHostPath_render]
  rfl

end HttpSpec

/-- What is written in the form of `-H` is read as it was written, with or without its ports. -/
theorem http_round_trip {relay : String} (valid : relayNameRegex relay = true) {specs : List HttpSpec} (given : specs ≠ [])
    (unported : ∀ spec ∈ specs, spec.port = none → ∀ a b, spec.render = a ++ ":" ++ b → ':' ∉ b.toList → ¬ IsPort b) :
    parseRemoteHttpForward (relay ++ ":" ++ ";".intercalate (specs.map HttpSpec.render)) =
      .ok { relayName := relay, bindings := specs.map HttpSpec.binding } := by
  unfold parseRemoteHttpForward
  rw [parseRemoteWith_render (fun spec _ => spec.segment) given valid]
  intro spec member
  exact spec.parseHttpBinding_render (unported spec member)

/-- `https/h/v1:x`, whose last colon is in its path. -/
def unnumbered : HttpSpec :=
  ⟨true, "h", solid_of_all (by decide), forall_mem_of_all (by decide), "/v1:x", solid_of_all (by decide), by decide, .inr rfl, none⟩

theorem http_round_trip_default : parseRemoteHttpForward "web:http/[::1]/a:b:8080;https/h/v1:x;http/:81" = .ok { relayName := "web", bindings :=
    [{ host := some "[::1]", hostPort := 8080, portName := some "http", http := true, path := some "/a:b" },
      { host := some "h", hostPort := 443, portName := some "https", http := true, path := some "/v1:x" },
      { hostPort := 81, portName := some "http", http := true }] } := by
  have last : ∀ a b, unnumbered.render = a ++ ":" ++ b → ':' ∉ b.toList → ¬ IsPort b := by
    intro a b same whole
    have cut := @rsplitOnce_between ':' a ":" b (by rfl) whole
    rw [← same, show rsplitOnce ':' unnumbered.render = some ("https/h/v1", "x") by decide +kernel] at cut
    cases cut
    exact parseHttpPort_eq_none.mp (by decide)
  have read := @http_round_trip "web" (by decide)
    [⟨false, "[::1]", solid_of_all (by decide), forall_mem_of_all (by decide), "/a:b", solid_of_all (by decide), by decide, .inr rfl,
        some ⟨8080, by decide⟩⟩, unnumbered,
      ⟨false, "", solid_of_all (by decide), forall_mem_of_all (by decide), "", solid_of_all (by decide), by decide, .inl rfl,
        some ⟨81, by decide⟩⟩] (by simp) (by
        intro spec member absent
        obtain rfl | rfl | rfl : spec = _ ∨ spec = _ ∨ spec = _ := by simpa using member
        · cases absent
        · exact last
        · cases absent)
  exact read

end Azbridge.Expressions
