import Azbridge.Runtime.Timespan

/-!
# Connection strings

How a connection string is read into its builder and written again. Parsing a URL and writing it
comes from another crate.
-/

namespace Azbridge.ConnectionString
open Timespan (Build Duration Failure Kept Near)

structure Urls where
  /-- `url::Url`. -/
  Url : Type
  /-- `Url::parse`, or the text of its error. -/
  parse : String → Except String Url
  display : Url → String

/-- What is relied on of URLs. -/
structure Urls.Lawful (urls : Urls) : Prop where
  reparse : ∀ {text u}, urls.parse text = .ok u → urls.parse (urls.display u) = .ok u
  some_ : ∀ {text u}, urls.parse text = .ok u → urls.display u ≠ ""
  trimmed : ∀ {text u}, urls.parse text = .ok u → Text.trim (urls.display u) = urls.display u
  /-- A semicolon belongs to the host, without which the same URL is not read. -/
  whole : ∀ {text u part}, urls.parse text = .ok u → ';' ∈ (urls.display u).toList →
    part.toList <:+: (urls.display u).toList → ';' ∉ part.toList → urls.parse part ≠ .ok u

inductive AuthenticationType where
  | none
  | managedIdentity
  | other
  deriving DecidableEq

/-- `RelayConnectionStringBuilder`. -/
structure Builder (Url : Type) where
  endpoint : Option Url := none
  entityPath : Option String := none
  sharedAccessKeyName : Option String := none
  sharedAccessKey : Option String := none
  sharedAccessSignature : Option String := none
  operationTimeout : Option Duration := none
  authentication : AuthenticationType := .none

/-- `KNOWN_KEYS`. -/
inductive Key where
  | endpoint
  | entityPath
  | sasKeyName
  | sasKey
  | sasSignature
  | operationTimeout
  | authentication
  deriving DecidableEq

def Key.ofLowercase : String → Option Key
  | "endpoint" => some .endpoint
  | "entitypath" => some .entityPath
  | "sharedaccesskeyname" => some .sasKeyName
  | "sharedaccesskey" => some .sasKey
  | "sharedaccesssignature" => some .sasSignature
  | "operationtimeout" => some .operationTimeout
  | "authentication" => some .authentication
  | _ => none

def parseAuthenticationType (value : String) : AuthenticationType :=
  let normalized := Text.toAsciiLowercase (String.ofList (value.toList.filter (· != ' ')))
  if normalized = "managedidentity" then .managedIdentity else .other

section Reading

variable (build : Build) (urls : Urls)

def setKey (value : String) (builder : Builder urls.Url) : Key → Except Failure (Builder urls.Url)
  | .endpoint =>
    match urls.parse value with
    | .ok url => .ok { builder with endpoint := some url }
    | .error e => .error (.invalid ("Invalid Endpoint URI '" ++ value ++ "': " ++ e))
  | .entityPath => .ok { builder with entityPath := some value }
  | .sasKeyName => .ok { builder with sharedAccessKeyName := some value }
  | .sasKey => .ok { builder with sharedAccessKey := some value }
  | .sasSignature => .ok { builder with sharedAccessSignature := some value }
  | .operationTimeout => do
    let duration ← Timespan.parseTimespan build value
    return { builder with operationTimeout := some duration }
  | .authentication => .ok { builder with authentication := parseAuthenticationType value }

def readPart (builder : Builder urls.Url) (part : String) : Except Failure (Builder urls.Url) :=
  let part := Text.trim part
  if part = "" then .ok builder
  else match Text.splitOnce '=' part with
    | none => .error (.invalid ("Key-value pair missing '=' delimiter: '" ++ part ++ "'"))
    | some (key, value) =>
      let key := Text.trim key
      let value := Text.trim value
      if value = "" then .error (.invalid ("Empty value for key '" ++ key ++ "'"))
      else match Key.ofLowercase (Text.toAsciiLowercase key) with
        | none => .error (.invalid ("Unknown key '" ++ key ++ "'"))
        | some known => setKey build urls value builder known

def fromConnectionString (s : String) : Except Failure (Builder urls.Url) :=
  (Text.split ';' s).foldlM (readPart build urls) {}

end Reading

def AuthenticationType.text : AuthenticationType → Option String
  | .none => Option.none
  | .managedIdentity => some "ManagedIdentity"
  | .other => some "Other"

/-- A key with its value, if there is one. -/
def written (label : String) (value : Option String) : List String := (value.map (label ++ "=" ++ ·)).toList

def Builder.parts {urls : Urls} (b : Builder urls.Url) : List String :=
  written "Endpoint" (b.endpoint.map urls.display) ++
  (written "EntityPath" b.entityPath ++
  (written "SharedAccessKeyName" b.sharedAccessKeyName ++
  (written "SharedAccessKey" b.sharedAccessKey ++
  (written "SharedAccessSignature" b.sharedAccessSignature ++
  (written "OperationTimeout" (b.operationTimeout.map Timespan.formatTimespan) ++
  written "Authentication" b.authentication.text)))))

def Builder.display {urls : Urls} (b : Builder urls.Url) : String := ";".intercalate b.parts

/-- Reading the text of a builder gives it back. -/
def RoundTrips (build : Build) {urls : Urls} (b : Builder urls.Url) : Prop :=
  ∃ b', fromConnectionString build urls b.display = .ok b' ∧
    b'.endpoint = b.endpoint ∧ b'.entityPath = b.entityPath ∧ b'.sharedAccessKeyName = b.sharedAccessKeyName ∧
    b'.sharedAccessKey = b.sharedAccessKey ∧ b'.sharedAccessSignature = b.sharedAccessSignature ∧
    b'.authentication = b.authentication ∧ Option.Rel Near b.operationTimeout b'.operationTimeout

/-! ### Values -/

/-- What the values of a connection string are like. -/
structure Clean (text : String) : Prop where
  trimmed : Text.trim text = text
  some_ : text ≠ ""
  whole : ';' ∉ text.toList

section Parts

variable {build : Build} {urls : Urls} {b b' : Builder urls.Url}

theorem toList_eq {text : String} (trimmed : Text.trim text = text) : Text.trimList text.toList = text.toList := by
  have := congrArg String.toList trimmed
  rwa [Text.trim, String.toList_ofList] at this

/-- The name under which a key is written. -/
structure Names (label : String) (key : Key) : Prop where
  solid : Text.Solid label.toList
  equals : '=' ∉ label.toList
  whole : ';' ∉ label.toList
  some_ : label ≠ ""
  known : Key.ofLowercase (Text.toAsciiLowercase label) = some key

theorem readPart_label {label value : String} {key : Key} (names : Names label key) (trimmed : Text.trim value = value)
    (some' : value ≠ "") : readPart build urls b (label ++ "=" ++ value) = setKey build urls value b key := by
  have text : (label ++ "=" ++ value).toList = label.toList ++ '=' :: value.toList := by simp
  have value' : value.toList ≠ [] := by simpa using some'
  obtain ⟨solid, equals, -, some_, known⟩ := names
  have whole : Text.trim (label ++ "=" ++ value) = label ++ "=" ++ value := by
    have solid' : Text.Solid (label.toList ++ ['=']) := by
      intro c member
      cases List.mem_append.mp member with
      | inl within => exact solid c within
      | inr last =>
        obtain rfl := List.mem_singleton.mp last
        rfl
    have trimmed' := Text.trimList_append solid' (by simp) (toList_eq trimmed) value'
    rw [List.append_assoc] at trimmed'
    apply String.toList_inj.mp
    rw [Text.trim, String.toList_ofList, text]
    exact trimmed'
  have there : label ++ "=" ++ value ≠ "" := by simp [some_]
  have cut : Text.splitOnce '=' (label ++ "=" ++ value) = some (label, value) := by
    have := Text.splitOnce_append value.toList equals
    rw [← text, String.ofList_toList, String.ofList_toList, String.ofList_toList] at this
    exact this
  have key' : Text.trim label = label := by
    rw [Text.trim, Text.trimList_of_solid solid, String.ofList_toList]
  unfold readPart
  dsimp only
  rw [whole, if_neg there, cut]
  dsimp only
  rw [key', trimmed, if_neg some', known]

/-- All that is known of a builder that was read. -/
structure Builder.Good (b : Builder urls.Url) : Prop where
  endpoint : ∀ u, b.endpoint = some u → ∃ text, urls.parse text = .ok u
  entityPath : ∀ text, b.entityPath = some text → Clean text
  sharedAccessKeyName : ∀ text, b.sharedAccessKeyName = some text → Clean text
  sharedAccessKey : ∀ text, b.sharedAccessKey = some text → Clean text
  sharedAccessSignature : ∀ text, b.sharedAccessSignature = some text → Clean text

theorem setKey_good {value : String} {key : Key} (good : b.Good) (clean : Clean value)
    (set : setKey build urls value b key = .ok b') : b'.Good := by
  cases key with
  | endpoint =>
    simp only [setKey] at set
    split at set
    · next url parsed =>
      cases set
      refine ⟨?_, good.2, good.3, good.4, good.5⟩
      intro u same
      cases same
      exact ⟨value, parsed⟩
    · cases set
  | operationTimeout =>
    simp only [setKey] at set
    cases parsed : Timespan.parseTimespan build value with
    | error failure =>
      rw [parsed] at set
      cases set
    | ok duration =>
      rw [parsed] at set
      cases set
      exact ⟨good.1, good.2, good.3, good.4, good.5⟩
  | entityPath =>
    cases set
    exact ⟨good.1, fun text same => Option.some.inj same ▸ clean, good.3, good.4, good.5⟩
  | sasKeyName =>
    cases set
    exact ⟨good.1, good.2, fun text same => Option.some.inj same ▸ clean, good.4, good.5⟩
  | sasKey =>
    cases set
    exact ⟨good.1, good.2, good.3, fun text same => Option.some.inj same ▸ clean, good.5⟩
  | sasSignature =>
    cases set
    exact ⟨good.1, good.2, good.3, good.4, fun text same => Option.some.inj same ▸ clean⟩
  | authentication =>
    cases set
    exact ⟨good.1, good.2, good.3, good.4, good.5⟩

/-- A part leaves the builder alone, or sets a key to what is after its first equals sign. -/
theorem readPart_cases {part : String} (read : readPart build urls b part = .ok b') :
    b' = b ∨ ∃ name text key, Text.splitOnce '=' (Text.trim part) = some (name, text) ∧ Text.trim text ≠ "" ∧
      Key.ofLowercase (Text.toAsciiLowercase (Text.trim name)) = some key ∧
      setKey build urls (Text.trim text) b key = .ok b' := by
  unfold readPart at read
  dsimp only at read
  split at read
  · cases read
    exact .inl rfl
  · split at read
    · cases read
    · next name text cut =>
      split at read
      · cases read
      · next some_ =>
        split at read
        · cases read
        · next key known => exact .inr ⟨name, text, key, cut, some_, known, read⟩

theorem trimList_within (cs : List Char) : ∃ left right, cs = left ++ Text.trimList cs ++ right ∧ ∀ c ∈ left, Text.isWhitespace c = true := by
  refine ⟨cs.takeWhile Text.isWhitespace, ((cs.dropWhile Text.isWhitespace).reverse.takeWhile Text.isWhitespace).reverse, ?_, ?_⟩
  · unfold Text.trimList
    rw [List.append_assoc, ← List.reverse_append, List.takeWhile_append_dropWhile, List.reverse_reverse,
      List.takeWhile_append_dropWhile]
  · intro c member
    exact List.all_eq_true.mp List.all_takeWhile c member

theorem value_within {part name text : String} (cut : Text.splitOnce '=' (Text.trim part) = some (name, text)) :
    (Text.trim text).toList <:+: (part.toList.dropWhile (· != '=')).drop 1 := by
  obtain ⟨left, right, same, blank⟩ := trimList_within part.toList
  have equals : '=' ∈ Text.trimList part.toList := by
    by_contra none_
    rw [Text.splitOnce_none (by rwa [Text.trim, String.toList_ofList])] at cut
    cases cut
  have value : text.toList = ((Text.trimList part.toList).dropWhile (· != '=')).drop 1 := by
    unfold Text.splitOnce at cut
    rw [Text.trim, String.toList_ofList, if_pos equals] at cut
    cases cut
    rw [String.toList_ofList]
  have before : ∀ c ∈ left, (c != '=') = true := by
    intro c member
    simp only [bne_iff_ne]
    rintro rfl
    exact absurd (blank _ member) (by decide)
  have rest : (Text.trimList part.toList).dropWhile (· != '=') ≠ [] := by
    intro none_
    have := List.dropWhile_eq_nil_iff.mp none_ _ equals
    simp at this
  have after : (part.toList.dropWhile (· != '=')).drop 1 = text.toList ++ right := by
    rw [value]
    generalize Text.trimList part.toList = trimmed at same rest
    rw [same, List.append_assoc, List.dropWhile_append_of_pos before, List.dropWhile_append,
      if_neg (by simpa [List.isEmpty_iff] using rest)]
    cases tail : trimmed.dropWhile (· != '=') with
    | nil => exact absurd tail rest
    | cons c cs => rfl
  obtain ⟨left', right', same', _⟩ := trimList_within text.toList
  rw [after, Text.trim, String.toList_ofList]
  refine ⟨left', right' ++ right, ?_⟩
  conv => rhs; rw [same']
  simp only [List.append_assoc]

theorem clean_value {part name text : String} (whole : ';' ∉ part.toList)
    (cut : Text.splitOnce '=' (Text.trim part) = some (name, text)) (some_ : Text.trim text ≠ "") : Clean (Text.trim text) := by
  refine ⟨?_, some_, ?_⟩
  · apply String.toList_inj.mp
    simp only [Text.trim, String.toList_ofList]
    exact Text.trimList_trimList
  · intro within
    have member := (value_within cut).subset within
    exact whole ((List.dropWhile_subset _) (List.mem_of_mem_drop member))

theorem readPart_good {part : String} (good : b.Good) (whole : ';' ∉ part.toList)
    (read : readPart build urls b part = .ok b') : b'.Good := by
  cases readPart_cases read with
  | inl same => exact same ▸ good
  | inr set =>
    obtain ⟨name, text, key, cut, some_, _, set⟩ := set
    exact setKey_good good (clean_value whole cut some_) set

/-! ### Reading the text of a builder -/

theorem fromConnectionString_display : fromConnectionString build urls b.display =
    (b.parts.flatMap (Text.split ';')).foldlM (readPart build urls) {} := by
  unfold fromConnectionString Builder.display
  by_cases none_ : b.parts = []
  · rw [none_]
    rfl
  · exact congrArg (·.foldlM (readPart build urls) {}) (Text.split_intercalate none_ (by rfl))

theorem read_written {label : String} {key : Key} {value : Option String} {result : Except Failure (Builder urls.Url)}
    (names : Names label key) (clean : ∀ text, value = some text → Clean text) (absent : value = none → .ok b = result)
    (present : ∀ text, value = some text → setKey build urls text b key = result) :
    ((written label value).flatMap (Text.split ';')).foldlM (readPart build urls) b = result := by
  cases value with
  | none => exact absent rfl
  | some text =>
    obtain ⟨trimmed, some_, whole⟩ := clean text rfl
    have part : ';' ∉ (label ++ "=" ++ text).toList := by simp [names.whole, whole]
    have single : (written label (some text)).flatMap (Text.split ';') = [label ++ "=" ++ text] := by
      simp [written, Text.split_whole part]
    rw [single, ← present text rfl, ← readPart_label names trimmed some_, List.foldlM_cons]
    cases readPart build urls b (label ++ "=" ++ text) <;> rfl

theorem read_plain {label : String} {key : Key} {value : Option String} (put : Option String → Builder urls.Url)
    (names : Names label key) (clean : ∀ text, value = some text → Clean text)
    (present : ∀ text, setKey build urls text (put none) key = .ok (put (some text))) :
    ((written label value).flatMap (Text.split ';')).foldlM (readPart build urls) (put none) = .ok (put value) := by
  apply read_written names clean
  · intro none_
    rw [none_]
  · intro text same
    rw [same]
    exact present text

theorem names_of_all {label : String} {key : Key} (all : label.toList.all (fun c => !Text.isWhitespace c && c != '=' && c != ';') = true)
    (some_ : label ≠ "") (known : Key.ofLowercase (Text.toAsciiLowercase label) = some key) : Names label key := by
  have each : ∀ c ∈ label.toList, Text.isWhitespace c = false ∧ c ≠ '=' ∧ c ≠ ';' := by
    intro c member
    simpa [and_assoc] using List.all_eq_true.mp all c member
  exact ⟨fun c member => (each c member).1, fun member => (each _ member).2.1 rfl, fun member => (each _ member).2.2 rfl, some_, known⟩

theorem names_endpoint : Names "Endpoint" .endpoint := names_of_all (by decide) (by decide) (by decide)

theorem names_entityPath : Names "EntityPath" .entityPath := names_of_all (by decide) (by decide) (by decide)

theorem names_sasKeyName : Names "SharedAccessKeyName" .sasKeyName := names_of_all (by decide) (by decide) (by decide)

theorem names_sasKey : Names "SharedAccessKey" .sasKey := names_of_all (by decide) (by decide) (by decide)

theorem names_sasSignature : Names "SharedAccessSignature" .sasSignature := names_of_all (by decide) (by decide) (by decide)

theorem names_operationTimeout : Names "OperationTimeout" .operationTimeout := names_of_all (by decide) (by decide) (by decide)

theorem names_authentication : Names "Authentication" .authentication := names_of_all (by decide) (by decide) (by decide)

theorem clean_of_solid {text : String} (solid : Text.Solid text.toList) (some_ : text ≠ "") (whole : ';' ∉ text.toList) : Clean text := by
  refine ⟨?_, some_, whole⟩
  rw [Text.trim, Text.trimList_of_solid solid, String.ofList_toList]

theorem clean_formatTimespan (d : Duration) : Clean (Timespan.formatTimespan d) := by
  apply clean_of_solid Timespan.formatTimespan_solid Timespan.formatTimespan_ne_empty
  intro within
  obtain digit | colon | point := Timespan.mem_formatTimespan within
  · exact absurd digit (by decide)
  · exact absurd colon (by decide)
  · exact absurd point (by decide)

theorem clean_authentication {authentication : AuthenticationType} {text : String} (same : authentication.text = some text) :
    Clean text ∧ parseAuthenticationType text = authentication := by
  have clean : ∀ text : String, text.toList.all (fun c => !Text.isWhitespace c && c != ';') = true → text ≠ "" → Clean text := by
    intro text all some_
    have each : ∀ c ∈ text.toList, Text.isWhitespace c = false ∧ c ≠ ';' := by
      intro c member
      simpa using List.all_eq_true.mp all c member
    exact clean_of_solid (fun c member => (each c member).1) some_ fun member => (each _ member).2 rfl
  cases authentication with
  | none => cases same
  | managedIdentity =>
    cases same
    exact ⟨clean _ (by decide) (by decide), by decide⟩
  | other =>
    cases same
    exact ⟨clean _ (by decide) (by decide), by decide⟩

/-- The parts after the endpoint. -/
def Builder.rest (b : Builder urls.Url) : List String :=
  written "EntityPath" b.entityPath ++
  (written "SharedAccessKeyName" b.sharedAccessKeyName ++
  (written "SharedAccessKey" b.sharedAccessKey ++
  (written "SharedAccessSignature" b.sharedAccessSignature ++
  (written "OperationTimeout" (b.operationTimeout.map Timespan.formatTimespan) ++
  written "Authentication" b.authentication.text))))

def reread (build : Build) : Option Duration → Except Failure (Option Duration)
  | none => .ok none
  | some d => (Timespan.parseTimespan build (Timespan.formatTimespan d)).map some

theorem read_rest (good : b.Good) {e : Option urls.Url} :
    (b.rest.flatMap (Text.split ';')).foldlM (readPart build urls) { endpoint := e } =
      (reread build b.operationTimeout).map fun timeout => { b with endpoint := e, operationTimeout := timeout } := by
  have paths := @read_plain build urls "EntityPath" .entityPath b.entityPath (fun v => { endpoint := e, entityPath := v })
    names_entityPath good.entityPath fun _ => rfl
  have names := @read_plain build urls "SharedAccessKeyName" .sasKeyName b.sharedAccessKeyName
    (fun v => { endpoint := e, entityPath := b.entityPath, sharedAccessKeyName := v })
    names_sasKeyName good.sharedAccessKeyName fun _ => rfl
  have keys := @read_plain build urls "SharedAccessKey" .sasKey b.sharedAccessKey
    (fun v => { endpoint := e, entityPath := b.entityPath, sharedAccessKeyName := b.sharedAccessKeyName, sharedAccessKey := v })
    names_sasKey good.sharedAccessKey fun _ => rfl
  have signatures := @read_plain build urls "SharedAccessSignature" .sasSignature b.sharedAccessSignature
    (fun v => { endpoint := e, entityPath := b.entityPath, sharedAccessKeyName := b.sharedAccessKeyName,
                sharedAccessKey := b.sharedAccessKey, sharedAccessSignature := v })
    names_sasSignature good.sharedAccessSignature fun _ => rfl
  have timeouts : ((written "OperationTimeout" (b.operationTimeout.map Timespan.formatTimespan)).flatMap (Text.split ';')).foldlM
      (readPart build urls) { b with endpoint := e, operationTimeout := none, authentication := .none } =
        (reread build b.operationTimeout).map fun timeout =>
          { b with endpoint := e, operationTimeout := timeout, authentication := .none } := by
    apply read_written names_operationTimeout
    · intro text same
      obtain ⟨d, _, rfl⟩ := Option.map_eq_some_iff.mp same
      exact clean_formatTimespan d
    · intro none_
      rw [Option.map_eq_none_iff.mp none_]
      rfl
    · intro text same
      obtain ⟨d, held, rfl⟩ := Option.map_eq_some_iff.mp same
      rw [held]
      unfold reread
      simp only [setKey]
      cases Timespan.parseTimespan build (Timespan.formatTimespan d) <;> rfl
  have authentications : ∀ timeout, ((written "Authentication" b.authentication.text).flatMap (Text.split ';')).foldlM
      (readPart build urls) { b with endpoint := e, operationTimeout := timeout, authentication := .none } =
        .ok { b with endpoint := e, operationTimeout := timeout } := by
    intro timeout
    apply read_written names_authentication
    · intro text same
      exact (clean_authentication same).1
    · intro none_
      cases kind : b.authentication with
      | none => rfl
      | _ => rw [kind] at none_; cases none_
    · intro text same
      show Except.ok _ = _
      rw [(clean_authentication same).2]
  unfold Builder.rest
  simp only [List.flatMap_append, List.foldlM_append]
  rw [paths, Timespan.ok_bind, names, Timespan.ok_bind, keys, Timespan.ok_bind, signatures, Timespan.ok_bind, timeouts]
  cases reread build b.operationTimeout with
  | error failure => rfl
  | ok timeout => exact authentications timeout

/-! ### Semicolons in an endpoint -/

theorem setKey_endpoint {value : String} {key : Key} (set : setKey build urls value b key = .ok b') :
    key = .endpoint ∧ (∃ u, urls.parse value = .ok u ∧ b'.endpoint = some u) ∨ b'.endpoint = b.endpoint := by
  cases key with
  | endpoint =>
    simp only [setKey] at set
    split at set
    · next url parsed =>
      cases set
      exact .inl ⟨rfl, url, parsed, rfl⟩
    · cases set
  | operationTimeout =>
    simp only [setKey] at set
    cases parsed : Timespan.parseTimespan build value with
    | error failure =>
      rw [parsed] at set
      cases set
    | ok duration =>
      rw [parsed] at set
      cases set
      exact .inr rfl
  | _ =>
    cases set
    exact .inr rfl

theorem endpoint_of_read {parts : List String} (read : parts.foldlM (readPart build urls) b = .ok b') :
    b'.endpoint = b.endpoint ∨ ∃ part ∈ parts, ∃ text u, urls.parse text = .ok u ∧ b'.endpoint = some u ∧
      text.toList <:+: (part.toList.dropWhile (· != '=')).drop 1 := by
  induction parts generalizing b with
  | nil =>
    cases read
    exact .inl rfl
  | cons part rest ih =>
    rw [List.foldlM_cons] at read
    cases first : readPart build urls b part with
    | error failure =>
      rw [first] at read
      cases read
    | ok b₁ =>
      rw [first] at read
      cases ih read with
      | inr later =>
        obtain ⟨part', member, found⟩ := later
        exact .inr ⟨part', .tail _ member, found⟩
      | inl kept =>
        rw [kept]
        cases readPart_cases first with
        | inl same =>
          left
          rw [same]
        | inr set =>
          obtain ⟨name, text, key, cut, _, _, set⟩ := set
          cases setKey_endpoint set with
          | inr same => exact .inl same
          | inl changed =>
            obtain ⟨-, u, parsed, became⟩ := changed
            exact .inr ⟨part, .head _, _, u, parsed, became, value_within cut⟩

/-- A part that leaves the endpoint as it is. -/
def Spares (build : Build) (urls : Urls) (part : String) : Prop :=
  ∀ b b' : Builder urls.Url, readPart build urls b part = .ok b' → b'.endpoint = b.endpoint

theorem endpoint_of_spares {parts : List String} (spares : ∀ part ∈ parts, Spares build urls part)
    (read : parts.foldlM (readPart build urls) b = .ok b') : b'.endpoint = b.endpoint := by
  induction parts generalizing b with
  | nil =>
    cases read
    rfl
  | cons part rest ih =>
    rw [List.foldlM_cons] at read
    cases first : readPart build urls b part with
    | error failure =>
      rw [first] at read
      cases read
    | ok b₁ =>
      rw [first] at read
      exact (ih (fun part member => spares part (.tail _ member)) read).trans (spares part (.head _) b b₁ first)

theorem spares_written {label : String} {key : Key} {value : Option String} (names : Names label key) (other : key ≠ .endpoint)
    (clean : ∀ text, value = some text → Clean text) : ∀ part ∈ (written label value).flatMap (Text.split ';'), Spares build urls part := by
  intro part member b b' read
  cases value with
  | none => cases member
  | some text =>
    obtain ⟨trimmed, some_, whole⟩ := clean text rfl
    have plain : ';' ∉ (label ++ "=" ++ text).toList := by simp [names.whole, whole]
    have single : (written label (some text)).flatMap (Text.split ';') = [label ++ "=" ++ text] := by
      simp [written, Text.split_whole plain]
    rw [single] at member
    obtain rfl := List.mem_singleton.mp member
    rw [readPart_label names trimmed some_] at read
    cases setKey_endpoint read with
    | inl changed => exact absurd changed.1 other
    | inr same => exact same

theorem endpoint_of_rest (good : b.Good) {b₀ : Builder urls.Url}
    (read : (b.rest.flatMap (Text.split ';')).foldlM (readPart build urls) b₀ = .ok b') : b'.endpoint = b₀.endpoint := by
  apply endpoint_of_spares ?_ read
  intro part member
  unfold Builder.rest at member
  simp only [List.flatMap_append, List.mem_append] at member
  obtain path | name | key | signature | timeout | authentication := member
  · exact spares_written names_entityPath (by decide) good.entityPath part path
  · exact spares_written names_sasKeyName (by decide) good.sharedAccessKeyName part name
  · exact spares_written names_sasKey (by decide) good.sharedAccessKey part key
  · exact spares_written names_sasSignature (by decide) good.sharedAccessSignature part signature
  · apply spares_written names_operationTimeout (by decide) ?_ part timeout
    intro text same
    obtain ⟨d, _, rfl⟩ := Option.map_eq_some_iff.mp same
    exact clean_formatTimespan d
  · exact spares_written names_authentication (by decide) (fun text same => (clean_authentication same).1) part authentication

theorem splitOn_append_label {label : List Char} (whole : ';' ∉ label) (cs : List Char) :
    (label ++ cs).splitOn ';' = (cs.splitOn ';').modifyHead (label ++ ·) := by
  induction label with
  | nil => cases split : cs.splitOn ';' <;> simp [split]
  | cons c label ih =>
    have other : (c == ';') = false := by
      simp only [beq_eq_false_iff_ne]
      rintro rfl
      exact whole (.head _)
    rw [List.cons_append, List.splitOn_cons_eq_if_modifyHead, other, ih fun member => whole (.tail _ member)]
    cases cs.splitOn ';' <;> simp

/-- A text is split into parts of it that hold no separator, and starts with the first. -/
theorem splitOn_parts (cs : List Char) : ∃ first rest, cs.splitOn ';' = first :: rest ∧ first <+: cs ∧ ';' ∉ first ∧
    ∀ part ∈ rest, part <:+: cs ∧ ';' ∉ part := by
  induction cs with
  | nil => exact ⟨[], [], rfl, List.prefix_refl _, by simp, by simp⟩
  | cons c cs ih =>
    obtain ⟨first, rest, split, before, clean, within⟩ := ih
    rw [List.splitOn_cons_eq_if_modifyHead, split]
    by_cases separator : c = ';'
    · refine ⟨[], first :: rest, by simp [separator], List.nil_prefix, by simp, ?_⟩
      intro part member
      cases member with
      | head => exact ⟨(before.isInfix).trans (List.infix_cons (List.infix_refl _)), clean⟩
      | tail _ member => exact ⟨(within part member).1.trans (List.infix_cons (List.infix_refl _)), (within part member).2⟩
    · refine ⟨c :: first, rest, by simp [separator], ?_, ?_, ?_⟩
      · exact List.cons_prefix_cons.mpr ⟨rfl, before⟩
      · simp [clean, Ne.symm separator]
      · intro part member
        exact ⟨(within part member).1.trans (List.infix_cons (List.infix_refl _)), (within part member).2⟩

/-- What a part of a written endpoint sets the endpoint to is part of the endpoint's own text. -/
theorem value_of_endpoint {text value : String} {part : List Char} (member : part ∈ ("Endpoint=" ++ text).toList.splitOn ';')
    (within : value.toList <:+: (part.dropWhile (· != '=')).drop 1) : value.toList <:+: text.toList ∧ ';' ∉ value.toList := by
  obtain ⟨first, rest, split, before, clean, others⟩ := splitOn_parts text.toList
  rw [String.toList_append, splitOn_append_label (by decide), split, List.modifyHead_cons] at member
  cases member with
  | head =>
    have after : (("Endpoint=".toList ++ first).dropWhile (· != '=')).drop 1 = first := rfl
    rw [after] at within
    exact ⟨within.trans before.isInfix, fun member => clean (within.subset member)⟩
  | tail _ member =>
    obtain ⟨there, clean⟩ := others part member
    have after : (part.dropWhile (· != '=')).drop 1 <:+: part :=
      ((List.drop_suffix ..).trans (List.dropWhile_suffix _)).isInfix
    exact ⟨(within.trans after).trans there, fun member => clean ((within.trans after).subset member)⟩

theorem endpoint_lost (lawful : urls.Lawful) (good : b.Good) {u : urls.Url} (endpoint : b.endpoint = some u)
    (semicolon : ';' ∈ (urls.display u).toList) (read : fromConnectionString build urls b.display = .ok b') : b'.endpoint ≠ some u := by
  intro same
  obtain ⟨source, parsed⟩ := good.endpoint u endpoint
  have parts : b.parts = ["Endpoint=" ++ urls.display u] ++ b.rest := by
    unfold Builder.parts
    rw [endpoint]
    rfl
  rw [fromConnectionString_display, parts, List.flatMap_append, List.foldlM_append] at read
  cases first : (["Endpoint=" ++ urls.display u].flatMap (Text.split ';')).foldlM (readPart build urls) {} with
  | error failure =>
    rw [first] at read
    cases read
  | ok b₁ =>
    rw [first] at read
    have kept := endpoint_of_rest good read
    cases endpoint_of_read first with
    | inl none_ =>
      rw [kept, none_] at same
      cases same
    | inr found =>
      obtain ⟨part, member, value, u', parsed', became, within⟩ := found
      rw [kept, became] at same
      cases same
      rw [List.flatMap_singleton] at member
      obtain ⟨chars, piece, rfl⟩ := List.mem_map.mp member
      rw [String.toList_ofList] at within
      obtain ⟨inside, clean⟩ := value_of_endpoint piece within
      exact lawful.whole parsed semicolon inside clean parsed'

/-! ### Reading back -/

theorem fromConnectionString_good {s : String} (accepted : fromConnectionString build urls s = .ok b) : b.Good := by
  have parts : ∀ (parts : List String) (b₀ : Builder urls.Url), b₀.Good → (∀ part ∈ parts, ';' ∉ part.toList) →
      parts.foldlM (readPart build urls) b₀ = .ok b → b.Good := by
    intro parts
    induction parts with
    | nil =>
      intro b₀ good _ read
      cases read
      exact good
    | cons part rest ih =>
      intro b₀ good whole read
      rw [List.foldlM_cons] at read
      cases first : readPart build urls b₀ part with
      | error failure =>
        rw [first] at read
        cases read
      | ok b₁ =>
        rw [first] at read
        exact ih b₁ (readPart_good good (whole part (.head _)) first) (fun part member => whole part (.tail _ member)) read
  apply parts _ _ ?_ ?_ accepted
  · exact ⟨by simp, by simp, by simp, by simp, by simp⟩
  · intro part member
    obtain ⟨chars, piece, rfl⟩ := List.mem_map.mp member
    obtain ⟨first, rest, split, _, clean, others⟩ := splitOn_parts s.toList
    rw [split] at piece
    rw [String.toList_ofList]
    cases piece with
    | head => exact clean
    | tail _ piece => exact (others chars piece).2

/-- Everything but the timeout comes back as it was, if the endpoint can be written. -/
theorem fromConnectionString_of_display (lawful : urls.Lawful) (good : b.Good)
    (plain : ∀ u, b.endpoint = some u → ';' ∉ (urls.display u).toList) : fromConnectionString build urls b.display =
      (reread build b.operationTimeout).map fun timeout => { b with operationTimeout := timeout } := by
  have endpoints : ((written "Endpoint" (b.endpoint.map urls.display)).flatMap (Text.split ';')).foldlM (readPart build urls) {} =
      .ok { endpoint := b.endpoint } := by
    apply read_written names_endpoint
    · intro text same
      obtain ⟨u, held, rfl⟩ := Option.map_eq_some_iff.mp same
      obtain ⟨source, parsed⟩ := good.endpoint u held
      exact ⟨lawful.trimmed parsed, lawful.some_ parsed, plain u held⟩
    · intro none_
      rw [Option.map_eq_none_iff.mp none_]
    · intro text same
      obtain ⟨u, held, rfl⟩ := Option.map_eq_some_iff.mp same
      obtain ⟨source, parsed⟩ := good.endpoint u held
      rw [held]
      simp only [setKey, lawful.reparse parsed]
  have parts : b.parts = written "Endpoint" (b.endpoint.map urls.display) ++ b.rest := rfl
  rw [fromConnectionString_display, parts, List.flatMap_append, List.foldlM_append, endpoints, Timespan.ok_bind, read_rest good]

theorem reread_some (d : Duration) : reread build (some d) = (Timespan.parseTimespan build (Timespan.formatTimespan d)).map some := rfl

/-- Then only a timeout can get lost. -/
theorem roundTrips_of_plain (lawful : urls.Lawful) (good : b.Good)
    (plain : ∀ u, b.endpoint = some u → ';' ∉ (urls.display u).toList) :
    RoundTrips build b ↔ ∀ d, b.operationTimeout = some d → Kept d := by
  rw [RoundTrips, fromConnectionString_of_display lawful good plain]
  cases timeout : b.operationTimeout with
  | none =>
    have back : Option.Rel Near (none : Option Duration) none := .none
    exact ⟨fun _ => nofun, fun _ => ⟨_, rfl, rfl, rfl, rfl, rfl, rfl, rfl, back⟩⟩
  | some d =>
    have timespans := @Timespan.near_iff_kept build d
    rw [reread_some]
    constructor
    · intro back
      obtain ⟨b', read, -, -, -, -, -, -, near⟩ := back
      intro d' same
      obtain rfl := Option.some.inj same
      apply timespans.mp
      cases parsed : Timespan.parseTimespan build (Timespan.formatTimespan d) with
      | error failure =>
        rw [parsed] at read
        cases read
      | ok d' =>
        rw [parsed] at read
        cases read
        cases near with
        | some near => exact ⟨d', rfl, near⟩
    · intro kept
      obtain ⟨d', parsed, near⟩ := timespans.mpr (kept d rfl)
      rw [parsed]
      exact ⟨_, rfl, rfl, rfl, rfl, rfl, rfl, rfl, .some near⟩

/-- A connection string that was read comes back from its builder exactly if the endpoint is written
without a semicolon and the timeout without a carry into other seconds. -/
theorem roundTrips_iff (lawful : urls.Lawful) {s : String} (accepted : fromConnectionString build urls s = .ok b) :
    RoundTrips build b ↔ (∀ u, b.endpoint = some u → ';' ∉ (urls.display u).toList) ∧ ∀ d, b.operationTimeout = some d → Kept d := by
  have good := fromConnectionString_good accepted
  by_cases plain : ∀ u, b.endpoint = some u → ';' ∉ (urls.display u).toList
  · rw [roundTrips_of_plain lawful good plain]
    exact ⟨fun kept => ⟨plain, kept⟩, fun kept => kept.2⟩
  · constructor
    · intro back
      exfalso
      obtain ⟨b', read, same, _⟩ := back
      apply plain
      intro u held semicolon
      exact endpoint_lost lawful good held semicolon read (same.trans held)
    · intro kept
      exact absurd kept.1 plain

end Parts

/-! ### A carried fraction -/

def oneUrl : Urls where
  Url := Unit
  parse text := if text = "sb://ns" then .ok () else .error "relative URL without a base"
  display _ := "sb://ns"

theorem oneUrl_plain (u : oneUrl.Url) : ';' ∉ (oneUrl.display u).toList := by
  show ';' ∉ "sb://ns".toList
  decide

theorem oneUrl_lawful : oneUrl.Lawful where
  reparse _ := rfl
  some_ _ := show "sb://ns" ≠ "" by decide
  trimmed _ := show Text.trim "sb://ns" = "sb://ns" by decide
  whole {_ u _} _ semicolon := absurd semicolon (oneUrl_plain u)

def timeout (s : String) : Except Failure (Option (Nat × Nat)) :=
  (fromConnectionString .debug oneUrl s).map fun b => b.operationTimeout.map fun d => (d.secs, d.nanos)

theorem read_of_timeout {s : String} {secs nanos : Nat} (h : timeout s = .ok (some (secs, nanos))) :
    ∃ b d, fromConnectionString .debug oneUrl s = .ok b ∧ b.operationTimeout = some d ∧ d.secs = secs ∧ d.nanos = nanos := by
  unfold timeout at h
  cases read : fromConnectionString .debug oneUrl s with
  | error failure =>
    rw [read] at h
    cases h
  | ok b =>
    rw [read] at h
    have held : b.operationTimeout.map (fun d => (d.secs, d.nanos)) = some (secs, nanos) := Except.ok.inj h
    obtain ⟨d, same, pair⟩ := Option.map_eq_some_iff.mp held
    cases pair
    exact ⟨b, d, rfl, same, rfl, rfl⟩

theorem roundTrips_iff_half : ∃ b, fromConnectionString .debug oneUrl "Endpoint=sb://ns;OperationTimeout=60.5" = .ok b ∧
    (RoundTrips .debug b ↔ (∀ u, b.endpoint = some u → ';' ∉ (oneUrl.display u).toList) ∧
      ∀ d, b.operationTimeout = some d → Kept d) := by
  have read : timeout "Endpoint=sb://ns;OperationTimeout=60.5" = .ok (some (60, 500000000)) := by decide +kernel
  obtain ⟨b, d, accepted, _⟩ := read_of_timeout read
  exact ⟨b, accepted, roundTrips_iff oneUrl_lawful accepted⟩

/-- 59.99999999 seconds are written as 591 seconds. -/
theorem carry_lost : ¬ ∀ (urls : Urls) (build : Build) (s : String) (b : Builder urls.Url), urls.Lawful →
    fromConnectionString build urls s = .ok b → RoundTrips build b := by
  intro claim
  have read : timeout "Endpoint=sb://ns;OperationTimeout=59.99999999" = .ok (some (59, 999999990)) := by decide +kernel
  obtain ⟨b, d, accepted, held, secs, nanos⟩ := read_of_timeout read
  have plain : ∀ u, b.endpoint = some u → ';' ∉ (oneUrl.display u).toList := fun u _ => oneUrl_plain u
  have back := claim oneUrl .debug _ b oneUrl_lawful accepted
  have kept := (roundTrips_of_plain oneUrl_lawful (fromConnectionString_good accepted) plain).mp back d held
  unfold Kept at kept
  omega

end Azbridge.ConnectionString
