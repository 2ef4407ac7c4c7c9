import Azbridge.Arm.Naming
import Azbridge.Broker.Managed
import Azbridge.Broker.Scripts
import Azbridge.Lib.Table
import Azbridge.Runtime.Preflight

/-!
# Managed gateways

What a gateway checks of the profile that its broker serves before it starts, and the token providers
that it sets up for the relays. The broker has checked the same profile when it was published.
-/

namespace Azbridge.Runtime.Bootstrap
open Broker (App Uuid RelayRight)
open Broker.Gateways (GatewayConfigResponse relayEndpoint)
open Broker.Profiles (parseManagedConfig normalized checked managedErrors)
open Broker.Administration (namespaceOf slug)
open Broker.Workspaces (validConnectionName)
open Sas (Libraries BrokerTokenProvider buildRelayAddress)
open Text (okOr)

/-- What is read of the `url::Url` of an endpoint. -/
structure Origin extends Sas.Url where
  scheme : String
  username : String
  password : Option String
  query : Option String
  fragment : Option String
  deriving DecidableEq, Repr

structure Endpoints where
  libs : Libraries
  /-- `url::Url::parse`, as is `libs.parseUrl`. -/
  parse : String → Option Origin
  reads : ∀ text, libs.parseUrl text = (parse text).map (·.toUrl)
  parseIp : String → Option IpAddr
  /-- `str::to_lowercase`. -/
  lowercase : String → String

inductive Failure where
  /-- "Broker profile must not contain Relay credentials or endpoint overrides". -/
  | overrides
  /-- "Broker returned an invalid Relay endpoint". -/
  | invalidEndpoint
  /-- "Broker profile has no forwarding rules". -/
  | noRules
  | config (e : ConfigError)
  /-- "Managed Host must not contain local Relay credentials". -/
  | credentials
  /-- "Managed Host needs a Relay endpoint". -/
  | noEndpoint
  /-- "Managed Relay endpoint must be an sb/wss origin (loopback ws is allowed for development)". -/
  | notOrigin
  /-- There is no address or no token provider for a relay of this name. -/
  | relay (name : String)
  deriving DecidableEq, Repr

def require (condition : Bool) (e : Failure) : Except Failure Unit := if condition then .ok () else .error e

/-- Some field holds a credential of the Relay. -/
def hasCredentials (config : Config) : Bool :=
  config.azureRelayConnectionString.isSome || config.azureRelaySharedAccessKeyName.isSome ||
    config.azureRelaySharedAccessKey.isSome || config.azureRelaySharedAccessSignature.isSome ||
    config.localForward.any (·.connectionString.isSome) || config.remoteForward.any (·.connectionString.isSome)

def validateManagedConfig (config : Config) : Except Failure Unit :=
  require (!(hasCredentials config || config.azureRelayEndpoint.isSome || config.logFileName.isSome || config.logLevel.isSome))
    .overrides

section Gateway
variable (e : Endpoints)

def validate (config : Config) : Except Failure Unit :=
  match config.validate e.lowercase with
  | .ok () => .ok ()
  | .error failed => .error (.config failed)

/-- What the gateway makes of the broker's answer. -/
def bootstrap (response : GatewayConfigResponse) : Except Failure Config := do
  validateManagedConfig response.config
  let _ ← okOr (e.parse response.relayEndpoint) .invalidEndpoint
  require (!(response.config.localForward.isEmpty && response.config.remoteForward.isEmpty)) .noRules
  let config := { normalized response.config with azureRelayEndpoint := some response.relayEndpoint }
  validate e config
  return config

/-! ### The host -/

structure Host where
  config : Config
  providers : Table (String × RelayRight) BrokerTokenProvider

def Host.new (config : Config) : Host := ⟨config, .empty⟩

structure RelayCredentials where
  scheme : String
  address : Sas.Url
  provider : BrokerTokenProvider

def bracket (c : Char) : Bool := c == '[' || c == ']'

/-- Brackets are trimmed, as they stand around an IPv6 address. -/
def isLoopback (endpoint : Origin) : Bool :=
  endpoint.host.any fun host => Text.eqIgnoreAsciiCase host "localhost" ||
    (e.parseIp (String.ofList (((host.toList.dropWhile bracket).reverse.dropWhile bracket).reverse))).any IpAddr.isLoopback

def isOrigin (endpoint : Origin) : Bool :=
  ["sb", "wss", "ws"].contains endpoint.scheme && endpoint.host.isSome && endpoint.username.isEmpty &&
    endpoint.password.isNone && endpoint.query.isNone && endpoint.fragment.isNone &&
    (endpoint.path == "/" || endpoint.path.isEmpty) && !(endpoint.scheme == "ws" && !isLoopback e endpoint)

/-- A relay has one provider for each right, whichever forwards name it. -/
def credentials (host : Host) (relay : String) (right : RelayRight) : Except Failure (RelayCredentials × Host) := do
  let endpoint ← okOr (host.config.azureRelayEndpoint.bind e.parse) .invalidEndpoint
  let address ← okOr (buildRelayAddress e.libs endpoint.toUrl relay) (.relay relay)
  let scheme := if endpoint.scheme == "ws" && isLoopback e endpoint then "ws" else "wss"
  match host.providers.get (relay, right) with
  | some provider => return (⟨scheme, address, provider⟩, host)
  | none =>
    let provider ← okOr (BrokerTokenProvider.new e.libs endpoint.toUrl relay right) (.relay relay)
    return (⟨scheme, address, provider⟩, { host with providers := host.providers.set (relay, right) provider })

/-- Every scope is validated, even if a binding is later skipped. -/
def scopes (right : RelayRight) (host : Host) (relays : List String) : Except Failure Host :=
  relays.foldlM (fun host relay => do
    let (_, host) ← credentials e host relay right
    return host) host

def withBroker (config : Config) : Except Failure Host := do
  validate e config
  require (!hasCredentials config) .credentials
  let text ← okOr config.azureRelayEndpoint .noEndpoint
  let endpoint ← okOr (e.parse text) .invalidEndpoint
  require (isOrigin e endpoint) .notOrigin
  let host ← scopes e .send (.new config) (config.localForward.map (·.relayName))
  scopes e .listen host (config.remoteForward.map (·.relayName))

def start (response : GatewayConfigResponse) : Except Failure Host := do
  withBroker e (← bootstrap e response)

end Gateway

/-- A configuration without what a gateway refuses in a broker's. -/
structure Free (config : Config) : Prop where
  credentials : hasCredentials config = false
  endpoint : config.azureRelayEndpoint = none
  logs : config.logFileName = none ∧ config.logLevel = none
  rules : (config.localForward.isEmpty && config.remoteForward.isEmpty) = false
  normal : normalized config = config

theorem normalized_normalized (config : Config) : normalized (normalized config) = normalized config := by
  unfold normalized
  simp only [List.map_map]
  have locals : (LocalForward.normalize ∘ LocalForward.normalize) = LocalForward.normalize := funext LocalForward.normalize_normalize
  have remotes : (RemoteForward.normalize ∘ RemoteForward.normalize) = RemoteForward.normalize := funext RemoteForward.normalize_normalize
  show Config.mk _ _ _ _ _ _ _ _ _ _ _ _ _ _ _ _ _ = _
  rw [locals, remotes]

theorem free_of_parse {app : App} {yaml : String} {config : Config} (h : parseManagedConfig app yaml = .ok config) : Free config := by
  obtain ⟨read, raw, clean, rfl⟩ := Broker.Profiles.clean_of_parse h
  have absent : ∀ field value, (field, value) ∈ Broker.Profiles.forbiddenFields read → value = false :=
    fun field value member => clean.forbidden (field, value) member
  simp only [Broker.Profiles.forbiddenFields, List.mem_cons, List.not_mem_nil, or_false, Prod.mk.injEq] at absent
  have locals : (normalized read).localForward.any (·.connectionString.isSome) = false := by
    rw [List.any_eq_false]
    intro forward member
    obtain ⟨raw', there, rfl⟩ := List.mem_map.mp member
    obtain ⟨index, errors⟩ := clean.locals raw' there
    simp only [Broker.Profiles.localErrors, List.append_eq_nil_iff, Broker.Profiles.errorIf_eq_nil, Bool.or_eq_false_iff] at errors
    simp [errors.1.1.1.1]
  have remotes : (normalized read).remoteForward.any (·.connectionString.isSome) = false := by
    rw [List.any_eq_false]
    intro forward member
    obtain ⟨raw', there, rfl⟩ := List.mem_map.mp member
    obtain ⟨index, errors⟩ := clean.remotes raw' there
    simp only [Broker.Profiles.remoteErrors, List.append_eq_nil_iff, Broker.Profiles.errorIf_eq_nil, Bool.or_eq_false_iff] at errors
    simp [errors.1.1.1]
  have connectionString : read.azureRelayConnectionString.isSome = false := absent _ _ (.inl ⟨rfl, rfl⟩)
  have endpoint : read.azureRelayEndpoint.isSome = false := absent _ _ (.inr (.inl ⟨rfl, rfl⟩))
  have keyName : read.azureRelaySharedAccessKeyName.isSome = false := absent _ _ (.inr (.inr (.inl ⟨rfl, rfl⟩)))
  have key : read.azureRelaySharedAccessKey.isSome = false := absent _ _ (.inr (.inr (.inr (.inl ⟨rfl, rfl⟩))))
  have signature : read.azureRelaySharedAccessSignature.isSome = false := absent _ _ (.inr (.inr (.inr (.inr (.inl ⟨rfl, rfl⟩)))))
  have logFile : read.logFileName.isSome = false := absent _ _ (.inr (.inr (.inr (.inr (.inr (.inl ⟨rfl, rfl⟩))))))
  have logLevel : read.logLevel.isSome = false := absent _ _ (.inr (.inr (.inr (.inr (.inr (.inr ⟨rfl, rfl⟩))))))
  have unset : ∀ {α : Type} {value : Option α}, value.isSome = false → value = none := by
    intro α value none_
    exact Option.isNone_iff_eq_none.mp (Option.isSome_eq_false_iff.mp none_)
  refine ⟨?_, unset endpoint, ⟨unset logFile, unset logLevel⟩, ?_, normalized_normalized read⟩
  · unfold hasCredentials
    rw [locals, remotes]
    simp [normalized, connectionString, keyName, key, signature]
  · simpa [normalized] using clean.rules

/-! ### What the gateway finds -/

/-- No binding goes without a port. -/
def Ported (config : Config) : Prop :=
  (∀ forward ∈ config.localForward, ∀ binding ∈ forward.bindings, binding.bindPort ≠ 0) ∧
    ∀ forward ∈ config.remoteForward, ∀ binding ∈ forward.bindings, binding.hostPort ≠ 0

/-- The validator accepts what the broker accepted where it was not helped with a port. -/
theorem validate_iff {lowercase : String → String} {config : Config} (managed : Broker.Profiles.Managed lowercase config)
    (endpoint : Option String) :
    ({ config with azureRelayEndpoint := endpoint }).validate lowercase = .ok () ↔ Ported config := by
  have valid := managed.valid
  unfold Config.validate at valid ⊢
  rw [Config.validateWithFile_ok] at valid ⊢
  constructor
  · intro accepted
    constructor
    · intro forward member binding bound
      have each := Config.validateLocal_ok.mp (accepted.forwards.1 forward member)
      exact (each.2 binding bound).1
    · intro forward member binding bound
      have each := Config.validateRemote_ok.mp (accepted.forwards.2 forward member)
      exact (each.2 binding bound).1
  · rintro ⟨locals, remotes⟩
    refine ⟨valid.addressFamily, valid.attempts, valid.timeout, ?_, ?_⟩
    · intro forward member
      have each := Config.validateLocal_ok.mp (valid.forwards.1 _ (List.mem_map_of_mem member))
      refine Config.validateLocal_ok.mpr ⟨each.1, ?_⟩
      intro binding bound
      have port := each.2 _ (List.mem_map_of_mem bound)
      have given := locals forward member binding bound
      have same : Broker.Profiles.checkedLocal binding = binding := by
        unfold Broker.Profiles.checkedLocal
        rw [if_neg (by simp [given])]
      rwa [same] at port
    · intro forward member
      have each := Config.validateRemote_ok.mp (valid.forwards.2 _ (List.mem_map_of_mem member))
      refine Config.validateRemote_ok.mpr ⟨each.1, ?_⟩
      intro binding bound
      have port := each.2 _ (List.mem_map_of_mem bound)
      have given := remotes forward member binding bound
      have same : Broker.Profiles.checkedRemote binding = binding := by
        unfold Broker.Profiles.checkedRemote
        rw [if_neg (by simp [given])]
      rwa [same] at port

section Accepts
variable {e : Endpoints}

theorem validate_eq_ok {config : Config} : validate e config = .ok () ↔ config.validate e.lowercase = .ok () := by
  unfold validate
  split
  · next valid => simp [valid]
  · next invalid => simp [invalid]

theorem require_eq_ok {condition : Bool} {failure : Failure} : require condition failure = .ok () ↔ condition = true := by
  cases condition <;> simp [require]

/-- What is known of `url::Url::parse` at the addresses of a namespace. -/
structure ReadsNamespaces (e : Endpoints) : Prop where
  paths : Arm.KeepsPaths e.libs
  /-- The origin of a host of letters, digits, hyphens and dots. -/
  origin : ∀ host : String, host ≠ "" → (∀ c ∈ host.toList, c.isAlphanum = true ∨ c ∈ ['-', '.']) →
    e.parse ("sb://" ++ host ++ "/") = some ⟨⟨some host, none, "/"⟩, "sb", "", none, none, none⟩
  /-- A first label that begins with `azb-` is not in Punycode, and a last one of letters is not a number. -/
  domain : ∀ label : String, (∀ c ∈ label.toList, Arm.NamespaceChar c) →
    ∃ root, e.libs.parseUrl ("wss://" ++ ("azb-" ++ label ++ ".servicebus.windows.net" ++ ":" ++ toString 443) ++ "/") = some root

theorem known_host (known : ReadsNamespaces e) {label : String} (chars : ∀ c ∈ label.toList, Arm.NamespaceChar c) :
    ∃ endpoint, e.parse (relayEndpoint ("azb-" ++ label)) = some endpoint ∧ isOrigin e endpoint = true ∧
      Arm.Connectable e.libs endpoint.toUrl := by
  let host := "azb-" ++ label ++ ".servicebus.windows.net"
  have fits : ∀ c ∈ host.toList, c.isAlphanum = true ∨ c ∈ ['-', '.'] := by
    intro c member
    rw [String.toList_append, String.toList_append, List.mem_append, List.mem_append] at member
    have first : ∀ c ∈ "azb-".toList, c.isAlphanum = true ∨ c ∈ ['-', '.'] := Text.forall_mem_of_all (by decide)
    have last : ∀ c ∈ ".servicebus.windows.net".toList, c.isAlphanum = true ∨ c ∈ ['-', '.'] := Text.forall_mem_of_all (by decide)
    obtain (inFirst | inLabel) | inLast := member
    · exact first c inFirst
    · exact (chars c inLabel).imp_right fun dash => List.mem_cons.mpr (.inl dash)
    · exact last c inLast
  have some_ : host ≠ "" := by
    intro empty
    have lists := congrArg String.toList empty
    simp [host] at lists
  have text : relayEndpoint ("azb-" ++ label) = "sb://" ++ host ++ "/" := by
    unfold relayEndpoint
    rw [show ".servicebus.windows.net/" = ".servicebus.windows.net" ++ "/" by decide]
    simp only [host, String.append_assoc]
  obtain ⟨root, parsed⟩ := known.domain label chars
  refine ⟨_, (congrArg e.parse text).trans (known.origin host some_ fits), rfl, host, root, rfl, ?_, parsed⟩
  intro c member special
  have fit := fits c member
  simp only [List.mem_cons, List.not_mem_nil, or_false] at special
  obtain rfl | rfl | rfl | rfl := special <;> exact absurd fit (by decide)

theorem credentials_ok {host : Host} {endpoint : Origin} (given : host.config.azureRelayEndpoint.bind e.parse = some endpoint)
    (paths : Arm.KeepsPaths e.libs) (connectable : Arm.Connectable e.libs endpoint.toUrl) {relay : String}
    (accepted : Arm.Accepted relay) (right : RelayRight) :
    ∃ found host', credentials e host relay right = .ok (found, host') ∧ host'.config = host.config := by
  obtain ⟨address, built, _⟩ := accepted.address paths connectable
  have provided : BrokerTokenProvider.new e.libs endpoint.toUrl relay right =
      some ⟨relay, right, Sas.normalizeAudience e.libs address⟩ := by
    rw [accepted.scope, built]
    rfl
  unfold credentials
  rw [given]
  cases held : host.providers.get (relay, right) with
  | some provider =>
    let scheme := if endpoint.scheme == "ws" && isLoopback e endpoint then "ws" else "wss"
    refine ⟨⟨scheme, address, provider⟩, host, ?_, rfl⟩
    show (okOr (buildRelayAddress e.libs endpoint.toUrl relay) (Failure.relay relay) >>= _) = _
    rw [built]
    rfl
  | none =>
    let provider : BrokerTokenProvider := ⟨relay, right, Sas.normalizeAudience e.libs address⟩
    let scheme := if endpoint.scheme == "ws" && isLoopback e endpoint then "ws" else "wss"
    refine ⟨⟨scheme, address, provider⟩, { host with providers := host.providers.set (relay, right) provider }, ?_, rfl⟩
    show (okOr (buildRelayAddress e.libs endpoint.toUrl relay) (Failure.relay relay) >>= _) = _
    rw [built]
    show (okOr (BrokerTokenProvider.new e.libs endpoint.toUrl relay right) (Failure.relay relay) >>= _) = _
    rw [provided]
    rfl

theorem scopes_ok {endpoint : Origin} (paths : Arm.KeepsPaths e.libs) (connectable : Arm.Connectable e.libs endpoint.toUrl)
    (right : RelayRight) {relays : List String} (accepted : ∀ relay ∈ relays, Arm.Accepted relay) {host : Host}
    (given : host.config.azureRelayEndpoint.bind e.parse = some endpoint) :
    ∃ host', scopes e right host relays = .ok host' ∧ host'.config = host.config := by
  induction relays generalizing host with
  | nil => exact ⟨host, rfl, rfl⟩
  | cons relay rest ih =>
    obtain ⟨found, next, stepped, same⟩ := credentials_ok given paths connectable (accepted relay (.head _)) right
    have given' : next.config.azureRelayEndpoint.bind e.parse = some endpoint := by rw [same, given]
    obtain ⟨last, ended, kept⟩ := ih (fun other later => accepted other (.tail _ later)) given'
    refine ⟨last, ?_, kept.trans same⟩
    show (credentials e host relay right >>= _) >>= _ = _
    rw [stepped]
    exact ended

/-- A gateway whose broker accepted this profile, for relays that it created, starts with it exactly if no binding goes
without a port. -/
theorem gateway_starts_iff {app : App} (known : ReadsNamespaces e) (same : e.lowercase = app.lowercase) {yaml : String}
    {config : Config} (parsed : parseManagedConfig app yaml = .ok config)
    (created : ∀ relay ∈ config.relayNames, validConnectionName relay = true) (name : String) (u : Uuid) (revision : Nat) :
    (∃ host, start e ⟨revision, relayEndpoint (namespaceOf name u), config⟩ = .ok host) ↔ Ported config := by
  unfold namespaceOf
  have free := free_of_parse parsed
  have managed := Broker.Profiles.managed_of_parse parsed
  rw [← same] at managed
  have chars : ∀ c ∈ (slug name ++ "-" ++ u.simple).toList, Arm.NamespaceChar c := by
    intro c member
    rw [String.toList_append, String.toList_append, List.mem_append, List.mem_append] at member
    obtain (inSlug | inDash) | inUuid := member
    · exact Arm.slug_chars name c inSlug
    · exact .inr (List.mem_singleton.mp inDash)
    · exact .inl (Arm.simple_chars u inUuid)
  obtain ⟨endpoint, read, origin, connectable⟩ := known_host known chars
  rw [← String.append_assoc, ← String.append_assoc] at read
  let text := relayEndpoint ("azb-" ++ slug name ++ "-" ++ u.simple)
  let served : Config := { config with azureRelayEndpoint := some text }
  have checks : validateManagedConfig config = .ok () := by
    unfold validateManagedConfig
    rw [require_eq_ok, free.credentials, free.endpoint, free.logs.1, free.logs.2]
    rfl
  have bootstraps : bootstrap e ⟨revision, text, config⟩ = (validate e served >>= fun _ => .ok served) := by
    unfold bootstrap
    rw [checks, read, free.rules, free.normal]
    rfl
  have accepted : ∀ relay ∈ config.relayNames, Arm.Accepted relay := fun relay member => (Arm.accepted_of_valid (created relay member)).1
  unfold start
  rw [bootstraps]
  constructor
  · rintro ⟨host, started⟩
    obtain ⟨_, first, _⟩ := Fallible.bind_eq_ok.mp started
    obtain ⟨_, valid, _⟩ := Fallible.bind_eq_ok.mp first
    exact (validate_iff managed _).mp (validate_eq_ok.mp valid)
  · intro ported
    have valid : validate e served = .ok () := validate_eq_ok.mpr ((validate_iff managed _).mpr ported)
    have uncredentialed : hasCredentials served = false := free.credentials
    have given : (Host.new served).config.azureRelayEndpoint.bind e.parse = some endpoint := read
    obtain ⟨sender, sends, kept⟩ := scopes_ok known.paths connectable .send
      (fun relay member => accepted relay (List.mem_append_left _ member)) given
    have given' : sender.config.azureRelayEndpoint.bind e.parse = some endpoint := by rw [kept, given]
    obtain ⟨listener, listens, _⟩ := scopes_ok known.paths connectable .listen
      (fun relay member => accepted relay (List.mem_append_right _ member)) given'
    refine ⟨listener, ?_⟩
    rw [valid]
    show withBroker e served = _
    unfold withBroker
    rw [valid, uncredentialed]
    show (okOr (e.parse text) Failure.invalidEndpoint >>= _) = _
    rw [read]
    show (require (isOrigin e endpoint) .notOrigin >>= _) = _
    rw [origin]
    show (scopes e .send (.new served) _ >>= _) = _
    rw [sends]
    exact listens

end Accepts

/-! ### A local gateway -/

/-- Reads `sb` origins too. -/
def plainParse (text : String) : Option Origin :=
  match Text.stripPrefix "sb://" text with
  | some rest => (Text.splitOnce '/' rest).map fun (host, path) => ⟨⟨some host, none, "/" ++ path⟩, "sb", "", none, none, none⟩
  | none => (Arm.plainUrls.parseUrl text).map fun url => ⟨url, "wss", "", none, none, none⟩

def plainEndpoints : Endpoints where
  libs := { Arm.plainUrls with parseUrl := fun text => (plainParse text).map (·.toUrl) }
  parse := plainParse
  reads _ := rfl
  parseIp _ := none
  lowercase := Text.toAsciiLowercase

theorem plainParse_wss (rest : String) : plainEndpoints.libs.parseUrl ("wss://" ++ rest) = Arm.plainUrls.parseUrl ("wss://" ++ rest) := by
  have other : Text.stripPrefix "sb://" ("wss://" ++ rest) = none := by
    unfold Text.stripPrefix
    rw [String.toList_append]
    rfl
  show (plainParse ("wss://" ++ rest)).map _ = _
  unfold plainParse
  rw [other]
  cases Arm.plainUrls.parseUrl ("wss://" ++ rest) <;> rfl

theorem plainEndpoints_reads : ReadsNamespaces plainEndpoints := by
  refine ⟨⟨?_⟩, ?_, ?_⟩
  · intro authority root segments clean parsed some_ plain
    rw [String.append_assoc, plainParse_wss, ← String.append_assoc] at parsed
    have kept := Arm.plainUrls_keepsPaths.kept authority root segments clean parsed some_ plain
    rw [String.append_assoc, String.append_assoc, plainParse_wss, ← String.append_assoc, ← String.append_assoc]
    exact kept
  · intro host _ chars
    have slash : '/' ∉ host.toList := fun member => absurd (chars '/' member) (by decide)
    have cut : Text.splitOnce '/' (host ++ "/" ++ "") = some (host, "") := Text.splitOnce_between _ (by rfl) slash
    rw [String.append_empty] at cut
    show plainParse _ = _
    unfold plainParse
    rw [String.append_assoc, Text.stripPrefix_append]
    dsimp only
    rw [cut]
    rfl
  · intro label chars
    have slash : '/' ∉ ("azb-" ++ label ++ ".servicebus.windows.net" ++ ":" ++ toString 443).toList := by
      intro member
      obtain inHost | colon | digit := Arm.mem_authority member
      · rw [String.toList_append, String.toList_append, List.mem_append, List.mem_append] at inHost
        obtain (inFirst | inLabel) | inLast := inHost
        · exact absurd inFirst (by decide)
        · exact absurd (chars '/' inLabel) (by unfold Arm.NamespaceChar; decide)
        · exact absurd inLast (by decide)
      · exact absurd colon (by decide)
      · exact absurd digit (by decide)
    have read := Arm.plainUrls_read slash ""
    rw [String.append_empty] at read
    rw [String.append_assoc, plainParse_wss, ← String.append_assoc, read]
    split
    · exact ⟨_, rfl⟩
    · exact ⟨_, rfl⟩

def localConfig : Config := { remoteForward := [{ relayName := "r", bindings := [{ hostPort := 80 }] }] }

/-- A remote forward with a port. -/
theorem gateway_starts_iff_port : ∃ host, start plainEndpoints ⟨1, relayEndpoint "azb-w-11111111111111111111111111111111", localConfig⟩ = .ok host := by
  have parsed : parseManagedConfig Broker.localApp Broker.localYaml = .ok localConfig := by decide
  have starts := gateway_starts_iff plainEndpoints_reads rfl parsed (by decide) "w" (Broker.uniform '1' (by decide)) 1
  exact starts.mpr (by unfold Ported; decide)

def socketYaml : String := "RemoteForward:\n- RelayName: r\n  LocalSocket: /run/app.sock\n"

def socketApp : App :=
  { Broker.localApp with
    yaml := {
      config := fun text => if text = socketYaml then
        some ({ remoteForward := [{ relayName := "r", localSocket := some "/run/app.sock" }] }, []) else none
      value := fun text => if text = socketYaml then
        some (.mapping [("RemoteForward", .sequence [.mapping [("RelayName", .scalar "r"), ("LocalSocket", .scalar "/run/app.sock")]])]) else none } }

def socketConfig : Config := { remoteForward := [{ relayName := "r", bindings := [{ localSocket := some "/run/app.sock" }] }] }

/-- The broker accepts the socket without a port, and the gateway does not. -/
theorem login_socket_refused : parseManagedConfig socketApp socketYaml = .ok socketConfig ∧
    (∀ relay ∈ socketConfig.relayNames, validConnectionName relay = true) ∧
    ¬ ∃ host, start plainEndpoints ⟨1, relayEndpoint "azb-w-11111111111111111111111111111111", socketConfig⟩ = .ok host := by
  refine ⟨by decide, by decide, ?_⟩
  rintro ⟨host, started⟩
  have refused : bootstrap plainEndpoints ⟨1, relayEndpoint "azb-w-11111111111111111111111111111111", socketConfig⟩ =
      .error (.config ⟨"<unknown>", "host_port must be in -65535..=65535 and not 0, got 0"⟩) := by decide +kernel
  unfold start at started
  rw [refused] at started
  cases started

end Azbridge.Runtime.Bootstrap
