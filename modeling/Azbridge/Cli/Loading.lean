import Azbridge.Cli.Expressions

/-!
# Loading the configuration

The layers of the configuration, the flags of the command line over them, and the bootstrap that
validates the result in local mode.
-/

namespace Azbridge

/-! ### Merging -/

/-- Another configuration over this one: what it sets, and its forwards after those there are unless
it clears them. -/
def Config.merge (self other : Config) : Config :=
  let clear := other.clearAllForwardings == some true
  { addressFamily := other.addressFamily.or self.addressFamily
    azureRelayConnectionString := other.azureRelayConnectionString.or self.azureRelayConnectionString
    azureRelayEndpoint := other.azureRelayEndpoint.or self.azureRelayEndpoint
    azureRelaySharedAccessKeyName := other.azureRelaySharedAccessKeyName.or self.azureRelaySharedAccessKeyName
    azureRelaySharedAccessKey := other.azureRelaySharedAccessKey.or self.azureRelaySharedAccessKey
    azureRelaySharedAccessSignature := other.azureRelaySharedAccessSignature.or self.azureRelaySharedAccessSignature
    bindAddress := other.bindAddress.or self.bindAddress
    clearAllForwardings := other.clearAllForwardings.or self.clearAllForwardings
    connectionAttempts := other.connectionAttempts.or self.connectionAttempts
    connectTimeout := other.connectTimeout.or self.connectTimeout
    exitOnForwardFailure := other.exitOnForwardFailure.or self.exitOnForwardFailure
    gatewayPorts := other.gatewayPorts.or self.gatewayPorts
    keepAliveInterval := other.keepAliveInterval.or self.keepAliveInterval
    logLevel := other.logLevel.or self.logLevel
    logFileName := other.logFileName.or self.logFileName
    localForward := (if clear then [] else self.localForward) ++ other.localForward
    remoteForward := (if clear then [] else self.remoteForward) ++ other.remoteForward }

namespace Loading

/-- The options that a layer may leave open. -/
inductive Field : Type → Type where
  | addressFamily : Field String
  | azureRelayConnectionString : Field String
  | azureRelayEndpoint : Field String
  | azureRelaySharedAccessKeyName : Field String
  | azureRelaySharedAccessKey : Field String
  | azureRelaySharedAccessSignature : Field String
  | bindAddress : Field String
  | clearAllForwardings : Field Bool
  | connectionAttempts : Field Nat
  | connectTimeout : Field Nat
  | exitOnForwardFailure : Field Bool
  | gatewayPorts : Field Bool
  | keepAliveInterval : Field Nat
  | logLevel : Field String
  | logFileName : Field String

def Field.get {α : Type} : Field α → Config → Option α
  | .addressFamily, config => config.addressFamily
  | .azureRelayConnectionString, config => config.azureRelayConnectionString
  | .azureRelayEndpoint, config => config.azureRelayEndpoint
  | .azureRelaySharedAccessKeyName, config => config.azureRelaySharedAccessKeyName
  | .azureRelaySharedAccessKey, config => config.azureRelaySharedAccessKey
  | .azureRelaySharedAccessSignature, config => config.azureRelaySharedAccessSignature
  | .bindAddress, config => config.bindAddress
  | .clearAllForwardings, config => config.clearAllForwardings
  | .connectionAttempts, config => config.connectionAttempts
  | .connectTimeout, config => config.connectTimeout
  | .exitOnForwardFailure, config => config.exitOnForwardFailure
  | .gatewayPorts, config => config.gatewayPorts
  | .keepAliveInterval, config => config.keepAliveInterval
  | .logLevel, config => config.logLevel
  | .logFileName, config => config.logFileName

def merged (layers : List Config) : Config := layers.foldl Config.merge {}

/-- A layer that drops the forwards of those before it. -/
def clears (layer : Config) : Bool := layer.clearAllForwardings == some true

/-- The last layer that clears and those after it, or all layers where none clears. -/
def sinceClear : List Config → List Config
  | [] => []
  | layer :: rest => if rest.any clears then sinceClear rest else layer :: rest

theorem sinceClear_of_none {layers : List Config} (none_ : layers.any clears = false) : sinceClear layers = layers := by
  cases layers with
  | nil => rfl
  | cons layer rest =>
    rw [List.any_cons, Bool.or_eq_false_iff] at none_
    rw [sinceClear, none_.2]
    rfl

theorem sinceClear_of_last {before after : List Config} {last : Config} (clear : clears last = true)
    (none_ : after.any clears = false) : sinceClear (before ++ last :: after) = last :: after := by
  induction before with
  | nil =>
    rw [List.nil_append, sinceClear, none_]
    rfl
  | cons layer rest ih => simp [sinceClear, ih, clear]

theorem merged_append (layers : List Config) (last : Config) : merged (layers ++ [last]) = (merged layers).merge last := by
  simp [merged]

theorem get_merge {α : Type} (field : Field α) (self other : Config) :
    field.get (self.merge other) = (field.get other).or (field.get self) := by
  cases field <;> rfl

theorem get_merged {α : Type} (field : Field α) (layers : List Config) :
    field.get (merged layers) = layers.reverse.findSome? field.get := by
  induction layers using List.reverseRecOn with
  | nil => cases field <;> rfl
  | append_singleton layers last ih =>
    rw [merged_append, get_merge, ih, List.reverse_append, List.reverse_singleton, List.singleton_append, List.findSome?_cons]
    cases field.get last <;> rfl

theorem sinceClear_append (layers : List Config) (last : Config) :
    sinceClear (layers ++ [last]) = if clears last then [last] else sinceClear layers ++ [last] := by
  induction layers with
  | nil => simp [sinceClear]
  | cons layer rest ih =>
    rw [List.cons_append, sinceClear, ih, sinceClear, List.any_append]
    cases cleared : clears last with
    | true => simp [cleared]
    | false =>
      simp only [List.any_cons, List.any_nil, Bool.or_false, Bool.false_eq_true, if_false, cleared]
      split
      · rfl
      · rfl

theorem forwards_merged (layers : List Config) : (merged layers).localForward = (sinceClear layers).flatMap (·.localForward) ∧
    (merged layers).remoteForward = (sinceClear layers).flatMap (·.remoteForward) := by
  induction layers using List.reverseRecOn with
  | nil => exact ⟨rfl, rfl⟩
  | append_singleton layers last ih =>
    rw [merged_append, sinceClear_append]
    unfold Config.merge
    dsimp only
    rw [ih.1, ih.2]
    cases cleared : clears last with
    | true =>
      have same : (last.clearAllForwardings == some true) = true := cleared
      simp [same]
    | false =>
      have same : (last.clearAllForwardings == some true) = false := cleared
      simp [same]

/-- Each option has the value of the last layer that sets it, and the forwards are those of the last layer
that clears and of the layers after it. -/
theorem merged_layers (layers : List Config) :
    (∀ (α : Type) (field : Field α), field.get (merged layers) = layers.reverse.findSome? field.get) ∧
      (merged layers).localForward = (sinceClear layers).flatMap (·.localForward) ∧
      (merged layers).remoteForward = (sinceClear layers).flatMap (·.remoteForward) :=
  ⟨fun _ field => get_merged field layers, forwards_merged layers⟩

/-! ### The sources of a configuration -/

/-- `ConfigError`, as it comes out of the loader. -/
inductive LoadError where
  | io (message : String)
  | yaml (message : String)
  | validation (error : ConfigError)
  deriving DecidableEq, Repr

/-- What the loader finds on the machine, with `serde_yaml::from_str`. -/
structure Machine where
  machineConfigPath : Option String
  userConfigPath : Option String
  /-- The contents of a file that is there. -/
  readFile : String → Option (Except String String)
  fromYaml : String → Except String Config
  /-- `AZURE_BRIDGE_CONNECTIONSTRING` -/
  connectionStringVariable : Option String

/-- The options of the command line that the loader reads. -/
structure Cli where
  configFile : Option String := none
  endpointUri : Option String := none
  connectionString : Option String := none
  sharedAccessKeyName : Option String := none
  sharedAccessKey : Option String := none
  signature : Option String := none
  localForward : List String := []
  remoteForward : List String := []
  remoteForwardLegacy : List String := []
  remoteHttpForward : List String := []
  logFile : Option String := none
  quiet : Bool := false
  verbose : Nat := 0
  gatewayPorts : Bool := false
  bindAddress : Option String := none
  option : List String := []
  keepAliveInterval : Option Nat := none

open Expressions

/-- The expressions of a flag, in their order. -/
def Cli.given (cli : Cli) : Flag → List String
  | .localForward => cli.localForward
  | .remoteForward => cli.remoteForward
  | .remoteForwardLegacy => cli.remoteForwardLegacy
  | .remoteHttpForward => cli.remoteHttpForward

/-- `None` where the file is not there. -/
def loadConfigFile (machine : Machine) (path : String) : Except LoadError (Option Config) :=
  match machine.readFile path with
  | none => .ok none
  | some (.error message) => .error (.io message)
  | some (.ok content) =>
    match machine.fromYaml content with
    | .error message => .error (.yaml message)
    | .ok config => .ok (some config)

def mergeFile (machine : Machine) (config : Config) : Option String → Except LoadError Config
  | none => .ok config
  | some path => do
    match ← loadConfigFile machine path with
    | some layer => return config.merge layer
    | none => return config

/-- `str::replacen(':', ": ", 1)`. -/
def optionYaml (opt : String) : String :=
  match Text.splitOnce ':' opt with
  | some (key, value) => key ++ ": " ++ value
  | none => opt

def mergeOption (machine : Machine) (config : Config) (opt : String) : Except LoadError Config :=
  match machine.fromYaml (optionYaml opt) with
  | .error message => .error (.validation ⟨"<-o option>", "invalid option '" ++ opt ++ "': " ++ message⟩)
  | .ok layer => .ok (config.merge layer)

/-- The machine's file, the file of `-f` or of the user, and the options of `-o`. -/
def loadLayers (machine : Machine) (cli : Cli) : Except LoadError Config := do
  let config ← mergeFile machine {} machine.machineConfigPath
  let config ← mergeFile machine config (cli.configFile.or machine.userConfigPath)
  cli.option.foldlM (mergeOption machine) config

def fileLayer (machine : Machine) : Option String → Except LoadError (List Config)
  | none => .ok []
  | some path => (loadConfigFile machine path).map Option.toList

theorem mergeFile_eq (machine : Machine) (config : Config) (path : Option String) :
    mergeFile machine config path = (fileLayer machine path).map fun layers => layers.foldl Config.merge config := by
  cases path with
  | none => rfl
  | some path =>
    unfold mergeFile fileLayer
    dsimp only
    cases loadConfigFile machine path with
    | error e => rfl
    | ok layer => cases layer <;> rfl

theorem mergeOption_ok {machine : Machine} {config config' : Config} {opt : String} : mergeOption machine config opt = .ok config' ↔
    ∃ layer, machine.fromYaml (optionYaml opt) = .ok layer ∧ config.merge layer = config' := by
  unfold mergeOption
  cases machine.fromYaml (optionYaml opt) <;> simp

theorem mergeOptions_ok {machine : Machine} {opts : List String} {config config' : Config} :
    opts.foldlM (mergeOption machine) config = .ok config' ↔
      ∃ layers, List.Forall₂ (fun opt layer => machine.fromYaml (optionYaml opt) = .ok layer) opts layers ∧
        layers.foldl Config.merge config = config' := by
  induction opts generalizing config with
  | nil => simp [pure, Except.pure]
  | cons opt rest ih =>
    rw [List.foldlM_cons, Fallible.bind_eq_ok]
    simp only [mergeOption_ok, ih]
    constructor
    · rintro ⟨_, ⟨layer, read, rfl⟩, layers, each, merged⟩
      exact ⟨layer :: layers, .cons read each, merged⟩
    · rintro ⟨all, each, merged⟩
      obtain ⟨layer, layers, read, others, rfl⟩ := List.forall₂_cons_left_iff.mp each
      exact ⟨_, ⟨layer, read, rfl⟩, layers, others, merged⟩

/-- What is loaded is merged of the layers that are read: the machine's, the user's or that of `-f`, and the options. -/
theorem loadLayers_ok {machine : Machine} {cli : Cli} {config : Config} : loadLayers machine cli = .ok config ↔
    ∃ first second options, fileLayer machine machine.machineConfigPath = .ok first ∧
      fileLayer machine (cli.configFile.or machine.userConfigPath) = .ok second ∧
      List.Forall₂ (fun opt layer => machine.fromYaml (optionYaml opt) = .ok layer) cli.option options ∧
      merged (first ++ second ++ options) = config := by
  unfold loadLayers merged
  simp only [mergeFile_eq, Fallible.bind_eq_ok, Fallible.map_eq_ok, mergeOptions_ok, List.foldl_append]
  constructor
  · rintro ⟨_, ⟨first, found, rfl⟩, _, ⟨second, found', rfl⟩, options, each, merged⟩
    exact ⟨first, second, options, found, found', each, merged⟩
  · rintro ⟨first, second, options, found, found', each, merged⟩
    exact ⟨_, ⟨first, found, rfl⟩, _, ⟨second, found', rfl⟩, options, each, merged⟩

/-- The flags that are not forwarding expressions. -/
def applyOptions (config : Config) (cli : Cli) : Config :=
  { config with
    azureRelayEndpoint := cli.endpointUri.or config.azureRelayEndpoint
    azureRelayConnectionString := cli.connectionString.or config.azureRelayConnectionString
    azureRelaySharedAccessKeyName := cli.sharedAccessKeyName.or config.azureRelaySharedAccessKeyName
    azureRelaySharedAccessKey := cli.sharedAccessKey.or config.azureRelaySharedAccessKey
    azureRelaySharedAccessSignature := cli.signature.or config.azureRelaySharedAccessSignature
    bindAddress := cli.bindAddress.or config.bindAddress
    gatewayPorts := if cli.gatewayPorts then some true else config.gatewayPorts
    logLevel :=
      if cli.quiet then some "QUIET"
      else if cli.verbose ≥ 3 then some "DEBUG3"
      else if cli.verbose ≥ 2 then some "DEBUG"
      else if cli.verbose ≥ 1 then some "VERBOSE"
      else config.logLevel
    logFileName := cli.logFile.or config.logFileName
    keepAliveInterval := cli.keepAliveInterval.or config.keepAliveInterval }

/-- An expression that is not accepted adds nothing. -/
def pushParsed (flag : Flag) (config : Config) (expr : String) : Config :=
  match flag.parse expr with
  | .ok forward => forward.addTo config
  | .error _ => config

def applyCliOverrides (config : Config) (cli : Cli) : Config :=
  let config := applyOptions config cli
  let config := cli.localForward.foldl (pushParsed .localForward) config
  let config := cli.remoteForward.foldl (pushParsed .remoteForward) config
  let config := cli.remoteForwardLegacy.foldl (pushParsed .remoteForwardLegacy) config
  cli.remoteHttpForward.foldl (pushParsed .remoteHttpForward) config

/-- The variable of the environment stands in for a connection string that is not set. -/
def applyEnvironment (machine : Machine) (config : Config) : Config :=
  match config.azureRelayConnectionString, machine.connectionStringVariable with
  | none, some cs => if cs.isEmpty then config else { config with azureRelayConnectionString := some cs }
  | _, _ => config

def normalizeForwards (config : Config) : Config :=
  { config with
    localForward := config.localForward.map (·.normalize)
    remoteForward := config.remoteForward.map (·.normalize) }

def loadConfig (machine : Machine) (cli : Cli) : Except LoadError Config := do
  let config ← loadLayers machine cli
  return normalizeForwards (applyEnvironment machine (applyCliOverrides config cli))

/-- `bootstrap` of a gateway that is not enrolled. -/
def bootstrap (lowercase : String → String) (machine : Machine) (cli : Cli) : Except LoadError Config := do
  let config ← loadConfig machine cli
  match config.validate lowercase with
  | .ok () => return config
  | .error error => .error (.validation error)

/-! ### What the flags add -/

def locals (forwards : List Forward) : List LocalForward :=
  forwards.filterMap fun
    | .toLocal forward => some forward
    | .toRemote _ => none

def remotes (forwards : List Forward) : List RemoteForward :=
  forwards.filterMap fun
    | .toLocal _ => none
    | .toRemote forward => some forward

def accepted (cli : Cli) (flag : Flag) : List Forward := (cli.given flag).filterMap fun expr => (flag.parse expr).toOption

/-- Those of all flags, in the order in which they are applied. -/
def allAccepted (cli : Cli) : List Forward :=
  accepted cli .localForward ++ accepted cli .remoteForward ++ accepted cli .remoteForwardLegacy ++ accepted cli .remoteHttpForward

theorem mem_accepted {cli : Cli} {flag : Flag} {forward : Forward} :
    forward ∈ accepted cli flag ↔ ∃ expr ∈ cli.given flag, flag.parse expr = .ok forward := by
  unfold accepted
  rw [List.mem_filterMap]
  apply exists_congr
  intro expr
  cases flag.parse expr <;> simp [Except.toOption]

theorem mem_allAccepted {cli : Cli} {forward : Forward} :
    forward ∈ allAccepted cli ↔ ∃ flag, ∃ expr ∈ cli.given flag, flag.parse expr = .ok forward := by
  unfold allAccepted
  simp only [List.mem_append, mem_accepted]
  constructor
  · rintro (((found | found) | found) | found)
    · exact ⟨_, found⟩
    · exact ⟨_, found⟩
    · exact ⟨_, found⟩
    · exact ⟨_, found⟩
  · rintro ⟨flag, found⟩
    cases flag with
    | localForward => exact .inl (.inl (.inl found))
    | remoteForward => exact .inl (.inl (.inr found))
    | remoteForwardLegacy => exact .inl (.inr found)
    | remoteHttpForward => exact .inr found

theorem foldl_pushParsed (flag : Flag) (exprs : List String) (config : Config) : exprs.foldl (pushParsed flag) config =
    (exprs.filterMap fun expr => (flag.parse expr).toOption).foldl Forward.addTo config := by
  induction exprs generalizing config with
  | nil => rfl
  | cons expr rest ih =>
    rw [List.foldl_cons, ih, List.filterMap_cons]
    unfold pushParsed
    cases flag.parse expr <;> rfl

/-- All accepted expressions are applied, one after the other. -/
theorem applyCliOverrides_eq (config : Config) (cli : Cli) :
    applyCliOverrides config cli = (allAccepted cli).foldl Forward.addTo (applyOptions config cli) := by
  unfold applyCliOverrides allAccepted
  rw [List.foldl_append, List.foldl_append, List.foldl_append]
  dsimp only
  rw [foldl_pushParsed, foldl_pushParsed, foldl_pushParsed, foldl_pushParsed]
  rfl

theorem foldl_addTo (forwards : List Forward) (config : Config) : forwards.foldl Forward.addTo config =
    { config with
      localForward := config.localForward ++ locals forwards
      remoteForward := config.remoteForward ++ remotes forwards } := by
  induction forwards generalizing config with
  | nil => simp [locals, remotes]
  | cons forward rest ih =>
    rw [List.foldl_cons, ih]
    cases forward <;> simp [Forward.addTo, locals, remotes]

theorem applyEnvironment_eq (machine : Machine) (config : Config) :
    ∃ cs, applyEnvironment machine config = { config with azureRelayConnectionString := cs } := by
  unfold applyEnvironment
  split
  · split
    · exact ⟨_, rfl⟩
    · exact ⟨_, rfl⟩
  · exact ⟨_, rfl⟩

def loaded (machine : Machine) (cli : Cli) (layers : Config) : Config :=
  normalizeForwards (applyEnvironment machine (applyCliOverrides layers cli))

theorem loadConfig_eq (machine : Machine) (cli : Cli) :
    loadConfig machine cli = (loadLayers machine cli).map (loaded machine cli) := by
  unfold loadConfig
  cases loadLayers machine cli <;> rfl

theorem locals_normalize (cli : Cli) : (locals (allAccepted cli)).map (·.normalize) = locals (allAccepted cli) := by
  conv_rhs => rw [← List.map_id (locals (allAccepted cli))]
  apply List.map_congr_left
  intro forward member
  obtain ⟨other, there, same⟩ := List.mem_filterMap.mp member
  cases other with
  | toRemote other => cases same
  | toLocal other =>
    cases same
    obtain ⟨flag, expr, _, parsed⟩ := mem_allAccepted.mp there
    exact LocalForward.normalize_of_bindings (local_bindings parsed)

theorem remotes_normalize (cli : Cli) : (remotes (allAccepted cli)).map (·.normalize) = remotes (allAccepted cli) := by
  conv_rhs => rw [← List.map_id (remotes (allAccepted cli))]
  apply List.map_congr_left
  intro forward member
  obtain ⟨other, there, same⟩ := List.mem_filterMap.mp member
  cases other with
  | toLocal other => cases same
  | toRemote other =>
    cases same
    obtain ⟨flag, expr, _, parsed⟩ := mem_allAccepted.mp there
    exact RemoteForward.normalize_of_bindings (remote_bindings parsed)

section Loaded

variable (machine : Machine) (cli : Cli) (layers : Config)

theorem loaded_localForward : (loaded machine cli layers).localForward =
    layers.localForward.map (·.normalize) ++ locals (allAccepted cli) := by
  obtain ⟨cs, environment⟩ := applyEnvironment_eq machine (applyCliOverrides layers cli)
  unfold loaded
  rw [environment, applyCliOverrides_eq, foldl_addTo]
  show (layers.localForward ++ locals (allAccepted cli)).map (·.normalize) = _
  rw [List.map_append, locals_normalize]

theorem loaded_remoteForward : (loaded machine cli layers).remoteForward =
    layers.remoteForward.map (·.normalize) ++ remotes (allAccepted cli) := by
  obtain ⟨cs, environment⟩ := applyEnvironment_eq machine (applyCliOverrides layers cli)
  unfold loaded
  rw [environment, applyCliOverrides_eq, foldl_addTo]
  show (layers.remoteForward ++ remotes (allAccepted cli)).map (·.normalize) = _
  rw [List.map_append, remotes_normalize]

/-- The fields that the validator reads are those of the layers. -/
theorem loaded_checked : (loaded machine cli layers).addressFamily = layers.addressFamily ∧
    (loaded machine cli layers).connectionAttempts = layers.connectionAttempts ∧
    (loaded machine cli layers).connectTimeout = layers.connectTimeout := by
  obtain ⟨cs, environment⟩ := applyEnvironment_eq machine (applyCliOverrides layers cli)
  unfold loaded
  rw [environment, applyCliOverrides_eq, foldl_addTo]
  exact ⟨rfl, rfl, rfl⟩

end Loaded

theorem forall_checked {forwards : List Forward} {file : String} : (∀ forward ∈ forwards, forward.Checked file) ↔
    (∀ lf ∈ locals forwards, Config.validateLocal file lf = .ok ()) ∧
      ∀ rf ∈ remotes forwards, Config.validateRemote file rf = .ok () := by
  unfold locals remotes
  constructor
  · intro checked
    constructor
    · intro lf member
      obtain ⟨forward, there, same⟩ := List.mem_filterMap.mp member
      cases forward with
      | toLocal forward =>
        cases same
        exact checked _ there
      | toRemote forward => cases same
    · intro rf member
      obtain ⟨forward, there, same⟩ := List.mem_filterMap.mp member
      cases forward with
      | toLocal forward => cases same
      | toRemote forward =>
        cases same
        exact checked _ there
  · rintro ⟨first, second⟩ forward member
    cases forward with
    | toLocal forward => exact first forward (List.mem_filterMap.mpr ⟨_, member, rfl⟩)
    | toRemote forward => exact second forward (List.mem_filterMap.mpr ⟨_, member, rfl⟩)

/-- The loaded configuration is valid exactly if the layers are, and each forward that is added. -/
theorem loaded_valid (lowercase : String → String) (machine : Machine) (cli : Cli) (layers : Config) :
    (loaded machine cli layers).validate lowercase = .ok () ↔ (normalizeForwards layers).validate lowercase = .ok () ∧
      ∀ forward ∈ allAccepted cli, forward.Checked "<unknown>" := by
  obtain ⟨family, attempts, timeout⟩ := loaded_checked machine cli layers
  have locals_ := loaded_localForward machine cli layers
  have remotes_ := loaded_remoteForward machine cli layers
  unfold Config.validate
  rw [Config.validateWithFile_ok, Config.validateWithFile_ok, forall_checked]
  have scalar : ∀ config config' : Config, config.addressFamily = config'.addressFamily →
      config.connectionAttempts = config'.connectionAttempts → config.connectTimeout = config'.connectTimeout →
      (config.validateAddressFamily lowercase "<unknown>" = config'.validateAddressFamily lowercase "<unknown>" ∧
        config.validateAttempts "<unknown>" = config'.validateAttempts "<unknown>" ∧
        config.validateTimeout "<unknown>" = config'.validateTimeout "<unknown>") := by
    intro config config' same same' same''
    unfold Config.validateAddressFamily Config.validateAttempts Config.validateTimeout
    rw [same, same', same'']
    exact ⟨rfl, rfl, rfl⟩
  obtain ⟨first, second, third⟩ := scalar (loaded machine cli layers) (normalizeForwards layers) family attempts timeout
  constructor
  · intro valid
    obtain ⟨family, attempts, timeout, forwards⟩ := valid
    rw [locals_, remotes_, List.forall_mem_append, List.forall_mem_append] at forwards
    exact ⟨⟨first ▸ family, second ▸ attempts, third ▸ timeout, forwards.1.1, forwards.2.1⟩, forwards.1.2, forwards.2.2⟩
  · rintro ⟨⟨family, attempts, timeout, forwards⟩, added⟩
    refine ⟨first ▸ family, second ▸ attempts, third ▸ timeout, ?_⟩
    rw [locals_, remotes_, List.forall_mem_append, List.forall_mem_append]
    exact ⟨⟨forwards.1, added.1⟩, forwards.2, added.2⟩

/-- Each given expression adds its own forward, after those of the layers. -/
structure Complete (layers : Config) (cli : Cli) (config : Config) : Prop where
  localForward : ∃ forwards, List.Forall₂ (fun expr forward => parseLocalForward expr = .ok forward) cli.localForward forwards ∧
    config.localForward = layers.localForward.map (·.normalize) ++ forwards
  remoteForward : ∃ remote legacy http,
    List.Forall₂ (fun expr forward => parseRemoteForward expr = .ok forward) cli.remoteForward remote ∧
    List.Forall₂ (fun expr forward => parseRemoteForwardLegacy expr = .ok forward) cli.remoteForwardLegacy legacy ∧
    List.Forall₂ (fun expr forward => parseRemoteHttpForward expr = .ok forward) cli.remoteHttpForward http ∧
    config.remoteForward = layers.remoteForward.map (·.normalize) ++ (remote ++ legacy ++ http)

/-- No expression is dropped from a bootstrap that succeeds. -/
def NoneDropped (lowercase : String → String) (machine : Machine) (cli : Cli) : Prop :=
  ∀ config, bootstrap lowercase machine cli = .ok config → ∃ layers, loadLayers machine cli = .ok layers ∧ Complete layers cli config

theorem locals_allAccepted (cli : Cli) :
    locals (allAccepted cli) = cli.localForward.filterMap fun expr => (parseLocalForward expr).toOption := by
  have own : ∀ exprs : List String, locals (exprs.filterMap fun expr => ((parseLocalForward expr).map Forward.toLocal).toOption) =
      exprs.filterMap fun expr => (parseLocalForward expr).toOption := by
    intro exprs
    unfold locals
    rw [List.filterMap_filterMap]
    apply List.filterMap_congr
    intro expr _
    cases parseLocalForward expr <;> rfl
  have other : ∀ flag, flag ≠ .localForward → locals (accepted cli flag) = [] := by
    intro flag different
    unfold locals
    rw [List.filterMap_eq_nil_iff]
    intro forward member
    obtain ⟨expr, _, parsed⟩ := mem_accepted.mp member
    cases flag with
    | localForward => exact absurd rfl different
    | _ =>
      obtain ⟨f, _, rfl⟩ := Fallible.map_eq_ok.mp parsed
      rfl
  have parts : locals (allAccepted cli) = locals (accepted cli .localForward) ++ locals (accepted cli .remoteForward) ++
      locals (accepted cli .remoteForwardLegacy) ++ locals (accepted cli .remoteHttpForward) := by
    simp [locals, allAccepted]
  rw [parts, other .remoteForward (by decide), other .remoteForwardLegacy (by decide), other .remoteHttpForward (by decide),
    List.append_nil, List.append_nil, List.append_nil]
  exact own _

theorem remotes_allAccepted (cli : Cli) : remotes (allAccepted cli) =
    (cli.remoteForward.filterMap fun expr => (parseRemoteForward expr).toOption) ++
      (cli.remoteForwardLegacy.filterMap fun expr => (parseRemoteForwardLegacy expr).toOption) ++
      cli.remoteHttpForward.filterMap fun expr => (parseRemoteHttpForward expr).toOption := by
  have own : ∀ (exprs : List String) (parse : String → Except String RemoteForward),
      remotes (exprs.filterMap fun expr => ((parse expr).map Forward.toRemote).toOption) =
        exprs.filterMap fun expr => (parse expr).toOption := by
    intro exprs parse
    unfold remotes
    rw [List.filterMap_filterMap]
    apply List.filterMap_congr
    intro expr _
    cases parse expr <;> rfl
  have none_ : remotes (accepted cli .localForward) = [] := by
    unfold remotes
    rw [List.filterMap_eq_nil_iff]
    intro forward member
    obtain ⟨expr, _, parsed⟩ := mem_accepted.mp member
    obtain ⟨f, _, rfl⟩ := Fallible.map_eq_ok.mp parsed
    rfl
  have parts : remotes (allAccepted cli) = remotes (accepted cli .localForward) ++ remotes (accepted cli .remoteForward) ++
      remotes (accepted cli .remoteForwardLegacy) ++ remotes (accepted cli .remoteHttpForward) := by
    simp [remotes, allAccepted]
  rw [parts, none_, List.nil_append]
  exact congrArg₂ (· ++ ·) (congrArg₂ (· ++ ·) (own _ parseRemoteForward) (own _ parseRemoteForwardLegacy))
    (own _ parseRemoteHttpForward)

def AllParse (cli : Cli) : Prop := ∀ flag, ∀ expr ∈ cli.given flag, ∃ forward, flag.parse expr = .ok forward

theorem complete_iff {machine : Machine} {cli : Cli} {layers : Config} :
    Complete layers cli (loaded machine cli layers) ↔ AllParse cli := by
  constructor
  · rintro ⟨⟨forwards, locals_, -⟩, remote, legacy, http, first, second, third, -⟩ flag expr member
    cases flag with
    | localForward =>
      obtain ⟨forward, parsed⟩ := Fallible.exists_of_forall₂ locals_ member
      exact ⟨_, Fallible.map_eq_ok.mpr ⟨forward, parsed, rfl⟩⟩
    | remoteForward =>
      obtain ⟨forward, parsed⟩ := Fallible.exists_of_forall₂ first member
      exact ⟨_, Fallible.map_eq_ok.mpr ⟨forward, parsed, rfl⟩⟩
    | remoteForwardLegacy =>
      obtain ⟨forward, parsed⟩ := Fallible.exists_of_forall₂ second member
      exact ⟨_, Fallible.map_eq_ok.mpr ⟨forward, parsed, rfl⟩⟩
    | remoteHttpForward =>
      obtain ⟨forward, parsed⟩ := Fallible.exists_of_forall₂ third member
      exact ⟨_, Fallible.map_eq_ok.mpr ⟨forward, parsed, rfl⟩⟩
  · intro all
    have parsed : ∀ (flag : Flag) {β : Type} (parse : String → Except String β) (make : β → Forward),
        (∀ expr, flag.parse expr = (parse expr).map make) → ∀ expr ∈ cli.given flag, ∃ b, parse expr = .ok b := by
      intro flag β parse make same expr member
      obtain ⟨forward, read⟩ := all flag expr member
      rw [same] at read
      obtain ⟨b, found, _⟩ := Fallible.map_eq_ok.mp read
      exact ⟨b, found⟩
    constructor
    · refine ⟨_, Fallible.forall₂_toOption (parsed .localForward parseLocalForward .toLocal fun _ => rfl), ?_⟩
      rw [loaded_localForward, locals_allAccepted]
    · refine ⟨_, _, _, Fallible.forall₂_toOption (parsed .remoteForward parseRemoteForward .toRemote fun _ => rfl),
        Fallible.forall₂_toOption (parsed .remoteForwardLegacy parseRemoteForwardLegacy .toRemote fun _ => rfl),
        Fallible.forall₂_toOption (parsed .remoteHttpForward parseRemoteHttpForward .toRemote fun _ => rfl), ?_⟩
      rw [loaded_remoteForward, remotes_allAccepted]

/-- Some accepted expression has a binding without a port. -/
def SomeSocket (cli : Cli) : Prop := ∃ flag, ∃ expr ∈ cli.given flag, (∃ forward, flag.parse expr = .ok forward) ∧
  ∃ segment ∈ segments flag.cut expr, flag.hasPort segment = false

theorem not_someSocket {cli : Cli} {file : String} : ¬ SomeSocket cli ↔ ∀ forward ∈ allAccepted cli, forward.Checked file := by
  constructor
  · intro none_ forward member
    obtain ⟨flag, expr, given, parsed⟩ := mem_allAccepted.mp member
    rw [parse_checked parsed]
    intro segment there
    by_contra absent
    exact none_ ⟨flag, expr, given, ⟨forward, parsed⟩, segment, there, by simpa using absent⟩
  · rintro checked ⟨flag, expr, given, ⟨forward, parsed⟩, segment, there, absent⟩
    have each := checked forward (mem_allAccepted.mpr ⟨flag, expr, given, parsed⟩)
    rw [parse_checked parsed] at each
    rw [each segment there] at absent
    cases absent

/-- The forwards that are asked for are all there, or the bootstrap fails, exactly if every expression is
accepted or the layers or a socket make it fail. -/
theorem noneDropped_iff (lowercase : String → String) (machine : Machine) (cli : Cli) : NoneDropped lowercase machine cli ↔
    AllParse cli ∨ SomeSocket cli ∨
      ∀ layers, loadLayers machine cli = .ok layers → (normalizeForwards layers).validate lowercase ≠ .ok () := by
  unfold NoneDropped bootstrap
  rw [loadConfig_eq]
  cases read : loadLayers machine cli with
  | error failure =>
    constructor
    · intro _
      exact .inr (.inr fun layers same => nomatch same)
    · intro _ config same
      cases same
  | ok layers =>
    have valid := loaded_valid lowercase machine cli layers
    rw [← not_someSocket] at valid
    by_cases passes : (loaded machine cli layers).validate lowercase = .ok ()
    · obtain ⟨fine, socketless⟩ := valid.mp passes
      have only : (∃ layers', (Except.ok layers : Except LoadError Config) = .ok layers' ∧
          Complete layers' cli (loaded machine cli layers)) ↔ AllParse cli := by
        rw [← @complete_iff machine cli layers]
        constructor
        · rintro ⟨layers', same, complete⟩
          cases same
          exact complete
        · intro complete
          exact ⟨layers, rfl, complete⟩
      constructor
      · intro kept
        refine .inl (only.mp (kept _ ?_))
        show (match (loaded machine cli layers).validate lowercase with | .ok () => _ | .error _ => _) = _
        rw [passes]
        rfl
      · rintro (all | socket | invalid) config same
        · change (match (loaded machine cli layers).validate lowercase with | .ok () => _ | .error _ => _) = _ at same
          rw [passes] at same
          cases same
          exact only.mpr all
        · exact absurd socket socketless
        · exact absurd fine (invalid layers rfl)
    · constructor
      · intro _
        by_cases socket : SomeSocket cli
        · exact .inr (.inl socket)
        · refine .inr (.inr fun layers' same fine => passes ?_)
          cases same
          exact valid.mpr ⟨fine, socket⟩
      · intro _ config same
        change (match (loaded machine cli layers).validate lowercase with | .ok () => _ | .error _ => _) = _ at same
        split at same
        · next ok => exact absurd ok passes
        · cases same

/-- A machine without any configuration. -/
def bare : Machine where
  machineConfigPath := none
  userConfigPath := none
  readFile := fun _ => none
  fromYaml := fun _ => .error "no configuration"
  connectionStringVariable := none

/-- An expression without its relay name is dropped, and the other one is run. -/
theorem typo_dropped : ¬ ∀ (lowercase : String → String) (machine : Machine) (cli : Cli), NoneDropped lowercase machine cli := by
  intro all
  have started : bootstrap id bare { localForward := ["8080:web", "8081"] } =
      .ok { localForward := [{ relayName := "web", bindings := [{ bindPort := 8080 }] }] } := by decide +kernel
  obtain ⟨layers, _, complete⟩ := all id bare _ _ started
  obtain ⟨forwards, each, _⟩ := complete.localForward
  obtain ⟨forward, parsed⟩ := Fallible.exists_of_forall₂ each (show "8081" ∈ ["8080:web", "8081"] by decide)
  have refused : ∀ forward, parseLocalForward "8081" ≠ .ok forward := by
    intro forward same
    rw [show parseLocalForward "8081" =
      .error "Invalid local forward expression (no colon separator): '8081'" by decide +kernel] at same
    cases same
  exact refused forward parsed

end Loading
end Azbridge
