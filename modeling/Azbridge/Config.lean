import Azbridge.Text
import Azbridge.Lib.Fallible

/-!
# Configuration

The shared azbridge configuration: its shape, the promotion of shorthand bindings, and the
validator that the broker and the gateway both call.
-/

namespace Azbridge

/-- `ConfigError::Validation`, with the file and the text that it reports. -/
structure ConfigError where
  file : String
  message : String
  deriving DecidableEq, Repr

structure LocalForwardBinding where
  bindAddress : Option String := none
  hostName : Option String := none
  /-- Negative means UDP. -/
  bindPort : Int := 0
  portName : Option String := none
  bindLocalSocket : Option String := none
  noAuthentication : Bool := false
  deriving DecidableEq, Repr

structure LocalForward where
  relayName : String := ""
  connectionString : Option String := none
  bindings : List LocalForwardBinding := []
  bindAddress : Option String := none
  bindPort : Option Int := none
  portName : Option String := none
  bindLocalSocket : Option String := none
  hostName : Option String := none
  noAuthentication : Option Bool := none
  deriving DecidableEq, Repr

structure RemoteForwardBinding where
  host : Option String := none
  hostPort : Int := 0
  portName : Option String := none
  localSocket : Option String := none
  http : Bool := false
  insecure : Bool := false
  path : Option String := none
  deriving DecidableEq, Repr

structure RemoteForward where
  relayName : String := ""
  connectionString : Option String := none
  bindings : List RemoteForwardBinding := []
  host : Option String := none
  hostPort : Option Int := none
  portName : Option String := none
  localSocket : Option String := none
  http : Option Bool := none
  deriving DecidableEq, Repr

structure Config where
  addressFamily : Option String := none
  azureRelayConnectionString : Option String := none
  azureRelayEndpoint : Option String := none
  azureRelaySharedAccessKeyName : Option String := none
  azureRelaySharedAccessKey : Option String := none
  azureRelaySharedAccessSignature : Option String := none
  bindAddress : Option String := none
  clearAllForwardings : Option Bool := none
  connectionAttempts : Option Nat := none
  connectTimeout : Option Nat := none
  exitOnForwardFailure : Option Bool := none
  gatewayPorts : Option Bool := none
  keepAliveInterval : Option Nat := none
  logLevel : Option String := none
  logFileName : Option String := none
  localForward : List LocalForward := []
  remoteForward : List RemoteForward := []
  deriving DecidableEq, Repr

namespace LocalForward

/-- Some convenience field is set. -/
def hasConvenience (self : LocalForward) : Bool :=
  self.bindAddress.isSome || self.bindPort.isSome || self.portName.isSome ||
    self.bindLocalSocket.isSome || self.hostName.isSome || self.noAuthentication.isSome

/-- Promote the convenience fields into the first binding when there is none. -/
def normalize (self : LocalForward) : LocalForward :=
  if !self.bindings.isEmpty then self
  else if !self.hasConvenience then self
  else {
    relayName := self.relayName
    connectionString := self.connectionString
    bindings := [{
      bindAddress := self.bindAddress
      hostName := self.hostName
      bindPort := self.bindPort.getD 0
      portName := self.portName
      bindLocalSocket := self.bindLocalSocket
      noAuthentication := self.noAuthentication.getD false }] }

@[simp] theorem normalize_relayName (self : LocalForward) : self.normalize.relayName = self.relayName := by
  unfold normalize
  split <;> (try split) <;> rfl

@[simp] theorem normalize_connectionString (self : LocalForward) :
    self.normalize.connectionString = self.connectionString := by
  unfold normalize
  split <;> (try split) <;> rfl

theorem normalize_of_bindings {self : LocalForward} (some : self.bindings ≠ []) : self.normalize = self := by
  unfold normalize
  rw [if_pos (by simpa using some)]

theorem normalize_normalize (self : LocalForward) : self.normalize.normalize = self.normalize := by
  by_cases bare : self.bindings = [] ∧ self.hasConvenience = true
  · exact normalize_of_bindings (by simp [normalize, bare])
  · have same : self.normalize = self := by
      unfold normalize
      by_cases empty : self.bindings = []
      · have absent : self.hasConvenience = false := by simpa [empty] using bare
        simp [empty, absent]
      · simp [empty]
    rw [same, same]

end LocalForward

namespace RemoteForward

/-- Some convenience field is set. -/
def hasConvenience (self : RemoteForward) : Bool :=
  self.host.isSome || self.hostPort.isSome || self.portName.isSome ||
    self.localSocket.isSome || self.http.isSome

/-- Promote the convenience fields into the first binding when there is none. -/
def normalize (self : RemoteForward) : RemoteForward :=
  if !self.bindings.isEmpty then self
  else if !self.hasConvenience then self
  else {
    relayName := self.relayName
    connectionString := self.connectionString
    bindings := [{
      host := self.host
      hostPort := self.hostPort.getD 0
      portName := self.portName
      localSocket := self.localSocket
      http := self.http.getD false
      insecure := false
      path := none }] }

@[simp] theorem normalize_relayName (self : RemoteForward) : self.normalize.relayName = self.relayName := by
  unfold normalize
  split <;> (try split) <;> rfl

@[simp] theorem normalize_connectionString (self : RemoteForward) :
    self.normalize.connectionString = self.connectionString := by
  unfold normalize
  split <;> (try split) <;> rfl

theorem normalize_of_bindings {self : RemoteForward} (some : self.bindings ≠ []) : self.normalize = self := by
  unfold normalize
  rw [if_pos (by simpa using some)]

theorem normalize_normalize (self : RemoteForward) : self.normalize.normalize = self.normalize := by
  by_cases bare : self.bindings = [] ∧ self.hasConvenience = true
  · exact normalize_of_bindings (by simp [normalize, bare])
  · have same : self.normalize = self := by
      unfold normalize
      by_cases empty : self.bindings = []
      · have absent : self.hasConvenience = false := by simpa [empty] using bare
        simp [empty, absent]
      · simp [empty]
    rw [same, same]

end RemoteForward

/-- `^[0-9A-Za-z/_\-\.]+$`. -/
def relayNameRegex (name : String) : Bool :=
  !name.isEmpty && name.toList.all fun c => c.isAlphanum || ['/', '_', '-', '.'].contains c

/-- The check `validate_bind_port` and `validate_host_port` share. -/
def validatePort (field : String) (port : Int) (file : String) : Except ConfigError Unit :=
  if port = 0 ∨ ¬ (-65535 ≤ port ∧ port ≤ 65535) then
    .error ⟨file, field ++ " must be in -65535..=65535 and not 0, got " ++ toString port⟩
  else .ok ()

def validateBindPort : Int → String → Except ConfigError Unit := validatePort "bind_port"

def validateHostPort : Int → String → Except ConfigError Unit := validatePort "host_port"

theorem validatePort_ok {field file : String} {port : Int} :
    validatePort field port file = .ok () ↔ port ≠ 0 ∧ -65535 ≤ port ∧ port ≤ 65535 := by
  unfold validatePort
  split
  · next bad => simp only [reduceCtorEq, false_iff]; omega
  · next good => simp only [true_iff]; omega

namespace Config
variable (lowercase : String → String)

def validateAddressFamily (self : Config) (file : String) : Except ConfigError Unit :=
  match self.addressFamily with
  | some af =>
    let lower := lowercase af
    if lower ≠ "any" ∧ lower ≠ "inet" ∧ lower ≠ "inet6" then
      .error ⟨file, "AddressFamily must be 'any', 'inet', or 'inet6', got '" ++ af ++ "'"⟩
    else .ok ()
  | none => .ok ()

def validateAttempts (self : Config) (file : String) : Except ConfigError Unit :=
  match self.connectionAttempts with
  | some attempts =>
    if ¬ (1 ≤ attempts ∧ attempts ≤ 10) then
      .error ⟨file, "ConnectionAttempts must be 1..10, got " ++ toString attempts⟩
    else .ok ()
  | none => .ok ()

def validateTimeout (self : Config) (file : String) : Except ConfigError Unit :=
  match self.connectTimeout with
  | some timeout =>
    if timeout > 120 then .error ⟨file, "ConnectTimeout must be 0..120, got " ++ toString timeout⟩
    else .ok ()
  | none => .ok ()

def validateRelayName (kind name file : String) : Except ConfigError Unit :=
  if ¬ name.isEmpty = true ∧ ¬ relayNameRegex name = true then
    .error ⟨file, "Invalid " ++ kind ++ " relay name: '" ++ name ++ "'"⟩
  else .ok ()

def validateLocal (file : String) (lf : LocalForward) : Except ConfigError Unit := do
  validateRelayName "LocalForward" lf.relayName file
  lf.bindings.forM fun b => validateBindPort b.bindPort file

def validateRemote (file : String) (rf : RemoteForward) : Except ConfigError Unit := do
  validateRelayName "RemoteForward" rf.relayName file
  rf.bindings.forM fun b => validateHostPort b.hostPort file

section Checks

variable {file : String}

theorem validateRelayName_ok {kind name : String} :
    validateRelayName kind name file = .ok () ↔ name = "" ∨ relayNameRegex name = true := by
  unfold validateRelayName
  split
  · next bad => simp_all
  · next good =>
    simp only [true_iff]
    by_cases empty : name = ""
    · exact .inl empty
    · exact .inr (by simpa [empty] using good)

theorem validateLocal_ok {lf : LocalForward} : validateLocal file lf = .ok () ↔
    (lf.relayName = "" ∨ relayNameRegex lf.relayName = true) ∧
      ∀ b ∈ lf.bindings, b.bindPort ≠ 0 ∧ -65535 ≤ b.bindPort ∧ b.bindPort ≤ 65535 := by
  unfold validateLocal
  rw [Fallible.seq_eq_ok, validateRelayName_ok, Fallible.forM_eq_ok]
  simp only [validateBindPort, validatePort_ok]

theorem validateRemote_ok {rf : RemoteForward} : validateRemote file rf = .ok () ↔
    (rf.relayName = "" ∨ relayNameRegex rf.relayName = true) ∧
      ∀ b ∈ rf.bindings, b.hostPort ≠ 0 ∧ -65535 ≤ b.hostPort ∧ b.hostPort ≤ 65535 := by
  unfold validateRemote
  rw [Fallible.seq_eq_ok, validateRelayName_ok, Fallible.forM_eq_ok]
  simp only [validateHostPort, validatePort_ok]

end Checks

/-- The first error found. `lowercase` is `str::to_lowercase`. -/
def validateWithFile (self : Config) (file : String) : Except ConfigError Unit := do
  self.validateAddressFamily lowercase file
  self.validateAttempts file
  self.validateTimeout file
  self.localForward.forM (validateLocal file)
  self.remoteForward.forM (validateRemote file)

/-- What a configuration is checked for. -/
structure Valid (file : String) (config : Config) : Prop where
  addressFamily : config.validateAddressFamily lowercase file = .ok ()
  attempts : config.validateAttempts file = .ok ()
  timeout : config.validateTimeout file = .ok ()
  forwards : (∀ lf ∈ config.localForward, validateLocal file lf = .ok ()) ∧ ∀ rf ∈ config.remoteForward, validateRemote file rf = .ok ()

theorem validateWithFile_ok {self : Config} {file : String} :
    self.validateWithFile lowercase file = .ok () ↔ Valid lowercase file self := by
  unfold validateWithFile
  rw [Fallible.seq_eq_ok, Fallible.seq_eq_ok, Fallible.seq_eq_ok, Fallible.seq_eq_ok, Fallible.forM_eq_ok, Fallible.forM_eq_ok]
  constructor
  · rintro ⟨addressFamily, attempts, timeout, forwards⟩
    exact ⟨addressFamily, attempts, timeout, forwards⟩
  · intro valid
    exact ⟨valid.addressFamily, valid.attempts, valid.timeout, valid.forwards⟩

def validate (self : Config) : Except ConfigError Unit := self.validateWithFile lowercase "<unknown>"

/-- Every relay name the configuration forwards to or from. -/
def relayNames (self : Config) : List String :=
  self.localForward.map (·.relayName) ++ self.remoteForward.map (·.relayName)

end Config
end Azbridge
