import Azbridge.Broker.Auth

/-!
# Profiles

Workspace-scoped profiles with immutable, explicitly published revisions. A revision number is
reserved by a conditional write of the profile row, then the blob is uploaded, then the metadata
row is inserted; failed uploads may consume numbers but never appear in revision lists.
-/

namespace Azbridge.Broker.Profiles
open Auth

/-! ### Managed configurations -/

def credentialPatterns : List String :=
  ["sharedaccesskey", "sharedaccesssignature", "sig=", "endpoint=sb://", "connectionstring:", "azurerelayshared",
    "azurerelayconnectionstring", "azurerelayendpoint", "sb-hc-token", "servicebusauthorization"]

/-- The text without white space, in lower case. -/
def compact (unicode : Text.Unicode) (yaml : String) : List Char :=
  (yaml.toList.filter fun c => !Text.isWhitespace c).flatMap unicode.toLowercase

def credentialLike (unicode : Text.Unicode) (yaml : String) : Bool :=
  credentialPatterns.any fun pattern => Text.contains pattern.toList (compact unicode yaml)

/-- Fields a managed profile may not have, and whether the configuration has them. -/
def forbiddenFields (config : Config) : List (String × Bool) :=
  [("AzureRelayConnectionString", config.azureRelayConnectionString.isSome),
    ("AzureRelayEndpoint", config.azureRelayEndpoint.isSome),
    ("AzureRelaySharedAccessKeyName", config.azureRelaySharedAccessKeyName.isSome),
    ("AzureRelaySharedAccessKey", config.azureRelaySharedAccessKey.isSome),
    ("AzureRelaySharedAccessSignature", config.azureRelaySharedAccessSignature.isSome),
    ("LogFileName", config.logFileName.isSome), ("LogLevel", config.logLevel.isSome)]

def forbiddenErrors (config : Config) (raw : Yaml) : List String :=
  (forbiddenFields config).filterMap fun (field, present) =>
    if present || (raw.get field).isSome then some (field ++ " is not allowed in managed profiles") else none

def rawConnectionString (raw : Yaml) (section_ : String) (index : Nat) : Bool :=
  ((((raw.get section_).bind (·.getIndex index)).bind (·.get "ConnectionString"))).isSome

def errorIf (condition : Bool) (message : String) : List String := if condition then [message] else []

def localErrors (raw : Yaml) (index : Nat) (forward : LocalForward) : List String :=
  errorIf (forward.connectionString.isSome || rawConnectionString raw "LocalForward" index)
    "LocalForward.ConnectionString is not allowed" ++
  errorIf (!forward.bindings.isEmpty && forward.hasConvenience)
    "LocalForward must not mix Bindings and shorthand fields" ++
  -- Shorthand counts even where explicit bindings take precedence in `normalize`.
  errorIf (forward.noAuthentication == some true || forward.bindings.any (·.noAuthentication))
    "LocalForward.NoAuthentication must not be true" ++
  errorIf forward.normalize.bindings.isEmpty "LocalForward requires at least one binding"

def remoteErrors (raw : Yaml) (index : Nat) (forward : RemoteForward) : List String :=
  errorIf (forward.connectionString.isSome || rawConnectionString raw "RemoteForward" index)
    "RemoteForward.ConnectionString is not allowed" ++
  errorIf (!forward.bindings.isEmpty && forward.hasConvenience)
    "RemoteForward must not mix Bindings and shorthand fields" ++
  errorIf forward.normalize.bindings.isEmpty "RemoteForward requires at least one binding"

def validSocket (path : String) : Bool := !(path.isEmpty || path.toList.contains (Char.ofNat 0))

def localSocketErrors (binding : LocalForwardBinding) : List String :=
  errorIf (binding.bindLocalSocket.any fun path => !validSocket path)
    "BindLocalSocket must be a nonempty socket path"

def remoteSocketErrors (binding : RemoteForwardBinding) : List String :=
  errorIf (binding.localSocket.any fun path => !validSocket path) "LocalSocket must be a nonempty socket path"

/-- The binding the shared validator gets to see: a socket needs no port. -/
def checkedLocal (binding : LocalForwardBinding) : LocalForwardBinding :=
  if binding.bindLocalSocket.any validSocket && binding.bindPort == 0 then { binding with bindPort := 1 } else binding

def checkedRemote (binding : RemoteForwardBinding) : RemoteForwardBinding :=
  if binding.localSocket.any validSocket && binding.hostPort == 0 then { binding with hostPort := 1 } else binding

def normalized (config : Config) : Config :=
  { config with
    localForward := config.localForward.map (·.normalize)
    remoteForward := config.remoteForward.map (·.normalize) }

/-- The shared validator checks every port, even of socket-only bindings, so it gets a copy. -/
def checked (config : Config) : Config :=
  { config with
    localForward := config.localForward.map fun f => { f with bindings := f.bindings.map checkedLocal }
    remoteForward := config.remoteForward.map fun f => { f with bindings := f.bindings.map checkedRemote } }

/-- Everything wrong with a configuration that was read, in the order it is reported. -/
def managedErrors (app : App) (config : Config) (ignored : List String) (raw : Yaml) : List String :=
  ignored.map (fun path => "Unknown configuration field: " ++ path) ++
  forbiddenErrors config raw ++
  errorIf (config.localForward.isEmpty && config.remoteForward.isEmpty) "At least one forwarding rule is required" ++
  (config.localForward.mapIdx (localErrors raw)).flatten ++
  (config.remoteForward.mapIdx (remoteErrors raw)).flatten ++
  (normalized config).localForward.flatMap (·.bindings.flatMap localSocketErrors) ++
  (normalized config).remoteForward.flatMap (·.bindings.flatMap remoteSocketErrors) ++
  (match (checked (normalized config)).validate app.lowercase with
    | .ok () => []
    | .error _ => ["Invalid forwarding configuration or option value"])

def parseManagedConfig (app : App) (yaml : String) : Except (List String) Config :=
  if yaml.utf8ByteSize > 1024 * 1024 then .error ["YAML exceeds the 1 MiB limit"]
  else if credentialLike app.unicode yaml then
    .error ["Credential-like text is not allowed in managed profiles (including comments)"]
  else
    -- Parser diagnostics can contain arbitrary YAML values, so they are not repeated.
    match app.yaml.config yaml, app.yaml.value yaml with
    | some (config, ignored), some raw =>
      match managedErrors app config ignored raw with
      | [] => .ok (normalized config)
      | errors => .error errors
    | _, _ => .error ["Invalid YAML configuration"]

/-! ### Reading -/

def workspace (ws : String) (ready : Bool) : Handler Unit := do
  require (Uuid.isText ws) .badRequest
  let entity ← okOr (← get .workspaces platformPartition ws) .notFound
  let record : WorkspaceRecord ← decode entity.data
  require (record.workspace.id == ws) .notFound
  require (!ready || record.workspace.state == .ready) .conflict

def profile (ws id : String) : Handler (Entity Value × ProfileRecord) := do
  require (Uuid.isText id) .badRequest
  let entity ← okOr (← get .profiles ws id) .notFound
  let record : ProfileRecord ← decode entity.data
  require (record.profile.id == id) .notFound
  return (entity, record)

def readyNames (connections : List Connection) : List String :=
  (connections.filter fun c => c.state == .ready).map (·.name)

def checkConfig (app : App) (ws yaml : String) : Handler (Except (List String) Config) := do
  workspace ws true
  match parseManagedConfig app yaml with
  | .error errors => return .error errors
  | .ok config =>
    let connections : List Connection ← decodeAll (← list .connections ws)
    let missing := config.relayNames.filter fun name => !(readyNames connections).contains name
    return if missing.isEmpty then .ok config
      else .error (missing.map fun _ => "RelayName must identify a Ready connection in this workspace")

/-- Parse and normalize broker-safe YAML, including workspace-local Ready relay references. -/
def validateConfig (app : App) (ws yaml : String) : Handler Config := do
  match ← checkConfig app ws yaml with
  | .ok config => return config
  | .error _ => throw .badRequest

def revision (ws id : String) (number : Nat) : Handler ConfigRevision := do
  require (number != 0) .badRequest
  let entity ← okOr (← get .revisionMetadata ws (revisionKey id number)) .notFound
  let record : RevisionRecord ← decode entity.data
  require (record.revision == number) .notFound
  let yaml ← okOr (← getRevision ws id (toString number)) .notFound
  return ⟨number, record.createdAt, yaml⟩

/-- Load the published immutable snapshot and revalidate its current relay references. -/
def publishedConfig (app : App) (ws id : String) : Handler (Nat × Config) := do
  workspace ws true
  let (_, record) ← profile ws id
  let number ← okOr record.profile.currentRevision .conflict
  let snapshot ← revision ws id number
  return (snapshot.revision, ← validateConfig app ws snapshot.yaml)

/-! ### Handlers -/

def listProfiles (app : App) (ws : String) (headers : Headers) : Handler (List Profile) := do
  let _ ← authorize app headers ws .reader false
  workspace ws false
  let records : List ProfileRecord ← decodeAll (← list .profiles ws)
  return (records.map (·.profile)).mergeSort fun left right => decide (left.name ≤ right.name)

/-- No two profiles of a workspace have names that differ in ASCII case at most. -/
def nameIsFree (name : String) : List (Entity Value) → Handler Unit
  | [] => return ()
  | entity :: rest => do
    let record : ProfileRecord ← decode entity.data
    require (!Text.eqIgnoreAsciiCase record.profile.name name) .conflict
    nameIsFree name rest

def createProfile (app : App) (ws : String) (headers : Headers) (requestName : String) : Handler Profile := do
  let actor ← authorize app headers ws .operator true
  workspace ws true
  let name := Text.trim requestName
  require (!(name.isEmpty || name.utf8ByteSize > 128 || name.toList.any Text.isControl)) .badRequest
  nameIsFree name (← list .profiles ws)
  let id ← newUuid
  let profile : Profile := ⟨id.hyphenated, name, none⟩
  let record : ProfileRecord := ⟨profile, 1⟩
  let _ ← insert .profiles ws profile.id (encode record)
  recordAudit ws (toString actor.user.id) "profile.create" profile.id
  return profile

def getProfile (app : App) (ws id : String) (headers : Headers) : Handler Profile := do
  let _ ← authorize app headers ws .reader false
  workspace ws false
  return (← profile ws id).2.profile

/-- No gateway that may still call assigns the profile. -/
def profileIsUnused (id : String) : List (Entity Value) → Handler Unit
  | [] => return ()
  | entity :: rest => do
    let record : GatewayRecord ← decode entity.data
    require (!(record.gateway.profileId == id && !record.gateway.revoked)) .profileInUse
    profileIsUnused id rest

def deleteProfile (app : App) (ws id : String) (headers : Headers) : Handler Unit := do
  let actor ← authorize app headers ws .operator true
  workspace ws true
  let (entity, _) ← profile ws id
  profileIsUnused id (← list .gateways ws)
  -- Immutable revisions remain as inaccessible history.
  delete .profiles entity.partitionKey entity.rowKey entity.etag
  recordAudit ws (toString actor.user.id) "profile.delete" id

/-- The errors found; an empty list means the configuration is valid. -/
def validate (app : App) (ws id : String) (headers : Headers) (yaml : String) : Handler (List String) := do
  let _ ← authorize app headers ws .operator true
  workspace ws true
  let _ ← profile ws id
  match ← checkConfig app ws yaml with
  | .ok _ => return []
  | .error errors => return errors

def loadRevisions (ws id : String) : List (Entity Value) → Handler (List ConfigRevision)
  | [] => return []
  | entity :: rest =>
    if (id ++ ":").toList.isPrefixOf entity.rowKey.toList then do
      let record : RevisionRecord ← decode entity.data
      let first ← revision ws id record.revision
      return first :: (← loadRevisions ws id rest)
    else loadRevisions ws id rest

def listRevisions (app : App) (ws id : String) (headers : Headers) : Handler (List ConfigRevision) := do
  let _ ← authorize app headers ws .reader false
  workspace ws false
  let _ ← profile ws id
  let revisions ← loadRevisions ws id (← list .revisionMetadata ws)
  return revisions.mergeSort fun left right => decide (left.revision ≤ right.revision)

def getRevisionOf (app : App) (ws id : String) (number : Nat) (headers : Headers) : Handler ConfigRevision := do
  let _ ← authorize app headers ws .reader false
  workspace ws false
  let _ ← profile ws id
  revision ws id number

def createRevision (app : App) (ws id : String) (headers : Headers) (yaml : String) : Handler ConfigRevision := do
  let actor ← authorize app headers ws .operator true
  workspace ws true
  let (entity, record) ← profile ws id
  let _ ← validateConfig app ws yaml
  let number := record.nextRevision
  require (number != 0) .conflict
  require (number + 1 < Text.u64) .conflict
  let record := { record with nextRevision := number + 1 }
  -- Reserve the number by CAS before touching the immutable blob.
  let _ ← replace .profiles ws id (encode record) entity.etag
  putRevision ws id (toString number) yaml
  let metadata : RevisionRecord := ⟨number, ← now⟩
  let _ ← insert .revisionMetadata ws (revisionKey id number) (encode metadata)
  recordAudit ws (toString actor.user.id) "profile.revision.create" (revisionKey id number)
  return ⟨number, metadata.createdAt, yaml⟩

structure PublishRevisionRequest where
  revision : Nat
  expectedCurrentRevision : Option Nat
  deriving DecidableEq, Repr

def publish (app : App) (ws id : String) (headers : Headers) (request : PublishRevisionRequest) : Handler Profile := do
  let actor ← authorize app headers ws .operator true
  workspace ws true
  let (entity, record) ← profile ws id
  require (record.profile.currentRevision == request.expectedCurrentRevision) .conflict
  let snapshot ← revision ws id request.revision
  let _ ← validateConfig app ws snapshot.yaml
  let record := { record with profile := { record.profile with currentRevision := some request.revision } }
  let _ ← replace .profiles ws id (encode record) entity.etag
  recordAudit ws (toString actor.user.id) "profile.publish" (revisionKey id request.revision)
  return record.profile

end Azbridge.Broker.Profiles
