import Azbridge.Broker.Workspaces

/-!
# Gateways

One-time device enrollment and workspace-scoped, revocable gateway credentials. Revocation blocks
future broker calls; already established tunnels are unaffected.
-/

namespace Azbridge.Broker.Gateways
open Auth Workspaces Profiles

def validName (name : String) : Handler Unit :=
  require (!(name.isEmpty || name.utf8ByteSize > 128 || Text.trim name != name || name.toList.any Text.isControl))
    .badRequest

def readyWorkspace (ws : String) : Handler WorkspaceRecord := do
  let record ← activeWorkspace ws
  require (record.workspace.state == .ready) .conflict
  return record

def listGateways (app : App) (ws : String) (headers : Headers) : Handler (List Gateway) := do
  let _ ← authorize app headers ws .reader false
  let _ ← activeWorkspace ws
  let records : List GatewayRecord ← decodeAll (← list .gateways ws)
  return records.map (·.gateway)

structure CreateGatewayRequest where
  name : String
  profileId : String
  deriving DecidableEq, Repr

structure CreateGatewayResponse where
  gateway : Gateway
  credential : String
  workspaceId : String
  deriving DecidableEq, Repr

def mint (app : App) (ws : String) (request : CreateGatewayRequest) (actor : Nat) : Handler CreateGatewayResponse := do
  validName request.name
  let _ ← readyWorkspace ws
  let _ ← publishedConfig app ws request.profileId
  let id := (← newUuid).hyphenated
  let gateway : Gateway := { id, name := request.name, profileId := request.profileId, revoked := false }
  let credential := "azgw." ++ ws ++ "." ++ gateway.id ++ "." ++ (← randomSecret)
  let record : GatewayRecord := ⟨gateway, app.digest credential, actor⟩
  let _ ← insert .gateways ws gateway.id (encode record)
  recordAudit ws (toString actor) "gateway.create" gateway.id
  return ⟨gateway, credential, ws⟩

/-- `payload` is `none` where the body was no such request. -/
def createGateway (app : App) (ws : String) (headers : Headers) (payload : Option CreateGatewayRequest) :
    Handler CreateGatewayResponse := do
  let session ← authorize app headers ws .operator true
  let request ← okOr payload .badRequest
  mint app ws request session.user.id

def saveGateway (entity : Entity Value) (record : GatewayRecord) : Handler Unit := do
  let _ ← replace .gateways entity.partitionKey entity.rowKey (encode record) entity.etag

def revokeGateway (app : App) (ws id : String) (headers : Headers) : Handler Unit := do
  let session ← authorize app headers ws .operator true
  let _ ← activeWorkspace ws
  uuid id
  let entity ← okOr (← get .gateways ws id) .notFound
  let record : GatewayRecord ← decode entity.data
  saveGateway entity { record with gateway := { record.gateway with revoked := true } }
  recordAudit ws (toString session.user.id) "gateway.revoke" id

/-- The workspace and gateway identifiers inside a bearer credential. -/
structure Credential where
  text : String
  workspace : String
  gateway : String
  deriving DecidableEq, Repr

def parseCredential (headers : Headers) : Option Credential :=
  match headers.authorization with
  | [some value] =>
    match Text.stripPrefix "Bearer " value with
    | none => none
    | some text =>
      match Text.split '.' text with
      | [tag, ws, id, secret] =>
        if tag = "azgw" ∧ Uuid.isText ws = true ∧ Uuid.isText id = true ∧ base64UrlSize secret = some 32 then
          some ⟨text, ws, id⟩
        else none
      | _ => none
  | _ => none

def bearer (app : App) (headers : Headers) : Handler (Entity Value × GatewayRecord) := do
  let credential ← okOr (parseCredential headers) .unauthorized
  let entity ← okOr (← get .gateways credential.workspace credential.gateway) .unauthorized
  let record : GatewayRecord ← decode entity.data
  require (record.gateway.id == credential.gateway && !record.gateway.revoked &&
    constantTimeEqual (app.digest credential.text) record.credentialHash) .unauthorized
  let _ ← readyWorkspace credential.workspace
  return (entity, record)

structure GatewayConfigResponse where
  revision : Nat
  relayEndpoint : String
  config : Config
  deriving DecidableEq, Repr

def relayEndpoint (namespaceName : String) : String := "sb://" ++ namespaceName ++ ".servicebus.windows.net/"

/-- The endpoint travels in `relayEndpoint` alone, so the configuration's own is dropped. -/
def gatewayConfig (app : App) (headers : Headers) : Handler GatewayConfigResponse := do
  let (entity, record) ← bearer app headers
  let ws := entity.partitionKey
  let (revision, config) ← publishedConfig app ws record.gateway.profileId
  let workspace ← readyWorkspace ws
  let time ← now
  saveGateway entity { record with gateway := { record.gateway with lastSeenAt := some time } }
  return ⟨revision, relayEndpoint workspace.workspace.namespaceName, { config with azureRelayEndpoint := none }⟩

structure RelayTokenRequest where
  relayName : String
  right : RelayRight
  deriving DecidableEq, Repr

def permitted (config : Config) (request : RelayTokenRequest) : Bool :=
  match request.right with
  | .send => config.localForward.any fun f => f.relayName == request.relayName
  | .listen => config.remoteForward.any fun f => f.relayName == request.relayName

def relayToken (app : App) (headers : Headers) (payload : Option RelayTokenRequest) : Handler RelayTokenResponse := do
  let (entity, record) ← bearer app headers
  let request ← okOr payload .badRequest
  let ws := entity.partitionKey
  let (_, config) ← publishedConfig app ws record.gateway.profileId
  require (permitted config request) .forbidden
  let workspace ← readyWorkspace ws
  let token ← Program.request (Request.issueToken workspace.workspace.namespaceName request.relayName request.right)
  let time ← now
  saveGateway entity { record with gateway := { record.gateway with lastSeenAt := some time } }
  return token

structure GatewayStatusRequest where
  appliedRevision : Nat
  version : String
  hostname : String
  deriving DecidableEq, Repr

def status (app : App) (headers : Headers) (payload : Option GatewayStatusRequest) : Handler Unit := do
  let (entity, record) ← bearer app headers
  let request ← okOr payload .badRequest
  validName request.version
  validName request.hostname
  let (revision, _) ← publishedConfig app entity.partitionKey record.gateway.profileId
  require (!(request.appliedRevision == 0 || decide (revision < request.appliedRevision))) .badRequest
  let time ← now
  saveGateway entity { record with gateway := { record.gateway with
    lastSeenAt := some time
    appliedRevision := some request.appliedRevision
    version := some request.version
    hostname := some request.hostname } }

def logout (app : App) (headers : Headers) : Handler Unit := do
  let (entity, record) ← bearer app headers
  let time ← now
  saveGateway entity { record with gateway := { record.gateway with revoked := true, lastSeenAt := some time } }
  recordAudit entity.partitionKey record.gateway.id "gateway.logout" record.gateway.id

structure EnrollmentStartRequest where
  workspace : String
  profile : String
  gatewayName : String
  deriving DecidableEq, Repr

structure EnrollmentStartResponse where
  enrollmentId : String
  userCode : String
  verificationUri : String
  interval : Nat
  expiresIn : Nat
  deriving DecidableEq, Repr

def workspacesNamed (name : String) : List (Entity Value) → Handler (List Workspace)
  | [] => return []
  | entity :: rest => do
    let record : WorkspaceRecord ← decode entity.data
    let others ← workspacesNamed name rest
    return if record.workspace.id = name ∨ record.workspace.name = name then record.workspace :: others else others

def profilesNamed (name : String) : List (Entity Value) → Handler (List Profile)
  | [] => return []
  | entity :: rest => do
    let record : ProfileRecord ← decode entity.data
    let others ← profilesNamed name rest
    return if record.profile.id = name ∨ record.profile.name = name then record.profile :: others else others

/-- The only element. -/
def single {α : Type} : List α → Handler α
  | [a] => return a
  | _ => throw .badRequest

def beginDevice (app : App) : Handler DeviceCode := do
  if app.github then startDeviceFlow app
  else if app.dev then return ⟨← randomSecret, "DEV-USER-1", app.publicUrl, 900, 1⟩
  else throw .unavailable

def startEnrollment (app : App) (payload : Option EnrollmentStartRequest) : Handler EnrollmentStartResponse := do
  Program.request (Request.rateLimit "enrollment.start" 30 60)
  let request ← okOr payload .badRequest
  validName request.gatewayName
  let workspace ← single (← workspacesNamed request.workspace (← list .workspaces platformPartition))
  let profile ← single (← profilesNamed request.profile (← list .profiles workspace.id))
  let _ ← publishedConfig app workspace.id profile.id
  let device ← beginDevice app
  let timestamp ← now
  let id ← Program.request (Request.random 16)
  let encrypted ← sealText app (.text device.deviceCode)
  let record : EnrollmentRecord :=
    ⟨workspace.id, profile.id, request.gatewayName, encrypted, timestamp + device.expiresIn,
      timestamp + device.interval, device.interval⟩
  let _ ← insert .enrollments platformPartition id (encode record)
  return ⟨id, device.userCode, device.verificationUri, device.interval, device.expiresIn⟩

inductive EnrollmentPoll where
  | pending (interval : Nat)
  | slowDown (interval : Nat)
  | authorized (credential workspaceId gatewayId profileId : String)
  | expired
  | denied
  deriving DecidableEq, Repr

/-- Ask GitHub, or in development say yes at once. -/
def enrollmentPoll (app : App) (deviceCode : String) : Handler DevicePoll := do
  if app.github then pollDeviceFlow deviceCode
  else if app.dev then return .authorized ""
  else throw .unavailable

def enrollmentUser (app : App) (token : String) : Handler GitHubUser := do
  if app.github then consumeToken token
  else if app.dev then return ⟨1, "dev-user", ""⟩
  else throw .unavailable

/-- Mint the gateway of an enrollment whose record has been consumed. -/
def enroll (app : App) (record : EnrollmentRecord) (user : GitHubUser) : Handler EnrollmentPoll := do
  match ← (workspaceRole app user record.workspaceId .operator).attempt with
  | .ok _ => do
    let created ← mint app record.workspaceId ⟨record.gatewayName, record.profileId⟩ user.id
    return .authorized created.credential created.workspaceId created.gateway.id created.gateway.profileId
  | .error .forbidden => return .denied
  | .error e => throw e

def enrollmentAnswer (app : App) (id : String) (record : EnrollmentRecord) (timestamp : Nat)
    (reserved : Entity Value) : DevicePoll → Handler EnrollmentPoll
  | .pending => return .pending record.interval
  | .slowDown => do
    let interval := Text.saturatingAdd record.interval 5
    let record := { record with interval, nextPollAt := Text.saturatingAdd timestamp interval }
    let _ ← replace .enrollments platformPartition id (encode record) reserved.etag
    return .slowDown record.interval
  | .expired => do
    deleteEntity .enrollments reserved
    return .expired
  | .denied => do
    deleteEntity .enrollments reserved
    return .denied
  | .authorized token => do
    let user ← enrollmentUser app token
    deleteEntity .enrollments reserved
    if record.expiresAt ≤ (← now) then return .expired
    else enroll app record user

/-- The poll of one existing record: expire it, answer too early a poll, or reserve and ask GitHub. -/
def enrollmentRecord (app : App) (id : String) (entity : Entity Value) : Handler EnrollmentPoll := do
  let record : EnrollmentRecord ← decode entity.data
  let timestamp ← now
  if record.expiresAt ≤ timestamp then do
    deleteEntity .enrollments entity
    return .expired
  else do
    let early : Bool := timestamp < record.nextPollAt
    let interval := if early then Text.saturatingAdd record.interval 5 else record.interval
    let record := { record with interval, nextPollAt := Text.saturatingAdd timestamp interval }
    -- Terminal replies must consume this exact reservation before any credential can be created.
    let reserved ← replace .enrollments platformPartition id (encode record) entity.etag
    if early then return .slowDown record.interval
    else do
      let deviceCode ← openAs app asText record.encryptedDeviceCode
      enrollmentAnswer app id record timestamp reserved (← enrollmentPoll app deviceCode)

def pollEnrollment (app : App) (id : String) : Handler EnrollmentPoll := do
  Program.request (Request.rateLimit "enrollment.poll" 240 60)
  if base64UrlSize id ≠ some 16 then return .expired
  else
    match ← get .enrollments platformPartition id with
    | none => return .expired
    | some entity => enrollmentRecord app id entity

end Azbridge.Broker.Gateways
