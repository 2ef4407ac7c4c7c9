import Azbridge.Broker.Profiles

/-!
# Workspaces

Names, rows and indexes of workspaces, and the reconciler: restart-safe passes over persisted
provisioning intent. Membership rows, not their lookup indexes, authorize access. Metadata and
credentials are removed with a workspace, while immutable blobs and audit records remain.
-/

namespace Azbridge.Broker.Workspaces
open Auth

def uuid (value : String) : Handler Unit := require (Uuid.isText value) .badRequest

def validName (app : App) (value : String) (max : Nat) : Bool :=
  !value.isEmpty && value.utf8ByteSize ≤ max && Text.trim value == value &&
    value.toList.all fun c => app.unicode.isAlphanumeric c || [' ', '-', '_', '.'].contains c

def validConnectionName (value : String) : Bool :=
  !value.isEmpty && value.utf8ByteSize ≤ 128 && Text.startsWith Char.isAlphanum value &&
    Text.endsWith Char.isAlphanum value &&
    value.toList.all fun c => c.isAlphanum || ['-', '_', '.'].contains c

def workspaceEntity (ws : String) : Handler (Entity Value) := do
  uuid ws
  okOr (← get .workspaces platformPartition ws) .notFound

def activeWorkspace (ws : String) : Handler WorkspaceRecord := do
  let record : WorkspaceRecord ← decode (← workspaceEntity ws).data
  require (record.workspace.id == ws) .notFound
  require (record.workspace.state != .deleting) .conflict
  return record

def deleteEntity (table : Table) (entity : Entity Value) : Handler Unit :=
  delete table entity.partitionKey entity.rowKey entity.etag

/-- A row that somebody else inserted meanwhile is as good. -/
def ensureIndex (ws : String) (userId : Nat) : Handler Unit := do
  match ← get .userWorkspaces (toString userId) ws with
  | some _ => return ()
  | none =>
    match ← (insert .userWorkspaces (toString userId) ws (.index ws)).attempt with
    | .ok _ => return ()
    | .error .conflict => return ()
    | .error e => throw e

def removeIndex (ws user : String) : Handler Unit := do
  match ← get .userWorkspaces user ws with
  | some entity => deleteEntity .userWorkspaces entity
  | none => return ()

def lookupUser (app : App) (login : String) : Handler GitHubUser := do
  require (validLogin login) .badRequest
  if app.dev then
    let login := Text.toAsciiLowercase login
    if login = "dev-admin" then return ⟨1, login, ""⟩
    else match Text.parseU64 login with
      | some id => do
        require (id != 0) .badRequest
        return ⟨id, login, ""⟩
      -- Stay within JavaScript's exact integer range and reserve the bootstrap id.
      | none => return ⟨app.digestPrefix login % 2 ^ 52 + 2, login, ""⟩
  else do
    require app.github .unavailable
    Auth.lookupUser login

/-- A published revision of one of these profiles names the relay, in any case. -/
def connectionInUseBy (app : App) (ws name : String) : List (Entity Value) → Handler Bool
  | [] => return false
  | entity :: rest => do
    let record : ProfileRecord ← decode entity.data
    match record.profile.currentRevision with
    | none => connectionInUseBy app ws name rest
    | some revision => do
      let yaml ← okOr (← getRevision ws record.profile.id (toString revision)) .conflict
      let (config, _) ← okOr (app.yaml.config yaml) .conflict
      if config.relayNames.any fun relay => Text.eqIgnoreAsciiCase relay name then return true
      else connectionInUseBy app ws name rest

/-- Only a profile's published revision protects a connection; old drafts do not. -/
def connectionInUse (app : App) (ws name : String) : Handler Bool := do
  connectionInUseBy app ws name (← list .profiles ws)

end Workspaces

namespace Reconciler
open Workspaces

def maxAttempts : Nat := 5

def shouldRetry (extra : Extra) (status : ProvisioningState) : Handler Bool := do
  if status ≠ .failed then return true
  else if extra.retryable.getD false && decide (extra.attempts.getD 0 < maxAttempts) then
    return decide (extra.retryAt.getD (Text.u64 - 1) ≤ (← now))
  else return false

/-- Count the attempt and back off exponentially. -/
def failureData (extra : Extra) (e : BrokerError) : Handler Extra := do
  let attempts := Text.saturatingAdd (extra.attempts.getD 0) 1
  let retryAt := Text.saturatingAdd (← now) (30 * 2 ^ min attempts 6)
  return { extra with
    attempts := some attempts
    retryable := some (e == .unavailable || e == .internal)
    retryAt := some retryAt }

/-- Replace a row and audit it under its workspace. -/
def save (table : Table) (partition workspace : String) (entity : Entity Value) (data : Value) (action : String) :
    Handler (Entity Value) := do
  let entity ← replace table partition entity.rowKey data entity.etag
  recordAudit workspace "system" action entity.rowKey
  return entity

def saveWorkspace (entity : Entity Value) (data : Value) (action : String) : Handler (Entity Value) :=
  save .workspaces platformPartition entity.rowKey entity data action

def saveConnection (entity : Entity Value) (data : Value) (action : String) : Handler (Entity Value) :=
  save .connections entity.partitionKey entity.partitionKey entity data action

def insertCreator (ws : String) (createdBy : Nat) : Handler Unit := do
  match ← get .members ws (toString createdBy) with
  | some _ => return ()
  | none => do
    let member : Member := ⟨⟨createdBy, toString createdBy, ""⟩, .admin⟩
    let _ ← insert .members ws (toString createdBy) (encode member)

def insertCreatorIndex (ws : String) (createdBy : Nat) : Handler Unit := do
  match ← get .userWorkspaces (toString createdBy) ws with
  | some _ => return ()
  | none => do
    let _ ← insert .userWorkspaces (toString createdBy) ws (.index ws)

def repairCreator (entity : Entity Value) (record : WorkspaceRecord) : Handler (Entity Value) := do
  if entity.data.extra.creatorMembershipInitialized = some true ∨
      ¬ (record.workspace.state = .pending ∨ record.workspace.state = .provisioning) then
    return entity
  else do
    insertCreator entity.rowKey record.createdBy
    insertCreatorIndex entity.rowKey record.createdBy
    let data := entity.data.setExtra fun extra => { extra with creatorMembershipInitialized := some true }
    replace .workspaces platformPartition entity.rowKey data entity.etag

def ensureMemberIndex (ws : String) (entity : Entity Value) : Handler Unit := do
  let member : Member ← decode entity.data
  ensureIndex ws member.user.id

/-- The state, error and retry fields after the Relay manager answered a provisioning request. -/
def provisioningResult (failed : String) (extra : Extra) :
    Except BrokerError ProvisioningState → Handler (ProvisioningState × Option String × Extra)
  | .ok .ready => return (.ready, none, { extra with retryable := some false, attempts := some 0 })
  | .ok .provisioning => return (.provisioning, none, { extra with retryable := some false })
  | .ok .pending => return (.pending, none, { extra with retryable := some false })
  | .ok _ => return (.failed, some failed, { extra with retryable := some false })
  | .error e => return (.failed, some failed, ← failureData extra e)

def provisioningAction (kind : String) : ProvisioningState → String
  | .ready => kind ++ ".ready"
  | .failed => kind ++ ".failed"
  | _ => kind ++ ".pending"

/-- Re-check published references, then delete in the cloud, then the row. -/
def reconcileDeletion (app : App) (workspace : Workspace) (entity : Entity Value) (connection : Connection) :
    Handler Unit := do
  if ← connectionInUse app workspace.id connection.name then return ()
  else
    match ← (Program.request (Request.deleteConnection workspace.namespaceName connection.name)).attempt with
    | .ok true => do
      recordAudit workspace.id "system" "connection.deleted" connection.id
      deleteEntity .connections entity
    | .ok false => return ()
    | .error _ => do
      let data := entity.data.setConnectionError (some "Relay connection deletion failed; retrying")
      let _ ← saveConnection entity data "connection.delete_failed"

def reconcileProvisioning (workspace : Workspace) (entity : Entity Value) (connection : Connection) :
    Handler Unit := do
  if ← shouldRetry entity.data.extra connection.state then do
    let data := entity.data.setConnectionState .provisioning none
    let entity ← saveConnection entity data "connection.provisioning"
    let result ← (Program.request (Request.ensureConnection workspace.namespaceName connection.name)).attempt
    let (state, error, extra) ←
      provisioningResult "Relay connection provisioning failed" entity.data.extra result
    let data := (entity.data.setExtra fun _ => extra).setConnectionState state error
    let _ ← saveConnection entity data (provisioningAction "connection" state)
  else return ()

def reconcileConnection (app : App) (workspace : Workspace) (entity : Entity Value) : Handler Unit := do
  let connection : Connection ← decode entity.data
  if connection.state = .ready then return ()
  else if connection.state = .deleting then reconcileDeletion app workspace entity connection
  else reconcileProvisioning workspace entity connection

def reconcileConnectionsLocked (app : App) (workspace : Workspace) : Handler Unit := do
  Program.forEach (reconcileConnection app workspace) (← list .connections workspace.id)

/-- Delete every row of a workspace's partition. -/
def cleanupTable (workspace : Workspace) (table : Table) : Handler Unit := do
  Program.forEach (deleteEntity table) (← list table workspace.id)

def cleanupEnrollment (workspace : Workspace) (enrollment : Entity Value) : Handler Unit :=
  if enrollment.data.workspaceId = some workspace.id then deleteEntity .enrollments enrollment else pure ()

def cleanupIndex (workspace : Workspace) (user : String) : Handler Unit := do
  match ← get .userWorkspaces user workspace.id with
  | some index => deleteEntity .userWorkspaces index
  | none => return ()

def deleteWorkspaceLocked (entity : Entity Value) (workspace : Workspace) : Handler Unit := do
  require (← list .connections workspace.id).isEmpty .conflict
  -- Remove credentials before deleting cloud resources.
  Program.forEach (cleanupTable workspace) [.gateways, .enrollments, .profiles, .revisionMetadata]
  -- Enrollment handles are globally addressed, while credentials are workspace-scoped.
  Program.forEach (cleanupEnrollment workspace) (← list .enrollments platformPartition)
  cleanupTable workspace .members
  Program.forEach (cleanupIndex workspace) (entity.data.extra.cleanupUserIds.getD [])
  match ← (Program.request (Request.deleteNamespace workspace.namespaceName)).attempt with
  | .ok true => do
    recordAudit workspace.id "system" "workspace.deleted" workspace.id
    deleteEntity .workspaces entity
  | .ok false => return ()
  | .error _ => do
    let data := entity.data.setWorkspaceError "Relay namespace deletion failed; retrying"
    let _ ← saveWorkspace entity data "workspace.delete_failed"

/-- One provisioning attempt of a workspace that is not Ready; returns the record it leaves. -/
def reconcileNamespace (entity : Entity Value) (record : WorkspaceRecord) : Handler WorkspaceRecord := do
  let workspace := { record.workspace with state := .provisioning, error := none }
  let entity ← saveWorkspace entity (entity.data.setWorkspace workspace) "workspace.provisioning"
  let result ← (Program.request (Request.ensureNamespace workspace.namespaceName workspace.location)).attempt
  let (state, error, extra) ← provisioningResult "Relay namespace provisioning failed" entity.data.extra result
  let workspace := { workspace with state, error }
  let data := (entity.data.setExtra fun _ => extra).setWorkspace workspace
  let _ ← saveWorkspace entity data (provisioningAction "workspace" state)
  return { record with workspace }

def reconcileActive (app : App) (ws : String) (entity : Entity Value) (record : WorkspaceRecord) :
    Handler Unit := do
  let entity ← repairCreator entity record
  Program.forEach (ensureMemberIndex ws) (← list .members ws)
  let record ←
    if record.workspace.state ≠ .ready then do
      if ← shouldRetry entity.data.extra record.workspace.state then reconcileNamespace entity record
      else pure record
    else pure record
  if record.workspace.state = .ready then reconcileConnectionsLocked app record.workspace else return ()

def reconcileWorkspaceLocked (app : App) (ws : String) : Handler Unit := do
  match ← (workspaceEntity ws).attempt with
  | .error .notFound => return ()
  | .error e => throw e
  | .ok entity => do
    let record : WorkspaceRecord ← decode entity.data
    if record.workspace.state = .deleting then deleteWorkspaceLocked entity record.workspace
    else reconcileActive app ws entity record

/-- Failures do not stop independent workspaces; the last one is reported. -/
def reconcileAll (app : App) (failure : Option BrokerError) : List (Entity Value) → Handler Unit
  | [] => .done (match failure with
    | none => .ok ()
    | some e => .error e)
  | entity :: rest => do
    match ← (reconcileWorkspaceLocked app entity.rowKey).attempt with
    | .ok () => reconcileAll app failure rest
    | .error e => reconcileAll app (some e) rest

/-- One pass. It gives up the lock between two workspaces. -/
def reconcileOnce (app : App) : Handler Unit := do
  reconcileAll app none (← list .workspaces platformPartition)

end Reconciler
end Azbridge.Broker
