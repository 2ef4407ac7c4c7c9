import Azbridge.Broker.Workspaces

/-!
# Workspace administration

The workspace, member and connection endpoints. Namespace names are always generated here; no
endpoint accepts customer resource identifiers.
-/

namespace Azbridge.Broker.Administration
open Auth Workspaces Reconciler

structure CreateWorkspaceRequest where
  name : String
  location : String
  deriving DecidableEq, Repr

def validLocation (location : String) : Bool :=
  !location.isEmpty && location.utf8ByteSize ≤ 64 && location.toList.all fun c => c.isLower || c.isDigit

def slugChars (name : String) : List Char :=
  (((Text.toAsciiLowercase name).toList.map fun c => if c.isAlphanum then c else '-').take 13)

def trimDashes (cs : List Char) : List Char :=
  ((cs.dropWhile (· == '-')).reverse.dropWhile (· == '-')).reverse

def slug (name : String) : String :=
  let trimmed := String.ofList (trimDashes (slugChars name))
  if trimmed.isEmpty then "workspace" else trimmed

/-- The namespace of a workspace of this name, for which the UUID is drawn. -/
def namespaceOf (name : String) (u : Uuid) : String := "azb-" ++ slug name ++ "-" ++ u.simple

def listWorkspaces (app : App) (headers : Headers) : Handler (List Workspace) := do
  let session ← currentSession app headers
  accessibleWorkspaces app session.user

def checkLocation (app : App) (location : String) : Handler Unit := do
  if app.dev then return ()
  else do
    let allowed ← okOr app.allowedLocations .unavailable
    require (allowed.contains location) .badRequest

def createWorkspace (app : App) (headers : Headers) (request : CreateWorkspaceRequest) : Handler Workspace := do
  let session ← requirePlatformAdmin app headers true
  require (validName app request.name 100 && validLocation request.location) .badRequest
  checkLocation app request.location
  let id := (← newUuid).hyphenated
  let namespaceName := namespaceOf request.name (← newUuid)
  let record : WorkspaceRecord := ⟨⟨id, request.name, namespaceName, request.location, .pending, none⟩, session.user.id⟩
  let _ ← insert .workspaces platformPartition id (encode record)
  let member : Member := ⟨session.user, .admin⟩
  let _ ← insert .members id (toString member.user.id) (encode member)
  ensureIndex id member.user.id
  recordAudit id (toString member.user.id) "workspace.create" id
  let entity ← workspaceEntity id
  let data := entity.data.setExtra fun extra => { extra with creatorMembershipInitialized := some true }
  let _ ← replace .workspaces platformPartition id data entity.etag
  reconcileWorkspaceLocked app id
  let updated : WorkspaceRecord ← decode (← workspaceEntity id).data
  return updated.workspace

def getWorkspace (app : App) (headers : Headers) (ws : String) : Handler Workspace := do
  let _ ← authorize app headers ws .reader false
  let record : WorkspaceRecord ← decode (← workspaceEntity ws).data
  return record.workspace

def markDeleting (ws : String) (actor : Nat) (entity : Entity Value) (record : WorkspaceRecord) : Handler Unit := do
  if record.workspace.state = .deleting then return ()
  else do
    let record := { record with workspace := { record.workspace with state := .deleting, error := none } }
    let users := (← list .members ws).map (·.rowKey)
    -- Keep the cleanup journal until namespace deletion completes.
    let data := (encode record).setExtra fun extra => { extra with cleanupUserIds := some users }
    let _ ← replace .workspaces platformPartition ws data entity.etag
    recordAudit ws (toString actor) "workspace.delete" ws

/-- The status code: 202 while the namespace is still there, 204 once the workspace is gone. -/
def deleteWorkspace (app : App) (headers : Headers) (ws : String) : Handler Nat := do
  let session ← authorize app headers ws .admin true
  let entity ← workspaceEntity ws
  let record : WorkspaceRecord ← decode entity.data
  require (← list .connections ws).isEmpty .workspaceNotEmpty
  markDeleting ws session.user.id entity record
  reconcileWorkspaceLocked app ws
  return if (← get .workspaces platformPartition ws).isSome then 202 else 204

structure CreateMemberRequest where
  login : String
  role : Role
  deriving DecidableEq, Repr

def listMembers (app : App) (headers : Headers) (ws : String) : Handler (List Member) := do
  let _ ← authorize app headers ws .reader false
  let _ ← activeWorkspace ws
  decodeAll (← list .members ws)

/-- The status code and the member: 200 for a membership that was there, 201 for a new one. -/
def createMember (app : App) (headers : Headers) (ws : String) (request : CreateMemberRequest) :
    Handler (Nat × Member) := do
  let session ← authorize app headers ws .admin true
  let _ ← activeWorkspace ws
  let member : Member := ⟨← lookupUser app request.login, request.role⟩
  match ← get .members ws (toString member.user.id) with
  | some entity => do
    let existing : Member ← decode entity.data
    require (existing.role == member.role) .conflict
    ensureIndex ws member.user.id
    return (200, existing)
  | none => do
    let _ ← insert .members ws (toString member.user.id) (encode member)
    ensureIndex ws member.user.id
    recordAudit ws (toString session.user.id) "member.create" (toString member.user.id)
    return (201, member)

def memberId (id : String) : Handler Unit :=
  require (id.toList.all Char.isDigit && (Text.parseU64 id).isSome && !Text.startsWith (· == '0') id) .badRequest

/-- Changing or removing (`none`) the role of the only administrator is refused. -/
def protectLastAdmin (ws : String) (member : Member) (role : Option Role) : Handler Unit := do
  if member.role = .admin ∧ role ≠ some .admin then do
    let members : List Member ← decodeAll (← list .members ws)
    require (decide (1 < members.countP fun m => m.role == .admin)) .conflict
  else return ()

def updateMember (app : App) (headers : Headers) (ws id : String) (role : Role) : Handler Member := do
  let session ← authorize app headers ws .admin true
  let _ ← activeWorkspace ws
  memberId id
  let entity ← okOr (← get .members ws id) .notFound
  let member : Member ← decode entity.data
  protectLastAdmin ws member (some role)
  let member := { member with role }
  let _ ← replace .members ws id (encode member) entity.etag
  ensureIndex ws member.user.id
  recordAudit ws (toString session.user.id) "member.update" id
  return member

def deleteMember (app : App) (headers : Headers) (ws id : String) : Handler Unit := do
  let session ← authorize app headers ws .admin true
  let _ ← activeWorkspace ws
  memberId id
  match ← get .members ws id with
  | some entity => do
    let member : Member ← decode entity.data
    protectLastAdmin ws member none
    deleteEntity .members entity
    recordAudit ws (toString session.user.id) "member.delete" id
    removeIndex ws id
  | none => removeIndex ws id

def listConnections (app : App) (headers : Headers) (ws : String) : Handler (List Connection) := do
  let _ ← authorize app headers ws .reader false
  let _ ← activeWorkspace ws
  decodeAll (← list .connections ws)

/-- No two connections of a workspace have names that differ in ASCII case at most. -/
def connectionNameIsFree (name : String) : List (Entity Value) → Handler Unit
  | [] => return ()
  | entity :: rest => do
    let connection : Connection ← decode entity.data
    require (!Text.eqIgnoreAsciiCase connection.name name) .conflict
    connectionNameIsFree name rest

def createConnection (app : App) (headers : Headers) (ws name : String) : Handler Connection := do
  let session ← authorize app headers ws .admin true
  let workspace ← activeWorkspace ws
  require (workspace.workspace.state == .ready) .conflict
  require (validConnectionName name) .badRequest
  connectionNameIsFree name (← list .connections ws)
  let connection : Connection := ⟨(← newUuid).hyphenated, name, .pending, none⟩
  let _ ← insert .connections ws connection.id (encode connection)
  recordAudit ws (toString session.user.id) "connection.create" connection.id
  reconcileConnectionsLocked app workspace.workspace
  decode (← okOr (← get .connections ws connection.id) .notFound).data

/-- Mark the connection for deletion, once. -/
def retire (ws id : String) (actor : Nat) (entity : Entity Value) (connection : Connection) : Handler Unit := do
  if connection.state = .deleting then return ()
  else do
    let connection := { connection with state := .deleting, error := none }
    let _ ← replace .connections ws id (encode connection) entity.etag
    recordAudit ws (toString actor) "connection.delete" id

/-- The status code: 202 while the connection is still there, 204 once it is gone. -/
def deleteConnection (app : App) (headers : Headers) (ws id : String) : Handler Nat := do
  let session ← authorize app headers ws .admin true
  let workspace ← activeWorkspace ws
  uuid id
  let entity ← okOr (← get .connections ws id) .notFound
  let connection : Connection ← decode entity.data
  require (!(← connectionInUse app ws connection.name)) .connectionInUse
  retire ws id session.user.id entity connection
  reconcileConnectionsLocked app workspace.workspace
  return if (← get .connections ws id).isSome then 202 else 204

def rotateConnection (app : App) (headers : Headers) (ws id : String) : Handler Unit := do
  let session ← authorize app headers ws .admin true
  let workspace ← activeWorkspace ws
  uuid id
  let connection : Connection ← decode (← okOr (← get .connections ws id) .notFound).data
  require (workspace.workspace.state == .ready && connection.state == .ready) .conflict
  -- Even a partial key regeneration must leave an audit trail.
  recordAudit ws (toString session.user.id) "connection.rotate" id
  match ← (Program.request (Request.rotateKeys workspace.workspace.namespaceName connection.name)).attempt with
  | .ok () => return ()
  | .error _ => throw .unavailable

def listAudit (app : App) (headers : Headers) (ws : String) : Handler (List AuditEntry) := do
  let _ ← authorize app headers ws .reader false
  let _ ← workspaceEntity ws
  let entries : List AuditEntry ← decodeAll (← list .audit ws)
  return entries.mergeSort fun a b => decide (b.at_ < a.at_) || (a.at_ == b.at_ && decide (b.id ≤ a.id))

end Azbridge.Broker.Administration
