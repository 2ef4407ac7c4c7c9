import Azbridge.Text

/-!
# Broker records

The HTTP shapes of the broker API, the persisted records, and the JSON values the broker stores.
-/

namespace Azbridge.Broker

inductive BrokerError where
  | badRequest | unauthorized | forbidden | notFound | conflict | workspaceNotEmpty
  | connectionInUse | profileInUse | methodNotAllowed | tooManyRequests | unavailable | internal
  deriving DecidableEq, Repr

structure GitHubUser where
  id : Nat
  login : String
  avatarUrl : String
  deriving DecidableEq, Repr

/-- Roles are ordered from least to most privileged. -/
inductive Role where
  | reader | operator | admin
  deriving DecidableEq, Repr

def Role.rank : Role → Nat
  | .reader => 0
  | .operator => 1
  | .admin => 2

def Role.permits (self required : Role) : Bool := required.rank ≤ self.rank

inductive ProvisioningState where
  | pending | provisioning | ready | failed | deleting
  deriving DecidableEq, Repr

inductive RelayRight where
  | send | listen
  deriving DecidableEq, Repr

structure Workspace where
  id : String
  name : String
  namespaceName : String
  location : String
  state : ProvisioningState
  error : Option String := none
  deriving DecidableEq, Repr

structure Member where
  user : GitHubUser
  role : Role
  deriving DecidableEq, Repr

structure Connection where
  id : String
  name : String
  state : ProvisioningState
  error : Option String := none
  deriving DecidableEq, Repr

structure Profile where
  id : String
  name : String
  currentRevision : Option Nat
  deriving DecidableEq, Repr

structure ConfigRevision where
  revision : Nat
  createdAt : Nat
  yaml : String
  deriving DecidableEq, Repr

structure Gateway where
  id : String
  name : String
  profileId : String
  revoked : Bool
  lastSeenAt : Option Nat := none
  appliedRevision : Option Nat := none
  version : Option String := none
  hostname : Option String := none
  deriving DecidableEq, Repr

structure AuditEntry where
  id : String
  at_ : Nat
  actor : String
  action : String
  target : String
  deriving DecidableEq, Repr

structure RelayTokenResponse where
  token : String
  expiresAt : Nat
  deriving DecidableEq, Repr

/-! ### Persisted records -/

def platformPartition : String := "platform"

structure WorkspaceRecord where
  workspace : Workspace
  createdBy : Nat
  deriving DecidableEq, Repr

structure ProfileRecord where
  profile : Profile
  nextRevision : Nat
  deriving DecidableEq, Repr

structure RevisionRecord where
  revision : Nat
  createdAt : Nat
  deriving DecidableEq, Repr

structure GatewayRecord where
  gateway : Gateway
  credentialHash : String
  createdBy : Nat
  deriving DecidableEq, Repr

structure EnrollmentRecord where
  workspaceId : String
  profileId : String
  gatewayName : String
  encryptedDeviceCode : String
  expiresAt : Nat
  nextPollAt : Nat
  interval : Nat
  deriving DecidableEq, Repr

structure DeviceLoginRecord where
  encryptedDeviceCode : String
  expiresAt : Nat
  nextPollAt : Nat
  interval : Nat
  deriving DecidableEq, Repr

def revisionKey (profileId : String) (revision : Nat) : String :=
  profileId ++ ":" ++ String.ofList (Text.padded 20 revision)

/-- The fields that workspace and connection rows carry beside their record. Writing a row from
its record alone drops them. -/
structure Extra where
  creatorMembershipInitialized : Option Bool := none
  cleanupUserIds : Option (List String) := none
  attempts : Option Nat := none
  retryable : Option Bool := none
  retryAt : Option Nat := none
  deriving DecidableEq, Repr

/-- The JSON values the broker stores, one constructor for each shape. -/
inductive Value where
  | workspace (record : WorkspaceRecord) (extra : Extra)
  | member (member : Member)
  | index (workspaceId : String)
  | platformAdmin
  | connection (connection : Connection) (extra : Extra)
  | profile (record : ProfileRecord)
  | revision (record : RevisionRecord)
  | gateway (record : GatewayRecord)
  | enrollment (record : EnrollmentRecord)
  | deviceLogin (record : DeviceLoginRecord)
  | oauth (expiresAt : Nat)
  | audit (entry : AuditEntry)
  deriving DecidableEq, Repr

/-- `serde` encoding and decoding of one record shape. -/
class Record (α : Type) where
  encode : α → Value
  decode : Value → Option α

export Record (encode)

instance : Record WorkspaceRecord where
  encode r := .workspace r {}
  decode | .workspace r _ => some r | _ => none

instance : Record Member where
  encode := .member
  decode | .member m => some m | _ => none

instance : Record Connection where
  encode c := .connection c {}
  decode | .connection c _ => some c | _ => none

instance : Record ProfileRecord where
  encode := .profile
  decode | .profile r => some r | _ => none

instance : Record RevisionRecord where
  encode := .revision
  decode | .revision r => some r | _ => none

instance : Record GatewayRecord where
  encode := .gateway
  decode | .gateway r => some r | _ => none

instance : Record EnrollmentRecord where
  encode := .enrollment
  decode | .enrollment r => some r | _ => none

/-- Unknown fields are ignored, so an enrollment also reads as a device login. -/
instance : Record DeviceLoginRecord where
  encode := .deviceLogin
  decode
    | .deviceLogin r => some r
    | .enrollment r => some ⟨r.encryptedDeviceCode, r.expiresAt, r.nextPollAt, r.interval⟩
    | _ => none

instance : Record AuditEntry where
  encode := .audit
  decode | .audit e => some e | _ => none

namespace Value

def extra : Value → Extra
  | .workspace _ extra | .connection _ extra => extra
  | _ => {}

/-- Assign fields of the row that its record does not have. -/
def setExtra (f : Extra → Extra) : Value → Value
  | .workspace r extra => .workspace r (f extra)
  | .connection c extra => .connection c (f extra)
  | v => v

/-- `data["workspace"] = workspace`. -/
def setWorkspace (workspace : Workspace) : Value → Value
  | .workspace r extra => .workspace { r with workspace } extra
  | v => v

/-- `data["workspace"]["error"] = error`. -/
def setWorkspaceError (error : String) : Value → Value
  | .workspace r extra => .workspace { r with workspace := { r.workspace with error := some error } } extra
  | v => v

/-- `data["state"] = state; data["error"] = error`. -/
def setConnectionState (state : ProvisioningState) (error : Option String) : Value → Value
  | .connection c extra => .connection { c with state, error } extra
  | v => v

/-- `data["error"] = error`. -/
def setConnectionError (error : Option String) : Value → Value
  | .connection c extra => .connection { c with error } extra
  | v => v

/-- `data["workspaceId"].as_str()`. -/
def workspaceId : Value → Option String
  | .enrollment r => some r.workspaceId
  | .index ws => some ws
  | _ => none

/-- `data["expiresAt"].as_u64()`. -/
def expiresAt : Value → Option Nat
  | .enrollment r => some r.expiresAt
  | .deviceLogin r => some r.expiresAt
  | .oauth at_ => some at_
  | _ => none

end Value
end Azbridge.Broker
