import Azbridge.Lib.Interleaving
import Azbridge.Broker.Administration
import Azbridge.Broker.Gateways

/-!
# Operations

Every endpoint, the reconciler and the enrollment cleanup as operations of one interleaved
system. `Op.locked` says which of them hold the process-wide mutation lock.
-/

namespace Azbridge.Broker
open Auth Administration Profiles Gateways Reconciler

inductive Op where
  | listWorkspaces (headers : Headers)
  | createWorkspace (headers : Headers) (request : CreateWorkspaceRequest)
  | getWorkspace (headers : Headers) (ws : String)
  | deleteWorkspace (headers : Headers) (ws : String)
  | listMembers (headers : Headers) (ws : String)
  | createMember (headers : Headers) (ws : String) (request : CreateMemberRequest)
  | updateMember (headers : Headers) (ws id : String) (role : Role)
  | deleteMember (headers : Headers) (ws id : String)
  | listConnections (headers : Headers) (ws : String)
  | createConnection (headers : Headers) (ws name : String)
  | deleteConnection (headers : Headers) (ws id : String)
  | rotateConnection (headers : Headers) (ws id : String)
  | listAudit (headers : Headers) (ws : String)
  | listProfiles (headers : Headers) (ws : String)
  | createProfile (headers : Headers) (ws name : String)
  | getProfile (headers : Headers) (ws id : String)
  | deleteProfile (headers : Headers) (ws id : String)
  | validate (headers : Headers) (ws id yaml : String)
  | listRevisions (headers : Headers) (ws id : String)
  | getRevision (headers : Headers) (ws id : String) (number : Nat)
  | createRevision (headers : Headers) (ws id yaml : String)
  | publish (headers : Headers) (ws id : String) (request : PublishRevisionRequest)
  | listGateways (headers : Headers) (ws : String)
  | createGateway (headers : Headers) (ws : String) (payload : Option CreateGatewayRequest)
  | revokeGateway (headers : Headers) (ws id : String)
  | gatewayConfig (headers : Headers)
  | relayToken (headers : Headers) (payload : Option RelayTokenRequest)
  | status (headers : Headers) (payload : Option GatewayStatusRequest)
  | gatewayLogout (headers : Headers)
  | startEnrollment (payload : Option EnrollmentStartRequest)
  | pollEnrollment (id : String)
  | me (headers : Headers)
  | login
  | callback (headers : Headers) (query : CallbackQuery)
  | devLogin (headers : Headers)
  | logout (headers : Headers)
  | deviceStart (headers : Headers)
  | devicePoll (headers : Headers)
  | cleanup
  /-- One locked section of a reconciler pass. -/
  | reconcileWorkspace (ws : String)
  /-- A pass during which nobody else gets the lock; any other pass is its listing followed by a
  `reconcileWorkspace` for each workspace. -/
  | reconcileOnce

/-- The results that later operations or clients depend on. -/
inductive Outcome where
  | done
  | revision (created : ConfigRevision)
  | gatewayCreated (response : CreateGatewayResponse)
  | configServed (response : GatewayConfigResponse)
  | enrollmentStarted (response : EnrollmentStartResponse)
  | enrollmentPolled (reply : EnrollmentPoll)
  | deviceStarted (response : Response DeviceLoginStart)
  | devicePolled (response : Response DeviceLoginPoll)
  | signedIn (response : Response String)

namespace Op

/-- The handler runs under the mutation lock. -/
def locked : Op → Bool
  | createWorkspace .. | deleteWorkspace .. | createMember .. | updateMember .. | deleteMember ..
  | createConnection .. | deleteConnection .. | rotateConnection .. | createProfile .. | deleteProfile ..
  | validate .. | createRevision .. | publish .. | createGateway .. | revokeGateway .. | gatewayConfig ..
  | relayToken .. | status .. | gatewayLogout .. | startEnrollment .. | pollEnrollment ..
  | reconcileWorkspace .. | reconcileOnce => true
  | _ => false

/-- Forget a result that nothing else depends on. -/
def ignore {α : Type} (p : Handler α) : Handler Outcome := do
  let _ ← p
  return .done

def program (app : App) : Op → Handler Outcome
  | listWorkspaces headers => ignore (Administration.listWorkspaces app headers)
  | createWorkspace headers request => ignore (Administration.createWorkspace app headers request)
  | getWorkspace headers ws => ignore (Administration.getWorkspace app headers ws)
  | deleteWorkspace headers ws => ignore (Administration.deleteWorkspace app headers ws)
  | listMembers headers ws => ignore (Administration.listMembers app headers ws)
  | createMember headers ws request => ignore (Administration.createMember app headers ws request)
  | updateMember headers ws id role => ignore (Administration.updateMember app headers ws id role)
  | deleteMember headers ws id => ignore (Administration.deleteMember app headers ws id)
  | listConnections headers ws => ignore (Administration.listConnections app headers ws)
  | createConnection headers ws name => ignore (Administration.createConnection app headers ws name)
  | deleteConnection headers ws id => ignore (Administration.deleteConnection app headers ws id)
  | rotateConnection headers ws id => ignore (Administration.rotateConnection app headers ws id)
  | listAudit headers ws => ignore (Administration.listAudit app headers ws)
  | listProfiles headers ws => ignore (Profiles.listProfiles app ws headers)
  | createProfile headers ws name => ignore (Profiles.createProfile app ws headers name)
  | getProfile headers ws id => ignore (Profiles.getProfile app ws id headers)
  | deleteProfile headers ws id => ignore (Profiles.deleteProfile app ws id headers)
  | validate headers ws id yaml => ignore (Profiles.validate app ws id headers yaml)
  | listRevisions headers ws id => ignore (Profiles.listRevisions app ws id headers)
  | getRevision headers ws id number => ignore (Profiles.getRevisionOf app ws id number headers)
  | createRevision headers ws id yaml => do
    return .revision (← Profiles.createRevision app ws id headers yaml)
  | publish headers ws id request => ignore (Profiles.publish app ws id headers request)
  | listGateways headers ws => ignore (Gateways.listGateways app ws headers)
  | createGateway headers ws payload => do
    return .gatewayCreated (← Gateways.createGateway app ws headers payload)
  | revokeGateway headers ws id => ignore (Gateways.revokeGateway app ws id headers)
  | gatewayConfig headers => do
    return .configServed (← Gateways.gatewayConfig app headers)
  | relayToken headers payload => ignore (Gateways.relayToken app headers payload)
  | status headers payload => ignore (Gateways.status app headers payload)
  | gatewayLogout headers => ignore (Gateways.logout app headers)
  | startEnrollment payload => do
    return .enrollmentStarted (← Gateways.startEnrollment app payload)
  | pollEnrollment id => do
    return .enrollmentPolled (← Gateways.pollEnrollment app id)
  | me headers => ignore (Auth.me app headers)
  | login => ignore (Auth.login app)
  | callback headers query => do
    return .signedIn (← Auth.callback app headers query)
  | devLogin headers => ignore (Auth.devLogin app headers)
  | logout headers => ignore (Auth.logout app headers)
  | deviceStart headers => do
    return .deviceStarted (← Auth.deviceStart app headers)
  | devicePoll headers => do
    return .devicePolled (← Auth.devicePoll app headers)
  | cleanup => ignore cleanupExpiredEnrollments
  | reconcileWorkspace ws => ignore (reconcileWorkspaceLocked app ws)
  | reconcileOnce => ignore (Reconciler.reconcileOnce app)

end Op

/-- The broker with its lock: locked operations exclude each other, the rest interleave freely.
`admits` restricts when an operation may start. -/
def serial (app : App) (admits : Op → World → Prop) :
    Interleaving.System Op Request Reply BrokerError Outcome World where
  program := Op.program app
  answers _ := Responds anyTime
  admits := admits
  overlap o o' := ¬ (o.locked = true ∧ o'.locked = true)

abbrev Pool := Interleaving.Pool Op Request Reply BrokerError Outcome World

end Azbridge.Broker
