import Azbridge.Broker.Access

/-!
# Reading handlers

Which handlers, or parts of one, leave the ledger and the enrollments alone whatever they are
answered: they only read the stores, look at the clock, draw random strings and call GitHub.
-/

namespace Azbridge.Broker
open Program Auth Workspaces Profiles Gateways

/-- The program only reads. -/
abbrev Reading {α : Type} (p : Handler α) : Prop := p.Uses Request.Reads

/-- It asks the stores, the clock, the source of random strings or GitHub. -/
def Request.Looks : Request → Prop
  | .get .. | .list .. | .getRevision .. | .now | .random _ | .startDeviceFlow | .accessToken _ | .user _ | .lookupUser _
  | .revokeToken _ => True
  | _ => False

/-- `P` allows all such requests. -/
class Looking (P : Request → Prop) : Prop where
  allows : ∀ {r : Request}, r.Looks → P r

instance : Looking Request.Reads where
  allows {r} looks := by
    cases r with
    | insert | replace | delete | putRevision | newUuid | ensureNamespace | deleteNamespace | ensureConnection | deleteConnection
      | issueToken => cases looks
    | _ => exact ⟨rfl, nofun, nofun⟩

namespace Reading
variable {α β : Type} {P : Request → Prop} {app : App} {headers : Headers} {ws id name login token : String}
  {e : BrokerError}

theorem ite {c : Prop} [Decidable c] {p q : Handler α} (yes : p.Uses P) (no : q.Uses P) :
    (if c then p else q).Uses P := by
  split
  · exact yes
  · exact no

theorem require {condition : Bool} : (Broker.require condition e).Uses P := ite .done .done

theorem okOr {value : Option α} : (Broker.okOr value e).Uses P := by
  cases value <;> exact .done

theorem decode [Record α] {value : Value} : (Broker.decode value : Handler α).Uses P := okOr

theorem decodeAll [Record α] : ∀ entities : List (Entity Value), (decodeAll entities : Handler (List α)).Uses P
  | [] => uses_pure []
  | _ :: rest => decode.bind fun _ => (decodeAll rest).bind fun _ => uses_pure _

theorem openAs {select : Plaintext → Option α} : (openAs app select token).Uses P := okOr

theorem identity {reply : GitHubUser} : (identity reply).Uses P := require.bind fun _ => uses_pure _

theorem nameIsFree : ∀ entities : List (Entity Value), (nameIsFree name entities).Uses P
  | [] => uses_pure ()
  | _ :: rest => decode.bind fun _ => require.bind fun _ => nameIsFree rest

theorem checkLocation {location : String} : (Administration.checkLocation app location).Uses P :=
  ite (uses_pure _) (okOr.bind fun _ => require)

theorem workspacesNamed : ∀ entities : List (Entity Value), (workspacesNamed name entities).Uses P
  | [] => uses_pure []
  | _ :: rest => decode.bind fun _ => (workspacesNamed rest).bind fun _ => uses_pure _

theorem profilesNamed : ∀ entities : List (Entity Value), (profilesNamed name entities).Uses P
  | [] => uses_pure []
  | _ :: rest => decode.bind fun _ => (profilesNamed rest).bind fun _ => uses_pure _

theorem single {found : List α} : (single found).Uses P := by
  unfold Gateways.single
  split
  · exact uses_pure _
  · exact uses_throw _

section Looking
variable [Looking P]

/-! ### Requests -/

theorem looking (r : Request) (looks : r.Looks) : (Program.request r : Handler (Reply r)).Uses P :=
  uses_request (Looking.allows looks)

theorem get {t : Table} {partition row : String} : (Broker.get t partition row).Uses P :=
  looking (.get t partition row) trivial

theorem list {t : Table} {partition : String} : (Broker.list t partition).Uses P :=
  looking (.list t partition) trivial

theorem getRevision {revision : String} : (Broker.getRevision ws id revision).Uses P :=
  looking (.getRevision ws id revision) trivial

theorem now : Broker.now.Uses P := looking .now trivial

theorem randomSecret : Broker.randomSecret.Uses P := looking (.random 32) trivial

/-! ### GitHub -/

theorem exchangeCode {code callback verifier : String} : (exchangeCode code callback verifier).Uses P :=
  (looking (.accessToken (.code code callback verifier)) trivial).bind fun _ => require.bind fun _ => okOr

theorem startDeviceFlow : (startDeviceFlow app).Uses P :=
  (looking .startDeviceFlow trivial).bind fun _ => require.bind fun _ => require.bind fun _ => uses_pure _

theorem pollDeviceFlow {deviceCode : String} : (pollDeviceFlow deviceCode).Uses P :=
  (looking (.accessToken (.deviceCode deviceCode)) trivial).bind fun _ => .done

theorem consumeToken : (consumeToken token).Uses P := by
  have user : (Auth.user token).Uses P := (looking (.user token) trivial).bind fun _ => identity
  have revoke : (revokeToken token).Uses P := (looking (.revokeToken token) trivial).bind fun _ => require
  exact user.attempt.bind fun _ => revoke.bind fun _ => .done

theorem lookupUser : (Workspaces.lookupUser app login).Uses P := by
  refine require.bind fun _ => ite (ite (uses_pure _) ?_) ?_
  · split
    · exact require.bind fun _ => uses_pure _
    · exact uses_pure _
  · refine require.bind fun _ => require.bind fun _ => ?_
    exact (looking (.lookupUser login) trivial).bind fun _ => identity

/-! ### Sessions and roles -/

theorem currentSession : (currentSession app headers).Uses P :=
  Uses.done.bind fun _ => openAs.bind fun _ => now.bind fun _ => require.bind fun _ => uses_pure _

theorem sessionFor {mutating : Bool} : (sessionFor app headers mutating).Uses P :=
  currentSession.bind fun _ => Uses.done.bind fun _ => uses_pure _

theorem isPlatformAdmin {user : GitHubUser} : (isPlatformAdmin app user).Uses P :=
  ite (uses_pure _) (get.bind fun _ => uses_pure _)

theorem workspaceRole {user : GitHubUser} {required : Role} : (workspaceRole app user ws required).Uses P := by
  refine require.bind fun _ => isPlatformAdmin.bind fun _ => ite (uses_pure _) ?_
  exact get.bind fun _ => okOr.bind fun _ => decode.bind fun _ => require.bind fun _ => uses_pure _

theorem authorize {required : Role} {mutating : Bool} : (authorize app headers ws required mutating).Uses P :=
  sessionFor.bind fun _ => workspaceRole.bind fun _ => uses_pure _

theorem requirePlatformAdmin {mutating : Bool} : (requirePlatformAdmin app headers mutating).Uses P :=
  sessionFor.bind fun _ => isPlatformAdmin.bind fun _ => require.bind fun _ => uses_pure _

theorem indexedWorkspaces {user : GitHubUser} :
    ∀ entries : List (Entity Value), (indexedWorkspaces user entries).Uses P
  | [] => uses_pure []
  | _ :: rest => by
    refine get.bind fun member => ?_
    cases member with
    | none => exact indexedWorkspaces rest
    | some _ =>
      refine get.bind fun workspace => ?_
      cases workspace with
      | none => exact indexedWorkspaces rest
      | some _ => exact (indexedWorkspaces rest).bind fun _ => uses_pure _

theorem accessibleWorkspaces {user : GitHubUser} : (accessibleWorkspaces app user).Uses P := by
  have decoded : ∀ entities : List (Entity Value), (do
      let records : List WorkspaceRecord ← Broker.decodeAll entities
      return records.map (·.workspace) : Handler (List Workspace)).Uses P := fun entities => (decodeAll entities).bind fun _ => uses_pure _
  refine isPlatformAdmin.bind fun _ => ite (list.bind decoded) ?_
  exact list.bind fun entries => (indexedWorkspaces entries).bind decoded

theorem mayEnter {user : GitHubUser} : (mayEnter app user).Uses P :=
  isPlatformAdmin.bind fun _ => ite (uses_pure _) (accessibleWorkspaces.bind fun _ => uses_pure _)

/-! ### Workspaces, profiles and gateways -/

theorem workspaceEntity : (workspaceEntity ws).Uses P := require.bind fun _ => get.bind fun _ => okOr

theorem activeWorkspace : (activeWorkspace ws).Uses P :=
  workspaceEntity.bind fun _ => decode.bind fun _ => require.bind fun _ => require.bind fun _ => uses_pure _

theorem readyWorkspace : (readyWorkspace ws).Uses P :=
  activeWorkspace.bind fun _ => require.bind fun _ => uses_pure _

theorem shouldRetry {extra : Extra} {state : ProvisioningState} : (Reconciler.shouldRetry extra state).Uses P :=
  ite (uses_pure _) (ite (now.bind fun _ => uses_pure _) (uses_pure _))

theorem workspace {ready : Bool} : (Profiles.workspace ws ready).Uses P :=
  require.bind fun _ => get.bind fun _ => okOr.bind fun _ => decode.bind fun _ => require.bind fun _ => require

theorem profile : (Profiles.profile ws id).Uses P :=
  require.bind fun _ => get.bind fun _ => okOr.bind fun _ => decode.bind fun _ => require.bind fun _ => uses_pure _

theorem checkConfig {yaml : String} : (checkConfig app ws yaml).Uses P := by
  refine workspace.bind fun _ => ?_
  split
  · exact uses_pure _
  · exact list.bind fun _ => (decodeAll _).bind fun _ => uses_pure _

theorem validateConfig {yaml : String} : (validateConfig app ws yaml).Uses P := by
  refine checkConfig.bind fun result => ?_
  cases result with
  | ok config => exact uses_pure _
  | error errors => exact uses_throw _

theorem revision {number : Nat} : (Profiles.revision ws id number).Uses P := by
  refine require.bind fun _ => get.bind fun _ => okOr.bind fun _ => decode.bind fun _ => require.bind fun _ => ?_
  exact getRevision.bind fun _ => okOr.bind fun _ => uses_pure _

theorem publishedConfig : (publishedConfig app ws id).Uses P := by
  refine workspace.bind fun _ => profile.bind fun _ => okOr.bind fun _ => ?_
  exact revision.bind fun _ => validateConfig.bind fun _ => uses_pure _

theorem loadRevisions : ∀ entities : List (Entity Value), (loadRevisions ws id entities).Uses P
  | [] => uses_pure []
  | _ :: rest => by
    refine ite ?_ (loadRevisions rest)
    exact decode.bind fun _ => revision.bind fun _ => (loadRevisions rest).bind fun _ => uses_pure _

theorem beginDevice : (beginDevice app).Uses P :=
  ite startDeviceFlow (ite (randomSecret.bind fun _ => uses_pure _) (uses_throw _))

theorem enrollmentPoll {deviceCode : String} : (enrollmentPoll app deviceCode).Uses P :=
  ite pollDeviceFlow (ite (uses_pure _) (uses_throw _))

theorem enrollmentUser : (enrollmentUser app token).Uses P :=
  ite consumeToken (ite (uses_pure _) (uses_throw _))

end Looking

theorem sealText {value : Plaintext} : Reading (sealText app value) :=
  (uses_request ⟨rfl, nofun, nofun⟩).bind fun _ => okOr

theorem setSession {user : GitHubUser} : Reading (setSession app user) :=
  randomSecret.bind fun _ => now.bind fun _ => sealText.bind fun _ => .done

end Reading

/-! ### Operations outside the lock -/

/-- Requests that unlocked operations put: they read, or they keep enrollments of no workspace. -/
def Request.Personal (r : Request) : Prop :=
  r.Reads ∨ match r with
    | .insert t partition _ data | .replace t partition _ data _ =>
      t = .enrollments ∧ partition = platformPartition ∧ data.workspaceId = none
    | .delete t .. => t = .enrollments
    | _ => False

namespace Personal
variable {α : Type} {app : App} {headers : Headers} {row etag : String} {data : Value} {p : Handler α}

theorem reading (h : Reading p) : p.Uses Request.Personal := h.mono fun _ => .inl

theorem insert (own : data.workspaceId = none) :
    (Broker.insert .enrollments platformPartition row data).Uses Request.Personal :=
  uses_request (.inr ⟨rfl, rfl, own⟩)

theorem replace (own : data.workspaceId = none) :
    (Broker.replace .enrollments platformPartition row data etag).Uses Request.Personal :=
  uses_request (.inr ⟨rfl, rfl, own⟩)

theorem delete : (Broker.delete .enrollments platformPartition row etag).Uses Request.Personal :=
  uses_request (.inr rfl)

theorem login : (login app).Uses Request.Personal := by
  refine Reading.require.bind fun _ => (uses_request (.inl ⟨rfl, nofun, nofun⟩)).bind fun _ => ?_
  refine (reading Reading.randomSecret).bind fun _ => (reading Reading.randomSecret).bind fun _ => ?_
  refine (reading Reading.now).bind fun _ => (insert rfl).bind fun _ => ?_
  exact (reading Reading.sealText).bind fun _ => Uses.done.bind fun _ => uses_pure _

theorem callback {query : CallbackQuery} : (callback app headers query).Uses Request.Personal := by
  refine Reading.require.bind fun _ => Reading.okOr.bind fun _ => Reading.okOr.bind fun _ => ?_
  refine Uses.done.bind fun _ => Reading.openAs.bind fun _ => (reading Reading.now).bind fun _ => ?_
  refine Reading.require.bind fun _ => (reading Reading.get).bind fun _ => Reading.okOr.bind fun _ => ?_
  refine delete.bind fun _ => Reading.require.bind fun _ => (reading Reading.exchangeCode).bind fun _ => ?_
  refine (reading Reading.consumeToken).bind fun _ => (reading Reading.mayEnter).bind fun _ => ?_
  refine Reading.require.bind fun _ => (reading Reading.setSession).bind fun _ => ?_
  exact Uses.done.bind fun _ => uses_pure _

theorem deviceStart : (deviceStart app headers).Uses Request.Personal := by
  refine Uses.done.bind fun _ => Reading.require.bind fun _ => Reading.require.bind fun _ => ?_
  refine (uses_request (.inl ⟨rfl, nofun, nofun⟩)).bind fun _ => (reading Reading.startDeviceFlow).bind fun _ => ?_
  refine (reading Reading.now).bind fun _ => (reading Reading.randomSecret).bind fun _ => ?_
  refine (reading Reading.randomSecret).bind fun _ => (reading Reading.sealText).bind fun _ => ?_
  refine (insert rfl).bind fun _ => (reading Reading.sealText).bind fun _ => ?_
  exact Uses.done.bind fun _ => uses_pure _

theorem deviceAnswer {key : String} {record : DeviceLoginRecord} {reserved : Entity Value} :
    ∀ poll, (deviceAnswer app key record reserved poll).Uses Request.Personal
  | .pending => .done
  | .slowDown => (reading Reading.now).bind fun _ => (replace rfl).bind fun _ => .done
  | .expired => delete.bind fun _ => .done
  | .denied => delete.bind fun _ => .done
  | .authorized _ => by
    refine (reading Reading.consumeToken).bind fun _ => delete.bind fun _ => (reading Reading.now).bind fun _ => ?_
    refine Reading.ite .done ((reading Reading.mayEnter).bind fun _ => Reading.ite .done ?_)
    exact Uses.done.bind fun _ => (reading Reading.setSession).bind fun _ => uses_pure _

theorem devicePoll : (devicePoll app headers).Uses Request.Personal := by
  refine Uses.done.bind fun _ => Uses.done.bind fun _ => Reading.openAs.bind fun _ => ?_
  refine Reading.okOr.bind fun _ => Reading.require.bind fun _ => Reading.require.bind fun _ => ?_
  refine (uses_request (.inl ⟨rfl, nofun, nofun⟩)).bind fun _ => (reading Reading.get).bind fun found => ?_
  cases found with
  | none => exact Uses.done
  | some entity =>
    refine Reading.decode.bind fun _ => (reading Reading.now).bind fun _ => ?_
    refine Reading.ite (delete.bind fun _ => Uses.done) ?_
    refine (replace rfl).bind fun _ => Reading.ite .done ?_
    refine Reading.openAs.bind fun _ => (reading Reading.pollDeviceFlow).bind fun _ => ?_
    exact deviceAnswer _

theorem cleanupExpiredEnrollments : cleanupExpiredEnrollments.Uses Request.Personal := by
  refine (reading Reading.now).bind fun _ => (reading Reading.list).bind fun _ => Uses.forEach (fun _ => ?_) _
  refine Reading.okOr.bind fun _ => Reading.ite (delete.attempt.bind fun result => ?_) (uses_pure _)
  split
  · exact uses_pure _
  · exact uses_pure _
  · exact uses_pure _
  · exact uses_throw _

end Personal

end Azbridge.Broker
