import Mathlib.Logic.Function.Basic
import Azbridge.Broker.Operations

/-!
# The ledger

What the mutation lock protects: every table but the enrollments, the revision blobs, and the
identifiers drawn so far. `SystemWrite` lists the row writes of the reconciler and `Write` those of
the endpoints, each with what is known of the ledger at the moment it happens; the invariants of
the broker are derived from these lists alone.
-/

namespace Azbridge.Broker

structure Ledger where
  rows : Key → Option (Entity Value)
  blobs : String → Option String
  uuids : List Uuid

def World.ledger (w : World) : Ledger where
  rows k := if k.table = .enrollments then none else w.store.lookup k
  blobs path := w.configs.lookup path
  uuids := w.uuids

abbrev workspaceKey (ws : String) : Key := ⟨.workspaces, platformPartition, ws⟩

def Key.workspace? (k : Key) : Option String :=
  match k.table with
  | .workspaces | .userWorkspaces => some k.row
  | .members | .connections | .profiles | .gateways | .revisionMetadata => some k.partition
  | .platformAdmins | .enrollments | .audit => none

namespace Ledger

@[ext] theorem ext {c c' : Ledger} (rows : c.rows = c'.rows) (blobs : c.blobs = c'.blobs)
    (uuids : c.uuids = c'.uuids) : c = c' := by
  cases c
  cases c'
  simp_all

/-- Write or remove one row. -/
def set (c : Ledger) (k : Key) (e : Option (Entity Value)) : Ledger :=
  { c with rows := Function.update c.rows k e }

def putBlob (c : Ledger) (path yaml : String) : Ledger :=
  { c with blobs := Function.update c.blobs path (some yaml) }

def draw (c : Ledger) (u : Uuid) : Ledger := { c with uuids := u :: c.uuids }

def value (c : Ledger) (k : Key) : Option Value := (c.rows k).map (·.data)

variable {c : Ledger} {k k' : Key} {e : Option (Entity Value)}

@[simp] theorem set_rows_self : (c.set k e).rows k = e := Function.update_self ..

theorem set_rows_other (different : k' ≠ k) : (c.set k e).rows k' = c.rows k' :=
  Function.update_of_ne different ..

@[simp] theorem set_value_self : (c.set k e).value k = e.map (·.data) := by simp [value]

theorem set_value_other (different : k' ≠ k) : (c.set k e).value k' = c.value k' := by
  rw [value, value, set_rows_other different]

@[simp] theorem set_blobs : (c.set k e).blobs = c.blobs := rfl
@[simp] theorem set_uuids : (c.set k e).uuids = c.uuids := rfl
@[simp] theorem putBlob_rows {path yaml : String} : (c.putBlob path yaml).rows = c.rows := rfl
@[simp] theorem putBlob_value {path yaml : String} : (c.putBlob path yaml).value k = c.value k := rfl
@[simp] theorem putBlob_uuids {path yaml : String} : (c.putBlob path yaml).uuids = c.uuids := rfl
@[simp] theorem draw_rows {u : Uuid} : (c.draw u).rows = c.rows := rfl
@[simp] theorem draw_value {u : Uuid} : (c.draw u).value k = c.value k := rfl
@[simp] theorem draw_blobs {u : Uuid} : (c.draw u).blobs = c.blobs := rfl
@[simp] theorem draw_uuids {u : Uuid} : (c.draw u).uuids = u :: c.uuids := rfl

theorem rows_of_value {v : Value} (h : c.value k = some v) : c.rows k ≠ none := by
  intro absent
  simp [value, absent] at h

/-! ### Reading the ledger -/

section Reading
variable (c : Ledger) (ws : String)

def Workspace (r : WorkspaceRecord) (x : Extra) : Prop := c.value (workspaceKey ws) = some (.workspace r x)

def Member (user : String) (m : Broker.Member) : Prop := c.value ⟨.members, ws, user⟩ = some (.member m)

def Connection (id : String) (conn : Broker.Connection) (x : Extra) : Prop :=
  c.value ⟨.connections, ws, id⟩ = some (.connection conn x)

def Profile (id : String) (r : ProfileRecord) : Prop := c.value ⟨.profiles, ws, id⟩ = some (.profile r)

def Gateway (id : String) (g : GatewayRecord) : Prop := c.value ⟨.gateways, ws, id⟩ = some (.gateway g)

/-- The index row of a user, which says that the workspace is worth looking at. -/
def Indexed (user : String) : Prop := c.rows ⟨.userWorkspaces, user, ws⟩ ≠ none

def Joined (user : String) : Prop := c.rows ⟨.members, ws, user⟩ ≠ none

def Present : Prop := c.rows (workspaceKey ws) ≠ none

/-- The workspace waits for its creation to be finished, and this user created it. -/
def Unfinished (user : String) : Prop :=
  ∃ r x, c.Workspace ws r x ∧ toString r.createdBy = user ∧ x.creatorMembershipInitialized ≠ some true ∧
    (r.workspace.state = .pending ∨ r.workspace.state = .provisioning)

/-- The workspace is there, in a state that satisfies `P`. -/
def InState (P : ProvisioningState → Prop) : Prop := ∃ r x, c.Workspace ws r x ∧ P r.workspace.state

def Active : Prop := c.InState ws (· ≠ .deleting)

def Ready : Prop := c.InState ws (· = .ready)

def Deleting : Prop := c.InState ws (· = .deleting)

def HasAdmin : Prop := ∃ user m, c.Member ws user m ∧ m.role = .admin

def OtherAdmin (user : String) : Prop := ∃ other m, other ≠ user ∧ c.Member ws other m ∧ m.role = .admin

/-- Somebody is a member as the creator, before the creation was finished, and nobody is an
administrator. -/
def Stranded : Prop :=
  ∃ r x, c.Workspace ws r x ∧ x.creatorMembershipInitialized ≠ some true ∧
    (r.workspace.state = .pending ∨ r.workspace.state = .provisioning) ∧
    c.Joined ws (toString r.createdBy) ∧ ¬ c.HasAdmin ws

/-- A user has an index row without a membership row. -/
def Orphaned : Prop := ∃ user, c.Indexed ws user ∧ ¬ c.Joined ws user

def Blob (id : String) (n : Nat) (yaml : String) : Prop :=
  ∃ path, revisionPath ws id (toString n) = .ok path ∧ c.blobs path = some yaml

/-- The revision has its metadata row and a blob that is a managed configuration. -/
def Loadable (app : App) (id : String) (n : Nat) (config : Config) : Prop :=
  n ≠ 0 ∧ (∃ createdAt, c.value ⟨.revisionMetadata, ws, revisionKey id n⟩ = some (.revision ⟨n, createdAt⟩)) ∧
    ∃ yaml, c.Blob ws id n yaml ∧ Profiles.parseManagedConfig app yaml = .ok config

def ReadyName (name : String) : Prop :=
  ∃ id conn x, c.Connection ws id conn x ∧ conn.state = .ready ∧ conn.name = name

/-- A published revision names the relay, in any case. -/
def InUse (app : App) (name : String) : Prop :=
  ∃ id r n yaml config ignored, c.Profile ws id r ∧ r.profile.currentRevision = some n ∧ c.Blob ws id n yaml ∧
    app.yaml.config yaml = some (config, ignored) ∧
    ∃ relay ∈ config.relayNames, Text.eqIgnoreAsciiCase relay name = true

def Unused : Prop := ∀ k, k.workspace? = some ws → c.rows k = none

def Drawn : Prop := ∃ u ∈ c.uuids, u.hyphenated = ws

/-- A row of the connections or profiles of the workspace carries this name. -/
inductive Named (c : Ledger) (ws : String) : Table → String → String → Prop
  | connection {id : String} {conn : Broker.Connection} {x : Extra} (held : c.Connection ws id conn x) :
      Named c ws .connections id conn.name
  | profile {id : String} {r : ProfileRecord} (held : c.Profile ws id r) : Named c ws .profiles id r.profile.name

/-- No row of the table carries the name, in any case. -/
def Free (table : Table) (name : String) : Prop :=
  ∀ id other, c.Named ws table id other → Text.eqIgnoreAsciiCase other name = false

end Reading

def credentialText (ws id secret : String) : String := "azgw." ++ ws ++ "." ++ id ++ "." ++ secret

/-! ### Writes -/

/-- What a run leaves out: a repair of the creator's membership that finds no administrator, the
start of a deletion that leaves an index row behind, and what some operations never do, which is to
add members to a workspace, to mint a gateway, or to create either under an identifier that was
drawn before. Of the requests in `denied` it never hears that the cloud resource is gone. -/
structure Discipline where
  repair : Prop
  journal : Prop
  joins : String → Prop
  taken : String → Prop
  mints : Prop
  denied : Request → Prop

/-- Every operation may add members and mint gateways, and no identifier is known to be taken. -/
def Discipline.of (repair journal : Prop) : Discipline := ⟨repair, journal, fun _ => True, fun _ => False, True, fun _ => False⟩

/-- Leave out nothing. -/
def Discipline.none : Discipline := .of False False

/-- The tables that deleting a workspace empties row by row. -/
def cleaned (table : Table) : Prop :=
  table = .gateways ∨ table = .profiles ∨ table = .revisionMetadata ∨ table = .members

/-- A row write of the reconciler, from the row's old value to its new one. -/
inductive SystemWrite (d : Discipline) (c : Ledger) : Key → Option Value → Option Value → Prop
  | audit (ws id : String) (entry : AuditEntry) : SystemWrite d c ⟨.audit, ws, id⟩ none (some (.audit entry))
  | insertMember {ws : String} (m : Broker.Member) (active : c.Active ws)
      (creator : c.Unfinished ws (toString m.user.id)) (admin : m.role = .admin) :
      SystemWrite d c ⟨.members, ws, toString m.user.id⟩ none (some (.member m))
  | insertIndex {ws user : String} (active : c.Active ws) (joined : c.Joined ws user) :
      SystemWrite d c ⟨.userWorkspaces, user, ws⟩ none (some (.index ws))
  | removeIndex {ws user : String} {v : Value} (unneeded : c.Joined ws user → c.Deleting ws) :
      SystemWrite d c ⟨.userWorkspaces, user, ws⟩ (some v) none
  | initialise {ws : String} {r : WorkspaceRecord} {x : Extra}
      (early : r.workspace.state = .pending ∨ r.workspace.state = .provisioning)
      (strict : d.repair → c.HasAdmin ws) :
      SystemWrite d c (workspaceKey ws) (some (.workspace r x))
        (some (.workspace r { x with creatorMembershipInitialized := some true }))
  | provision {ws : String} {r : WorkspaceRecord} {x x' : Extra} {state : ProvisioningState} {error : Option String}
      (live : r.workspace.state ≠ .deleting) (alive : state ≠ .deleting)
      (initialised : x.creatorMembershipInitialized = some true)
      (kept : x'.creatorMembershipInitialized = some true) :
      SystemWrite d c (workspaceKey ws) (some (.workspace r x))
        (some (.workspace { r with workspace := { r.workspace with state, error } } x'))
  | deletionFailed {ws : String} {r : WorkspaceRecord} {x : Extra} {error : String}
      (deleting : r.workspace.state = .deleting) :
      SystemWrite d c (workspaceKey ws) (some (.workspace r x))
        (some (.workspace { r with workspace := { r.workspace with error := some error } } x))
  | removeWorkspace {ws : String} {r : WorkspaceRecord} {x : Extra} (deleting : r.workspace.state = .deleting)
      (empty : ∀ k, k.workspace? = some ws → k.table ≠ .workspaces → k.table ≠ .userWorkspaces → c.rows k = none)
      (journaled : ∀ user ∈ x.cleanupUserIds.getD [], ¬ c.Indexed ws user) :
      SystemWrite d c (workspaceKey ws) (some (.workspace r x)) none
  | saveConnection {ws id : String} {conn : Broker.Connection} {x x' : Extra} {state : ProvisioningState}
      {error : Option String} (unready : conn.state ≠ .ready) (live : conn.state ≠ .deleting)
      (alive : state ≠ .deleting) :
      SystemWrite d c ⟨.connections, ws, id⟩ (some (.connection conn x)) (some (.connection { conn with state, error } x'))
  | connectionFailed {ws id : String} {conn : Broker.Connection} {x : Extra} {error : Option String}
      (deleting : conn.state = .deleting) :
      SystemWrite d c ⟨.connections, ws, id⟩ (some (.connection conn x)) (some (.connection { conn with error } x))
  | removeConnection {ws id : String} {conn : Broker.Connection} {x : Extra} (deleting : conn.state = .deleting) :
      SystemWrite d c ⟨.connections, ws, id⟩ (some (.connection conn x)) none
  | cleanup {table : Table} {ws row : String} {v : Value} (member : cleaned table) (deleting : c.Deleting ws) :
      SystemWrite d c ⟨table, ws, row⟩ (some v) none

/-- A row write of an endpoint. -/
inductive Write (app : App) (d : Discipline) (c : Ledger) : Key → Option Value → Option Value → Prop
  | system {k : Key} {old new : Option Value} (h : SystemWrite d c k old new) : Write app d c k old new
  | createWorkspace (r : WorkspaceRecord) (pending : r.workspace.state = .pending) (drawn : c.Drawn r.workspace.id)
      (untaken : ¬ d.taken r.workspace.id)
      (unused : c.Unused r.workspace.id)
      (own : ∀ ws r' x, c.Workspace ws r' x → r'.workspace.namespaceName ≠ r.workspace.namespaceName)
      (named : ∃ u ∈ c.uuids, ∃ stem, r.workspace.namespaceName = stem ++ u.simple) :
      Write app d c (workspaceKey r.workspace.id) none (some (.workspace r {}))
  | journal {ws : String} {r : WorkspaceRecord} {x : Extra} {users : List String}
      (live : r.workspace.state ≠ .deleting) (empty : ∀ id, c.rows ⟨.connections, ws, id⟩ = none)
      (members : ∀ user, c.Joined ws user → user ∈ users) (strict : d.journal → ¬ c.Orphaned ws) :
      Write app d c (workspaceKey ws) (some (.workspace r x))
        (some (.workspace { r with workspace := { r.workspace with state := .deleting, error := none } }
          { cleanupUserIds := some users }))
  | insertMember {ws : String} (m : Broker.Member) (active : c.Active ws) (joins : d.joins ws) :
      Write app d c ⟨.members, ws, toString m.user.id⟩ none (some (.member m))
  | updateMember {ws user : String} {m : Broker.Member} {role : Role} (active : c.Active ws)
      (guarded : m.role = .admin → role ≠ .admin → c.OtherAdmin ws user) :
      Write app d c ⟨.members, ws, user⟩ (some (.member m)) (some (.member { m with role }))
  | deleteMember {ws user : String} {m : Broker.Member} (active : c.Active ws)
      (guarded : m.role = .admin → c.OtherAdmin ws user) :
      Write app d c ⟨.members, ws, user⟩ (some (.member m)) none
  | insertConnection {ws : String} (conn : Broker.Connection) (ready : c.Ready ws) (pending : conn.state = .pending)
      (valid : Workspaces.validConnectionName conn.name = true) (free : c.Free ws .connections conn.name) :
      Write app d c ⟨.connections, ws, conn.id⟩ none (some (.connection conn {}))
  | retireConnection {ws id : String} {conn : Broker.Connection} {x : Extra} (active : c.Active ws)
      (free : ¬ c.InUse ws app conn.name) :
      Write app d c ⟨.connections, ws, id⟩ (some (.connection conn x))
        (some (.connection { conn with state := .deleting, error := none } {}))
  | insertProfile {ws : String} (r : ProfileRecord) (ready : c.Ready ws) (draft : r.profile.currentRevision = none)
      (canonical : Uuid.isText r.profile.id = true) (free : c.Free ws .profiles r.profile.name) :
      Write app d c ⟨.profiles, ws, r.profile.id⟩ none (some (.profile r))
  | reserve {ws id : String} {r : ProfileRecord} {next : Nat} :
      Write app d c ⟨.profiles, ws, id⟩ (some (.profile r)) (some (.profile { r with nextRevision := next }))
  | publish {ws id : String} {r : ProfileRecord} {n : Nat} {config : Config} (ready : c.Ready ws)
      (loadable : c.Loadable ws app id n config) (names : ∀ name ∈ config.relayNames, c.ReadyName ws name) :
      Write app d c ⟨.profiles, ws, id⟩ (some (.profile r))
        (some (.profile { r with profile := { r.profile with currentRevision := some n } }))
  | deleteProfile {ws id : String} {r : ProfileRecord} (ready : c.Ready ws)
      (idle : ∀ gateway g, c.Gateway ws gateway g → g.gateway.profileId = id → g.gateway.revoked = true) :
      Write app d c ⟨.profiles, ws, id⟩ (some (.profile r)) none
  | insertRevision {ws id : String} {n createdAt : Nat} (ready : c.Ready ws) :
      Write app d c ⟨.revisionMetadata, ws, revisionKey id n⟩ none (some (.revision ⟨n, createdAt⟩))
  | insertGateway {ws : String} (g : GatewayRecord) (ready : c.Ready ws)
      (published : ∃ r n, c.Profile ws g.gateway.profileId r ∧ r.profile.currentRevision = some n)
      (mints : d.mints) (untaken : ¬ d.taken g.gateway.id)
      (minted : ∃ secret, base64UrlSize secret = some 32 ∧
        g.credentialHash = app.digest (credentialText ws g.gateway.id secret)) :
      Write app d c ⟨.gateways, ws, g.gateway.id⟩ none (some (.gateway g))
  | updateGateway {ws id : String} {g g' : GatewayRecord} (sameId : g'.gateway.id = g.gateway.id)
      (sameProfile : g'.gateway.profileId = g.gateway.profileId) (sameHash : g'.credentialHash = g.credentialHash)
      (final : g.gateway.revoked = true → g'.gateway.revoked = true) :
      Write app d c ⟨.gateways, ws, id⟩ (some (.gateway g)) (some (.gateway g'))

/-- One step of the ledger whose row writes are among `G`. -/
inductive Step (G : Ledger → Key → Option Value → Option Value → Prop) : Ledger → Ledger → Prop
  | row {c : Ledger} {k : Key} {e : Option (Entity Value)} (h : G c k (c.value k) (e.map (·.data))) :
      Step G c (c.set k e)
  | blob {c : Ledger} {path yaml : String} (fresh : c.blobs path = none) : Step G c (c.putBlob path yaml)
  | uuid {c : Ledger} {u : Uuid} (fresh : u ∉ c.uuids) : Step G c (c.draw u)

theorem Step.mono {G G' : Ledger → Key → Option Value → Option Value → Prop} {c c' : Ledger}
    (h : Step G c c') (sub : ∀ c k old new, G c k old new → G' c k old new) : Step G' c c' := by
  cases h with
  | row h => exact .row (sub _ _ _ _ h)
  | blob fresh => exact .blob fresh
  | uuid fresh => exact .uuid fresh

end Ledger
end Azbridge.Broker
