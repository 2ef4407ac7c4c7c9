import Azbridge.Broker.Reading

/-!
# The reconciler keeps to its writes

Every row that a reconciler pass writes is one of `SystemWrite`. Each part of a pass gets one
lemma, which says what it may assume of the workspace row and which rows it touches.
-/

namespace Azbridge.Broker
open Ledger Workspaces Reconciler

/-- When a cloud resource is created or deleted: what its rows say then. The rows go when the cloud has
confirmed that the resource is gone, which it never does for the requests in `denied`. -/
inductive CloudCall (app : App) (denied : Request → Prop) (w : World) : Request → Prop
  | ensureNamespace {ws : String} {r : WorkspaceRecord} {x : Extra} (held : w.ledger.Workspace ws r x)
      (live : r.workspace.state = .provisioning) :
      CloudCall app denied w (.ensureNamespace r.workspace.namespaceName r.workspace.location)
  | deleteNamespace {ws : String} {r : WorkspaceRecord} {x : Extra} (held : w.ledger.Workspace ws r x)
      (deleting : r.workspace.state = .deleting)
      (empty : ∀ k, k.workspace? = some ws → k.table ≠ .workspaces → k.table ≠ .userWorkspaces → w.ledger.rows k = none)
      (unenrolled : ¬ w.Enrolled ws) : CloudCall app denied w (.deleteNamespace r.workspace.namespaceName)
  | ensureConnection {ws id : String} {r : WorkspaceRecord} {x x' : Extra} {conn : Broker.Connection}
      (own : w.ledger.Workspace ws r x) (live : r.workspace.state ≠ .deleting) (held : w.ledger.Connection ws id conn x')
      (provisioning : conn.state = .provisioning) :
      CloudCall app denied w (.ensureConnection r.workspace.namespaceName conn.name)
  | deleteConnection {ws id : String} {r : WorkspaceRecord} {x x' : Extra} {conn : Broker.Connection}
      (own : w.ledger.Workspace ws r x) (held : w.ledger.Connection ws id conn x') (deleting : conn.state = .deleting)
      (unused : ¬ w.ledger.InUse ws app conn.name) :
      CloudCall app denied w (.deleteConnection r.workspace.namespaceName conn.name)
  | removeConnection {ws id etag : String} {r : WorkspaceRecord} {x x' : Extra} {conn : Broker.Connection}
      (own : w.ledger.Workspace ws r x) (held : w.ledger.Connection ws id conn x') (deleting : conn.state = .deleting)
      (confirmed : ¬ denied (.deleteConnection r.workspace.namespaceName conn.name)) :
      CloudCall app denied w (.delete .connections ws id etag)
  | removeWorkspace {ws etag : String} {r : WorkspaceRecord} {x : Extra} (held : w.ledger.Workspace ws r x)
      (deleting : r.workspace.state = .deleting) (confirmed : ¬ denied (.deleteNamespace r.workspace.namespaceName)) :
      CloudCall app denied w (.delete .workspaces platformPartition ws etag)

/-- The writes of the reconciler; it has no tokens issued. -/
def Permits.system (app : App) (d : Discipline) : Permits := ⟨SystemWrite d, CloudCall app d.denied, d.denied⟩

variable {app : App} {d : Discipline} {v : View} {ws user : String}

theorem recordAudit_safe {actor action target : String} :
    Safe (.system app d) v (fun _ v' => v.AgreeApart (·.table = .audit) v') (recordAudit ws actor action target) := by
  refine Safe.newUuid_bind fun u _ _ => Safe.reads_bind Reading.now fun t => ?_
  refine Safe.insert_bind nofun (fun _ _ => .audit ws _ _) fun e _ _ _ => Safe.pure ?_
  exact View.AgreeApart.draw.trans (.set rfl)

/-! ### Indexes -/

/-- More index rows, and nothing else. -/
structure View.Indexes (v v' : View) : Prop where
  apart : v.AgreeApart (·.table = .userWorkspaces) v'
  kept : ∀ ws user, v.ledger.Indexed ws user → v'.ledger.Indexed ws user

theorem View.Indexes.refl (v : View) : v.Indexes v := ⟨.refl v, fun _ _ h => h⟩

theorem View.Indexes.trans {v' v'' : View} (first : v.Indexes v') (second : v'.Indexes v'') : v.Indexes v'' :=
  ⟨first.apart.trans second.apart, fun ws user h => second.kept ws user (first.kept ws user h)⟩

theorem View.Indexes.set {e : Entity Value} :
    v.Indexes (v.with (v.ledger.set ⟨.userWorkspaces, user, ws⟩ (some e))) := by
  refine ⟨.set rfl, fun ws' user' indexed => ?_⟩
  by_cases same : (⟨.userWorkspaces, user', ws'⟩ : Key) = ⟨.userWorkspaces, user, ws⟩
  · simp [Indexed, same]
  · rwa [Indexed, View.with_ledger, set_rows_other same]

theorem ensureIndex_safe {id : Nat} (active : v.ledger.Active ws) (joined : v.ledger.Joined ws (toString id)) :
    Safe (.system app d) v (fun _ v' => v.Indexes v' ∧ v'.ledger.Indexed ws (toString id)) (ensureIndex ws id) := by
  refine Safe.get_bind (by rintro ⟨⟩) fun found facts => ?_
  cases found with
  | some entity => exact Safe.pure ⟨.refl v, rows_of_value facts.value⟩
  | none =>
    refine (Sound.insert (m := .system app d) (t := .userWorkspaces) (by rintro ⟨⟩) fun _ _ => .insertIndex active joined).attempt_bind ?_ ?_
    · rintro e v' ⟨-, -, -, rfl⟩
      exact Safe.pure ⟨.set, by simp [Indexed]⟩
    · rintro e v' outcome
      cases e with
      | conflict =>
        obtain ⟨rfl, present⟩ := outcome.resolve_right (by rintro ⟨⟩)
        exact absurd facts.rows (present rfl)
      | _ => exact Safe.throw

theorem ensureMemberIndexes_safe {members : List (Entity Value)} (active : v.ledger.Active ws)
    (listed : Listed v.ledger .members ws members) (valid : v.ledger.Valid) :
    Safe (.system app d) v (fun _ v' => v.AgreeApart (·.table = .userWorkspaces) v' ∧
      ∀ user, v.ledger.Joined ws user → v'.ledger.Indexed ws user)
      (Program.forEach (ensureMemberIndex ws) members) := by
  refine (Safe.forEach (I := fun rest v' => v.Indexes v' ∧ (∀ e ∈ rest, e ∈ members) ∧
    ∀ e ∈ members, e ∈ rest ∨ v'.ledger.Indexed ws e.rowKey) ?_ ⟨.refl v, fun _ h => h, fun _ h => .inl h⟩).mono ?_
  · rintro entity rest v' ⟨indexes, left, done⟩
    have member := left entity (.head _)
    refine Safe.decode_bind fun m decoded => ?_
    obtain ⟨m', same, row⟩ := valid.typed _ _ (listed.value member)
    rw [same] at decoded
    cases decoded
    have joined : v'.ledger.Joined ws (toString m.user.id) := by
      refine indexes.apart.joined nofun ?_
      rw [row]
      exact rows_of_value (listed.value member)
    refine (ensureIndex_safe (indexes.apart.inState nofun active) joined).mono ?_
    rintro _ v'' ⟨indexes', own⟩
    refine ⟨indexes.trans indexes', fun e h => left e (.tail _ h), fun e h => ?_⟩
    rcases done e h with pending | indexed
    · rcases List.mem_cons.mp pending with rfl | later
      · rw [row] at own
        exact .inr own
      · exact .inl later
    · exact .inr (indexes'.kept _ _ indexed)
  · rintro _ v' ⟨indexes, -, done⟩
    refine ⟨indexes.apart, fun user joined => ?_⟩
    obtain ⟨e, member, rfl⟩ := listed.complete user joined
    exact (done e member).resolve_left (by simp)

theorem cleanupIndex_safe {workspace : Workspace} (deleting : v.ledger.Deleting workspace.id) :
    Safe (.system app d) v (fun _ v' => v.AgreeApart (·.table = .userWorkspaces) v' ∧
      ∀ other, v'.ledger.Indexed workspace.id other → v.ledger.Indexed workspace.id other ∧ other ≠ user)
      (cleanupIndex workspace user) := by
  refine Safe.get_bind nofun fun found facts => ?_
  cases found with
  | none =>
    refine Safe.pure ⟨.refl v, fun other indexed => ⟨indexed, ?_⟩⟩
    rintro rfl
    exact indexed facts.rows
  | some index =>
    obtain ⟨partition, row⟩ := facts.keyed index rfl
    change Safe _ _ _ (delete .userWorkspaces index.partitionKey index.rowKey index.etag)
    rw [partition, row]
    refine Safe.delete nofun (by nofun) (facts.value ▸ .removeIndex fun _ => deleting) ⟨.set rfl, fun other indexed => ?_⟩
    by_cases same : other = user
    · subst same
      exact absurd set_rows_self indexed
    · refine ⟨?_, same⟩
      rwa [View.with_ledger, Indexed, set_rows_other (by simp [same])] at indexed

/-! ### Saving a row -/

def audited (k k' : Key) : Prop := k'.table = .audit ∨ k' = k

/-- What saving a row leaves, and returns. -/
structure Saved (v : View) (k : Key) (data : Value) (e : Entity Value) (v' : View) : Prop where
  apart : v.AgreeApart (audited k) v'
  held : v'.ledger.value k = some data
  data : e.data = data
  partitionKey : e.partitionKey = k.partition
  rowKey : e.rowKey = k.row

theorem save_safe {t : Table} {partition workspace action : String} {entity : Entity Value} {data : Value}
    (table : t ≠ .enrollments) (other : t ≠ .audit)
    (write : SystemWrite d v.ledger ⟨t, partition, entity.rowKey⟩ (v.ledger.value ⟨t, partition, entity.rowKey⟩)
      (some data)) :
    Safe (.system app d) v (Saved v ⟨t, partition, entity.rowKey⟩ data)
      (save t partition workspace entity data action) := by
  refine Safe.replace_bind table write fun e same partitionKey rowKey => recordAudit_safe.bind fun _ v' apart => ?_
  refine Safe.pure ⟨View.AgreeApart.trans (.set (.inr rfl)) (apart.mono fun _ => .inl), ?_, same, partitionKey, rowKey⟩
  rw [apart.value other, View.with_ledger, set_value_self, ← same]
  rfl

theorem saveConnection_safe {entity : Entity Value} {data : Value} {action : String} (partition : entity.partitionKey = ws)
    (write : SystemWrite d v.ledger ⟨.connections, ws, entity.rowKey⟩
      (v.ledger.value ⟨.connections, ws, entity.rowKey⟩) (some data)) :
    Safe (.system app d) v (Saved v ⟨.connections, ws, entity.rowKey⟩ data) (saveConnection entity data action) := by
  subst partition
  exact save_safe nofun nofun write

theorem saveWorkspace_safe {entity : Entity Value} {data : Value} {action : String} (row : entity.rowKey = ws)
    (write : SystemWrite d v.ledger (workspaceKey ws) (v.ledger.value (workspaceKey ws)) (some data)) :
    Safe (.system app d) v (Saved v (workspaceKey ws) data) (saveWorkspace entity data action) := by
  subst row
  exact save_safe nofun nofun write

theorem provisioningResult_safe {failed : String} {extra : Extra} {result : Except BrokerError ProvisioningState} :
    Safe (.system app d) v (fun outcome v' => v' = v ∧ outcome.1 ≠ .deleting ∧
      outcome.2.2.creatorMembershipInitialized = extra.creatorMembershipInitialized)
      (provisioningResult failed extra result) := by
  rcases result with e | state
  · refine Safe.bind (P := fun (updated : Extra) v' => v' = v ∧
      updated.creatorMembershipInitialized = extra.creatorMembershipInitialized) ?_ ?_
    · exact Safe.reads_bind Reading.now fun t => Safe.pure ⟨rfl, rfl⟩
    · rintro updated _ ⟨rfl, kept⟩
      exact Safe.pure ⟨rfl, nofun, kept⟩
  · cases state <;> exact Safe.pure ⟨rfl, nofun, rfl⟩

/-! ### Connections -/

section Connections
variable {r : WorkspaceRecord} {entity : Entity Value} {connection : Connection} {x x₀ : Extra}

/-- The answer `false` means that nothing published names the relay. -/
theorem connectionInUseBy_safe {m : Permits} {entities : List (Entity Value)} :
    Safe m v (fun used v' => v' = v ∧ (used = false → ∀ e ∈ entities, ∀ r n yaml config ignored,
      e.data = .profile r → r.profile.currentRevision = some n → v.ledger.Blob ws r.profile.id n yaml →
      app.yaml.config yaml = some (config, ignored) →
      ∀ relay ∈ config.relayNames, Text.eqIgnoreAsciiCase relay name = false))
      (connectionInUseBy app ws name entities) := by
  induction entities with
  | nil => exact Safe.pure ⟨rfl, fun _ e member => nomatch member⟩
  | cons entity rest ih =>
    refine Safe.decode_bind fun record decoded => ?_
    have data : ∀ r, entity.data = .profile r → r = record := by
      intro r same
      rw [same] at decoded
      exact Option.some.inj decoded
    generalize current : record.profile.currentRevision = revision
    cases revision with
    | none =>
      refine ih.mono ?_
      rintro used _ ⟨rfl, unused⟩
      refine ⟨rfl, fun free e member r n yaml config ignored same current' => ?_⟩
      rcases List.mem_cons.mp member with rfl | member
      · rw [data r same, current] at current'
        cases current'
      · exact unused free e member r n yaml config ignored same current'
    | some revision =>
      refine Safe.getRevision_bind fun found blob => Safe.okOr_bind fun yaml stored => Safe.okOr_bind ?_
      rintro ⟨config, ignored⟩ read
      refine Safe.ite (fun _ => Safe.pure ⟨rfl, nofun⟩) fun unnamed => ih.mono ?_
      rintro used _ ⟨rfl, unused⟩
      refine ⟨rfl, fun free e member r n yaml' config' ignored' same current' blob' read' relay named => ?_⟩
      rcases List.mem_cons.mp member with rfl | member
      · obtain rfl := data r same
        cases current.symm.trans current'
        cases Option.some.inj (stored.symm.trans ((blob yaml').mpr blob'))
        cases read.symm.trans read'
        rw [Bool.not_eq_true, List.any_eq_false] at unnamed
        simpa using unnamed relay named
      · exact unused free e member r n yaml' config' ignored' same current' blob' read' relay named

theorem connectionInUse_safe {m : Permits} :
    Safe m v (fun used v' => v' = v ∧ (used = false → ¬ v.ledger.InUse ws app name)) (connectionInUse app ws name) := by
  refine Safe.list_bind nofun fun entities valid listed => connectionInUseBy_safe.mono ?_
  rintro used _ ⟨rfl, unused⟩
  refine ⟨rfl, fun free => ?_⟩
  rintro ⟨id, r, n, yaml, config, ignored, held, current, blob, read, relay, named, same⟩
  obtain ⟨e, member, row, data⟩ := listed.find held
  obtain ⟨r', same', id', -⟩ := valid.typed _ _ held
  cases same'
  have other := unused free e member r n yaml config ignored data current (id' ▸ blob) read relay named
  rw [same] at other
  cases other

theorem reconcileDeletion_safe (own : v.ledger.Workspace ws r x₀) (id : r.workspace.id = ws) (partition : entity.partitionKey = ws)
    (held : v.ledger.Connection ws entity.rowKey connection x) (data : entity.data = .connection connection x)
    (deleting : connection.state = .deleting) :
    Safe (.system app d) v (fun _ v' => v.AgreeApart (audited ⟨.connections, ws, entity.rowKey⟩) v')
      (reconcileDeletion app r.workspace entity connection) := by
  subst id
  refine connectionInUse_safe.bind ?_
  rintro used v ⟨rfl, unused⟩
  refine Safe.ite (fun _ => Safe.pure (.refl v)) fun free => ?_
  have allowed : ∀ w, w.Within v → Sane w → CloudCall app d.denied w (.deleteConnection r.workspace.namespaceName connection.name) := by
    intro w within _
    rw [← within.ledger] at own held unused
    exact .deleteConnection own held deleting (unused (by simpa using free))
  refine Safe.external_attempt_bind (r := .deleteConnection r.workspace.namespaceName connection.name) rfl allowed fun result told => ?_
  rcases result with e | _ | _
  · dsimp only
    refine (saveConnection_safe partition ?_).bind fun _ v' saved => Safe.pure saved.apart
    rw [held, data]
    exact .connectionFailed deleting
  · exact Safe.pure (.refl v)
  · refine recordAudit_safe.bind fun _ v' apart => ?_
    change Safe _ _ _ (delete .connections entity.partitionKey entity.rowKey entity.etag)
    rw [partition]
    have gone : ∀ w, w.Within v' → CloudCall app d.denied w (.delete .connections r.workspace.id entity.rowKey entity.etag) := by
      intro w within
      have own' : w.ledger.Workspace r.workspace.id r x₀ := by
        rw [Ledger.Workspace, within.ledger, apart.value (by rintro ⟨⟩), own]
      have held' : w.ledger.Connection r.workspace.id entity.rowKey connection x := by
        rw [Ledger.Connection, within.ledger, apart.value (by rintro ⟨⟩), held]
      exact .removeConnection own' held' deleting (told rfl)
    refine Safe.remove (by rintro ⟨⟩) (by rintro _ ⟨⟩) (fun w within _ => gone w within) ?_ ((apart.mono fun _ => .inl).trans (.set (.inr rfl)))
    rw [apart.value (by rintro ⟨⟩), held]
    exact .removeConnection deleting

theorem reconcileProvisioning_safe (own : v.ledger.Workspace ws r x₀) (alive : r.workspace.state ≠ .deleting)
    (partition : entity.partitionKey = ws)
    (held : v.ledger.Connection ws entity.rowKey connection x) (data : entity.data = .connection connection x)
    (unready : connection.state ≠ .ready) (live : connection.state ≠ .deleting) :
    Safe (.system app d) v (fun _ v' => v.AgreeApart (audited ⟨.connections, ws, entity.rowKey⟩) v')
      (reconcileProvisioning r.workspace entity connection) := by
  refine Safe.reads_bind Reading.shouldRetry fun retry => Safe.ite (fun _ => ?_) fun _ => Safe.pure (.refl v)
  refine (saveConnection_safe partition ?_).bind fun e v₁ saved => ?_
  · rw [held, data]
    exact .saveConnection unready live (by rintro ⟨⟩)
  have allowed : ∀ w, w.Within v₁ → Sane w → CloudCall app d.denied w (.ensureConnection r.workspace.namespaceName connection.name) := by
    intro w within _
    have kept : w.ledger.Workspace ws r x₀ := by
      rw [Ledger.Workspace, within.ledger, saved.apart.value (by simp [audited])]
      exact own
    have row := saved.held
    rw [data, ← within.ledger] at row
    exact @CloudCall.ensureConnection app d.denied w ws _ r _ _ { connection with state := .provisioning, error := none }
      kept alive row rfl
  refine Safe.external_attempt_bind (r := .ensureConnection r.workspace.namespaceName connection.name) rfl allowed fun result _ => ?_
  refine provisioningResult_safe.bind fun outcome v₂ facts => ?_
  obtain ⟨same, alive, _⟩ := facts
  subst same
  refine (saveConnection_safe saved.partitionKey ?_).bind fun _ v₃ saved' => Safe.pure (saved.apart.trans ?_)
  · rw [saved.rowKey, saved.held, saved.data, data]
    exact .saveConnection (by rintro ⟨⟩) (by rintro ⟨⟩) alive
  · have apart := saved'.apart
    rwa [saved.rowKey] at apart

theorem reconcileConnection_safe (own : v.ledger.Workspace ws r x₀) (id : r.workspace.id = ws) (alive : r.workspace.state ≠ .deleting)
    (partition : entity.partitionKey = ws)
    (held : v.ledger.value ⟨.connections, ws, entity.rowKey⟩ = some entity.data) :
    Safe (.system app d) v (fun _ v' => v.AgreeApart (audited ⟨.connections, ws, entity.rowKey⟩) v')
      (reconcileConnection app r.workspace entity) := by
  refine Safe.decode_bind fun connection decoded => ?_
  obtain ⟨x, data⟩ : ∃ x, entity.data = .connection connection x := by
    generalize entity.data = value at decoded
    cases value <;> cases decoded
    exact ⟨_, rfl⟩
  rw [data] at held
  refine Safe.ite (fun _ => Safe.pure (.refl v)) fun unready => ?_
  exact Safe.ite (reconcileDeletion_safe own id partition held data)
    fun live => reconcileProvisioning_safe own alive partition held data unready live

theorem reconcileConnectionsLocked_safe (own : v.ledger.Workspace ws r x₀) (id : r.workspace.id = ws)
    (alive : r.workspace.state ≠ .deleting) :
    Safe (.system app d) v (fun _ v' => v.AgreeApart (fun k => k.table = .audit ∨ k.table = .connections) v')
      (reconcileConnectionsLocked app r.workspace) := by
  subst id
  refine Safe.list_bind nofun fun entities _ listed => ?_
  refine (Safe.forEach (I := fun rest v' => Remaining v'.ledger .connections r.workspace.id rest ∧
    v.AgreeApart (fun k => k.table = .audit ∨ k.table = .connections) v') ?_
    ⟨listed.toRemaining, .refl v⟩).mono fun _ _ h => h.2
  rintro entity rest v' ⟨remaining, apart⟩
  obtain ⟨partition, -⟩ := remaining.rows entity (.head _)
  have kept : v'.ledger.Workspace r.workspace.id r x₀ := by
    rw [Ledger.Workspace, apart.value (by simp)]
    exact own
  refine (reconcileConnection_safe kept rfl alive partition (remaining.value (.head _))).mono fun _ v'' apart' => ⟨?_, ?_⟩
  · exact remaining.tail fun row different => apart'.rows _ (by simp [audited, different])
  · refine apart.trans (apart'.mono fun k touched => ?_)
    rcases touched with audit | rfl
    · exact .inl audit
    · exact .inr rfl

end Connections

/-! ### Deletion of a workspace -/

section Deletion
variable {workspace : Workspace} {entity : Entity Value} {r : WorkspaceRecord} {x : Extra} {t : Table}

theorem cleanupTable_safe (member : cleaned t) (deleting : v.ledger.Deleting workspace.id) :
    Safe (.system app d) v (fun _ v' => v.AgreeApart (·.table = t) v' ∧
      ∀ row, v'.ledger.rows ⟨t, workspace.id, row⟩ = none) (cleanupTable workspace t) := by
  have table : t ≠ .enrollments ∧ ¬ (t = .connections ∨ t = .workspaces) := by
    rcases member with rfl | rfl | rfl | rfl <;> exact ⟨nofun, by simp⟩
  refine Safe.list_bind table.1 fun entities _ listed => ?_
  refine (Safe.forEach (I := fun rest v' => v.AgreeApart (·.table = t) v' ∧ Listed v'.ledger t workspace.id rest)
    ?_ ⟨.refl v, listed⟩).mono ?_
  · rintro entity rest v' ⟨apart, listed⟩
    obtain ⟨partition, held⟩ := listed.rows entity (.head _)
    rw [deleteEntity, partition]
    refine Safe.delete table.1 table.2 ?_ ⟨apart.trans (.set rfl), listed.tail⟩
    rw [listed.value (.head _)]
    exact .cleanup member (apart.inState (fun same => table.2 (.inr same.symm)) deleting)
  · rintro - v' ⟨apart, listed⟩
    refine ⟨apart, fun row => ?_⟩
    by_contra present
    obtain ⟨e, impossible, -⟩ := listed.complete row present
    cases impossible

/-- Whatever lies in a workspace's own partition, no row of the ledger goes. -/
theorem cleanupEnrollmentPartition_safe :
    Safe (.system app d) v (fun _ v' => v' = v) (cleanupTable workspace .enrollments) := by
  refine Safe.reads_bind Reading.list fun entities => ?_
  refine Safe.forEach (I := fun _ v' => v' = v) ?_ rfl
  rintro entity rest _ rfl
  exact Safe.deleteEnrollment

/-- Enrollments may come and go meanwhile, but no new one refers to a workspace. -/
theorem cleanupEnrollments_safe {m : Permits} :
    Safe m v (fun _ v' => v'.ledger = v.ledger ∧ ¬ v'.enrolled workspace.id)
      (do Program.forEach (cleanupEnrollment workspace) (← list .enrollments platformPartition)) := by
  refine ⟨fun w within => ?_⟩
  -- Every row that still refers to the workspace is among those to be visited.
  let pending (rest : List (Entity Value)) (w : World) : Prop := w.Within v ∧ ∀ k e, k.table = .enrollments →
    w.store.lookup k = some e → e.data.workspaceId = some workspace.id → e ∈ rest
  have quiet : ∀ rest w w', pending rest w → Quiet w w' → pending rest w' := by
    rintro rest w w' ⟨within, known⟩ quiet
    refine ⟨within.quiet quiet, fun k e table held refers => ?_⟩
    rcases quiet.rows k e table held with before | ⟨-, none⟩
    · exact known k e table before refers
    · rw [none] at refers
      cases refers
  refine Program.Meets.bind (P := pending) ?_ fun entities w' start => ?_
  · intro w₁ quiet' sane reply w₂ answered
    obtain ⟨rfl, listed⟩ := responds_list answered.1
    refine ⟨⟨(Quiet.refl _).locked, nofun⟩, ?_⟩
    cases reply with
    | error e => exact ⟨v, within.quiet quiet', trivial⟩
    | ok entities =>
      refine ⟨within.quiet quiet', fun k e table held _ => ?_⟩
      obtain ⟨mem, -⟩ := listed entities rfl
      obtain ⟨t, partition, row⟩ := k
      obtain ⟨partitionKey, rowKey⟩ := MemoryMetadata.keyed _ _ e held
      cases table
      cases sane.placed _ e rfl held
      exact (mem e).mpr ⟨partitionKey, by rwa [rowKey]⟩
  · refine (Program.meets_forEach (P := pending) ?_ start).mono ?_ fun _ _ h => h
    · rintro entity rest w ⟨within, known⟩
      by_cases refers : entity.data.workspaceId = some workspace.id
      · simp only [cleanupEnrollment, refers, ↓reduceIte]
        intro w₁ quiet' sane reply w₂ answered
        obtain ⟨within₁, known₁⟩ := quiet _ _ _ ⟨within, known⟩ quiet'
        refine and_assoc.mpr ?_
        rcases responds_delete answered.1 with ⟨e, rfl, rfl⟩ | ⟨old, found, tag, reply', rfl⟩
        · exact ⟨(Quiet.refl _).locked, nofun, v, within₁, trivial⟩
        · refine ⟨quiet_erased.locked, nofun, ?_⟩
          rcases reply' with rfl | rfl
          · obtain ⟨within₂, known₂⟩ := quiet _ _ _ ⟨within₁, known₁⟩
              (@quiet_erased entity.rowKey _ entity.partitionKey)
            refine ⟨within₂, fun k e table held refers => ?_⟩
            rcases List.mem_cons.mp (known₂ k e table held refers) with rfl | later
            · obtain ⟨partitionKey, rowKey⟩ := MemoryMetadata.keyed _ _ e held
              have key : k = ⟨.enrollments, e.partitionKey, e.rowKey⟩ := by
                cases k
                simp_all
              rw [key, MemoryMetadata.lookup_erase_self] at held
              cases held
            · exact later
          · exact ⟨v, within₁.quiet quiet_erased, trivial⟩
      · simp only [cleanupEnrollment, refers, ↓reduceIte]
        refine Program.meets_pure ⟨within, fun k e table held refers' => ?_⟩
        rcases List.mem_cons.mp (known k e table held refers') with rfl | later
        · exact absurd refers' refers
        · exact later
    · rintro - w ⟨within, known⟩
      refine ⟨{ v with enrolled := fun ws => v.enrolled ws ∧ ws ≠ workspace.id }, ⟨within.ledger, ?_⟩, rfl, by simp⟩
      rintro ws ⟨k, e, table, held, refers⟩
      refine ⟨within.enrolled ws ⟨k, e, table, held, refers⟩, ?_⟩
      rintro rfl
      cases known k e table held refers

def credentials (t : Table) : Prop := t = .gateways ∨ t = .profiles ∨ t = .revisionMetadata

theorem cleanupCredentials_safe (deleting : v.ledger.Deleting workspace.id) :
    Safe (.system app d) v (fun _ v' => v.AgreeApart (fun k => credentials k.table) v' ∧
      ∀ t row, credentials t → v'.ledger.rows ⟨t, workspace.id, row⟩ = none)
      (Program.forEach (cleanupTable workspace) [.gateways, .enrollments, .profiles, .revisionMetadata]) := by
  refine (cleanupTable_safe (.inl rfl) deleting).bind fun _ v₁ ⟨apart₁, gateways⟩ => ?_
  refine cleanupEnrollmentPartition_safe.bind fun _ v₂ same => ?_
  subst same
  refine (cleanupTable_safe (.inr (.inl rfl)) (apart₁.inState nofun deleting)).bind fun _ v₃ ⟨apart₃, profiles⟩ => ?_
  have deleting₃ := apart₃.inState nofun (apart₁.inState nofun deleting)
  refine (cleanupTable_safe (.inr (.inr (.inl rfl))) deleting₃).bind fun _ v₄ ⟨apart₄, revisions⟩ => ?_
  refine Safe.pure ⟨?_, ?_⟩
  · refine (apart₁.mono ?_).trans ((apart₃.mono ?_).trans (apart₄.mono ?_)) <;> intro k table
    · exact .inl table
    · exact .inr (.inl table)
    · exact .inr (.inr table)
  · rintro t row (rfl | rfl | rfl)
    · rw [apart₄.rows _ (by nofun), apart₃.rows _ (by nofun), gateways]
    · rw [apart₄.rows _ (by nofun), profiles]
    · exact revisions row

theorem cleanupIndexes_safe {users : List String} (deleting : v.ledger.Deleting workspace.id) :
    Safe (.system app d) v (fun _ v' => v.AgreeApart (·.table = .userWorkspaces) v' ∧
      ∀ user ∈ users, ¬ v'.ledger.Indexed workspace.id user)
      (Program.forEach (cleanupIndex workspace) users) := by
  refine (Safe.forEach (I := fun rest v' => v.AgreeApart (·.table = .userWorkspaces) v' ∧
    ∀ user ∈ users, v'.ledger.Indexed workspace.id user → user ∈ rest) ?_
    ⟨.refl v, fun _ member _ => member⟩).mono ?_
  · rintro user rest v' ⟨apart, visited⟩
    refine (cleanupIndex_safe (apart.inState nofun deleting)).mono fun _ v'' ⟨apart', removed⟩ => ⟨apart.trans apart', fun other member indexed => ?_⟩
    obtain ⟨before, different⟩ := removed other indexed
    exact (List.mem_cons.mp (visited other member before)).resolve_left different
  · rintro - v' ⟨apart, visited⟩
    refine ⟨apart, fun user member indexed => ?_⟩
    cases visited user member indexed

theorem deleteWorkspaceLocked_safe (held : v.ledger.Workspace ws r x) (data : entity.data = .workspace r x)
    (partition : entity.partitionKey = platformPartition) (row : entity.rowKey = ws) (id : r.workspace.id = ws)
    (deleting : r.workspace.state = .deleting) :
    Safe (.system app d) v (fun _ _ => True) (deleteWorkspaceLocked entity r.workspace) := by
  subst id
  refine Safe.list_bind (by rintro ⟨⟩) fun connections _ listed => Safe.require_bind fun empty => ?_
  refine (cleanupCredentials_safe (held.inState deleting)).bind fun _ v₁ facts => ?_
  obtain ⟨apart₁, emptied⟩ := facts
  rw [← Program.bind_assoc]
  refine cleanupEnrollments_safe.bind fun _ v₂ facts => ?_
  obtain ⟨same, free⟩ := facts
  have held₂ : v₂.ledger.Workspace r.workspace.id r x := by
    rw [Ledger.Workspace, same, apart₁.value (by simp [credentials]), held]
  refine (cleanupTable_safe (.inr (.inr (.inr rfl))) (held₂.inState deleting)).bind fun _ v₃ facts => ?_
  obtain ⟨apart₃, members⟩ := facts
  have deleting₃ : v₃.ledger.Deleting r.workspace.id := apart₃.inState (by rintro ⟨⟩) (held₂.inState deleting)
  refine (cleanupIndexes_safe deleting₃).bind fun _ v₄ facts => ?_
  obtain ⟨apart₄, unindexed⟩ := facts
  have held₄ : v₄.ledger.Workspace r.workspace.id r x := by
    rw [Ledger.Workspace, apart₄.value (by rintro ⟨⟩), apart₃.value (by rintro ⟨⟩), held₂]
  have connectionsGone : ∀ id, v.ledger.rows ⟨.connections, r.workspace.id, id⟩ = none := by
    intro id
    by_contra present
    obtain ⟨e, member, -⟩ := listed.complete id present
    rw [List.isEmpty_iff.mp empty] at member
    cases member
  have rows : ∀ k, k.table ≠ .userWorkspaces → k.table ≠ .members → v₄.ledger.rows k = v₁.ledger.rows k := by
    intro k index member
    rw [apart₄.rows k index, apart₃.rows k member, same]
  have gone : ∀ k, k.workspace? = some r.workspace.id → k.table ≠ .workspaces → k.table ≠ .userWorkspaces →
      v₄.ledger.rows k = none := by
    rintro ⟨t, partition, row⟩ belongs other index
    cases t <;> cases belongs
    · exact absurd rfl other
    · rw [apart₄.rows _ (by rintro ⟨⟩), members]
    · exact absurd rfl index
    · rw [rows _ (by rintro ⟨⟩) (by rintro ⟨⟩), apart₁.rows _ (by simp [credentials]), connectionsGone]
    · rw [rows _ (by rintro ⟨⟩) (by rintro ⟨⟩), emptied _ _ (.inr (.inl rfl))]
    · rw [rows _ (by rintro ⟨⟩) (by rintro ⟨⟩), emptied _ _ (.inl rfl)]
    · rw [rows _ (by rintro ⟨⟩) (by rintro ⟨⟩), emptied _ _ (.inr (.inr rfl))]
  have unenrolled : ¬ v₄.enrolled r.workspace.id := by rwa [apart₄.enrolled, apart₃.enrolled]
  have allowed : ∀ w, w.Within v₄ → Sane w → CloudCall app d.denied w (.deleteNamespace r.workspace.namespaceName) := by
    intro w within _
    have own := held₄
    have none := gone
    rw [← within.ledger] at own none
    exact .deleteNamespace own deleting none fun enrolled => unenrolled (within.enrolled _ enrolled)
  refine Safe.external_attempt_bind (r := .deleteNamespace r.workspace.namespaceName) rfl allowed fun result told => ?_
  rcases result with e | _ | _
  · dsimp only
    refine (saveWorkspace_safe row ?_).bind fun _ _ _ => Safe.pure trivial
    rw [held₄, data]
    exact .deletionFailed deleting
  · exact Safe.pure trivial
  · refine recordAudit_safe.bind fun _ v₅ apart₅ => ?_
    change Safe _ _ _ (delete .workspaces entity.partitionKey entity.rowKey entity.etag)
    rw [partition, row]
    have removed : ∀ w, w.Within v₅ → CloudCall app d.denied w (.delete .workspaces platformPartition r.workspace.id entity.etag) := by
      intro w within
      have held' : w.ledger.Workspace r.workspace.id r x := by
        rw [Ledger.Workspace, within.ledger, apart₅.value (by rintro ⟨⟩), held₄]
      exact .removeWorkspace held' deleting (told rfl)
    refine Safe.remove (by rintro ⟨⟩) ?_ (fun w within _ => removed w within) ?_ trivial
    · rintro ws ⟨⟩
      rwa [apart₅.enrolled]
    · rw [apart₅.value (by rintro ⟨⟩), held₄]
      refine .removeWorkspace deleting ?_ fun user member => ?_
      · intro k belongs other index
        have audit : k.table ≠ .audit := by
          intro audit
          simp [Key.workspace?, audit] at belongs
        rw [apart₅.rows k audit, gone k belongs other index]
      · rw [Indexed, apart₅.rows _ (by rintro ⟨⟩)]
        exact unindexed user (data ▸ member)

end Deletion

/-! ### Provisioning of a workspace -/

section Provisioning
variable {entity : Entity Value} {r : WorkspaceRecord} {x : Extra}

/-- The row of an active workspace, as an operation has it at hand. -/
structure Held (v : View) (ws : String) (entity : Entity Value) (r : WorkspaceRecord) (x : Extra) : Prop where
  valid : v.ledger.Valid
  held : v.ledger.Workspace ws r x
  data : entity.data = .workspace r x
  row : entity.rowKey = ws
  live : r.workspace.state ≠ .deleting

theorem insertCreator_safe {id : Nat} (active : v.ledger.Active ws) (creator : v.ledger.Unfinished ws (toString id)) :
    Safe (.system app d) v (fun _ v' => v.AgreeApart (·.table = .members) v' ∧ v'.ledger.Joined ws (toString id) ∧
      (¬ v.ledger.Joined ws (toString id) → v'.ledger.HasAdmin ws) ∧ (v.ledger.HasAdmin ws → v'.ledger.HasAdmin ws))
      (insertCreator ws id) := by
  refine Safe.get_bind nofun fun found facts => ?_
  cases found with
  | some entity =>
    have joined : v.ledger.Joined ws (toString id) := rows_of_value facts.value
    exact Safe.pure ⟨.refl v, joined, (absurd joined ·), fun admin => admin⟩
  | none =>
    refine Safe.insert_bind nofun (fun _ _ => .insertMember ⟨⟨id, toString id, ""⟩, .admin⟩ active creator rfl)
      fun e data _ _ => Safe.pure ?_
    have admin : (v.with (v.ledger.set ⟨.members, ws, toString id⟩ (some e))).ledger.HasAdmin ws :=
      ⟨toString id, ⟨⟨id, toString id, ""⟩, .admin⟩, set_value_self.trans (congrArg some data), rfl⟩
    exact ⟨.set rfl, by simp [Ledger.Joined], fun _ => admin, fun _ => admin⟩

theorem insertCreatorIndex_safe {id : Nat} (active : v.ledger.Active ws) (joined : v.ledger.Joined ws (toString id)) :
    Safe (.system app d) v (fun _ v' => v.AgreeApart (·.table = .userWorkspaces) v') (insertCreatorIndex ws id) := by
  refine Safe.get_bind nofun fun found facts => ?_
  cases found with
  | some entity => exact Safe.pure (.refl v)
  | none => exact Safe.insert_bind nofun (fun _ _ => .insertIndex active joined) fun e _ _ _ => Safe.pure (.set rfl)

theorem repairCreator_safe (h : Held v ws entity r x) (strict : d.repair → ¬ v.ledger.Stranded ws) :
    Safe (.system app d) v (fun e v' => ∃ x', v'.ledger.Workspace ws r x' ∧ e.data = .workspace r x' ∧ e.rowKey = ws ∧
      x'.creatorMembershipInitialized = some true) (repairCreator entity r) := by
  have active : v.ledger.Active ws := h.held.inState h.live
  refine Safe.ite (fun settled => Safe.pure ⟨x, h.held, h.data, h.row, ?_⟩) fun unsettled => ?_
  · rw [h.data] at settled
    rcases settled with initialised | late
    · exact initialised
    · obtain ⟨-, r', x', same, -, initialised⟩ := h.valid.typed _ _ h.held
      cases same
      exact initialised (fun pending => late (.inl pending)) h.live
  · rw [h.data, not_or, not_not] at unsettled
    obtain ⟨uninitialised, early⟩ := unsettled
    rw [h.row]
    refine (insertCreator_safe active ⟨r, x, h.held, rfl, uninitialised, early⟩).bind fun _ v₁ facts => ?_
    obtain ⟨apart₁, joined, inserted, kept⟩ := facts
    refine (insertCreatorIndex_safe (apart₁.inState (by rintro ⟨⟩) active) joined).bind fun _ v₂ apart₂ => ?_
    have held : v₂.ledger.Workspace ws r x := by
      rw [Ledger.Workspace, apart₂.value (by rintro ⟨⟩), apart₁.value (by rintro ⟨⟩), h.held]
    have admin : d.repair → v₂.ledger.HasAdmin ws := by
      intro repair
      refine apart₂.hasAdmin (fun _ => by rintro ⟨⟩) ?_
      by_cases before : v.ledger.HasAdmin ws
      · exact kept before
      · exact inserted fun joined => strict repair ⟨r, x, h.held, uninitialised, early, joined, before⟩
    dsimp only
    rw [h.data]
    refine (Safe.replace (by rintro ⟨⟩) ?_).mono ?_
    · rw [held]
      exact .initialise early admin
    · intro e v₃ written
      exact ⟨_, written.value, written.data, written.rowKey, rfl⟩

theorem reconcileNamespace_safe (held : v.ledger.Workspace ws r x) (data : entity.data = .workspace r x)
    (row : entity.rowKey = ws) (live : r.workspace.state ≠ .deleting)
    (initialised : x.creatorMembershipInitialized = some true) :
    Safe (.system app d) v (fun r' v' => v.AgreeApart (audited (workspaceKey ws)) v' ∧ r'.workspace.id = r.workspace.id ∧
      ∃ x', v'.ledger.Workspace ws r' x' ∧ x'.creatorMembershipInitialized = some true) (reconcileNamespace entity r) := by
  refine (saveWorkspace_safe row ?_).bind fun e v₁ saved => ?_
  · rw [held, data]
    exact .provision live nofun initialised initialised
  have allowed : ∀ w, w.Within v₁ → Sane w →
      CloudCall app d.denied w (.ensureNamespace r.workspace.namespaceName r.workspace.location) := by
    intro w within _
    have own := saved.held
    rw [data, ← within.ledger] at own
    exact .ensureNamespace (r := { r with workspace := { r.workspace with state := .provisioning, error := none } }) own rfl
  refine Safe.external_attempt_bind (r := .ensureNamespace r.workspace.namespaceName r.workspace.location) rfl allowed
    fun result _ => ?_
  refine provisioningResult_safe.bind fun outcome v₂ ⟨same, alive, kept⟩ => ?_
  subst same
  rw [saved.data, data] at kept
  refine (saveWorkspace_safe saved.rowKey ?_).bind fun _ _ saved' => Safe.pure ⟨saved.apart.trans saved'.apart, rfl, ?_⟩
  · rw [saved.held, saved.data, data]
    exact .provision (r := { r with workspace := { r.workspace with state := .provisioning, error := none } }) nofun alive
      initialised (kept.trans initialised)
  · have row := saved'.held
    rw [saved.data, data] at row
    exact ⟨_, row, kept.trans initialised⟩

theorem reconcileActive_safe (h : Held v ws entity r x) (id : r.workspace.id = ws) (strict : d.repair → ¬ v.ledger.Stranded ws) :
    Safe (.system app d) v (fun _ v' => v'.ledger.Settled ws) (reconcileActive app ws entity r) := by
  refine (repairCreator_safe h strict).bind fun e v₁ facts => ?_
  obtain ⟨x', held, data, row, initialised⟩ := facts
  refine Safe.list_bind (by rintro ⟨⟩) fun members valid listed => ?_
  refine (ensureMemberIndexes_safe (held.inState h.live) listed valid).bind fun _ v₂ facts => ?_
  obtain ⟨apart, indexed⟩ := facts
  have held₂ : v₂.ledger.Workspace ws r x' := by rw [Ledger.Workspace, apart.value (by rintro ⟨⟩), held]
  have indexed₂ : ∀ user, v₂.ledger.Joined ws user → v₂.ledger.Indexed ws user := by
    intro user joined
    rw [Ledger.Joined, apart.rows _ (by rintro ⟨⟩)] at joined
    exact indexed user joined
  -- neither the namespace nor the connections have to do with the members
  have settled : ∀ v' touched, v₂.AgreeApart touched v' → (∀ user, ¬ touched ⟨.members, ws, user⟩) →
      (∀ user, ¬ touched ⟨.userWorkspaces, user, ws⟩) →
      (∃ r' x', v'.ledger.Workspace ws r' x' ∧ x'.creatorMembershipInitialized = some true) → v'.ledger.Settled ws := by
    rintro v' touched apart members indexes ⟨r', x', row, finished⟩ -
    refine ⟨row.finished finished, fun user joined => ?_⟩
    rw [Ledger.Joined, apart.rows _ (members user)] at joined
    rw [Indexed, apart.rows _ (indexes user)]
    exact indexed₂ user joined
  have connections : ∀ v' (r' : WorkspaceRecord), v₂.AgreeApart (audited (workspaceKey ws)) v' → r'.workspace.id = ws →
      (∃ x', v'.ledger.Workspace ws r' x' ∧ x'.creatorMembershipInitialized = some true) →
      Safe (.system app d) v' (fun _ v' => v'.ledger.Settled ws)
        (if r'.workspace.state = .ready then reconcileConnectionsLocked app r'.workspace else pure ()) := by
    rintro v' r' before id ⟨x'', row, finished⟩
    refine Safe.ite (fun ready => ?_) fun _ => Safe.pure ?_
    · refine (reconcileConnectionsLocked_safe row id (by rw [ready]; rintro ⟨⟩)).mono fun _ v'' after => ?_
      have all := (before.mono fun _ => Or.inl).trans (after.mono fun _ => Or.inr)
      refine settled v'' _ all (fun user => by simp [audited]) (fun user => by simp [audited]) ⟨r', x'', ?_, finished⟩
      rw [Ledger.Workspace, after.value (by simp)]
      exact row
    · exact settled v' _ before (fun user => by simp [audited]) (fun user => by simp [audited]) ⟨r', x'', row, finished⟩
  refine Safe.ite (fun unready => ?_) fun _ => connections v₂ r (.refl v₂) id ⟨x', held₂, initialised⟩
  refine Safe.reads_bind Reading.shouldRetry fun retry => Safe.ite (fun _ => ?_) fun _ =>
    connections v₂ r (.refl v₂) id ⟨x', held₂, initialised⟩
  refine (reconcileNamespace_safe held₂ data row h.live initialised).bind fun r' v' facts => ?_
  obtain ⟨before, same, row'⟩ := facts
  exact connections v' r' before (same.trans id) row'

end Provisioning

/-! ### A pass -/

/-- An entity that was read as the row of a workspace. -/
structure Located (c : Ledger) (ws : String) (entity : Entity Value) : Prop where
  valid : c.Valid
  held : c.value (workspaceKey ws) = some entity.data
  partition : entity.partitionKey = platformPartition
  row : entity.rowKey = ws

theorem workspaceEntity_sound {m : Permits} :
    Sound m v (fun e v' => v' = v ∧ Located v.ledger ws e) (fun e v' => v' = v ∧ (e = .notFound → ¬ v.ledger.Present ws))
      (workspaceEntity ws) := by
  refine Sound.bind (P := fun _ v' => v' = v) ?_ ?_
  · unfold uuid require
    split
    · exact ⟨fun w within => ⟨v, within, rfl⟩⟩
    · exact ⟨fun w within => ⟨v, within, rfl, nofun⟩⟩
  · rintro _ v' same
    subst same
    have fetched : Sound m v' (fun found v'' => v'' = v' ∧ Found v'.ledger .workspaces platformPartition ws found)
      (fun _ v'' => v'' = v') (get .workspaces platformPartition ws) := Sound.get nofun
    have fetched := fetched.fails (F := (· ≠ .notFound)) fun _ _ _ => responds_get_found
    refine Sound.bind (fetched.mono (fun _ _ h => h) ?_) ?_
    · rintro e v ⟨same, found⟩
      exact ⟨same, fun missing => absurd missing found⟩
    · rintro found v ⟨same, facts⟩
      subst same
      cases found with
      | none => exact ⟨fun w within => ⟨v, within, rfl, fun _ present => present facts.rows⟩⟩
      | some entity =>
        obtain ⟨partition, row⟩ := facts.keyed entity rfl
        exact ⟨fun w within => ⟨v, within, rfl, facts.valid, facts.value, partition, row⟩⟩

theorem workspaceEntity_safe {m : Permits} :
    Safe m v (fun e v' => v' = v ∧ Located v.ledger ws e) (workspaceEntity ws) := workspaceEntity_sound.safe

theorem Located.record {c : Ledger} {entity : Entity Value} {r : WorkspaceRecord} (h : Located c ws entity)
    (decoded : Record.decode entity.data = some r) :
    ∃ x, c.Workspace ws r x ∧ entity.data = .workspace r x ∧ r.workspace.id = ws := by
  obtain ⟨-, r', x, data, id, -⟩ := h.valid.typed _ _ h.held
  rw [data] at decoded
  cases decoded
  exact ⟨x, h.held.trans (congrArg some data), data, id⟩

theorem reconcileWorkspaceLocked_safe (strict : d.repair → ¬ v.ledger.Stranded ws) :
    Safe (.system app d) v (fun _ v' => v'.ledger.Settled ws) (reconcileWorkspaceLocked app ws) := by
  refine workspaceEntity_sound.attempt_bind ?_ ?_
  · rintro entity v ⟨same, located⟩
    subst same
    refine Safe.decode_bind fun r decoded => ?_
    obtain ⟨x, held, data, id⟩ := located.record decoded
    refine Safe.ite (fun deleting => ?_) fun live => ?_
    · have deleted : Safe (.system app d) v (fun _ _ => True) (deleteWorkspaceLocked entity r.workspace) :=
        deleteWorkspaceLocked_safe held data located.partition located.row id deleting
      have deletion := deleted.reached
        (R := fun c c' => c'.Active ws → c.Active ws) (fun _ h => h) (fun _ _ _ first second h => first (second h))
        fun _ _ step => step.active_before
      refine deletion.mono ?_ fun _ _ _ => trivial
      rintro _ v' ⟨active_before, -⟩ active
      have gone : v.ledger.Deleting ws := held.inState deleting
      exact absurd (active_before active) gone.not_active
    · exact reconcileActive_safe ⟨located.valid, held, data, located.row, live⟩ id strict
  · rintro e _ ⟨rfl, outcome⟩
    cases e with
    | notFound => exact Safe.pure fun active => absurd active.present (outcome rfl)
    | _ => exact Safe.throw

/-- Without a failure every workspace that is left out is settled already. -/
theorem reconcileAll_safe {failure : Option BrokerError} {entities : List (Entity Value)}
    (strict : d.repair → ∀ ws, ¬ v.ledger.Stranded ws)
    (rest : failure = none → ∀ ws, v.ledger.Settled ws ∨ ws ∈ entities.map (·.rowKey)) :
    Safe (.system app d) v (fun _ v' => ∀ ws, v'.ledger.Settled ws) (reconcileAll app failure entities) := by
  induction entities generalizing failure v with
  | nil =>
    cases failure with
    | none => exact Safe.pure fun ws => (rest rfl ws).resolve_right (by simp)
    | some e => exact Safe.throw
  | cons entity entities ih =>
    have visit : Safe (.system app d) v (fun _ v' => v'.ledger.Settled entity.rowKey)
        (reconcileWorkspaceLocked app entity.rowKey) := reconcileWorkspaceLocked_safe fun repair => strict repair _
    have visit := visit.reached (R := fun c c' => ((∀ ws, ¬ c.Stranded ws) → ∀ ws, ¬ c'.Stranded ws) ∧
      ∀ ws, c.Settled ws → c'.Settled ws) (fun _ => ⟨fun h => h, fun _ h => h⟩)
      (fun _ _ _ first second => ⟨fun h => second.1 (first.1 h), fun ws h => second.2 ws (first.2 ws h)⟩)
      fun _ _ step => ⟨fun h ws => step.unstranded (h ws), fun _ => step.settled⟩
    refine visit.attempt_bind (fun _ v' ⟨kept, own⟩ => ?_) fun e v' ⟨kept, _⟩ => ?_
    · refine ih (fun repair => kept.1 (strict repair)) fun fine ws => ?_
      rcases rest fine ws with settled | visited
      · exact .inl (kept.2 ws settled)
      · rcases List.mem_cons.mp visited with rfl | later
        · exact .inl own
        · exact .inr later
    · exact ih (fun repair => kept.1 (strict repair)) nofun

theorem reconcileOnce_safe (strict : d.repair → ∀ ws, ¬ v.ledger.Stranded ws) :
    Safe (.system app d) v (fun _ v' => ∀ ws, v'.ledger.Settled ws) (reconcileOnce app) := by
  refine Safe.list_bind nofun fun entities _ listed => reconcileAll_safe strict fun _ ws => ?_
  by_cases present : v.ledger.Present ws
  · obtain ⟨e, member, row⟩ := listed.complete ws present
    exact .inr (List.mem_map.mpr ⟨e, member, row⟩)
  · exact .inl fun active => absurd active.present present

end Azbridge.Broker
