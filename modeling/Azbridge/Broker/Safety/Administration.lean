import Azbridge.Broker.Safety.Reconciler

/-!
# The administration endpoints keep to their writes

Each handler is followed from its reads to its writes: the checks it makes on the way are exactly
what `Write` asks for at the row it writes.
-/

namespace Azbridge.Broker
open Ledger Auth Workspaces Reconciler Administration

/-- The writes of an endpoint, with the tokens this one may have issued. -/
def Permits.endpoint (app : App) (d : Discipline) (tokens : Ledger → String → String → RelayRight → Prop) : Permits where
  writes := Write app d
  calls w
    | .issueToken ns relay right => tokens w.ledger ns relay right
    | r => CloudCall app d.denied w r
  denied := d.denied

section Rules
variable {α : Type} {app : App} {d : Discipline} {tokens : Ledger → String → String → RelayRight → Prop}
  {m : Permits} {v : View} {P : α → View → Prop} {p : Handler α} {ws : String}

/-- An endpoint may do what the reconciler may. -/
theorem Safe.system (h : Safe (.system app d) v P p) : Safe (.endpoint app d tokens) v P p := by
  refine Sound.weaken h (fun _ _ _ _ => .system) (fun w r call => ?_) rfl
  cases call with
  | ensureNamespace held live => exact .ensureNamespace held live
  | deleteNamespace held deleting empty unenrolled => exact .deleteNamespace held deleting empty unenrolled
  | ensureConnection own live held provisioning => exact .ensureConnection own live held provisioning
  | deleteConnection own held deleting unused => exact .deleteConnection own held deleting unused
  | removeConnection own held deleting confirmed => exact .removeConnection own held deleting confirmed
  | removeWorkspace held deleting confirmed => exact .removeWorkspace held deleting confirmed

theorem Safe.final_audit {actor action target : String} :
    Safe (.endpoint app d tokens) v (fun _ _ => True) (recordAudit ws actor action target) :=
  recordAudit_safe.system.mono fun _ _ _ => trivial

/-- A program that only reads, at the end of a handler. -/
theorem Safe.final (h : Reading p) : Safe m v (fun _ _ => True) p := (Sound.reads h).safe.mono fun _ _ _ => trivial

theorem decodeAll_safe [Record α] {entities : List (Entity Value)} :
    Safe m v (fun (records : List α) v' => v' = v ∧ List.Forall₂ (fun e r => Record.decode e.data = some r) entities records)
      (decodeAll entities) := by
  induction entities with
  | nil => exact Safe.pure ⟨rfl, .nil⟩
  | cons entity rest ih =>
    refine Safe.decode_bind fun r decoded => ih.bind ?_
    rintro records _ ⟨rfl, same⟩
    exact Safe.pure ⟨rfl, .cons decoded same⟩

theorem activeWorkspace_safe :
    Safe m v (fun r v' => v' = v ∧ v.ledger.Valid ∧ r.workspace.id = ws ∧
      (∃ x, v.ledger.Workspace ws r x) ∧ r.workspace.state ≠ .deleting) (activeWorkspace ws) := by
  refine workspaceEntity_safe.bind ?_
  rintro entity _ ⟨rfl, located⟩
  refine Safe.decode_bind fun r decoded => Safe.require_bind fun _ => Safe.require_bind fun live => ?_
  obtain ⟨x, held, -, id⟩ := located.record decoded
  exact Safe.pure ⟨rfl, located.valid, id, ⟨x, held⟩, by simpa using live⟩

end Rules

variable {app : App} {d : Discipline} {tokens : Ledger → String → String → RelayRight → Prop} {v : View}
  {headers : Headers} {ws id name : String}

theorem createWorkspace_safe {request : CreateWorkspaceRequest} (taken : ∀ ws, d.taken ws → v.ledger.Drawn ws) :
    Safe (.endpoint app d tokens) v (fun _ _ => True) (createWorkspace app headers request) := by
  refine Safe.reads_bind Reading.requirePlatformAdmin fun session => Safe.require_bind fun _ => ?_
  refine Safe.reads_bind Reading.checkLocation fun _ => ?_
  refine Safe.newUuid_bind fun u valid fresh => Safe.newUuid_bind fun u' valid' fresh' => ?_
  generalize own : namespaceOf request.name u' = namespaceName
  refine (Sound.insert (by rintro ⟨⟩) fun _ absent => ?_).safe.bind fun _ v₁ created => ?_
  · refine Write.createWorkspace
      ⟨⟨u.hyphenated, request.name, namespaceName, request.location, .pending, none⟩, session.user.id⟩
      rfl ⟨u, by simp, rfl⟩ ?_ (valid.unused fresh) ?_ ⟨u', by simp, _, own.symm⟩
    · intro used
      obtain ⟨u₀, drawn, named⟩ := taken _ used
      exact fresh (Uuid.hyphenated_injective named ▸ drawn)
    intro other r x held same
    obtain ⟨u₀, drawn, stem, named⟩ := valid'.named other r x held
    exact fresh' (Uuid.simple_injective (own.trans (same.symm.trans named)) ▸ drawn)
  obtain ⟨record, held₁, pending, creator⟩ : ∃ record, v₁.ledger.Workspace u.hyphenated record {} ∧
    record.workspace.state = .pending ∧ record.createdBy = session.user.id := ⟨_, created.value, rfl, rfl⟩
  have active₁ : v₁.ledger.Active u.hyphenated := ⟨_, _, held₁, by rw [pending]; rintro ⟨⟩⟩
  have unfinished : v₁.ledger.Unfinished u.hyphenated (toString session.user.id) :=
    ⟨record, {}, held₁, congrArg toString creator, (by rintro ⟨⟩), .inl pending⟩
  refine (Sound.insert (by rintro ⟨⟩) fun _ _ =>
    Write.system (.insertMember ⟨session.user, .admin⟩ active₁ unfinished rfl)).safe.bind fun _ v₂ joined => ?_
  have active₂ := joined.apart.inState (by rintro ⟨⟩) active₁
  refine (ensureIndex_safe active₂ (rows_of_value joined.value)).system.bind fun _ v₃ facts => ?_
  obtain ⟨indexes₃, _⟩ := facts
  refine recordAudit_safe.system.bind fun _ v₄ apart₄ => workspaceEntity_safe.bind ?_
  rintro entity v₄ ⟨rfl, located⟩
  have held₄ : v₄.ledger.Workspace u.hyphenated record {} := by
    rw [Ledger.Workspace, apart₄.value (by rintro ⟨⟩), indexes₃.apart.value (by rintro ⟨⟩), joined.apart.value (by rintro ⟨⟩), held₁]
  have admin : v₄.ledger.HasAdmin u.hyphenated := by
    refine apart₄.hasAdmin (fun _ => by rintro ⟨⟩) (indexes₃.apart.hasAdmin (fun _ => by rintro ⟨⟩) ?_)
    exact ⟨_, _, joined.value, rfl⟩
  have data : entity.data = .workspace record {} := Option.some.inj (located.held.symm.trans held₄)
  dsimp only
  rw [data]
  refine (Safe.replace (by rintro ⟨⟩) ?_).bind fun _ v₅ initialised => ?_
  · rw [held₄]
    exact .system (.initialise (.inl pending) fun _ => admin)
  refine (reconcileWorkspaceLocked_safe fun _ => ?_).system.bind fun _ _ _ => ?_
  · rintro ⟨r, x, held, uninitialised, -⟩
    cases initialised.value.symm.trans held
    exact uninitialised rfl
  · exact Safe.final (Reading.workspaceEntity.bind fun _ => Reading.decode.bind fun _ => Program.uses_pure _)

theorem markDeleting_safe {actor : Nat} {entity : Entity Value} {r : WorkspaceRecord} {x : Extra}
    (held : v.ledger.Workspace ws r x) (empty : ∀ id, v.ledger.rows ⟨.connections, ws, id⟩ = none)
    (strict : d.journal → ¬ v.ledger.Orphaned ws) :
    Safe (.endpoint app d tokens) v (fun _ v' => v'.ledger.Deleting ws) (markDeleting ws actor entity r) := by
  refine Safe.ite (fun deleting => Safe.pure ⟨r, x, held, deleting⟩) fun live => ?_
  refine Safe.list_bind nofun fun members _ listed => Safe.replace_bind nofun ?_ fun e data _ _ => ?_
  · rw [held]
    refine .journal live empty (fun user joined => ?_) strict
    obtain ⟨e, member, row⟩ := listed.complete user joined
    exact List.mem_map.mpr ⟨e, member, row⟩
  · refine recordAudit_safe.system.mono fun _ v' apart => apart.inState nofun ?_
    exact ⟨_, _, set_value_self.trans (congrArg some data), rfl⟩

theorem deleteWorkspace_safe (strict : d.journal → ¬ v.ledger.Orphaned ws) :
    Safe (.endpoint app d tokens) v (fun _ _ => True) (deleteWorkspace app headers ws) := by
  refine Safe.reads_bind Reading.authorize fun session => workspaceEntity_safe.bind ?_
  rintro entity _ ⟨rfl, located⟩
  refine Safe.decode_bind fun r decoded => Safe.list_bind nofun fun connections _ listed =>
    Safe.require_bind fun empty => ?_
  obtain ⟨x, held, -⟩ := located.record decoded
  refine (markDeleting_safe held (fun id => ?_) strict).bind fun _ v' deleting => ?_
  · by_contra present
    obtain ⟨e, member, -⟩ := listed.complete id present
    rw [List.isEmpty_iff.mp empty] at member
    cases member
  · refine (reconcileWorkspaceLocked_safe fun _ => Deleting.not_stranded deleting).system.bind fun _ _ _ => ?_
    exact Safe.final (Reading.get.bind fun _ => Program.uses_pure _)

theorem createMember_safe {request : CreateMemberRequest} (joins : d.joins ws) :
    Safe (.endpoint app d tokens) v (fun _ _ => True) (createMember app headers ws request) := by
  refine Safe.reads_bind Reading.authorize fun session => activeWorkspace_safe.bind ?_
  rintro r v ⟨rfl, valid, -, ⟨x, held⟩, live⟩
  have active : v.ledger.Active ws := ⟨r, x, held, live⟩
  refine Safe.reads_bind Reading.lookupUser fun user => Safe.get_bind nofun fun found facts => ?_
  cases found with
  | some entity =>
    refine Safe.decode_bind fun m _ => Safe.require_bind fun _ => ?_
    exact (ensureIndex_safe active (rows_of_value facts.value)).system.bind fun _ _ _ => Safe.pure trivial
  | none =>
    refine (Sound.insert (by nofun) fun _ _ => Write.insertMember ⟨user, request.role⟩ active joins).safe.bind fun _ v₁ joined => ?_
    refine (ensureIndex_safe (joined.apart.inState nofun active) (rows_of_value joined.value)).system.bind fun _ _ _ => ?_
    exact Safe.final_audit.bind fun _ _ _ => Safe.pure trivial

theorem Listed.otherAdmin {c : Ledger} {entities : List (Entity Value)} {records : List Member} {user : String}
    (listed : Listed c .members ws entities)
    (decoded : List.Forall₂ (fun e m => Record.decode e.data = some m) entities records)
    (several : 1 < records.countP fun m => m.role == .admin) : c.OtherAdmin ws user := by
  by_contra alone
  have own : ∀ e ∈ entities, ∀ m : Member, Record.decode e.data = some m → m.role = .admin → e.rowKey = user := by
    intro e member m same admin
    by_contra different
    refine alone ⟨e.rowKey, m, different, (listed.value member).trans ?_, admin⟩
    generalize e.data = value at same
    cases value <;> cases same
    rfl
  have counted : records.countP (fun m => m.role == .admin) ≤ (entities.map (·.rowKey)).count user := by
    clear several listed alone
    induction decoded with
    | nil => exact Nat.zero_le _
    | @cons e m entities records same _ ih =>
      have rest := ih fun e member => own e (.tail _ member)
      simp only [List.map_cons, List.countP_cons, List.count_cons]
      by_cases admin : m.role = .admin
      · simpa [admin, own e (.head _) m same admin] using rest
      · simp only [beq_iff_eq, admin, if_false]
        exact Nat.le_add_right_of_le rest
  have once := List.nodup_iff_count_le_one.mp listed.nodup user
  omega

theorem protectLastAdmin_safe {m : Permits} {member : Member} {role : Option Role} :
    Safe m v (fun _ v' => v' = v ∧ (member.role = .admin → role ≠ some .admin → ∀ user, v.ledger.OtherAdmin ws user))
      (protectLastAdmin ws member role) := by
  refine Safe.ite (fun _ => ?_) fun settled => Safe.pure ⟨rfl, fun admin other => absurd ⟨admin, other⟩ settled⟩
  refine Safe.list_bind nofun fun entities _ listed => decodeAll_safe.bind ?_
  rintro records _ ⟨rfl, decoded⟩
  exact Safe.require_done fun several => ⟨rfl, fun _ _ _ => listed.otherAdmin decoded (of_decide_eq_true several)⟩

theorem member_of_decode {value : Value} {m : Member} (decoded : Record.decode value = some m) : value = .member m := by
  cases value <;> cases decoded
  rfl

theorem updateMember_safe {role : Role} :
    Safe (.endpoint app d tokens) v (fun _ _ => True) (updateMember app headers ws id role) := by
  refine Safe.reads_bind Reading.authorize fun session => activeWorkspace_safe.bind ?_
  rintro r v ⟨rfl, -, -, ⟨x, held⟩, live⟩
  have active : v.ledger.Active ws := ⟨r, x, held, live⟩
  refine Safe.require_bind fun _ => Safe.get_bind nofun fun found facts => Safe.okOr_bind ?_
  rintro entity rfl
  refine Safe.decode_bind fun member decoded => protectLastAdmin_safe.bind ?_
  rintro _ v ⟨rfl, guarded⟩
  have row : v.ledger.value ⟨.members, ws, id⟩ = some (.member member) :=
    facts.value.trans (congrArg some (member_of_decode decoded))
  refine (Safe.replace (by nofun) ?_).bind fun _ v₁ written => ?_
  · rw [row]
    exact .updateMember active fun admin demoted => guarded admin (by simpa using demoted) _
  have joined : v₁.ledger.Joined ws (toString member.user.id) := by
    obtain ⟨m, same, key⟩ := facts.valid.typed _ _ row
    cases same
    rw [key]
    exact rows_of_value written.value
  refine (ensureIndex_safe (written.apart.inState nofun active) joined).system.bind fun _ _ _ => ?_
  exact Safe.final_audit.bind fun _ _ _ => Safe.pure trivial

theorem removeIndex_safe {user : String} (left : ¬ v.ledger.Joined ws user) :
    Safe (.endpoint app d tokens) v (fun _ v' => v.AgreeApart (·.table = .userWorkspaces) v') (removeIndex ws user) := by
  refine Safe.get_bind nofun fun found facts => ?_
  cases found with
  | none => exact Safe.pure (.refl v)
  | some entity =>
    obtain ⟨partition, row⟩ := facts.keyed entity rfl
    change Safe _ _ _ (delete .userWorkspaces entity.partitionKey entity.rowKey entity.etag)
    rw [partition, row]
    exact Safe.delete nofun (by nofun) (facts.value ▸ .system (.removeIndex fun joined => absurd joined left)) (.set rfl)

theorem deleteMember_safe :
    Safe (.endpoint app d tokens) v (fun _ v' => ¬ v'.ledger.Joined ws id ∧ v'.ledger.Present ws ∧
      v'.ledger.value (workspaceKey ws) = v.ledger.value (workspaceKey ws)) (deleteMember app headers ws id) := by
  refine Safe.reads_bind Reading.authorize fun session => activeWorkspace_safe.bind ?_
  rintro r v ⟨rfl, -, -, ⟨x, held⟩, live⟩
  refine Safe.require_bind fun _ => Safe.get_bind (by rintro ⟨⟩) fun found facts => ?_
  cases found with
  | none =>
    have left : ¬ v.ledger.Joined ws id := not_not_intro facts.rows
    refine (removeIndex_safe left).mono fun _ v' apart => ⟨?_, ?_, apart.value (by rintro ⟨⟩)⟩
    · rw [Ledger.Joined, apart.rows _ (by rintro ⟨⟩), facts.rows]
      exact not_not_intro rfl
    · exact rows_of_value ((apart.value (by rintro ⟨⟩)).trans held)
  | some entity =>
    refine Safe.decode_bind fun member decoded => protectLastAdmin_safe.bind ?_
    rintro _ v ⟨rfl, guarded⟩
    obtain ⟨partition, row⟩ := facts.keyed entity rfl
    rw [deleteEntity, partition, row]
    refine (Safe.delete (Q := fun _ v₁ => v₁ = v.with (v.ledger.set ⟨.members, ws, id⟩ none)) (by rintro ⟨⟩) (by rintro (⟨⟨⟩⟩ | ⟨⟨⟩⟩)) ?_ rfl).bind ?_
    · rw [facts.value, member_of_decode decoded]
      exact .deleteMember ⟨r, x, held, live⟩ fun admin => guarded admin (by rintro ⟨⟩) _
    · rintro _ _ rfl
      refine recordAudit_safe.system.bind fun _ v₂ apart₂ => ?_
      have left : ¬ v₂.ledger.Joined ws id := by
        rw [Ledger.Joined, apart₂.rows _ (by rintro ⟨⟩), View.with_ledger, set_rows_self]
        exact not_not_intro rfl
      refine (removeIndex_safe left).mono fun _ v₃ apart₃ => ?_
      have same : v₃.ledger.value (workspaceKey ws) = v.ledger.value (workspaceKey ws) := by
        rw [apart₃.value (by rintro ⟨⟩), apart₂.value (by rintro ⟨⟩), View.with_ledger, set_value_other (by rintro ⟨⟩)]
      refine ⟨?_, rows_of_value (same.trans held), same⟩
      rwa [Ledger.Joined, apart₃.rows _ (by rintro ⟨⟩)]

theorem connection_of_decode {value : Value} {conn : Connection} (decoded : Record.decode value = some conn) :
    ∃ x, value = .connection conn x := by
  cases value <;> cases decoded
  exact ⟨_, rfl⟩

theorem connectionNameIsFree_safe {m : Permits} {entities : List (Entity Value)} :
    Safe m v (fun _ v' => v' = v ∧ ∀ e ∈ entities, ∀ conn x, e.data = .connection conn x →
      Text.eqIgnoreAsciiCase conn.name name = false) (connectionNameIsFree name entities) := by
  induction entities with
  | nil => exact Safe.pure ⟨rfl, fun e member => nomatch member⟩
  | cons entity rest ih =>
    refine Safe.decode_bind fun conn decoded => Safe.require_bind fun other => ih.mono ?_
    rintro _ _ ⟨rfl, others⟩
    refine ⟨rfl, fun e member conn' x data => ?_⟩
    rcases List.mem_cons.mp member with rfl | member
    · rw [data] at decoded
      cases decoded
      simpa using other
    · exact others e member conn' x data

theorem createConnection_safe :
    Safe (.endpoint app d tokens) v (fun _ _ => True) (createConnection app headers ws name) := by
  refine Safe.reads_bind Reading.authorize fun session => activeWorkspace_safe.bind ?_
  rintro r v ⟨rfl, -, same, ⟨x, held⟩, live⟩
  refine Safe.require_bind fun ready => Safe.require_bind fun valid => ?_
  refine Safe.list_bind (by rintro ⟨⟩) fun entities _ listed => connectionNameIsFree_safe.bind ?_
  rintro _ v ⟨rfl, others⟩
  have free : v.ledger.Free ws .connections name := by
    intro id other named
    cases named with
    | @connection _ conn x row =>
      obtain ⟨e, member, -, data⟩ := listed.find row
      exact others e member conn x data
  refine Safe.newUuid_bind fun u _ _ => ?_
  refine (Sound.insert (by rintro ⟨⟩) fun _ _ => ?_).safe.bind fun _ v₁ written => ?_
  · exact .insertConnection ⟨u.hyphenated, name, .pending, none⟩ ⟨r, x, held, by simpa using ready⟩ rfl valid free.draw
  refine recordAudit_safe.system.bind fun _ v₂ apart => ?_
  have own : v₂.ledger.Workspace ws r x := by
    rw [Ledger.Workspace, apart.value (by rintro ⟨⟩), written.apart.value (by rintro ⟨⟩)]
    exact held
  refine (reconcileConnectionsLocked_safe own same live).system.bind fun _ _ _ => ?_
  exact Safe.final (Reading.get.bind fun _ => Reading.okOr.bind fun _ => Reading.decode)

theorem deleteConnection_safe :
    Safe (.endpoint app d tokens) v (fun _ _ => True) (deleteConnection app headers ws id) := by
  refine Safe.reads_bind Reading.authorize fun session => activeWorkspace_safe.bind ?_
  rintro r v ⟨rfl, -, same, ⟨x, held⟩, live⟩
  refine Safe.require_bind fun _ => Safe.get_bind (by rintro ⟨⟩) fun found facts => Safe.okOr_bind ?_
  rintro entity rfl
  refine Safe.decode_bind fun connection decoded => connectionInUse_safe.bind ?_
  rintro used v ⟨rfl, unused⟩
  refine Safe.require_bind fun free => Safe.bind (P := fun _ v' => v'.ledger.Workspace ws r x) ?_ fun _ v' own => ?_
  · refine Safe.ite (fun _ => Safe.pure held) fun _ => ?_
    obtain ⟨x', data⟩ := connection_of_decode decoded
    refine (Safe.replace (by rintro ⟨⟩) ?_).bind fun _ v₁ written => recordAudit_safe.system.mono fun _ v₂ apart => ?_
    · rw [facts.value, data]
      exact .retireConnection ⟨r, x, held, live⟩ (unused (by simpa using free))
    · rw [Ledger.Workspace, apart.value (by rintro ⟨⟩), written.apart.value (by rintro ⟨⟩)]
      exact held
  · refine (reconcileConnectionsLocked_safe own same live).system.bind fun _ _ _ => ?_
    exact Safe.final (Reading.get.bind fun _ => Program.uses_pure _)

theorem rotateConnection_safe :
    Safe (.endpoint app d tokens) v (fun _ _ => True) (rotateConnection app headers ws id) := by
  refine Safe.reads_bind Reading.authorize fun session => Safe.reads_bind Reading.activeWorkspace fun r => ?_
  refine Safe.require_bind fun _ => Safe.reads_bind Reading.get fun found => Safe.okOr_bind fun entity _ => ?_
  refine Safe.decode_bind fun connection _ => Safe.require_bind fun _ => Safe.final_audit.bind fun _ _ _ => ?_
  refine Safe.reads_attempt_bind (Program.uses_request ⟨rfl, nofun, nofun⟩) fun result => ?_
  rcases result with e | _
  · exact Safe.throw
  · exact Safe.pure trivial

end Azbridge.Broker
