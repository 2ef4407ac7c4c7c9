import Azbridge.Broker.Safety.Administration

/-!
# The profile endpoints keep to their writes

What loading a published profile establishes, and which rows the profile handlers write.
-/

namespace Azbridge.Broker
open Ledger Auth Profiles

variable {app : App} {d : Discipline} {tokens : Ledger → String → String → RelayRight → Prop} {m : Permits} {v : View}
  {headers : Headers} {ws id name yaml : String}

theorem workspace_safe {ready : Bool} :
    Safe m v (fun _ v' => v' = v ∧ (ready = true → v.ledger.Ready ws)) (Profiles.workspace ws ready) := by
  refine Safe.require_bind fun _ => Safe.get_bind nofun fun found facts => Safe.okOr_bind ?_
  rintro entity rfl
  refine Safe.decode_bind fun r decoded => Safe.require_bind fun _ => Safe.require_done fun state => ⟨rfl, ?_⟩
  rintro rfl
  obtain ⟨-, r', x, data, -⟩ := facts.valid.typed _ _ facts.value
  rw [data] at decoded
  cases decoded
  exact ⟨r, x, facts.value.trans (congrArg some data), by simpa using state⟩

/-- A profile row that was read. -/
structure Loaded (c : Ledger) (ws id : String) (entity : Entity Value) (r : ProfileRecord) : Prop where
  held : c.Profile ws id r
  same : r.profile.id = id
  canonical : Uuid.isText id = true
  partition : entity.partitionKey = ws
  row : entity.rowKey = id

theorem profile_safe :
    Safe m v (fun loaded v' => v' = v ∧ Loaded v.ledger ws id loaded.1 loaded.2) (Profiles.profile ws id) := by
  refine Safe.require_bind fun canonical => Safe.get_bind nofun fun found facts => Safe.okOr_bind ?_
  rintro entity rfl
  refine Safe.decode_bind fun r decoded => Safe.require_bind fun same => ?_
  obtain ⟨r', data, -⟩ := facts.valid.typed _ _ facts.value
  rw [data] at decoded
  cases decoded
  obtain ⟨partition, row⟩ := facts.keyed entity rfl
  exact Safe.pure ⟨rfl, facts.value.trans (congrArg some data), by simpa using same, canonical, partition, row⟩

theorem readyName_of_mem {entities : List (Entity Value)} {connections : List Connection}
    (listed : Listed v.ledger .connections ws entities)
    (decoded : List.Forall₂ (fun e c => Record.decode e.data = some c) entities connections)
    (member : name ∈ readyNames connections) : v.ledger.ReadyName ws name := by
  obtain ⟨conn, filtered, rfl⟩ := List.mem_map.mp member
  obtain ⟨listed', ready⟩ := List.mem_filter.mp filtered
  obtain ⟨e, member, same⟩ : ∃ e ∈ entities, Record.decode e.data = some conn := by
    clear listed member filtered
    induction decoded with
    | nil => cases listed'
    | cons same _ ih =>
      rcases List.mem_cons.mp listed' with rfl | later
      · exact ⟨_, .head _, same⟩
      · obtain ⟨e, listed, same⟩ := ih later
        exact ⟨e, .tail _ listed, same⟩
  obtain ⟨x, data⟩ := connection_of_decode same
  exact ⟨e.rowKey, conn, x, (listed.value member).trans (congrArg some data), by simpa using ready, rfl⟩

theorem checkConfig_safe :
    Safe m v (fun result v' => v' = v ∧ ∀ config, result = .ok config → v.ledger.Ready ws ∧
      parseManagedConfig app yaml = .ok config ∧ ∀ name ∈ config.relayNames, v.ledger.ReadyName ws name)
      (checkConfig app ws yaml) := by
  refine workspace_safe.bind ?_
  rintro _ v ⟨rfl, ready⟩
  generalize parseManagedConfig app yaml = result
  cases result with
  | error errors => exact Safe.pure ⟨rfl, fun _ impossible => by cases impossible⟩
  | ok config =>
    refine Safe.list_bind nofun fun entities _ listed => decodeAll_safe.bind ?_
    rintro connections v ⟨rfl, decoded⟩
    refine Safe.pure ⟨rfl, fun config' same => ?_⟩
    split at same
    · next complete =>
      cases same
      refine ⟨ready rfl, rfl, fun name named => readyName_of_mem listed decoded ?_⟩
      rw [List.isEmpty_iff, List.filter_eq_nil_iff] at complete
      simpa using complete name named
    · cases same

theorem validateConfig_safe :
    Safe m v (fun config v' => v' = v ∧ v.ledger.Ready ws ∧ parseManagedConfig app yaml = .ok config ∧
      ∀ name ∈ config.relayNames, v.ledger.ReadyName ws name) (validateConfig app ws yaml) := by
  refine checkConfig_safe.bind ?_
  rintro result v ⟨rfl, facts⟩
  cases result with
  | ok config => exact Safe.pure ⟨rfl, facts config rfl⟩
  | error errors => exact Safe.throw

theorem revision_safe {n : Nat} :
    Safe m v (fun snapshot v' => v' = v ∧ snapshot.revision = n ∧ n ≠ 0 ∧
      (∃ createdAt, v.ledger.value ⟨.revisionMetadata, ws, revisionKey id n⟩ = some (.revision ⟨n, createdAt⟩)) ∧
      v.ledger.Blob ws id n snapshot.yaml) (Profiles.revision ws id n) := by
  refine Safe.require_bind fun positive => Safe.get_bind nofun fun found facts => Safe.okOr_bind ?_
  rintro entity rfl
  refine Safe.decode_bind fun r decoded => Safe.require_bind fun same => ?_
  refine Safe.getRevision_bind fun found' blob => Safe.okOr_bind fun yaml stored => ?_
  obtain ⟨r', data⟩ := facts.valid.typed _ _ facts.value
  rw [data] at decoded
  cases decoded
  refine Safe.pure ⟨rfl, rfl, by simpa using positive, ⟨r.createdAt, facts.value.trans ?_⟩, (blob yaml).mp stored⟩
  rw [data, ← eq_of_beq same]

/-- A profile that can be served: published, loadable and naming Ready connections only. -/
structure Served (app : App) (c : Ledger) (ws id : String) (n : Nat) (config : Config) : Prop where
  ready : c.Ready ws
  published : ∃ r, c.Profile ws id r ∧ r.profile.currentRevision = some n
  loadable : c.Loadable ws app id n config
  names : ∀ name ∈ config.relayNames, c.ReadyName ws name

theorem publishedConfig_safe :
    Safe m v (fun loaded v' => v' = v ∧ Served app v.ledger ws id loaded.1 loaded.2) (publishedConfig app ws id) := by
  refine workspace_safe.bind ?_
  rintro _ v ⟨rfl, -⟩
  refine profile_safe.bind ?_
  rintro ⟨entity, r⟩ v ⟨rfl, loaded⟩
  refine Safe.okOr_bind fun n current => revision_safe.bind ?_
  rintro snapshot v ⟨rfl, same, positive, row, blob⟩
  refine validateConfig_safe.bind ?_
  rintro config v ⟨rfl, ready, parsed, names⟩
  exact Safe.pure ⟨rfl, ready, ⟨r, loaded.held, same ▸ current⟩, same ▸ ⟨positive, row, _, blob, parsed⟩, names⟩

theorem nameIsFree_safe {entities : List (Entity Value)} :
    Safe m v (fun _ v' => v' = v ∧ ∀ e ∈ entities, ∀ r, e.data = .profile r →
      Text.eqIgnoreAsciiCase r.profile.name name = false) (nameIsFree name entities) := by
  induction entities with
  | nil => exact Safe.pure ⟨rfl, fun e member => nomatch member⟩
  | cons entity rest ih =>
    refine Safe.decode_bind fun r decoded => Safe.require_bind fun other => ih.mono ?_
    rintro _ _ ⟨rfl, others⟩
    refine ⟨rfl, fun e member r' data => ?_⟩
    rcases List.mem_cons.mp member with rfl | member
    · rw [data] at decoded
      cases decoded
      simpa using other
    · exact others e member r' data

theorem createProfile_safe :
    Safe (.endpoint app d tokens) v (fun _ _ => True) (createProfile app ws headers name) := by
  refine Safe.reads_bind Reading.authorize fun actor => workspace_safe.bind ?_
  rintro _ v ⟨rfl, ready⟩
  refine Safe.require_bind fun _ => Safe.list_bind nofun fun entities _ listed => nameIsFree_safe.bind ?_
  rintro _ v ⟨rfl, others⟩
  have free : v.ledger.Free ws .profiles (Text.trim name) := by
    intro id other named
    cases named with
    | @profile _ r row =>
      obtain ⟨e, member, -, data⟩ := listed.find row
      exact others e member r data
  refine Safe.newUuid_bind fun u _ _ => ?_
  refine (Sound.insert (by nofun) fun _ _ => ?_).safe.bind fun _ v₁ _ => ?_
  · exact .insertProfile ⟨⟨u.hyphenated, _, none⟩, 1⟩ (ready rfl) rfl u.isText_hyphenated free.draw
  · exact Safe.final_audit.bind fun _ _ _ => Safe.pure trivial

theorem profileIsUnused_safe {entities : List (Entity Value)} :
    Safe m v (fun _ v' => v' = v ∧ ∀ e ∈ entities, ∀ g, e.data = .gateway g → g.gateway.profileId = id →
      g.gateway.revoked = true) (profileIsUnused id entities) := by
  induction entities with
  | nil => exact Safe.pure ⟨rfl, fun e member => nomatch member⟩
  | cons entity rest ih =>
    refine Safe.decode_bind fun record decoded => Safe.require_bind fun idle => ih.mono ?_
    rintro _ v ⟨rfl, unused⟩
    refine ⟨rfl, fun e member g data assigned => ?_⟩
    rcases List.mem_cons.mp member with rfl | member
    · rw [data] at decoded
      cases decoded
      simpa [assigned] using idle
    · exact unused e member g data assigned

theorem deleteProfile_safe :
    Safe (.endpoint app d tokens) v (fun _ _ => True) (deleteProfile app ws id headers) := by
  refine Safe.reads_bind Reading.authorize fun actor => workspace_safe.bind ?_
  rintro _ v ⟨rfl, ready⟩
  refine profile_safe.bind ?_
  rintro ⟨entity, r⟩ v ⟨rfl, loaded⟩
  refine Safe.list_bind nofun fun gateways _ listed => profileIsUnused_safe.bind ?_
  rintro _ v ⟨rfl, unused⟩
  rw [loaded.partition, loaded.row]
  refine (Safe.delete (Q := fun _ _ => True) (by nofun) (by nofun) ?_ trivial).bind fun _ _ _ => Safe.final_audit
  rw [loaded.held]
  refine .deleteProfile (ready rfl) fun gateway g held assigned => ?_
  obtain ⟨e, member, -, data⟩ := listed.find held
  exact unused e member g data assigned

theorem validate_safe : Safe (.endpoint app d tokens) v (fun _ _ => True) (validate app ws id headers yaml) := by
  refine Safe.reads_bind Reading.authorize fun _ => Safe.reads_bind Reading.workspace fun _ => ?_
  refine Safe.reads_bind Reading.profile fun _ => Safe.reads_bind Reading.checkConfig fun result => ?_
  cases result <;> exact Safe.pure trivial

theorem createRevision_safe :
    Safe (.endpoint app d tokens) v (fun _ _ => True) (createRevision app ws id headers yaml) := by
  refine Safe.reads_bind Reading.authorize fun actor => workspace_safe.bind ?_
  rintro _ v ⟨rfl, ready⟩
  refine profile_safe.bind ?_
  rintro ⟨entity, r⟩ v ⟨rfl, loaded⟩
  refine Safe.reads_bind Reading.validateConfig fun _ => Safe.require_bind fun _ => Safe.require_bind fun _ => ?_
  refine (Safe.replace (by nofun) ?_).bind fun _ v₁ written => ?_
  · rw [loaded.held]
    exact .reserve
  have ready₁ : v₁.ledger.Ready ws := written.apart.inState nofun (ready rfl)
  refine Safe.putRevision_bind fun path _ _ => Safe.reads_bind Reading.now fun t => ?_
  refine Safe.insert_bind nofun (fun _ _ => .insertRevision ready₁) fun e _ _ _ => ?_
  exact Safe.final_audit.bind fun _ _ _ => Safe.pure trivial

theorem publish_safe {request : PublishRevisionRequest} :
    Safe (.endpoint app d tokens) v (fun _ _ => True) (publish app ws id headers request) := by
  refine Safe.reads_bind Reading.authorize fun actor => Safe.reads_bind Reading.workspace fun _ => ?_
  refine profile_safe.bind ?_
  rintro ⟨entity, r⟩ v ⟨rfl, loaded⟩
  refine Safe.require_bind fun _ => revision_safe.bind ?_
  rintro snapshot v ⟨rfl, same, positive, row, blob⟩
  refine validateConfig_safe.bind ?_
  rintro config v ⟨rfl, ready, parsed, names⟩
  refine (Safe.replace (by nofun) ?_).bind fun _ _ _ => Safe.final_audit.bind fun _ _ _ => Safe.pure trivial
  rw [loaded.held]
  exact .publish ready ⟨positive, row, _, blob, parsed⟩ names

end Azbridge.Broker
