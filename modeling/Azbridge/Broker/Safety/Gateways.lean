import Azbridge.Broker.Safety.Profiles

/-!
# The gateway endpoints keep to their writes

What a bearer credential proves, what a relay token may be issued for, and which rows the gateway
and enrollment handlers write.
-/

namespace Azbridge.Broker
open Ledger Auth Workspaces Profiles Gateways

variable {app : App} {d : Discipline} {tokens : Ledger → String → String → RelayRight → Prop} {m : Permits} {v : View}
  {headers : Headers} {ws id : String}

theorem readyWorkspace_safe :
    Safe m v (fun r v' => v' = v ∧ (∃ x, v.ledger.Workspace ws r x) ∧ r.workspace.state = .ready)
      (readyWorkspace ws) := by
  refine activeWorkspace_safe.bind ?_
  rintro r v ⟨rfl, -, -, held, -⟩
  exact Safe.require_bind fun ready => Safe.pure ⟨rfl, held, by simpa using ready⟩

/-- The request carries the credential of this gateway, which is not revoked, of a Ready workspace. -/
structure Bearer (app : App) (headers : Headers) (c : Ledger) (credential : Credential) (g : GatewayRecord) : Prop where
  parsed : parseCredential headers = some credential
  held : c.Gateway credential.workspace credential.gateway g
  live : g.gateway.revoked = false
  hash : app.digest credential.text = g.credentialHash
  ready : c.Ready credential.workspace

theorem bearer_safe :
    Safe m v (fun found v' => v' = v ∧ ∃ credential, Bearer app headers v.ledger credential found.2 ∧
      found.1.partitionKey = credential.workspace ∧ found.1.rowKey = credential.gateway) (bearer app headers) := by
  refine Safe.okOr_bind fun credential parsed => Safe.get_bind nofun fun found facts => Safe.okOr_bind ?_
  rintro entity rfl
  refine Safe.decode_bind fun g decoded => Safe.require_bind fun checked => readyWorkspace_safe.bind ?_
  rintro r v ⟨rfl, ⟨x, held⟩, ready⟩
  obtain ⟨g', data, -⟩ := facts.valid.typed _ _ facts.value
  rw [data] at decoded
  cases decoded
  simp only [constantTimeEqual, Bool.and_eq_true, beq_iff_eq, Bool.not_eq_true'] at checked
  obtain ⟨partition, row⟩ := facts.keyed entity rfl
  exact Safe.pure ⟨rfl, credential, ⟨parsed, facts.value.trans (congrArg some data), checked.1.2, checked.2,
    ⟨r, x, held, ready⟩⟩, partition, row⟩

def Forwards (config : Config) (relay : String) : RelayRight → Prop
  | .send => ∃ f ∈ config.localForward, f.relayName = relay
  | .listen => ∃ f ∈ config.remoteForward, f.relayName = relay

/-- The request may have a token issued for this relay and right: its workspace, Ready, has this
namespace, and the configuration published for its gateway forwards this relay, a Ready connection. -/
def Entitled (app : App) (headers : Headers) (c : Ledger) (ns relay : String) (right : RelayRight) : Prop :=
  ∃ credential g, Bearer app headers c credential g ∧
    (∃ r x, c.Workspace credential.workspace r x ∧ r.workspace.state = .ready ∧ r.workspace.namespaceName = ns) ∧
    (∃ p n config, c.Profile credential.workspace g.gateway.profileId p ∧ p.profile.currentRevision = some n ∧
      c.Loadable credential.workspace app g.gateway.profileId n config ∧ Forwards config relay right) ∧
    c.ReadyName credential.workspace relay

theorem forwards_of_permitted {config : Config} {request : RelayTokenRequest} (h : permitted config request = true) :
    Forwards config request.relayName request.right := by
  unfold permitted at h
  generalize request.right = right at h
  cases right <;> simpa [Forwards] using h

theorem Forwards.named {config : Config} {relay : String} {right : RelayRight} (h : Forwards config relay right) :
    relay ∈ config.relayNames := by
  cases right with
  | send =>
    obtain ⟨f, member, same⟩ := h
    exact List.mem_append_left _ (List.mem_map.mpr ⟨f, member, same⟩)
  | listen =>
    obtain ⟨f, member, same⟩ := h
    exact List.mem_append_right _ (List.mem_map.mpr ⟨f, member, same⟩)

theorem saveGateway_safe {entity : Entity Value} {g g' : GatewayRecord}
    (held : v.ledger.Gateway entity.partitionKey entity.rowKey g) (sameId : g'.gateway.id = g.gateway.id)
    (sameProfile : g'.gateway.profileId = g.gateway.profileId) (sameHash : g'.credentialHash = g.credentialHash)
    (final : g.gateway.revoked = true → g'.gateway.revoked = true) :
    Safe (.endpoint app d tokens) v (fun _ _ => True) (saveGateway entity g') := by
  refine (Safe.replace (by nofun) ?_).bind fun _ _ _ => Safe.pure trivial
  rw [held]
  exact .updateGateway sameId sameProfile sameHash final

theorem randomSecret_bind {β : Type} {P : β → View → Prop} {f : String → Handler β}
    (rest : ∀ secret, base64UrlSize secret = some 32 → Safe m v P (f secret)) : Safe m v P (randomSecret >>= f) := by
  refine (Sound.read (r := .random 32) (R := fun secret => base64UrlSize secret = some 32) ⟨rfl, nofun, nofun⟩ ?_).safe.bind ?_
  · intro w secret w' within sane answered
    obtain ⟨s, fresh, size, same, -⟩ := responds_random answered
    exact Except.ok.inj same ▸ size
  · rintro secret _ ⟨rfl, size⟩
    exact rest secret size

/-- An audit entry takes back no identifier. -/
theorem recordAudit_drawn {actor action target : String} :
    Safe (.endpoint app d tokens) v (fun _ v' => (∀ id, v.ledger.Drawn id → v'.ledger.Drawn id) ∧
      v.AgreeApart (·.table = .audit) v') (recordAudit ws actor action target) := by
  refine Sound.safe (recordAudit_safe.system.reached (R := fun c c' => ∀ id, c.Drawn id → c'.Drawn id) ?_ ?_ ?_)
  · exact fun _ _ drawn => drawn
  · exact fun _ _ _ first second id drawn => second id (first id drawn)
  · exact fun _ _ step _ drawn => drawn.step step

/-- The credential that is returned is that of the row. -/
theorem mint_safe {request : CreateGatewayRequest} {actor : Nat} (mints : d.mints)
    (taken : ∀ id, d.taken id → v.ledger.Drawn id) :
    Safe (.endpoint app d tokens) v (fun response v' => Issued app v'.ledger
      ⟨response.credential, response.workspaceId, response.gateway.id⟩) (mint app ws request actor) := by
  refine Safe.require_bind fun _ => readyWorkspace_safe.bind ?_
  rintro _ v ⟨rfl, ⟨x, held⟩, -⟩
  refine publishedConfig_safe.bind ?_
  rintro ⟨n, config⟩ v ⟨rfl, served⟩
  refine Safe.newUuid_bind fun u valid fresh => randomSecret_bind fun secret size => ?_
  have untaken : ¬ d.taken u.hyphenated := by
    intro used
    obtain ⟨u', drawn, same⟩ := taken _ used
    exact fresh (Uuid.hyphenated_injective same ▸ drawn)
  refine (Sound.insert (by rintro ⟨⟩) fun _ _ => ?_).safe.bind fun _ v₁ written => ?_
  · obtain ⟨r, held, current⟩ := served.published
    exact Write.insertGateway ⟨_, _, actor⟩ served.ready ⟨r, n, held, current⟩ mints untaken ⟨secret, size, rfl⟩
  · refine recordAudit_drawn.bind fun _ v₂ facts => ?_
    obtain ⟨drawn, apart⟩ := facts
    refine Safe.pure ?_
    have known : v₁.ledger.Drawn ws := by
      rw [written.after]
      obtain ⟨u', member, same⟩ := valid.drawn (workspaceKey ws) ws rfl (rows_of_value held)
      exact ⟨u', List.mem_cons_of_mem _ member, same⟩
    have own : v₁.ledger.Drawn u.hyphenated := by
      rw [written.after]
      exact ⟨u, List.mem_cons_self, rfl⟩
    refine ⟨⟨secret, size, rfl⟩, drawn _ known, drawn _ own, fun g row => ?_⟩
    rw [Ledger.Gateway, apart.value (by rintro ⟨⟩)] at row
    cases row.symm.trans written.value
    rfl

theorem createGateway_safe {payload : Option CreateGatewayRequest} (mints : d.mints)
    (taken : ∀ id, d.taken id → v.ledger.Drawn id) :
    Safe (.endpoint app d tokens) v (fun response v' => Issued app v'.ledger
      ⟨response.credential, response.workspaceId, response.gateway.id⟩) (createGateway app ws headers payload) :=
  Safe.reads_bind Reading.authorize fun _ => Safe.okOr_bind fun _ _ => mint_safe mints taken

theorem revokeGateway_safe :
    Safe (.endpoint app d tokens) v (fun _ _ => True) (revokeGateway app ws id headers) := by
  refine Safe.reads_bind Reading.authorize fun session => Safe.reads_bind Reading.activeWorkspace fun _ => ?_
  refine Safe.require_bind fun _ => Safe.get_bind nofun fun found facts => Safe.okOr_bind ?_
  rintro entity rfl
  refine Safe.decode_bind fun g decoded => ?_
  obtain ⟨g', data, -⟩ := facts.valid.typed _ _ facts.value
  rw [data] at decoded
  cases decoded
  obtain ⟨partition, row⟩ := facts.keyed entity rfl
  have held : v.ledger.Gateway entity.partitionKey entity.rowKey g := by
    rw [partition, row]
    exact facts.value.trans (congrArg some data)
  exact (saveGateway_safe held (by rfl) (by rfl) (by rfl) (by exact fun _ => rfl)).bind fun _ _ _ => Safe.final_audit

theorem Bearer.row {c : Ledger} {credential : Credential} {g : GatewayRecord} {entity : Entity Value}
    (h : Bearer app headers c credential g) (partition : entity.partitionKey = credential.workspace)
    (row : entity.rowKey = credential.gateway) : c.Gateway entity.partitionKey entity.rowKey g := by
  rw [partition, row]
  exact h.held

/-- Only stored revisions are served. -/
theorem gatewayConfig_safe :
    Safe (.endpoint app d tokens) v (fun response _ => response.revision ≠ 0) (gatewayConfig app headers) := by
  refine bearer_safe.bind ?_
  rintro ⟨entity, g⟩ v ⟨rfl, credential, bearer, partition, row⟩
  refine publishedConfig_safe.bind ?_
  rintro ⟨n, config⟩ v ⟨rfl, served⟩
  have positive : n ≠ 0 := served.loadable.1
  refine Safe.reads_bind Reading.readyWorkspace fun r => Safe.reads_bind Reading.now fun t => ?_
  refine (saveGateway_safe (bearer.row partition row) ?_ ?_ ?_ ?_).bind fun _ _ _ => Safe.pure positive
  · rfl
  · rfl
  · rfl
  · exact fun h => h

theorem relayToken_safe {payload : Option RelayTokenRequest} :
    Safe (.endpoint app d (Entitled app headers)) v (fun _ _ => True) (relayToken app headers payload) := by
  refine bearer_safe.bind ?_
  rintro ⟨entity, g⟩ v ⟨rfl, credential, bearer, partition, row⟩
  refine Safe.okOr_bind fun request _ => publishedConfig_safe.bind ?_
  rintro ⟨n, config⟩ v ⟨rfl, served⟩
  refine Safe.require_bind fun permitted => readyWorkspace_safe.bind ?_
  rintro r v ⟨rfl, ⟨x, held⟩, ready⟩
  rw [partition] at served held
  obtain ⟨p, profile, current⟩ := served.published
  have entitled : Entitled app headers v.ledger r.workspace.namespaceName request.relayName request.right :=
    ⟨credential, g, bearer, ⟨r, x, held, ready, rfl⟩,
      ⟨p, n, config, profile, current, served.loadable, forwards_of_permitted permitted⟩,
      served.names _ (forwards_of_permitted permitted).named⟩
  refine Safe.issueToken_bind (fun w within _ => ?_) fun token => Safe.reads_bind Reading.now fun t => ?_
  · show Entitled app headers w.ledger r.workspace.namespaceName request.relayName request.right
    rwa [within.ledger]
  · refine (saveGateway_safe (bearer.row partition row) ?_ ?_ ?_ ?_).bind fun _ _ _ => Safe.pure trivial
    · rfl
    · rfl
    · rfl
    · exact fun h => h

theorem status_safe {payload : Option GatewayStatusRequest} :
    Safe (.endpoint app d tokens) v (fun _ _ => True) (status app headers payload) := by
  refine bearer_safe.bind ?_
  rintro ⟨entity, g⟩ v ⟨rfl, credential, bearer, partition, row⟩
  refine Safe.okOr_bind fun request _ => Safe.require_bind fun _ => Safe.require_bind fun _ => ?_
  refine Safe.reads_bind Reading.publishedConfig fun _ => Safe.require_bind fun _ => ?_
  exact Safe.reads_bind Reading.now fun t => saveGateway_safe (bearer.row partition row) rfl rfl rfl fun h => h

theorem gatewayLogout_safe : Safe (.endpoint app d tokens) v (fun _ _ => True) (Gateways.logout app headers) := by
  refine bearer_safe.bind ?_
  rintro ⟨entity, g⟩ v ⟨rfl, credential, bearer, partition, row⟩
  refine Safe.reads_bind Reading.now fun t => ?_
  exact (saveGateway_safe (bearer.row partition row) (by rfl) (by rfl) (by rfl) (by exact fun _ => rfl)).bind fun _ _ _ => Safe.final_audit

theorem startEnrollment_safe {payload : Option EnrollmentStartRequest} :
    Safe (.endpoint app d tokens) v (fun _ _ => True) (startEnrollment app payload) := by
  refine Safe.reads_bind (Program.uses_request ⟨rfl, nofun, nofun⟩) fun _ => Safe.okOr_bind fun request _ => ?_
  refine Safe.require_bind fun _ => Safe.reads_bind Reading.list fun entities => ?_
  refine Safe.reads_bind (Reading.workspacesNamed _) fun named => Safe.reads_bind Reading.single fun workspace => ?_
  refine Safe.reads_bind Reading.list fun entities => Safe.reads_bind (Reading.profilesNamed _) fun named => ?_
  refine Safe.reads_bind Reading.single fun profile => publishedConfig_safe.bind ?_
  rintro ⟨n, config⟩ v ⟨rfl, served⟩
  refine Safe.reads_bind Reading.beginDevice fun device => Safe.reads_bind Reading.now fun t => ?_
  refine Safe.reads_bind (Program.uses_request ⟨rfl, nofun, nofun⟩) fun id => ?_
  refine Safe.reads_bind Reading.sealText fun encrypted => Safe.insertEnrollment_bind ?_ fun _ _ _ => Safe.pure trivial
  rintro ws ⟨⟩
  exact InState.present served.ready

def Gateways.EnrollmentPoll.credential : EnrollmentPoll → Option Credential
  | .authorized credential ws gateway _ => some ⟨credential, ws, gateway⟩
  | _ => none

/-- What a poll hands out is the credential of a row. -/
def Granted (app : App) (poll : EnrollmentPoll) (v : View) : Prop :=
  ∀ credential, poll.credential = some credential → Issued app v.ledger credential

section Polls
variable {record : EnrollmentRecord} (mints : d.mints) (taken : ∀ id, d.taken id → v.ledger.Drawn id)
include mints taken

theorem enroll_safe {user : GitHubUser} : Safe (.endpoint app d tokens) v (Granted app) (enroll app record user) := by
  refine Safe.reads_attempt_bind Reading.workspaceRole fun result => ?_
  cases result with
  | ok role =>
    refine (mint_safe mints taken).bind fun response v' issued => Safe.pure ?_
    rintro credential ⟨⟩
    exact issued
  | error e =>
    cases e with
    | forbidden => exact Safe.pure nofun
    | _ => exact Safe.throw

theorem enrollmentAnswer_safe {t : Nat} {reserved : Entity Value} {poll : DevicePoll}
    (known : v.ledger.Present record.workspaceId) :
    Safe (.endpoint app d tokens) v (Granted app) (enrollmentAnswer app id record t reserved poll) := by
  cases poll with
  | pending => exact Safe.pure nofun
  | slowDown =>
    refine Safe.replaceEnrollment_bind ?_ fun _ _ _ => Safe.pure nofun
    rintro ws ⟨⟩
    exact known
  | expired => exact Safe.deleteEnrollment.bind fun _ _ _ => Safe.pure nofun
  | denied => exact Safe.deleteEnrollment.bind fun _ _ _ => Safe.pure nofun
  | authorized token =>
    refine Safe.reads_bind Reading.enrollmentUser fun user => Safe.deleteEnrollment.bind ?_
    rintro _ v rfl
    exact Safe.reads_bind Reading.now fun t => Safe.ite (fun _ => Safe.pure nofun) fun _ => enroll_safe mints taken

theorem enrollmentRecord_safe {entity : Entity Value}
    (known : ∀ ws, entity.data.workspaceId = some ws → v.ledger.Present ws) :
    Safe (.endpoint app d tokens) v (Granted app) (enrollmentRecord app id entity) := by
  refine Safe.decode_bind fun record decoded => Safe.reads_bind Reading.now fun t => ?_
  have present : v.ledger.Present record.workspaceId := by
    refine known _ ?_
    generalize entity.data = value at decoded
    cases value <;> cases decoded
    rfl
  refine Safe.ite (fun _ => Safe.deleteEnrollment.bind fun _ _ _ => Safe.pure nofun) fun _ => ?_
  refine Safe.replaceEnrollment_bind ?_ fun reserved v' same => Safe.ite (fun _ => Safe.pure nofun) fun _ => ?_
  · rintro ws ⟨⟩
    exact present
  · refine Safe.reads_bind Reading.openAs fun deviceCode => Safe.reads_bind Reading.enrollmentPoll fun poll => ?_
    exact enrollmentAnswer_safe mints (same ▸ taken) (same ▸ present)

theorem pollEnrollment_safe : Safe (.endpoint app d tokens) v (Granted app) (pollEnrollment app id) := by
  refine Safe.reads_bind (Program.uses_request ⟨rfl, nofun, nofun⟩) fun _ => ?_
  refine Safe.ite (fun _ => Safe.pure nofun) fun _ => Safe.getEnrollment_bind fun found known => ?_
  cases found with
  | none => exact Safe.pure nofun
  | some entity => exact enrollmentRecord_safe mints taken fun ws => known entity ws rfl

end Polls

end Azbridge.Broker
