import Azbridge.Broker.Scripts

/-!
# Published profiles can be served

The invariant of published profiles in every reachable state, and what it is for: where the stores
answer, `publishedConfig` of a published profile of a Ready workspace succeeds.
-/

namespace Azbridge.Broker
open Ledger Interleaving Profiles

variable {app : App} {w : World} {ws id : String} {α : Type}

/-- The program runs to this result against stores that answer, and changes nothing. -/
def Yields (w : World) (p : Handler α) (a : α) : Prop := p.exec serve w = some (.ok a, w)

namespace Yields
variable {β : Type} {p : Handler α} {a : α}

theorem bind {f : α → Handler β} {b : β} (first : Yields w p a) (rest : Yields w (f a) b) : Yields w (p >>= f) b :=
  (Program.exec_bind first).trans rest

theorem pure : Yields w (Pure.pure a : Handler α) a := rfl

theorem require {condition : Bool} {e : BrokerError} (holds : condition = true) :
    Yields w (Broker.require condition e) () := by
  subst holds
  rfl

theorem okOr {value : Option α} {e : BrokerError} (present : value = some a) : Yields w (Broker.okOr value e) a := by
  subst present
  rfl

theorem decode [Record α] {value : Value} (decoded : Record.decode value = some a) :
    Yields w (Broker.decode value) a := okOr decoded

theorem decodeAll [Record α] {entities : List (Entity Value)} {records : List α}
    (decoded : List.Forall₂ (fun e r => Record.decode e.data = some r) entities records) :
    Yields w (Broker.decodeAll entities) records := by
  induction decoded with
  | nil => exact pure
  | cons same _ ih => exact (decode same).bind (ih.bind pure)

theorem get {t : Table} {partition row : String} {e : Entity Value}
    (held : w.store.lookup ⟨t, partition, row⟩ = some e) : Yields w (Broker.get t partition row) (some e) := by
  simp only [Yields, Broker.get, Program.request, Program.exec, serve, MemoryMetadata.get_of_lookup held]

theorem lookup {t : Table} {partition row : String} (partition_valid : validateKey partition = .ok ())
    (row_valid : validateKey row = .ok ()) : Yields w (Broker.get t partition row) (w.store.lookup ⟨t, partition, row⟩) := by
  simp only [Yields, Broker.get, Program.request, Program.exec, serve, MemoryMetadata.get, partition_valid, row_valid]
  rfl

theorem list {t : Table} {partition : String} {entities : List (Entity Value)}
    (listed : w.store.list t partition = .ok entities) : Yields w (Broker.list t partition) entities := by
  simp only [Yields, Broker.list, Program.request, Program.exec, serve, listed]

theorem getRevision {revision path : String} (valid : revisionPath ws id revision = .ok path) :
    Yields w (Broker.getRevision ws id revision) (w.configs.lookup path) := by
  simp only [Yields, Broker.getRevision, Program.request, Program.exec, serve, MemoryConfigs.getRevision_of_path valid]

end Yields

theorem World.entity {k : Key} {value : Value} (held : w.ledger.value k = some value) :
    ∃ e, w.store.lookup k = some e ∧ e.data = value ∧ e.partitionKey = k.partition ∧ e.rowKey = k.row := by
  simp only [Ledger.value, World.ledger] at held
  split at held
  · cases held
  · obtain ⟨e, found, same⟩ := Option.map_eq_some_iff.mp held
    exact ⟨e, found, same, w.store.keyed k e found⟩

theorem yields_workspace (sane : Sane w) (ready : w.ledger.Ready ws) : Yields w (workspace ws true) () := by
  obtain ⟨r, x, held, state⟩ := ready
  have canonical := (sane.valid.drawn _ ws rfl (rows_of_value held)).canonical
  obtain ⟨-, r', x', same, row, -⟩ := sane.valid.typed _ _ held
  cases same
  obtain ⟨e, found, data, -⟩ := World.entity held
  refine (Yields.require canonical).bind ((Yields.get found).bind ((Yields.okOr rfl).bind ?_))
  refine (Yields.decode (a := r) (by rw [data]; rfl)).bind ((Yields.require (by simpa using row)).bind ?_)
  exact Yields.require (by simpa using state)

theorem yields_readyWorkspace (sane : Sane w) (ready : w.ledger.Ready ws) :
    ∃ r, Yields w (Gateways.readyWorkspace ws) r := by
  obtain ⟨r, x, held, state⟩ := ready
  have canonical := (sane.valid.drawn _ ws rfl (rows_of_value held)).canonical
  obtain ⟨-, r', x', same, row, -⟩ := sane.valid.typed _ _ held
  cases same
  obtain ⟨e, found, data, -⟩ := World.entity held
  have entity : Yields w (Workspaces.workspaceEntity ws) e :=
    (Yields.require canonical).bind ((Yields.get found).bind (Yields.okOr rfl))
  have active : Yields w (Workspaces.activeWorkspace ws) r := by
    refine entity.bind ((Yields.decode (a := r) (by rw [data]; rfl)).bind ?_)
    refine (Yields.require (by simpa using row)).bind ((Yields.require ?_).bind Yields.pure)
    rw [state]
    rfl
  refine ⟨r, active.bind ((Yields.require ?_).bind Yields.pure)⟩
  rw [state]
  rfl

theorem yields_bearer {headers : Headers} {credential : Gateways.Credential} {g : GatewayRecord} (sane : Sane w)
    (bearer : Bearer app headers w.ledger credential g) :
    ∃ e, Yields w (Gateways.bearer app headers) (e, g) ∧ e.partitionKey = credential.workspace ∧
      w.store.lookup ⟨.gateways, e.partitionKey, e.rowKey⟩ = some e := by
  obtain ⟨g', same, row⟩ := sane.valid.typed _ _ bearer.held
  cases same
  obtain ⟨e, found, data, partition, key⟩ := World.entity bearer.held
  obtain ⟨r, ready⟩ := yields_readyWorkspace sane bearer.ready
  refine ⟨e, ?_, partition, by rw [partition, key]; exact found⟩
  refine (Yields.okOr bearer.parsed).bind ((Yields.get found).bind ((Yields.okOr rfl).bind ?_))
  refine (Yields.decode (a := g) (by rw [data]; rfl)).bind ((Yields.require ?_).bind (ready.bind Yields.pure))
  have named : g.gateway.id = credential.gateway := row
  simp [Auth.constantTimeEqual, named, bearer.live, bearer.hash]

theorem yields_profile (sane : Sane w) {r : ProfileRecord} (held : w.ledger.Profile ws id r) :
    ∃ e, Yields w (profile ws id) (e, r) := by
  obtain ⟨r', same, row, canonical⟩ := sane.valid.typed _ _ held
  cases same
  obtain ⟨e, found, data, -⟩ := World.entity held
  refine ⟨e, (Yields.require canonical).bind ((Yields.get found).bind ((Yields.okOr rfl).bind ?_))⟩
  refine (Yields.decode (a := r) (by rw [data]; rfl)).bind ((Yields.require (by simpa using row)).bind ?_)
  exact Yields.pure

/-- A stored revision can be loaded. -/
theorem yields_revision {n createdAt : Nat} {yaml : String} (positive : n ≠ 0)
    (held : w.ledger.value ⟨.revisionMetadata, ws, revisionKey id n⟩ = some (.revision ⟨n, createdAt⟩))
    (blob : w.ledger.Blob ws id n yaml) : Yields w (revision ws id n) ⟨n, createdAt, yaml⟩ := by
  obtain ⟨e, found, data, -⟩ := World.entity held
  obtain ⟨path, valid, stored⟩ := blob
  refine (Yields.require (by simpa using positive)).bind ((Yields.get found).bind ((Yields.okOr rfl).bind ?_))
  refine (Yields.decode (a := (⟨n, createdAt⟩ : RevisionRecord)) (by rw [data]; rfl)).bind ?_
  refine (Yields.require (by simp)).bind ((Yields.getRevision valid).bind ((Yields.okOr (a := yaml) stored).bind ?_))
  exact Yields.pure

theorem connections_decode (sane : Sane w) {entities : List (Entity Value)}
    (listed : w.store.list .connections ws = .ok entities) :
    ∃ connections : List Connection,
      List.Forall₂ (fun e c => Record.decode e.data = some c) entities connections := by
  obtain ⟨mem, -⟩ := MemoryMetadata.list_ok listed
  have each : ∀ e ∈ entities, ∃ c : Connection, Record.decode e.data = some c := by
    intro e member
    have held := ((mem e).mp member).2
    have value : w.ledger.value ⟨.connections, ws, e.rowKey⟩ = some e.data := by simp [Ledger.value, World.ledger, held]
    obtain ⟨c, x, data, -⟩ := sane.valid.typed _ _ value
    exact ⟨c, by rw [data]; rfl⟩
  clear mem listed
  induction entities with
  | nil => exact ⟨[], .nil⟩
  | cons e rest ih =>
    obtain ⟨c, same⟩ := each e (.head _)
    obtain ⟨connections, others⟩ := ih fun e member => each e (.tail _ member)
    exact ⟨c :: connections, .cons same others⟩

theorem mem_readyNames {entities : List (Entity Value)} {connections : List Connection} {name : String}
    (listed : w.store.list .connections ws = .ok entities)
    (decoded : List.Forall₂ (fun e c => Record.decode e.data = some c) entities connections)
    (ready : w.ledger.ReadyName ws name) : name ∈ readyNames connections := by
  obtain ⟨id, conn, x, held, state, rfl⟩ := ready
  obtain ⟨e, found, data, partition, row⟩ := World.entity held
  obtain ⟨mem, -⟩ := MemoryMetadata.list_ok listed
  have member : e ∈ entities := (mem e).mpr ⟨partition, by rw [row]; exact found⟩
  refine List.mem_map.mpr ⟨conn, List.mem_filter.mpr ⟨?_, by simpa using state⟩, rfl⟩
  clear listed mem
  induction decoded with
  | nil => cases member
  | cons same _ ih =>
    rcases List.mem_cons.mp member with rfl | later
    · rw [data] at same
      cases same
      exact .head _
    · exact .tail _ (ih later)

theorem exec_validateConfig {V : Type} {answer : V → (r : Request) → Option (Except BrokerError (Reply r) × V)} {v : V}
    {yaml : String} {config : Config} {connections : List Connection} (parsed : parseManagedConfig app yaml = .ok config)
    (ready : (workspace ws true).exec answer v = some (.ok (), v))
    (listed : (list .connections ws >>= fun entities => decodeAll entities).exec answer v = some (.ok connections, v))
    (names : ∀ name ∈ config.relayNames, name ∈ readyNames connections) :
    (validateConfig app ws yaml).exec answer v = some (.ok config, v) := by
  have complete : (config.relayNames.filter fun name => !(readyNames connections).contains name) = [] := by
    rw [List.filter_eq_nil_iff]
    intro name member
    simpa using names name member
  have checked : (checkConfig app ws yaml).exec answer v = some (.ok (.ok config), v) := by
    unfold checkConfig
    rw [Program.exec_bind ready, parsed]
    dsimp only
    rw [← Program.bind_assoc, Program.exec_bind listed, complete]
    rfl
  exact Program.exec_bind checked

theorem yields_validateConfig (sane : Sane w) (ready : w.ledger.Ready ws) {yaml : String} {config : Config}
    (parsed : parseManagedConfig app yaml = .ok config)
    (names : ∀ name ∈ config.relayNames, w.ledger.ReadyName ws name) :
    Yields w (validateConfig app ws yaml) config := by
  obtain ⟨r, x, held, -⟩ := id ready
  obtain ⟨e, found, -⟩ := World.entity held
  obtain ⟨entities, listed⟩ := MemoryMetadata.list_of_valid (t := .connections) (w.store.valid _ e found).2
  obtain ⟨connections, decoded⟩ := connections_decode sane listed
  apply exec_validateConfig parsed (yields_workspace sane ready) ((Yields.list listed).bind (Yields.decodeAll decoded))
  intro name named
  exact mem_readyNames listed decoded (names name named)

theorem yields_publishedConfig (sane : Sane w) {n : Nat} {config : Config} (served : Served app w.ledger ws id n config) :
    Yields w (publishedConfig app ws id) (n, config) := by
  obtain ⟨ready, ⟨r, held, current⟩, ⟨positive, ⟨createdAt, row⟩, yaml, blob, parsed⟩, names⟩ := served
  obtain ⟨e, loaded⟩ := yields_profile sane held
  refine (yields_workspace sane ready).bind (loaded.bind ((Yields.okOr current).bind ?_))
  refine (yields_revision positive row blob).bind ((yields_validateConfig sane ready parsed names).bind ?_)
  exact Yields.pure

section Publishing
open Program Auth
variable {β : Type} {w' : World} {v : Tape} {headers : Headers} {config : Config} {r : ProfileRecord} {n at_ : Nat} {yaml : String}

/-- The program runs to this result on the tape, and changes nothing. -/
def Tape.Reads (v : Tape) (p : Handler α) (a : α) : Prop := p.exec Tape.answer v = some (.ok a, v)

theorem Tape.answer_of_serve {r : Request} {reply : Except BrokerError (Reply r)}
    (served : serve w r = some (reply, w')) : Tape.answer { v with world := w } r = some (reply, { v with world := w' }) := by
  have mapped : (serve w r).map (fun answer => (answer.1, { v with world := answer.2 })) = some (reply, { v with world := w' }) := by
    rw [served]
    rfl
  cases r with
  | get | insert | replace | delete | list | putRevision | getRevision => exact mapped
  | _ => cases served

theorem Tape.exec_of_serve {p : Handler α} {result : Except BrokerError α} (ran : p.exec serve w = some (result, w')) :
    p.exec Tape.answer { v with world := w } = some (result, { v with world := w' }) := by
  induction p generalizing w with
  | done ended =>
    cases ran
    rfl
  | call r next ih =>
    simp only [exec] at ran ⊢
    split at ran
    · next reply w₁ served =>
      rw [Tape.answer_of_serve served]
      exact ih reply ran
    · cases ran

theorem Yields.reads {p : Handler α} {a : α} (h : Yields v.world p a) : v.Reads p a := Tape.exec_of_serve h

theorem Tape.Reads.bind {p : Handler α} {f : α → Handler β} {a : α} (first : v.Reads p a) :
    (p >>= f).exec Tape.answer v = (f a).exec Tape.answer v := exec_bind first

/-- Whoever asks may publish in the workspace, its relays are Ready, and the stores take the two writes of a publication. -/
structure Publishable (app : App) (headers : Headers) (ws id : String) (config : Config) (r : ProfileRecord) (v : Tape) : Prop where
  authorized : ∃ actor, v.Reads (authorize app headers ws .operator true) actor
  ready : Yields v.world (workspace ws true) ()
  canonical : Uuid.isText id = true
  held : ∃ e, v.world.store.lookup ⟨.profiles, ws, id⟩ = some e ∧ e.data = .profile r
  own : r.profile.id = id
  names : ∃ connections, Yields v.world (list .connections ws >>= fun entities => decodeAll entities) connections ∧
    ∀ name ∈ config.relayNames, name ∈ readyNames connections
  room : v.world.store.version + 2 < Text.u64
  clock : v.world.clock < 2 ^ 63
  drawn : ∃ u rest, v.uuids = u :: rest ∧ u ∉ v.world.uuids ∧ v.world.store.lookup ⟨.audit, ws, u.hyphenated⟩ = none

/-- A row that was read is written back. -/
theorem Tape.replaces {t : Table} {p row : String} {e : Entity Value} (data : Value) (held : v.world.store.lookup ⟨t, p, row⟩ = some e)
    (room : v.world.store.version + 1 < Text.u64) :
    ∃ e' s, (replace t p row data e.etag).exec Tape.answer v = some (.ok e', { v with world := { v.world with store := s } }) ∧
      e'.data = data ∧ v.world.store.Stored s ⟨t, p, row⟩ e' ∧ s.version = v.world.store.version + 1 := by
  obtain ⟨e', s, replaced⟩ : ∃ e' s, v.world.store.replace t p row data e.etag = .ok (e', s) :=
    MemoryMetadata.replace_of_lookup held room
  obtain ⟨-, content, stored⟩ := MemoryMetadata.replace_ok replaced
  refine ⟨e', s, ?_, content, stored, MemoryMetadata.replace_version replaced⟩
  have served : serve v.world (.replace t p row data e.etag) = some (.ok e', { v.world with store := s }) := by
    show some (effect _ _ (v.world.store.replace t p row data e.etag)) = _
    rw [replaced]
    rfl
  have answered := Tape.answer_of_serve (v := v) served
  simp only [replace, Program.request, exec, answered]

theorem Tape.audits {u : Uuid} {rest : List Uuid} (actor action target : String) (partition : validateKey ws = .ok ())
    (next : v.uuids = u :: rest) (fresh : u ∉ v.world.uuids) (absent : v.world.store.lookup ⟨.audit, ws, u.hyphenated⟩ = none)
    (clock : v.world.clock < 2 ^ 63) (room : v.world.store.version + 1 < Text.u64) :
    ∃ v' e, (recordAudit ws actor action target).exec Tape.answer v = some (.ok (), v') ∧
      v.world.store.Stored v'.world.store ⟨.audit, ws, u.hyphenated⟩ e := by
  let entry : AuditEntry := ⟨u.hyphenated, v.world.clock, actor, action, target⟩
  obtain ⟨e, s, inserted⟩ : ∃ e s, v.world.store.insert .audit ws u.hyphenated (encode entry) = .ok (e, s) :=
    MemoryMetadata.insert_of_absent ⟨partition, validateKey_hyphenated u⟩ absent room
  let v₁ : Tape := { v with world := { v.world with uuids := u :: v.world.uuids }, uuids := rest }
  have drawn : newUuid.exec Tape.answer v = some (.ok u, v₁) := by
    have answered : v.answer .newUuid = some (.ok u, v₁) := by
      simp only [Tape.answer, next]
      exact if_neg fresh
    simp only [newUuid, Program.request, exec, answered]
  have read : now.exec Tape.answer v₁ = some (.ok v.world.clock, v₁) := by
    have answered : v₁.answer .now = some (.ok v.world.clock, v₁) := if_pos clock
    simp only [now, Program.request, exec, answered]
  have written : (insert .audit ws u.hyphenated (encode entry)).exec Tape.answer v₁ =
      some (.ok e, { v₁ with world := { v₁.world with store := s } }) := by
    have served : serve v₁.world (.insert .audit ws u.hyphenated (encode entry)) = some (.ok e, { v₁.world with store := s }) := by
      show some (effect _ _ (v.world.store.insert .audit ws u.hyphenated (encode entry))) = _
      rw [inserted]
      rfl
    have answered := Tape.answer_of_serve (v := v₁) served
    simp only [insert, Program.request, exec, answered]
  refine ⟨{ v₁ with world := { v₁.world with store := s } }, e, ?_, (MemoryMetadata.insert_ok inserted).2.2⟩
  unfold recordAudit
  rw [exec_bind drawn, exec_bind read, exec_bind written]
  rfl

/-- A revision that is loaded is published to whoever expects the one published so far. -/
theorem publishes (publishable : Publishable app headers ws id config r v)
    (loaded : Yields v.world (revision ws id n) ⟨n, at_, yaml⟩) (parsed : parseManagedConfig app yaml = .ok config) :
    ∃ v' e, (publish app ws id headers ⟨n, r.profile.currentRevision⟩).exec Tape.answer v =
        some (.ok { r.profile with currentRevision := some n }, v') ∧
      v'.world.store.lookup ⟨.profiles, ws, id⟩ = some e ∧
      e.data = .profile { r with profile := { r.profile with currentRevision := some n } } := by
  obtain ⟨actor, authorized⟩ := publishable.authorized
  obtain ⟨e, held, data⟩ := publishable.held
  obtain ⟨connections, listed, names⟩ := publishable.names
  obtain ⟨u, rest, next, fresh, absent⟩ := publishable.drawn
  have room := publishable.room
  have found : Yields v.world (profile ws id) (e, r) := by
    refine (Yields.require publishable.canonical).bind ((Yields.get held).bind ((Yields.okOr rfl).bind ?_))
    refine (Yields.decode (a := r) (by rw [data]; rfl)).bind ((Yields.require ?_).bind Yields.pure)
    simpa using publishable.own
  have expected : Yields v.world (require (r.profile.currentRevision == r.profile.currentRevision) .conflict) () :=
    Yields.require (by simp)
  have valid : Yields v.world (validateConfig app ws yaml) config := exec_validateConfig parsed publishable.ready listed names
  obtain ⟨e', s, written, content, stored, version⟩ := Tape.replaces (v := v)
    (encode { r with profile := { r.profile with currentRevision := some n } }) held (by omega)
  have kept : s.lookup ⟨.audit, ws, u.hyphenated⟩ = none := (stored.others _ (by simp)).trans absent
  obtain ⟨v', entry, audited, later⟩ := Tape.audits (v := { v with world := { v.world with store := s } })
    (toString actor.user.id) "profile.publish" (revisionKey id n) (v.world.store.valid _ e held).1 next fresh kept publishable.clock (by show s.version + 1 < _; omega)
  refine ⟨v', e', ?_, (later.others _ (by simp)).trans stored.written, content⟩
  unfold publish
  rw [authorized.bind, publishable.ready.reads.bind, found.reads.bind]
  dsimp only
  rw [expected.reads.bind, loaded.reads.bind, valid.reads.bind]
  rw [exec_bind written, exec_bind audited]
  rfl

end Publishing

/-- Whatever ran, and wherever it was stopped: in a workspace that is not being deleted every
published revision is stored, managed and refers to Ready connections, and every gateway that may
still call has a published profile; a Ready one serves all of these. -/
theorem published_profiles_are_served {w₀ : World} {p : Pool} (start : w₀.Initial)
    (run : Reaches (serial app fun _ _ => True) (Pool.fresh w₀) p) :
    (∀ ws, p.world.ledger.Active ws →
      (∀ id r n, p.world.ledger.Profile ws id r → r.profile.currentRevision = some n →
        ∃ config, p.world.ledger.Loadable ws app id n config ∧
          ∀ name ∈ config.relayNames, p.world.ledger.ReadyName ws name) ∧
      (∀ gateway g, p.world.ledger.Gateway ws gateway g → g.gateway.revoked = false →
        ∃ r n, p.world.ledger.Profile ws g.gateway.profileId r ∧ r.profile.currentRevision = some n)) ∧
    (∀ ws, p.world.ledger.Ready ws →
      (∀ id r n, p.world.ledger.Profile ws id r → r.profile.currentRevision = some n →
        ∃ config, (publishedConfig app ws id).exec serve p.world = some (.ok (n, config), p.world)) ∧
      (∀ gateway g, p.world.ledger.Gateway ws gateway g → g.gateway.revoked = false →
        ∃ loaded, (publishedConfig app ws g.gateway.profileId).exec serve p.world = some (.ok loaded, p.world))) := by
  have inv := (serial_holds (d := .none) start nofun nofun (fun _ => id) run).invariant
  have served : ∀ ws, p.world.ledger.Ready ws → ∀ id r n, p.world.ledger.Profile ws id r →
      r.profile.currentRevision = some n → ∃ config, Yields p.world (publishedConfig app ws id) (n, config) := by
    intro ws ready id r n held current
    obtain ⟨config, loadable, names⟩ := inv.published.profiles ws id r n ready.active held current
    exact ⟨config, yields_publishedConfig inv.sane ⟨ready, ⟨r, held, current⟩, loadable, names⟩⟩
  refine ⟨fun ws active => ⟨fun id r n => inv.published.profiles ws id r n active,
    fun gateway g => inv.published.gateways ws gateway g active⟩, fun ws ready => ⟨served ws ready, ?_⟩⟩
  intro gateway g held live
  obtain ⟨r, n, profile, current⟩ := inv.published.gateways ws gateway g ready.active held live
  obtain ⟨config, yields⟩ := served ws ready _ r n profile current
  exact ⟨_, yields⟩

/-- The profile of the local broker is served. -/
theorem published_profiles_are_served_local : ∃ p config,
    Reaches (serial localApp fun _ _ => True) (Pool.fresh World.empty) p ∧
      (publishedConfig localApp localWorkspace localProfile).exec serve p.world = some (.ok (1, config), p.world) := by
  obtain ⟨p, next, run, -, profile, workspace⟩ := localScript_runs
  obtain ⟨config, served⟩ := ((published_profiles_are_served World.empty_initial run).2 localWorkspace
    ⟨_, _, workspace, rfl⟩).1 localProfile _ 1 profile rfl
  exact ⟨p, config, run, served⟩

end Azbridge.Broker
