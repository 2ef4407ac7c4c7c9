import Azbridge.Broker.Ledger

/-!
# Invariants of the ledger

What every step of the ledger preserves: rows are well typed and named after drawn identifiers,
published profiles stay loadable, initialised workspaces keep an administrator, and no row
outlives its workspace. The last two need the discipline that leaves out their interrupted
operation.
-/

namespace Azbridge.Broker.Ledger
variable {app : App} {d : Discipline} {c c' : Ledger} {k : Key} {old new : Option Value} {ws id user : String}

/-! ### Frames -/

theorem Workspace.inState {r : WorkspaceRecord} {x : Extra} {P : ProvisioningState → Prop}
    (h : c.Workspace ws r x) (state : P r.workspace.state) : c.InState ws P := ⟨r, x, h, state⟩

theorem Workspace.unique {r r' : WorkspaceRecord} {x x' : Extra} (h : c.Workspace ws r x)
    (h' : c.Workspace ws r' x') : r = r' ∧ x = x' := by
  have same := h.symm.trans h'
  simpa only [Option.some.injEq, Value.workspace.injEq] using same

theorem InState.present {P : ProvisioningState → Prop} (h : c.InState ws P) : c.Present ws := by
  obtain ⟨r, x, held, -⟩ := h
  exact rows_of_value held

theorem Deleting.not_active (h : c.Deleting ws) : ¬ c.Active ws := by
  obtain ⟨r, x, held, deleting⟩ := h
  rintro ⟨r', x', held', active⟩
  obtain ⟨rfl, -⟩ := held.unique held'
  exact active deleting

theorem Deleting.not_stranded (h : c.Deleting ws) : ¬ c.Stranded ws := by
  obtain ⟨r, x, held, deleting⟩ := h
  rintro ⟨r', x', held', -, early, -⟩
  obtain ⟨rfl, -⟩ := held.unique held'
  rcases early with early | early <;> cases deleting.symm.trans early

theorem InState.mono {P Q : ProvisioningState → Prop} (h : c.InState ws P) (sub : ∀ s, P s → Q s) :
    c.InState ws Q := by
  obtain ⟨r, x, held, state⟩ := h
  exact ⟨r, x, held, sub _ state⟩

theorem Ready.active (h : c.Ready ws) : c.Active ws :=
  InState.mono h (by rintro s rfl; nofun)

theorem set_inState {P : ProvisioningState → Prop} {e : Option (Entity Value)} (other : k ≠ workspaceKey ws) :
    (c.set k e).InState ws P ↔ c.InState ws P := by
  simp only [InState, Workspace, set_value_other other.symm]

/-! ### Well-typed rows -/

/-- The rows of each table have their shape and agree with their key. -/
def WellTyped (k : Key) (v : Value) : Prop :=
  match k.table with
  | .workspaces => k.partition = platformPartition ∧ ∃ r x, v = .workspace r x ∧ r.workspace.id = k.row ∧
      (r.workspace.state ≠ .pending → r.workspace.state ≠ .deleting → x.creatorMembershipInitialized = some true)
  | .members => ∃ m, v = .member m ∧ toString m.user.id = k.row
  | .connections => ∃ conn x, v = .connection conn x ∧ conn.id = k.row ∧
      Workspaces.validConnectionName conn.name = true
  | .profiles => ∃ r, v = .profile r ∧ r.profile.id = k.row ∧ Uuid.isText k.row = true
  | .gateways => ∃ g, v = .gateway g ∧ g.gateway.id = k.row
  | .revisionMetadata => ∃ r, v = .revision r
  | .userWorkspaces => v = .index k.row
  | .platformAdmins | .enrollments | .audit => True

structure Valid (c : Ledger) : Prop where
  typed : ∀ k v, c.value k = some v → WellTyped k v
  drawn : ∀ k ws, k.workspace? = some ws → c.rows k ≠ none → c.Drawn ws
  named : ∀ ws r x, c.Workspace ws r x → ∃ u ∈ c.uuids, ∃ stem, r.workspace.namespaceName = stem ++ u.simple
  distinct : ∀ ws ws' r r' x x', c.Workspace ws r x → c.Workspace ws' r' x' →
    r.workspace.namespaceName = r'.workspace.namespaceName → ws = ws'

theorem Drawn.canonical (h : c.Drawn ws) : Uuid.isText ws = true := by
  obtain ⟨u, -, rfl⟩ := h
  exact u.isText_hyphenated

theorem Drawn.step {G : Ledger → Key → Option Value → Option Value → Prop} (drawn : c.Drawn ws) (step : Step G c c') :
    c'.Drawn ws := by
  cases step with
  | row h => exact drawn
  | blob fresh => exact drawn
  | uuid fresh =>
    obtain ⟨u, drawn, same⟩ := drawn
    exact ⟨u, List.mem_cons_of_mem _ drawn, same⟩

/-- An identifier that was not drawn yet belongs to no row. -/
theorem Valid.unused (valid : c.Valid) {u : Uuid} (fresh : u ∉ c.uuids) : c.Unused u.hyphenated := by
  intro k belongs
  by_contra present
  obtain ⟨u', drawn, same⟩ := valid.drawn k _ belongs present
  rw [Uuid.hyphenated_injective same] at drawn
  exact fresh drawn

namespace SystemWrite

theorem wellTyped (h : SystemWrite d c k old new) (typed : ∀ v, old = some v → WellTyped k v) :
    ∀ v, new = some v → WellTyped k v := by
  intro v written
  cases h with
  | audit => trivial
  | insertMember m => cases written; exact ⟨m, rfl, rfl⟩
  | insertIndex => cases written; exact rfl
  | removeIndex => cases written
  | initialise early =>
    cases written
    obtain ⟨platform, r, x, same, row, -⟩ := typed _ rfl
    cases same
    exact ⟨platform, _, _, rfl, row, fun _ _ => rfl⟩
  | provision live alive initialised kept =>
    cases written
    obtain ⟨platform, r, x, same, row, -⟩ := typed _ rfl
    cases same
    exact ⟨platform, _, _, rfl, row, fun _ _ => kept⟩
  | deletionFailed deleting =>
    cases written
    obtain ⟨platform, r, x, same, row, -⟩ := typed _ rfl
    cases same
    exact ⟨platform, _, _, rfl, row, fun _ gone => absurd deleting gone⟩
  | removeWorkspace => cases written
  | saveConnection =>
    cases written
    obtain ⟨conn, x, same, row, name⟩ := typed _ rfl
    cases same
    exact ⟨_, _, rfl, row, name⟩
  | connectionFailed =>
    cases written
    obtain ⟨conn, x, same, row, name⟩ := typed _ rfl
    cases same
    exact ⟨_, _, rfl, row, name⟩
  | removeConnection => cases written
  | cleanup => cases written

theorem known (h : SystemWrite d c k old new) (belongs : k.workspace? = some ws)
    (inserted : old = none) : c.Present ws := by
  cases h <;> cases inserted <;> simp only [Key.workspace?, Option.some.injEq, reduceCtorEq] at belongs
  · next active _ _ => exact belongs ▸ active.present
  · next active _ => exact belongs ▸ active.present

theorem sameNamespace {r : WorkspaceRecord} {x : Extra}
    (h : SystemWrite d c (workspaceKey ws) old (some (.workspace r x))) :
    ∃ r' x', old = some (.workspace r' x') ∧ r.workspace.namespaceName = r'.workspace.namespaceName := by
  cases h <;> exact ⟨_, _, rfl, rfl⟩

end SystemWrite

namespace Write

theorem wellTyped (h : Write app d c k old new) (typed : ∀ v, old = some v → WellTyped k v) :
    ∀ v, new = some v → WellTyped k v := by
  intro v written
  cases h with
  | system h => exact h.wellTyped typed v written
  | createWorkspace r pending => cases written; exact ⟨rfl, r, {}, rfl, rfl, fun settled => absurd pending settled⟩
  | journal =>
    cases written
    obtain ⟨platform, r, x, same, row, -⟩ := typed _ rfl
    cases same
    exact ⟨platform, _, _, rfl, row, fun _ gone => absurd rfl gone⟩
  | insertMember m => cases written; exact ⟨m, rfl, rfl⟩
  | updateMember =>
    cases written
    obtain ⟨m, same, row⟩ := typed _ rfl
    cases same
    exact ⟨_, rfl, row⟩
  | deleteMember => cases written
  | insertConnection conn ready pending name free => cases written; exact ⟨conn, {}, rfl, rfl, name⟩
  | retireConnection =>
    cases written
    obtain ⟨conn, x, same, row, name⟩ := typed _ rfl
    cases same
    exact ⟨_, _, rfl, row, name⟩
  | insertProfile r ready draft canonical free => cases written; exact ⟨r, rfl, rfl, canonical⟩
  | reserve =>
    cases written
    obtain ⟨r, same, row, canonical⟩ := typed _ rfl
    cases same
    exact ⟨_, rfl, row, canonical⟩
  | publish =>
    cases written
    obtain ⟨r, same, row, canonical⟩ := typed _ rfl
    cases same
    exact ⟨_, rfl, row, canonical⟩
  | deleteProfile => cases written
  | insertRevision => cases written; exact ⟨_, rfl⟩
  | insertGateway g => cases written; exact ⟨g, rfl, rfl⟩
  | updateGateway sameId =>
    cases written
    obtain ⟨g, same, row⟩ := typed _ rfl
    cases same
    exact ⟨_, rfl, sameId.trans row⟩

/-- Nothing is inserted for a workspace that is not there, except its own row. -/
theorem known (h : Write app d c k old new) (belongs : k.workspace? = some ws) (inserted : old = none) :
    c.Present ws ∨ (k = workspaceKey ws ∧ c.Drawn ws) := by
  cases h with
  | system h => exact .inl (h.known belongs inserted)
  | createWorkspace r pending drawn => cases belongs; exact .inr ⟨rfl, drawn⟩
  | insertMember m active => cases belongs; exact .inl active.present
  | insertConnection conn ready => cases belongs; exact .inl ready.present
  | insertProfile r ready => cases belongs; exact .inl ready.present
  | insertRevision ready => cases belongs; exact .inl ready.present
  | insertGateway g ready => cases belongs; exact .inl ready.present
  | _ => cases inserted

/-- A workspace row keeps its namespace, which no other workspace had when it was created. -/
theorem workspaceNamespace {r : WorkspaceRecord} {x : Extra}
    (h : Write app d c (workspaceKey ws) old (some (.workspace r x))) :
    (∃ r' x', old = some (.workspace r' x') ∧ r.workspace.namespaceName = r'.workspace.namespaceName) ∨
      ((∃ u ∈ c.uuids, ∃ stem, r.workspace.namespaceName = stem ++ u.simple) ∧
        ∀ ws' r' x', c.Workspace ws' r' x' → r'.workspace.namespaceName ≠ r.workspace.namespaceName) := by
  cases h with
  | system h => exact .inl h.sameNamespace
  | createWorkspace r pending drawn untaken unused own named => exact .inr ⟨named, own⟩
  | journal => exact .inl ⟨_, _, rfl, rfl⟩

end Write

theorem Valid.step (valid : c.Valid) (step : Step (Write app d) c c') : c'.Valid := by
  cases step with
  | blob fresh => exact ⟨valid.typed, valid.drawn, valid.named, valid.distinct⟩
  | uuid fresh =>
    refine ⟨valid.typed, fun k ws belongs present => ?_, fun ws r x held => ?_, valid.distinct⟩
    · obtain ⟨u, drawn, same⟩ := valid.drawn k ws belongs present
      exact ⟨u, List.mem_cons_of_mem _ drawn, same⟩
    · obtain ⟨u, drawn, stem, same⟩ := valid.named ws r x held
      exact ⟨u, List.mem_cons_of_mem _ drawn, stem, same⟩
  | @row k e h =>
    have earlier : ∀ ws r x, (c.set k e).Workspace ws r x → c.Workspace ws r x ∨ k = workspaceKey ws := by
      intro ws r x held
      by_cases same : k = workspaceKey ws
      · exact .inr same
      · exact .inl ((set_value_other (Ne.symm same)).symm.trans held)
    have origin : ∀ ws r x, (c.set k e).Workspace ws r x →
        (∃ r' x', c.Workspace ws r' x' ∧ r.workspace.namespaceName = r'.workspace.namespaceName) ∨
          (k = workspaceKey ws ∧ (∃ u ∈ c.uuids, ∃ stem, r.workspace.namespaceName = stem ++ u.simple) ∧
            ∀ ws' r' x', c.Workspace ws' r' x' → r'.workspace.namespaceName ≠ r.workspace.namespaceName) := by
      intro ws r x held
      rcases earlier ws r x held with before | rfl
      · exact .inl ⟨r, x, before, rfl⟩
      · have written : e.map (·.data) = some (.workspace r x) := by
          rw [← set_value_self (c := c)]
          exact held
        rw [written] at h
        rcases h.workspaceNamespace with ⟨r', x', before, same⟩ | created
        · exact .inl ⟨r', x', before, same⟩
        · exact .inr ⟨rfl, created⟩
    refine ⟨?_, ?_, ?_, ?_⟩
    · intro k' v held
      by_cases same : k' = k
      · subst same
        rw [set_value_self] at held
        exact h.wellTyped (fun v found => valid.typed _ v found) v held
      · exact valid.typed k' v ((set_value_other same).symm.trans held)
    · intro k' ws belongs present
      by_cases same : k' = k
      · subst same
        by_cases inserted : c.rows k' = none
        · rcases h.known belongs (by simp [value, inserted]) with known | ⟨-, drawn⟩
          · exact valid.drawn _ ws rfl known
          · exact drawn
        · exact valid.drawn k' ws belongs inserted
      · rw [set_rows_other same] at present
        exact valid.drawn k' ws belongs present
    · intro ws r x held
      rcases origin ws r x held with ⟨r', x', before, same⟩ | ⟨-, named, -⟩
      · rw [same]
        exact valid.named ws r' x' before
      · exact named
    · intro ws ws' r r' x x' held held' same
      rcases origin ws r x held with ⟨r₁, x₁, before, name⟩ | ⟨key, -, own⟩
      · rcases origin ws' r' x' held' with ⟨r₂, x₂, before', name'⟩ | ⟨-, -, own'⟩
        · exact valid.distinct _ _ _ _ _ _ before before' (name.symm.trans (same.trans name'))
        · exact absurd (name.symm.trans same) (own' _ _ _ before)
      · rcases origin ws' r' x' held' with ⟨r₂, x₂, before', name'⟩ | ⟨key', -, -⟩
        · exact absurd (name'.symm.trans same.symm) (own _ _ _ before')
        · exact congrArg Key.row (key.symm.trans key')

/-! ### Names -/

theorem Named.congr {table : Table} {name : String} (named : c'.Named ws table id name)
    (same : c.value ⟨table, ws, id⟩ = c'.value ⟨table, ws, id⟩) : c.Named ws table id name := by
  cases named with
  | connection held => exact .connection (same.trans held)
  | profile held => exact .profile (same.trans held)

theorem Free.draw {table : Table} {name : String} {u : Uuid} (free : c.Free ws table name) :
    (c.draw u).Free ws table name := fun id other named => free id other (named.congr rfl)

/-- No two connections of a workspace, and no two profiles, have names that differ in ASCII case at most. -/
def DistinctNames (c : Ledger) : Prop :=
  ∀ ws table id id' name name', c.Named ws table id name → c.Named ws table id' name' →
    Text.eqIgnoreAsciiCase name name' = true → id = id'

/-- A name that a write leaves was there before, or is given for the first time. -/
theorem Write.named {table : Table} {name : String} {e : Option (Entity Value)}
    (h : Write app d c ⟨table, ws, id⟩ (c.value ⟨table, ws, id⟩) (e.map (·.data)))
    (named : (c.set ⟨table, ws, id⟩ e).Named ws table id name) :
    c.Named ws table id name ∨ c.Free ws table name := by
  cases named with
  | @connection _ conn x held =>
    rw [Connection, set_value_self] at held
    rw [held] at h
    generalize before : c.value ⟨.connections, ws, id⟩ = old at h
    cases h with
    | system h =>
      cases h with
      | saveConnection =>
        have kept : c.Named _ _ _ _ := .connection before
        exact .inl kept
      | connectionFailed =>
        have kept : c.Named _ _ _ _ := .connection before
        exact .inl kept
    | insertConnection conn ready pending valid free => exact .inr free
    | retireConnection =>
      have kept : c.Named _ _ _ _ := .connection before
      exact .inl kept
  | @profile _ r held =>
    rw [Profile, set_value_self] at held
    rw [held] at h
    generalize before : c.value ⟨.profiles, ws, id⟩ = old at h
    cases h with
    | system h => cases h
    | insertProfile r ready draft canonical free => exact .inr free
    | reserve =>
      have kept : c.Named _ _ _ _ := .profile before
      exact .inl kept
    | publish =>
      have kept : c.Named _ _ _ _ := .profile before
      exact .inl kept

theorem eqIgnoreAsciiCase_comm (a b : String) : Text.eqIgnoreAsciiCase a b = Text.eqIgnoreAsciiCase b a := by
  unfold Text.eqIgnoreAsciiCase
  exact BEq.comm

theorem DistinctNames.step (distinct : DistinctNames c) (step : Step (Write app d) c c') : DistinctNames c' := by
  cases step with
  | uuid fresh =>
    exact fun ws table id id' name name' named named' =>
      distinct ws table id id' name name' (named.congr rfl) (named'.congr rfl)
  | blob fresh =>
    exact fun ws table id id' name name' named named' =>
      distinct ws table id id' name name' (named.congr rfl) (named'.congr rfl)
  | @row k e h =>
    have origin : ∀ ws table id name, (c.set k e).Named ws table id name →
        c.Named ws table id name ∨ k = ⟨table, ws, id⟩ ∧ c.Free ws table name := by
      intro ws table id name named
      by_cases same : (⟨table, ws, id⟩ : Key) = k
      · subst same
        exact (h.named named).imp_right fun free => ⟨rfl, free⟩
      · exact .inl (named.congr (set_value_other same).symm)
    intro ws table id id' name name' named named' equal
    rcases origin ws table id name named with before | ⟨key, free⟩
    · rcases origin ws table id' name' named' with before' | ⟨-, free'⟩
      · exact distinct ws table id id' name name' before before' equal
      · rw [free' id name before] at equal
        cases equal
    · rcases origin ws table id' name' named' with before' | ⟨key', -⟩
      · rw [eqIgnoreAsciiCase_comm, free id' name' before'] at equal
        cases equal
      · exact congrArg Key.row (key.symm.trans key')

/-! ### Published profiles -/

/-- In every workspace that is not being deleted, published profiles load with Ready relays, and
gateways that may still call have a published profile. -/
structure Published (app : App) (c : Ledger) : Prop where
  profiles : ∀ ws id r n, c.Active ws → c.Profile ws id r → r.profile.currentRevision = some n →
    ∃ config, c.Loadable ws app id n config ∧ ∀ name ∈ config.relayNames, c.ReadyName ws name
  gateways : ∀ ws gateway g, c.Active ws → c.Gateway ws gateway g → g.gateway.revoked = false →
    ∃ r n, c.Profile ws g.gateway.profileId r ∧ r.profile.currentRevision = some n

theorem relayNames_normalized (config : Config) : (Profiles.normalized config).relayNames = config.relayNames := by
  simp [Profiles.normalized, Config.relayNames, List.map_map, Function.comp_def]

theorem parse_of_managed {yaml : String} {config : Config} (h : Profiles.parseManagedConfig app yaml = .ok config) :
    ∃ read ignored, app.yaml.config yaml = some (read, ignored) ∧ config = Profiles.normalized read := by
  unfold Profiles.parseManagedConfig at h
  split at h
  · cases h
  · split at h
    · cases h
    · split at h
      · next read ignored raw found _ =>
        split at h
        · cases h; exact ⟨read, ignored, found, rfl⟩
        · cases h
      · cases h

theorem eqIgnoreAsciiCase_refl (s : String) : Text.eqIgnoreAsciiCase s s = true := by
  simp [Text.eqIgnoreAsciiCase]

theorem Loadable.inUse {r : ProfileRecord} {n : Nat} {config : Config} {name : String}
    (h : c.Loadable ws app id n config) (held : c.Profile ws id r) (current : r.profile.currentRevision = some n)
    (named : name ∈ config.relayNames) : c.InUse ws app name := by
  obtain ⟨-, -, yaml, blob, managed⟩ := h
  obtain ⟨read, ignored, parsed, rfl⟩ := parse_of_managed managed
  rw [relayNames_normalized] at named
  exact ⟨id, r, n, yaml, read, ignored, held, current, blob, parsed, name, named, eqIgnoreAsciiCase_refl name⟩

namespace Write

/-- A workspace that is active after a write was active before, or had no rows at all. -/
theorem active_before {e : Option (Entity Value)} (h : Write app d c k (c.value k) (e.map (·.data)))
    (active : (c.set k e).Active ws) : c.Active ws ∨ c.Unused ws := by
  by_cases same : k = workspaceKey ws
  · subst same
    obtain ⟨r, x, held, live⟩ := active
    rw [Workspace, set_value_self] at held
    rw [held] at h
    generalize before : c.value (workspaceKey ws) = old at h
    cases h with
    | system h =>
      cases h with
      | initialise early =>
        exact .inl ⟨_, _, before, live⟩
      | provision present => exact .inl ⟨_, _, before, present⟩
      | deletionFailed deleting => exact absurd deleting live
    | createWorkspace r pending drawn untaken unused => exact .inr unused
    | journal => exact absurd rfl live
  · exact .inl ((set_inState same).mp active)

theorem keeps_revision {e : Option (Entity Value)} {row : String} {v : Value}
    (h : Write app d c k (c.value k) (e.map (·.data))) (active : c.Active ws)
    (held : c.value ⟨.revisionMetadata, ws, row⟩ = some v) :
    (c.set k e).value ⟨.revisionMetadata, ws, row⟩ = some v := by
  by_cases same : k = ⟨.revisionMetadata, ws, row⟩
  · subst same
    rw [held] at h
    generalize e.map (·.data) = new at h
    cases h with
    | system h =>
      cases h with
      | cleanup member deleting => exact absurd active deleting.not_active
  · rw [set_value_other (Ne.symm same), held]

/-- A Ready connection of an active workspace goes only when nothing published names it. -/
theorem keeps_readyName {e : Option (Entity Value)} {name : String}
    (h : Write app d c k (c.value k) (e.map (·.data))) (ready : c.ReadyName ws name) :
    (c.set k e).ReadyName ws name ∨ ¬ c.InUse ws app name := by
  obtain ⟨id, conn, x, held, state, rfl⟩ := ready
  by_cases same : k = ⟨.connections, ws, id⟩
  · subst same
    rw [held] at h
    generalize e.map (·.data) = new at h
    cases h with
    | system h =>
      cases h with
      | saveConnection unready => exact absurd state unready
      | connectionFailed deleting => exact absurd (state.symm.trans deleting) nofun
      | removeConnection deleting => exact absurd (state.symm.trans deleting) nofun
      | cleanup member => simp [cleaned] at member
    | retireConnection active free => exact .inr free
  · exact .inl ⟨id, conn, x, (set_value_other (Ne.symm same)).trans held, state, rfl⟩

theorem keeps_loadable {e : Option (Entity Value)} {n : Nat} {config : Config}
    (h : Write app d c k (c.value k) (e.map (·.data))) (active : c.Active ws)
    (loadable : c.Loadable ws app id n config) : (c.set k e).Loadable ws app id n config := by
  obtain ⟨positive, ⟨createdAt, row⟩, blob⟩ := loadable
  exact ⟨positive, ⟨createdAt, h.keeps_revision active row⟩, blob⟩

end Write

theorem Published.step (published : Published app c) (step : Step (Write app d) c c') : Published app c' := by
  cases step with
  | uuid fresh => exact ⟨published.profiles, published.gateways⟩
  | @blob path yaml fresh =>
    refine ⟨fun ws id r n active held current => ?_, published.gateways⟩
    obtain ⟨config, ⟨positive, row, yaml', ⟨path', valid, stored⟩, managed⟩, names⟩ :=
      published.profiles ws id r n active held current
    have kept : (c.putBlob path yaml).blobs path' = some yaml' := by
      have different : path' ≠ path := by
        rintro rfl
        rw [fresh] at stored
        cases stored
      exact (Function.update_of_ne different ..).trans stored
    exact ⟨config, ⟨positive, row, yaml', ⟨path', valid, kept⟩, managed⟩, names⟩
  | @row k e h =>
    have profiles : ∀ ws id r n, c.Active ws → c.Profile ws id r → r.profile.currentRevision = some n →
        ∃ config, (c.set k e).Loadable ws app id n config ∧
          ∀ name ∈ config.relayNames, (c.set k e).ReadyName ws name := by
      intro ws id r n active held current
      obtain ⟨config, loadable, names⟩ := published.profiles ws id r n active held current
      refine ⟨config, h.keeps_loadable active loadable, fun name named => ?_⟩
      rcases h.keeps_readyName (names name named) with kept | free
      · exact kept
      · exact absurd (loadable.inUse held current named) free
    constructor
    · intro ws id r n active held current
      by_cases same : k = ⟨.profiles, ws, id⟩
      · subst same
        have active' : c.Active ws := (set_inState (by simp)).mp active
        rw [Profile, set_value_self] at held
        have write := h
        rw [held] at write
        generalize before : c.value ⟨.profiles, ws, id⟩ = old at write
        cases write with
        | system write => cases write
        | insertProfile r ready draft => rw [draft] at current; cases current
        | reserve => exact profiles ws id _ n active' before current
        | publish ready loadable names =>
          cases current
          refine ⟨_, h.keeps_loadable active' loadable, fun name named => ?_⟩
          obtain ⟨other, conn, x, row, state, same⟩ := names name named
          exact ⟨other, conn, x, (set_value_other (by simp)).trans row, state, same⟩
      · have held' : c.Profile ws id r := (set_value_other (Ne.symm same)).symm.trans held
        rcases h.active_before active with active' | unused
        · exact profiles ws id r n active' held' current
        · exact absurd (unused _ rfl) (rows_of_value held')
    · intro ws gateway g active held live
      have assigned : c.Active ws → (∃ r n, c.Profile ws g.gateway.profileId r ∧ r.profile.currentRevision = some n) →
          (c.Gateway ws gateway g ∨ k = ⟨.gateways, ws, gateway⟩) →
          ∃ r n, (c.set k e).Profile ws g.gateway.profileId r ∧ r.profile.currentRevision = some n := by
        rintro active' ⟨r, n, row, current⟩ origin
        generalize assignment : g.gateway.profileId = id at row ⊢
        by_cases same : k = ⟨.profiles, ws, id⟩
        · have held' : c.Gateway ws gateway g := origin.resolve_right (by rw [same]; simp)
          subst same
          rw [row] at h
          generalize written : e.map (·.data) = new at h
          have found := fun r' (same : new = some (.profile r')) =>
            (set_value_self (c := c) (k := ⟨.profiles, ws, id⟩) (e := e)).trans (written.trans same)
          cases h with
          | system h =>
            cases h with
            | cleanup member deleting => exact absurd active' deleting.not_active
          | reserve => exact ⟨_, n, found _ rfl, current⟩
          | publish => exact ⟨_, _, found _ rfl, rfl⟩
          | deleteProfile ready idle =>
            have revoked := idle gateway g held' assignment
            rw [live] at revoked
            cases revoked
        · exact ⟨r, n, (set_value_other (Ne.symm same)).trans row, current⟩
      by_cases same : k = ⟨.gateways, ws, gateway⟩
      · have active' : c.Active ws := (set_inState (by simp [same])).mp active
        refine assigned active' ?_ (.inr same)
        subst same
        rw [Gateway, set_value_self] at held
        rw [held] at h
        generalize before : c.value ⟨.gateways, ws, gateway⟩ = old at h
        cases h with
        | system h => cases h
        | insertGateway g ready published => exact published
        | @updateGateway _ _ g₀ _ sameId sameProfile sameHash final =>
          have live' : g₀.gateway.revoked = false := by
            by_contra revoked
            rw [final (by simpa using revoked)] at live
            cases live
          rw [sameProfile]
          exact published.gateways ws gateway g₀ active' before live'
      · have held' : c.Gateway ws gateway g := (set_value_other (Ne.symm same)).symm.trans held
        rcases h.active_before active with active' | unused
        · exact assigned active' (published.gateways ws gateway g active' held' live) (.inl held')
        · exact absurd (unused _ rfl) (rows_of_value held')

/-- A workspace whose creation was finished has an administrator until it is deleted. -/
def Administered (c : Ledger) : Prop :=
  ∀ ws r x, c.Workspace ws r x → r.workspace.state ≠ .deleting →
    x.creatorMembershipInitialized = some true → c.HasAdmin ws

namespace Write

theorem keeps_admin {e : Option (Entity Value)} (h : Write app d c k (c.value k) (e.map (·.data)))
    (active : c.Active ws) (admin : c.HasAdmin ws) : (c.set k e).HasAdmin ws := by
  obtain ⟨user, m, held, role⟩ := admin
  by_cases same : k = ⟨.members, ws, user⟩
  · subst same
    have elsewhere : c.OtherAdmin ws user → (c.set ⟨.members, ws, user⟩ e).HasAdmin ws := by
      rintro ⟨other, m', different, held', role'⟩
      exact ⟨other, m', (set_value_other (by simp [different])).trans held', role'⟩
    rw [held] at h
    generalize written : e.map (·.data) = new at h
    cases h with
    | system h =>
      cases h with
      | cleanup member deleting => exact absurd active deleting.not_active
    | @updateMember _ _ _ next _ guarded =>
      by_cases stays : next = .admin
      · exact ⟨user, { m with role := next }, set_value_self.trans written, stays⟩
      · exact elsewhere (guarded role stays)
    | deleteMember _ guarded => exact elsewhere (guarded role)
  · exact ⟨user, m, (set_value_other (Ne.symm same)).trans held, role⟩

end Write

theorem Administered.step (strict : d.repair) (administered : Administered c)
    (step : Step (Write app d) c c') : Administered c' := by
  cases step with
  | uuid fresh => exact administered
  | blob fresh => exact administered
  | @row k e h =>
    intro ws r x held live initialised
    by_cases same : k = workspaceKey ws
    · have write := h
      subst same
      rw [Workspace, set_value_self] at held
      rw [held] at write
      generalize before : c.value (workspaceKey ws) = old at write
      cases write with
      | system write =>
        cases write with
        | initialise early guarded => exact h.keeps_admin ⟨_, _, before, live⟩ (guarded strict)
        | provision present alive settled =>
          exact h.keeps_admin ⟨_, _, before, present⟩ (administered ws _ _ before present settled)
        | deletionFailed deleting => exact absurd deleting live
      | createWorkspace => cases initialised
      | journal => exact absurd rfl live
    · have held' : c.Workspace ws r x := (set_value_other (Ne.symm same)).symm.trans held
      exact h.keeps_admin ⟨r, x, held', live⟩ (administered ws r x held' live initialised)

/-- The reconciler strands nobody: who it adds is an administrator. -/
theorem Step.unstranded (step : Step (SystemWrite d) c c') (free : ¬ c.Stranded ws) : ¬ c'.Stranded ws := by
  rintro ⟨r, x, held, uninitialised, early, joined, alone⟩
  cases step with
  | uuid fresh => exact free ⟨r, x, held, uninitialised, early, joined, alone⟩
  | blob fresh => exact free ⟨r, x, held, uninitialised, early, joined, alone⟩
  | @row k e h =>
    by_cases key : k = workspaceKey ws
    · subst key
      rw [Workspace, set_value_self] at held
      rw [held] at h
      generalize c.value (workspaceKey ws) = old at h
      cases h with
      | initialise => exact uninitialised rfl
      | provision live alive initialised kept => exact uninitialised kept
      | deletionFailed deleting => rcases early with early | early <;> cases deleting.symm.trans early
    · have held' : c.Workspace ws r x := (set_value_other (Ne.symm key)).symm.trans held
      by_cases member : ∃ user, k = ⟨.members, ws, user⟩
      · obtain ⟨user, rfl⟩ := member
        generalize written : e.map (·.data) = new at h
        generalize c.value ⟨.members, ws, user⟩ = old at h
        cases h with
        | insertMember m active creator admin =>
          exact alone ⟨toString m.user.id, m, set_value_self.trans written, admin⟩
        | cleanup _ deleting =>
          refine deleting.not_active ⟨r, x, held', ?_⟩
          rcases early with early | early <;> rw [early] <;> nofun
      · have other : ∀ user, (⟨.members, ws, user⟩ : Key) ≠ k := fun user same => member ⟨user, same.symm⟩
        refine free ⟨r, x, held', uninitialised, early, ?_, ?_⟩
        · rwa [Ledger.Joined, set_rows_other (other _)] at joined
        · rintro ⟨user, m, row, role⟩
          exact alone ⟨user, m, (set_value_other (other user)).trans row, role⟩

/-- Every row of a workspace has its workspace, and a workspace that is being deleted has journaled
the users that may have an index row. -/
structure Accounted (c : Ledger) : Prop where
  exist : ∀ k ws, k.workspace? = some ws → c.rows k ≠ none → c.Present ws
  journal : ∀ ws r x, c.Workspace ws r x → r.workspace.state = .deleting →
    ∀ user, c.Indexed ws user → user ∈ x.cleanupUserIds.getD []

theorem Valid.workspaceKey_of_row (valid : c.Valid) (table : k.table = .workspaces) (present : c.rows k ≠ none) :
    k = workspaceKey k.row := by
  obtain ⟨e, held⟩ := Option.ne_none_iff_exists'.mp present
  have typed := valid.typed k e.data (by simp [value, held])
  cases k
  cases table
  cases typed.1
  rfl

theorem Accounted.step (strict : d.journal) (valid : c.Valid) (accounted : Accounted c)
    (step : Step (Write app d) c c') : Accounted c' := by
  cases step with
  | uuid fresh => exact ⟨accounted.exist, accounted.journal⟩
  | blob fresh => exact ⟨accounted.exist, accounted.journal⟩
  | @row k e h =>
    constructor
    · intro k' ws belongs present
      have known : c.Present ws ∨ k = workspaceKey ws ∧ e ≠ none := by
        by_cases same : k' = k
        · subst same
          rw [set_rows_self] at present
          by_cases inserted : c.rows k' = none
          · rcases h.known belongs (by simp [value, inserted]) with known | ⟨key, -⟩
            · exact .inl known
            · exact .inr ⟨key, present⟩
          · exact .inl (accounted.exist k' ws belongs inserted)
        · rw [set_rows_other same] at present
          exact .inl (accounted.exist k' ws belongs present)
      by_cases key : k = workspaceKey ws
      · subst key
        rw [Present, set_rows_self]
        rcases known with known | ⟨-, kept⟩
        · intro gone
          subst gone
          have different : k' ≠ workspaceKey ws := by
            rintro rfl
            exact present set_rows_self
          rw [set_rows_other different] at present
          generalize before : c.value (workspaceKey ws) = old at h
          cases h with
          | system h =>
            cases h with
            | removeWorkspace deleting empty journaled =>
              by_cases index : k'.table = .userWorkspaces
              · have row : k' = ⟨.userWorkspaces, k'.partition, ws⟩ := by
                  cases k'
                  simp_all [Key.workspace?]
                rw [row] at present
                exact journaled _ (accounted.journal ws _ _ before deleting _ present) present
              · refine present (empty k' belongs (fun table => different ?_) index)
                have key := valid.workspaceKey_of_row table present
                simp only [Key.workspace?, table, Option.some.injEq] at belongs
                rwa [belongs] at key
            | cleanup member => simp [cleaned] at member
        · exact kept
      · rcases known with known | ⟨impossible, -⟩
        · rw [Present, set_rows_other (Ne.symm key)]
          exact known
        · exact absurd impossible key
    · intro ws r x held deleting user indexed
      by_cases key : k = workspaceKey ws
      · subst key
        have indexed' : c.Indexed ws user := by rwa [Indexed, set_rows_other (by simp)] at indexed
        rw [Workspace, set_value_self] at held
        rw [held] at h
        generalize before : c.value (workspaceKey ws) = old at h
        cases h with
        | system h =>
          cases h with
          | initialise early => rcases early with early | early <;> rw [early] at deleting <;> cases deleting
          | provision live alive => exact absurd deleting alive
          | deletionFailed deleting' => exact accounted.journal ws _ _ before deleting' user indexed'
        | createWorkspace r pending => rw [pending] at deleting; cases deleting
        | journal live empty members guarded =>
          refine members user ?_
          by_contra alone
          exact guarded strict ⟨user, indexed', alone⟩
      · have held' : c.Workspace ws r x := (set_value_other (Ne.symm key)).symm.trans held
        refine accounted.journal ws r x held' deleting user ?_
        by_cases index : k = ⟨.userWorkspaces, user, ws⟩
        · subst index
          by_contra absent
          have inserted : c.value ⟨.userWorkspaces, user, ws⟩ = none := by
            simpa [value, Indexed] using absent
          rw [inserted] at h
          generalize written : e.map (·.data) = new at h
          cases h with
          | system h =>
            cases h with
            | insertIndex active => exact Deleting.not_active ⟨r, x, held', deleting⟩ active
        · rwa [Indexed, set_rows_other (Ne.symm index)] at indexed

/-! ### Indexes -/

/-- Unless the workspace is being deleted, its creation is finished and all its members have index rows. -/
def Settled (c : Ledger) (ws : String) : Prop :=
  c.Active ws → (∀ user, ¬ c.Unfinished ws user) ∧ ∀ user, c.Joined ws user → c.Indexed ws user

/-- A write keeps a settled workspace settled if it adds no member and takes no index row from one. -/
theorem Settled.of_write {e : Option (Entity Value)} (settled : c.Settled ws)
    (row : k = workspaceKey ws → (c.set k e).Active ws → c.Active ws ∧ ∀ user, ¬ (c.set k e).Unfinished ws user)
    (member : ∀ user, k = ⟨.members, ws, user⟩ → e ≠ none → c.Joined ws user ∨ c.Unfinished ws user)
    (index : ∀ user, k = ⟨.userWorkspaces, user, ws⟩ → e = none → c.Joined ws user → c.Deleting ws) :
    (c.set k e).Settled ws := by
  intro active
  by_cases own : k = workspaceKey ws
  · obtain ⟨before, finished⟩ := row own active
    refine ⟨finished, fun user joined => ?_⟩
    subst own
    rw [Joined, set_rows_other (by nofun)] at joined
    rw [Indexed, set_rows_other (by nofun)]
    exact (settled before).2 user joined
  · have before : c.Active ws := (set_inState own).mp active
    obtain ⟨finished, indexed⟩ := settled before
    refine ⟨?_, fun user joined => ?_⟩
    · rintro user ⟨r, x, held, rest⟩
      exact finished user ⟨r, x, (set_value_other (Ne.symm own)).symm.trans held, rest⟩
    · have joined' : c.Joined ws user := by
        by_cases same : k = ⟨.members, ws, user⟩
        · have written : e ≠ none := by
            rintro rfl
            rw [Joined, same, set_rows_self] at joined
            exact joined rfl
          exact (member user same written).resolve_right (finished user)
        · rwa [Joined, set_rows_other (Ne.symm same)] at joined
      by_cases same : k = ⟨.userWorkspaces, user, ws⟩
      · rw [Indexed, same, set_rows_self]
        intro removed
        exact (index user same removed joined').not_active before
      · rw [Indexed, set_rows_other (Ne.symm same)]
        exact indexed user joined'

theorem Workspace.finished {r : WorkspaceRecord} {x : Extra} (held : c.Workspace ws r x)
    (initialised : x.creatorMembershipInitialized = some true) (user : String) : ¬ c.Unfinished ws user := by
  rintro ⟨r', x', held', -, uninitialised, -⟩
  obtain ⟨-, rfl⟩ := held.unique held'
  exact uninitialised initialised

namespace SystemWrite

/-- A workspace that is active after a write of its row was active before, and its creation is finished. -/
theorem row_active {e : Option (Entity Value)}
    (h : SystemWrite d c (workspaceKey ws) (c.value (workspaceKey ws)) (e.map (·.data)))
    (active : (c.set (workspaceKey ws) e).Active ws) :
    c.Active ws ∧ ∀ user, ¬ (c.set (workspaceKey ws) e).Unfinished ws user := by
  obtain ⟨r, x, held, live⟩ := active
  have written := held
  rw [Workspace, set_value_self] at written
  rw [written] at h
  generalize before : c.value (workspaceKey ws) = old at h
  cases h with
  | initialise => exact ⟨⟨_, _, before, live⟩, held.finished rfl⟩
  | provision present alive initialised kept => exact ⟨⟨_, _, before, present⟩, held.finished kept⟩
  | deletionFailed deleting => exact absurd deleting live

theorem active_before {e : Option (Entity Value)} (h : SystemWrite d c k (c.value k) (e.map (·.data)))
    (active : (c.set k e).Active ws) : c.Active ws := by
  by_cases own : k = workspaceKey ws
  · subst own
    exact (h.row_active active).1
  · exact (set_inState own).mp active

theorem member_added {e : Option (Entity Value)}
    (h : SystemWrite d c ⟨.members, ws, user⟩ (c.value ⟨.members, ws, user⟩) (e.map (·.data))) (written : e ≠ none) :
    c.Joined ws user ∨ c.Unfinished ws user := by
  obtain ⟨entity, rfl⟩ := Option.ne_none_iff_exists'.mp written
  rw [Option.map_some] at h
  generalize c.value ⟨.members, ws, user⟩ = old at h
  generalize entity.data = value at h
  cases h with
  | insertMember m active creator => exact .inr creator

theorem index_removed (h : SystemWrite d c ⟨.userWorkspaces, user, ws⟩ (c.value ⟨.userWorkspaces, user, ws⟩) none)
    (joined : c.Joined ws user) : c.Deleting ws := by
  generalize c.value ⟨.userWorkspaces, user, ws⟩ = old at h
  cases h with
  | removeIndex unneeded => exact unneeded joined
  | cleanup member => simp [cleaned] at member

theorem settled {e : Option (Entity Value)} (h : SystemWrite d c k (c.value k) (e.map (·.data))) (settled : c.Settled ws) :
    (c.set k e).Settled ws := by
  refine settled.of_write ?_ ?_ ?_
  · rintro rfl
    exact h.row_active
  · rintro user rfl
    exact h.member_added
  · rintro user rfl rfl
    exact h.index_removed

end SystemWrite

theorem Step.settled (step : Step (SystemWrite d) c c') (settled : c.Settled ws) : c'.Settled ws := by
  cases step with
  | uuid fresh => exact settled
  | blob fresh => exact settled
  | row h => exact h.settled settled

theorem Step.active_before (step : Step (SystemWrite d) c c') (active : c'.Active ws) : c.Active ws := by
  cases step with
  | uuid fresh => exact active
  | blob fresh => exact active
  | row h => exact h.active_before active

/-- Nobody but an operation that adds members, or creates the workspace again, unsettles it. -/
theorem Settled.step (settled : c.Settled ws) (others : ¬ d.joins ws) (taken : d.taken ws) (step : Step (Write app d) c c') :
    c'.Settled ws := by
  cases step with
  | uuid fresh => exact settled
  | blob fresh => exact settled
  | @row k e h =>
    refine settled.of_write ?_ ?_ ?_
    · rintro rfl ⟨r, x, held, live⟩
      have active : (c.set (workspaceKey ws) e).Active ws := ⟨r, x, held, live⟩
      rw [Workspace, set_value_self] at held
      generalize before : c.value (workspaceKey ws) = old at h
      rw [held] at h
      cases h with
      | system h =>
        rw [← before, ← held] at h
        exact h.row_active active
      | createWorkspace r pending drawn untaken => exact absurd taken untaken
      | journal => exact absurd rfl live
    · rintro user rfl written
      obtain ⟨entity, rfl⟩ := Option.ne_none_iff_exists'.mp written
      generalize before : c.value ⟨.members, ws, user⟩ = old at h
      rw [Option.map_some] at h
      generalize data : entity.data = value at h
      cases h with
      | system h => exact SystemWrite.member_added (e := some entity) (by rw [before, Option.map_some, data]; exact h) written
      | insertMember m active joins => exact absurd joins others
      | updateMember => exact .inl (rows_of_value before)
    · rintro user rfl rfl joined
      generalize before : c.value ⟨.userWorkspaces, user, ws⟩ = old at h
      cases h with
      | system h => exact SystemWrite.index_removed (by rw [before]; exact h) joined

/-- The credential was minted, for identifiers that were drawn before, and the gateway's row, while
there is one, holds its digest. -/
structure Issued (app : App) (c : Ledger) (credential : Gateways.Credential) : Prop where
  minted : ∃ secret, base64UrlSize secret = some 32 ∧
    credential.text = credentialText credential.workspace credential.gateway secret
  workspace : c.Drawn credential.workspace
  gateway : c.Drawn credential.gateway
  hash : ∀ g, c.Gateway credential.workspace credential.gateway g → g.credentialHash = app.digest credential.text

/-- Rows keep the digest that they were inserted with. -/
theorem Write.credentialHash {g : GatewayRecord} (h : Write app d c ⟨.gateways, ws, id⟩ old (some (.gateway g))) :
    (∃ g', old = some (.gateway g') ∧ g.credentialHash = g'.credentialHash) ∨
      old = none ∧ g.gateway.id = id ∧ d.mints ∧ ¬ d.taken id ∧
        ∃ secret, base64UrlSize secret = some 32 ∧ g.credentialHash = app.digest (credentialText ws id secret) := by
  cases h with
  | system h => cases h
  | insertGateway g ready published mints untaken minted => exact .inr ⟨rfl, rfl, mints, untaken, minted⟩
  | updateGateway sameId sameProfile sameHash final => exact .inl ⟨_, rfl, sameHash⟩

theorem Issued.step {credential : Gateways.Credential} (issued : Issued app c credential)
    (taken : d.taken credential.gateway) (step : Step (Write app d) c c') : Issued app c' credential := by
  refine ⟨issued.minted, issued.workspace.step step, issued.gateway.step step, ?_⟩
  cases step with
  | blob fresh => exact issued.hash
  | uuid fresh => exact issued.hash
  | @row k e h =>
    intro g held
    by_cases key : k = ⟨.gateways, credential.workspace, credential.gateway⟩
    · subst key
      rw [Gateway, set_value_self] at held
      rw [held] at h
      rcases h.credentialHash with ⟨g', before, same⟩ | ⟨-, -, -, untaken, -⟩
      · exact same.trans (issued.hash g' before)
      · exact absurd taken untaken
    · exact issued.hash g ((set_value_other (Ne.symm key)).symm.trans held)

end Azbridge.Broker.Ledger
