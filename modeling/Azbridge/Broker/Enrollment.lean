import Azbridge.Broker.Reports

/-!
# Enrollment by identifier

A workspace or a profile is looked up by its identifier and by its name at once, and a name may look
like an identifier. So an identifier is enough exactly where nothing else is called by it.
-/

namespace Azbridge.Broker
open Ledger Interleaving Gateways

variable {app : App} {w : World} {ws id : String}

def resolve (request : EnrollmentStartRequest) : Handler (Workspace × Profile) := do
  let workspace ← single (← workspacesNamed request.workspace (← list .workspaces platformPartition))
  let profile ← single (← profilesNamed request.profile (← list .profiles workspace.id))
  return (workspace, profile)

def beginEnrollment (app : App) (request : EnrollmentStartRequest) (workspace : Workspace) (profile : Profile) :
    Handler EnrollmentStartResponse := do
  let _ ← Profiles.publishedConfig app workspace.id profile.id
  let device ← beginDevice app
  let timestamp ← now
  let id ← Program.request (Request.random 16)
  let encrypted ← sealText app (.text device.deviceCode)
  let record : EnrollmentRecord :=
    ⟨workspace.id, profile.id, request.gatewayName, encrypted, timestamp + device.expiresIn,
      timestamp + device.interval, device.interval⟩
  let _ ← insert .enrollments platformPartition id (encode record)
  return ⟨id, device.userCode, device.verificationUri, device.interval, device.expiresIn⟩

theorem startEnrollment_eq (app : App) (request : EnrollmentStartRequest) :
    startEnrollment app (some request) = (do
      Program.request (Request.rateLimit "enrollment.start" 30 60)
      validName request.gatewayName
      let (workspace, profile) ← resolve request
      beginEnrollment app request workspace profile) := by
  simp only [startEnrollment, resolve, Program.bind_assoc]
  rfl

def keptOf {R α : Type} [Record R] (part : R → α) (keep : α → Prop) [DecidablePred keep] : List (Entity Value) → Handler (List α)
  | [] => return []
  | entity :: rest => do
    let record : R ← decode entity.data
    let others ← keptOf part keep rest
    return if keep (part record) then part record :: others else others

theorem workspacesNamed_eq (name : String) (entities : List (Entity Value)) :
    workspacesNamed name entities = keptOf WorkspaceRecord.workspace (fun x => x.id = name ∨ x.name = name) entities := by
  induction entities with
  | nil => rfl
  | cons entity rest ih => simp only [workspacesNamed, keptOf, ih]

theorem profilesNamed_eq (name : String) (entities : List (Entity Value)) :
    profilesNamed name entities = keptOf ProfileRecord.profile (fun x => x.id = name ∨ x.name = name) entities := by
  induction entities with
  | nil => rfl
  | cons entity rest ih => simp only [profilesNamed, keptOf, ih]

theorem Yields.bind_iff {α β : Type} {p : Handler α} {f : α → Handler β} {a : α} {b : β} (first : Yields w p a) :
    Yields w (p >>= f) b ↔ Yields w (f a) b := by
  unfold Yields
  rw [Program.exec_bind first]

/-- Where every row has a record under its own identifier, those that are kept have distinct ones. -/
theorem yields_keptOf {R α : Type} [Record R] {part : R → α} {keep : α → Prop} [DecidablePred keep] (key : α → String)
    {entities : List (Entity Value)}
    (each : ∀ e ∈ entities, ∃ r : R, Record.decode e.data = some r ∧ key (part r) = e.rowKey) :
    ∃ found, Yields w (keptOf part keep entities) found ∧ (found.map key).Sublist (entities.map (·.rowKey)) ∧
      ∀ x, x ∈ found ↔ ∃ e ∈ entities, ∃ r : R, Record.decode e.data = some r ∧ part r = x ∧ keep x := by
  induction entities with
  | nil => exact ⟨[], Yields.pure, .slnil, by simp⟩
  | cons e rest ih =>
    obtain ⟨found, yields, sublist, members⟩ := ih fun e member => each e (.tail _ member)
    obtain ⟨r, decoded, row⟩ := each e (.head _)
    have runs : Yields w (keptOf part keep (e :: rest)) (if keep (part r) then part r :: found else found) :=
      (Yields.decode decoded).bind (yields.bind Yields.pure)
    have unique : ∀ r' : R, Record.decode e.data = some r' → r' = r := fun r' same =>
      Option.some.inj (same.symm.trans decoded)
    by_cases kept : keep (part r)
    · rw [if_pos kept] at runs
      refine ⟨_, runs, ?_, ?_⟩
      · rw [List.map_cons, List.map_cons, row]
        exact sublist.cons_cons _
      · intro x
        rw [List.mem_cons, members]
        constructor
        · rintro (rfl | ⟨e', member, found⟩)
          · exact ⟨e, .head _, r, decoded, rfl, kept⟩
          · exact ⟨e', .tail _ member, found⟩
        · rintro ⟨e', member, r', decoded', same, keeps⟩
          rcases List.mem_cons.mp member with rfl | later
          · obtain rfl := unique r' decoded'
            exact .inl same.symm
          · exact .inr ⟨e', later, r', decoded', same, keeps⟩
    · rw [if_neg kept] at runs
      refine ⟨_, runs, ?_, ?_⟩
      · rw [List.map_cons]
        exact sublist.cons _
      · intro x
        rw [members]
        constructor
        · rintro ⟨e', member, found⟩
          exact ⟨e', .tail _ member, found⟩
        · rintro ⟨e', member, r', decoded', same, keeps⟩
          rcases List.mem_cons.mp member with rfl | later
          · obtain rfl := unique r' decoded'
            exact absurd (same ▸ keeps) kept
          · exact ⟨e', later, r', decoded', same, keeps⟩

/-- An element is the only one if no other has another key. -/
theorem eq_singleton_iff {α : Type} {key : α → String} {found : List α} {a : α} (distinct : (found.map key).Nodup)
    (member : a ∈ found) : found = [a] ↔ ∀ x ∈ found, key x = key a := by
  constructor
  · rintro rfl x inside
    rw [List.mem_singleton.mp inside]
  · intro same
    cases found with
    | nil => cases member
    | cons b rest =>
      have alone : rest = [] := by
        cases rest with
        | nil => rfl
        | cons c rest =>
          have first := same b (by simp)
          have second := same c (by simp)
          simp [first, second] at distinct
      subst alone
      rw [List.mem_singleton.mp member]

theorem single_of_mem {α : Type} {found : List α} {a : α} (member : a ∈ found) (others : found ≠ [a]) :
    single found = throw .badRequest := by
  match found with
  | [] => cases member
  | [b] =>
    rw [List.mem_singleton.mp member] at others
    exact absurd rfl others
  | _ :: _ :: _ => rfl

/-- Looking one of the records up succeeds with it exactly if nothing else is kept, and is refused otherwise. -/
theorem yields_single {R α β : Type} [Record R] {part : R → α} {keep : α → Prop} [DecidablePred keep] {key : α → String}
    {t : Table} {partition row : String} {entity : Entity Value} {r : R} {f : α → Handler β} {b : β}
    (typed : ∀ e, w.store.lookup ⟨t, partition, e.rowKey⟩ = some e → ∃ r : R, Record.decode e.data = some r ∧ key (part r) = e.rowKey)
    (held : w.store.lookup ⟨t, partition, row⟩ = some entity) (decoded : Record.decode entity.data = some r)
    (kept : keep (part r)) :
    Yields w (list t partition >>= fun entities => keptOf part keep entities >>= fun found => single found >>= f) b ↔
      (∀ e r', w.store.lookup ⟨t, partition, e.rowKey⟩ = some e → Record.decode e.data = some r' → keep (part r') →
        e.rowKey = row) ∧ Yields w (f (part r)) b := by
  obtain ⟨samePartition, sameRow⟩ := w.store.keyed _ entity held
  obtain ⟨entities, listed⟩ : ∃ entities, w.store.list t partition = .ok entities :=
    MemoryMetadata.list_of_valid (w.store.valid _ entity held).1
  have listing := MemoryMetadata.list_ok listed
  obtain ⟨found, yields, sublist, members⟩ := @yields_keptOf w R _ _ part keep _ key entities fun e member =>
    typed e ((listing.mem e).mp member).2
  have distinct : (found.map key).Nodup := sublist.nodup listing.nodup
  have member : part r ∈ found := (members _).mpr
    ⟨entity, (listing.mem entity).mpr ⟨samePartition, by rw [sameRow]; exact held⟩, r, decoded, rfl, kept⟩
  have named : ∀ {e r'}, w.store.lookup ⟨t, partition, e.rowKey⟩ = some e → Record.decode e.data = some r' →
      key (part r') = e.rowKey := by
    intro e r' there same
    obtain ⟨r'', decoded', id⟩ := typed e there
    obtain rfl := Option.some.inj (same.symm.trans decoded')
    exact id
  have own : key (part r) = row := (named (by rw [sameRow]; exact held) decoded).trans sameRow
  have alone : found = [part r] ↔ ∀ e r', w.store.lookup ⟨t, partition, e.rowKey⟩ = some e →
      Record.decode e.data = some r' → keep (part r') → e.rowKey = row := by
    rw [eq_singleton_iff distinct member]
    constructor
    · intro same e r' there decoded' keeps
      have inside : part r' ∈ found := (members _).mpr
        ⟨e, (listing.mem e).mpr ⟨(w.store.keyed _ e there).1, there⟩, r', decoded', rfl, keeps⟩
      rw [← named there decoded', same _ inside, own]
    · intro only x inside
      obtain ⟨e, member', r', decoded', rfl, keeps⟩ := (members x).mp inside
      have there := ((listing.mem e).mp member').2
      rw [named there decoded', own]
      exact only e r' there decoded' keeps
  rw [← alone, Yields.bind_iff (Yields.list listed), Yields.bind_iff yields]
  by_cases one : found = [part r]
  · rw [one]
    have first : Yields w (single [part r]) (part r) := Yields.pure
    rw [Yields.bind_iff first]
    simp
  · rw [single_of_mem member one]
    constructor
    · intro impossible
      cases impossible
    · rintro ⟨same, -⟩
      exact absurd same one

/-- A workspace and a profile of it are found by their identifiers exactly where no other workspace,
and no other profile of the workspace, is called by them. -/
theorem yields_resolve_iff (sane : Sane w) {r : WorkspaceRecord} {x : Extra} {record : ProfileRecord}
    (workspace : w.ledger.Workspace ws r x) (profile : w.ledger.Profile ws id record) (name : String) :
    Yields w (resolve ⟨ws, id, name⟩) (r.workspace, record.profile) ↔
      (∀ ws' r' x', w.ledger.Workspace ws' r' x' → r'.workspace.name = ws → ws' = ws) ∧
        ∀ id' record', w.ledger.Profile ws id' record' → record'.profile.name = id → id' = id := by
  obtain ⟨-, r₁, x₁, same, own, -⟩ := sane.valid.typed _ _ workspace
  cases same
  obtain ⟨record₁, same, row, -⟩ := sane.valid.typed _ _ profile
  cases same
  obtain ⟨e, found, data, -⟩ := World.entity workspace
  obtain ⟨e', found', data', -⟩ := World.entity profile
  have workspaces : ∀ e, w.store.lookup ⟨.workspaces, platformPartition, e.rowKey⟩ = some e →
      ∃ r x, e.data = .workspace r x ∧ w.ledger.Workspace e.rowKey r x ∧ r.workspace.id = e.rowKey := by
    intro e there
    have value : w.ledger.value (workspaceKey e.rowKey) = some e.data := by simp [Ledger.value, World.ledger, there]
    obtain ⟨-, r, x, same, id, -⟩ := sane.valid.typed _ _ value
    exact ⟨r, x, same, by rw [Ledger.Workspace, value, same], id⟩
  have profiles : ∀ e, w.store.lookup ⟨.profiles, ws, e.rowKey⟩ = some e →
      ∃ record, e.data = .profile record ∧ w.ledger.Profile ws e.rowKey record ∧ record.profile.id = e.rowKey := by
    intro e there
    have value : w.ledger.value ⟨.profiles, ws, e.rowKey⟩ = some e.data := by simp [Ledger.value, World.ledger, there]
    obtain ⟨record, same, id, -⟩ := sane.valid.typed _ _ value
    exact ⟨record, same, by rw [Ledger.Profile, value, same], id⟩
  have shape : resolve ⟨ws, id, name⟩ = list .workspaces platformPartition >>= fun entities =>
      keptOf WorkspaceRecord.workspace (fun x => x.id = ws ∨ x.name = ws) entities >>= fun kept => single kept >>= fun workspace =>
        list .profiles workspace.id >>= fun entities =>
          keptOf ProfileRecord.profile (fun x => x.id = id ∨ x.name = id) entities >>= fun kept => single kept >>= fun profile =>
            pure (workspace, profile) := by
    simp only [resolve, workspacesNamed_eq, profilesNamed_eq]
  have first : ∀ e, w.store.lookup ⟨.workspaces, platformPartition, e.rowKey⟩ = some e →
      ∃ r : WorkspaceRecord, Record.decode e.data = some r ∧ r.workspace.id = e.rowKey := by
    intro e there
    obtain ⟨r, x, same, -, id⟩ := workspaces e there
    exact ⟨r, by rw [same]; rfl, id⟩
  have second : ∀ e, w.store.lookup ⟨.profiles, ws, e.rowKey⟩ = some e →
      ∃ r : ProfileRecord, Record.decode e.data = some r ∧ r.profile.id = e.rowKey := by
    intro e there
    obtain ⟨r, same, -, id⟩ := profiles e there
    exact ⟨r, by rw [same]; rfl, id⟩
  rw [shape, yields_single first found (by rw [data]; rfl) (.inl own), show r.workspace.id = ws from own,
    yields_single second found' (by rw [data']; rfl) (.inl row)]
  constructor
  · rintro ⟨one, only, -⟩
    constructor
    · intro ws' r' x' held' named
      obtain ⟨e₁, there, data₁, -, row₁⟩ := World.entity held'
      have same := one e₁ r' (by rw [row₁]; exact there) (by rw [data₁]; rfl) (.inr named)
      exact row₁.symm.trans same
    · intro id' record' held' named
      obtain ⟨e₁, there, data₁, -, row₁⟩ := World.entity held'
      have same := only e₁ record' (by rw [row₁]; exact there) (by rw [data₁]; rfl) (.inr named)
      exact row₁.symm.trans same
  · rintro ⟨one, only⟩
    refine ⟨?_, ?_, Yields.pure⟩
    · intro e₁ r' there decoded keeps
      obtain ⟨r₁, x₁, same, held', own'⟩ := workspaces e₁ there
      rw [same] at decoded
      cases decoded
      rcases keeps with identified | named
      · exact own'.symm.trans identified
      · exact one _ _ _ held' named
    · intro e₁ r' there decoded keeps
      obtain ⟨r₁, same, held', own'⟩ := profiles e₁ there
      rw [same] at decoded
      cases decoded
      rcases keeps with identified | named
      · exact own'.symm.trans identified
      · exact only _ _ held' named

/-- Whatever ran: a workspace and a profile of it are what their identifiers resolve to exactly where nothing
else is called by these. -/
theorem enrollment_resolves_iff {w₀ : World} {p : Pool} (start : w₀.Initial)
    (run : Reaches (serial app fun _ _ => True) (Pool.fresh w₀) p) (name : String) {ws id : String} {r : WorkspaceRecord}
    {x : Extra} {record : ProfileRecord} (workspace : p.world.ledger.Workspace ws r x)
    (profile : p.world.ledger.Profile ws id record) :
    (startEnrollment app (some ⟨ws, id, name⟩) = (do
      Program.request (Request.rateLimit "enrollment.start" 30 60)
      validName name
      let (workspace, profile) ← resolve ⟨ws, id, name⟩
      beginEnrollment app ⟨ws, id, name⟩ workspace profile)) ∧
    (Yields p.world (resolve ⟨ws, id, name⟩) (r.workspace, record.profile) ↔
      (∀ ws' r' x', p.world.ledger.Workspace ws' r' x' → r'.workspace.name = ws → ws' = ws) ∧
        ∀ id' record', p.world.ledger.Profile ws id' record' → record'.profile.name = id → id' = id) := by
  have sane := (serial_holds (d := .none) start nofun nofun (fun _ used => used) run).invariant.sane
  exact ⟨startEnrollment_eq app _, yields_resolve_iff sane workspace profile name⟩

/-- Nothing else is called by the identifiers of the local workspace and its profile. -/
theorem enrollment_resolves_local : ∃ p, Reaches (serial localApp fun _ _ => True) (Pool.fresh World.empty) p ∧
    (Yields p.world (resolve ⟨localWorkspace, localProfile, "g"⟩) (localRecord.workspace, ⟨localProfile, "p", some 1⟩) ↔
      (∀ ws' r' x', p.world.ledger.Workspace ws' r' x' → r'.workspace.name = localWorkspace → ws' = localWorkspace) ∧
        ∀ id' record', p.world.ledger.Profile localWorkspace id' record' → record'.profile.name = localProfile →
          id' = localProfile) := by
  obtain ⟨p, next, run, -, profile, workspace⟩ := localScript_runs
  exact ⟨p, run, (enrollment_resolves_iff World.empty_initial run "g" workspace profile).2⟩

/-- The second workspace is called by the identifier of the first. -/
def shadowed : Handler Outcome → World → Bool
  | .done (.ok .done), w =>
    w.ledger.value ⟨.profiles, localWorkspace, localProfile⟩ == some (.profile ⟨⟨localProfile, "p", some 1⟩, 2⟩) &&
      w.ledger.value (workspaceKey localWorkspace) == some (.workspace localRecord localExtra) &&
      match w.ledger.value (workspaceKey localGateway) with
      | some (.workspace r _) => r.workspace.name == localWorkspace
      | _ => false
  | _, _ => false

def shadowing : Scripted localApp fun _ _ => True where
  tape := longTape
  script := localScript.take 5
  op := .createWorkspace (browser 1) ⟨localWorkspace, "eastus"⟩
  requests := 99
  check := shadowed
  start := rfl
  admitted _ _ _ := trivial
  holds := (Tape.checks_eq ..).trans (by decide +kernel)

/-- A Ready workspace with a published profile cannot be enrolled in by its identifier any more. -/
theorem shadowed_workspace_is_refused : ¬ ∀ (app : App) (w₀ : World) (p : Pool), w₀.Initial →
    Reaches (serial app fun _ _ => True) (Pool.fresh w₀) p → ∀ ws id name r x record n,
      p.world.ledger.Workspace ws r x → r.workspace.state = .ready → p.world.ledger.Profile ws id record →
        record.profile.currentRevision = some n → Yields p.world (resolve ⟨ws, id, name⟩) (r.workspace, record.profile) := by
  intro claim
  obtain ⟨p, rest, run, held, checked⟩ := shadowing.runs
  have sane := (serial_holds (d := .none) World.empty_initial nofun nofun (fun _ used => used) run).invariant.sane
  dsimp only [shadowing, shadowed] at checked
  split at checked
  · simp only [Bool.and_eq_true, beq_iff_eq] at checked
    obtain ⟨⟨profile, workspace⟩, other⟩ := checked
    split at other
    · next r x second =>
      have resolved := claim localApp World.empty p World.empty_initial run localWorkspace localProfile "g" localRecord localExtra _ 1
        workspace rfl profile rfl
      have same := ((yields_resolve_iff sane workspace profile "g").mp resolved).1 localGateway r x second (beq_iff_eq.mp other)
      revert same
      decide
    · cases other
  · cases checked

end Azbridge.Broker
