import Azbridge.Broker.Publication

/-!
# Listing and authorization

`accessibleWorkspaces` goes through the index rows, `workspaceRole` through the membership rows.
What is listed is always permitted. The reconciler settles each workspace that it visits, and from
then on what is permitted is listed too, as long as nobody adds members.
-/

namespace Azbridge.Broker
open Ledger Interleaving Auth

variable {app : App} {w : World} {user : GitHubUser} {ws : String}

/-! ### What the stores answer -/

/-- The stores are not asked for the user, or accept the key. -/
def Addressable (app : App) (user : GitHubUser) : Prop :=
  app.bootstrapAdminIds.contains user.id = true ∨ validateKey (toString user.id) = .ok ()

def platformAdmin (app : App) (w : World) (user : GitHubUser) : Bool :=
  app.bootstrapAdminIds.contains user.id || (w.store.lookup ⟨.platformAdmins, platformPartition, toString user.id⟩).isSome

theorem World.ledger_rows {k : Key} (table : k.table ≠ .enrollments) : w.ledger.rows k = w.store.lookup k := by
  simp [World.ledger, table]

theorem platformPartition_valid : validateKey platformPartition = .ok () := by decide

theorem get_exec {t : Table} {partition row : String} {found : Option (Entity Value)} {w' : World}
    (h : (Broker.get t partition row).exec serve w = some (.ok found, w')) :
    w' = w ∧ found = w.store.lookup ⟨t, partition, row⟩ := by
  simp only [Broker.get, Program.request, Program.exec, serve, Option.some.injEq, Prod.mk.injEq] at h
  exact ⟨h.2.symm, MemoryMetadata.get_ok h.1⟩

theorem isPlatformAdmin_exec {answer : Bool} {w' : World}
    (h : (isPlatformAdmin app user).exec serve w = some (.ok answer, w')) :
    w' = w ∧ answer = platformAdmin app w user ∧ Addressable app user := by
  unfold isPlatformAdmin at h
  split at h
  · next bootstrap =>
    cases h
    exact ⟨rfl, by simp only [platformAdmin, bootstrap, Bool.true_or], .inl bootstrap⟩
  · next other =>
    obtain ⟨found, w₁, fetched, rest⟩ := Program.exec_bind_ok h
    cases rest
    obtain ⟨rfl, rfl⟩ := get_exec fetched
    refine ⟨rfl, ?_, .inr ?_⟩
    · rw [platformAdmin, Bool.eq_false_iff.mpr other, Bool.false_or]
    · rcases validateKey_cases (toString user.id) with valid | invalid
      · exact valid
      · simp only [Broker.get, Program.request, Program.exec, serve, MemoryMetadata.get, platformPartition_valid, invalid,
          Option.some.injEq, Prod.mk.injEq] at fetched
        cases fetched.1

theorem yields_isPlatformAdmin (known : Addressable app user) :
    Yields w (isPlatformAdmin app user) (platformAdmin app w user) := by
  unfold isPlatformAdmin platformAdmin
  split
  · next bootstrap =>
    rw [bootstrap]
    exact Yields.pure
  · next other =>
    have valid := known.resolve_left other
    rw [Bool.eq_false_iff.mpr other, Bool.false_or]
    exact (Yields.lookup platformPartition_valid valid).bind Yields.pure

/-- A platform administrator, or a member. -/
def Permitted (app : App) (w : World) (user : GitHubUser) (ws : String) : Prop :=
  platformAdmin app w user = true ∨ w.ledger.Joined ws (toString user.id)

theorem permits_reader (role : Role) : role.permits .reader = true := by
  cases role <;> rfl

theorem yields_workspaceRole (valid : w.ledger.Valid) (canonical : Uuid.isText ws = true) (known : Addressable app user)
    (permitted : Permitted app w user ws) : ∃ role, Yields w (workspaceRole app user ws .reader) role := by
  by_cases admin : platformAdmin app w user = true
  · refine ⟨.admin, (Yields.require canonical).bind ((yields_isPlatformAdmin known).bind ?_)⟩
    rw [if_pos admin]
    exact Yields.pure
  · have joined := permitted.resolve_left admin
    obtain ⟨e, found⟩ := Option.ne_none_iff_exists'.mp joined
    have held : w.ledger.value ⟨.members, ws, toString user.id⟩ = some e.data := by
      rw [Ledger.value, found, Option.map_some]
    obtain ⟨m, data, row⟩ := valid.typed _ _ held
    rw [World.ledger_rows (by rintro ⟨⟩)] at found
    have own : m.user.id = user.id := Text.toString_injective row
    refine ⟨m.role, (Yields.require canonical).bind ((yields_isPlatformAdmin known).bind ?_)⟩
    rw [if_neg admin]
    refine (Yields.get found).bind ((Yields.okOr rfl).bind ((Yields.decode (a := m) (by rw [data]; rfl)).bind ?_))
    refine (Yields.require ?_).bind Yields.pure
    simp [own, permits_reader]

theorem permitted_of_yields {role : Role} (h : Yields w (workspaceRole app user ws .reader) role) :
    Addressable app user ∧ Permitted app w user ws := by
  obtain ⟨_, w₁, required, rest⟩ := Program.exec_bind_ok h
  obtain ⟨answer, w₂, asked, rest⟩ := Program.exec_bind_ok rest
  have same : w₁ = w := by
    unfold require at required
    split at required <;> cases required
    rfl
  subst same
  obtain ⟨rfl, rfl, known⟩ := isPlatformAdmin_exec asked
  refine ⟨known, ?_⟩
  split at rest
  · next admin => exact .inl admin
  · obtain ⟨found, w₃, fetched, rest⟩ := Program.exec_bind_ok rest
    obtain ⟨rfl, rfl⟩ := get_exec fetched
    refine .inr ?_
    rw [Ledger.Joined, World.ledger_rows (by rintro ⟨⟩)]
    intro absent
    rw [absent] at rest
    cases rest

/-! ### The listing -/

/-- The rows of the workspaces that the index rows lead to, where there is a membership row. -/
def indexed (w : World) (user : GitHubUser) (entries : List (Entity Value)) : List (Entity Value) :=
  entries.filterMap fun entry =>
    if (w.store.lookup ⟨.members, entry.rowKey, toString user.id⟩).isSome then
      w.store.lookup ⟨.workspaces, platformPartition, entry.rowKey⟩
    else none

theorem yields_indexedWorkspaces {entries : List (Entity Value)} (own : validateKey (toString user.id) = .ok ())
    (rows : ∀ e ∈ entries, validateKey e.rowKey = .ok ()) :
    Yields w (indexedWorkspaces user entries) (indexed w user entries) := by
  induction entries with
  | nil => exact Yields.pure
  | cons entry rest ih =>
    have row := rows entry (.head _)
    have later := ih fun e member => rows e (.tail _ member)
    refine (Yields.lookup row own).bind ?_
    cases member : w.store.lookup ⟨.members, entry.rowKey, toString user.id⟩ with
    | none =>
      simp only [indexed, List.filterMap_cons, member, Option.isSome_none, Bool.false_eq_true, if_false]
      exact later
    | some m =>
      refine (Yields.lookup platformPartition_valid row).bind ?_
      cases held : w.store.lookup ⟨.workspaces, platformPartition, entry.rowKey⟩ with
      | none =>
        simp only [indexed, List.filterMap_cons, member, held, Option.isSome_some, if_true]
        exact later
      | some workspace =>
        simp only [indexed, List.filterMap_cons, member, held, Option.isSome_some, if_true]
        exact later.bind Yields.pure

def Stored (w : World) (e : Entity Value) : Prop := w.store.lookup ⟨.workspaces, platformPartition, e.rowKey⟩ = some e

theorem Stored.record {e : Entity Value} (valid : w.ledger.Valid) (stored : Stored w e) :
    ∃ r x, e.data = .workspace r x ∧ w.ledger.Workspace e.rowKey r x ∧ r.workspace.id = e.rowKey := by
  have held : w.ledger.value (workspaceKey e.rowKey) = some e.data := by
    rw [Ledger.value, World.ledger_rows (by rintro ⟨⟩), workspaceKey, stored, Option.map_some]
  obtain ⟨-, r, x, data, id, -⟩ := valid.typed _ _ held
  exact ⟨r, x, data, held.trans (congrArg some data), id⟩

theorem yields_workspaces {entities : List (Entity Value)} (valid : w.ledger.Valid) (stored : ∀ e ∈ entities, Stored w e) :
    ∃ records : List WorkspaceRecord, Yields w (decodeAll entities) records ∧
      ∀ x, x ∈ records.map (·.workspace) ↔ ∃ r extra, w.ledger.Workspace x.id r extra ∧ r.workspace = x ∧
        x.id ∈ entities.map (·.rowKey) := by
  induction entities with
  | nil => exact ⟨[], Yields.pure, by simp⟩
  | cons e rest ih =>
    obtain ⟨records, decoded, members⟩ := ih fun e member => stored e (.tail _ member)
    obtain ⟨r, x, data, held, id⟩ := (stored e (.head _)).record valid
    refine ⟨r :: records, (Yields.decode (a := r) (by rw [data]; rfl)).bind (decoded.bind Yields.pure), fun y => ?_⟩
    rw [List.map_cons, List.mem_cons, members y, List.map_cons]
    constructor
    · rintro (rfl | ⟨r', x', held', same, member⟩)
      · exact ⟨r, x, id ▸ held, rfl, id ▸ .head _⟩
      · exact ⟨r', x', held', same, .tail _ member⟩
    · rintro ⟨r', x', held', rfl, member⟩
      rcases List.mem_cons.mp member with here | later
      · rw [here] at held'
        obtain ⟨rfl, -⟩ := held.unique held'
        exact .inl rfl
      · exact .inr ⟨r', x', held', rfl, later⟩

/-- The first part of `accessibleWorkspaces`. -/
def accessibleEntities (app : App) (user : GitHubUser) : Handler (List (Entity Value)) := do
  if ← isPlatformAdmin app user then list .workspaces platformPartition
  else indexedWorkspaces user (← list .userWorkspaces (toString user.id))

theorem accessibleWorkspaces_eq : accessibleWorkspaces app user = (do
    let records : List WorkspaceRecord ← decodeAll (← accessibleEntities app user)
    return records.map (·.workspace)) := by
  unfold accessibleWorkspaces accessibleEntities
  rw [Program.bind_assoc]
  congr 1
  funext admin
  cases admin with
  | true => rfl
  | false =>
    simp only [Bool.false_eq_true, if_false]
    rw [Program.bind_assoc]

/-- The rows from which the listing is made. -/
theorem yields_entities (known : Addressable app user) :
    ∃ entities, Yields w (accessibleEntities app user) entities ∧
      (∀ e ∈ entities, Stored w e) ∧ ∀ ws, w.ledger.Present ws → (ws ∈ entities.map (·.rowKey) ↔
        (platformAdmin app w user = true ∨ w.ledger.Joined ws (toString user.id) ∧ w.ledger.Indexed ws (toString user.id))) := by
  by_cases admin : platformAdmin app w user = true
  · obtain ⟨entities, listed⟩ := w.store.list_of_valid (t := .workspaces) platformPartition_valid
    have listing := MemoryMetadata.list_ok listed
    refine ⟨entities, (yields_isPlatformAdmin known).bind ?_, fun e member => ((listing.mem e).mp member).2, fun ws present => ?_⟩
    · rw [if_pos admin]
      exact Yields.list listed
    · obtain ⟨e, held⟩ := Option.ne_none_iff_exists'.mp present
      rw [World.ledger_rows (by rintro ⟨⟩)] at held
      obtain ⟨partition, row⟩ := w.store.keyed _ e held
      have member : e ∈ entities := (listing.mem e).mpr ⟨partition, by rw [row]; exact held⟩
      exact ⟨fun _ => .inl admin, fun _ => List.mem_map.mpr ⟨e, member, row⟩⟩
  · have own : validateKey (toString user.id) = .ok () := by
      refine known.resolve_left fun bootstrap => admin ?_
      rw [platformAdmin, bootstrap, Bool.true_or]
    obtain ⟨entries, listed⟩ := w.store.list_of_valid (t := .userWorkspaces) own
    have listing := MemoryMetadata.list_ok listed
    have rows : ∀ e ∈ entries, validateKey e.rowKey = .ok () := fun e member =>
      (w.store.valid _ e ((listing.mem e).mp member).2).2
    refine ⟨indexed w user entries, (yields_isPlatformAdmin known).bind ?_, fun e member => ?_, fun ws present => ?_⟩
    · rw [if_neg admin]
      exact (Yields.list listed).bind (yields_indexedWorkspaces own rows)
    · obtain ⟨entry, -, leads⟩ := List.mem_filterMap.mp member
      split at leads
      · rw [Stored, (w.store.keyed _ e leads).2]
        exact leads
      · cases leads
    · simp only [admin, Bool.false_eq_true, false_or]
      rw [Ledger.Joined, Indexed, World.ledger_rows (by rintro ⟨⟩), World.ledger_rows (by rintro ⟨⟩)]
      constructor
      · intro member
        obtain ⟨e, leads, rfl⟩ := List.mem_map.mp member
        obtain ⟨entry, listed, leads⟩ := List.mem_filterMap.mp leads
        split at leads
        · next joined =>
          rw [(w.store.keyed _ e leads).2, ((listing.mem entry).mp listed).2]
          exact ⟨Option.isSome_iff_ne_none.mp joined, by simp⟩
        · cases leads
      · rintro ⟨joined, index⟩
        obtain ⟨entry, held⟩ := Option.ne_none_iff_exists'.mp index
        obtain ⟨partition, row⟩ := w.store.keyed _ entry held
        obtain ⟨e, workspace⟩ := Option.ne_none_iff_exists'.mp present
        rw [World.ledger_rows (by rintro ⟨⟩)] at workspace
        refine List.mem_map.mpr ⟨e, List.mem_filterMap.mpr ⟨entry, (listing.mem entry).mpr ⟨partition, by rw [row]; exact held⟩, ?_⟩,
          (w.store.keyed _ e workspace).2⟩
        have member : (w.store.lookup ⟨.members, entry.rowKey, toString user.id⟩).isSome := by
          rw [row]
          exact Option.isSome_iff_ne_none.mpr joined
        rw [if_pos member, row]
        exact workspace

/-- What is listed against stores that answer. -/
theorem yields_accessibleWorkspaces (valid : w.ledger.Valid) (known : Addressable app user) :
    ∃ found, Yields w (accessibleWorkspaces app user) found ∧
      ∀ x, x ∈ found ↔ ∃ r extra, w.ledger.Workspace x.id r extra ∧ r.workspace = x ∧
        (platformAdmin app w user = true ∨
          w.ledger.Joined x.id (toString user.id) ∧ w.ledger.Indexed x.id (toString user.id)) := by
  obtain ⟨entities, read, stored, rows⟩ := yields_entities known
  obtain ⟨records, decoded, members⟩ := yields_workspaces valid stored
  have result : Yields w (accessibleWorkspaces app user) (records.map (·.workspace)) := by
    rw [accessibleWorkspaces_eq]
    exact read.bind (decoded.bind Yields.pure)
  refine ⟨records.map (·.workspace), result, fun x => (members x).trans ?_⟩
  constructor
  · rintro ⟨r, extra, held, same, member⟩
    exact ⟨r, extra, held, same, (rows x.id (rows_of_value held)).mp member⟩
  · rintro ⟨r, extra, held, same, listed⟩
    exact ⟨r, extra, held, same, (rows x.id (rows_of_value held)).mpr listed⟩

/-- Nothing else is ever listed. -/
theorem listed_only {found : List Workspace} (valid : w.ledger.Valid)
    (listed : Yields w (accessibleWorkspaces app user) found) : Addressable app user ∧
      ∀ x ∈ found, w.ledger.Present x.id ∧ (platformAdmin app w user = true ∨
        w.ledger.Joined x.id (toString user.id) ∧ w.ledger.Indexed x.id (toString user.id)) := by
  have known : Addressable app user := by
    obtain ⟨answer, w₁, asked, -⟩ := Program.exec_bind_ok listed
    exact (isPlatformAdmin_exec asked).2.2
  obtain ⟨found', listed', members⟩ := yields_accessibleWorkspaces valid known
  obtain rfl : found = found' := by
    have same := listed.symm.trans listed'
    simpa using same
  refine ⟨known, fun x member => ?_⟩
  obtain ⟨r, extra, held, -, reason⟩ := (members x).mp member
  exact ⟨rows_of_value held, reason⟩

theorem listed_permitted {found : List Workspace} (valid : w.ledger.Valid)
    (listed : Yields w (accessibleWorkspaces app user) found) :
    ∀ x ∈ found, ∃ role, Yields w (workspaceRole app user x.id .reader) role := by
  intro x member
  obtain ⟨known, only⟩ := listed_only valid listed
  obtain ⟨present, reason⟩ := only x member
  have canonical := (valid.drawn (workspaceKey x.id) x.id rfl present).canonical
  exact yields_workspaceRole valid canonical known (reason.imp_right And.left)

theorem permitted_listed {role : Role} (valid : w.ledger.Valid) (settled : w.ledger.Settled ws) (active : w.ledger.Active ws)
    (permitted : Yields w (workspaceRole app user ws .reader) role) :
    ∃ found, Yields w (accessibleWorkspaces app user) found ∧ ∃ x ∈ found, x.id = ws := by
  obtain ⟨known, permitted⟩ := permitted_of_yields permitted
  obtain ⟨found, listed, members⟩ := yields_accessibleWorkspaces valid known
  have indexed := (settled active).2
  obtain ⟨r, extra, held, -⟩ := active
  obtain ⟨-, r', extra', same, id, -⟩ := valid.typed _ _ held
  cases same
  refine ⟨found, listed, r.workspace, (members r.workspace).mpr ⟨r, extra, id ▸ held, rfl, ?_⟩, id⟩
  rw [id]
  exact permitted.imp_right fun joined => ⟨joined, indexed _ joined⟩

/-! ### Settled workspaces -/

/-- The operation is a visit of the reconciler to the workspace, or a pass nobody comes between. -/
def Op.Visits : Op → String → Prop
  | .reconcileWorkspace own, ws => own = ws
  | .reconcileOnce, _ => True
  | _, _ => False

theorem Op.Visits.locked {o : Op} (visits : o.Visits ws) : o.locked = true := by
  cases o with
  | reconcileWorkspace own => rfl
  | reconcileOnce => rfl
  | _ => exact visits.elim

/-- What a visit without error leaves. -/
def Repairs (_ : Nat) (o : Op) (result : Except BrokerError Outcome) (w : World) : Prop :=
  ∀ ws, o.Visits ws → result = .ok .done → w.ledger.Settled ws

theorem ends_repairs (t : Nat) (o : Op) (w : World) :
    (outline app .none fun _ _ => True).Ends Repairs t o (o.program app) w := by
  have starts : (outline app .none fun _ _ => True).Meets t o (o.program app) w :=
    outline_starts nofun nofun t o w trivial fun _ used => used.elim
  cases o with
  | reconcileWorkspace own =>
    have safe : Safe (.endpoint app (Discipline.none.during (.reconcileWorkspace own)) ((Op.reconcileWorkspace own).tokens app))
        ⟨w.ledger, w.Enrolled⟩ (fun _ v' => v'.ledger.Settled own) ((Op.reconcileWorkspace own).program app) :=
      (reconcileWorkspaceLocked_safe fun repair => False.elim repair).system.bind fun _ _ settled => Safe.pure settled
    refine (locked_meets rfl safe).mono ?_ ?_
    · rintro _ w' ⟨v, within, settled⟩ ws rfl -
      exact within.ledger ▸ settled
    · intro e w' _ ws _ impossible
      cases impossible
  | reconcileOnce =>
    have safe : Safe (.endpoint app (Discipline.none.during .reconcileOnce) (Op.reconcileOnce.tokens app))
        ⟨w.ledger, w.Enrolled⟩ (fun _ v' => ∀ ws, v'.ledger.Settled ws) (Op.reconcileOnce.program app) :=
      (reconcileOnce_safe fun repair => False.elim repair).system.bind fun _ _ settled => Safe.pure settled
    refine (locked_meets rfl safe).mono ?_ ?_
    · rintro _ w' ⟨v, within, settled⟩ ws - -
      exact within.ledger ▸ settled ws
    · intro e w' _ ws _ impossible
      cases impossible
  | _ => exact starts.mono (fun _ _ _ _ => False.elim) fun _ _ _ _ => False.elim

/-- The broker where nobody adds members to the workspace. -/
abbrev steady (app : App) (ws : String) : System Op Request Reply BrokerError Outcome World :=
  serial app fun o _ => ¬ o.Adds ws

theorem drawn_kept {t : Nat} {o : Op} {r : Request} {w' : World} (drawn : w.ledger.Drawn ws)
    (kept : (outline app (since ws) fun o _ => ¬ o.Adds ws).guarantee t o w r w') : w'.ledger.Drawn ws := by
  rcases guaranteed_ledger kept with same | change
  · exact same ▸ drawn
  · exact drawn.step change

def sinceVisit (app : App) (ws : String) : Outline (steady app ws) :=
  (outline app (since ws) _).strengthen (fun w => w.ledger.Drawn ws) fun _ => drawn_kept

section Visits
variable {w₀ : World} {p₀ p₁ p₂ : Pool} {t : Nat} {o : Op}

theorem settled_since (start : w₀.Initial) (run : Reaches (serial app fun _ _ => True) (Pool.fresh w₀) p₀)
    (step : Step (serial app fun _ _ => True) p₀ p₁) (pending : ¬ p₀.Returned t o (.ok .done))
    (returned : p₁.Returned t o (.ok .done)) (visits : o.Visits ws) (present : p₁.world.ledger.Present ws)
    (later : Reaches (steady app ws) p₁ p₂) : p₂.world.ledger.Settled ws := by
  have engaged := Outline.engaged_reaches (fun t o w _ _ => ends_repairs t o w) (Outline.engaged_fresh start.invariant) run
  have settled := engaged.returned (fun t o w _ _ => ends_repairs t o w) step pending returned ws visits rfl
  have base := serial_holds (d := .none) start nofun nofun (fun _ => id) (run.tail step)
  have drawn := base.invariant.sane.valid.drawn (workspaceKey ws) ws rfl present
  -- the visit held the lock until now, so whatever else runs does without it
  have unlocked := returned_unlocked engaged.apart visits.locked step pending returned
  have holds : (sinceVisit app ws).Holds p₁ := since_holds base drawn unlocked
  have others : ∀ t th, p₁.threads t = some th → th.Running → ¬ th.op.Adds ws := by
    intro t' th held running adds
    have free := unlocked t' th held running
    cases op : th.op with
    | createMember => simp [op, Op.locked] at free
    | _ => simp [op, Op.Adds] at adds
  suffices all : (sinceVisit app ws).Holds p₂ ∧ (∀ t th, p₂.threads t = some th → th.Running → ¬ th.op.Adds ws) ∧
      p₂.world.ledger.Settled ws from all.2.2
  induction later with
  | refl => exact ⟨holds, others, settled⟩
  | tail _ next ih =>
    obtain ⟨here, free, settled⟩ := ih
    refine ⟨Outline.holds_step (since_starts fun _ drawn => drawn) here next, running_step (fun _ _ admitted => admitted) free next, ?_⟩
    rcases here.world_step next with same | ⟨t', th, r, held, running, guaranteed⟩
    · exact same ▸ settled
    · have kept : (outline app (since ws) fun o _ => ¬ o.Adds ws).guarantee t' th.op _ r _ := guaranteed
      rcases guaranteed_ledger kept with same | change
      · exact same ▸ settled
      · exact settled.step (free t' th held running) rfl change

end Visits

/-- In every reachable state what is listed is permitted. Once a visit of the reconciler to a
workspace has returned without error, the workspace is listed to whom it is permitted, unless it is
being deleted, for as long as nobody starts to add members to it. -/
theorem listing_agrees {w₀ : World} (start : w₀.Initial) :
    (∀ p user found, Reaches (serial app fun _ _ => True) (Pool.fresh w₀) p →
      Yields p.world (accessibleWorkspaces app user) found →
        ∀ x ∈ found, ∃ role, Yields p.world (workspaceRole app user x.id .reader) role) ∧
    (∀ p₀ p₁ p₂ t o ws, Reaches (serial app fun _ _ => True) (Pool.fresh w₀) p₀ →
      Step (serial app fun _ _ => True) p₀ p₁ → ¬ p₀.Returned t o (.ok .done) → p₁.Returned t o (.ok .done) →
        o.Visits ws → p₁.world.ledger.Present ws → Reaches (steady app ws) p₁ p₂ → p₂.world.ledger.Active ws →
          ∀ user role, Yields p₂.world (workspaceRole app user ws .reader) role →
            ∃ found, Yields p₂.world (accessibleWorkspaces app user) found ∧ ∃ x ∈ found, x.id = ws) := by
  constructor
  · intro p user found run listed
    have holds := serial_holds (d := .none) start nofun nofun (fun _ => id) run
    exact listed_permitted holds.invariant.sane.valid listed
  · intro p₀ p₁ p₂ t o ws run step pending returned visits present later active user role permitted
    have settled := settled_since start run step pending returned visits present later
    have whole : Reaches (serial app fun _ _ => True) (Pool.fresh w₀) p₂ := by
      refine (run.tail step).trans (Relation.ReflTransGen.mono (fun _ _ next => ?_) _ _ later)
      cases next with
      | start t o unused admitted alone => exact .start t o unused trivial alone
      | answer held live waiting answered => exact .answer held live waiting answered
      | drop held running => exact .drop held running
    have holds := serial_holds (d := .none) start nofun nofun (fun _ => id) whole
    exact permitted_listed holds.invariant.sane.valid settled active permitted

/-! ### Passes of the local broker -/

/-- A user that is no platform administrator. -/
def localUser : GitHubUser := ⟨7, "7", ""⟩

theorem localUser_addressable : Addressable localApp localUser := .inr (by decide)

/-- The user has a membership row of the Ready workspace, and an index row or none. -/
def memberOf (w : World) (ws : String) (index : Bool) : Bool :=
  (w.store.lookup ⟨.members, ws, toString localUser.id⟩).isSome &&
    (w.store.lookup ⟨.userWorkspaces, toString localUser.id, ws⟩).isSome == index &&
    !platformAdmin localApp w localUser &&
    match w.ledger.value (workspaceKey ws) with
    | some (.workspace r _) => r.workspace.state == .ready
    | _ => false

theorem memberOf_cases {index : Bool} (h : memberOf w ws index = true) :
    w.ledger.Joined ws (toString localUser.id) ∧ (w.ledger.Indexed ws (toString localUser.id) ↔ index = true) ∧
      platformAdmin localApp w localUser ≠ true ∧ w.ledger.Active ws := by
  simp only [memberOf, Bool.and_eq_true, beq_iff_eq, Bool.not_eq_true'] at h
  obtain ⟨⟨⟨joined, indexed⟩, plain⟩, state⟩ := h
  refine ⟨?_, ?_, by simp [plain], ?_⟩
  · rw [Ledger.Joined, World.ledger_rows (by rintro ⟨⟩)]
    exact Option.isSome_iff_ne_none.mp joined
  · rw [Indexed, World.ledger_rows (by rintro ⟨⟩), ← Option.isSome_iff_ne_none, indexed]
  · split at state
    · next r x held =>
      refine ⟨r, x, held, ?_⟩
      rw [beq_iff_eq.mp state]
      rintro ⟨⟩
    · cases state

/-- A member is added, and the reconciler visits the workspace. -/
def localMember : List (Op × Nat) :=
  [(.createWorkspace (browser 1) ⟨"w", "eastus"⟩, 99), (.createMember (browser 1) localWorkspace ⟨"7", .reader⟩, 99)]

def visited (ws : String) (index : Bool) : Option (Except BrokerError Outcome × Tape) → Bool
  | some (.ok .done, v) => memberOf v.world ws index
  | _ => false

theorem visited_cases {index : Bool} {out : Option (Except BrokerError Outcome × Tape)} (h : visited ws index out = true) :
    ∃ v, out = some (.ok .done, v) ∧ memberOf v.world ws index = true := by
  unfold visited at h
  split at h
  · exact ⟨_, rfl, h⟩
  · cases h

def localVisited : Finished localApp fun _ _ => true where
  tape := localTape
  script := localMember
  op := .reconcileWorkspace localWorkspace
  requests := 4
  check := visited localWorkspace true
  holds := (congrArg (visited localWorkspace true) (Tape.finish_eq ..)).trans (by decide +kernel)

theorem listing_agrees_local : ∃ p role found, Reaches (serial localApp fun _ _ => True) (Pool.fresh World.empty) p ∧
    Yields p.world (workspaceRole localApp localUser localWorkspace .reader) role ∧
      Yields p.world (accessibleWorkspaces localApp localUser) found ∧ ∃ x ∈ found, x.id = localWorkspace := by
  have ends := localVisited.holds
  dsimp only [localVisited] at ends
  obtain ⟨v, finished, kept⟩ := visited_cases ends
  obtain ⟨p₀, p₁, run, step, pending, returned, same, -⟩ :=
    @reaches_finish _ (fun _ _ => True) _ _ _ _ _ _ _ rfl (fun _ _ _ => trivial) finished
  obtain ⟨joined, -, -, active⟩ := memberOf_cases (same ▸ kept)
  have holds := serial_holds (d := .none) World.empty_initial nofun nofun (fun _ => id) (run.tail step)
  have valid := holds.invariant.sane.valid
  have canonical := (valid.drawn (workspaceKey localWorkspace) _ rfl active.present).canonical
  obtain ⟨role, permitted⟩ := yields_workspaceRole valid canonical localUser_addressable (.inr joined)
  obtain ⟨found, listed, x, member, id⟩ := (listing_agrees World.empty_initial).2 p₀ p₁ p₁ _ _ localWorkspace run step
    pending returned rfl active.present .refl active localUser role permitted
  exact ⟨p₁, role, found, run.tail step, permitted, listed, x, member, id⟩

/-- What is left of a pass: one visit after the other, each started when the one before has returned,
and none with an error. Other operations run in between. -/
inductive Pass (app : App) : List String → Pool → Pool → Prop
  | done {p : Pool} : Pass app [] p p
  | visit {ws : String} {rest : List String} {p q q' p' : Pool} {t : Nat} (unstarted : p.threads t = none)
      (run : Reaches (serial app fun _ _ => True) p q) (step : Step (serial app fun _ _ => True) q q')
      (pending : ¬ q.Returned t (.reconcileWorkspace ws) (.ok .done))
      (returned : q'.Returned t (.reconcileWorkspace ws) (.ok .done)) (later : Pass app rest q' p') :
      Pass app (ws :: rest) p p'

def secondWorkspace : String := "55555555-5555-5555-5555-555555555555"

def twoWorkspaces : List (Op × Nat) :=
  [(.createWorkspace (browser 1) ⟨"a", "eastus"⟩, 99), (.createWorkspace (browser 1) ⟨"b", "eastus"⟩, 99)]

/-- The pass visits the second workspace; a member is added to it, which stops after the membership
row; and the pass visits the first. -/
def interruptedPass : Bool :=
  match play (Op.program localApp) (fun _ _ => true) Tape.answer twoWorkspaces localTape with
  | some v =>
    (match v.world.store.list .workspaces platformPartition with
      | .ok entities => entities.map (·.rowKey) == [secondWorkspace, localWorkspace]
      | .error _ => false) &&
    match v.finish localApp (fun _ _ => true) [] (.reconcileWorkspace secondWorkspace) 3 with
    | some (.ok .done, v₁) =>
      visited secondWorkspace false (v₁.finish localApp (fun _ _ => true)
        [(.createMember (browser 1) secondWorkspace ⟨"7", .reader⟩, 4)] (.reconcileWorkspace localWorkspace) 3)
    | _ => false
  | none => false

def interruptedPassFast : Bool :=
  match play (Op.program localApp) (fun _ _ => true) Tape.fast twoWorkspaces localTape with
  | some v =>
    (match v.world.store.listFast .workspaces platformPartition with
      | .ok entities => entities.map (·.rowKey) == [secondWorkspace, localWorkspace]
      | .error _ => false) &&
    match v.finishFast localApp (fun _ _ => true) [] (.reconcileWorkspace secondWorkspace) 3 with
    | some (.ok .done, v₁) =>
      visited secondWorkspace false (v₁.finishFast localApp (fun _ _ => true)
        [(.createMember (browser 1) secondWorkspace ⟨"7", .reader⟩, 4)] (.reconcileWorkspace localWorkspace) 3)
    | _ => false
  | none => false

theorem interruptedPass_eq : interruptedPass = interruptedPassFast := by
  unfold interruptedPass interruptedPassFast
  rw [Tape.answer_eq]
  generalize play (Op.program localApp) (fun _ _ => true) Tape.fast twoWorkspaces localTape = played
  cases played with
  | none => rfl
  | some v => simp only [Tape.finish_eq, MemoryMetadata.listFast_eq]

theorem interruptedPass_cases (h : interruptedPass = true) : ∃ v entities v₁ v₂,
    play (Op.program localApp) (fun _ _ => true) Tape.answer twoWorkspaces localTape = some v ∧
      v.world.store.list .workspaces platformPartition = .ok entities ∧
      entities.map (·.rowKey) = [secondWorkspace, localWorkspace] ∧
      v.finish localApp (fun _ _ => true) [] (.reconcileWorkspace secondWorkspace) 3 = some (.ok .done, v₁) ∧
      v₁.finish localApp (fun _ _ => true) [(.createMember (browser 1) secondWorkspace ⟨"7", .reader⟩, 4)]
        (.reconcileWorkspace localWorkspace) 3 = some (.ok .done, v₂) ∧
      memberOf v₂.world secondWorkspace false = true := by
  unfold interruptedPass at h
  generalize played : play (Op.program localApp) (fun _ _ => true) Tape.answer twoWorkspaces localTape = out at h
  cases out with
  | none => cases h
  | some v =>
    obtain ⟨order, ends⟩ := Bool.and_eq_true_iff.mp h
    split at order
    · next entities listed =>
      split at ends
      · next v₁ first =>
        obtain ⟨v₂, second, kept⟩ := visited_cases ends
        exact ⟨v, entities, v₁, v₂, rfl, listed, beq_iff_eq.mp order, first, second, kept⟩
      · cases ends
    · cases order

/-- A pass without error can leave a member without index row, with nothing else under way. -/
theorem interrupted_pass_hides_workspace : ¬ ∀ (app : App) (w₀ : World) (p p' : Pool) (entities : List (Entity Value)),
    w₀.Initial → Reaches (serial app fun _ _ => True) (Pool.fresh w₀) p →
      p.world.store.list .workspaces platformPartition = .ok entities → Pass app (entities.map (·.rowKey)) p p' →
        p'.Idle → ∀ ws user role, p'.world.ledger.Active ws → Yields p'.world (workspaceRole app user ws .reader) role →
          ∃ found, Yields p'.world (accessibleWorkspaces app user) found ∧ ∃ x ∈ found, x.id = ws := by
  intro claim
  obtain ⟨v, entities, v₁, v₂, played, listed, order, first, second, kept⟩ :=
    interruptedPass_cases (interruptedPass_eq.trans (by decide +kernel))
  have fresh : (Pool.fresh World.empty : Pool).Idle := fun t th held => nomatch held
  obtain ⟨p, run, same, idle, unused⟩ := reaches_play (s := serial localApp fun _ _ => True) (k := 0)
    (fun _ _ _ _ _ => Tape.answer_sound) (fun _ _ _ => trivial) played fresh (fun _ _ => rfl) rfl
  obtain ⟨q, p₁, run₁, step₁, pending₁, returned₁, same₁, idle₁, unused₁⟩ :=
    @finish_from _ (fun _ _ => True) _ _ _ _ _ _ _ (fun _ _ _ => trivial) first _ _ idle unused same
  obtain ⟨q', p₂, run₂, step₂, pending₂, returned₂, same₂, idle₂, -⟩ :=
    @finish_from _ (fun _ _ => True) _ _ _ _ _ _ _ (fun _ _ _ => trivial) second _ _ idle₁ unused₁ same₁
  have pass : Pass localApp (entities.map (·.rowKey)) p p₂ := by
    rw [order]
    exact .visit (unused _ (Nat.le_refl _)) run₁ step₁ pending₁ returned₁
      (.visit (unused₁ _ (Nat.le_succ _)) run₂ step₂ pending₂ returned₂ .done)
  have whole : Reaches (serial localApp fun _ _ => True) (Pool.fresh World.empty) p₂ :=
    (((run.trans run₁).tail step₁).trans run₂).tail step₂
  have holds := serial_holds (d := .none) World.empty_initial nofun nofun (fun _ => id) whole
  have valid := holds.invariant.sane.valid
  obtain ⟨joined, unindexed, plain, active⟩ := memberOf_cases (same₂ ▸ kept)
  have canonical := (valid.drawn (workspaceKey secondWorkspace) _ rfl active.present).canonical
  obtain ⟨role, permitted⟩ := yields_workspaceRole valid canonical localUser_addressable (.inr joined)
  obtain ⟨found, shown, x, member, id⟩ := claim localApp World.empty p p₂ entities World.empty_initial run
    (same ▸ listed) pass idle₂ secondWorkspace localUser role active permitted
  rcases ((listed_only valid shown).2 x member).2 with admin | ⟨-, index⟩
  · exact plain admin
  · rw [id] at index
    exact Bool.noConfusion (unindexed.mp index)

end Azbridge.Broker
