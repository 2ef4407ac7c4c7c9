import Azbridge.Broker.Safety.Gateways

/-!
# Runs of the broker

Locked operations write what `Write` lists, the others leave the ledger alone, and the lock keeps
the former apart; so the invariants of the ledger hold in every state that any run reaches.
-/

namespace Azbridge.Broker
open Ledger Interleaving

variable {app : App} {d : Discipline}

namespace Op

/-- What the operation may have relay tokens issued for. -/
def tokens (app : App) : Op → Ledger → String → String → RelayRight → Prop
  | relayToken headers _ => Entitled app headers
  | _ => fun _ _ _ _ => False

/-- No pass starts that would take an interrupted creation for a finished one. -/
def Repairable : Op → Ledger → Prop
  | reconcileWorkspace ws, c => ¬ c.Stranded ws
  | reconcileOnce, c => ∀ ws, ¬ c.Stranded ws
  | _, _ => True

/-- No workspace is deleted that has an index row without its membership row. -/
def Journaled : Op → Ledger → Prop
  | deleteWorkspace _ ws, c => ¬ c.Orphaned ws
  | _, _ => True

def Adds : Op → String → Prop
  | createMember _ own _, ws => own = ws
  | _, _ => False

def Mints : Op → Prop
  | createGateway .. | pollEnrollment .. => True
  | _ => False

theorem ignore_safe {α : Type} {m : Permits} {v : View} {p : Handler α} (h : Safe m v (fun _ _ => True) p) :
    Safe m v (fun _ _ => True) (ignore p) := h.bind fun _ _ _ => Safe.pure trivial

theorem ignore_personal {α : Type} {p : Handler α} (h : p.Uses Request.Personal) :
    (ignore p).Uses Request.Personal := h.bind fun _ => Program.uses_pure _

theorem ignore_reading {α : Type} {p : Handler α} (h : Reading p) : (ignore p).Uses Request.Personal :=
  ignore_personal (Personal.reading h)

/-- A locked operation keeps to its writes and has only tokens issued that it may. -/
theorem safe {o : Op} {v : View} (locked : o.locked = true) (repair : d.repair → o.Repairable v.ledger)
    (journal : d.journal → o.Journaled v.ledger) (joins : ∀ ws, o.Adds ws → d.joins ws) (mints : o.Mints → d.mints)
    (taken : ∀ ws, d.taken ws → v.ledger.Drawn ws) :
    Safe (.endpoint app d (o.tokens app)) v (fun _ _ => True) (o.program app) := by
  cases o with
  | createWorkspace => exact ignore_safe (createWorkspace_safe taken)
  | deleteWorkspace => exact ignore_safe (deleteWorkspace_safe journal)
  | createMember => exact ignore_safe (createMember_safe (joins _ rfl))
  | updateMember => exact ignore_safe updateMember_safe
  | deleteMember => exact ignore_safe (deleteMember_safe.mono fun _ _ _ => trivial)
  | createConnection => exact ignore_safe createConnection_safe
  | deleteConnection => exact ignore_safe deleteConnection_safe
  | rotateConnection => exact ignore_safe rotateConnection_safe
  | createProfile => exact ignore_safe createProfile_safe
  | deleteProfile => exact ignore_safe deleteProfile_safe
  | validate => exact ignore_safe validate_safe
  | createRevision => exact createRevision_safe.bind fun _ _ _ => Safe.pure trivial
  | publish => exact ignore_safe publish_safe
  | createGateway => exact (createGateway_safe (mints trivial) taken).bind fun _ _ _ => Safe.pure trivial
  | revokeGateway => exact ignore_safe revokeGateway_safe
  | gatewayConfig => exact gatewayConfig_safe.bind fun _ _ _ => Safe.pure trivial
  | relayToken => exact ignore_safe relayToken_safe
  | status => exact ignore_safe status_safe
  | gatewayLogout => exact ignore_safe gatewayLogout_safe
  | startEnrollment => exact startEnrollment_safe.bind fun _ _ _ => Safe.pure trivial
  | pollEnrollment => exact (pollEnrollment_safe (mints trivial) taken).bind fun _ _ _ => Safe.pure trivial
  | reconcileWorkspace => exact ignore_safe ((reconcileWorkspaceLocked_safe repair).mono fun _ _ _ => trivial).system
  | reconcileOnce => exact ignore_safe ((reconcileOnce_safe repair).mono fun _ _ _ => trivial).system
  | _ => cases locked

/-- The others only read, or keep enrollments of no workspace. -/
theorem personal {o : Op} (unlocked : o.locked = false) : (o.program app).Uses Request.Personal := by
  cases o with
  | listWorkspaces =>
    exact ignore_reading (Reading.currentSession.bind fun _ => Reading.accessibleWorkspaces)
  | getWorkspace =>
    refine ignore_reading (Reading.authorize.bind fun _ => Reading.workspaceEntity.bind fun _ => ?_)
    exact Reading.decode.bind fun _ => Program.uses_pure _
  | listMembers =>
    refine ignore_reading (Reading.authorize.bind fun _ => Reading.activeWorkspace.bind fun _ => ?_)
    exact Reading.list.bind fun _ => Reading.decodeAll _
  | listConnections =>
    refine ignore_reading (Reading.authorize.bind fun _ => Reading.activeWorkspace.bind fun _ => ?_)
    exact Reading.list.bind fun _ => Reading.decodeAll _
  | listAudit =>
    refine ignore_reading (Reading.authorize.bind fun _ => Reading.workspaceEntity.bind fun _ => ?_)
    exact Reading.list.bind fun _ => (Reading.decodeAll _).bind fun _ => Program.uses_pure _
  | listProfiles =>
    refine ignore_reading (Reading.authorize.bind fun _ => Reading.workspace.bind fun _ => ?_)
    exact Reading.list.bind fun _ => (Reading.decodeAll _).bind fun _ => Program.uses_pure _
  | getProfile =>
    refine ignore_reading (Reading.authorize.bind fun _ => Reading.workspace.bind fun _ => ?_)
    exact Reading.profile.bind fun _ => Program.uses_pure _
  | listRevisions =>
    refine ignore_reading (Reading.authorize.bind fun _ => Reading.workspace.bind fun _ => ?_)
    refine Reading.profile.bind fun _ => Reading.list.bind fun _ => ?_
    exact (Reading.loadRevisions _).bind fun _ => Program.uses_pure _
  | getRevision =>
    refine ignore_reading (Reading.authorize.bind fun _ => Reading.workspace.bind fun _ => ?_)
    exact Reading.profile.bind fun _ => Reading.revision
  | listGateways =>
    refine ignore_reading (Reading.authorize.bind fun _ => Reading.activeWorkspace.bind fun _ => ?_)
    exact Reading.list.bind fun _ => (Reading.decodeAll _).bind fun _ => Program.uses_pure _
  | me =>
    refine ignore_reading (Reading.currentSession.bind fun _ => Reading.isPlatformAdmin.bind fun _ => ?_)
    refine Reading.accessibleWorkspaces.bind fun _ => Reading.require.bind fun _ => ?_
    exact Reading.ite (Program.uses_pure _) (Reading.okOr.bind fun _ => Program.uses_pure _)
  | login => exact ignore_personal Personal.login
  | callback => exact Personal.callback.bind fun _ => Program.uses_pure _
  | devLogin =>
    refine ignore_reading (Reading.require.bind fun _ => Program.Uses.done.bind fun _ => ?_)
    exact Reading.setSession.bind fun _ => Program.uses_pure _
  | logout =>
    refine ignore_reading (Reading.currentSession.bind fun _ => Program.Uses.done.bind fun _ => ?_)
    exact Program.Uses.done.bind fun _ => Program.uses_pure _
  | deviceStart => exact Personal.deviceStart.bind fun _ => Program.uses_pure _
  | devicePoll => exact Personal.devicePoll.bind fun _ => Program.uses_pure _
  | cleanup => exact ignore_personal Personal.cleanupExpiredEnrollments
  | _ => cases unlocked

end Op

theorem Request.Personal.quiet {r : Request} {tick : Nat → Nat → Prop} {w w' : World}
    {reply : Except BrokerError (Reply r)} (personal : r.Personal) (h : Responds tick w r reply w') : Quiet w w' := by
  rcases personal with reads | personal
  · exact reads.quiet h
  · cases r with
    | insert =>
      obtain ⟨rfl, rfl, own⟩ := personal
      rcases responds_insert h with ⟨e, rfl, rfl⟩ | ⟨e, s, absent, same, stored, -, rfl⟩
      · exact .refl _
      · exact quiet_stored stored (same ▸ own)
    | replace =>
      obtain ⟨rfl, rfl, own⟩ := personal
      rcases responds_replace h with ⟨e, rfl, rfl⟩ | ⟨e, s, old, found, tag, same, stored, -, rfl⟩
      · exact .refl _
      · exact quiet_stored stored (same ▸ own)
    | delete =>
      obtain rfl := personal
      rcases responds_delete h with ⟨e, rfl, rfl⟩ | ⟨old, found, tag, -, rfl⟩
      · exact .refl _
      · exact quiet_erased
    | _ => exact personal.elim

/-- What holds of the broker's world between any two requests. -/
structure Invariant (app : App) (d : Discipline) (w : World) : Prop where
  sane : Sane w
  published : Published app w.ledger
  administered : d.repair → Administered w.ledger
  accounted : d.journal → Accounted w.ledger

theorem Invariant.step {d' : Discipline} {w w' : World} (h : Invariant app d w) (step : LockedStep (Write app d') w w')
    (repairs : d.repair → d'.repair) (journals : d.journal → d'.journal) : Invariant app d w' := by
  refine ⟨h.sane.step step, ?_, fun repair => ?_, fun journal => ?_⟩ <;> rcases step.ledger with same | change
  · exact same ▸ h.published
  · exact h.published.step change
  · exact same ▸ h.administered repair
  · exact (h.administered repair).step (repairs repair) change
  · exact same ▸ h.accounted journal
  · exact (h.accounted journal).step (journals journal) h.sane.valid change

theorem Invariant.mono {d' : Discipline} {w : World} (h : Invariant app d w) (repairs : d'.repair → d.repair)
    (journals : d'.journal → d.journal) : Invariant app d' w :=
  ⟨h.sane, h.published, fun repair => h.administered (repairs repair), fun journal => h.accounted (journals journal)⟩

/-- Empty stores, but for the platform administrators that are configured beforehand. -/
structure World.Initial (w : World) : Prop where
  rows : ∀ k e, w.store.lookup k = some e → k.table = .platformAdmins
  blobs : ∀ path, w.configs.lookup path = none

theorem World.Initial.value {w : World} (h : w.Initial) {k : Key} (table : k.table ≠ .platformAdmins) :
    w.ledger.value k = none := by
  have absent : w.store.lookup k = none := by
    by_contra present
    obtain ⟨e, held⟩ := Option.ne_none_iff_exists'.mp present
    exact table (h.rows k e held)
  simp [Ledger.value, World.ledger, absent]

theorem World.Initial.invariant {w : World} (h : w.Initial) : Invariant app d w := by
  have none : ∀ ws r x, ¬ w.ledger.Workspace ws r x := fun ws r x held => by
    rw [Ledger.Workspace, h.value (by rintro ⟨⟩)] at held
    cases held
  have unowned : ∀ k ws, k.workspace? = some ws → w.ledger.rows k = Option.none := fun k ws belongs => by
    have table : k.table ≠ .platformAdmins := by
      intro table
      simp [Key.workspace?, table] at belongs
    simpa [Ledger.value] using h.value table
  refine ⟨⟨⟨fun k v held => ?_, fun k ws belongs present => absurd (unowned k ws belongs) present,
    fun ws r x held => absurd held (none ws r x), fun ws _ r _ x _ held => absurd held (none ws r x)⟩, ?_, ?_⟩,
    ⟨?_, ?_⟩, fun _ ws r x held => absurd held (none ws r x), fun _ => ⟨?_, ?_⟩⟩
  · by_cases table : k.table = .platformAdmins
    · simp [WellTyped, table]
    · rw [h.value table] at held
      cases held
  · intro k e table held
    rw [h.rows k e held] at table
    cases table
  · rintro ws ⟨k, e, table, held, -⟩
    rw [h.rows k e held] at table
    cases table
  · intro ws id r n active
    obtain ⟨r, x, held, -⟩ := active
    exact absurd held (none ws r x)
  · intro ws id g active
    obtain ⟨r, x, held, -⟩ := active
    exact absurd held (none ws r x)
  · exact fun k ws belongs present => absurd (unowned k ws belongs) present
  · exact fun ws r x held => absurd held (none ws r x)

/-- Only operations that add members to a workspace do so, and only those that mint gateways. The cloud may
confirm anything. -/
def Ledger.Discipline.during (d : Discipline) (o : Op) : Discipline :=
  { d with joins := o.Adds, mints := o.Mints, denied := fun _ => False }

/-- The contract of an operation to which some requests are never confirmed. -/
def duty (app : App) (d : Discipline) (o : Op) (denied : Request → Prop) : Program.Contract Request Reply BrokerError World where
  answers w r reply w' := Responds anyTime w r reply w' ∧ (r.Confirms reply → ¬ denied r)
  invariant := Invariant app d
  rely w w' := o.locked = true → Quiet w w'
  guarantee w r w' := if o.locked = true then
      (Permits.endpoint app { d.during o with denied } (o.tokens app)).contract.guarantee w r w'
    else Quiet w w' ∧ ¬ r.Governed

/-- What an operation does keeps the invariant. -/
theorem duty_preserves {o : Op} (denied : Request → Prop) {w w' : World} {r : Request} (inv : Invariant app d w)
    (kept : (duty app d o denied).guarantee w r w') : Invariant app d w' := by
  change if o.locked = true then _ else _ at kept
  split at kept
  · exact inv.step kept.1 id id
  · have step : LockedStep (Write app d) w w' := kept.1.locked
    exact inv.step step id id

/-- Without the lock nothing is done that others would notice. -/
theorem duty_compatible {o : Op} (denied : Request → Prop) {w w' : World} {r : Request} (unlocked : ¬ o.locked = true)
    (kept : (duty app d o denied).guarantee w r w') : Quiet w w' := by
  change if o.locked = true then _ else _ at kept
  rw [if_neg unlocked] at kept
  exact kept.1

/-- Locked operations rely on the others being quiet, and those on nothing. -/
def outline (app : App) (d : Discipline) (admits : Op → World → Prop) : Outline (serial app admits) where
  invariant := Invariant app d
  rely _ o w w' := o.locked = true → Quiet w w'
  guarantee _ o w r w' := if o.locked = true then
      (Permits.endpoint app (d.during o) (o.tokens app)).contract.guarantee w r w'
    else Quiet w w' ∧ ¬ r.Governed
  post _ _ _ _ := True
  rely_refl _ _ := .refl _
  rely_trans first second locked := (first locked).trans (second locked)
  preserves inv kept := duty_preserves (fun _ => False) inv kept
  compatible _ overlap _ kept locked' := duty_compatible (fun _ => False) (fun locked => overlap ⟨locked, locked'⟩) kept
  settled _ _ _ _ := trivial

section Duty
variable {o : Op} {w : World} {denied : Request → Prop}

/-- A locked operation that keeps to its writes meets its contract. -/
theorem locked_duty {α : Type} {P : α → View → Prop} {p : Handler α} (locked : o.locked = true)
    (safe : Safe (.endpoint app { d.during o with denied } (o.tokens app)) ⟨w.ledger, w.Enrolled⟩ P p) :
    Program.Meets (duty app d o denied) (fun a w' => ∃ v', w'.Within v' ∧ P a v') (fun _ _ => True) p w := by
  refine ((safe.meets w ⟨rfl, fun _ h => h⟩).answers (d := duty app d o denied) (fun _ _ _ _ h => h) (fun _ h => h.sane)
    (fun _ _ h => h locked) fun w r w' _ kept => ?_).mono (fun _ _ h => h) fun _ _ _ => trivial
  change if o.locked = true then _ else _
  rw [if_pos locked]
  exact kept

theorem duty_starts (repair : d.repair → o.Repairable w.ledger) (journal : d.journal → o.Journaled w.ledger)
    (taken : ∀ ws, d.taken ws → w.ledger.Drawn ws) :
    Program.Meets (duty app d o denied) (fun _ _ => True) (fun _ _ => True) (o.program app) w := by
  by_cases locked : o.locked = true
  · have safe : Safe (.endpoint app { d.during o with denied } (o.tokens app)) ⟨w.ledger, w.Enrolled⟩ (fun _ _ => True)
        (o.program app) := Op.safe locked repair journal (fun _ adds => adds) (fun mints => mints) taken
    exact (locked_duty locked safe).mono (fun _ _ _ => trivial) fun _ _ _ => trivial
  · have uses : (o.program app).Uses Request.Personal := Op.personal (by simpa using locked)
    refine (uses.meets (J := fun _ => True) (fun _ _ _ _ => trivial) (fun w r reply w' _ _ personal answered =>
      ⟨?_, trivial⟩) trivial).mono (fun _ _ _ => trivial) fun _ _ _ => trivial
    change if o.locked = true then _ else _
    rw [if_neg locked]
    refine ⟨personal.quiet answered.1, fun governed => ?_⟩
    rcases personal with reads | own
    · exact reads.2.2 governed
    · cases r with
      | insert | replace => exact governed
      | delete table =>
        have table : table = .enrollments := own
        simp [Request.Governed, table] at governed
      | _ => exact own

end Duty

/-- What is answered at all may be answered where nothing is denied. -/
theorem answers_undenied {o : Op} {w w' : World} {r : Request} {reply : Except BrokerError (Reply r)} (answered : Responds anyTime w r reply w') :
    (duty app d o fun _ => False).answers w r reply w' := ⟨answered, fun _ => id⟩

theorem locked_meets {admits : Op → World → Prop} {t : Nat} {o : Op} {w : World} {α : Type} {P : α → View → Prop}
    {p : Handler α} (locked : o.locked = true)
    (safe : Safe (.endpoint app (d.during o) (o.tokens app)) ⟨w.ledger, w.Enrolled⟩ P p) :
    Program.Meets ((outline app d admits).contract t o) (fun a w' => ∃ v', w'.Within v' ∧ P a v') (fun _ _ => True) p w := by
  have meets : Program.Meets (duty app d o fun _ => False) (fun a w' => ∃ v', w'.Within v' ∧ P a v') (fun _ _ => True) p w :=
    locked_duty locked safe
  exact meets.answers (fun _ _ _ _ => answers_undenied) (fun _ h => h) (fun _ _ h => h) fun _ _ _ _ h => h

theorem outline_starts {admits : Op → World → Prop}
    (repair : d.repair → ∀ o w, admits o w → o.Repairable w.ledger)
    (journal : d.journal → ∀ o w, admits o w → o.Journaled w.ledger) (t : Nat) (o : Op) (w : World)
    (admitted : admits o w) (taken : ∀ ws, d.taken ws → w.ledger.Drawn ws) :
    (outline app d admits).Meets t o (o.program app) w := by
  have starts : Program.Meets (duty app d o fun _ => False) (fun _ _ => True) (fun _ _ => True) (o.program app) w :=
    duty_starts (fun strict => repair strict o w admitted) (fun strict => journal strict o w admitted) taken
  exact starts.answers (fun _ _ _ _ => answers_undenied) (fun _ h => h) (fun _ _ h => h) fun _ _ _ _ h => h

theorem serial_holds {admits : Op → World → Prop} {w : World} {p : Pool} (start : w.Initial)
    (repair : d.repair → ∀ o w, admits o w → o.Repairable w.ledger)
    (journal : d.journal → ∀ o w, admits o w → o.Journaled w.ledger) (free : ∀ ws, ¬ d.taken ws)
    (run : Reaches (serial app admits) (Pool.fresh w) p) : (outline app d admits).Holds p :=
  Outline.holds_reaches
    (fun t o w _ admitted => outline_starts repair journal t o w admitted fun ws used => absurd used (free ws))
    (Outline.holds_fresh start.invariant) run

theorem guaranteed_ledger {admits : Op → World → Prop} {t : Nat} {o : Op} {r : Request} {w w' : World}
    (kept : (outline app d admits).guarantee t o w r w') :
    w'.ledger = w.ledger ∨ Ledger.Step (Write app (d.during o)) w.ledger w'.ledger := by
  change if o.locked = true then _ else _ at kept
  split at kept
  · exact kept.1.ledger
  · exact .inl kept.1.ledger

/-- Only locked operations depend on the discipline, and on when operations start. -/
theorem unlocked_holds {d' : Discipline} {admits admits' : Op → World → Prop} {p : Pool}
    (holds : (outline app d admits).Holds p) (inv : Invariant app d' p.world)
    (repairs : d.repair → d'.repair) (journals : d.journal → d'.journal)
    (unlocked : ∀ t th, p.threads t = some th → th.Running → th.op.locked = false) :
    (outline app d' admits').Holds p := by
  refine ⟨inv, ?_, holds.apart⟩
  intro t th held live
  by_cases running : th.Running
  · have meets := holds.meets t th held live
    refine meets.answers (fun _ _ _ _ answered => answered) (fun _ inv => inv.mono repairs journals)
      (fun _ _ relied => relied) ?_
    intro w r w' _ kept
    change if th.op.locked = true then _ else _ at kept
    change if th.op.locked = true then _ else _
    rw [unlocked t th held running] at kept ⊢
    exact kept
  · obtain ⟨result, finished⟩ : ∃ result, th.program = .done result := by
      by_contra pending
      exact running ⟨live, fun result same => pending ⟨result, same⟩⟩
    rw [finished]
    cases result <;> exact trivial

/-- The broker in which nobody creates a workspace or a gateway of this identifier any more. -/
def since (ws : String) : Discipline := { Discipline.none with taken := (· = ws) }

section Since
variable {admits admits' : Op → World → Prop} {J : World → Prop} {ws : String}
  {kept : ∀ {t o w r w'}, (outline app (since ws) admits).invariant w → J w → (outline app (since ws) admits).guarantee t o w r w' →
    J w'}

theorem since_starts (drawn : ∀ w, J w → w.ledger.Drawn ws) (t : Nat) (o : Op) (w : World)
    (inv : ((outline app (since ws) admits).strengthen J kept).invariant w) (admitted : admits o w) :
    ((outline app (since ws) admits).strengthen J kept).Meets t o (o.program app) w := by
  refine Outline.meets_strengthen kept (outline_starts nofun nofun t o w admitted ?_)
  rintro _ rfl
  exact drawn w inv.2

/-- Where only unlocked operations run, the identifier can be taken from now on. -/
theorem since_holds {p : Pool} (holds : (outline app .none admits').Holds p) (first : J p.world)
    (unlocked : ∀ t th, p.threads t = some th → th.Running → th.op.locked = false) :
    ((outline app (since ws) admits).strengthen J kept).Holds p := by
  have inv : Invariant app (since ws) p.world := holds.invariant.mono id id
  have plain : (outline app (since ws) admits).Holds p := unlocked_holds holds inv id id unlocked
  refine ⟨⟨inv, first⟩, ?_, holds.apart⟩
  intro t th held live
  exact Outline.meets_strengthen kept (plain.meets t th held live)

end Since

/-- When a locked operation returns, whatever else runs does without the lock. -/
theorem returned_unlocked {admits : Op → World → Prop} {p p' : Pool} {t : Nat} {o : Op} {result : Except BrokerError Outcome}
    (apart : Outline.Apart (serial app admits) p.threads) (locked : o.locked = true)
    (step : Interleaving.Step (serial app admits) p p') (before : ¬ p.Returned t o result) (returned : p'.Returned t o result) :
    ∀ t' th, p'.threads t' = some th → th.Running → th.op.locked = false := by
  intro t' th held running
  have overlap := Outline.Apart.returned apart step before returned held running
  simpa [serial, locked] using overlap

/-- What every write keeps holds in every state that is reached. -/
theorem ledger_kept {admits : Op → World → Prop} {J : Ledger → Prop} {w : World} {p : Pool} (start : w.Initial)
    (run : Reaches (serial app admits) (Pool.fresh w) p) (first : J w.ledger)
    (kept : ∀ o c c', J c → Ledger.Step (Write app (Discipline.none.during o)) c c' → J c') : J p.world.ledger := by
  induction run with
  | refl => exact first
  | tail before step ih =>
    have holds := serial_holds (d := .none) start nofun nofun (fun _ => id) before
    rcases holds.world_step step with same | ⟨t, th, r, -, -, guaranteed⟩
    · exact same ▸ ih
    · rcases guaranteed_ledger guaranteed with same | change
      · exact same ▸ ih
      · exact kept th.op _ _ ih change

end Azbridge.Broker
