import Azbridge.Broker.Scripts

/-!
# Administrators of Ready workspaces

A Ready workspace has an administrator in every run in which no pass repairs a workspace whose
creation was interrupted before its creator became an administrator, and whose creator somebody
has meanwhile made a lesser member. Without that condition the repair takes the lesser membership
for the missing one.
-/

namespace Azbridge.Broker
open Ledger Interleaving

theorem ready_workspaces_have_admins {app : App} {w₀ : World} {p : Pool} (start : w₀.Initial)
    (run : Reaches (serial app fun o w => o.Repairable w.ledger) (Pool.fresh w₀) p) :
    ∀ ws, p.world.ledger.Ready ws → p.world.ledger.HasAdmin ws := by
  have inv := (serial_holds (d := .of True False) start (fun _ _ _ admitted => admitted) nofun (fun _ => id) run).invariant
  rintro ws ⟨r, x, held, ready⟩
  obtain ⟨-, r', x', same, -, initialised⟩ := inv.sane.valid.typed _ _ held
  cases same
  have live : r.workspace.state ≠ .deleting := by rw [ready]; nofun
  exact inv.administered trivial ws r x held live (initialised (by rw [ready]; nofun) live)

/-- A created workspace is Ready, and its creator administers it. -/
def readyWorld (_ : Handler Outcome) (w : World) : Bool :=
  w.ledger.value (workspaceKey localWorkspace) == some (.workspace localRecord localExtra)

def creates (o : Op) (_ : World) : Bool := o matches .createWorkspace ..

def localCreation : Scripted localApp fun o w => o.Repairable w.ledger where
  guard := creates
  tape := localTape
  script := []
  op := .createWorkspace (browser 1) ⟨"w", "eastus"⟩
  requests := 99
  check := readyWorld
  start := localTape_start
  admitted := by
    intro o w creation
    cases o with
    | createWorkspace => trivial
    | _ => cases creation
  holds := (Tape.checks_eq ..).trans (by decide +kernel)

theorem ready_workspaces_have_admins_local : ∃ p,
    Reaches (serial localApp fun o w => o.Repairable w.ledger) (Pool.fresh World.empty) p ∧
      p.world.ledger.Ready localWorkspace ∧ p.world.ledger.HasAdmin localWorkspace := by
  obtain ⟨p, rest, run, -, checked⟩ := localCreation.runs
  dsimp only [localCreation, readyWorld] at checked
  have ready : p.world.ledger.Ready localWorkspace := ⟨_, _, eq_of_beq checked, rfl⟩
  exact ⟨p, run, ready, ready_workspaces_have_admins World.empty_initial run localWorkspace ready⟩

/-- The first administrator's creation stops after the workspace row. The second makes the first a
reader, which is then taken for the creator's membership. -/
def interruptedCreation : List (Op × Nat) :=
  [(.createWorkspace (browser 1) ⟨"w", "eastus"⟩, 4),
    (.createMember (browser 2) localWorkspace ⟨"1", .reader⟩, 99)]

/-- The pass succeeded, and the workspace is Ready with members none of whom is an administrator. -/
def lostAdmin : Handler Outcome → World → Bool
  | .done (.ok .done), w =>
    w.ledger.value (workspaceKey localWorkspace) == some (.workspace localRecord localExtra) &&
      match w.store.list .members localWorkspace with
      | .ok entities => entities.all fun e => match e.data with
        | .member m => m.role != .admin
        | _ => true
      | .error _ => false
  | _, _ => false

def interruptedPassage : Scripted localApp fun _ _ => True where
  tape := localTape
  script := interruptedCreation
  op := .reconcileOnce
  requests := 99
  check := lostAdmin
  start := localTape_start
  admitted _ _ _ := trivial
  holds := (Tape.checks_eq ..).trans (by decide +kernel)

theorem no_admin_of_list {w : World} {ws : String} {entities : List (Entity Value)}
    (listed : w.store.list .members ws = .ok entities)
    (none : ∀ e ∈ entities, ∀ m, e.data = .member m → m.role ≠ .admin) : ¬ w.ledger.HasAdmin ws := by
  rintro ⟨user, m, held, admin⟩
  simp only [Ledger.Member, Ledger.value, World.ledger, reduceCtorEq, if_false] at held
  obtain ⟨e, found, data⟩ := Option.map_eq_some_iff.mp held
  obtain ⟨partition, row⟩ := w.store.keyed _ e found
  have member := ((MemoryMetadata.list_ok listed).mem e).mpr ⟨partition, by rw [row]; exact found⟩
  exact none e member m data admin

/-- A pass that completed without error can leave a Ready workspace that nobody administers. -/
theorem interrupted_creation_loses_admin : ¬ ∀ (app : App) (w₀ : World) (p : Pool) (t : Nat), w₀.Initial →
    Reaches (serial app fun _ _ => True) (Pool.fresh w₀) p → p.Returned t .reconcileOnce (.ok .done) →
      ∀ ws, p.world.ledger.Ready ws → p.world.ledger.HasAdmin ws := by
  intro claim
  obtain ⟨p, rest, run, held, checked⟩ := interruptedPassage.runs
  dsimp only [interruptedPassage, lostAdmin] at checked
  split at checked
  · rw [Bool.and_eq_true, beq_iff_eq] at checked
    obtain ⟨ready, members⟩ := checked
    split at members
    · next entities listed =>
      refine no_admin_of_list listed (fun e member m data => ?_)
        (claim localApp World.empty p _ World.empty_initial run held localWorkspace ⟨_, _, ready, rfl⟩)
      have lesser := List.all_eq_true.mp members e member
      rw [data] at lesser
      simpa using lesser
    · cases members
  · cases checked

end Azbridge.Broker
