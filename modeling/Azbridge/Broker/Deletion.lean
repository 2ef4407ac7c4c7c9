import Azbridge.Broker.Scripts

/-!
# What a deleted workspace leaves

Nothing refers to a workspace whose row is gone, in every run in which no workspace is deleted that
has an index row without its membership row. Such a row comes from the removal of a member that
stops between its two deletions; the journal of the deletion lists members only, so the index row
outlives the workspace.
-/

namespace Azbridge.Broker
open Ledger Interleaving

theorem deleted_workspaces_leave_nothing {app : App} {w₀ : World} {p : Pool} (start : w₀.Initial)
    (run : Reaches (serial app fun o w => o.Journaled w.ledger) (Pool.fresh w₀) p) :
    ∀ ws, p.world.store.lookup (workspaceKey ws) = none →
      (∀ k, k.workspace? = some ws → p.world.store.lookup k = none) ∧
      ∀ k e, k.table = .enrollments → p.world.store.lookup k = some e → e.data.workspaceId ≠ some ws := by
  have inv := (serial_holds (d := .of False True) start nofun (fun _ _ _ admitted => admitted) (fun _ => id) run).invariant
  intro ws removed
  have gone : ¬ p.world.ledger.Present ws := by simp [Present, World.ledger, removed]
  refine ⟨fun k belongs => ?_, fun k e table held refers => ?_⟩
  · have kept : k.table ≠ .enrollments := by
      intro table
      simp [Key.workspace?, table] at belongs
    by_contra present
    refine gone ((inv.accounted trivial).exist k ws belongs ?_)
    simpa [World.ledger, kept] using present
  · exact gone (inv.sane.enrolled ws ⟨k, e, table, held, refers⟩)

/-- Index rows of the workspace have their membership rows. -/
def journaled (o : Op) (w : World) : Bool :=
  match o with
  | .createWorkspace .. => true
  | .deleteWorkspace _ ws => w.store.entities.entries.all fun x =>
      x.1.table != .userWorkspaces || x.1.row != ws || (w.store.lookup ⟨.members, ws, x.1.partition⟩).isSome
  | _ => false

theorem journaled_sound {o : Op} {w : World} (h : journaled o w = true) : o.Journaled w.ledger := by
  cases o with
  | createWorkspace => trivial
  | deleteWorkspace headers ws =>
    rintro ⟨user, indexed, left⟩
    obtain ⟨e, held⟩ := Option.ne_none_iff_exists'.mp indexed
    have held : w.store.lookup ⟨.userWorkspaces, user, ws⟩ = some e := by simpa [World.ledger] using held
    have listed := List.all_eq_true.mp h _ (AList.mem_lookup_iff.mp held)
    exact left (by simpa [Ledger.Joined, World.ledger, Option.isSome_iff_ne_none] using listed)
  | _ => cases h

def removed : Handler Outcome → World → Bool
  | .done (.ok .done), w => (w.store.lookup (workspaceKey localWorkspace)).isNone
  | _, _ => false

def localDeletion : Scripted localApp fun o w => o.Journaled w.ledger where
  guard := journaled
  tape := localTape
  script := [(.createWorkspace (browser 1) ⟨"w", "eastus"⟩, 99)]
  op := .deleteWorkspace (browser 1) localWorkspace
  requests := 99
  check := removed
  start := localTape_start
  admitted _ _ := journaled_sound
  holds := (Tape.checks_eq ..).trans (by decide +kernel)

theorem deleted_workspaces_leave_nothing_local : ∃ p,
    Reaches (serial localApp fun o w => o.Journaled w.ledger) (Pool.fresh World.empty) p ∧
      p.Returned 1 (.deleteWorkspace (browser 1) localWorkspace) (.ok .done) ∧
      p.world.store.lookup ⟨.userWorkspaces, "1", localWorkspace⟩ = none := by
  obtain ⟨p, rest, run, held, checked⟩ := localDeletion.runs
  dsimp only [localDeletion, removed] at checked
  split at checked
  · have gone := Option.isNone_iff_eq_none.mp checked
    exact ⟨p, run, held, (deleted_workspaces_leave_nothing World.empty_initial run localWorkspace gone).1 _ rfl⟩
  · cases checked

/-- A member is removed, but not the index row; then the workspace is deleted. -/
def interruptedRemoval : List (Op × Nat) :=
  [(.createWorkspace (browser 1) ⟨"w", "eastus"⟩, 99),
    (.createMember (browser 1) localWorkspace ⟨"7", .reader⟩, 99),
    (.deleteMember (browser 1) localWorkspace "7", 4)]

def leavesIndex (_ : Handler Outcome) (w : World) : Bool :=
  (w.store.lookup (workspaceKey localWorkspace)).isNone &&
    (w.store.lookup ⟨.userWorkspaces, "7", localWorkspace⟩).isSome

def interruptedDeletion : Scripted localApp fun _ _ => True where
  tape := localTape
  script := interruptedRemoval
  op := .deleteWorkspace (browser 1) localWorkspace
  requests := 99
  check := leavesIndex
  start := localTape_start
  admitted _ _ _ := trivial
  holds := (Tape.checks_eq ..).trans (by decide +kernel)

/-- The row of a workspace can be gone while an index row still refers to it. -/
theorem interrupted_removal_leaves_index : ¬ ∀ (app : App) (w₀ : World) (p : Pool), w₀.Initial →
    Reaches (serial app fun _ _ => True) (Pool.fresh w₀) p →
      ∀ ws, p.world.store.lookup (workspaceKey ws) = none →
        (∀ k, k.workspace? = some ws → p.world.store.lookup k = none) ∧
        ∀ k e, k.table = .enrollments → p.world.store.lookup k = some e → e.data.workspaceId ≠ some ws := by
  intro claim
  obtain ⟨p, rest, run, held, checked⟩ := interruptedDeletion.runs
  dsimp only [interruptedDeletion] at checked
  rw [leavesIndex, Bool.and_eq_true, Option.isNone_iff_eq_none] at checked
  have none := (claim localApp World.empty p World.empty_initial run localWorkspace checked.1).1
    ⟨.userWorkspaces, "7", localWorkspace⟩ rfl
  rw [none] at checked
  cases checked.2

end Azbridge.Broker
