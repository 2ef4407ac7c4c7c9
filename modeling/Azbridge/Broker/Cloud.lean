import Azbridge.Lib.History
import Azbridge.Broker.Naming
import Azbridge.Broker.Replicas
import Azbridge.Broker.Tokens

/-!
# Cloud resources

When namespaces and connections are created and deleted in the cloud, and when their rows go. That a row goes
only after the cloud confirmed it is seen by contradiction: a thread to which the cloud denies that a resource
is gone never gets as far as removing its row.
-/

namespace Azbridge.Broker
open Ledger Interleaving

variable {app : App}

def Ledger.Hosts (c : Ledger) (ws ns : String) (r : WorkspaceRecord) : Prop :=
  (∃ x, c.Workspace ws r x) ∧ r.workspace.namespaceName = ns

def Ledger.Relays (c : Ledger) (ws ns name id : String) (conn : Broker.Connection) : Prop :=
  (∃ r, c.Hosts ws ns r) ∧ (∃ x, c.Connection ws id conn x) ∧ conn.name = name

/-- When a thread that was told these replies may ask for a resource, or for the end of one. -/
def Guarded (app : App) (w : World) (told : List ((r : Request) × Except BrokerError (Reply r))) : Request → Prop
  | .ensureNamespace ns _ => (∃ ws r, w.ledger.Hosts ws ns r) ∧ ∀ ws r, w.ledger.Hosts ws ns r → r.workspace.state = .provisioning
  | .ensureConnection ns name => (∃ ws id conn, w.ledger.Relays ws ns name id conn) ∧
      ∀ ws id conn, w.ledger.Relays ws ns name id conn → conn.state = .provisioning ∧ ¬ w.ledger.Deleting ws
  | .deleteConnection ns name => ∃ ws, (∃ id conn, w.ledger.Relays ws ns name id conn) ∧
      (∀ id conn, w.ledger.Relays ws ns name id conn → conn.state = .deleting) ∧ ¬ w.ledger.InUse ws app name
  | .deleteNamespace ns => ∃ ws, (∃ r, w.ledger.Hosts ws ns r ∧ r.workspace.state = .deleting) ∧
      (∀ k, k.workspace? = some ws → k.table ≠ .workspaces → k.table ≠ .userWorkspaces → w.store.lookup k = none) ∧
      ∀ k e, k.table = .enrollments → w.store.lookup k = some e → e.data.workspaceId ≠ some ws
  | .delete .connections ws id _ => ∃ ns conn, w.ledger.Relays ws ns conn.name id conn ∧ conn.state = .deleting ∧
      ⟨.deleteConnection ns conn.name, .ok true⟩ ∈ told
  | .delete .workspaces _ ws _ => ∃ ns r, w.ledger.Hosts ws ns r ∧ r.workspace.state = .deleting ∧
      ⟨.deleteNamespace ns, .ok true⟩ ∈ told
  | _ => True

section Calls
variable {w : World} {ws ns name id : String}

/-- A namespace belongs to one row. -/
theorem Ledger.Hosts.same {c : Ledger} (valid : c.Valid) {ws' : String} {r r' : WorkspaceRecord} (h : c.Hosts ws ns r)
    (h' : c.Hosts ws' ns r') : ws' = ws ∧ r' = r := by
  obtain ⟨⟨x, held⟩, named⟩ := h
  obtain ⟨⟨x', held'⟩, named'⟩ := h'
  have own : ws' = ws := valid.distinct ws' ws r' r x' x held' held (named'.trans named.symm)
  subst own
  have equal := held.symm.trans held'
  cases equal
  exact ⟨rfl, rfl⟩

theorem Ledger.Relays.same {c : Ledger} (valid : c.Valid) (names : DistinctNames c) {ws' id' : String} {conn conn' : Broker.Connection}
    (h : c.Relays ws ns name id conn) (h' : c.Relays ws' ns name id' conn') : ws' = ws ∧ conn' = conn := by
  obtain ⟨⟨r, hosts⟩, ⟨x, held⟩, named⟩ := h
  obtain ⟨⟨r', hosts'⟩, ⟨x', held'⟩, named'⟩ := h'
  obtain ⟨own, -⟩ := hosts.same valid hosts'
  subst own
  have equal : Text.eqIgnoreAsciiCase conn'.name conn.name = true := by
    rw [named, named']
    simp [Text.eqIgnoreAsciiCase]
  have row : id' = id := names ws' .connections id' id _ _ (.connection held') (.connection held) equal
  subst row
  have same := held.symm.trans held'
  cases same
  exact ⟨rfl, rfl⟩

theorem CloudCall.guarded {denied : Request → Prop} {told : List ((r : Request) × Except BrokerError (Reply r))} {r : Request}
    (call : CloudCall app denied w r) (valid : w.ledger.Valid) (names : DistinctNames w.ledger)
    (kept : r.isExternal = true) : Guarded app w told r := by
  cases call with
  | @ensureNamespace ws r x held live =>
    have hosts : w.ledger.Hosts ws r.workspace.namespaceName r := ⟨⟨x, held⟩, rfl⟩
    refine ⟨⟨ws, r, hosts⟩, ?_⟩
    intro ws' r' hosts'
    obtain ⟨-, rfl⟩ := hosts.same valid hosts'
    exact live
  | @deleteNamespace ws r x held deleting empty unenrolled =>
    refine ⟨ws, ⟨r, ⟨⟨x, held⟩, rfl⟩, deleting⟩, ?_, ?_⟩
    · intro k belongs other index
      have row := empty k belongs other index
      have table : k.table ≠ .enrollments := by
        intro table
        simp [Key.workspace?, table] at belongs
      simpa [World.ledger, table] using row
    · intro k e table found refers
      exact unenrolled ⟨k, e, table, found, refers⟩
  | @ensureConnection ws id r x x' conn own live held provisioning =>
    have relays : w.ledger.Relays ws r.workspace.namespaceName conn.name id conn := ⟨⟨r, ⟨x, own⟩, rfl⟩, ⟨x', held⟩, rfl⟩
    refine ⟨⟨ws, id, conn, relays⟩, ?_⟩
    intro ws' id' conn' relays'
    obtain ⟨rfl, rfl⟩ := relays.same valid names relays'
    refine ⟨provisioning, ?_⟩
    rintro ⟨r', x'', own', deleting⟩
    cases own.symm.trans own'
    exact live deleting
  | @deleteConnection ws id r x x' conn own held deleting unused =>
    have relays : w.ledger.Relays ws r.workspace.namespaceName conn.name id conn := ⟨⟨r, ⟨x, own⟩, rfl⟩, ⟨x', held⟩, rfl⟩
    refine ⟨ws, ⟨id, conn, relays⟩, ?_, unused⟩
    intro id' conn' relays'
    obtain ⟨-, rfl⟩ := relays.same valid names relays'
    exact deleting
  | removeConnection => cases kept
  | removeWorkspace => cases kept

end Calls

/-- The cloud never tells this thread that the resource is gone. -/
def unconfirmed (t₀ : Nat) (denied : Request → Prop) (e : Event Request Reply BrokerError) : Prop :=
  e.1 = t₀ ∧ denied e.2.1 ∧ e.2.1.Confirms e.2.2

def deniedTo (t₀ : Nat) (denied : Request → Prop) (t : Nat) (r : Request) : Prop := t = t₀ ∧ denied r

def unconfirmedOutline (app : App) (t₀ : Nat) (denied : Request → Prop) :
    Outline ((serial app fun _ _ => True).without (unconfirmed t₀ denied)) where
  invariant := Invariant app .none
  rely t o := (duty app .none o (deniedTo t₀ denied t)).rely
  guarantee t o := (duty app .none o (deniedTo t₀ denied t)).guarantee
  post _ _ _ _ := True
  rely_refl _ _ := .refl _
  rely_trans first second locked := (first locked).trans (second locked)
  preserves inv kept := duty_preserves _ inv kept
  compatible _ overlap _ kept locked' := duty_compatible _ (fun locked => overlap ⟨locked, locked'⟩) kept
  settled _ _ _ _ := trivial

theorem unconfirmed_holds {t₀ : Nat} {denied : Request → Prop} {w : World} {p : Pool} (start : w.Initial)
    (run : Reaches ((serial app fun _ _ => True).without (unconfirmed t₀ denied)) (Pool.fresh w) p) :
    (unconfirmedOutline app t₀ denied).Holds p := by
  apply Outline.holds_reaches ?_ (Outline.holds_fresh start.invariant) run
  intro t o w _ _
  have starts : Program.Meets (duty app .none o (deniedTo t₀ denied t)) (fun _ _ => True) (fun _ _ => True) (o.program app) w :=
    duty_starts nofun nofun fun _ used => used.elim
  refine starts.answers ?_ (fun _ h => h) (fun _ _ h => h) fun _ _ _ _ h => h
  rintro w r reply w' ⟨answered, fine⟩
  refine ⟨answered, ?_⟩
  rintro confirms ⟨same, named⟩
  exact fine ⟨same, named, confirms⟩

theorem unconfirmed_calls {t : Nat} {denied : Request → Prop} {p : Pool} (holds : (unconfirmedOutline app t denied).Holds p)
    {th : Thread Op Request Reply BrokerError Outcome} {r : Request} {next : Except BrokerError (Reply r) → Handler Outcome}
    (held : p.threads t = some th) (live : th.dropped = false) (waiting : th.program = .call r next) (governed : r.Governed)
    (other : ∀ ns relay right, r ≠ .issueToken ns relay right) : CloudCall app (deniedTo t denied t) p.world r := by
  have meets := holds.meets t th held live
  rw [waiting] at meets
  have refused : ¬ unconfirmed t denied (t, ⟨r, .error .unavailable⟩) := by
    rintro ⟨-, -, confirms⟩
    cases r <;> exact confirms
  obtain ⟨kept, -⟩ := meets p.world (fun _ => .refl _) holds.invariant (.error .unavailable) p.world
    ⟨governed.unavailable p.world, refused⟩
  change if th.op.locked = true then _ else _ at kept
  split at kept
  · have calls := kept.2 governed
    cases r with
    | issueToken ns relay right => exact absurd rfl (other ns relay right)
    | _ => exact calls
  · exact absurd governed kept.2

section Runs
variable {w₀ : World} {p : Interleaving.Pool Op Request Reply BrokerError Outcome (World × List (Event Request Reply BrokerError))}
  {t : Nat} {th : Thread Op Request Reply BrokerError Outcome}

/-- A reply that confirms is the answer `true`. -/
theorem told_unless {denied : Request → Prop}
    (missing : ∀ r reply, denied r → r.Confirms reply → (⟨r, reply⟩ : (r : Request) × Except BrokerError (Reply r)) ∉ trace t p.world.2) :
    ∀ e ∈ p.world.2, ¬ unconfirmed t denied e := by
  rintro ⟨t', r, reply⟩ member ⟨same, named, confirms⟩
  dsimp only at same named confirms
  subst same
  apply missing r reply named confirms
  exact List.mem_filterMap.mpr ⟨_, member, by simp⟩

/-- The row of a connection is about to go: the cloud told this thread that the connection is gone. -/
theorem connection_removal_confirmed (start : w₀.Initial)
    (run : Reaches (serial app fun _ _ => True).recording (Pool.fresh (w₀, [])) p) {ws id etag : String}
    {next : Except BrokerError Unit → Handler Outcome} (held : p.threads t = some th) (live : th.dropped = false)
    (waiting : th.program = .call (.delete .connections ws id etag) next) :
    ∃ ns conn, p.world.1.ledger.Relays ws ns conn.name id conn ∧ conn.state = .deleting ∧
      ⟨.deleteConnection ns conn.name, .ok true⟩ ∈ trace t p.world.2 := by
  have removal : ∀ denied, (∀ e ∈ p.world.2, ¬ unconfirmed t denied e) →
      CloudCall app (deniedTo t denied t) p.world.1 (.delete .connections ws id etag) := by
    intro denied clean
    have holds : (unconfirmedOutline app t denied).Holds ⟨p.world.1, p.threads⟩ := unconfirmed_holds start (run.without clean)
    exact unconfirmed_calls holds held live waiting (.inl rfl) nofun
  cases removal (fun _ => False) fun _ _ bad => bad.2.1 with
  | @removeConnection _ _ _ r x x' conn own row deleting _ =>
    refine ⟨r.workspace.namespaceName, conn, ⟨⟨r, ⟨x, own⟩, rfl⟩, ⟨x', row⟩, rfl⟩, deleting, ?_⟩
    by_contra untold
    have denial := removal (· = .deleteConnection r.workspace.namespaceName conn.name) (told_unless fun r' reply named confirms => ?_)
    · cases denial with
      | removeConnection own' row' _ confirmed =>
        cases own.symm.trans own'
        cases row.symm.trans row'
        exact confirmed ⟨rfl, rfl⟩
    · subst named
      rcases reply with e | gone
      · exact confirms.elim
      · obtain rfl : gone = true := confirms
        exact untold

/-- The row of a workspace is about to go: the cloud told this thread that the namespace is gone. -/
theorem workspace_removal_confirmed (start : w₀.Initial)
    (run : Reaches (serial app fun _ _ => True).recording (Pool.fresh (w₀, [])) p) {partition ws etag : String}
    {next : Except BrokerError Unit → Handler Outcome} (held : p.threads t = some th) (live : th.dropped = false)
    (waiting : th.program = .call (.delete .workspaces partition ws etag) next) :
    ∃ ns r, p.world.1.ledger.Hosts ws ns r ∧ r.workspace.state = .deleting ∧
      ⟨.deleteNamespace ns, .ok true⟩ ∈ trace t p.world.2 := by
  have removal : ∀ denied, (∀ e ∈ p.world.2, ¬ unconfirmed t denied e) →
      CloudCall app (deniedTo t denied t) p.world.1 (.delete .workspaces partition ws etag) := by
    intro denied clean
    have holds : (unconfirmedOutline app t denied).Holds ⟨p.world.1, p.threads⟩ := unconfirmed_holds start (run.without clean)
    exact unconfirmed_calls holds held live waiting (.inr rfl) nofun
  cases removal (fun _ => False) fun _ _ bad => bad.2.1 with
  | @removeWorkspace _ _ r x row deleting _ =>
    refine ⟨r.workspace.namespaceName, r, ⟨⟨x, row⟩, rfl⟩, deleting, ?_⟩
    by_contra untold
    have denial := removal (· = .deleteNamespace r.workspace.namespaceName) (told_unless fun r' reply named confirms => ?_)
    · cases denial with
      | removeWorkspace row' _ confirmed =>
        cases row.symm.trans row'
        exact confirmed ⟨rfl, rfl⟩
    · subst named
      rcases reply with e | gone
      · exact confirms.elim
      · obtain rfl : gone = true := confirms
        exact untold

theorem row_goes_by_request {p' : Interleaving.Pool Op Request Reply BrokerError Outcome (World × List (Event Request Reply BrokerError))}
    {k : Key} (step : Interleaving.Step (serial app fun _ _ => True).recording p p') (before : p.world.1.store.lookup k ≠ none)
    (after : p'.world.1.store.lookup k = none) : ∃ t th etag next, p.threads t = some th ∧ th.dropped = false ∧
      th.program = .call (.delete k.table k.partition k.row etag) next := by
  cases step with
  | start => exact absurd after before
  | drop => exact absurd after before
  | @answer t th r next reply w' held live waiting answered =>
    obtain ⟨replied, -⟩ := answered
    dsimp only at after
    have named : r.row? = some k := by
      by_contra other
      rw [responds_other replied other] at after
      exact before after
    cases r with
    | delete table partition row etag =>
      cases named
      exact ⟨t, th, etag, next, held, live, waiting⟩
    | insert table partition row data =>
      cases named
      rcases responds_insert replied with ⟨e, -, same⟩ | ⟨e, s, -, -, stored, -, same⟩
      · rw [same] at after
        exact absurd after before
      · rw [same, stored.written] at after
        cases after
    | replace table partition row data etag =>
      cases named
      rcases responds_replace replied with ⟨e, -, same⟩ | ⟨e, s, old, -, -, -, stored, -, same⟩
      · rw [same] at after
        exact absurd after before
      · rw [same, stored.written] at after
        cases after
    | _ => cases named

/-- Resources are asked for while their rows are being provisioned, and ended while these are being deleted and
nothing needs them any more; the rows go by a thread that was told that the resource is gone. -/
theorem cloud_calls_are_guarded (start : w₀.Initial)
    (run : Reaches (serial app fun _ _ => True).recording (Pool.fresh (w₀, [])) p) :
    (∀ t th r next, p.threads t = some th → th.dropped = false → th.program = .call r next →
      Guarded app p.world.1 (trace t p.world.2) r) ∧
    ∀ p' k, Interleaving.Step (serial app fun _ _ => True).recording p p' → k.table = .connections ∨ k.table = .workspaces →
      p.world.1.store.lookup k ≠ none → p'.world.1.store.lookup k = none →
      ∃ t th etag next, p.threads t = some th ∧ th.dropped = false ∧
        th.program = .call (.delete k.table k.partition k.row etag) next := by
  have plain := run.unrecorded
  have holds := serial_holds (d := .none) start nofun nofun (fun _ => id) plain
  have valid : p.world.1.ledger.Valid := holds.invariant.sane.valid
  have names : DistinctNames p.world.1.ledger :=
    ledger_kept start plain start.distinctNames fun _ _ _ distinct step => distinct.step step
  refine ⟨?_, fun p' k step _ => row_goes_by_request step⟩
  intro t th r next held live waiting
  cases r with
  | delete table partition row etag =>
    cases table with
    | connections => exact connection_removal_confirmed start run held live waiting
    | workspaces => exact workspace_removal_confirmed start run held live waiting
    | _ => trivial
  | ensureNamespace | deleteNamespace | ensureConnection | deleteConnection =>
    have call : CloudCall app (fun _ => False) p.world.1 _ := waiting_calls holds held live waiting trivial
    exact call.guarded valid names rfl
  | _ => trivial

end Runs

/-- A connection is being deleted, and its row is about to go. -/
def localRetirement : Scripted localApp fun _ _ => True where
  tape := localTape
  script := localScript.take 2
  op := .deleteConnection (browser 1) localWorkspace "55555555-5555-5555-5555-555555555555"
  requests := 14
  check := fun
    | .call (.delete .connections ws _ _) _, _ => ws == localWorkspace
    | _, _ => false
  start := localTape_start
  admitted _ _ _ := trivial
  holds := (Tape.checks_eq ..).trans (by decide +kernel)

/-- It was deleted in the cloud before. -/
theorem cloud_calls_are_guarded_local :
    ∃ p : Interleaving.Pool Op Request Reply BrokerError Outcome (World × List (Event Request Reply BrokerError)),
      Reaches (serial localApp fun _ _ => True).recording (Pool.fresh (World.empty, [])) p ∧
        ∃ ns id conn, p.world.1.ledger.Relays localWorkspace ns conn.name id conn ∧ conn.state = .deleting ∧
          ⟨.deleteConnection ns conn.name, .ok true⟩ ∈ trace 2 p.world.2 := by
  obtain ⟨q, rest, run, held, checked⟩ := localRetirement.runs
  obtain ⟨history, recorded⟩ := run.recorded
  refine ⟨_, recorded, ?_⟩
  dsimp only [localRetirement] at checked held
  split at checked
  · next _ ws id etag next =>
    have guarded := (cloud_calls_are_guarded World.empty_initial recorded).1 2 _ _ next held rfl rfl
    obtain rfl : ws = localWorkspace := by simpa using checked
    obtain ⟨ns, conn, relays, deleting, confirmed⟩ := guarded
    exact ⟨ns, id, conn, relays, deleting, confirmed⟩
  · cases checked

end Azbridge.Broker
