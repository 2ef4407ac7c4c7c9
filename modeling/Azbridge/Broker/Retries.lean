import Azbridge.Broker.Workspaces

/-!
# Passes over one item

What passes of the reconciler make of one workspace or one connection, while the stores answer and
nobody else writes its row.
-/

namespace Azbridge.Broker.Retries

open Reconciler

/-- What passes find outside the broker's stores; the cloud keeps a record of each call. -/
structure Cloud (τ : Type) where
  /-- Each reading of the clock, by its number. -/
  clock : Nat → Nat
  uuid : Nat → Uuid
  /-- Each call, by its number, and `none` where it never returns. -/
  ensureNamespace : Nat → (namespaceName location : String) → Option (Except BrokerError ProvisioningState × τ)
  ensureConnection : Nat → (namespaceName name : String) → Option (Except BrokerError ProvisioningState × τ)

structure Desk (τ : Type) where
  /-- The row of the item. -/
  entity : Entity Value
  readings : Nat := 0
  /-- The calls that provision the item. -/
  calls : List τ := []

variable {τ : Type}

/-- The stores hold no other row of the workspace, and take every write. -/
def attend (c : Cloud τ) (d : Desk τ) : (r : Request) → Option (Except BrokerError (Reply r) × Desk τ)
  | .get t p r =>
    some (.ok (if t = .workspaces ∧ p = d.entity.partitionKey ∧ r = d.entity.rowKey then some d.entity else none), d)
  | .list _ _ => some (.ok [], d)
  | .insert _ p r data => some (.ok ⟨p, r, data, ""⟩, d)
  | .replace _ _ _ data _ => some (.ok { d.entity with data }, { d with entity := { d.entity with data } })
  | .now => some (.ok (c.clock d.readings), { d with readings := d.readings + 1 })
  | .newUuid => some (.ok (c.uuid d.readings), d)
  | .ensureNamespace namespaceName location =>
    (c.ensureNamespace d.calls.length namespaceName location).map fun (result, call) => (result, { d with calls := d.calls ++ [call] })
  | .ensureConnection namespaceName name =>
    (c.ensureConnection d.calls.length namespaceName name).map fun (result, call) => (result, { d with calls := d.calls ++ [call] })
  | _ => none

/-- One pass over a row that has been read, of a workspace or of a connection of this one. -/
def pass (app : App) (workspace : Workspace) (entity : Entity Value) : Handler Unit :=
  match entity.data with
  | .workspace record _ =>
    if record.workspace.state = .deleting then deleteWorkspaceLocked entity record.workspace
    else reconcileActive app entity.rowKey entity record
  | _ => reconcileConnection app workspace entity

def passed (app : App) (workspace : Workspace) (c : Cloud τ) (d : Desk τ) : Option (Desk τ) :=
  ((pass app workspace d.entity).exec (attend c) d).map (·.2)

/-- The state of an item and what its row says of retries. -/
structure Item where
  state : ProvisioningState
  attempts : Nat
  retryable : Bool
  retryAt : Nat
  deriving DecidableEq

def Item.of (state : ProvisioningState) (extra : Extra) : Item :=
  ⟨state, extra.attempts.getD 0, extra.retryable.getD false, extra.retryAt.getD (Text.u64 - 1)⟩

def Desk.item (d : Desk τ) : Option Item :=
  match d.entity.data with
  | .workspace record extra => some (.of record.workspace.state extra)
  | .connection connection extra => some (.of connection.state extra)
  | _ => none

/-- A failed item is due once its backoff is over, unless it has failed too often or for good. -/
def Item.due (i : Item) (now : Nat) : Bool := i.retryable && decide (i.attempts < maxAttempts) && decide (i.retryAt ≤ now)

/-- The item is attempted in a pass that reads the clock so. -/
def Item.attempted (i : Item) (now : Nat) : Bool :=
  decide (i.state ≠ .ready) && (decide (i.state ≠ .failed) || i.due now)

def Item.after (i : Item) (now : Nat) : Except BrokerError ProvisioningState → Item
  | .ok .ready => { i with state := .ready, attempts := 0, retryable := false }
  | .ok .provisioning => { i with state := .provisioning, retryable := false }
  | .ok .pending => { i with state := .pending, retryable := false }
  | .ok _ => { i with state := .failed, retryable := false }
  | .error e => {
    state := .failed
    attempts := Text.saturatingAdd i.attempts 1
    retryable := e == .unavailable || e == .internal
    retryAt := Text.saturatingAdd now (30 * 2 ^ min (Text.saturatingAdd i.attempts 1) 6) }

section Handlers

variable {c : Cloud τ} {d d' : Desk τ} {app : App} {workspace : Workspace} {extra : Extra}

theorem save_exec (table : Table) (partition ws : String) (data : Value) (action : String) :
    (save table partition ws d.entity data action).exec (attend c) d =
      some (.ok { d.entity with data }, { d with entity := { d.entity with data }, readings := d.readings + 1 }) := rfl

theorem shouldRetry_exec {status : ProvisioningState} : ∃ n, (shouldRetry extra status).exec (attend c) d =
    some (.ok (decide (status ≠ .failed) || (Item.of status extra).due (c.clock d.readings)), { d with readings := n }) := by
  by_cases failed : status = .failed
  · subst failed
    have due : (Item.of .failed extra).due (c.clock d.readings) =
        ((extra.retryable.getD false && decide (extra.attempts.getD 0 < maxAttempts)) &&
          decide (extra.retryAt.getD (Text.u64 - 1) ≤ c.clock d.readings)) := rfl
    rw [due]
    unfold shouldRetry
    rw [if_neg (by simp)]
    by_cases may : (extra.retryable.getD false && decide (extra.attempts.getD 0 < maxAttempts)) = true
    · rw [if_pos may, may]
      exact ⟨d.readings + 1, rfl⟩
    · rw [if_neg may, Bool.eq_false_iff.mpr may]
      exact ⟨d.readings, rfl⟩
  · exact ⟨d.readings, by simp [shouldRetry, failed]; rfl⟩

theorem provisioningResult_exec (failed : String) (status : ProvisioningState) (result : Except BrokerError ProvisioningState) :
    ∃ n error extra', (provisioningResult failed extra result).exec (attend c) d =
        some (.ok (((Item.of status extra).after (c.clock d.readings) result).state, error, extra'), { d with readings := n }) ∧
      Item.of ((Item.of status extra).after (c.clock d.readings) result).state extra' =
        (Item.of status extra).after (c.clock d.readings) result := by
  cases result with
  | error e => exact ⟨d.readings + 1, _, _, rfl, rfl⟩
  | ok state => cases state <;> exact ⟨d.readings, _, _, rfl, rfl⟩

theorem attempt_exec {r : Request} {reply : Except BrokerError (Reply r)} (answered : attend c d r = some (reply, d')) :
    (Program.request r : Handler (Reply r)).attempt.exec (attend c) d = some (.ok reply, d') := by
  simp [Program.request, Program.attempt, Program.exec, answered]

theorem unanswered_exec {α : Type} {r : Request} {f : Except BrokerError (Reply r) → Handler α} (unanswered : attend c d r = none) :
    ((Program.request r : Handler (Reply r)).attempt >>= f).exec (attend c) d = none := by
  simp [bind, Program.request, Program.attempt, Program.bind, Program.exec, unanswered]

end Handlers

section Connections

variable {c : Cloud τ} {d : Desk τ} {workspace : Workspace} {connection : Connection} {extra : Extra}

theorem reconcileProvisioning_skips (data : d.entity.data = .connection connection extra)
    (rests : (decide (connection.state ≠ .failed) || (Item.of connection.state extra).due (c.clock d.readings)) = false) :
    ∃ d', (reconcileProvisioning workspace d.entity connection).exec (attend c) d = some (.ok (), d') ∧
      d'.calls = d.calls ∧ d'.entity = d.entity := by
  obtain ⟨n, retry⟩ := @shouldRetry_exec τ c d extra connection.state
  unfold reconcileProvisioning
  rw [data]
  show ∃ d', Program.exec (attend c) (shouldRetry extra connection.state >>= _) d = _ ∧ _
  rw [Program.exec_bind retry, rests]
  exact ⟨_, rfl, rfl, rfl⟩

theorem reconcileProvisioning_attempts (data : d.entity.data = .connection connection extra)
    (attempts : (decide (connection.state ≠ .failed) || (Item.of connection.state extra).due (c.clock d.readings)) = true)
    {result : Except BrokerError ProvisioningState} {call : τ}
    (answered : c.ensureConnection d.calls.length workspace.namespaceName connection.name = some (result, call)) :
    ∃ d' n, (reconcileProvisioning workspace d.entity connection).exec (attend c) d = some (.ok (), d') ∧
      d'.calls = d.calls ++ [call] ∧ d'.item = some ((Item.of connection.state extra).after (c.clock n) result) := by
  obtain ⟨⟨partition, row, value, etag⟩, readings, calls⟩ := d
  obtain rfl : value = .connection connection extra := data
  obtain ⟨n, retry⟩ := @shouldRetry_exec τ c ⟨⟨partition, row, .connection connection extra, etag⟩, readings, calls⟩ extra connection.state
  rw [attempts] at retry
  let begun : Desk τ :=
    ⟨⟨partition, row, .connection { connection with state := .provisioning, error := none } extra, etag⟩, n + 1, calls⟩
  let asked : Desk τ := { begun with calls := calls ++ [call] }
  obtain ⟨m, error, extra', ended, item⟩ :=
    @provisioningResult_exec τ c asked extra "Relay connection provisioning failed" connection.state result
  have reply : attend c begun (.ensureConnection workspace.namespaceName connection.name) = some (result, asked) := by
    show (c.ensureConnection calls.length workspace.namespaceName connection.name).map _ = _
    rw [answered]
    rfl
  have ran : (reconcileProvisioning workspace ⟨partition, row, .connection connection extra, etag⟩ connection).exec (attend c)
      ⟨⟨partition, row, .connection connection extra, etag⟩, readings, calls⟩ =
      some (.ok (), ⟨⟨partition, row, .connection { connection with
        state := ((Item.of connection.state extra).after (c.clock asked.readings) result).state, error } extra', etag⟩, m + 1,
        calls ++ [call]⟩) := by
    unfold reconcileProvisioning
    refine (Program.exec_bind retry).trans ?_
    rw [if_pos rfl]
    refine (Program.exec_bind (save_exec (d := ⟨_, n, calls⟩) ..)).trans ?_
    refine (Program.exec_bind (attempt_exec reply)).trans ?_
    refine (Program.exec_bind ended).trans ?_
    rfl
  exact ⟨_, _, ran, rfl, congrArg some item⟩

theorem reconcileProvisioning_waits (data : d.entity.data = .connection connection extra)
    (attempts : (decide (connection.state ≠ .failed) || (Item.of connection.state extra).due (c.clock d.readings)) = true)
    (unanswered : c.ensureConnection d.calls.length workspace.namespaceName connection.name = none) :
    (reconcileProvisioning workspace d.entity connection).exec (attend c) d = none := by
  obtain ⟨⟨partition, row, value, etag⟩, readings, calls⟩ := d
  obtain rfl : value = .connection connection extra := data
  obtain ⟨n, retry⟩ := @shouldRetry_exec τ c ⟨⟨partition, row, .connection connection extra, etag⟩, readings, calls⟩ extra connection.state
  rw [attempts] at retry
  unfold reconcileProvisioning
  refine (Program.exec_bind retry).trans ?_
  rw [if_pos rfl]
  refine (Program.exec_bind (save_exec (d := ⟨_, n, calls⟩) ..)).trans ?_
  apply unanswered_exec
  show (c.ensureConnection calls.length workspace.namespaceName connection.name).map _ = _
  rw [unanswered]
  rfl

end Connections

section Workspaces

variable {c : Cloud τ} {d : Desk τ} {app : App} {record : WorkspaceRecord} {extra : Extra}

theorem repairCreator_exec (data : d.entity.data = .workspace record extra) :
    ∃ extra', (repairCreator d.entity record).exec (attend c) d =
        some (.ok { d.entity with data := .workspace record extra' }, { d with entity := { d.entity with data := .workspace record extra' } }) ∧
      ∀ status, Item.of status extra' = Item.of status extra := by
  obtain ⟨⟨partition, row, value, etag⟩, readings, calls⟩ := d
  obtain rfl : value = .workspace record extra := data
  unfold repairCreator
  split
  · exact ⟨extra, rfl, fun _ => rfl⟩
  · exact ⟨{ extra with creatorMembershipInitialized := some true }, rfl, fun _ => rfl⟩

theorem attempted_of_unready {state : ProvisioningState} (unready : state ≠ .ready) (now : Nat) :
    (Item.of state extra).attempted now = (decide (state ≠ .failed) || (Item.of state extra).due now) := by
  show (decide (state ≠ .ready) && _) = _
  rw [decide_eq_true unready, Bool.true_and]
  rfl

theorem connections_exec (record : WorkspaceRecord) :
    (if record.workspace.state = .ready then reconcileConnectionsLocked app record.workspace else pure ()).exec (attend c) d =
      some (.ok (), d) := by
  split <;> rfl

/-- What is left of a pass once the creator is there and no member needs an index. -/
theorem reconcileActive_exec (data : d.entity.data = .workspace record extra) : ∃ d₁ extra₁,
    (reconcileActive app d.entity.rowKey d.entity record).exec (attend c) d =
      (if record.workspace.state ≠ .ready then do
        if ← shouldRetry extra₁ record.workspace.state then do
          let record ← reconcileNamespace d₁.entity record
          if record.workspace.state = .ready then reconcileConnectionsLocked app record.workspace else pure ()
        else if record.workspace.state = .ready then reconcileConnectionsLocked app record.workspace else pure ()
      else if record.workspace.state = .ready then reconcileConnectionsLocked app record.workspace else pure () : Handler Unit).exec
        (attend c) d₁ ∧
    d₁.entity.data = .workspace record extra₁ ∧ d₁.calls = d.calls ∧ d₁.readings = d.readings ∧
      ∀ status, Item.of status extra₁ = Item.of status extra := by
  obtain ⟨extra₁, repaired, same⟩ := @repairCreator_exec τ c d record extra data
  refine ⟨{ d with entity := { d.entity with data := .workspace record extra₁ } }, extra₁, ?_, rfl, rfl, rfl, same⟩
  unfold reconcileActive
  refine (Program.exec_bind repaired).trans ?_
  refine (Program.exec_bind (show (list .members d.entity.rowKey).exec (attend c) _ = some (.ok [], _) from rfl)).trans ?_
  refine (Program.exec_bind (show (Program.forEach (ensureMemberIndex d.entity.rowKey) []).exec (attend c) _ = some (.ok (), _) from rfl)).trans ?_
  rfl

theorem reconcileActive_rests (data : d.entity.data = .workspace record extra)
    (rests : (Item.of record.workspace.state extra).attempted (c.clock d.readings) = false) :
    ∃ d', (reconcileActive app d.entity.rowKey d.entity record).exec (attend c) d = some (.ok (), d') ∧
      d'.calls = d.calls ∧ d'.item = some (Item.of record.workspace.state extra) := by
  obtain ⟨d₁, extra₁, goes, held, calls, readings, same⟩ := @reconcileActive_exec τ c d app record extra data
  rw [goes, ← calls, ← same]
  have item : d₁.item = some (Item.of record.workspace.state extra₁) := by simp [Desk.item, held]
  by_cases ready : record.workspace.state = .ready
  · refine ⟨d₁, ?_, rfl, item⟩
    rw [if_neg (by simpa using ready)]
    exact connections_exec record
  · have unready : (decide (record.workspace.state ≠ .failed) || (Item.of record.workspace.state extra₁).due (c.clock d₁.readings)) = false := by
      rw [readings, same]
      exact (attempted_of_unready ready _).symm.trans rests
    obtain ⟨n, retry⟩ := @shouldRetry_exec τ c d₁ extra₁ record.workspace.state
    rw [unready] at retry
    refine ⟨{ d₁ with readings := n }, ?_, rfl, item⟩
    rw [if_pos ready]
    refine (Program.exec_bind retry).trans ?_
    exact connections_exec record

theorem reconcileActive_attempts (data : d.entity.data = .workspace record extra)
    (attempts : (Item.of record.workspace.state extra).attempted (c.clock d.readings) = true)
    {result : Except BrokerError ProvisioningState} {call : τ}
    (answered : c.ensureNamespace d.calls.length record.workspace.namespaceName record.workspace.location = some (result, call)) :
    ∃ d' n, (reconcileActive app d.entity.rowKey d.entity record).exec (attend c) d = some (.ok (), d') ∧
      d'.calls = d.calls ++ [call] ∧ d'.item = some ((Item.of record.workspace.state extra).after (c.clock n) result) := by
  obtain ⟨d₁, extra₁, goes, held, calls, readings, same⟩ := @reconcileActive_exec τ c d app record extra data
  rw [goes, ← calls, ← same]
  rw [← calls] at answered
  rw [← readings, ← same] at attempts
  have ready : record.workspace.state ≠ .ready := by
    intro ready
    simp [Item.attempted, Item.of, ready] at attempts
  have goes_on : (decide (record.workspace.state ≠ .failed) || (Item.of record.workspace.state extra₁).due (c.clock d₁.readings)) = true := by
    exact (attempted_of_unready ready _).symm.trans attempts
  obtain ⟨n, retry⟩ := @shouldRetry_exec τ c d₁ extra₁ record.workspace.state
  rw [goes_on] at retry
  obtain ⟨⟨partition, row, value, etag⟩, number, earlier⟩ := d₁
  obtain rfl : value = .workspace record extra₁ := held
  let begun : Desk τ := ⟨⟨partition, row, .workspace { record with workspace :=
    { record.workspace with state := .provisioning, error := none } } extra₁, etag⟩, n + 1, earlier⟩
  let asked : Desk τ := { begun with calls := earlier ++ [call] }
  obtain ⟨m, error, extra', ended, item⟩ :=
    @provisioningResult_exec τ c asked extra₁ "Relay namespace provisioning failed" record.workspace.state result
  have reply : attend c begun (.ensureNamespace record.workspace.namespaceName record.workspace.location) = some (result, asked) := by
    show (c.ensureNamespace earlier.length record.workspace.namespaceName record.workspace.location).map _ = _
    rw [answered]
    rfl
  let left : WorkspaceRecord := { record with workspace := { record.workspace with
    state := ((Item.of record.workspace.state extra₁).after (c.clock asked.readings) result).state, error } }
  have ran : (reconcileNamespace ⟨partition, row, .workspace record extra₁, etag⟩ record).exec (attend c)
      ⟨⟨partition, row, .workspace record extra₁, etag⟩, n, earlier⟩ =
      some (.ok left, ⟨⟨partition, row, .workspace left extra', etag⟩, m + 1, earlier ++ [call]⟩) := by
    unfold reconcileNamespace
    refine (Program.exec_bind (save_exec (d := ⟨_, n, earlier⟩) ..)).trans ?_
    refine (Program.exec_bind (attempt_exec reply)).trans ?_
    refine (Program.exec_bind ended).trans ?_
    rfl
  refine ⟨⟨⟨partition, row, .workspace left extra', etag⟩, m + 1, earlier ++ [call]⟩, asked.readings, ?_, rfl, congrArg some item⟩
  rw [if_pos ready]
  refine (Program.exec_bind retry).trans ?_
  refine (Program.exec_bind ran).trans ?_
  exact connections_exec left

theorem reconcileActive_waits (data : d.entity.data = .workspace record extra)
    (attempts : (Item.of record.workspace.state extra).attempted (c.clock d.readings) = true)
    (unanswered : c.ensureNamespace d.calls.length record.workspace.namespaceName record.workspace.location = none) :
    (reconcileActive app d.entity.rowKey d.entity record).exec (attend c) d = none := by
  obtain ⟨d₁, extra₁, goes, held, calls, readings, same⟩ := @reconcileActive_exec τ c d app record extra data
  rw [goes]
  rw [← calls] at unanswered
  rw [← readings, ← same] at attempts
  have ready : record.workspace.state ≠ .ready := by
    intro ready
    simp [Item.attempted, Item.of, ready] at attempts
  obtain ⟨n, retry⟩ := @shouldRetry_exec τ c d₁ extra₁ record.workspace.state
  rw [(attempted_of_unready ready _).symm.trans attempts] at retry
  obtain ⟨⟨partition, row, value, etag⟩, number, earlier⟩ := d₁
  obtain rfl : value = .workspace record extra₁ := held
  rw [if_pos ready]
  refine (Program.exec_bind retry).trans ?_
  rw [if_pos rfl]
  apply Program.exec_bind_none
  unfold reconcileNamespace
  refine (Program.exec_bind (save_exec (d := ⟨_, n, earlier⟩) ..)).trans ?_
  apply unanswered_exec
  show (c.ensureNamespace earlier.length record.workspace.namespaceName record.workspace.location).map _ = _
  rw [unanswered]
  rfl

end Workspaces

section Passes

variable {c : Cloud τ} {d d' : Desk τ} {app : App} {workspace : Workspace} {i : Item}

/-- What the cloud answers when the item is provisioned. -/
def asked (c : Cloud τ) (workspace : Workspace) (d : Desk τ) : Option (Except BrokerError ProvisioningState × τ) :=
  match d.entity.data with
  | .workspace record _ => c.ensureNamespace d.calls.length record.workspace.namespaceName record.workspace.location
  | .connection connection _ => c.ensureConnection d.calls.length workspace.namespaceName connection.name
  | _ => none

theorem connection_pass {connection : Connection} {extra : Extra} (data : d.entity.data = .connection connection extra)
    (alive : connection.state ≠ .deleting) : pass app workspace d.entity =
      if connection.state = .ready then pure () else reconcileProvisioning workspace d.entity connection := by
  unfold pass reconcileConnection
  rw [data]
  show (if connection.state = .ready then pure () else if connection.state = .deleting then _ else _) = _
  rw [if_neg alive]

theorem workspace_pass {record : WorkspaceRecord} {extra : Extra} (data : d.entity.data = .workspace record extra)
    (alive : record.workspace.state ≠ .deleting) :
    pass app workspace d.entity = reconcileActive app d.entity.rowKey d.entity record := by
  unfold pass
  rw [data]
  exact if_neg alive

theorem passed_rests (item : d.item = some i) (alive : i.state ≠ .deleting) (rests : i.attempted (c.clock d.readings) = false) :
    ∃ d', passed app workspace c d = some d' ∧ d'.calls = d.calls ∧ d'.item = some i := by
  unfold passed
  cases data : d.entity.data with
  | workspace record extra =>
    obtain rfl : Item.of record.workspace.state extra = i := by simpa [Desk.item, data] using item
    obtain ⟨d', ran, calls, item⟩ := @reconcileActive_rests τ c d app record extra data rests
    rw [workspace_pass data alive, ran]
    exact ⟨d', rfl, calls, item⟩
  | connection connection extra =>
    obtain rfl : Item.of connection.state extra = i := by simpa [Desk.item, data] using item
    rw [connection_pass data alive]
    by_cases ready : connection.state = .ready
    · rw [if_pos ready]
      exact ⟨d, rfl, rfl, item⟩
    · obtain ⟨d', ran, calls, same⟩ := @reconcileProvisioning_skips τ c d workspace connection extra data
        ((attempted_of_unready ready _).symm.trans rests)
      rw [if_neg ready, ran]
      exact ⟨d', rfl, calls, by simp [Desk.item, same, data]⟩
  | _ => simp [Desk.item, data] at item

theorem passed_attempts (item : d.item = some i) (alive : i.state ≠ .deleting) (attempts : i.attempted (c.clock d.readings) = true)
    {result : Except BrokerError ProvisioningState} {call : τ} (answered : asked c workspace d = some (result, call)) :
    ∃ d' n, passed app workspace c d = some d' ∧ d'.calls = d.calls ++ [call] ∧ d'.item = some (i.after (c.clock n) result) := by
  unfold passed
  cases data : d.entity.data with
  | workspace record extra =>
    obtain rfl : Item.of record.workspace.state extra = i := by simpa [Desk.item, data] using item
    simp only [asked, data] at answered
    obtain ⟨d', n, ran, calls, item⟩ := @reconcileActive_attempts τ c d app record extra data attempts result call answered
    rw [workspace_pass data alive, ran]
    exact ⟨d', n, rfl, calls, item⟩
  | connection connection extra =>
    obtain rfl : Item.of connection.state extra = i := by simpa [Desk.item, data] using item
    simp only [asked, data] at answered
    have unready : connection.state ≠ .ready := by
      intro ready
      simp [Item.attempted, Item.of, ready] at attempts
    obtain ⟨d', n, ran, calls, item⟩ := @reconcileProvisioning_attempts τ c d workspace connection extra data
      ((attempted_of_unready unready _).symm.trans attempts) result call answered
    rw [connection_pass data alive, if_neg unready, ran]
    exact ⟨d', n, rfl, calls, item⟩
  | _ => simp [Desk.item, data] at item

/-- A pass that comes to its end has had an answer. -/
theorem asked_of_passed (item : d.item = some i) (alive : i.state ≠ .deleting) (attempts : i.attempted (c.clock d.readings) = true)
    (came : passed app workspace c d = some d') : ∃ result call, asked c workspace d = some (result, call) := by
  cases answered : asked c workspace d with
  | some answer => exact ⟨answer.1, answer.2, rfl⟩
  | none =>
    exfalso
    unfold passed at came
    cases data : d.entity.data with
    | workspace record extra =>
      obtain rfl : Item.of record.workspace.state extra = i := by simpa [Desk.item, data] using item
      simp only [asked, data] at answered
      rw [workspace_pass data alive, reconcileActive_waits data attempts answered] at came
      cases came
    | connection connection extra =>
      obtain rfl : Item.of connection.state extra = i := by simpa [Desk.item, data] using item
      simp only [asked, data] at answered
      have unready : connection.state ≠ .ready := by
        intro ready
        simp [Item.attempted, Item.of, ready] at attempts
      rw [connection_pass data alive, if_neg unready, reconcileProvisioning_waits data
        ((attempted_of_unready unready _).symm.trans attempts) answered] at came
      cases came
    | _ => simp [Desk.item, data] at item

end Passes

end Azbridge.Broker.Retries
