import Azbridge.Arm.Provision
import Azbridge.Broker.Retries
import Azbridge.Broker.Scripts

/-!
# Which replies are tried again

The client of the resource manager turns a failing reply into a `BrokerError`, and the reconciler
decides by that error alone whether the item is attempted again.
-/

namespace Azbridge.Arm
open Azbridge.Broker (App BrokerError ProvisioningState Uuid Workspace)
open Azbridge.Broker.Retries (Cloud Desk Item passed)
open Azbridge.Broker.Reconciler (maxAttempts)

def Manager.ensureNamespace (m : Manager) (locations : List String) (namespaceName location : String) :
    Held ProvisioningState := do
  let path ← lift (m.namespacePath namespaceName)
  require (locations.contains location) .badRequest
  let response ← request .get path none
  if response.missing = false then return response.state true
  else
    let response ← request .put path (some (.object [
      ("location", .string location),
      ("sku", .object [("name", .string "Standard"), ("tier", .string "Standard")]),
      ("properties", .object [("minimumTlsVersion", .string "1.2")])]))
    require (!response.missing) .notFound
    return response.state true

/-- The clocks, and what the resource manager replies in each call. -/
structure Provider where
  manager : Manager
  endpoint : Endpoint
  locations : List String
  arm : Nat → Transcript → ArmRequest → Option HttpReply
  clock : Nat → Nat
  uuid : Nat → Uuid

/-- What the reconciler gets of it; each call leaves its transcript. -/
def Provider.cloud (p : Provider) : Cloud Transcript where
  clock := p.clock
  uuid := p.uuid
  ensureNamespace n namespaceName location :=
    (p.manager.ensureNamespace p.locations namespaceName location).exec (answer p.endpoint (p.arm n)) []
  ensureConnection n namespaceName name :=
    (p.manager.ensureConnection namespaceName name).exec (answer p.endpoint (p.arm n)) []

/-! ### A failing reply ends the call -/

section Prompt

variable {e : Endpoint} {arm : Transcript → ArmRequest → Option HttpReply} {α β : Type}

/-- The call ends with the failure of any reply that it gets. -/
def Prompt (e : Endpoint) (arm : Transcript → ArmRequest → Option HttpReply) (p : Held α) : Prop :=
  ∀ w result w', p.exec (answer e arm) w = some (result, w') →
    ∃ seen, w' = seen ++ w ∧ ∀ entry ∈ seen, ∀ error, e.receive entry.2 = .error error → result = .error error

theorem prompt_done (result : Except BrokerError α) : Prompt e arm (.done result) := by
  intro w result' w' ran
  cases ran
  exact ⟨[], rfl, by simp⟩

theorem prompt_request (method : Method) (path : String) (body : Option Json) : Prompt e arm (request method path body) := by
  intro w result w' ran
  cases ran
  refine ⟨[_], rfl, ?_⟩
  intro entry member error failed
  obtain rfl := List.mem_singleton.mp member
  exact failed

theorem Prompt.bind {p : Held α} {f : α → Held β} (first : Prompt e arm p) (rest : ∀ a, Prompt e arm (f a)) :
    Prompt e arm (p >>= f) := by
  intro w result w' ran
  cases Program.exec_bind_cases ran with
  | inl failed =>
    obtain ⟨error, ended, rfl⟩ := failed
    obtain ⟨seen, grown, prompt⟩ := first _ _ _ ended
    refine ⟨seen, grown, ?_⟩
    intro entry member error' failed
    cases prompt entry member error' failed
    rfl
  | inr passed =>
    obtain ⟨a, w₁, ended, ran⟩ := passed
    obtain ⟨seen, rfl, prompt⟩ := first _ _ _ ended
    obtain ⟨later, rfl, prompt'⟩ := rest a _ _ _ ran
    refine ⟨later ++ seen, (List.append_assoc ..).symm, ?_⟩
    intro entry member error failed
    cases List.mem_append.mp member with
    | inl late => exact prompt' entry late error failed
    | inr early => cases prompt entry early error failed

theorem prompt_pure (a : α) : Prompt e arm (pure a : Held α) := prompt_done _

theorem prompt_require (condition : Bool) (error : BrokerError) : Prompt e arm (require condition error) := by
  unfold require
  split <;> exact prompt_done _

theorem prompt_writeIf (condition : Bool) (path : String) (body : Json) (response : ArmResponse) :
    Prompt e arm (Manager.writeIf condition path body response) := by
  unfold Manager.writeIf
  split
  · exact prompt_request _ _ _
  · exact prompt_pure _

variable (m : Manager) (namespaceName name : String)

theorem prompt_namespaceReady : Prompt e arm (m.namespaceReady namespaceName) := by
  apply Prompt.bind (prompt_request _ _ _)
  intro response
  apply Prompt.bind (prompt_require _ _)
  intro _
  exact prompt_pure _

theorem prompt_ensureRule (state : ProvisioningState) (right : Azbridge.Broker.RelayRight) :
    Prompt e arm (m.ensureRule namespaceName name state right) := by
  apply Prompt.bind (prompt_request _ _ _)
  intro response
  split
  · exact prompt_pure _
  · apply Prompt.bind (prompt_writeIf _ _ _ _)
    intro response
    apply Prompt.bind (prompt_require _ _)
    intro _
    dsimp only
    split
    · exact prompt_pure _
    · split
      · exact prompt_pure _
      · split <;> exact prompt_pure _

theorem prompt_ensureRules (rights : List Azbridge.Broker.RelayRight) (state : ProvisioningState) :
    Prompt e arm (m.ensureRules namespaceName name rights state) := by
  induction rights generalizing state with
  | nil => exact prompt_pure _
  | cons right rights ih =>
    apply Prompt.bind (prompt_ensureRule _ _ _ _ _)
    intro turn
    cases turn with
    | leave state => exact prompt_pure _
    | goOn state => exact ih state

theorem prompt_ensureConnection : Prompt e arm (m.ensureConnection namespaceName name) := by
  apply Prompt.bind (prompt_done _)
  intro path
  apply Prompt.bind (prompt_namespaceReady _ _)
  intro ready
  split
  · exact prompt_pure _
  · apply Prompt.bind (prompt_request _ _ _)
    intro response
    split
    · exact prompt_pure _
    · apply Prompt.bind (prompt_writeIf _ _ _ _)
      intro response
      apply Prompt.bind (prompt_require _ _)
      intro _
      split
      · exact prompt_pure _
      · split
        · exact prompt_pure _
        · exact prompt_ensureRules _ _ _ _ _

theorem prompt_ensureNamespace (locations : List String) (location : String) :
    Prompt e arm (m.ensureNamespace locations namespaceName location) := by
  apply Prompt.bind (prompt_done _)
  intro path
  apply Prompt.bind (prompt_require _ _)
  intro _
  apply Prompt.bind (prompt_request _ _ _)
  intro response
  split
  · exact prompt_pure _
  · apply Prompt.bind (prompt_request _ _ _)
    intro response
    apply Prompt.bind (prompt_require _ _)
    intro _
    exact prompt_pure _

end Prompt

/-! ### What becomes of the item -/

/-- Throttled, or failed on the other side. -/
def Transient (status : Nat) : Prop := status = 429 ∨ 500 ≤ status ∧ status < 600

/-- The request itself is refused. -/
def Rejects (status : Nat) : Prop := 400 ≤ status ∧ status < 500 ∧ status ≠ 404 ∧ status ≠ 408 ∧ status ≠ 429

/-- Some passes follow, each with any clock and any replies. -/
def Later (app : App) (workspace : Workspace) : Desk Transcript → Desk Transcript → Prop :=
  Relation.ReflTransGen fun d d' => ∃ c : Cloud Transcript, passed app workspace c d = some d'

/-- After a reply of this status, the item is attempted again once its backoff is over, or it is failed
and never attempted again. -/
structure Classified (app : App) (workspace : Workspace) (status : Nat) (d : Desk Transcript) : Prop where
  transient : Transient status → ∃ i, d.item = some i ∧ (i.attempts < maxAttempts →
    ∀ (c : Cloud Transcript) d', i.retryAt ≤ c.clock d.readings → passed app workspace c d = some d' → d'.calls ≠ d.calls)
  rejected : Rejects status → (∃ i, d.item = some i ∧ i.state = .failed) ∧
    ∀ d', Later app workspace d d' → d'.calls = d.calls

/-- The client makes the wrong kind of error of it. -/
def Misread (status : Nat) : Prop := status = 429 ∨ Rejects status ∧ status ≠ 409

section Items

variable {app : App} {workspace : Workspace} {d d' : Desk Transcript} {i : Item}

theorem never_attempted (item : d.item = some i) (failed : i.state = .failed)
    (stays : i.retryable = false ∨ maxAttempts ≤ i.attempts) (later : Later app workspace d d') :
    d'.calls = d.calls ∧ d'.item = some i := by
  induction later with
  | refl => exact ⟨rfl, item⟩
  | tail _ step ih =>
    obtain ⟨c, came⟩ := step
    obtain ⟨same, there⟩ := ih
    have rests : ∀ now, i.attempted now = false := by
      intro now
      cases stays with
      | inl refused => simp [Item.attempted, Item.due, failed, refused]
      | inr spent => simp [Item.attempted, Item.due, failed, Nat.not_lt.mpr spent]
    obtain ⟨d₁, ran, calls, left⟩ := @Broker.Retries.passed_rests _ c _ app workspace _ there (by rw [failed]; decide) (rests _)
    cases came.symm.trans ran
    exact ⟨calls.trans same, left⟩

theorem attempted_again (item : d.item = some i) (failed : i.state = .failed) (retryable : i.retryable = true)
    (few : i.attempts < maxAttempts) {c : Cloud Transcript} (waited : i.retryAt ≤ c.clock d.readings)
    (came : passed app workspace c d = some d') : d'.calls ≠ d.calls := by
  have attempts : i.attempted (c.clock d.readings) = true := by
    simp [Item.attempted, Item.due, failed, retryable, few, waited]
  have alive : i.state ≠ .deleting := by rw [failed]; decide
  obtain ⟨result, call, answered⟩ := Broker.Retries.asked_of_passed item alive attempts came
  obtain ⟨d₁, n, ran, calls, _⟩ := @Broker.Retries.passed_attempts _ c _ app workspace _ item alive attempts _ _ answered
  cases came.symm.trans ran
  rw [calls]
  simp

/-- A clock that shows this time, and a cloud that provisions everything at once. -/
def willing (time : Nat) : Cloud Transcript where
  clock _ := time
  uuid _ := ⟨List.replicate 32 '0', rfl, rfl⟩
  ensureNamespace _ _ _ := some (.ok .ready, [])
  ensureConnection _ _ _ := some (.ok .ready, [])

theorem willing_answers (item : d.item = some i) (time : Nat) :
    ∃ result, Broker.Retries.asked (willing time) workspace d = some (result, []) := by
  unfold Broker.Retries.asked
  cases data : d.entity.data with
  | workspace record extra => exact ⟨_, rfl⟩
  | connection connection extra => exact ⟨_, rfl⟩
  | _ => simp [Desk.item, data] at item

end Items

def failure (status : Nat) : BrokerError :=
  if status = 409 then .conflict else if status = 429 then .tooManyRequests else .unavailable

theorem receive_failing {e : Endpoint} {reply : HttpReply} (there : reply.status ≠ 404) (failing : reply.status < 200 ∨ 300 ≤ reply.status) :
    e.receive (some reply) = .error (failure reply.status) := by
  unfold Endpoint.receive
  simp only
  rw [if_neg there, if_pos failing]
  rfl

theorem attempts_left {attempts : Nat} : Text.saturatingAdd attempts 1 < maxAttempts ↔ attempts + 1 < maxAttempts := by
  unfold Text.saturatingAdd Text.u64 maxAttempts
  omega

section Classifying

variable {app : App} {workspace : Workspace} {p : Provider} {d d' : Desk Transcript} {i : Item} {call : Transcript}

/-- A pass that called the resource manager leaves the item as the call ended, and any failing reply
ended it. -/
theorem item_after_call (item : d.item = some i) (alive : i.state ≠ .deleting)
    (came : passed app workspace p.cloud d = some d') (called : d'.calls = d.calls ++ [call]) :
    ∃ n result, d'.item = some (i.after n result) ∧
      ∀ entry ∈ call, ∀ error, p.endpoint.receive entry.2 = .error error → result = .error error := by
  have attempts : i.attempted (p.cloud.clock d.readings) = true := by
    by_contra rests
    obtain ⟨d₁, ran, calls, _⟩ := @Broker.Retries.passed_rests _ p.cloud _ app workspace _ item alive (Bool.eq_false_iff.mpr rests)
    cases came.symm.trans ran
    rw [called] at calls
    simp at calls
  obtain ⟨result, call', answered⟩ := Broker.Retries.asked_of_passed item alive attempts came
  obtain ⟨d₁, n, ran, calls, left⟩ := @Broker.Retries.passed_attempts _ p.cloud _ app workspace _ item alive attempts _ _ answered
  cases came.symm.trans ran
  obtain rfl : call = call' := by
    rw [called] at calls
    simpa using calls
  refine ⟨_, result, left, ?_⟩
  unfold Broker.Retries.asked at answered
  split at answered
  · obtain ⟨seen, same, prompt⟩ := prompt_ensureNamespace _ _ _ _ _ _ _ answered
    rw [List.append_nil] at same
    exact same ▸ prompt
  · obtain ⟨seen, same, prompt⟩ := prompt_ensureConnection _ _ _ _ _ _ answered
    rw [List.append_nil] at same
    exact same ▸ prompt
  · cases answered

theorem throttled_unclassified {now : Nat} (left : d.item = some (i.after now (.error (failure 429)))) (few : i.attempts + 1 < maxAttempts) :
    ¬ Classified app workspace 429 d := by
  intro classified
  obtain ⟨i', there, again⟩ := classified.transient (.inl rfl)
  cases left.symm.trans there
  have rests : ∀ time, (i.after now (.error (failure 429))).attempted time = false := by
    intro time
    simp [Item.attempted, Item.due, Item.after, failure]
  have alive : (i.after now (.error (failure 429))).state ≠ .deleting := by simp [Item.after]
  obtain ⟨d₁, ran, calls, _⟩ := @Broker.Retries.passed_rests _ (willing (i.after now (.error (failure 429))).retryAt) _ app workspace _
    left alive (rests _)
  exact again (attempts_left.mpr few) _ d₁ (Nat.le_refl _) ran calls

theorem refused_unclassified {status now : Nat} (left : d.item = some (i.after now (.error .unavailable))) (few : i.attempts + 1 < maxAttempts)
    (rejects : Rejects status) : ¬ Classified app workspace status d := by
  intro classified
  obtain ⟨_, ends⟩ := classified.rejected rejects
  have few' : Text.saturatingAdd i.attempts 1 < maxAttempts := attempts_left.mpr few
  have attempts : (i.after now (.error .unavailable)).attempted (i.after now (.error .unavailable)).retryAt = true := by
    simp only [Item.attempted, Item.due, Item.after]
    simp [few']
  have alive : (i.after now (.error .unavailable)).state ≠ .deleting := by simp [Item.after]
  obtain ⟨result, there⟩ := @willing_answers workspace _ _ left (i.after now (.error .unavailable)).retryAt
  obtain ⟨d₁, _, ran, calls, _⟩ := @Broker.Retries.passed_attempts _ (willing (i.after now (.error .unavailable)).retryAt)
    _ app workspace _ left alive attempts _ _ there
  have same := ends d₁ (.single ⟨_, ran⟩)
  rw [calls] at same
  simp at same

/-- An item is classified by a reply as documented exactly if the client reads the status right, or the
item has no attempts left. -/
theorem retries_classified_iff (item : d.item = some i) (alive : i.state ≠ .deleting)
    (came : passed app workspace p.cloud d = some d') (called : d'.calls = d.calls ++ [call])
    {request : ArmRequest} {reply : HttpReply} (seen : (request, some reply) ∈ call) :
    Classified app workspace reply.status d' ↔ (Misread reply.status → maxAttempts ≤ i.attempts + 1) := by
  obtain ⟨now, result, left, prompt⟩ := item_after_call item alive came called
  have fails : reply.status ≠ 404 → reply.status < 200 ∨ 300 ≤ reply.status → result = .error (failure reply.status) := by
    intro there failing
    exact prompt _ seen _ (receive_failing there failing)
  generalize reply.status = status at fails ⊢
  constructor
  · intro classified misread
    by_contra few
    have few' : i.attempts + 1 < maxAttempts := Nat.lt_of_not_le few
    cases misread with
    | inl throttled =>
      subst throttled
      obtain rfl := fails (by decide) (by decide)
      exact throttled_unclassified left few' classified
    | inr refused =>
      obtain ⟨rejects, other⟩ := refused
      have failed : result = .error (failure status) := by
        have := rejects
        unfold Rejects at this
        exact fails (by omega) (.inr (by omega))
      have error : failure status = .unavailable := by simp [failure, other, rejects.2.2.2.2]
      rw [failed, error] at left
      exact refused_unclassified left few' rejects classified
  · intro spent
    constructor
    · intro transient
      have failed : result = .error (failure status) := by
        have := transient
        unfold Transient at this
        exact fails (by omega) (.inr (by omega))
      subst failed
      refine ⟨_, left, ?_⟩
      intro few c d₁ waited ran
      have few' : i.attempts + 1 < maxAttempts := attempts_left.mp few
      have unthrottled : status ≠ 429 := by
        intro throttled
        have := spent (.inl throttled)
        omega
      have unconflicting : status ≠ 409 := by
        unfold Transient at transient
        omega
      have server : failure status = .unavailable := by simp [failure, unconflicting, unthrottled]
      rw [server] at left waited few
      exact attempted_again left rfl rfl few waited ran
    · intro rejects
      have failed : result = .error (failure status) := by
        have := rejects
        unfold Rejects at this
        exact fails (by omega) (.inr (by omega))
      subst failed
      refine ⟨⟨_, left, rfl⟩, ?_⟩
      intro d₁ later
      refine (never_attempted left rfl ?_ later).1
      by_cases conflict : status = 409
      · left
        subst conflict
        rfl
      · right
        have := spent (.inr ⟨rejects, conflict⟩)
        show maxAttempts ≤ Text.saturatingAdd i.attempts 1
        have := @attempts_left i.attempts
        omega

end Classifying

/-! ### Two replies to a first attempt -/

/-- Every reply has this status. -/
def failingProvider (status : Nat) : Provider where
  manager := localManager
  endpoint := localEndpoint
  locations := ["eastus"]
  arm _ _ _ := some ⟨status, fun _ => none, .empty⟩
  clock _ := 0
  uuid _ := Broker.uniform '0' rfl

def newDesk : Desk Transcript where
  entity := ⟨"broker", Broker.localWorkspace, .workspace { Broker.localRecord with
    workspace := { Broker.localRecord.workspace with state := .pending } } Broker.localExtra, ""⟩

def newItem : Item := .of .pending Broker.localExtra

theorem failing_pass (status : Nat) (failing : status = 503 ∨ status = 429) : ∃ d' call request,
    passed Broker.localApp Broker.localRecord.workspace (failingProvider status).cloud newDesk = some d' ∧
      d'.calls = [call] ∧ (request, some ⟨status, fun _ => none, .empty⟩) ∈ call := by
  obtain rfl | rfl := failing
  · exact ⟨_, _, _, rfl, rfl, .head _⟩
  · exact ⟨_, _, _, rfl, rfl, .head _⟩

theorem retries_classified_iff_unavailable : ∃ d',
    passed Broker.localApp Broker.localRecord.workspace (failingProvider 503).cloud newDesk = some d' ∧
      (Classified Broker.localApp Broker.localRecord.workspace 503 d' ↔ (Misread 503 → maxAttempts ≤ newItem.attempts + 1)) := by
  obtain ⟨d', call, request, came, called, seen⟩ := failing_pass 503 (.inl rfl)
  have item : newDesk.item = some newItem := rfl
  have alive : newItem.state ≠ .deleting := by decide
  exact ⟨d', came, retries_classified_iff item alive came called seen⟩

/-- A first attempt that is throttled is the last one. -/
theorem throttled_never_again : ¬ ∀ (app : App) (workspace : Workspace) (p : Provider) (d d' : Desk Transcript) (i : Item)
    (call : Transcript) (request : ArmRequest) (reply : HttpReply), d.item = some i → i.state ≠ .deleting →
      passed app workspace p.cloud d = some d' → d'.calls = d.calls ++ [call] → (request, some reply) ∈ call →
        Classified app workspace reply.status d' := by
  intro claim
  obtain ⟨d', call, request, came, called, seen⟩ := failing_pass 429 (.inr rfl)
  have item : newDesk.item = some newItem := rfl
  have alive : newItem.state ≠ .deleting := by decide
  obtain ⟨now, result, left, prompt⟩ := item_after_call item alive came called
  have ended : result = .error (failure 429) := prompt _ seen _ (receive_failing (by decide) (.inr (by decide)))
  rw [ended] at left
  exact throttled_unclassified left (by decide) (claim _ _ _ _ _ _ _ _ _ item alive came called seen)

end Azbridge.Arm
