import Azbridge.Arm.Manager

/-!
# Provisioning a connection

Each step reads a resource, writes it if it is missing or set up otherwise, and goes on only if the
reply shows it as it has to be. Nothing is assumed of the replies.
-/

namespace Azbridge.Arm
open Azbridge.Broker (BrokerError ProvisioningState RelayRight)
open Locked (Query)

/-! ### Replies of the resource manager -/

/-- A URL that a header names, resolved against the endpoint. -/
structure OperationUrl where
  sameOrigin : Bool
  username : String
  password : Option String
  fragment : Option String
  path : String

inductive ReplyBody where
  | empty
  | json (value : Json)
  | malformed

structure HttpReply where
  status : Nat
  header : String → Option (List UInt8)
  body : ReplyBody

/-- The endpoint of the resource manager: how URLs are resolved against it, and whose resources it manages. -/
structure Endpoint where
  join : String → Option OperationUrl
  subscriptionPrefix : String

namespace Endpoint
variable (e : Endpoint)

/-- Unexpected origins and subscriptions are refused, though no operation is ever followed. -/
def checkOperation (operation : OperationUrl) : Bool :=
  operation.sameOrigin && operation.username.isEmpty && operation.password.isNone && operation.fragment.isNone &&
    e.subscriptionPrefix.toList.isPrefixOf operation.path.toList && !operation.path.toList.contains '%' &&
    !operation.path.toList.contains '\\'

def operations (reply : HttpReply) : List String → Except BrokerError Bool
  | [] => .ok false
  | header :: rest =>
    match reply.header header with
    | none => operations reply rest
    | some value => do
      let text ← headerText value
      let some operation := e.join text | throw .unavailable
      if e.checkOperation operation = false then throw .unavailable
      discard (operations reply rest)
      return true

/-- What a request returns; without a reply it failed on the way. -/
def receive : Option HttpReply → Except BrokerError ArmResponse
  | none => .error .unavailable
  | some reply =>
    if reply.status = 404 then .ok ⟨404, false, .null⟩
    else if reply.status < 200 ∨ 300 ≤ reply.status then
      .error (if reply.status = 409 then .conflict else if reply.status = 429 then .tooManyRequests else .unavailable)
    else do
      let named ← e.operations reply ["operation-location", "azure-asyncoperation", "location"]
      let asynchronous := reply.status = 202 || named
      match reply.body with
      | .empty => return ⟨reply.status, asynchronous, .null⟩
      | .json value => return ⟨reply.status, asynchronous, value⟩
      | .malformed => throw .unavailable

end Endpoint

/-! ### The chain of requests -/

namespace Manager
variable (m : Manager)

inductive Turn where
  /-- The whole call returns the state. -/
  | leave (state : ProvisioningState)
  | goOn (state : ProvisioningState)

def authorized (response : ArmResponse) : Bool := (response.property "requiresClientAuthorization").isTrue

def granted (response : ArmResponse) (right : RelayRight) : Bool := (response.property "rights").isOnly (armRight right)

/-- The reply to writing the resource, or the one that was read if it need not be written. -/
def writeIf (condition : Bool) (path : String) (body : Json) (response : ArmResponse) : Held ArmResponse :=
  if condition then request .put path (some body) else pure response

def ensureRule (namespaceName name : String) (state : ProvisioningState) (right : RelayRight) : Held Turn := do
  let response ← request .get (m.ruleUrl namespaceName name right) none
  if response.missing = false ∧ response.state false ≠ .ready then return .leave (response.state false)
  else
    let response ← writeIf (response.missing || !granted response right) (m.ruleUrl namespaceName name right)
      (.object [("properties", .object [("rights", .array [.string (armRight right)])])]) response
    require (!response.missing) .notFound
    let next := response.state false
    if next = .failed then return .leave next
    else if next ≠ .ready then return .goOn next
    else if granted response right = false then return .goOn .provisioning
    else return .goOn state

def ensureRules (namespaceName name : String) : List RelayRight → ProvisioningState → Held ProvisioningState
  | [], state => pure state
  | right :: rest, state => do
    match ← m.ensureRule namespaceName name state right with
    | .leave state => return state
    | .goOn state => ensureRules namespaceName name rest state

def ensureConnection (namespaceName name : String) : Held ProvisioningState := do
  let path ← lift (m.connectionPath namespaceName name)
  if (← m.namespaceReady namespaceName) = false then return .provisioning
  else
    let response ← request .get path none
    if response.missing = false ∧ response.state false ≠ .ready then return response.state false
    else
      let response ← writeIf (response.missing || !authorized response) path
        (.object [("properties", .object [("requiresClientAuthorization", .bool true)])]) response
      require (!response.missing) .notFound
      if response.state false ≠ .ready then return response.state false
      else if authorized response = false then return .provisioning
      else m.ensureRules namespaceName name [.send, .listen] .ready

end Manager

/-! ### Runs against any replies -/

/-- Requests with their replies, the last one first. -/
abbrev Transcript := List (ArmRequest × Option HttpReply)

/-- Each reply may depend on all that was asked before. -/
def answer (e : Endpoint) (arm : Transcript → ArmRequest → Option HttpReply) (w : Transcript) :
    (q : Query Cache ArmRequest) → Option (Except BrokerError (q.Reply Readings fun _ => ArmResponse) × Transcript)
  | .await request => some (e.receive (arm w request), (request, arm w request) :: w)
  | _ => none

/-- The last reply about a resource, if it was a success, or said that there is none. -/
def Latest (e : Endpoint) (w : Transcript) (path : String) (response : ArmResponse) : Prop :=
  ∃ request reply, w.find? (·.1.path = path) = some (request, reply) ∧ e.receive reply = .ok response

structure Provisioned (response : ArmResponse) : Prop where
  finished : response.asynchronous = false
  succeeded : response.property "provisioningState" = .string "Succeeded"

/-- A resource inside a namespace need not show a state. -/
structure ProvisionedChild (response : ArmResponse) : Prop where
  found : response.status ≠ 404
  finished : response.asynchronous = false
  succeeded : response.property "provisioningState" = .string "Succeeded" ∨
    (response.property "provisioningState").asStr = none ∧ response.body.isObject = true

/-- What the last replies have to show of the namespace, the connection and the two rules. -/
structure Settled (e : Endpoint) (m : Manager) (namespaceName name : String) (w : Transcript) : Prop where
  namespace_ : ∃ response, Latest e w (m.namespaceUrl namespaceName) response ∧ Provisioned response
  connection : ∃ response, Latest e w (m.connectionUrl namespaceName name) response ∧ ProvisionedChild response ∧
    response.property "requiresClientAuthorization" = .bool true
  rules : ∀ right, ∃ response, Latest e w (m.ruleUrl namespaceName name right) response ∧ ProvisionedChild response ∧
    response.property "rights" = .array [.string (armRight right)]

section Runs
variable {e : Endpoint} {m : Manager} {arm : Transcript → ArmRequest → Option HttpReply} {w w' : Transcript}
  {namespaceName name : String}

theorem isTrue_iff {value : Json} : value.isTrue = true ↔ value = .bool true := by
  cases value <;> simp [Json.isTrue]

theorem isOnly_iff {value : Json} {item : String} : value.isOnly item = true ↔ value = .array [.string item] := by
  unfold Json.isOnly
  split <;> simp_all

theorem provisioned_of_state {response : ArmResponse} (ready : response.state true = .ready) : Provisioned response := by
  unfold ArmResponse.state at ready
  dsimp only at ready
  split at ready
  · cases ready
  · split at ready
    · cases ready
    · split at ready
      · cases ready
      · next finished =>
        split at ready
        · next succeeded => exact ⟨by simpa using finished, Json.asStr_eq_some.mp succeeded⟩
        · simp at ready

theorem provisionedChild_of_state {response : ArmResponse} (found : response.missing = false)
    (ready : response.state false = .ready) : ProvisionedChild response := by
  unfold ArmResponse.state at ready
  dsimp only at ready
  split at ready
  · cases ready
  · split at ready
    · cases ready
    · split at ready
      · cases ready
      · next finished =>
        have there : response.status ≠ 404 := by simpa [ArmResponse.missing] using found
        split at ready
        · next succeeded => exact ⟨there, by simpa using finished, .inl (Json.asStr_eq_some.mp succeeded)⟩
        · split at ready
          · next absent => exact ⟨there, by simpa using finished, .inr ⟨absent.1, absent.2.2⟩⟩
          · cases ready

/-- Nothing was asked about other resources. -/
def Only (e : Endpoint) (path : String) (w w' : Transcript) : Prop :=
  ∀ other, other ≠ path → ∀ response, Latest e w' other response ↔ Latest e w other response

theorem Only.refl (path : String) : Only e path w w := fun _ _ _ => Iff.rfl

theorem Only.trans {path : String} {w₁ : Transcript} (first : Only e path w w₁) (second : Only e path w₁ w') :
    Only e path w w' := fun other different response => (second other different response).trans (first other different response)

theorem exec_request {method : Method} {path : String} {body : Option Json} {response : ArmResponse}
    (h : (request method path body).exec (answer e arm) w = some (.ok response, w')) :
    Latest e w' path response ∧ Only e path w w' := by
  have sent : e.receive (arm w ⟨method, path, body⟩) = .ok response ∧
      w' = (⟨method, path, body⟩, arm w ⟨method, path, body⟩) :: w := by
    have both := Option.some.inj h
    exact ⟨congrArg Prod.fst both, (congrArg Prod.snd both).symm⟩
  obtain ⟨received, rfl⟩ := sent
  refine ⟨⟨_, _, List.find?_cons_of_pos (by simp), received⟩, fun other different r => ?_⟩
  simp [Latest, Ne.symm different]

theorem exec_writeIf {condition : Bool} {path : String} {body : Json} {response response' : ArmResponse}
    (shown : Latest e w path response)
    (h : (Manager.writeIf condition path body response).exec (answer e arm) w = some (.ok response', w')) :
    Latest e w' path response' ∧ Only e path w w' := by
  unfold Manager.writeIf at h
  split at h
  · exact exec_request h
  · have both := Option.some.inj h
    obtain rfl : response = response' := Except.ok.inj (congrArg Prod.fst both)
    obtain rfl : w = w' := congrArg Prod.snd both
    exact ⟨shown, .refl path⟩

theorem exec_pure {α : Type} {a a' : α} (h : (pure a : Held α).exec (answer e arm) w = some (.ok a', w')) :
    a = a' ∧ w = w' := by
  have both := Option.some.inj h
  exact ⟨Except.ok.inj (congrArg Prod.fst both), congrArg Prod.snd both⟩

theorem exec_require {condition : Bool} {error : BrokerError} {u : Unit}
    (h : (require condition error).exec (answer e arm) w = some (.ok u, w')) : condition = true ∧ w = w' := by
  cases condition with
  | false =>
    have both := Option.some.inj h
    cases congrArg Prod.fst both
  | true => exact ⟨rfl, (exec_pure (a := ()) h).2⟩

def RuleSettled (e : Endpoint) (m : Manager) (namespaceName name : String) (w : Transcript) (right : RelayRight) : Prop :=
  ∃ response, Latest e w (m.ruleUrl namespaceName name right) response ∧ ProvisionedChild response ∧
    response.property "rights" = .array [.string (armRight right)]

/-- The state stays as it should be: ready only with what is told of the rule. -/
def Manager.Turn.Keeps (settled : Prop) : Manager.Turn → Prop
  | .leave next => next ≠ .ready
  | .goOn next => next = .ready → settled

theorem ensureRule_ok {state : ProvisioningState} {right : RelayRight} {turn : Manager.Turn}
    (h : (m.ensureRule namespaceName name state right).exec (answer e arm) w = some (.ok turn, w')) :
    Only e (m.ruleUrl namespaceName name right) w w' ∧
      turn.Keeps (state = .ready ∧ RuleSettled e m namespaceName name w' right) := by
  obtain ⟨response, w₁, read, h⟩ := Program.exec_bind_ok h
  obtain ⟨shown, only⟩ := exec_request read
  split at h
  · next other =>
    obtain ⟨rfl, rfl⟩ := exec_pure h
    exact ⟨only, other.2⟩
  · obtain ⟨response, w₂, written, h⟩ := Program.exec_bind_ok h
    obtain ⟨shown, only'⟩ := exec_writeIf shown written
    obtain ⟨_, w₃, required, h⟩ := Program.exec_bind_ok h
    obtain ⟨found, rfl⟩ := exec_require required
    have both := only.trans only'
    have there : response.missing = false := by simpa using found
    dsimp only at h
    split at h
    · next failed =>
      obtain ⟨rfl, rfl⟩ := exec_pure h
      have notReady : response.state false ≠ .ready := fun ready => by
        rw [failed] at ready
        cases ready
      exact ⟨both, notReady⟩
    · split at h
      · next other =>
        obtain ⟨rfl, rfl⟩ := exec_pure h
        exact ⟨both, fun ready => absurd ready other⟩
      · next ready =>
        split at h
        · obtain ⟨rfl, rfl⟩ := exec_pure h
          exact ⟨both, nofun⟩
        · next granted =>
          obtain ⟨rfl, rfl⟩ := exec_pure h
          have settled : RuleSettled e m namespaceName name w₂ right :=
            ⟨response, shown, provisionedChild_of_state there (not_not.mp ready),
              isOnly_iff.mp (Bool.not_eq_false _ ▸ granted)⟩
          exact ⟨both, fun ready => ⟨ready, settled⟩⟩

/-! ### Paths -/

theorem connectionUrl_ne_namespaceUrl : m.connectionUrl namespaceName name ≠ m.namespaceUrl namespaceName := by
  intro same
  have lengths := congrArg String.length same
  have more : "/hybridConnections/".length = 19 := rfl
  simp only [Manager.connectionUrl, String.length_append] at lengths
  omega

theorem ruleUrl_ne_connectionUrl (right : RelayRight) :
    m.ruleUrl namespaceName name right ≠ m.connectionUrl namespaceName name := by
  intro same
  have lengths := congrArg String.length same
  have more : "/authorizationRules/".length = 20 := rfl
  simp only [Manager.ruleUrl, String.length_append] at lengths
  omega

theorem ruleUrl_ne_namespaceUrl (right : RelayRight) :
    m.ruleUrl namespaceName name right ≠ m.namespaceUrl namespaceName := by
  intro same
  have lengths := congrArg String.length same
  have more : "/authorizationRules/".length = 20 := rfl
  simp only [Manager.ruleUrl, Manager.connectionUrl, String.length_append] at lengths
  omega

theorem ruleUrl_injective {right right' : RelayRight}
    (same : m.ruleUrl namespaceName name right = m.ruleUrl namespaceName name right') : right = right' := by
  have lengths := congrArg String.length same
  have send : (rule .send).length = 13 := rfl
  have listen : (rule .listen).length = 15 := rfl
  simp only [Manager.ruleUrl, String.length_append] at lengths
  cases right <;> cases right' <;> first | rfl | omega

/-- The rules are settled one after the other, and the state stays ready through all of them. -/
theorem ensureRules_ready {rights : List RelayRight} {state : ProvisioningState} (once : rights.Nodup)
    (h : (m.ensureRules namespaceName name rights state).exec (answer e arm) w = some (.ok .ready, w')) :
    state = .ready ∧ (∀ right ∈ rights, RuleSettled e m namespaceName name w' right) ∧
      ∀ path, (∀ right ∈ rights, path ≠ m.ruleUrl namespaceName name right) →
        ∀ response, Latest e w' path response ↔ Latest e w path response := by
  induction rights generalizing state w with
  | nil =>
    obtain ⟨rfl, rfl⟩ := exec_pure h
    exact ⟨rfl, nofun, fun _ _ _ => Iff.rfl⟩
  | cons right rest ih =>
    obtain ⟨fresh, later⟩ := List.nodup_cons.mp once
    obtain ⟨turn, w₁, step, h⟩ := Program.exec_bind_ok h
    obtain ⟨only, keeps⟩ := ensureRule_ok step
    cases turn with
    | leave next =>
      obtain ⟨rfl, -⟩ := exec_pure h
      exact absurd rfl keeps
    | goOn next =>
      obtain ⟨ready, settled, frame⟩ := ih later h
      obtain ⟨start, first⟩ := keeps ready
      refine ⟨start, fun r member => ?_, fun path apart response => ?_⟩
      · rcases List.mem_cons.mp member with rfl | member
        · obtain ⟨response, shown, grants⟩ := first
          have apart : ∀ other ∈ rest, m.ruleUrl namespaceName name r ≠ m.ruleUrl namespaceName name other :=
            fun other among same => fresh (ruleUrl_injective same ▸ among)
          exact ⟨response, (frame _ apart response).mpr shown, grants⟩
        · exact settled r member
      · have before := only path (apart right (.head _)) response
        exact (frame path (fun other among => apart other (.tail _ among)) response).trans before

theorem namespaceReady_ok (h : (m.namespaceReady namespaceName).exec (answer e arm) w = some (.ok true, w')) :
    ∃ response, Latest e w' (m.namespaceUrl namespaceName) response ∧ Provisioned response := by
  obtain ⟨response, w₁, read, h⟩ := Program.exec_bind_ok h
  obtain ⟨_, w₂, required, h⟩ := Program.exec_bind_ok h
  obtain ⟨-, rfl⟩ := exec_require required
  obtain ⟨ready, rfl⟩ := exec_pure h
  exact ⟨response, (exec_request read).1, provisioned_of_state (by simpa using ready)⟩

theorem connectionPath_ok {path : String} (h : m.connectionPath namespaceName name = .ok path) :
    path = m.connectionUrl namespaceName name := by
  unfold Manager.connectionPath at h
  cases first : validateConnection name with
  | error error =>
    rw [first] at h
    cases h
  | ok _ =>
    cases second : m.namespacePath namespaceName with
    | error error =>
      rw [first, second] at h
      cases h
    | ok _ =>
      rw [first, second] at h
      exact (Except.ok.inj h).symm

theorem ready_only_if_settled
    (h : (m.ensureConnection namespaceName name).exec (answer e arm) [] = some (.ok .ready, w)) :
    Settled e m namespaceName name w := by
  obtain ⟨path, w₀, valid, h⟩ := Program.exec_bind_ok h
  obtain rfl := connectionPath_ok (congrArg Prod.fst (Option.some.inj valid))
  obtain ⟨available, w₁, asked, h⟩ := Program.exec_bind_ok h
  split at h
  · obtain ⟨impossible, -⟩ := exec_pure h
    cases impossible
  · next up =>
    obtain ⟨response, w₂, read, h⟩ := Program.exec_bind_ok h
    obtain ⟨shown, only⟩ := exec_request read
    split at h
    · next other =>
      obtain ⟨impossible, -⟩ := exec_pure h
      exact absurd impossible other.2
    · obtain ⟨response, w₃, written, h⟩ := Program.exec_bind_ok h
      obtain ⟨shown, only'⟩ := exec_writeIf shown written
      obtain ⟨_, w₄, required, h⟩ := Program.exec_bind_ok h
      obtain ⟨found, rfl⟩ := exec_require required
      split at h
      · next other =>
        obtain ⟨impossible, -⟩ := exec_pure h
        exact absurd impossible other
      · next ready =>
        split at h
        · obtain ⟨impossible, -⟩ := exec_pure h
          cases impossible
        · next authorized =>
          have once : [RelayRight.send, RelayRight.listen].Nodup := by decide
          obtain ⟨-, rules, frame⟩ := ensureRules_ready once h
          rw [Bool.not_eq_false] at up authorized
          subst up
          refine ⟨?_, ?_, fun right => rules right (by cases right <;> simp)⟩
          · obtain ⟨state, latest, provisioned⟩ := namespaceReady_ok asked
            have kept := (only.trans only') _ connectionUrl_ne_namespaceUrl.symm state
            have last := frame (m.namespaceUrl namespaceName) (fun right _ => (ruleUrl_ne_namespaceUrl right).symm) state
            exact ⟨state, last.mpr (kept.mpr latest), provisioned⟩
          · have last := frame (m.connectionUrl namespaceName name) (fun right _ => (ruleUrl_ne_connectionUrl right).symm) response
            have there : response.missing = false := by simpa using found
            exact ⟨response, last.mpr shown, provisionedChild_of_state there (not_not.mp ready), isTrue_iff.mp authorized⟩

end Runs

/-- What is there is as it should be, and one rule is missing until it is written. -/
def localArm (w : Transcript) (request : ArmRequest) : Option HttpReply :=
  let reply (status : Nat) (properties : List (String × Json)) : Option HttpReply :=
    some ⟨status, fun _ => none, .json (.object [("properties", .object properties)])⟩
  if "/azbridge-listen".toList.isSuffixOf request.path.toList then
    if request.method = .put then reply 201 [("rights", .array [.string "Listen"])] else reply 404 []
  else if "/azbridge-send".toList.isSuffixOf request.path.toList then reply 200 [("rights", .array [.string "Send"])]
  else if w.isEmpty then reply 200 [("provisioningState", .string "Succeeded")]
  else reply 200 [("requiresClientAuthorization", .bool true)]

def localEndpoint : Endpoint := ⟨fun _ => none, "/subscriptions/s/"⟩

def localManager : Manager :=
  ⟨"/subscriptions/s/resourceGroups/g/providers/Microsoft.Relay/namespaces", fun _ => none, fun _ => [], fun _ _ => "",
    ⟨Char.isAlphanum, fun c => [c.toLower]⟩⟩

theorem ready_only_if_settled_local : ∃ w,
    (localManager.ensureConnection "relay-ns" "web").exec (answer localEndpoint localArm) [] = some (.ok .ready, w) ∧
      Settled localEndpoint localManager "relay-ns" "web" w := by
  have ended : ((localManager.ensureConnection "relay-ns" "web").exec (answer localEndpoint localArm) []).map (·.1) =
      some (.ok .ready) := by decide +kernel
  obtain ⟨⟨result, w⟩, run, same⟩ := Option.map_eq_some_iff.mp ended
  obtain rfl : result = .ok .ready := same
  exact ⟨w, run, ready_only_if_settled run⟩

end Azbridge.Arm
