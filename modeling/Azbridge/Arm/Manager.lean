import Azbridge.Arm.Signing
import Azbridge.Lib.Lock
import Azbridge.Lib.Table

/-!
# The Relay manager

Tokens, rotation and deletion as the resource manager's client performs them. All of them hold the
key cache from before their first request to their end, so that a key read in flight cannot come
back after a rotation or a deletion.
-/

namespace Azbridge.Arm
open Azbridge.Broker (BrokerError ProvisioningState RelayRight RelayTokenResponse)
open Locked (Query)

/-- Nanoseconds on the monotonic clock. -/
abbrev Instant := Nat

def keyTtl : Nat := 300 * Sas.second

def maxCachedKeys : Nat := 1024

/-! ### Responses -/

/-- `serde_json::Value`; numbers are kept as their text. -/
inductive Json where
  | null
  | bool (value : Bool)
  | number (text : String)
  | string (value : String)
  | array (items : List Json)
  | object (fields : List (String × Json))

/-- Indexing by a name: `null` where there is no such field. -/
def Json.field (name : String) : Json → Json
  | .object fields => ((fields.find? (·.1 = name)).map (·.2)).getD .null
  | _ => .null

def Json.asStr : Json → Option String
  | .string value => some value
  | _ => none

theorem Json.asStr_eq_some {value : Json} {text : String} : value.asStr = some text ↔ value = .string text := by
  cases value <;> simp [Json.asStr]

def Json.isObject : Json → Bool
  | .object _ => true
  | _ => false

/-- `== true`. -/
def Json.isTrue : Json → Bool
  | .bool value => value
  | _ => false

/-- `== json!([item])`. -/
def Json.isOnly (item : String) : Json → Bool
  | .array [.string value] => value = item
  | _ => false

/-- Bytes of a header, as text if they are visible ASCII. -/
def headerText (value : List UInt8) : Except BrokerError String :=
  if value.all fun byte => (0x20 ≤ byte && byte < 0x7f) || byte == 0x09 then
    .ok (String.ofList (value.map fun byte => Char.ofNat byte.toNat))
  else .error .unavailable

structure ArmResponse where
  status : Nat
  asynchronous : Bool
  body : Json

namespace ArmResponse

def property (r : ArmResponse) (name : String) : Json := (r.body.field "properties").field name

def state (r : ArmResponse) (isNamespace : Bool) : ProvisioningState :=
  let state := (r.property "provisioningState").asStr
  if state = some "Failed" ∨ state = some "Canceled" ∨ state = some "Cancelled" then .failed
  else if state = some "Deleting" then .deleting
  else if r.asynchronous then .provisioning
  else if state = some "Succeeded" then .ready
  else if state = none ∧ isNamespace = false ∧ r.body.isObject = true then .ready
  else .provisioning

def missing (r : ArmResponse) : Bool := r.status = 404

/-- The primary key, if there is one of a fitting length. -/
def primaryKey (r : ArmResponse) : Option String :=
  (r.body.field "primaryKey").asStr.filter fun key => !key.isEmpty && key.utf8ByteSize ≤ 256

end ArmResponse

inductive Method where
  | get | put | post | delete
  deriving DecidableEq, Repr

structure ArmRequest where
  method : Method
  path : String
  body : Option Json

/-! ### The cache -/

structure CachedKey where
  key : String
  expires : Instant
  deriving DecidableEq, Repr

abbrev KeyId := String × String × RelayRight

def keyId (namespaceName name : String) (right : RelayRight) : KeyId :=
  (Text.toAsciiLowercase namespaceName, Text.toAsciiLowercase name, right)

abbrev Cache := Table KeyId CachedKey

/-- What the clocks show; the monotonic one is read anew for each entry. -/
structure Readings where
  instant : KeyId → Instant
  system : Sas.SystemTime

inductive Outcome where
  | token (response : RelayTokenResponse)
  | rotated
  | deleted (confirmed : Bool)
  deriving DecidableEq, Repr

/-- A call that holds the cache. -/
abbrev Held := Locked.Body Cache ArmRequest Readings (fun _ => ArmResponse) BrokerError

def request (method : Method) (path : String) (body : Option Json) : Held ArmResponse :=
  Program.request (Query.await ⟨method, path, body⟩)

def cache : Held Cache := Program.request Query.get

def setCache (keys : Cache) : Held Unit := Program.request (Query.put keys)

def readings : Held Readings := Program.request Query.readings

def require (condition : Bool) (e : BrokerError) : Held Unit := if condition then pure () else throw e

def lift {α : Type} (result : Except BrokerError α) : Held α := .done result

structure Manager where
  resourcePrefix : String
  libs : Sas.Libraries

namespace Manager
variable (m : Manager)

def namespaceUrl (namespaceName : String) : String := m.resourcePrefix ++ "/" ++ namespaceName

def connectionUrl (namespaceName name : String) : String :=
  m.namespaceUrl namespaceName ++ "/hybridConnections/" ++ name

def ruleUrl (namespaceName name : String) (right : RelayRight) : String :=
  m.connectionUrl namespaceName name ++ "/authorizationRules/" ++ rule right

def namespacePath (namespaceName : String) : Except BrokerError String := do
  validateNamespace namespaceName
  return m.namespaceUrl namespaceName

def connectionPath (namespaceName name : String) : Except BrokerError String := do
  validateConnection name
  discard (m.namespacePath namespaceName)
  return m.connectionUrl namespaceName name

def namespaceReady (namespaceName : String) : Held Bool := do
  let response ← request .get (m.namespaceUrl namespaceName) none
  require (!response.missing) .notFound
  return response.state true == .ready

def connectionReady (namespaceName name : String) : Held Bool := do
  if ← m.namespaceReady namespaceName then
    let response ← request .get (m.connectionUrl namespaceName name) none
    require (!response.missing) .notFound
    return response.state false == .ready && (response.property "requiresClientAuthorization").isTrue
  else return false

def delete (path : String) : Held Bool := do
  let response ← request .delete path none
  if response.missing then return true
  else
    let state := (response.property "provisioningState").asStr
    if state = some "Failed" ∨ state = some "Canceled" ∨ state = some "Cancelled" then throw .unavailable
    else if response.asynchronous then return false
    else return state == none || state == some "Succeeded"

/-- Every entry of the connection. -/
def ofConnection (namespaceName name : String) (id : KeyId) : Bool :=
  Text.eqIgnoreAsciiCase id.1 namespaceName && Text.eqIgnoreAsciiCase id.2.1 name

def ofNamespace (namespaceName : String) (id : KeyId) : Bool := Text.eqIgnoreAsciiCase id.1 namespaceName

def forget (dropped : KeyId → Bool) : Held Unit := do
  setCache ((← cache).retain fun id _ => !dropped id)

def deleteNamespace (namespaceName : String) : Held Outcome := do
  forget (ofNamespace namespaceName)
  return .deleted (← delete (m.namespaceUrl namespaceName))

def deleteConnection (namespaceName name : String) : Held Outcome := do
  forget (ofConnection namespaceName name)
  return .deleted (← delete (m.connectionUrl namespaceName name))

def regenerate (namespaceName name : String) (right : RelayRight) : Held Unit := do
  let response ← request .post (m.ruleUrl namespaceName name right ++ "/regenerateKeys")
    (some (.object [("keyType", .string "PrimaryKey")]))
  require (!response.missing) .notFound
  require (!response.asynchronous && response.primaryKey.isSome) .unavailable

/-- Both rights are invalidated even if only one is rotated. -/
def rotateKeys (namespaceName name : String) : Held Outcome := do
  forget (ofConnection namespaceName name)
  m.regenerate namespaceName name .send
  m.regenerate namespaceName name .listen
  return .rotated

def ruleRequest (namespaceName name : String) (right : RelayRight) : ArmRequest :=
  ⟨.get, m.ruleUrl namespaceName name right, none⟩

def listKeys (namespaceName name : String) (right : RelayRight) : ArmRequest :=
  ⟨.post, m.ruleUrl namespaceName name right ++ "/listKeys", some (.object [])⟩

/-- Ask for the key and remember it; a full cache is emptied first. -/
def fetchKey (namespaceName name : String) (right : RelayRight) : Held Unit := do
  let response ← Program.request (Query.await (m.listKeys namespaceName name right))
  require (!response.missing) .notFound
  require (!response.asynchronous) .unavailable
  match response.primaryKey with
  | none => throw .unavailable
  | some key => do
    let keys ← cache
    let keys := if maxCachedKeys ≤ keys.size then Table.empty else keys
    let id := keyId namespaceName name right
    setCache (keys.set id ⟨key, (← readings).instant id + keyTtl⟩)

def signCached (namespaceName name : String) (right : RelayRight) : Held Outcome := do
  match (← cache).get (keyId namespaceName name right) with
  | none => throw .internal
  | some entry => do
    let clock ← readings
    return .token (← lift (sign m.libs clock.system namespaceName name right entry.key))

def issueToken (namespaceName name : String) (right : RelayRight) : Held Outcome := do
  require (← m.connectionReady namespaceName name) .conflict
  let authorization ← Program.request (Query.await (m.ruleRequest namespaceName name right))
  require (!authorization.missing) .notFound
  require (authorization.state false == .ready && (authorization.property "rights").isOnly (armRight right)) .conflict
  let clock ← readings
  setCache ((← cache).retain fun id entry => clock.instant id < entry.expires)
  match (← cache).get (keyId namespaceName name right) with
  | some _ => m.signCached namespaceName name right
  | none => do
    m.fetchKey namespaceName name right
    m.signCached namespaceName name right

end Manager

inductive Op where
  | issueToken (namespaceName name : String) (right : RelayRight)
  | rotateKeys (namespaceName name : String)
  | deleteConnection (namespaceName name : String)
  | deleteNamespace (namespaceName : String)
  deriving DecidableEq, Repr

/-- Names are checked before the cache is locked. -/
def Manager.calls (m : Manager) : Locked.Calls Op Cache ArmRequest Readings (fun _ => ArmResponse) BrokerError Outcome
  | .issueToken ns name right => do
    discard (m.connectionPath ns name)
    return m.issueToken ns name right
  | .rotateKeys ns name => do
    discard (m.connectionPath ns name)
    return m.rotateKeys ns name
  | .deleteConnection ns name => do
    discard (m.connectionPath ns name)
    return m.deleteConnection ns name
  | .deleteNamespace ns => do
    discard (m.namespacePath ns)
    return m.deleteNamespace ns

end Azbridge.Arm
