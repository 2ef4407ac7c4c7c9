import Azbridge.Lib.Program
import Azbridge.Broker.Identifiers
import Azbridge.Broker.Storage
import Azbridge.Config

/-!
# Environment

Everything a broker handler reaches outside itself, as requests: the two stores, the clock, random
numbers, the rate limiter, GitHub and the Relay manager. `Responds` says what may come back. A
store call is served, or fails before it has an effect, or has its effect and loses its answer;
GitHub and the Relay manager may answer anything. Random values never repeat.
-/

namespace Azbridge.Broker

/-! ### Requests -/

structure DeviceCode where
  deviceCode : String
  userCode : String
  verificationUri : String
  expiresIn : Nat
  interval : Nat
  deriving DecidableEq, Repr

structure TokenReply where
  accessToken : Option String
  error : Option String
  deriving DecidableEq, Repr

/-- What is posted to `login/oauth/access_token`. -/
inductive TokenForm where
  | code (code callback verifier : String)
  | deviceCode (deviceCode : String)
  deriving DecidableEq, Repr

inductive Request where
  | get (table : Table) (partition row : String)
  | insert (table : Table) (partition row : String) (data : Value)
  | replace (table : Table) (partition row : String) (data : Value) (etag : String)
  | delete (table : Table) (partition row etag : String)
  | list (table : Table) (partition : String)
  | putRevision (workspace profile revision yaml : String)
  | getRevision (workspace profile revision : String)
  | now
  | newUuid
  /-- Base64url of so many random bytes. -/
  | random (bytes : Nat)
  /-- The nonce of one encryption. -/
  | nonce
  | rateLimit (bucket : String) (capacity window : Nat)
  | startDeviceFlow
  | accessToken (form : TokenForm)
  | user (token : String)
  | lookupUser (login : String)
  | revokeToken (token : String)
  | ensureNamespace (namespaceName location : String)
  | deleteNamespace (namespaceName : String)
  | ensureConnection (namespaceName name : String)
  | deleteConnection (namespaceName name : String)
  | rotateKeys (namespaceName name : String)
  | issueToken (namespaceName relayName : String) (right : RelayRight)

@[reducible] def Reply : Request → Type
  | .get .. => Option (Entity Value)
  | .insert .. | .replace .. => Entity Value
  | .delete .. | .putRevision .. | .rateLimit .. | .rotateKeys .. => Unit
  | .list .. => List (Entity Value)
  | .getRevision .. => Option String
  | .now => Nat
  | .newUuid => Uuid
  | .random _ | .nonce => String
  | .startDeviceFlow => DeviceCode
  | .accessToken _ => TokenReply
  | .user _ | .lookupUser _ => GitHubUser
  | .revokeToken _ => Nat
  | .ensureNamespace .. | .ensureConnection .. => ProvisioningState
  | .deleteNamespace _ | .deleteConnection .. => Bool
  | .issueToken .. => RelayTokenResponse

/-- A handler or a part of one. -/
abbrev Handler := Program Request Reply BrokerError

/-- The metadata row a request may write. -/
def Request.row? : Request → Option Key
  | .insert t p r _ | .replace t p r _ _ | .delete t p r _ => some ⟨t, p, r⟩
  | _ => none

/-- Requests that change neither store. -/
def Request.isRead : Request → Bool
  | .insert .. | .replace .. | .delete .. | .putRevision .. => false
  | _ => true

/-- Requests whose answer does not come from this broker. -/
def Request.isExternal : Request → Bool
  | .get .. | .insert .. | .replace .. | .delete .. | .list .. | .putRevision .. | .getRevision ..
  | .now | .newUuid | .random _ => false
  | _ => true

section Requests
variable (table : Table) (partition row : String)

def get : Handler (Option (Entity Value)) := Program.request (Request.get table partition row)
def insert (data : Value) : Handler (Entity Value) := Program.request (Request.insert table partition row data)
def replace (data : Value) (etag : String) : Handler (Entity Value) :=
  Program.request (Request.replace table partition row data etag)
def delete (etag : String) : Handler Unit := Program.request (Request.delete table partition row etag)
def list : Handler (List (Entity Value)) := Program.request (Request.list table partition)
def putRevision (workspace profile revision yaml : String) : Handler Unit :=
  Program.request (Request.putRevision workspace profile revision yaml)
def getRevision (workspace profile revision : String) : Handler (Option String) :=
  Program.request (Request.getRevision workspace profile revision)
def now : Handler Nat := Program.request Request.now
def newUuid : Handler Uuid := Program.request Request.newUuid
def randomSecret : Handler String := Program.request (Request.random 32)

/-- Return the error unless the condition holds. -/
def require (condition : Bool) (e : BrokerError) : Handler Unit := if condition then pure () else throw e

/-- `ok_or`. -/
def okOr {α : Type} (value : Option α) (e : BrokerError) : Handler α :=
  match value with
  | some a => pure a
  | none => throw e

def decode {α : Type} [Record α] (value : Value) : Handler α := okOr (Record.decode value) .internal

/-- Decode every row, in order. -/
def decodeAll {α : Type} [Record α] : List (Entity Value) → Handler (List α)
  | [] => pure []
  | entity :: rest => do
    let first ← decode entity.data
    return first :: (← decodeAll rest)

end Requests

/-! ### The world -/

structure World where
  store : MemoryMetadata Value
  configs : MemoryConfigs
  /-- Every UUID drawn so far. -/
  uuids : List Uuid
  /-- Every random string drawn so far. -/
  secrets : List String
  clock : Nat

/-- The answer and the world of an effect that leaves the world as it is where it fails. -/
def effect {σ α : Type} (w : World) (set : σ → World) :
    Except BrokerError (α × σ) → Except BrokerError α × World
  | .ok (a, s) => (.ok a, set s)
  | .error e => (.error e, w)

def serve (w : World) : (r : Request) → Option (Except BrokerError (Reply r) × World)
  | .get t p r => some (w.store.get t p r, w)
  | .insert t p r data => some (effect w (fun store => { w with store }) (w.store.insert t p r data))
  | .replace t p r data etag =>
    some (effect w (fun store => { w with store }) (w.store.replace t p r data etag))
  | .delete t p r etag => some (effect w (fun store => { w with store }) (w.store.delete t p r etag))
  | .list t p => some (w.store.list t p, w)
  | .putRevision ws profile revision yaml =>
    some (effect w (fun configs => { w with configs }) (w.configs.putRevision ws profile revision yaml))
  | .getRevision ws profile revision => some (w.configs.getRevision ws profile revision, w)
  | _ => none

/-- What may be answered; `tick` says what the clock may read after its last reading. -/
inductive Responds (tick : Nat → Nat → Prop) : World → (r : Request) → Except BrokerError (Reply r) → World → Prop
  | served {w w' r reply} (h : serve w r = some (reply, w')) : Responds tick w r reply w'
  | lost {w w' r reply} (h : serve w r = some (reply, w')) : Responds tick w r (.error .unavailable) w'
  | failed {w r} (storage : (serve w r).isSome) : Responds tick w r (.error .unavailable) w
  | now {w t} (next : tick w.clock t) (bound : t < 2 ^ 63) : Responds tick w .now (.ok t) { w with clock := t }
  | beforeEpoch {w} : Responds tick w .now (.error .internal) w
  | newUuid {w u} (fresh : u ∉ w.uuids) : Responds tick w .newUuid (.ok u) { w with uuids := u :: w.uuids }
  | random {w n s} (fresh : s ∉ w.secrets) (size : base64UrlSize s = some n) :
      Responds tick w (.random n) (.ok s) { w with secrets := s :: w.secrets }
  | external {w r reply} (outside : r.isExternal = true) : Responds tick w r reply w

def anyTime (_ _ : Nat) : Prop := True

/-! ### Static parameters -/

/-- What the session codec encrypts. -/
structure Session where
  user : GitHubUser
  csrfToken : String
  expiresAt : Nat
  deriving DecidableEq, Repr

structure Challenge where
  state : String
  verifier : String
  expiresAt : Nat
  deriving DecidableEq, Repr

structure DeviceChallenge where
  id : String
  csrfToken : String
  expiresAt : Nat
  deriving DecidableEq, Repr

inductive Plaintext where
  | session (s : Session)
  | challenge (c : Challenge)
  | device (d : DeviceChallenge)
  | text (s : String)
  deriving DecidableEq, Repr

/-- A YAML document as `serde_yaml::Value` reads it. -/
inductive Yaml where
  | scalar (text : String)
  | sequence (items : List Yaml)
  | mapping (entries : List (String × Yaml))

namespace Yaml

def lookup (field : String) : List (String × Yaml) → Option Yaml
  | [] => none
  | (key, value) :: rest => if key = field then some value else lookup field rest

/-- `value.get(field)`. -/
def get (field : String) : Yaml → Option Yaml
  | .mapping entries => lookup field entries
  | _ => none

/-- `value.get(index)`. -/
def getIndex (index : Nat) : Yaml → Option Yaml
  | .sequence items => items[index]?
  | _ => none

end Yaml

/-- The YAML reader. `serde_ignored` reports the fields a type ignores and changes nothing else,
so one reading gives the configuration and the ignored paths. -/
structure YamlReader where
  config : String → Option (Config × List String)
  value : String → Option Yaml

/-- Settings and libraries that stay fixed while the broker runs. -/
structure App where
  dev : Bool
  publicUrl : String
  /-- `public_url.origin().ascii_serialization()`. -/
  publicOrigin : String
  /-- `public_url.scheme() == "https"`. -/
  secure : Bool
  /-- `public_url.join("auth/github/callback")`. -/
  callbackUrl : String
  /-- `settings.cloud`, of which only the allowed locations are read here. -/
  allowedLocations : Option (List String)
  /-- `auth.github` is configured. -/
  github : Bool
  bootstrapAdminIds : List Nat
  /-- `SessionCodec::seal` with its random nonce, `none` where encryption fails. -/
  sealWith : String → Plaintext → Option String
  /-- What `SessionCodec::open` decrypts. -/
  openText : String → Option Plaintext
  /-- Base64url of the SHA-256 digest. -/
  digest : String → String
  /-- The first eight bytes of the SHA-256 digest, big-endian. -/
  digestPrefix : String → Nat
  /-- The origin parses as an `http` or `https` URL of a loopback host. -/
  loopbackOrigin : String → Bool
  /-- The URI parses as an `https` URL of `github.com`. -/
  githubUri : String → Bool
  /-- `authorization_url` of the callback, state and verifier. -/
  authorizationUrl : String → String → String → String
  unicode : Text.Unicode
  /-- `str::to_lowercase`. -/
  lowercase : String → String
  yaml : YamlReader

/-- The header values the broker reads; a value that is not visible ASCII is `none`. -/
structure Headers where
  cookie : List (Option String) := []
  origin : List (Option String) := []
  csrfToken : List (Option String) := []
  authorization : List (Option String) := []

def sealText (app : App) (value : Plaintext) : Handler String := do
  let nonce ← Program.request Request.nonce
  okOr (app.sealWith nonce value) .internal

/-- `codec.open::<T>`: `select` keeps what deserializes as `T`. -/
def openAs {α : Type} (app : App) (select : Plaintext → Option α) (value : String) : Handler α :=
  okOr ((app.openText value).bind select) .unauthorized

def recordAudit (workspace actor action target : String) : Handler Unit := do
  let id ← newUuid
  let at_ ← now
  let entry : AuditEntry := ⟨id.hyphenated, at_, actor, action, target⟩
  let _ ← insert Table.audit workspace entry.id (encode entry)

end Azbridge.Broker
