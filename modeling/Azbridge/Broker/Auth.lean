import Azbridge.Broker.Environment

/-!
# Authentication

Sessions, roles and the three sign-in flows. GitHub authentication establishes broker sessions,
never Azure credentials; a one-time grant is a row of the enrollment table that a flow must
delete before it may mint anything.
-/

namespace Azbridge.Broker.Auth

def sessionCookie : String := "azbridge_session"
def challengeCookie : String := "azbridge_oauth"
def deviceCookie : String := "azbridge_device"
def devicePath : String := "/auth/github/device"
def sessionSeconds : Nat := 8 * 60 * 60
def oauthSeconds : Nat := 10 * 60

/-- `ConstantTimeEq` decides equality. -/
def constantTimeEqual (left right : String) : Bool := left == right

/-! ### GitHub -/

inductive DevicePoll where
  | pending | slowDown | authorized (token : String) | expired | denied
  deriving DecidableEq, Repr

def exchangeCode (code callback verifier : String) : Handler String := do
  let reply ← Program.request (Request.accessToken (.code code callback verifier))
  require reply.error.isNone .unauthorized
  okOr (reply.accessToken.filter fun token => !token.isEmpty) .unauthorized

def startDeviceFlow (app : App) : Handler DeviceCode := do
  let reply ← Program.request Request.startDeviceFlow
  require (!(reply.deviceCode.isEmpty || reply.userCode.isEmpty || reply.interval == 0 || reply.interval > 60 ||
    reply.expiresIn == 0 || reply.expiresIn > 3600)) .unavailable
  require (app.githubUri reply.verificationUri) .unavailable
  return reply

def devicePollOf (reply : TokenReply) : Except BrokerError DevicePoll :=
  match reply.error, reply.accessToken with
  | some "authorization_pending", _ => .ok .pending
  | some "slow_down", _ => .ok .slowDown
  | some "expired_token", _ => .ok .expired
  | some "access_denied", _ => .ok .denied
  | some "incorrect_device_code", _ => .error .badRequest
  | some "device_flow_disabled", _ => .error .badRequest
  | none, some token => if token.isEmpty then .error .unavailable else .ok (.authorized token)
  | _, _ => .error .unavailable

def pollDeviceFlow (deviceCode : String) : Handler DevicePoll := do
  let reply ← Program.request (Request.accessToken (.deviceCode deviceCode))
  .done (devicePollOf reply)

/-- `identity` refuses an answer without an id or a login. -/
def identity (reply : GitHubUser) : Handler GitHubUser := do
  require (!(reply.id == 0 || reply.login.isEmpty)) .unavailable
  return reply

def user (token : String) : Handler GitHubUser := do
  identity (← Program.request (Request.user token))

def validLogin (login : String) : Bool :=
  !login.isEmpty && login.utf8ByteSize ≤ 39 && login.toList.all fun c => c.isAlphanum || c == '-'

def lookupUser (login : String) : Handler GitHubUser := do
  require (validLogin login) .badRequest
  identity (← Program.request (Request.lookupUser login))

def revokeToken (token : String) : Handler Unit := do
  let status ← Program.request (Request.revokeToken token)
  require (status == 204) .unavailable

/-- Revoke even if the profile lookup failed. -/
def consumeToken (token : String) : Handler GitHubUser := do
  let found ← (user token).attempt
  revokeToken token
  .done found

/-! ### Sessions and roles -/

def cookie (headers : Headers) (name : String) : Except BrokerError String :=
  match headers.cookie.head?.join with
  | none => .error .unauthorized
  | some cookies =>
    let values := (Text.split ';' cookies).filterMap fun part =>
      match Text.splitOnce '=' (Text.trim part) with
      | some (key, value) => if key = name then some value else none
      | none => none
    match values with
    | [value] => .ok value
    | _ => .error .unauthorized

def asSession : Plaintext → Option Session
  | .session s => some s
  | _ => none

def asChallenge : Plaintext → Option Challenge
  | .challenge c => some c
  | _ => none

def asDevice : Plaintext → Option DeviceChallenge
  | .device d => some d
  | _ => none

def asText : Plaintext → Option String
  | .text s => some s
  | _ => none

def currentSession (app : App) (headers : Headers) : Handler Session := do
  let token ← .done (cookie headers sessionCookie)
  let session ← openAs app asSession token
  let time ← now
  require (!(session.expiresAt ≤ time || session.user.id == 0)) .unauthorized
  return session

/-- A request without an origin comes from no browser page. -/
def checkOrigin (app : App) (headers : Headers) : Except BrokerError Unit :=
  match headers.origin.head? with
  | none => .ok ()
  | some none => .error .forbidden
  | some (some origin) =>
    if origin = app.publicOrigin then .ok ()
    else if app.dev = true ∧ app.loopbackOrigin origin = true then .ok ()
    else .error .forbidden

def requireCsrf (app : App) (headers : Headers) (session : Session) : Except BrokerError Unit :=
  match headers.csrfToken.head?.join with
  | none => .error .forbidden
  | some csrf =>
    if constantTimeEqual csrf session.csrfToken then checkOrigin app headers else .error .forbidden

def isPlatformAdmin (app : App) (user : GitHubUser) : Handler Bool := do
  if app.bootstrapAdminIds.contains user.id then return true
  else return (← get .platformAdmins platformPartition (toString user.id)).isSome

def workspaceRole (app : App) (user : GitHubUser) (workspace : String) (required : Role) : Handler Role := do
  require (Uuid.isText workspace) .badRequest
  if ← isPlatformAdmin app user then return .admin
  else do
    let entity ← okOr (← get .members workspace (toString user.id)) .forbidden
    let member : Member ← decode entity.data
    require (member.user.id == user.id && member.role.permits required) .forbidden
    return member.role

/-- The session, with its origin and anti-forgery token checked where it would change something. -/
def sessionFor (app : App) (headers : Headers) (mutating : Bool) : Handler Session := do
  let session ← currentSession app headers
  .done (if mutating then requireCsrf app headers session else .ok ())
  return session

def authorize (app : App) (headers : Headers) (workspace : String) (required : Role) (mutating : Bool) :
    Handler Session := do
  let session ← sessionFor app headers mutating
  let _ ← workspaceRole app session.user workspace required
  return session

def requirePlatformAdmin (app : App) (headers : Headers) (mutating : Bool) : Handler Session := do
  let session ← sessionFor app headers mutating
  require (← isPlatformAdmin app session.user) .forbidden
  return session

/-- An index row is not authorization: only those with a membership row count. -/
def indexedWorkspaces (user : GitHubUser) : List (Entity Value) → Handler (List (Entity Value))
  | [] => return []
  | entry :: rest => do
    match ← get .members entry.rowKey (toString user.id) with
    | none => indexedWorkspaces user rest
    | some _ =>
      match ← get .workspaces platformPartition entry.rowKey with
      | none => indexedWorkspaces user rest
      | some workspace => return workspace :: (← indexedWorkspaces user rest)

def accessibleWorkspaces (app : App) (user : GitHubUser) : Handler (List Workspace) := do
  let entities ← do
    if ← isPlatformAdmin app user then list .workspaces platformPartition
    else indexedWorkspaces user (← list .userWorkspaces (toString user.id))
  let records : List WorkspaceRecord ← decodeAll entities
  return records.map (·.workspace)

/-- The user may sign in: a platform administrator or somebody with a workspace. -/
def mayEnter (app : App) (user : GitHubUser) : Handler Bool := do
  if ← isPlatformAdmin app user then return true
  else return !(← accessibleWorkspaces app user).isEmpty

/-- Delete an expired row; a row that changed or went away meanwhile is left to its owner. -/
def cleanupExpired (timestamp : Nat) (entity : Entity Value) : Handler Unit := do
  let expiry ← okOr entity.data.expiresAt .internal
  if expiry ≤ timestamp then
    match ← (delete .enrollments platformPartition entity.rowKey entity.etag).attempt with
    | .ok () => return ()
    | .error .notFound => return ()
    | .error .conflict => return ()
    | .error e => throw e
  else return ()

def cleanupExpiredEnrollments : Handler Unit := do
  let timestamp ← now
  Program.forEach (cleanupExpired timestamp) (← list .enrollments platformPartition)

/-! ### Responses -/

structure Response (α : Type) where
  body : α
  setCookie : List String := []
  deriving DecidableEq, Repr

def cookieHeader (app : App) (name value : String) (maxAge : Nat) (path : String) : Except BrokerError String :=
  let header := name ++ "=" ++ value ++ "; Path=" ++ path ++ "; Max-Age=" ++ toString maxAge ++
    "; HttpOnly; SameSite=Lax" ++ (if app.secure then "; Secure" else "")
  if header.toList.all headerChar then .ok header else .error .internal

def setSession (app : App) (user : GitHubUser) : Handler String := do
  let csrfToken ← randomSecret
  let time ← now
  let session : Session := ⟨user, csrfToken, time + sessionSeconds⟩
  .done (cookieHeader app sessionCookie (← sealText app (.session session)) sessionSeconds "/")

structure Me where
  user : GitHubUser
  platformAdmin : Bool
  csrfToken : String
  workspaces : List Workspace
  allowedLocations : List String
  deriving DecidableEq, Repr

def me (app : App) (headers : Headers) : Handler Me := do
  let session ← currentSession app headers
  let platformAdmin ← isPlatformAdmin app session.user
  let workspaces ← accessibleWorkspaces app session.user
  require (platformAdmin || !workspaces.isEmpty) .forbidden
  let allowedLocations ←
    if app.dev then pure ["eastus", "westus", "westeurope", "uksouth"] else okOr app.allowedLocations .unavailable
  return ⟨session.user, platformAdmin, session.csrfToken, workspaces, allowedLocations⟩

/-! ### OAuth -/

def oauthKey (state : String) : String := "oauth:" ++ state

/-- The body is the address the browser is sent to. -/
def login (app : App) : Handler (Response String) := do
  require app.github .notFound
  Program.request (Request.rateLimit "oauth_login" 30 60)
  let state ← randomSecret
  let verifier ← randomSecret
  let time ← now
  let challenge : Challenge := ⟨state, verifier, time + oauthSeconds⟩
  let _ ← insert .enrollments platformPartition (oauthKey challenge.state) (.oauth challenge.expiresAt)
  let location := app.authorizationUrl app.callbackUrl challenge.state challenge.verifier
  let cookie ← .done (cookieHeader app challengeCookie (← sealText app (.challenge challenge)) oauthSeconds "/auth/github")
  return ⟨location, [cookie]⟩

structure CallbackQuery where
  code : Option String
  state : Option String
  error : Option String
  deriving DecidableEq, Repr

def callback (app : App) (headers : Headers) (query : CallbackQuery) : Handler (Response String) := do
  require query.error.isNone .forbidden
  let code ← okOr query.code .badRequest
  let returnedState ← okOr query.state .badRequest
  let sealed ← .done (cookie headers challengeCookie)
  let challenge ← openAs app asChallenge sealed
  let time ← now
  require (!(challenge.expiresAt ≤ time || !constantTimeEqual returnedState challenge.state)) .unauthorized
  let record ← okOr (← get .enrollments platformPartition (oauthKey challenge.state)) .unauthorized
  delete .enrollments platformPartition (oauthKey challenge.state) record.etag
  require app.github .notFound
  let token ← exchangeCode code app.callbackUrl challenge.verifier
  let user ← consumeToken token
  require (← mayEnter app user) .forbidden
  let session ← setSession app user
  let cleared ← .done (cookieHeader app challengeCookie "" 0 "/auth/github")
  return ⟨"/", [session, cleared]⟩

def devLogin (app : App) (headers : Headers) : Handler (Response Unit) := do
  require app.dev .notFound
  .done (checkOrigin app headers)
  return ⟨(), [← setSession app ⟨1, "dev-admin", ""⟩]⟩

def logout (app : App) (headers : Headers) : Handler (Response Unit) := do
  let session ← currentSession app headers
  .done (requireCsrf app headers session)
  return ⟨(), [← .done (cookieHeader app sessionCookie "" 0 "/")]⟩

/-! ### Device login -/

structure DeviceLoginStart where
  userCode : String
  verificationUri : String
  interval : Nat
  expiresIn : Nat
  csrfToken : String
  deriving DecidableEq, Repr

inductive DeviceLoginPoll where
  | pending (interval : Nat) | slowDown (interval : Nat) | authorized | expired | denied
  deriving DecidableEq, Repr

def deviceKey (id : String) : String := "device-login:" ++ id

def deviceStart (app : App) (headers : Headers) : Handler (Response DeviceLoginStart) := do
  .done (checkOrigin app headers)
  require (headers.csrfToken.head?.join == some "device-login") .forbidden
  require app.github .notFound
  Program.request (Request.rateLimit "device_login.start" 30 60)
  let device ← startDeviceFlow app
  let timestamp ← now
  let id ← randomSecret
  let csrfToken ← randomSecret
  let challenge : DeviceChallenge := ⟨id, csrfToken, timestamp + device.expiresIn⟩
  let encrypted ← sealText app (.text device.deviceCode)
  let record : DeviceLoginRecord :=
    ⟨encrypted, challenge.expiresAt, timestamp + device.interval, device.interval⟩
  let _ ← insert .enrollments platformPartition (deviceKey challenge.id) (encode record)
  let sealed ← sealText app (.device challenge)
  let cookie ← .done (cookieHeader app deviceCookie sealed device.expiresIn devicePath)
  return ⟨⟨device.userCode, device.verificationUri, device.interval, device.expiresIn, challenge.csrfToken⟩, [cookie]⟩

/-- A terminal result clears the challenge cookie. -/
def reply (app : App) (result : DeviceLoginPoll) : Except BrokerError (Response DeviceLoginPoll) :=
  match result with
  | .pending _ | .slowDown _ => .ok ⟨result, []⟩
  | _ => (cookieHeader app deviceCookie "" 0 devicePath).map fun cleared => ⟨result, [cleared]⟩

def deviceAnswer (app : App) (key : String) (record : DeviceLoginRecord) (reserved : Entity Value) :
    DevicePoll → Handler (Response DeviceLoginPoll)
  | .pending => .done (reply app (.pending record.interval))
  | .slowDown => do
    let interval := Text.saturatingAdd record.interval 5
    let record := { record with interval, nextPollAt := Text.saturatingAdd (← now) interval }
    let _ ← replace .enrollments platformPartition key (encode record) reserved.etag
    .done (reply app (.slowDown record.interval))
  | .expired => do
    delete .enrollments platformPartition key reserved.etag
    .done (reply app .expired)
  | .denied => do
    delete .enrollments platformPartition key reserved.etag
    .done (reply app .denied)
  | .authorized token => do
    let user ← consumeToken token
    delete .enrollments platformPartition key reserved.etag
    if record.expiresAt ≤ (← now) then .done (reply app .expired)
    else if !(← mayEnter app user) then .done (reply app .denied)
    else do
      let response ← .done (reply app .authorized)
      return { response with setCookie := response.setCookie ++ [← setSession app user] }

/-- The poll of one existing record: expire it, answer too early a poll, or reserve and ask GitHub. -/
def deviceRecord (app : App) (challenge : DeviceChallenge) (key : String) (entity : Entity Value) :
    Handler (Response DeviceLoginPoll) := do
  let record : DeviceLoginRecord ← decode entity.data
  let timestamp ← now
  if record.expiresAt ≤ timestamp || challenge.expiresAt ≤ timestamp then do
    delete .enrollments platformPartition key entity.etag
    .done (reply app .expired)
  else do
    let early : Bool := timestamp < record.nextPollAt
    let interval := if early then Text.saturatingAdd record.interval 5 else record.interval
    let record := { record with interval, nextPollAt := Text.saturatingAdd timestamp interval }
    let reserved ← replace .enrollments platformPartition key (encode record) entity.etag
    if early then .done (reply app (.slowDown record.interval))
    else do
      let deviceCode ← openAs app asText record.encryptedDeviceCode
      deviceAnswer app key record reserved (← pollDeviceFlow deviceCode)

def devicePoll (app : App) (headers : Headers) : Handler (Response DeviceLoginPoll) := do
  .done (checkOrigin app headers)
  let sealed ← .done (cookie headers deviceCookie)
  let challenge ← openAs app asDevice sealed
  let csrf ← okOr headers.csrfToken.head?.join .forbidden
  require (constantTimeEqual csrf challenge.csrfToken) .forbidden
  require app.github .notFound
  Program.request (Request.rateLimit "device_login.poll" 240 60)
  match ← get .enrollments platformPartition (deviceKey challenge.id) with
  | none => .done (reply app .expired)
  | some entity => deviceRecord app challenge (deviceKey challenge.id) entity

end Azbridge.Broker.Auth
