import Azbridge.Text

/-!
# Shared access signatures

Relay addresses, audiences and the tokens signed for them, as the Relay crate builds them. Parsing
URLs and forms and the keyed hash come from other crates, and `Libraries` stands for these.
-/

namespace Azbridge.Sas

/-- What is read of a `url::Url`. -/
structure Url where
  host : Option String
  port : Option Nat
  path : String
  deriving DecidableEq, Repr

structure Libraries where
  /-- `url::Url::parse`. -/
  parseUrl : String → Option Url
  /-- `url::form_urlencoded::parse`. -/
  parseForm : String → List (String × String)
  /-- The base64 text of an HMAC-SHA256 under a key. -/
  mac : String → String → String
  unicode : Text.Unicode

/-- Nanoseconds since the Unix epoch. -/
abbrev SystemTime := Int

def second : Nat := 10 ^ 9

def hexDigit (n : Nat) : Char := Char.ofNat (if n < 10 then 48 + n else 55 + n)

def unreserved (c : Char) : Bool := c.isAlphanum || ['-', '.', '_', '~'].contains c

def encodeChar (c : Char) : List Char :=
  if unreserved c then [c]
  else (String.utf8EncodeChar c).flatMap fun byte => ['%', hexDigit (byte.toNat / 16), hexDigit (byte.toNat % 16)]

def urlEncode (s : String) : String := String.ofList (s.toList.flatMap encodeChar)

def hcPathPrefix : String := "$hc/"

def buildRelayAddress (libs : Libraries) (endpoint : Url) (entityPath : String) : Option Url := do
  let host ← endpoint.host
  let port := endpoint.port.getD 443
  libs.parseUrl ("wss://" ++ host ++ ":" ++ toString port ++ "/" ++ hcPathPrefix ++ entityPath)

def normalizeAudience (libs : Libraries) (address : Url) : String :=
  let host := String.ofList ((address.host.getD "").toList.flatMap libs.unicode.toLowercase)
  let cleanPath := ((Text.stripPrefix "/$hc/" address.path).orElse fun _ => Text.stripPrefix "/$hc" address.path).getD address.path
  let cleanPath := (Text.stripPrefix "/" cleanPath).getD cleanPath
  let audience := "http://" ++ host ++ "/" ++ cleanPath
  if Text.endsWith (· == '/') audience then audience else audience ++ "/"

structure SecurityToken where
  token : String
  expiresAt : SystemTime
  deriving DecidableEq, Repr

/-- `SharedAccessSignatureTokenProvider`. -/
structure KeyProvider where
  keyName : String
  key : String
  deriving DecidableEq, Repr

def KeyProvider.new (keyName key : String) : Option KeyProvider :=
  if keyName.isEmpty ∨ 256 < keyName.utf8ByteSize ∨ key.isEmpty ∨ 256 < key.utf8ByteSize then none
  else some ⟨keyName, key⟩

def KeyProvider.text (libs : Libraries) (p : KeyProvider) (audience : String) (expiry : Nat) : String :=
  let encodedAudience := urlEncode audience
  let signature := libs.mac p.key (encodedAudience ++ "\n" ++ toString expiry)
  "SharedAccessSignature sr=" ++ encodedAudience ++ "&sig=" ++ urlEncode signature ++ "&se=" ++ toString expiry ++
    "&skn=" ++ p.keyName

/-- Lifetimes are in seconds. -/
def KeyProvider.getToken (libs : Libraries) (p : KeyProvider) (now : SystemTime) (audience : String) (validFor : Nat) :
    Option SecurityToken :=
  if audience.isEmpty ∨ validFor = 0 ∨ now < 0 then none
  else
    let expiry := now.toNat / second + validFor
    some ⟨p.text libs audience expiry, expiry * second⟩

end Azbridge.Sas
