import Azbridge.Broker.Models
import Azbridge.Runtime.Sas

/-!
# Signing

The names that may stand in a resource path, and the tokens signed for one Hybrid Connection and
one right.
-/

namespace Azbridge.Arm
open Azbridge.Broker (BrokerError RelayRight RelayTokenResponse)
open Sas (Libraries SystemTime)
open Text (okOr)

/-- In seconds. -/
def tokenTtl : Nat := 3600

def rule : RelayRight → String
  | .send => "azbridge-send"
  | .listen => "azbridge-listen"

def armRight : RelayRight → String
  | .send => "Send"
  | .listen => "Listen"

def validateNamespace (namespaceName : String) : Except BrokerError Unit :=
  if ¬ (6 ≤ namespaceName.utf8ByteSize ∧ namespaceName.utf8ByteSize ≤ 50) ∨
      ¬ Text.startsWith Char.isAlpha namespaceName = true ∨ ¬ Text.endsWith Char.isAlphanum namespaceName = true ∨
      ¬ (namespaceName.toList.all fun c => c.isAlphanum || c == '-') = true then
    .error .badRequest
  else .ok ()

/-- Deliberately a single segment, even though Relay permits hierarchical paths. -/
def validateConnection (name : String) : Except BrokerError Unit :=
  if name.isEmpty ∨ 260 < name.utf8ByteSize ∨ ¬ Text.startsWith Char.isAlphanum name = true ∨
      ¬ Text.endsWith Char.isAlphanum name = true ∨
      ¬ (name.toList.all fun c => c.isAlphanum || ['-', '_', '.'].contains c) = true then
    .error .badRequest
  else .ok ()

def endpointText (namespaceName : String) : String := "sb://" ++ namespaceName ++ ".servicebus.windows.net/"

/-- .NET normalizes the whole audience to lowercase, including the entity path. -/
def sign (libs : Libraries) (now : SystemTime) (namespaceName name : String) (right : RelayRight) (key : String) :
    Except BrokerError RelayTokenResponse := do
  let endpoint ← okOr (libs.parseUrl (endpointText namespaceName)) .badRequest
  let address ← okOr (Sas.buildRelayAddress libs endpoint name) .badRequest
  let audience := Text.toAsciiLowercase (Sas.normalizeAudience libs address)
  let provider ← okOr (Sas.KeyProvider.new (rule right) key) .unavailable
  let token ← okOr (provider.getToken libs now audience tokenTtl) .unavailable
  return ⟨token.token, token.expiresAt.toNat / Sas.second⟩

end Azbridge.Arm
