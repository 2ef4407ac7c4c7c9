import Azbridge.Config

/-!
# Endpoints

The listeners and destinations of a configuration, as the relay map shows them.
-/

namespace Azbridge.Relays

inductive Direction
  | listener
  | destination
  deriving DecidableEq, Repr

inductive Protocol
  | tcp
  | udp
  | socket
  | http
  deriving DecidableEq, Repr

/-- Display-only endpoint metadata; never includes connection strings or tokens. -/
structure RelayMapEndpoint where
  id : String
  forwardGroup : String
  relayName : String
  direction : Direction
  protocol : Protocol
  host : Option String
  port : UInt16
  socket : Option String
  portName : String
  explicitPortName : Bool
  disabled : Bool
  path : Option String
  deriving DecidableEq, Repr

def maxEndpoints : Nat := 4096

def maxField : Nat := 1024

def effectiveName (name : Option String) (port : Int) (localSocket : Bool) : String :=
  name.getD (if localSocket then "sock" else if port < 0 then toString port.natAbs ++ "U" else toString port.natAbs)

/-- `u16::try_from`. -/
def portOf (port : Int) : Option UInt16 := if port.natAbs < 65536 then some (.ofNat port.natAbs) else none

def groupId (kind : String) (disabled : Bool) (group : Nat) : String :=
  (if disabled then "disabled-" else "") ++ kind ++ "-" ++ toString group

def endpointId (kind : String) (disabled : Bool) (group index : Nat) : String :=
  groupId kind disabled group ++ "-" ++ toString index

def localEndpoint (gatewayPorts : Option Bool) (disabled : Bool) (group : Nat) (relayName : String) (index : Nat)
    (binding : LocalForwardBinding) : Option RelayMapEndpoint := do
  let socket := binding.bindLocalSocket.isSome
  let port ← portOf binding.bindPort
  return {
    id := endpointId "local" disabled group index
    forwardGroup := groupId "local" disabled group
    relayName
    direction := .listener
    protocol := if socket then .socket else if binding.bindPort < 0 then .udp else .tcp
    host :=
      if socket then none
      else some (binding.bindAddress.getD (if gatewayPorts = some true then "0.0.0.0" else "127.0.0.1"))
    port
    socket := binding.bindLocalSocket
    portName := effectiveName binding.portName binding.bindPort socket
    explicitPortName := binding.portName.isSome
    disabled
    path := none }

def remoteEndpoint (disabled : Bool) (group : Nat) (relayName : String) (index : Nat) (binding : RemoteForwardBinding) :
    Option RelayMapEndpoint := do
  let port ← portOf binding.hostPort
  return {
    id := endpointId "remote" disabled group index
    forwardGroup := groupId "remote" disabled group
    relayName
    direction := .destination
    protocol :=
      if binding.http then .http
      else if binding.localSocket.isSome then .socket
      else if binding.hostPort < 0 then .udp
      else .tcp
    host := if binding.localSocket.isSome then none else some (binding.host.getD "localhost")
    port
    socket := binding.localSocket
    portName := effectiveName binding.portName binding.hostPort false
    explicitPortName := binding.portName.isSome
    disabled
    path := binding.path }

/-- The texts of an endpoint that are displayed. -/
def RelayMapEndpoint.fields (endpoint : RelayMapEndpoint) : List String :=
  [endpoint.relayName, endpoint.portName] ++ endpoint.host.toList ++ endpoint.socket.toList ++ endpoint.path.toList

def displayable (endpoint : RelayMapEndpoint) : Bool :=
  endpoint.fields.all fun field => field.utf8ByteSize ≤ maxField && !field.toList.any Text.isControl

/-- Every binding of every forward, local ones first. -/
def allEndpoints (config : Config) (disabled : Bool) : List (Option RelayMapEndpoint) :=
  (config.localForward.zipIdx.flatMap fun (forward, group) => forward.bindings.zipIdx.map fun (binding, index) =>
    localEndpoint config.gatewayPorts disabled group forward.relayName index binding) ++
  (config.remoteForward.zipIdx.flatMap fun (forward, group) => forward.bindings.zipIdx.map fun (binding, index) =>
    remoteEndpoint disabled group forward.relayName index binding)

def fromConfig (config : Config) (disabled : Bool) : Option (List RelayMapEndpoint) := do
  let endpoints ← (allEndpoints config disabled).mapM id
  if endpoints.length > maxEndpoints ∨ ¬ endpoints.all displayable = true then none else some endpoints

end Azbridge.Relays
