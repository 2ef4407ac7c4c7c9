import Mathlib.Data.List.Sort
import Azbridge.Lib.Table
import Azbridge.Relays.Endpoints

/-!
# Relay map

Which client listeners of a workspace are accepted by which of its server destinations, worked out
in the browser from the endpoints of its profiles.
-/

namespace Azbridge.Relays

inductive EndpointStatus
  | complete
  | clientOnly
  | serverOnly
  | httpDirect
  | disabledInSource
  deriving DecidableEq, Repr

structure ProfileRef where
  id : String
  name : String
  deriving DecidableEq, Repr

structure RelayMapProfile where
  profile : ProfileRef
  endpoints : List RelayMapEndpoint
  deriving DecidableEq, Repr

structure MappedEndpoint extends RelayMapEndpoint where
  key : String
  source : ProfileRef
  status : EndpointStatus
  /-- The keys of the endpoints that it is matched with. -/
  matched : List String
  hints : List String
  deriving DecidableEq, Repr

structure MappedRelay where
  name : String
  endpoints : List MappedEndpoint
  deriving DecidableEq, Repr

/-- An endpoint with its place in the list of its relay, which tells apart what looks alike. -/
abbrev Placed := MappedEndpoint × Nat

def endpointKey (profileId endpointId : String) : String := profileId ++ "/" ++ endpointId

def mapped (source : ProfileRef) (endpoint : RelayMapEndpoint) : MappedEndpoint :=
  { endpoint with
    key := endpointKey source.id endpoint.id
    source
    status :=
      if endpoint.disabled then .disabledInSource
      else if endpoint.protocol = .http then .httpDirect
      else if endpoint.direction = .listener then .clientOnly
      else .serverOnly
    matched := []
    hints := [] }

def streamCompatible (a b : RelayMapEndpoint) : Bool := (a.protocol == .udp) == (b.protocol == .udp)

/-- Rust parses an i32, not an arbitrary JS number, for the single-forwarder fallback. -/
def numericName (name : String) : Bool :=
  let digits := Text.unsigned name.toList
  let number := Text.signed name.toList
  !digits.isEmpty && digits.all Char.isDigit && -2147483648 ≤ number && number ≤ 2147483647

def groupKey (endpoint : MappedEndpoint) : String := endpointKey endpoint.source.id endpoint.forwardGroup

def isClient (endpoint : MappedEndpoint) : Bool := !endpoint.disabled && endpoint.direction == .listener

def isServer (endpoint : MappedEndpoint) : Bool :=
  !endpoint.disabled && endpoint.direction == .destination && endpoint.protocol != .http

/-- The servers by group and name; the last of a name takes precedence. -/
def serverGroups (servers : List Placed) : Table String (Table String Placed) :=
  .gather .empty (fun group server => group.set server.1.portName server)
    (servers.map fun server => (groupKey server.1, server))

inductive Outcome
  | accepted (server : Placed) (exact : Bool)
  | mismatch (server : Placed)
  | unknown
  deriving DecidableEq, Repr

def outcome (client : MappedEndpoint) (group : Table String Placed) : Outcome :=
  match group.get client.portName with
  | some server =>
    if streamCompatible client.toRelayMapEndpoint server.1.toRelayMapEndpoint then .accepted server true
    else .mismatch server
  | none =>
    if group.size = 1 ∧ numericName client.portName = true then
      match group.values.head? with
      | some server =>
        if streamCompatible client.toRelayMapEndpoint server.1.toRelayMapEndpoint then .accepted server false
        else .mismatch server
      | none => .unknown
    else .unknown

def Outcome.server? : Outcome → Option Placed
  | .accepted server _ => some server
  | _ => none

def Outcome.hint? : Outcome → Option String
  | .accepted _ true => none
  | .accepted server false => some ("Single-destination numeric fallback to " ++ server.1.portName ++ ".")
  | .mismatch server => some ("Protocol mismatch with " ++ server.1.source.name ++ " / " ++ server.1.portName ++ ".")
  | .unknown => none

def pairClient (groups : Table String (Table String Placed)) (client : MappedEndpoint) : MappedEndpoint :=
  let outcomes := groups.values.map (outcome client)
  let matched := outcomes.filterMap fun o => o.server?.map (·.1.key)
  { client with
    status := if matched.length = groups.size ∧ groups.size > 0 then .complete else client.status
    matched
    hints := outcomes.filterMap Outcome.hint? ++
      if matched.length = groups.size ∧ groups.size > 0 then []
      else if matched ≠ [] then
        ["Not all server listener groups accept this client; Relay may send it to an incompatible host."]
      else [] }

def pairServer (groups : Table String (Table String Placed)) (clients servers : List Placed) (server : Placed) :
    MappedEndpoint :=
  let accepts (client : Placed) := groups.values.any fun group => (outcome client.1 group).server? = some server
  let matched := (clients.filter accepts).map (·.1.key)
  let replaced := servers.any fun later =>
    server.2 < later.2 && groupKey later.1 == groupKey server.1 && later.1.portName == server.1.portName
  { server.1 with
    status := if matched ≠ [] then .complete else server.1.status
    matched
    hints := if replaced then ["Duplicate PortName in this server group; the last binding takes precedence."] else [] }

def pairRelay (name : String) (endpoints : List MappedEndpoint) : MappedRelay :=
  let placed := endpoints.zipIdx
  let clients := placed.filter fun p => isClient p.1
  let servers := placed.filter fun p => isServer p.1
  let groups := serverGroups servers
  ⟨name, placed.map fun p =>
    if isClient p.1 then pairClient groups p.1
    else if isServer p.1 then pairServer groups clients servers p
    else p.1⟩

def mappedEndpoints (profiles : List RelayMapProfile) : List MappedEndpoint :=
  profiles.flatMap fun source => source.endpoints.map (mapped source.profile)

def relayEndpoints (profiles : List RelayMapProfile) (connections : List String) : Table String (List MappedEndpoint) :=
  .gather [] (fun endpoints endpoint => endpoints ++ endpoint.toList)
    (connections.map (fun name => (name, none)) ++
      (mappedEndpoints profiles).map fun endpoint => (endpoint.relayName, some endpoint))

/-- `connections` are the names of the connections, and relays are listed by `localeCompare`. -/
def buildRelayMap (localeCompare : String → String → Int) (profiles : List RelayMapProfile) (connections : List String) :
    List MappedRelay :=
  let relays := (relayEndpoints profiles connections).entries.map fun (name, endpoints) => pairRelay name endpoints
  relays.insertionSort fun a b => localeCompare a.name b.name ≤ 0

end Azbridge.Relays
