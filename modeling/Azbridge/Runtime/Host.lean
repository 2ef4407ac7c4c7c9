import Azbridge.Config
import Azbridge.Runtime.RemoteBridge

/-!
# Host

What a host makes of its forwards: the preambles that its local listeners send, and the table of
forwarders behind each of its Relay listeners.
-/

namespace Azbridge.Runtime

/-- Where a binding stands: the index of its forward, and its own index there. -/
abbrev Position := Nat × Nat

/-- Only `inet` and `inet6` filter. -/
def isAddressFamilyAllowed (lowercase : String → String) (addr : SocketAddr) (family : Option String) : Bool :=
  match family.map lowercase with
  | some "inet" => addr.isIpv4
  | some "inet6" => addr.isIpv6
  | _ => true

def defaultPortName (port : Int) : String :=
  if port < 0 then toString port.natAbs ++ "U" else toString port.natAbs

def localBindings (lf : LocalForward) : List LocalForwardBinding :=
  if lf.bindings.isEmpty then
    [{ bindAddress := lf.bindAddress
       bindPort := lf.bindPort.getD 0
       portName := lf.portName
       bindLocalSocket := lf.bindLocalSocket
       noAuthentication := lf.noAuthentication.getD false }]
  else lf.bindings

/-- The preamble of the listener's connections, if the binding has a listener. -/
def localRequest (binding : LocalForwardBinding) : Option PreambleRequest :=
  if binding.bindLocalSocket.isSome then some ⟨.stream, binding.portName.getD "sock"⟩
  else if binding.bindPort = 0 then none
  else
    let portName := binding.portName.getD (defaultPortName binding.bindPort)
    some ⟨if binding.bindPort < 0 then .datagram else .stream, portName⟩

def remoteBindings (rf : RemoteForward) : List RemoteForwardBinding :=
  if rf.bindings.isEmpty then
    [{ host := rf.host
       hostPort := rf.hostPort.getD 0
       portName := rf.portName
       localSocket := rf.localSocket
       http := rf.http.getD false }]
  else rf.bindings

/-- The bindings of every forward, each forward under the name of its relay. -/
def remoteEntries (config : Config) : List (String × List (Position × RemoteForwardBinding)) :=
  config.remoteForward.zipIdx.map fun (rf, group) =>
    (rf.relayName, (remoteBindings rf).zipIdx.map fun (binding, index) => ((group, index), binding))

/-- Grouped by relay name, since multiple bindings can share a listener. -/
def remoteGroups (config : Config) : Table String (List (Position × RemoteForwardBinding)) :=
  Table.gather [] (· ++ ·) (remoteEntries config)

theorem remoteGroups_eq (config : Config) (relayName : String) : ((remoteGroups config).get relayName).getD [] =
    (config.remoteForward.zipIdx.filter (·.1.relayName = relayName)).flatMap fun (rf, group) =>
      (remoteBindings rf).zipIdx.map fun (binding, index) => ((group, index), binding) := by
  have own : (((remoteEntries config).filter (·.1 = relayName)).map (·.2)).flatten =
      (config.remoteForward.zipIdx.filter (·.1.relayName = relayName)).flatMap fun (rf, group) =>
        (remoteBindings rf).zipIdx.map fun (binding, index) => ((group, index), binding) := by
    unfold remoteEntries
    rw [List.filter_map, List.map_map]
    rfl
  rw [← own]
  unfold remoteGroups
  by_cases present : relayName ∈ (remoteEntries config).map (·.1)
  · rw [Table.get_gather present, Option.getD_some]
    have appended : (((remoteEntries config).filter (·.1 = relayName)).map (·.2)).foldl
        (fun found entry => found ++ id entry) [] = [] ++ ((((remoteEntries config).filter (·.1 = relayName)).map
          (·.2)).map id).flatten := List.foldl_append_eq_append
    simpa using appended
  · have absent : (Table.gather [] (· ++ ·) (remoteEntries config)).get relayName = none :=
      Table.get_eq_none.mpr fun member => present (Table.mem_keys_gather.mp member)
    have nothing : (remoteEntries config).filter (·.1 = relayName) = [] := by
      rw [List.filter_eq_nil_iff]
      intro entry member same
      exact present (List.mem_map.mpr ⟨entry, member, by simpa using same⟩)
    rw [absent, nothing]
    rfl

/-- `resolve` is the address that was picked for the host and port of the binding there. -/
def remoteForwarder (lowercase : String → String) (family : Option String) (resolve : Position → String → UInt16 → SocketAddr)
    (entry : Position × RemoteForwardBinding) : Option (String × Position × RemoteForwarder) :=
  let (position, binding) := entry
  let port := binding.hostPort
  let portName := binding.portName.getD (defaultPortName port)
  if binding.http then none
  else match binding.localSocket with
    | some path => some (portName, position, .socket path portName)
    | none =>
      if port = 0 then none
      else
        let targetAddr := resolve position (binding.host.getD "localhost") (.ofNat port.natAbs)
        if !isAddressFamilyAllowed lowercase targetAddr family then none
        else some (portName, position, if port < 0 then .udp targetAddr portName else .tcp targetAddr portName)

/-- The forwarders behind the listener of a relay. Without one there is no listener. -/
def forwarders (lowercase : String → String) (resolve : Position → String → UInt16 → SocketAddr) (config : Config)
    (relayName : String) : Table String (Position × RemoteForwarder) :=
  let bindings := ((remoteGroups config).get relayName).getD []
  .ofEntries (bindings.filterMap (remoteForwarder lowercase config.addressFamily resolve))

end Azbridge.Runtime
