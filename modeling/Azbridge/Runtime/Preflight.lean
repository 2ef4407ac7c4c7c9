import Azbridge.Hosts.Names
import Azbridge.Lib.Choices
import Azbridge.Runtime.Host
import Mathlib.Data.List.Sigma

/-!
# The check before local listeners are bound

`preflight_local_bindings` resolves what the local forwards listen on and looks for listeners that
would collide. `start` resolves it again, and then leaves out the addresses of the wrong family.
-/

namespace Azbridge.Runtime

/-- A binding and where it stands. -/
abbrev Entry := Position × LocalForwardBinding

/-! ### Addresses -/

inductive IpAddr
  | v4 (ip : BitVec 32)
  | v6 (ip : BitVec 128)
  deriving DecidableEq, Repr

def SocketAddr.ip : SocketAddr → IpAddr
  | .v4 ip _ => .v4 ip
  | .v6 ip .. => .v6 ip

def IpAddr.isLoopback : IpAddr → Bool
  | .v4 ip => ip >>> 24 = 127
  | .v6 ip => ip = 1

/-- Any IPv4 address comes first. -/
def IpAddr.le : IpAddr → IpAddr → Bool
  | .v4 ip, .v4 ip' => ip ≤ ip'
  | .v4 _, .v6 _ => true
  | .v6 _, .v4 _ => false
  | .v6 ip, .v6 ip' => ip ≤ ip'

namespace Preflight

/-- How addresses are read and written, and what the DNS answers. -/
structure Resolver where
  parse : String → Option SocketAddr
  lookupHost : String → Except String (List SocketAddr)
  display : SocketAddr → String
  displayIp : IpAddr → String

variable (resolver : Resolver)

/-- One of several addresses is picked by the hash of the time. -/
def resolveAddress (hash : Nat) (host : String) (port : UInt16) : Except String SocketAddr :=
  let addrStr := host ++ ":" ++ toString port.toNat
  match resolver.parse addrStr with
  | some addr => .ok addr
  | none =>
    match resolver.lookupHost addrStr with
    | .error e => .error s!"DNS resolution failed for '{addrStr}': {e}"
    | .ok addrs =>
      match addrs[hash % addrs.length]? with
      | none => .error s!"DNS resolution returned no addresses for '{addrStr}'"
      | some addr => .ok addr

def bindHost (config : Config) (binding : LocalForwardBinding) : String :=
  binding.bindAddress.getD (if config.gatewayPorts.getD false then "0.0.0.0" else "127.0.0.1")

def absPort (binding : LocalForwardBinding) : UInt16 := .ofNat binding.bindPort.natAbs

structure LocalBinding where
  host : String
  udp : Bool
  addr : SocketAddr

def LocalBinding.key (entry : LocalBinding) : Bool × SocketAddr := (entry.udp, entry.addr)

def hostsHint : String := "Run `azbridge hosts apply` to give each hostname its own loopback address."

/-- An unresolvable name has no entry. -/
def preflightEntry (config : Config) (hash : Position → Nat) (entry : Entry) : Option LocalBinding :=
  let binding := entry.2
  if binding.bindLocalSocket.isSome || binding.bindPort = 0 then none
  else
    let host := bindHost config binding
    match resolveAddress resolver (hash entry.1) host (absPort binding) with
    | .ok addr => some { host, udp := binding.bindPort < 0, addr }
    | .error _ => none

/-- What `start` is given for a forward or a binding, or why not. -/
structure Supplies where
  credentials : Nat → Except String Unit
  /-- Of the broker, for the forward. -/
  token : Nat → Except String Unit
  client : Position → Except String Unit
  /-- The managed socket of the binding, bound. -/
  socket : Position → Except String Unit

/-- A listener that `start` goes on to bind. -/
structure LocalListener where
  position : Position
  udp : Bool
  addr : SocketAddr
  deriving DecidableEq

def LocalListener.key (listener : LocalListener) : Bool × SocketAddr := (listener.udp, listener.addr)

variable (lowercase : String → String) (supplies : Supplies)

def entriesOf (lf : LocalForward) (group : Nat) : List Entry :=
  (localBindings lf).zipIdx.map fun (binding, index) => ((group, index), binding)

/-- Every address that the binding may get. -/
def possible (config : Config) (entry : Entry) : List SocketAddr :=
  let addrStr := bindHost config entry.2 ++ ":" ++ toString (absPort entry.2).toNat
  match resolver.parse addrStr with
  | some addr => [addr]
  | none => (resolver.lookupHost addrStr).toOption.getD []

def keys (config : Config) (entry : Entry) : Finset (Bool × SocketAddr) :=
  ((possible resolver config entry).map fun addr => (decide (entry.2.bindPort < 0), addr)).toFinset

def isListener (entry : Entry) : Bool := entry.2.bindLocalSocket.isNone && entry.2.bindPort ≠ 0

def entries (config : Config) : List Entry := config.localForward.zipIdx.flatMap fun (lf, group) => entriesOf lf group

/-- No two listeners can get the same address and port for one protocol. -/
def Apart (config : Config) : Prop :=
  ∀ x ∈ entries config, ∀ y ∈ entries config, isListener x = true → isListener y = true → x ≠ y →
    Disjoint (keys resolver config x) (keys resolver config y)

/-- What `start` does one after the other. -/
inductive Stage
  | forward (group : Nat)
  | binding (entry : Entry)

def allowed (config : Config) (addr : SocketAddr) : Bool := isAddressFamilyAllowed lowercase addr config.addressFamily

section Resolving

variable {resolver : Resolver} {config : Config} {entry : Entry} {addr : SocketAddr} {hash : Nat}

end Resolving

/-! ### The check -/

section Checking

variable {resolver : Resolver} {config : Config} {entry : Entry} {hash : Position → Nat}

/-- The key that the entry of a binding is given. -/
def picked (resolver : Resolver) (config : Config) (hash : Position → Nat) (entry : Entry) : Option (Bool × SocketAddr) :=
  (preflightEntry resolver config hash entry).map LocalBinding.key

end Checking

end Preflight

end Azbridge.Runtime
