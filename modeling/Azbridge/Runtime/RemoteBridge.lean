import Azbridge.Lib.Table
import Azbridge.Runtime.Preamble
import Azbridge.Text

/-!
# Remote bridges

The forwarders behind one listener, and which of them takes a connection.
-/

namespace Azbridge.Runtime

inductive SocketAddr
  | v4 (ip : BitVec 32) (port : UInt16)
  | v6 (ip : BitVec 128) (port : UInt16) (flowinfo scopeId : UInt32)
  deriving DecidableEq, Repr

def SocketAddr.isIpv4 : SocketAddr → Bool
  | .v4 .. => true
  | .v6 .. => false

def SocketAddr.isIpv6 : SocketAddr → Bool
  | .v4 .. => false
  | .v6 .. => true

inductive RemoteForwarder
  | tcp (targetAddr : SocketAddr) (portName : String)
  | udp (targetAddr : SocketAddr) (portName : String)
  | socket (path portName : String)
  /-- Not reached by a preamble: HTTP requests have their own handler. -/
  | http (portName : String)
  deriving DecidableEq, Repr

/-- What becomes of a connection: a forwarder handles the rest of the stream, or it is refused with
these bytes for this reason, or its preamble is not one. -/
inductive Dispatch (φ : Type)
  | handled (forwarder : φ) (rest : List UInt8)
  | refused (response : List UInt8) (reason : String)
  | failed (error : PreambleError)
  deriving DecidableEq, Repr

variable {ι : Type}

/-- The forwarder for a name. Each is kept with the binding that it was made from. -/
def lookupForwarder (forwarders : Table String (ι × RemoteForwarder)) (portName : String) : Option (ι × RemoteForwarder) :=
  match forwarders.get portName with
  | some f => some f
  | none =>
    if forwarders.size = 1 ∧ (Text.parseI32 portName).isSome = true then forwarders.values.head? else none

def dispatchConnection (forwarders : Table String (ι × RemoteForwarder)) (stream : List UInt8) :
    Dispatch (ι × RemoteForwarder) :=
  match readRequest stream with
  | .error error => .failed error
  | .ok (request, rest) =>
    match lookupForwarder forwarders request.portName with
    | none => .refused (writeResponseErr 0) ("no forwarder for port name '" ++ request.portName ++ "'")
    | some forwarder =>
      match forwarder.2, request.mode with
      | .tcp .., .stream => .handled forwarder rest
      | .socket .., .stream => .handled forwarder rest
      | .udp .., .datagram => .handled forwarder rest
      | .udp .., .stream =>
        .refused (writeResponseErr 1) "mode mismatch: UDP forwarder received stream mode connection"
      | .tcp .., .datagram =>
        .refused (writeResponseErr 255) "mode mismatch: TCP forwarder received datagram mode connection"
      | .socket .., .datagram =>
        .refused (writeResponseErr 255) "mode mismatch: Socket forwarder received datagram mode connection"
      | .http .., _ => .refused (writeResponseErr 0) "HTTP forwarder does not accept WebSocket connections"

def RemoteForwarder.mode : RemoteForwarder → Option ConnectionMode
  | .tcp .. => some .stream
  | .socket .. => some .stream
  | .udp .. => some .datagram
  | .http .. => none

theorem dispatchConnection_handled {forwarders : Table String (ι × RemoteForwarder)} {stream rest : List UInt8}
    {request : PreambleRequest} {forwarder : ι × RemoteForwarder} (read : readRequest stream = .ok (request, rest)) :
    dispatchConnection forwarders stream = .handled forwarder rest ↔
      lookupForwarder forwarders request.portName = some forwarder ∧ forwarder.2.mode = some request.mode := by
  unfold dispatchConnection
  rw [read]
  dsimp only
  cases found : lookupForwarder forwarders request.portName with
  | none => simp
  | some f =>
    obtain ⟨binding, kind⟩ := f
    rw [Option.some.injEq]
    cases kind <;> cases modes : request.mode <;> simp <;> rintro rfl <;> simp [RemoteForwarder.mode]

end Azbridge.Runtime
