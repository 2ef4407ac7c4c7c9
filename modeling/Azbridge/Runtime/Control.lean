import Azbridge.Lib.Table

/-!
# The control channel's messages
-/

namespace Azbridge.Control

abbrev Bytes := List UInt8

structure RemoteEndpoint where
  address : String
  port : UInt16
  deriving DecidableEq, Repr

structure AcceptCommand where
  address : String
  id : String
  connectHeaders : Table String String := .empty
  remoteEndpoint : Option RemoteEndpoint := none

structure RequestCommand where
  address : String
  id : String
  requestTarget : String
  method : String
  requestHeaders : Table String String := .empty
  /-- Binary frames follow. -/
  body : Bool
  remoteEndpoint : Option RemoteEndpoint := none

structure ResponseCommand where
  requestId : String
  statusCode : UInt16
  statusDescription : Option String := none
  responseHeaders : Table String String := .empty
  body : Bool

inductive ListenerCommand where
  | accept (command : AcceptCommand)
  | request (command : RequestCommand)

inductive ListenerResponse where
  | response (command : ResponseCommand)
  | renewToken (token : String)

/-- `tungstenite::Message`; a text is what serde reads from it or writes to it. -/
inductive Message (Text : Type) where
  | text (command : Text)
  | binary (data : Bytes)
  | ping (data : Bytes)
  | pong (data : Bytes)
  | close

abbrev Received := Message (Except String ListenerCommand)

abbrev Sent := Message ListenerResponse

/-- What `read_control_messages` does about what the WebSocket gives it next. -/
inductive Reaction where
  | accept (command : AcceptCommand)
  | request (command : RequestCommand)
  | pong (data : Bytes)
  | ignored
  | returned (result : Except String Unit)

def react : Option (Except String Received) → Reaction
  | some (.ok (.text (.ok (.accept command)))) => .accept command
  | some (.ok (.text (.ok (.request command)))) => .request command
  | some (.ok (.text (.error _))) => .ignored
  | some (.ok (.ping data)) => .pong data
  | some (.ok .close) | none => .returned (.ok ())
  | some (.error e) => .returned (.error e)
  | some (.ok (.binary _)) | some (.ok (.pong _)) => .ignored

def ends (next : Option (Except String Received)) : Bool :=
  match react next with
  | .returned _ => true
  | _ => false

theorem ends_iff {next : Option (Except String Received)} : ends next = true ↔ ∃ result, react next = .returned result := by
  unfold ends
  cases react next <;> simp

end Azbridge.Control
