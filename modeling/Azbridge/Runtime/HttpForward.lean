import Azbridge.Text
import Azbridge.Runtime.Control

/-!
# Relayed HTTP requests
-/

namespace Azbridge.Http

open Azbridge.Control

structure RelayedHttpListenerRequest where
  method : String
  url : String
  headers : Table String String
  hasBody : Bool
  body : Option Bytes
  remoteAddress : Option String
  remotePort : Option UInt16

def RelayedHttpListenerRequest.fromCommand (cmd : RequestCommand) (body : Option Bytes) : RelayedHttpListenerRequest where
  method := cmd.method
  url := cmd.requestTarget
  headers := cmd.requestHeaders
  hasBody := cmd.body
  body := body
  remoteAddress := cmd.remoteEndpoint.map (·.address)
  remotePort := cmd.remoteEndpoint.map (·.port)

structure RelayedHttpListenerResponse where
  statusCode : UInt16 := 200
  statusDescription : Option String := none
  headers : Table String String := .empty
  body : Option Bytes := none

def RelayedHttpListenerResponse.intoCommand (r : RelayedHttpListenerResponse) (requestId : String) : ResponseCommand where
  requestId := requestId
  statusCode := r.statusCode
  statusDescription := r.statusDescription
  responseHeaders := r.headers
  body := r.body.isSome

structure RelayedHttpListenerContext where
  request : RelayedHttpListenerRequest
  trackingId : String
  rendezvousAddress : Option String

structure HttpForwardConfig where
  host : String
  port : UInt16
  https : Bool
  insecure : Bool
  pathPrefix : Option String

def HttpForwardConfig.baseUrl (c : HttpForwardConfig) : String :=
  (if c.https then "https" else "http") ++ "://" ++ c.host ++ ":" ++ toString c.port.toNat ++
    c.pathPrefix.elim "" fun path => if path.startsWith "/" then path else "/" ++ path

/-- No letter outside ASCII is the capital of one in these names. -/
def filterForwardHeaders (headers : Table String String) : Table String String :=
  headers.retain fun name _ => Text.toAsciiLowercase name ∉
    ["host", "content-length", "transfer-encoding", "connection", "te", "trailer", "upgrade", "close"]

def stripRelayPrefix (path relayName : String) : String :=
  match Text.stripPrefix ("/" ++ relayName) path with
  | some rest => if rest = "" then "/" else rest
  | none => path

/-- `trim_end_matches('/')`. -/
def trimSlashes (url : String) : String := String.ofList ((url.toList.reverse.dropWhile (· = '/')).reverse)

/-- What the forwarder asks of its HTTP client. -/
structure ClientRequest where
  method : String
  url : String
  headers : Table String String
  body : Option Bytes

structure HttpRemoteForwarder where
  config : HttpForwardConfig
  relayName : String
  portName : String

/-- The request sent to the target; the HTTP library knows what a method is. -/
def HttpRemoteForwarder.clientRequest (f : HttpRemoteForwarder) (isMethod : String → Bool)
    (context : RelayedHttpListenerContext) : ClientRequest where
  method := if isMethod context.request.method then context.request.method else "GET"
  url :=
    let relativePath := stripRelayPrefix context.request.url f.relayName
    trimSlashes f.config.baseUrl ++ if relativePath.startsWith "/" then relativePath else "/" ++ relativePath
  headers := filterForwardHeaders context.request.headers
  body := context.request.body

end Azbridge.Http
