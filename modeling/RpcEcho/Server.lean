import RpcEcho.Api.Files
import RpcEcho.Call.Transcript
import RpcEcho.Config.Settings
import RpcEcho.Services.Echo
import RpcEcho.Services.Health
import RpcEcho.Services.Reflection

/-!
# The server

Which services a server offers, and what becomes of a request: it is refused, or a method answers
it. A request is looked at in a fixed order: its path, its protocol, its HTTP method, its format,
the name of the method, and whether the method can be called in the format.

* `Server.route`: what becomes of a request.
* `Server.call`: what a method does with a call.
* `Server.answer`: what the sender of a request sees.
-/

namespace RpcEcho

open Api

/-- A request. -/
structure Request where
  method : String
  /-- What is asked for: a path, perhaps with a query, or an absolute address. -/
  target : String
  headers : Headers
  body : RequestBody

namespace Request

/-- The path of a target: without query and fragment, and of an absolute address what stands behind
the host, which is at least a slash. -/
def pathChars (target : List Char) : List Char :=
  let address := target.takeWhile fun c => c != '?' && c != '#'
  match address with
  | '/' :: _ => address
  | _ =>
    match Text.behind? "://".toList address with
    | none => []
    | some hostAndPath =>
      match hostAndPath.dropWhile fun c => c != '/' with
      | [] => ['/']
      | path => path

/-- The path of a request. -/
def path (request : Request) : List Char := pathChars request.target.toList

end Request

/-- The settings of a server tell all about it. -/
structure Server where
  settings : Settings

/-- What becomes of a request. -/
inductive Route where
  | refused (response : Response)
  | accepted (service : Service) (method : Method) (wire : WireFormat)
  deriving DecidableEq, Repr

namespace Server

/-! ## Services -/

/-- The services of a server, in order. -/
def services (server : Server) : List Service :=
  [.echo, .health]
    ++ (if server.settings.reflection.v1 then [.reflection] else [])
    ++ (if server.settings.reflection.v1alpha then [.reflectionAlpha] else [])

/-- The names of the services of a server. -/
def serviceNames (server : Server) : List String := server.services.map Service.name

/-- What questions about the files of a server are answered from. -/
def reflector (server : Server) : Reflector where
  pool := builtinPool
  services := server.serviceNames
  withDependencies := server.settings.reflection.withDependencies

/-! ## Routes -/

/-- The characters before the name of a method in the paths of a service. -/
def methodRoot (service : Service) : List Char := '/' :: service.name.toList ++ ['/']

/-- The last part of a path that belongs to a service: one part, not empty. -/
def lastPart? (service : Service) (path : List Char) : Option (List Char) :=
  let root := methodRoot service
  let part := path.drop root.length
  if root.isPrefixOf path && !part.isEmpty && !part.contains '/' then some part else none

/-- The service of a path, with the last part of the path. -/
def serviceOf? (server : Server) (path : List Char) : Option (Service × String) :=
  server.services.findSome? fun service =>
    (lastPart? service path).map fun part => (service, String.ofList part)

/-- The refusal of a protocol that the server does not speak. -/
def disabled (protocol : Protocol) : Response :=
  Response.rejection 501 (protocol.name ++ " protocol is disabled")

/-- The refusal of an HTTP method. -/
def methodNotAllowed : Response :=
  let refusal := Response.rejection 405 "method not allowed"
  { refusal with headers := refusal.headers.insert "allow" (Bytes.ofAscii "POST") }

/-- The media types that requests may carry, as one text. -/
def acceptedTypes : String := ", ".intercalate (WireFormat.mediaTypes.map Prod.fst)

/-- The refusal of a format. -/
def unsupportedMediaType : Response :=
  let refusal := Response.rejection 415 "unsupported media type"
  { refusal with headers := refusal.headers.insert "accept-post" (Bytes.ofAscii acceptedTypes) }

/-- The protocol of a request, if the server does not speak it. -/
def disabledProtocol? (server : Server) (headers : Headers) : Option Protocol :=
  (Protocol.ofHeaders? headers).filter fun protocol =>
    !server.settings.protocols.isEnabled protocol

/-- What becomes of a request whose path belongs to a service. -/
def routeIn (server : Server) (request : Request) (service : Service) (name : String) : Route :=
  match server.disabledProtocol? request.headers with
  | some protocol => .refused (disabled protocol)
  | none =>
    if request.method ≠ "POST" then .refused methodNotAllowed
    else match WireFormat.ofHeaders? request.headers with
      | none => .refused unsupportedMediaType
      | some wire =>
        match service.method? name with
        | none => .refused (Response.rejection 404 "not found")
        | some method =>
          if method.kind.accepts wire then .accepted service method wire
          else .refused unsupportedMediaType

/-- What becomes of a request. -/
def route (server : Server) (request : Request) : Route :=
  match server.serviceOf? request.path with
  | none => .refused (Response.bare 404)
  | some (service, name) => server.routeIn request service name

/-! ## Calls -/

/-- What a method does with a call. -/
def call (server : Server) (method : Method) (call : Call) : Option Transcript :=
  match method with
  | .echo => call.unary (Echo.echo call.metadata)
  | .echoWithDelay => call.unary (Echo.echoWithDelay call.metadata)
  | .echoError => call.unary Echo.echoError
  | .serverStream => call.serverStreaming (Echo.serverStream call.metadata)
  | .clientStream => call.clientStreaming (Echo.clientStream call.metadata call.messageBound)
  | .bidirectionalStream =>
    call.bidiStreaming (Echo.bidirectionalStream call.metadata call.messageBound)
  | .check => call.unary (Health.check server.serviceNames)
  | .watch => call.serverStreaming (Health.watch server.serviceNames)
  | .reflectionInfo => call.bidiStreaming (server.reflector.info call.messageBound)

/-- What the sender of a request sees, if it ever sees anything. The server begins to drain at a
time, counted from the request, if it does. -/
def answer (server : Server) (drainAt : Option Nat) (request : Request) : Option Transcript :=
  match server.route request with
  | .refused response => some (Transcript.ofResponse response 0)
  | .accepted _ method wire =>
    server.call method ⟨wire, request.headers, request.body, drainAt⟩

end Server

end RpcEcho
