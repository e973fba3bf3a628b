import RpcEcho.Api.Message
import RpcEcho.Call.Handler
import RpcEcho.Descriptor.Pool

/-!
# The reflection service

Questions about the files of a server are answered from a pool of files. A question without an
answer is told so in the answer; it does not end the call.
-/

namespace RpcEcho

open Api Descriptor

/-- What questions are answered from. -/
structure Reflector where
  pool : DescriptorPool
  /-- The names of the services. -/
  services : List String
  /-- Whether the files that a file builds on are sent with it. -/
  withDependencies : Bool

namespace Reflector

/-- A file as an answer, perhaps with the files it builds on. -/
def filesAnswer (reflector : Reflector) (file : FileDescriptor) : ReflectionAnswer :=
  .files ((if reflector.withDependencies then reflector.pool.withDependencies file
    else [file]).map FileDescriptor.encode)

/-- Nothing was found. -/
def notFound (message : String) : ReflectionAnswer := .failure .notFound message

/-- The answer to a question. No file of a pool declares extensions. -/
def answerQuery (reflector : Reflector) : Option ReflectionQuery → ReflectionAnswer
  | some (.services _) => .services reflector.services
  | some (.fileByName name) =>
    match reflector.pool.fileNamed? name with
    | some file => reflector.filesAnswer file
    | none => notFound ("file not found: " ++ name)
  | some (.fileOfSymbol symbol) =>
    match reflector.pool.fileDefining? symbol with
    | some file => reflector.filesAnswer file
    | none => notFound ("symbol not found: " ++ symbol)
  | some (.fileOfExtension type number) =>
    if reflector.pool.isMessage type then
      notFound ("extension not found: " ++ type ++ "(" ++ toString number ++ ")")
    else notFound ("type not found: " ++ type)
  | some (.extensionNumbers type) =>
    if reflector.pool.isMessage type then .extensionNumbers (withoutDot type) []
    else notFound ("type not found: " ++ type)
  | none => .failure .invalidArgument "empty reflection request"

/-- The response to a request. -/
def answer (reflector : Reflector) (request : ReflectionRequest) : ReflectionResponse where
  validHost := request.host
  originalRequest := some request
  answer := some (reflector.answerQuery request.query)

/-- Answers each request as it comes, of at most a number of requests. -/
def info (reflector : Reflector) : Nat → Handler ReflectionRequest ReflectionResponse Outcome
  | 0 => return .ok Headers.empty
  | most + 1 => do
    match ← Handler.receive with
    | .error status => return .error status
    | .ok none => return .ok Headers.empty
    | .ok (some request) =>
      if let some done ← Handler.check then
        return .error done.status
      if let .error status ← Handler.send (reflector.answer request) then
        return .error status
      info reflector most

end Reflector

end RpcEcho
