import RpcEcho.Api.Message
import RpcEcho.Call.Handler
import RpcEcho.Response.Head

/-!
# The health service

The services of a server are known from the start and always serve. The empty name means the whole
server, which stops serving when it drains.
-/

namespace RpcEcho.Health

open Api

/-- The state of a service, if the name is known. -/
def status? (known : List String) (isDraining : Bool) (name : String) : Option ServingStatus :=
  if name.isEmpty then some (if isDraining then .notServing else .serving)
  else if known.contains name then some .serving
  else none

/-- The answer to a question about a name. -/
def answer (known : List String) (isDraining : Bool) (request : HealthCheckRequest) :
    Except Status (Reply HealthCheckResponse) :=
  match status? known isDraining request.service with
  | some state => .ok ⟨HealthCheckResponse.of state, Headers.empty⟩
  | none => .error (Status.of .notFound ("unknown service " ++ request.service))

/-- Tells the state of a service once. -/
def check (known : List String) (request : HealthCheckRequest) :
    Handler HealthCheckRequest HealthCheckResponse (Except Status (Reply HealthCheckResponse)) := do
  return answer known (← Handler.isDraining) request

/-- Tells the state of a service, and when the call is cancelled because the server drains, the
last state of the server. -/
def watch (known : List String) (request : HealthCheckRequest) :
    Handler HealthCheckRequest HealthCheckResponse Outcome := do
  let state := (status? known (← Handler.isDraining) request.service).getD .serviceUnknown
  if let .error status ← Handler.send (HealthCheckResponse.of state) then
    return .error status
  match ← Handler.untilDone with
  | .deadlineExceeded => return .error Done.deadlineExceeded.status
  | .canceled =>
    if request.service.isEmpty then
      if ← Handler.isDraining then
        let _ ← Handler.sendFinal (HealthCheckResponse.of .notServing)
    return .ok Headers.empty

end RpcEcho.Health
