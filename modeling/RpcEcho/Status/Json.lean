import RpcEcho.Status
import RpcEcho.Json.Basic

/-!
# Statuses as JSON

The error object in which a failed call is reported: its code by name and its message, if any.
-/

namespace RpcEcho.Status

/-- The error object of a status. -/
def toJson (status : Status) : Json :=
  Json.ofMembers (("code", Json.ofText status.code.name) ::
    match status.message with
    | some message => [("message", Json.ofText message)]
    | none => [])

end RpcEcho.Status
