import RpcEcho.Api.Message
import RpcEcho.Call.Handler
import RpcEcho.Response.Head

/-!
# The echo service

Every response says something back together with the metadata of the request. Unary calls that
succeed send the metadata back as trailers too.
-/

namespace RpcEcho.Echo

open Api

/-- The result of a call that gives one message. -/
abbrev UnaryResult (ο : Type) := Except Status (Reply ο)

/-- A unary reply: a text and the metadata, which goes back as trailers too. -/
def reply (metadata : Metadata) (text : String) : Reply EchoResponse where
  message := ⟨text, metadata⟩
  trailers := metadata.trailers

/-- A number of milliseconds; a negative one means none. -/
def millis (value : Int) : Nat := value.toNat

/-- Says the message back. -/
def echo (metadata : Metadata) (request : EchoRequest) :
    Handler EchoRequest EchoResponse (UnaryResult EchoResponse) :=
  return .ok (reply metadata request.message)

/-- Says the message back after a delay. -/
def echoWithDelay (metadata : Metadata) (request : EchoWithDelayRequest) :
    Handler EchoWithDelayRequest EchoResponse (UnaryResult EchoResponse) := do
  if 0 < request.delay then
    if let .error done ← Handler.sleep (millis request.delay) then
      return .error done.status
  return .ok (reply metadata request.message)

/-- The status that a request asks for. The call fails even if the request asks for success. -/
def requestedFailure (request : EchoErrorRequest) : Status :=
  let code := Code.ofNumber request.code
  let message :=
    if request.details.isEmpty then
      "error with code " ++ code.number.repr ++ ": " ++ request.message
    else request.details
  Status.of (if code = .ok then .unknown else code) message

/-- Fails in the way that is asked for. -/
def echoError (request : EchoErrorRequest) :
    Handler EchoErrorRequest EchoResponse (UnaryResult EchoResponse) :=
  return .error (requestedFailure request)

/-- The status of a stream that is stopped between two messages. -/
def stopped : Done → Status
  | .canceled => Status.of .canceled "stream canceled"
  | .deadlineExceeded => Done.deadlineExceeded.status

/-- The message of a place in a stream. -/
def numbered (text : String) (place count : Nat) : String :=
  text ++ " [" ++ place.repr ++ "/" ++ count.repr ++ "]"

/-- Sends what is left of a stream of messages, with a pause before each but the first. -/
def sendRest (metadata : Metadata) (text : String) (count pause : Nat) :
    Nat → Handler ServerStreamRequest EchoResponse Outcome
  | 0 => return .ok Headers.empty
  | left + 1 => do
    let place := count - left
    if 1 < place && pause != 0 then
      if let .error done ← Handler.sleep pause then
        return .error (stopped done)
    if let some done ← Handler.check then
      return .error (stopped done)
    if let .error status ← Handler.send ⟨numbered text place count, metadata⟩ then
      return .error status
    sendRest metadata text count pause left

/-- Says the message several times, at least once. -/
def serverStream (metadata : Metadata) (request : ServerStreamRequest) :
    Handler ServerStreamRequest EchoResponse Outcome :=
  let count := (max request.count 1).toNat
  sendRest metadata request.message count (millis request.interval) count

/-- Collects messages, of which at most a number are still to come, behind those that came, last
first. -/
def collect (metadata : Metadata) (came : List String) :
    Nat → Handler EchoRequest EchoResponse (UnaryResult EchoResponse)
  | 0 => return .ok ⟨⟨", ".intercalate came.reverse, metadata⟩, Headers.empty⟩
  | most + 1 => do
    match ← Handler.receive with
    | .error status => return .error status
    | .ok none => return .ok ⟨⟨", ".intercalate came.reverse, metadata⟩, Headers.empty⟩
    | .ok (some request) => collect metadata (request.message :: came) most

/-- Says all messages back in one. -/
def clientStream (metadata : Metadata) (most : Nat) :
    Handler EchoRequest EchoResponse (UnaryResult EchoResponse) :=
  collect metadata [] most

/-- Says each message back as it comes, of at most a number of messages. -/
def bidirectionalStream (metadata : Metadata) : Nat → Handler EchoRequest EchoResponse Outcome
  | 0 => return .ok Headers.empty
  | most + 1 => do
    if let some done ← Handler.check then
      return .error done.status
    match ← Handler.receive with
    | .error status => return .error status
    | .ok none => return .ok Headers.empty
    | .ok (some request) =>
      if let .error status ← Handler.send ⟨request.message, metadata⟩ then
        return .error status
      bidirectionalStream metadata most

end RpcEcho.Echo
