import RpcEcho.Call.Exchange
import RpcEcho.Response.Head

/-!
# Calls of every kind

What a caller who reads all the time sees of a call, and when: the head of the response, the frames
of its body, and its end.

* `Transcript`: what a caller sees.
* `Call`: what belongs to a call before its handler is known.
* `Call.unary`, `Call.serverStreaming`, `Call.clientStreaming`, `Call.bidiStreaming`: the kinds.
-/

namespace RpcEcho

/-- What a caller sees of a response. -/
structure Transcript where
  status : Nat
  headers : Headers
  /-- When the head comes. -/
  readyAt : Nat
  /-- The frames of the body, with the times at which they come. -/
  frames : List (ResponseFrame × Nat)
  /-- When the body ends, if it does. -/
  endedAt : Option Nat
  deriving Repr

namespace Transcript

/-- A response whose body is at hand. -/
def ofResponse (response : Response) (readyAt : Nat) : Transcript where
  status := response.status
  headers := response.headers
  readyAt := readyAt
  frames := response.frames.map fun frame => (frame, readyAt)
  endedAt := some readyAt

/-- A response whose frames came one by one. -/
def ofStream (wire : WireFormat) (readyAt : Nat) (outbound : Outbound) : Transcript :=
  let head := Response.streamHead wire []
  { status := head.status
    headers := head.headers
    readyAt := readyAt
    frames := outbound.delivered
    endedAt := outbound.endedAt }

end Transcript

/-- A call: its format, headers and body, and when the server begins to drain, if it does. -/
structure Call where
  wire : WireFormat
  headers : Headers
  body : RequestBody
  drainAt : Option Nat

namespace Call

/-- The metadata that responses show. -/
def metadata (call : Call) : Metadata := Metadata.ofHeaders call.headers

/-- The time at which a caller stops waiting. -/
def deadline (call : Call) : Option Nat := Timeout.ofHeaders? call.wire call.headers

/-- More messages than the body can hold, since each takes some octets. -/
def messageBound (call : Call) : Nat := call.body.octets.length + 1

/-- A call at its start, which nobody listens to yet. -/
def start (call : Call) (cancelledAt : Option Nat) : Exchange where
  wire := call.wire
  cancellation := ⟨cancelledAt, call.deadline⟩
  drainAt := call.drainAt
  inbound := Inbound.ofBody call.body
  outbound := Outbound.unheard

/-- A call at its start. Draining does not touch it. -/
def startApart (call : Call) : Exchange := call.start none

/-- A call at its start. Draining cancels it. -/
def startDraining (call : Call) : Exchange := call.start call.drainAt

/-- The caller begins to read. -/
def listen (exchange : Exchange) : Exchange :=
  { exchange with outbound := Outbound.start {} exchange.now }

variable {ι ο : Type} [Payload ι] [Payload ο]

/-- What the caller sees of a call that gives one message, after its handler ran. -/
def respond (wire : WireFormat) :
    Exchange × Option (Except Status (Reply ο)) → Option Transcript
  | (_, none) => none
  | (exchange, some result) =>
    some (Transcript.ofResponse (Response.unary wire result) exchange.now)

/-- A call with one message in and one out. -/
def unary (call : Call) (handler : ι → Handler ι ο (Except Status (Reply ο))) :
    Option Transcript :=
  match (call.startApart.readSingle : Exchange × Option (Except Status ι)) with
  | (_, none) => none
  | (exchange, some (.error status)) =>
    respond call.wire (exchange, some (.error status : Except Status (Reply ο)))
  | (exchange, some (.ok request)) => respond call.wire (exchange.run (handler request))

/-- A call with one message in and many out. -/
def serverStreaming (call : Call) (handler : ι → Handler ι ο Outcome) : Option Transcript :=
  match (call.startDraining.readSingle : Exchange × Option (Except Status ι)) with
  | (_, none) => none
  | (exchange, some (.error status)) =>
    some (Transcript.ofStream call.wire exchange.now
      ((listen exchange).conclude (.error status)).outbound)
  | (exchange, some (.ok request)) =>
    some (Transcript.ofStream call.wire exchange.now
      ((listen exchange).runStream (handler request)).outbound)

/-- A call with many messages in and one out. -/
def clientStreaming (call : Call) (handler : Handler ι ο (Except Status (Reply ο))) :
    Option Transcript :=
  respond call.wire (call.startDraining.run handler)

/-- A call with many messages in and many out. -/
def bidiStreaming (call : Call) (handler : Handler ι ο Outcome) : Option Transcript :=
  some (Transcript.ofStream call.wire 0 ((listen call.startDraining).runStream handler).outbound)

end Call

end RpcEcho
