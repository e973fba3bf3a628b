import RpcEcho.Call.Handler
import RpcEcho.Request.Inbound
import RpcEcho.Response.Outbound

/-!
# Running a call

The state of a call in time, and what the steps of a handler do to it. A handler runs without
taking time until it has to wait. While it waits, the caller acts: everything that is due up to the
end of the wait, and at its very instant, happens before the handler goes on. A wait that can never
end leaves the call without a result.

* `Exchange.race`: waiting for something, or for the end of the call.
* `Exchange.receive`, `Exchange.send`, `Exchange.deliver`: messages in and out.
* `Exchange.readSingle`: the only message of a request.
* `Exchange.run`: a whole handler.
-/

namespace RpcEcho

/-- A call in time. -/
structure Exchange where
  wire : WireFormat
  /-- The present millisecond. -/
  now : Nat := 0
  cancellation : Cancellation
  /-- The millisecond at which the server begins to drain, if it does. -/
  drainAt : Option Nat := none
  inbound : Inbound
  outbound : Outbound

namespace Exchange

/-! ## Waiting -/

/-- Whether the call is over, and why. -/
def done? (exchange : Exchange) : Option Done := exchange.cancellation.check exchange.now

/-- What the caller does up to a time. A caller that drops the response cancels the call. -/
def hear (exchange : Exchange) (limit : Option Nat) : Exchange :=
  let outbound := exchange.outbound.advance limit
  { exchange with outbound, cancellation := exchange.cancellation.cancelBy outbound.droppedAt }

/-- Waits, while the caller acts, for something that is ready at a time or for the end of the call,
whichever is first. -/
def wait (exchange : Exchange) (ready : Option Nat) : Exchange × Option (Except Done Unit) :=
  let planned := exchange.cancellation.race exchange.now ready
  let heard := exchange.hear (planned.map Prod.fst)
  match heard.cancellation.race exchange.now ready with
  | none => (heard, none)
  | some (time, result) => ({ heard with now := time }, some result)

/-- Waits for something that is ready at a time, unless the call is over. If it is ready now, the
caller has no time to act. -/
def race (exchange : Exchange) (ready : Option Nat) : Exchange × Option (Except Done Unit) :=
  match exchange.done? with
  | some done => (exchange, some (.error done))
  | none =>
    if Cancellation.hasCome ready exchange.now then (exchange, some (.ok ()))
    else exchange.wait ready

/-- The call is cancelled at a time, but not before now. -/
def cancelAt (exchange : Exchange) (time : Nat) : Exchange :=
  { exchange with
    cancellation := exchange.cancellation.cancelBy (some (max exchange.now time)) }

/-! ## Messages in -/

/-- When the next part of the body, or its end, comes to somebody who waits for it from now on. -/
def nextPartAt (exchange : Exchange) : Option Nat :=
  match exchange.inbound.body.parts, exchange.inbound.body.ending with
  | .data _ wait :: _, _ => some (exchange.now + wait)
  | .trailers _ :: _, _ => some exchange.now
  | [], .silent => none
  | [], _ => some exchange.now

/-- Takes the next part of the body in. -/
def takePart (exchange : Exchange) (part : BodyPart) (rest : List BodyPart) : Exchange :=
  { exchange with inbound :=
      (exchange.inbound.push (RequestBody.octetsOf part)).withParts rest }

/-- The end of the body came. -/
def meetEnd (exchange : Exchange) : Exchange :=
  { exchange with inbound := { exchange.inbound with finished := true } }

/-- Waits for the next message, given the parts of the body that are still to come. -/
def receiveFrom {ι : Type} [Payload ι] (exchange : Exchange) (parts : List BodyPart) :
    Exchange × Option (Inbound.Result ι) :=
  match exchange.inbound.buffered? exchange.wire.codec with
  | some (result, inbound) => ({ exchange with inbound }, some result)
  | none =>
    match exchange.race exchange.nextPartAt with
    | (exchange, none) => (exchange, none)
    | (exchange, some (.error done)) => (exchange, some (.error done.status))
    | (exchange, some (.ok ())) =>
      match parts with
      | [] => (exchange.meetEnd, some exchange.inbound.atEnd)
      | part :: rest => (exchange.takePart part rest).receiveFrom rest
termination_by structural parts

/-- Waits for the next message. -/
def receive {ι : Type} [Payload ι] (exchange : Exchange) :
    Exchange × Option (Inbound.Result ι) :=
  exchange.receiveFrom exchange.inbound.body.parts

/-- The status of a call whose request is longer than the reader takes. -/
def tooLong : Status :=
  Status.of .resourceExhausted ("message exceeds " ++ Envelope.maxPayload.repr ++ " bytes")

/-- Waits for a whole body, given the octets that came and the parts that are still to come. A body
is too long as soon as the octets that came are too many. -/
def readBodyFrom (exchange : Exchange) (read : Bytes) (parts : List BodyPart) :
    Exchange × Option (Except Status Bytes) :=
  match exchange.race exchange.nextPartAt with
  | (exchange, none) => (exchange, none)
  | (exchange, some (.error done)) => (exchange, some (.error done.status))
  | (exchange, some (.ok ())) =>
    match parts with
    | [] =>
      match exchange.inbound.body.ending with
      | .broken reason => (exchange, some (.error (Inbound.brokenOff reason)))
      | .complete | .silent => (exchange, some (.ok read))
    | part :: rest =>
      let read := read ++ RequestBody.octetsOf part
      if Envelope.maxPayload < read.length then (exchange, some (.error tooLong))
      else
        { exchange with inbound := exchange.inbound.withParts rest }.readBodyFrom read rest
termination_by structural parts

/-- Waits for the only message of a request without envelopes. -/
def readBody {ι : Type} [Payload ι] (exchange : Exchange) :
    Exchange × Option (Except Status ι) :=
  match exchange.readBodyFrom [] exchange.inbound.body.parts with
  | (exchange, none) => (exchange, none)
  | (exchange, some octets) => (exchange, some (octets.bind (Payload.decode exchange.wire.codec)))

/-- The status of a call whose request holds no message. -/
def noMessage : Status := Status.of .invalidArgument "unary request has zero messages"

/-- The status of a call whose request holds more messages than one. -/
def manyMessages : Status := Status.of .invalidArgument "unary request has multiple messages"

/-- Waits for the only message of a request with envelopes. -/
def readOnly {ι : Type} [Payload ι] (exchange : Exchange) :
    Exchange × Option (Except Status ι) :=
  match (exchange.receive : Exchange × Option (Inbound.Result ι)) with
  | (exchange, none) => (exchange, none)
  | (exchange, some (.error status)) => (exchange, some (.error status))
  | (exchange, some (.ok none)) => (exchange, some (.error noMessage))
  | (exchange, some (.ok (some message))) =>
    match (exchange.receive : Exchange × Option (Inbound.Result ι)) with
    | (exchange, none) => (exchange, none)
    | (exchange, some (.error status)) => (exchange, some (.error status))
    | (exchange, some (.ok (some _))) => (exchange, some (.error manyMessages))
    | (exchange, some (.ok none)) => (exchange, some (.ok message))

/-- Waits for the only message of a request. -/
def readSingle {ι : Type} [Payload ι] (exchange : Exchange) :
    Exchange × Option (Except Status ι) :=
  if exchange.wire.isEnveloped then exchange.readOnly else exchange.readBody

/-! ## Messages out -/

/-- The status of a message that nobody takes any more. -/
def disconnected : Status := Status.of .canceled "client disconnected"

/-- Puts a frame into the queue. -/
def put (exchange : Exchange) (frame : ResponseFrame) : Exchange :=
  { exchange with outbound := exchange.outbound.push exchange.now frame }

/-- Puts a frame into the queue as soon as there is room, unless the call is over first. -/
def sendFrame (exchange : Exchange) (frame : ResponseFrame) :
    Exchange × Option (Except Status Unit) :=
  match exchange.done? with
  | some done => (exchange, some (.error done.status))
  | none =>
    if exchange.outbound.isGone then (exchange, some (.error disconnected))
    else if exchange.outbound.hasRoom then (exchange.put frame, some (.ok ()))
    else match exchange.wait exchange.outbound.nextTaking with
      | (exchange, none) => (exchange, none)
      | (exchange, some (.error done)) => (exchange, some (.error done.status))
      | (exchange, some (.ok ())) => (exchange.put frame, some (.ok ()))

/-- Puts a frame into the queue as soon as there is room, even if the call is over; fails only if
the caller is gone. -/
def deliver (exchange : Exchange) (frame : ResponseFrame) : Exchange × Except Status Unit :=
  if exchange.outbound.isGone then (exchange, .error disconnected)
  else if exchange.outbound.hasRoom then (exchange.put frame, .ok ())
  else
    let time := max exchange.now (exchange.outbound.due.getD exchange.now)
    let heard := { exchange.hear (some time) with now := time }
    if heard.outbound.isGone then (heard, .error disconnected) else (heard.put frame, .ok ())

/-- The frame of a message. -/
def frameOf {ο : Type} [Payload ο] (exchange : Exchange) (message : ο) :
    Except Status ResponseFrame :=
  (Payload.encode exchange.wire.codec message).map ResponseFrame.message

/-- Gives a message, unless the call is over or the message cannot be written. -/
def send {ο : Type} [Payload ο] (exchange : Exchange) (message : ο) :
    Exchange × Option (Except Status Unit) :=
  match exchange.frameOf message with
  | .error status => (exchange, some (.error status))
  | .ok frame => exchange.sendFrame frame

/-- Gives a message, even if the call is over. -/
def sendFinal {ο : Type} [Payload ο] (exchange : Exchange) (message : ο) :
    Exchange × Except Status Unit :=
  match exchange.frameOf message with
  | .error status => (exchange, .error status)
  | .ok frame => exchange.deliver frame

/-- Ends a streaming call: gives the last frame, and lets the caller read to the end. -/
def conclude (exchange : Exchange) (outcome : Outcome) : Exchange :=
  let (exchange, _) := exchange.deliver (.endOfStream exchange.wire outcome)
  { exchange with outbound := exchange.outbound.close exchange.now }.hear none

/-! ## Handlers -/

/-- Runs a handler. There is no result if it waits for something that never comes. -/
def run {ι ο α : Type} [Payload ι] [Payload ο] (exchange : Exchange) (handler : Handler ι ο α) :
    Exchange × Option α :=
  match handler with
  | .finish result => (exchange, some result)
  | .onCheck next => exchange.run (next exchange.done?)
  | .onDraining next => exchange.run (next (Cancellation.hasCome exchange.drainAt exchange.now))
  | .onSleep millis next =>
    match exchange.race (some (exchange.now + millis)) with
    | (exchange, none) => (exchange, none)
    | (exchange, some answer) => exchange.run (next answer)
  | .onDone next =>
    match exchange.race none with
    | (exchange, some (.error done)) => exchange.run (next done)
    | (exchange, _) => (exchange, none)
  | .onReceive next =>
    match (exchange.receive : Exchange × Option (Inbound.Result ι)) with
    | (exchange, none) => (exchange, none)
    | (exchange, some answer) => exchange.run (next answer)
  | .onSend message next =>
    match exchange.send message with
    | (exchange, none) => (exchange, none)
    | (exchange, some answer) => exchange.run (next answer)
  | .onSendFinal message next =>
    let (exchange, answer) := exchange.sendFinal message
    exchange.run (next answer)
termination_by structural handler

/-- Runs the handler of a streaming call, and ends the call with its outcome. -/
def runStream {ι ο : Type} [Payload ι] [Payload ο] (exchange : Exchange)
    (handler : Handler ι ο Outcome) : Exchange :=
  match exchange.run handler with
  | (exchange, some outcome) => exchange.conclude outcome
  | (exchange, none) => exchange

end Exchange

end RpcEcho
