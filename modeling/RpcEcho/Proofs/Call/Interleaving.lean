import RpcEcho.Call.Exchange
import RpcEcho.Proofs.Response.Outbound

/-!
# A streaming call, one step at a time

The task that runs the handler of a streaming call and the caller that reads its response work side
by side. Between two steps of the task time may pass, the call may be cancelled, the server may
begin to drain, and the caller may read or drop the response, in any order. `Exchange.runStream`
follows one such order, that of a caller with a pace of its own; here all of them are followed.

* `Stage`: where the task stands. A wait that the end of the call can cut off first looks whether
  the call is over, and only then whether the awaited thing has come.
* `Attempt`: what became of one `send` or `sendFinal`.
* `Streaming.go`: one step of the task.
* `Move`, `Streaming.run`: all that can happen, and what it leads to.
-/

namespace RpcEcho

/-- A `send` or a `sendFinal` of a handler, from its beginning to its answer. -/
structure Attempt (ο : Type) where
  message : ο
  /-- Whether it goes out even if the call is over. -/
  isFinal : Bool
  /-- Whether the call was over when it began, and why. -/
  before : Option Done
  /-- Whether the call was over when it was answered, and why. -/
  after : Option Done
  /-- Whether the response had been dropped when it was answered. -/
  isGone : Bool
  answer : Except Status Unit

/-- A `send` or a `sendFinal` without its answer, and how the handler goes on with it. -/
structure Pending (ι ο : Type) where
  message : ο
  isFinal : Bool
  before : Option Done
  next : Except Status Unit → Handler ι ο Outcome

/-- Where the task of a streaming call stands. -/
inductive Stage (ι ο : Type) where
  | going (handler : Handler ι ο Outcome)
  /-- It waits for a time; whether it has just seen that the call is not over. -/
  | sleeping (time : Nat) (looked : Bool) (next : Except Done Unit → Handler ι ο Outcome)
  | untilDone (next : Done → Handler ι ο Outcome)
  | receiving (next : Except Status (Option ι) → Handler ι ο Outcome)
  /-- It waits for room; whether it has just seen that the call is not over. -/
  | placing (frame : ResponseFrame) (pending : Pending ι ο) (looked : Bool)
  /-- It waits for room even if the call is over. -/
  | delivering (frame : ResponseFrame) (pending : Pending ι ο)
  /-- The handler returned, and the last frame waits for room. -/
  | ending (outcome : Outcome)
  | closing
  | ended

/-- A streaming call in the middle of its run. -/
structure Streaming (ι ο : Type) where
  exchange : Exchange
  stage : Stage ι ο
  /-- The answered attempts of the handler, in the order of the calls. -/
  attempts : List (Attempt ο) := []
  /-- What the handler returned. -/
  outcome : Option Outcome := none
  /-- Whether the last frame was put into the queue. -/
  isPlaced : Bool := false

/-- What can happen to a streaming call. -/
inductive Move (ι : Type) where
  /-- The task takes a step. -/
  | go
  /-- Milliseconds pass. -/
  | pass (millis : Nat)
  /-- The call is cancelled. -/
  | cancel
  /-- The server begins to drain, which cancels the call. -/
  | drain
  /-- A wait for a message ends, and leaves the request in a state. -/
  | bring (answer : Except Status (Option ι)) (inbound : Inbound)
  /-- The caller asks for the next frame. -/
  | read
  /-- The caller drops the response. -/
  | drop

namespace Exchange

/-- Puts a frame into the queue if there is room; fails if the caller is gone. -/
def offer (exchange : Exchange) (frame : ResponseFrame) :
    Option (Exchange × Except Status Unit) :=
  if exchange.outbound.isGone then some (exchange, .error disconnected)
  else if exchange.outbound.hasRoom then some (exchange.put frame, .ok ())
  else none

end Exchange

namespace Streaming

variable {ι ο : Type}

/-- A streaming call whose response nobody has touched yet. -/
def start (exchange : Exchange) (caller : Caller) (handler : Handler ι ο Outcome) :
    Streaming ι ο where
  exchange := { exchange with outbound := Outbound.start caller exchange.now }
  stage := .going handler

/-- An attempt as it is answered now. -/
def record (call : Streaming ι ο) (pending : Pending ι ο) (answer : Except Status Unit) :
    Attempt ο where
  message := pending.message
  isFinal := pending.isFinal
  before := pending.before
  after := call.exchange.done?
  isGone := call.exchange.outbound.isGone
  answer := answer

/-- The handler goes on with the answer to an attempt. -/
def answered (call : Streaming ι ο) (pending : Pending ι ο) (answer : Except Status Unit) :
    Streaming ι ο :=
  { call with
    stage := .going (pending.next answer)
    attempts := call.attempts ++ [call.record pending answer] }

variable [Payload ο]

/-- The handler begins an attempt, which fails at once if the message cannot be written. -/
def begin (call : Streaming ι ο) (pending : Pending ι ο) : Streaming ι ο :=
  match call.exchange.frameOf pending.message with
  | .error status => call.answered pending (.error status)
  | .ok frame =>
    let stage := if pending.isFinal then .delivering frame pending else .placing frame pending false
    { call with stage }

/-- The task takes the next step of its handler. -/
def proceed (call : Streaming ι ο) : Handler ι ο Outcome → Streaming ι ο
  | .finish outcome => { call with stage := .ending outcome, outcome := some outcome }
  | .onCheck next => { call with stage := .going (next call.exchange.done?) }
  | .onDraining next =>
    let isDraining := Cancellation.hasCome call.exchange.drainAt call.exchange.now
    { call with stage := .going (next isDraining) }
  | .onSleep millis next =>
    { call with stage := .sleeping (call.exchange.now + millis) false next }
  | .onDone next => { call with stage := .untilDone next }
  | .onReceive next => { call with stage := .receiving next }
  | .onSend message next => call.begin ⟨message, false, call.exchange.done?, next⟩
  | .onSendFinal message next => call.begin ⟨message, true, call.exchange.done?, next⟩

/-- The task takes a step. A task that waits in vain stays where it is. -/
def go (call : Streaming ι ο) : Streaming ι ο :=
  match call.stage with
  | .going handler => call.proceed handler
  | .sleeping time false next =>
    match call.exchange.done? with
    | some done => { call with stage := .going (next (.error done)) }
    | none => { call with stage := .sleeping time true next }
  | .sleeping time true next =>
    if time ≤ call.exchange.now then { call with stage := .going (next (.ok ())) }
    else { call with stage := .sleeping time false next }
  | .untilDone next =>
    match call.exchange.done? with
    | some done => { call with stage := .going (next done) }
    | none => call
  | .receiving _ => call
  | .placing frame pending false =>
    match call.exchange.done? with
    | some done => call.answered pending (.error done.status)
    | none => { call with stage := .placing frame pending true }
  | .placing frame pending true =>
    match call.exchange.offer frame with
    | some (exchange, answer) => { call with exchange }.answered pending answer
    | none => { call with stage := .placing frame pending false }
  | .delivering frame pending =>
    match call.exchange.offer frame with
    | some (exchange, answer) => { call with exchange }.answered pending answer
    | none => call
  | .ending outcome =>
    match call.exchange.offer (.endOfStream call.exchange.wire outcome) with
    | some (exchange, answer) =>
      { call with exchange, stage := .closing, isPlaced := answer.isOk }
    | none => call
  | .closing =>
    { call with
      exchange := { call.exchange with outbound := call.exchange.outbound.close call.exchange.now }
      stage := .ended }
  | .ended => call

/-- The caller does something now. -/
def callerActs (call : Streaming ι ο) (state : CallerState) : Streaming ι ο :=
  { call with exchange := { call.exchange with outbound := call.exchange.outbound.actAs state } }

/-- Something happens to a call. -/
def step (call : Streaming ι ο) : Move ι → Streaming ι ο
  | .go => call.go
  | .pass millis =>
    { call with exchange := { call.exchange with now := call.exchange.now + millis } }
  | .cancel => { call with exchange := call.exchange.cancelAt call.exchange.now }
  | .drain =>
    { call with exchange :=
        { call.exchange.cancelAt call.exchange.now with drainAt := some call.exchange.now } }
  | .bring answer inbound =>
    match call.stage with
    | .receiving next =>
      { call with exchange := { call.exchange with inbound }, stage := .going (next answer) }
    | _ => call
  | .read => call.callerActs (.reading call.exchange.now)
  | .drop => call.callerActs (.leaving call.exchange.now)

/-- What a sequence of moves leads to. -/
def run (call : Streaming ι ο) (moves : List (Move ι)) : Streaming ι ο := moves.foldl step call

end Streaming

end RpcEcho
