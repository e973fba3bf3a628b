import RpcEcho.Cancellation
import RpcEcho.Response.Frame

/-!
# Handlers

What a method does with a call: a program whose steps ask the call for something and go on with
the answer. A handler takes messages of one type, gives messages of another, and ends with a
result. It is finite along every path, and what the steps mean is told by the call that runs it.

* `Handler`: the programs, with the monad that puts one behind another.
* `Handler.check`, `Handler.sleep`, `Handler.receive`, `Handler.send`: the single steps.
-/

namespace RpcEcho

/-- A handler that takes messages of type `ι`, gives messages of type `ο` and ends with `α`. -/
inductive Handler (ι ο α : Type) where
  /-- The end. -/
  | finish (result : α)
  /-- Is the call over? -/
  | onCheck (next : Option Done → Handler ι ο α)
  /-- Is the server draining? -/
  | onDraining (next : Bool → Handler ι ο α)
  /-- Wait some milliseconds, or until the call is over. -/
  | onSleep (millis : Nat) (next : Except Done Unit → Handler ι ο α)
  /-- Wait until the call is over. -/
  | onDone (next : Done → Handler ι ο α)
  /-- Wait for the next message. -/
  | onReceive (next : Except Status (Option ι) → Handler ι ο α)
  /-- Give a message, unless the call is over. -/
  | onSend (message : ο) (next : Except Status Unit → Handler ι ο α)
  /-- Give a message, even if the call is over. -/
  | onSendFinal (message : ο) (next : Except Status Unit → Handler ι ο α)

namespace Handler

variable {ι ο α β : Type}

/-- One handler behind another. -/
def bind (handler : Handler ι ο α) (rest : α → Handler ι ο β) : Handler ι ο β :=
  match handler with
  | finish result => rest result
  | onCheck next => onCheck fun answer => (next answer).bind rest
  | onDraining next => onDraining fun answer => (next answer).bind rest
  | onSleep millis next => onSleep millis fun answer => (next answer).bind rest
  | onDone next => onDone fun answer => (next answer).bind rest
  | onReceive next => onReceive fun answer => (next answer).bind rest
  | onSend message next => onSend message fun answer => (next answer).bind rest
  | onSendFinal message next => onSendFinal message fun answer => (next answer).bind rest

instance : Monad (Handler ι ο) where
  pure := finish
  bind := bind

/-- Is the call over? -/
def check : Handler ι ο (Option Done) := onCheck finish

/-- Is the server draining? -/
def isDraining : Handler ι ο Bool := onDraining finish

/-- Waits some milliseconds, or until the call is over. -/
def sleep (millis : Nat) : Handler ι ο (Except Done Unit) := onSleep millis finish

/-- Waits until the call is over. -/
def untilDone : Handler ι ο Done := onDone finish

/-- Waits for the next message. -/
def receive : Handler ι ο (Except Status (Option ι)) := onReceive finish

/-- Gives a message, unless the call is over. -/
def send (message : ο) : Handler ι ο (Except Status Unit) := onSend message finish

/-- Gives a message, even if the call is over. -/
def sendFinal (message : ο) : Handler ι ο (Except Status Unit) := onSendFinal message finish

end Handler

end RpcEcho
