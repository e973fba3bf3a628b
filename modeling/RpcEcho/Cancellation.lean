import RpcEcho.Status
import RpcEcho.Timeout

/-!
# Cancellation

A call stops waiting when it is cancelled or when its deadline passes. Time is counted in whole
milliseconds from the start of the call; a deadline is an exact time in nanoseconds, and a timer
that is due between two milliseconds fires at the second one.

* `Cancellation.check`: whether a call is over at an instant.
* `Cancellation.race`: what ends a wait, and when. Of events at one instant, cancellation goes
  before the deadline, and both go before the result.
-/

namespace RpcEcho

/-- Why a call stops waiting. -/
inductive Done where
  | canceled
  | deadlineExceeded
  deriving DecidableEq, Repr

/-- The status of a call that stopped waiting. -/
def Done.status : Done → Status
  | canceled => Status.of .canceled "context canceled"
  | deadlineExceeded => Status.of .deadlineExceeded "context deadline exceeded"

/-- When a call is cancelled, and until when its caller waits. -/
structure Cancellation where
  /-- The millisecond at which the call is cancelled, if it is. -/
  cancelledAt : Option Nat
  /-- The nanosecond at which the time of the call is over, if it is limited. -/
  deadline : Option Nat
  deriving DecidableEq, Repr

namespace Cancellation

/-- Neither cancelled nor limited. -/
def never : Cancellation := ⟨none, none⟩

/-- The first whole millisecond at which a time in nanoseconds has come. -/
def firstMilli (nanos : Nat) : Nat := (nanos + (Timeout.milli - 1)) / Timeout.milli

/-- Whether a time has come at an instant. -/
def hasCome (time : Option Nat) (now : Nat) : Bool :=
  match time with
  | some time => time ≤ now
  | none => false

/-- Whether a call is over at an instant, and why. -/
def check (cancellation : Cancellation) (now : Nat) : Option Done :=
  if hasCome cancellation.cancelledAt now then some .canceled
  else if hasCome cancellation.deadline (now * Timeout.milli) then some .deadlineExceeded
  else none

/-- Whether a first time comes, and no later than a second one. -/
def noLater : Option Nat → Option Nat → Bool
  | none, _ => false
  | some _, none => true
  | some first, some second => first ≤ second

/-- What ends a wait that begins at an instant for something that is ready at a time, if anything
does: the instant of the end, and whether the thing or the end of the call came first. -/
def race (cancellation : Cancellation) (start : Nat) (ready : Option Nat) :
    Option (Nat × Except Done Unit) :=
  let canceled := cancellation.cancelledAt.map (max start)
  let late := cancellation.deadline.map fun deadline => max start (firstMilli deadline)
  let ready := ready.map (max start)
  if noLater canceled late && noLater canceled ready then
    canceled.map fun time => (time, .error .canceled)
  else if noLater late ready then late.map fun time => (time, .error .deadlineExceeded)
  else ready.map fun time => (time, .ok ())

/-- The call is cancelled at a time, unless it was cancelled before. -/
def cancelBy (cancellation : Cancellation) (time : Option Nat) : Cancellation :=
  if noLater time cancellation.cancelledAt then { cancellation with cancelledAt := time }
  else cancellation

end Cancellation

end RpcEcho
