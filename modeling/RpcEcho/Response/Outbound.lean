import RpcEcho.Response.Frame

/-!
# Frames on their way to the caller

A streaming call puts frames into a queue of sixteen places, and the caller takes them out at a
pace of its own: it waits before each frame, and it may stop after some frames and drop the
response.

* `Caller`: how a caller reads.
* `Outbound.push`, `Outbound.close`: what the call does.
* `Outbound.act`: the next thing that the caller does, at the time `Outbound.due`.
* `Outbound.advance`: all that the caller does up to a time.
-/

namespace RpcEcho

/-- How a caller reads a response. -/
structure Caller where
  /-- Milliseconds before each frame. -/
  pace : Nat := 0
  /-- How many frames the caller still wants, if it does not want all. -/
  limit : Option Nat := none
  /-- Milliseconds between the end of reading and dropping the response. -/
  lingering : Nat := 0
  deriving DecidableEq, Repr

/-- What a caller is about to do. -/
inductive CallerState where
  /-- It takes the next frame at a time. -/
  | reading (time : Nat)
  /-- It waits for a frame. -/
  | waiting
  /-- It reads no more, and drops the response at a time. -/
  | leaving (time : Nat)
  /-- It dropped the response. -/
  | gone
  deriving DecidableEq, Repr

/-- Frames on their way, and those that arrived. -/
structure Outbound where
  caller : Caller
  state : CallerState
  /-- The frames in the queue, first to come first. -/
  queue : List ResponseFrame := []
  /-- Whether no more frames will be put in. -/
  closed : Bool := false
  /-- The frames that the caller took, last first, with the times. -/
  taken : List (ResponseFrame × Nat) := []
  /-- When the caller met the end of the body. -/
  endedAt : Option Nat := none
  /-- When the caller dropped the response. -/
  droppedAt : Option Nat := none
  deriving Repr

/-- The caller after it took a frame. -/
def Caller.took (caller : Caller) : Caller := { caller with limit := caller.limit.map (· - 1) }

/-- What a caller does next when it is free at a time: it reads, unless it wants no more frames. -/
def Caller.next (caller : Caller) (time : Nat) : CallerState :=
  if caller.limit = some 0 then .leaving (time + caller.lingering)
  else .reading (time + caller.pace)

/-- How many things a caller in a state can do without a frame, at most. -/
def CallerState.acts : CallerState → Nat
  | .reading _ => 2
  | .leaving _ => 1
  | .waiting | .gone => 0

theorem CallerState.acts_next_le (caller : Caller) (time : Nat) : (caller.next time).acts ≤ 2 := by
  unfold Caller.next
  split <;> simp [acts]

namespace Outbound

/-- The places of the queue. -/
def capacity : Nat := 16

/-- A response of which nothing was read, from a time on. -/
def start (caller : Caller) (time : Nat) : Outbound where
  caller := caller
  state := caller.next time

/-- No caller listens. -/
def unheard : Outbound where
  caller := {}
  state := .gone

/-- Whether the queue has a free place. -/
def hasRoom (outbound : Outbound) : Bool := outbound.queue.length < capacity

/-- Whether the response was dropped. -/
def isGone (outbound : Outbound) : Bool := outbound.state = .gone

/-- The frames that the caller took, in order, with the times. -/
def delivered (outbound : Outbound) : List (ResponseFrame × Nat) := outbound.taken.reverse

/-- A caller that waits for a frame goes on reading at a time. -/
def wake (outbound : Outbound) (now : Nat) : Outbound :=
  match outbound.state with
  | .waiting => { outbound with state := .reading now }
  | _ => outbound

/-- A frame is put into the queue. -/
def push (outbound : Outbound) (now : Nat) (frame : ResponseFrame) : Outbound :=
  { outbound with queue := outbound.queue ++ [frame] }.wake now

/-- The last frame was put into the queue. -/
def close (outbound : Outbound) (now : Nat) : Outbound := { outbound with closed := true }.wake now

/-- When the caller does something next, if it does not wait for a frame. -/
def due (outbound : Outbound) : Option Nat :=
  match outbound.state with
  | .reading time | .leaving time => some time
  | .waiting | .gone => none

/-- When the caller takes the next frame out, if it does not wait for one. -/
def nextTaking (outbound : Outbound) : Option Nat :=
  match outbound.state with
  | .reading time => some time
  | .waiting | .leaving _ | .gone => none

/-- The next thing that the caller does. -/
def act (outbound : Outbound) : Outbound :=
  match outbound.state, outbound.queue with
  | .reading time, frame :: rest =>
    { outbound with
      queue := rest
      taken := (frame, time) :: outbound.taken
      caller := outbound.caller.took
      state := outbound.caller.took.next time }
  | .reading time, [] =>
    if outbound.closed then
      { outbound with
        endedAt := some time
        state := .leaving (time + outbound.caller.lingering) }
    else { outbound with state := .waiting }
  | .leaving time, _ => { outbound with state := .gone, droppedAt := some time }
  | .waiting, _ | .gone, _ => outbound

/-- How many things the caller can do without the call, at most. -/
def pendingActs (outbound : Outbound) : Nat := outbound.queue.length + outbound.state.acts

theorem pendingActs_act_lt {outbound : Outbound} {time : Nat} (isDue : outbound.due = some time) :
    outbound.act.pendingActs < outbound.pendingActs := by
  unfold act
  split
  case h_1 time frame rest state queue =>
    have := CallerState.acts_next_le outbound.caller.took time
    have reads : (CallerState.reading time).acts = 2 := rfl
    simp only [pendingActs, state, queue, reads, List.length_cons]
    omega
  case h_2 state queue =>
    split <;> simp [pendingActs, state, queue, CallerState.acts]
  case h_3 state => simp [pendingActs, state, CallerState.acts]
  case h_4 state => simp [due, state] at isDue
  case h_5 state => simp [due, state] at isDue

/-- Whether something happens at a time or before it; without a time, whether it happens. -/
def isBy (limit : Option Nat) (time : Nat) : Bool :=
  match limit with
  | some limit => time ≤ limit
  | none => true

/-- All that the caller does up to and at a time; without a time, all that it ever does. -/
def advance (limit : Option Nat) (outbound : Outbound) : Outbound :=
  match _isDue : outbound.due with
  | none => outbound
  | some time => if isBy limit time then outbound.act.advance limit else outbound
termination_by outbound.pendingActs
decreasing_by exact pendingActs_act_lt _isDue

end Outbound

end RpcEcho
