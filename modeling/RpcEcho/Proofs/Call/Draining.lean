import RpcEcho.Call.Transcript

/-!
# Calls that do not look at the drain

A call knows when the server begins to drain, but only a handler that asks for it makes use of that:
neither reading nor waiting nor sending does. So the run of a handler that does not ask, or does not
care for the answer, is the same whenever the server drains.
-/

namespace RpcEcho

namespace Exchange

/-- The call, if the server begins to drain at another time. -/
def drainingAt (exchange : Exchange) (drainAt : Option Nat) : Exchange := { exchange with drainAt }

/-- What comes of a call, if the server begins to drain at another time. -/
def alsoDraining {α : Type} (drainAt : Option Nat) (outcome : Exchange × α) : Exchange × α :=
  (outcome.1.drainingAt drainAt, outcome.2)

section Fields

variable (exchange : Exchange) (drainAt : Option Nat)

@[simp]
theorem wire_drainingAt : (exchange.drainingAt drainAt).wire = exchange.wire := rfl

@[simp]
theorem now_drainingAt : (exchange.drainingAt drainAt).now = exchange.now := rfl

@[simp]
theorem inbound_drainingAt : (exchange.drainingAt drainAt).inbound = exchange.inbound := rfl

@[simp]
theorem cancellation_drainingAt :
    (exchange.drainingAt drainAt).cancellation = exchange.cancellation := rfl

@[simp]
theorem outbound_drainingAt : (exchange.drainingAt drainAt).outbound = exchange.outbound := rfl

@[simp]
theorem done?_drainingAt : (exchange.drainingAt drainAt).done? = exchange.done? := rfl

@[simp]
theorem nextPartAt_drainingAt :
    (exchange.drainingAt drainAt).nextPartAt = exchange.nextPartAt := rfl

theorem hear_drainingAt (limit : Option Nat) :
    (exchange.drainingAt drainAt).hear limit = (exchange.hear limit).drainingAt drainAt := rfl

end Fields

variable {drainAt : Option Nat} {exchange : Exchange}

theorem wait_drainingAt (ready : Option Nat) :
    (exchange.drainingAt drainAt).wait ready = alsoDraining drainAt (exchange.wait ready) := by
  simp only [wait, hear_drainingAt, cancellation_drainingAt, now_drainingAt]
  cases (exchange.hear ((exchange.cancellation.race exchange.now ready).map
    Prod.fst)).cancellation.race exchange.now ready <;> rfl

theorem race_drainingAt (ready : Option Nat) :
    (exchange.drainingAt drainAt).race ready = alsoDraining drainAt (exchange.race ready) := by
  simp only [race, done?_drainingAt, now_drainingAt, wait_drainingAt]
  cases exchange.done? with
  | some done => rfl
  | none =>
      dsimp only
      split <;> rfl

section Reading

variable {ι : Type} [Payload ι]

theorem receiveFrom_drainingAt (parts : List BodyPart) :
    ((exchange.drainingAt drainAt).receiveFrom parts : Exchange × Option (Inbound.Result ι)) =
      alsoDraining drainAt (exchange.receiveFrom parts) := by
  induction parts generalizing exchange with
  | nil =>
      unfold receiveFrom
      simp only [inbound_drainingAt, wire_drainingAt, nextPartAt_drainingAt, race_drainingAt]
      cases (exchange.inbound.buffered? exchange.wire.codec :
        Option (Inbound.Result ι × Inbound)) with
      | some given => rfl
      | none =>
          dsimp only
          match exchange.race exchange.nextPartAt with
          | (after, none) | (after, some (.error done)) | (after, some (.ok ())) => rfl
  | cons part parts inductionHypothesis =>
      unfold receiveFrom
      simp only [inbound_drainingAt, wire_drainingAt, nextPartAt_drainingAt, race_drainingAt]
      cases (exchange.inbound.buffered? exchange.wire.codec :
        Option (Inbound.Result ι × Inbound)) with
      | some given => rfl
      | none =>
          dsimp only
          match exchange.race exchange.nextPartAt with
          | (after, none) | (after, some (.error done)) => rfl
          | (after, some (.ok ())) => exact @inductionHypothesis (after.takePart part parts)

theorem receive_drainingAt :
    ((exchange.drainingAt drainAt).receive : Exchange × Option (Inbound.Result ι)) =
      alsoDraining drainAt exchange.receive := receiveFrom_drainingAt _

theorem readBodyFrom_drainingAt (read : Bytes) (parts : List BodyPart) :
    (exchange.drainingAt drainAt).readBodyFrom read parts =
      alsoDraining drainAt (exchange.readBodyFrom read parts) := by
  induction parts generalizing exchange read with
  | nil =>
      unfold readBodyFrom
      simp only [nextPartAt_drainingAt, race_drainingAt]
      match exchange.race exchange.nextPartAt with
      | (after, none) | (after, some (.error done)) => rfl
      | (after, some (.ok ())) =>
          simp only [alsoDraining, inbound_drainingAt]
          cases after.inbound.body.ending <;> rfl
  | cons part parts inductionHypothesis =>
      unfold readBodyFrom
      simp only [nextPartAt_drainingAt, race_drainingAt]
      match exchange.race exchange.nextPartAt with
      | (after, none) | (after, some (.error done)) => rfl
      | (after, some (.ok ())) =>
          have shorter := @inductionHypothesis
            { after with inbound := after.inbound.withParts parts }
            (read ++ RequestBody.octetsOf part)
          simp only [drainingAt] at shorter
          simp only [alsoDraining, drainingAt, shorter]
          split <;> rfl

theorem readSingle_drainingAt :
    ((exchange.drainingAt drainAt).readSingle : Exchange × Option (Except Status ι)) =
      alsoDraining drainAt exchange.readSingle := by
  unfold readSingle
  rw [wire_drainingAt]
  split
  · simp only [readOnly, receive_drainingAt]
    match (exchange.receive : Exchange × Option (Inbound.Result ι)) with
    | (after, none) | (after, some (.error status)) | (after, some (.ok none)) => rfl
    | (after, some (.ok (some message))) =>
        simp only [alsoDraining]
        rw [receive_drainingAt]
        match (after.receive : Exchange × Option (Inbound.Result ι)) with
        | (later, none) | (later, some (.error status)) | (later, some (.ok (some _)))
        | (later, some (.ok none)) => rfl
  · simp only [readBody, inbound_drainingAt, readBodyFrom_drainingAt]
    match exchange.readBodyFrom [] exchange.inbound.body.parts with
    | (after, none) | (after, some octets) => rfl

end Reading

section Sending

theorem sendFrame_drainingAt (frame : ResponseFrame) :
    (exchange.drainingAt drainAt).sendFrame frame =
      alsoDraining drainAt (exchange.sendFrame frame) := by
  simp only [sendFrame, done?_drainingAt, wait_drainingAt, outbound_drainingAt]
  cases exchange.done? with
  | some done => rfl
  | none =>
      dsimp only
      split
      · rfl
      · split
        · rfl
        · match exchange.wait exchange.outbound.nextTaking with
          | (after, none) | (after, some (.error done)) | (after, some (.ok ())) => rfl

theorem deliver_drainingAt (frame : ResponseFrame) :
    (exchange.drainingAt drainAt).deliver frame =
      alsoDraining drainAt (exchange.deliver frame) := by
  unfold deliver
  rw [outbound_drainingAt]
  split
  · rfl
  · split
    · rfl
    · refine Eq.trans ?_ (apply_ite (alsoDraining drainAt) _ _ _).symm
      rfl

variable {ο : Type} [Payload ο]

theorem send_drainingAt (message : ο) :
    (exchange.drainingAt drainAt).send message = alsoDraining drainAt (exchange.send message) := by
  simp only [send, frameOf, wire_drainingAt, sendFrame_drainingAt]
  cases (Payload.encode exchange.wire.codec message).map ResponseFrame.message <;> rfl

theorem sendFinal_drainingAt (message : ο) :
    (exchange.drainingAt drainAt).sendFinal message =
      alsoDraining drainAt (exchange.sendFinal message) := by
  simp only [sendFinal, frameOf, wire_drainingAt, deliver_drainingAt]
  cases (Payload.encode exchange.wire.codec message).map ResponseFrame.message <;> rfl

end Sending

end Exchange

/-! ## Handlers -/

/-- A handler does not ask whether the server drains, or goes on alike. -/
def Handler.IgnoresDrain {ι ο α : Type} : Handler ι ο α → Prop
  | .finish _ => True
  | .onDraining next => next true = next false ∧ (next false).IgnoresDrain
  | .onCheck next => ∀ answer, (next answer).IgnoresDrain
  | .onSleep _ next => ∀ answer, (next answer).IgnoresDrain
  | .onDone next => ∀ done, (next done).IgnoresDrain
  | .onReceive next => ∀ answer, (next answer).IgnoresDrain
  | .onSend _ next | .onSendFinal _ next => ∀ answer, (next answer).IgnoresDrain

namespace Exchange

variable {ι ο α : Type} [Payload ι] [Payload ο] {drainAt : Option Nat} {exchange : Exchange}

/-- The run of a handler that does not care for the drain is the same whenever the server drains. -/
theorem run_drainingAt {handler : Handler ι ο α} (ignores : handler.IgnoresDrain) :
    (exchange.drainingAt drainAt).run handler = alsoDraining drainAt (exchange.run handler) := by
  induction handler generalizing exchange with
  | finish result => rfl
  | onCheck next inductionHypothesis => exact inductionHypothesis _ (ignores _)
  | onDraining next inductionHypothesis =>
      have same (answer : Bool) : next answer = next false := by
        cases answer with
        | false => rfl
        | true => exact ignores.1
      rw [run, run, same, same (Cancellation.hasCome exchange.drainAt _)]
      exact inductionHypothesis _ ignores.2
  | onSleep millis next inductionHypothesis =>
      rw [run, run, race_drainingAt, now_drainingAt]
      match exchange.race (some (exchange.now + millis)) with
      | (after, none) => rfl
      | (after, some answer) => exact inductionHypothesis _ (ignores _)
  | onDone next inductionHypothesis =>
      rw [run, run, race_drainingAt]
      match exchange.race none with
      | (after, none) | (after, some (.ok ())) => rfl
      | (after, some (.error done)) => exact inductionHypothesis _ (ignores _)
  | onReceive next inductionHypothesis =>
      rw [run, run, receive_drainingAt]
      match (exchange.receive : Exchange × Option (Inbound.Result ι)) with
      | (after, none) => rfl
      | (after, some answer) => exact inductionHypothesis _ (ignores _)
  | onSend message next inductionHypothesis =>
      rw [run, run, send_drainingAt]
      match exchange.send message with
      | (after, none) => rfl
      | (after, some answer) => exact inductionHypothesis _ (ignores _)
  | onSendFinal message next inductionHypothesis =>
      rw [run, run, sendFinal_drainingAt]
      exact inductionHypothesis _ (ignores _)

end Exchange

end RpcEcho
