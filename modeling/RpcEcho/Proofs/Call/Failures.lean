import RpcEcho.Proofs.Call.Delivery
import RpcEcho.Proofs.Request.Asking

/-!
# Failures do not have the code of success

A status may have any code, also that of success. No reader, codec or wait makes such a status, and
a handler that makes none itself passes none on. `Handler.EndsIn` says what a handler ends with if
all answers that it gets are honest; it is told by recursion on the handler, and behind a bind by
that of the first part. A run then ends in it, and so does every order of the steps of a streaming
call.
-/

namespace RpcEcho

/-- A result that is a failure has the code of one. -/
def IsHonest {α : Type} (result : Except Status α) : Prop :=
  ∀ status, result = .error status → status.code ≠ .ok

section Results

variable {α β : Type}

theorem isHonest_ok (value : α) : IsHonest (.ok value : Except Status α) :=
  fun _ fails => nomatch fails

theorem isHonest_error_iff {status : Status} :
    IsHonest (.error status : Except Status α) ↔ status.code ≠ .ok := by
  constructor
  · intro honest
    exact honest status rfl
  · intro code other same
    cases same
    exact code

/-- The type of the values of other results does not matter. -/
theorem IsHonest.error {status : Status} (honest : IsHonest (.error status : Except Status α)) :
    IsHonest (.error status : Except Status β) :=
  isHonest_error_iff.mpr (isHonest_error_iff.mp honest)

theorem isHonest_of (code : Code) (message : String) (notOk : code ≠ .ok) :
    IsHonest (.error (Status.of code message) : Except Status α) :=
  isHonest_error_iff.mpr notOk

theorem IsHonest.map {result : Except Status α} (honest : IsHonest result) (change : α → β) :
    IsHonest (result.map change) := by
  cases result with
  | ok value => exact isHonest_ok _
  | error status => exact isHonest_error_iff.mpr (honest status rfl)

theorem IsHonest.bind {result : Except Status α} {rest : α → Except Status β}
    (honest : IsHonest result) (honestThen : ∀ value, IsHonest (rest value)) :
    IsHonest (result.bind rest) := by
  cases result with
  | ok value => exact honestThen value
  | error status => exact isHonest_error_iff.mpr (honest status rfl)

end Results

/-! ## Statuses -/

theorem Done.code_ne_ok (done : Done) : done.status.code ≠ .ok := by
  cases done <;> decide

theorem Done.isHonest {α : Type} (done : Done) :
    IsHonest (.error done.status : Except Status α) := isHonest_error_iff.mpr done.code_ne_ok

theorem Envelope.Error.isHonest {α : Type} (error : Envelope.Error) :
    IsHonest (.error error.status : Except Status α) := by
  refine isHonest_error_iff.mpr ?_
  cases error <;> exact fun isOk => nomatch isOk

namespace Payload

variable {α : Type} [Payload α]

theorem isHonest_encode (codec : Codec) (value : α) : IsHonest (encode codec value) := by
  cases codec with
  | proto => exact isHonest_ok _
  | json =>
      rw [encode, Codec.encode]
      split
      · exact isHonest_ok _
      · exact isHonest_of _ _ (by decide)

theorem isHonest_decode (codec : Codec) (payload : Bytes) :
    IsHonest (decode codec payload : Except Status α) := by
  refine IsHonest.map ?_ _
  rw [Codec.decode]
  split
  · exact isHonest_ok _
  · cases codec <;> exact isHonest_of _ _ (by decide)

end Payload

/-! ## Messages in -/

namespace Inbound

variable {ι : Type} [Payload ι]

theorem isHonest_ofFrame (codec : Codec) (frame : Envelope.Frame) :
    IsHonest (ofFrame codec frame : Result ι) := by
  unfold ofFrame
  repeat' split
  · exact isHonest_ok _
  · exact Envelope.Error.isHonest _
  · exact Envelope.Error.isHonest _
  · exact (Payload.isHonest_decode codec frame.payload).map _

theorem isHonest_of_buffered {codec : Codec} {inbound after : Inbound} {result : Result ι}
    (buffered : inbound.buffered? codec = some (result, after)) : IsHonest result := by
  unfold buffered? at buffered
  split at buffered
  · cases buffered
    exact isHonest_ok _
  · split at buffered <;> cases buffered
    · exact Envelope.Error.isHonest _
    · exact isHonest_ofFrame codec _

omit [Payload ι] in
theorem isHonest_atEnd (inbound : Inbound) : IsHonest (inbound.atEnd : Result ι) := by
  unfold atEnd
  split
  · exact isHonest_of _ _ (by decide)
  · exact Envelope.Error.isHonest _
  · exact isHonest_ok _

theorem isHonest_of_askFrom {codec : Codec} {inbound after : Inbound} {parts : List BodyPart}
    {result : Result ι} (asked : inbound.askFrom codec parts = some (result, after)) :
    IsHonest result := by
  induction parts generalizing inbound with
  | nil =>
      unfold askFrom at asked
      split at asked
      · cases asked
        exact isHonest_of_buffered ‹_›
      · dsimp only at asked
        split at asked <;> cases asked
        exact isHonest_atEnd inbound
  | cons part parts inductionHypothesis =>
      unfold askFrom at asked
      split at asked
      · cases asked
        exact isHonest_of_buffered ‹_›
      · exact inductionHypothesis asked

end Inbound

namespace Exchange

section Reading

variable {ι : Type} [Payload ι]

theorem isHonest_receiveFrom (exchange : Exchange) (parts : List BodyPart) :
    ∀ result ∈ (exchange.receiveFrom parts : Exchange × Option (Inbound.Result ι)).2,
      IsHonest result := by
  intro result given
  induction parts generalizing exchange with
  | nil =>
      unfold receiveFrom at given
      split at given
      · cases given
        exact Inbound.isHonest_of_buffered ‹_›
      · split at given <;> cases given
        · exact Done.isHonest _
        · exact Inbound.isHonest_atEnd _
  | cons part parts inductionHypothesis =>
      unfold receiveFrom at given
      split at given
      · cases given
        exact Inbound.isHonest_of_buffered ‹_›
      · split at given
        · cases given
        · cases given
          exact Done.isHonest _
        · exact inductionHypothesis _ given

theorem isHonest_receive (exchange : Exchange) :
    ∀ result ∈ (exchange.receive : Exchange × Option (Inbound.Result ι)).2, IsHonest result :=
  exchange.isHonest_receiveFrom _

theorem isHonest_readBodyFrom (exchange : Exchange) (read : Bytes) (parts : List BodyPart) :
    ∀ result ∈ (exchange.readBodyFrom read parts).2, IsHonest result := by
  intro result given
  induction parts generalizing exchange read with
  | nil =>
      unfold readBodyFrom at given
      split at given
      · cases given
      · cases given
        exact Done.isHonest _
      · dsimp only at given
        split at given <;> cases given
        · exact isHonest_of _ _ (by decide)
        all_goals exact isHonest_ok _
  | cons part parts inductionHypothesis =>
      unfold readBodyFrom at given
      split at given
      · cases given
      · cases given
        exact Done.isHonest _
      · dsimp only at given
        split at given
        · cases given
          exact isHonest_of _ _ (by decide)
        · exact inductionHypothesis _ _ given

theorem isHonest_readSingle (exchange : Exchange) :
    ∀ result ∈ (exchange.readSingle : Exchange × Option (Except Status ι)).2, IsHonest result := by
  intro result given
  unfold readSingle at given
  split at given
  · have firstHonest := exchange.isHonest_receive (ι := ι)
    unfold readOnly at given
    split at given
    · cases given
    · rename_i after status first
      cases given
      exact (firstHonest (.error status) (congrArg Prod.snd first)).error
    · cases given
      exact isHonest_of _ _ (by decide)
    · rename_i after message first
      have secondHonest := after.isHonest_receive (ι := ι)
      split at given
      · cases given
      · rename_i later status second
        cases given
        exact (secondHonest (.error status) (congrArg Prod.snd second)).error
      · cases given
        exact isHonest_of _ _ (by decide)
      · cases given
        exact isHonest_ok _
  · have honest := exchange.isHonest_readBodyFrom [] exchange.inbound.body.parts
    unfold readBody at given
    split at given
    · cases given
    · rename_i after octets read
      cases given
      exact (honest octets (congrArg Prod.snd read)).bind fun octets =>
        Payload.isHonest_decode _ octets

end Reading

/-! ## Messages out -/

section Sending

variable {ο : Type} [Payload ο]

theorem isHonest_disconnected {α : Type} : IsHonest (.error disconnected : Except Status α) :=
  isHonest_of _ _ (by decide)

theorem isHonest_frameOf (exchange : Exchange) (message : ο) :
    IsHonest (exchange.frameOf message) :=
  (Payload.isHonest_encode _ message).map _

theorem isHonest_send (exchange : Exchange) (message : ο) :
    ∀ answer ∈ (exchange.send message).2, IsHonest answer := by
  intro answer given
  unfold send at given
  split at given
  · rename_i status unwritten
    cases given
    have honest := exchange.isHonest_frameOf message
    rw [unwritten] at honest
    exact honest.error
  · unfold sendFrame at given
    split at given
    · cases given
      exact Done.isHonest _
    · split at given
      · cases given
        exact isHonest_disconnected
      · split at given
        · cases given
          exact isHonest_ok _
        · split at given <;> cases given
          · exact Done.isHonest _
          · exact isHonest_ok _

theorem isHonest_deliver (exchange : Exchange) (frame : ResponseFrame) :
    IsHonest (exchange.deliver frame).2 := by
  unfold deliver
  split
  · exact isHonest_disconnected
  · split
    · exact isHonest_ok _
    · dsimp only
      split
      · exact isHonest_disconnected
      · exact isHonest_ok _

theorem isHonest_sendFinal (exchange : Exchange) (message : ο) :
    IsHonest (exchange.sendFinal message).2 := by
  unfold sendFinal
  split
  · rename_i status unwritten
    have honest := exchange.isHonest_frameOf message
    rw [unwritten] at honest
    exact honest.error
  · exact exchange.isHonest_deliver _

end Sending

end Exchange

/-! ## Handlers -/

namespace Handler

variable {ι ο α β : Type}

/-- What a handler ends with, if all answers that it gets are honest. -/
def EndsIn (allowed : α → Prop) : Handler ι ο α → Prop
  | finish result => allowed result
  | onCheck next => ∀ answer, (next answer).EndsIn allowed
  | onDraining next => ∀ answer, (next answer).EndsIn allowed
  | onSleep _ next => ∀ answer, (next answer).EndsIn allowed
  | onDone next => ∀ done, (next done).EndsIn allowed
  | onReceive next => ∀ answer, IsHonest answer → (next answer).EndsIn allowed
  | onSend _ next => ∀ answer, IsHonest answer → (next answer).EndsIn allowed
  | onSendFinal _ next => ∀ answer, IsHonest answer → (next answer).EndsIn allowed

theorem endsIn_bind {allowed : β → Prop} {handler : Handler ι ο α} {rest : α → Handler ι ο β} :
    (handler >>= rest).EndsIn allowed ↔
      handler.EndsIn fun result => (rest result).EndsIn allowed := by
  change (handler.bind rest).EndsIn allowed ↔ _
  induction handler with
  | finish result => rfl
  | onCheck next inductionHypothesis | onDraining next inductionHypothesis
  | onSleep _ next inductionHypothesis | onDone next inductionHypothesis =>
      exact forall_congr' inductionHypothesis
  | onReceive next inductionHypothesis | onSend _ next inductionHypothesis
  | onSendFinal _ next inductionHypothesis =>
      exact forall_congr' fun answer => imp_congr_right fun _ => inductionHypothesis answer

end Handler

namespace Exchange

variable {ι ο α : Type} [Payload ι] [Payload ο]

/-- The answers of a call are honest, so its handler ends as it does with honest answers. -/
theorem run_endsIn {allowed : α → Prop} {handler : Handler ι ο α} (exchange : Exchange)
    (ends : handler.EndsIn allowed) : ∀ result ∈ (exchange.run handler).2, allowed result := by
  intro result given
  induction handler generalizing exchange with
  | finish result =>
      cases given
      exact ends
  | onCheck next inductionHypothesis | onDraining next inductionHypothesis =>
      exact inductionHypothesis _ _ (ends _) given
  | onSleep millis next inductionHypothesis =>
      rw [run] at given
      split at given
      · cases given
      · exact inductionHypothesis _ _ (ends _) given
  | onDone next inductionHypothesis =>
      rw [run] at given
      split at given
      · exact inductionHypothesis _ _ (ends _) given
      · cases given
  | onReceive next inductionHypothesis =>
      have honest := exchange.isHonest_receive (ι := ι)
      rw [run] at given
      split at given
      · cases given
      · rename_i after answer received
        exact inductionHypothesis _ _ (ends _ (honest answer (congrArg Prod.snd received))) given
  | onSend message next inductionHypothesis =>
      have honest := exchange.isHonest_send message
      rw [run] at given
      split at given
      · cases given
      · rename_i after answer sent
        exact inductionHypothesis _ _ (ends _ (honest answer (congrArg Prod.snd sent))) given
  | onSendFinal message next inductionHypothesis =>
      exact inductionHypothesis _ _ (ends _ (exchange.isHonest_sendFinal message)) given

end Exchange

/-! ## In every order -/

/-- What the handler of a task ends with, if all answers that it is still to get are honest. -/
def Stage.EndsIn {ι ο : Type} (allowed : Outcome → Prop) : Stage ι ο → Prop
  | .going handler => handler.EndsIn allowed
  | .sleeping _ _ next => ∀ answer, (next answer).EndsIn allowed
  | .untilDone next => ∀ done, (next done).EndsIn allowed
  | .receiving next => ∀ answer, IsHonest answer → (next answer).EndsIn allowed
  | .placing _ pending _ | .delivering _ pending =>
    ∀ answer, IsHonest answer → (pending.next answer).EndsIn allowed
  | .ending _ | .closing | .ended => True

namespace Streaming

variable {ι ο : Type} [Payload ο] {call : Streaming ι ο} {allowed : Outcome → Prop}

/-- What the handler of a call has ended with or ends with. -/
structure EndsIn (allowed : Outcome → Prop) (call : Streaming ι ο) : Prop where
  stage : call.stage.EndsIn allowed
  outcome : ∀ outcome ∈ call.outcome, allowed outcome

theorem EndsIn.begin {pending : Pending ι ο} (ends : call.EndsIn allowed)
    (endsThen : ∀ answer, IsHonest answer → (pending.next answer).EndsIn allowed) :
    (call.begin pending).EndsIn allowed := by
  have honest := call.exchange.isHonest_frameOf pending.message
  unfold Streaming.begin
  split
  · rename_i status unwritten
    rw [unwritten] at honest
    exact ⟨endsThen _ honest.error, ends.outcome⟩
  · refine ⟨?_, ends.outcome⟩
    dsimp only
    split <;> exact endsThen

theorem EndsIn.proceed {handler : Handler ι ο Outcome} (ends : call.EndsIn allowed)
    (endsThen : handler.EndsIn allowed) : (call.proceed handler).EndsIn allowed := by
  cases handler with
  | finish outcome =>
      refine ⟨trivial, fun other isOutcome => ?_⟩
      cases isOutcome
      exact endsThen
  | onCheck next | onDraining next => exact ⟨endsThen _, ends.outcome⟩
  | onSleep millis next | onDone next | onReceive next => exact ⟨endsThen, ends.outcome⟩
  | onSend message next | onSendFinal message next => exact ends.begin endsThen

theorem isHonest_of_offer {exchange after : Exchange} {frame : ResponseFrame}
    {answer : Except Status Unit} (offered : exchange.offer frame = some (after, answer)) :
    IsHonest answer := by
  unfold Exchange.offer at offered
  split at offered
  · cases offered
    exact Exchange.isHonest_disconnected
  · split at offered <;> cases offered
    exact isHonest_ok _

theorem EndsIn.go (ends : call.EndsIn allowed) : call.go.EndsIn allowed := by
  obtain ⟨endsThen, returned⟩ := ends
  have same : call.EndsIn allowed := ⟨endsThen, returned⟩
  rw [Streaming.go]
  generalize call.stage = stage at endsThen
  cases stage with
  | going handler => exact same.proceed endsThen
  | sleeping time looked next =>
      cases looked <;> dsimp only <;> split
      · exact ⟨endsThen _, returned⟩
      · exact ⟨endsThen, returned⟩
      · exact ⟨endsThen _, returned⟩
      · exact ⟨endsThen, returned⟩
  | untilDone next =>
      dsimp only
      split
      · exact ⟨endsThen _, returned⟩
      · exact same
  | receiving next => exact same
  | placing frame pending looked =>
      cases looked <;> dsimp only <;> split
      · exact ⟨endsThen _ (Done.isHonest _), returned⟩
      · exact ⟨endsThen, returned⟩
      · exact ⟨endsThen _ (isHonest_of_offer ‹_›), returned⟩
      · exact ⟨endsThen, returned⟩
  | delivering frame pending =>
      dsimp only
      split
      · exact ⟨endsThen _ (isHonest_of_offer ‹_›), returned⟩
      · exact same
  | ending outcome =>
      dsimp only
      split
      · exact ⟨trivial, returned⟩
      · exact same
  | closing => exact ⟨trivial, returned⟩
  | ended => exact same

variable [Payload ι]

/-- A wait for a message ends with what asking for one gives, or because the call is over. -/
def MayHappen (call : Streaming ι ο) : Move ι → Prop
  | .bring answer inbound =>
    call.exchange.inbound.ask call.exchange.wire.codec = some (answer, inbound) ∨
      ∃ done : Done, answer = .error done.status
  | _ => True

/-- Whether moves can happen one after the other. -/
def CanTake (call : Streaming ι ο) : List (Move ι) → Prop
  | [] => True
  | move :: moves => call.MayHappen move ∧ (call.step move).CanTake moves

theorem EndsIn.step {move : Move ι} (mayHappen : call.MayHappen move)
    (ends : call.EndsIn allowed) : (call.step move).EndsIn allowed := by
  cases move with
  | go => exact ends.go
  | pass millis => exact ⟨ends.stage, ends.outcome⟩
  | cancel | drain | read | drop => exact ⟨ends.stage, ends.outcome⟩
  | bring answer inbound =>
      have honest : IsHonest answer := by
        rcases mayHappen with asked | ⟨done, rfl⟩
        · exact Inbound.isHonest_of_askFrom asked
        · exact done.isHonest
      rw [Streaming.step]
      split
      · rename_i next stage
        have endsThen := ends.stage
        rw [stage] at endsThen
        exact ⟨endsThen answer honest, ends.outcome⟩
      · exact ends

/-- In every order of its steps, a call ends in what its handler ends in. -/
theorem EndsIn.run {moves : List (Move ι)} (canTake : call.CanTake moves)
    (ends : call.EndsIn allowed) : (call.run moves).EndsIn allowed := by
  induction moves generalizing call with
  | nil => exact ends
  | cons move moves inductionHypothesis =>
      exact inductionHypothesis canTake.2 (ends.step canTake.1)

end Streaming

end RpcEcho
