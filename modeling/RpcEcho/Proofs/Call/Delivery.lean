import RpcEcho.Proofs.Call.Interleaving
import RpcEcho.Proofs.Call.Waiting

/-!
# The invariant of a streaming call

Whatever the order of the steps of a task, of the passing of time, of cancellation and of what the
caller does: what was put into the queue are the messages that were accepted, in the order of the
calls, followed by the frame that ends the response. The invariant behind it, `Streaming.Orderly`,
holds at the start and is kept by every move.
-/

namespace RpcEcho

/-! ## The end of a call lasts -/

namespace Cancellation

/-- A call that is over stays over. One that was late may be cancelled as well. -/
theorem check_of_le {cancellation : Cancellation} {earlier later : Nat} {done : Done}
    (order : earlier ≤ later) (isOver : cancellation.check earlier = some done) :
    cancellation.check later = some done ∨ cancellation.check later = some .canceled := by
  by_cases canceled : hasCome cancellation.cancelledAt later = true
  · exact .inr (by simp [check, canceled])
  · have notBefore : hasCome cancellation.cancelledAt earlier = false := by
      rw [hasCome_eq_false_iff]
      intro time planned
      have isLater := hasCome_eq_false_iff.mp (Bool.eq_false_iff.mpr canceled) time planned
      omega
    rw [check, notBefore] at isOver
    by_cases late : hasCome cancellation.deadline (earlier * Timeout.milli) = true
    · have lateThen : hasCome cancellation.deadline (later * Timeout.milli) = true := by
        cases planned : cancellation.deadline with
        | none => simp [hasCome, planned] at late
        | some deadline =>
            simp only [hasCome, planned, decide_eq_true_eq] at late ⊢
            exact Nat.le_trans late (Nat.mul_le_mul_right _ order)
      left
      simpa [check, canceled, lateThen, late] using isOver
    · simp [late] at isOver

/-- Cancelling a call does not make it less over. -/
theorem check_cancelBy {cancellation : Cancellation} {now : Nat} {done : Done}
    (time : Option Nat) (isOver : cancellation.check now = some done) :
    (cancellation.cancelBy time).check now = some done ∨
      (cancellation.cancelBy time).check now = some .canceled := by
  unfold cancelBy
  split
  case isFalse => exact .inl isOver
  case isTrue isSooner =>
    by_cases canceled : hasCome time now = true
    · exact .inr (by simp [check, canceled])
    · have notBefore : hasCome cancellation.cancelledAt now = false := by
        rw [hasCome_eq_false_iff]
        intro planned isPlanned
        cases time with
        | none => simp [noLater] at isSooner
        | some time =>
            simp only [isPlanned, noLater, hasCome, decide_eq_true_eq] at isSooner canceled
            omega
      left
      simpa [check, canceled, notBefore] using isOver

end Cancellation

namespace Exchange

/-- What happens to a call while its task stands still. -/
structure Precedes (before after : Exchange) : Prop where
  wire : after.wire = before.wire
  isOver : ∀ done, before.done? = some done →
    after.done? = some done ∨ after.done? = some .canceled
  gone : before.outbound.isGone = true → after.outbound.isGone = true

variable {exchange : Exchange}

theorem precedes_pass (millis : Nat) :
    exchange.Precedes { exchange with now := exchange.now + millis } :=
  ⟨rfl, fun _ isOver => Cancellation.check_of_le (Nat.le_add_right _ _) isOver, id⟩

theorem precedes_cancelAt (time : Nat) : exchange.Precedes (exchange.cancelAt time) :=
  ⟨rfl, fun _ isOver => Cancellation.check_cancelBy _ isOver, id⟩

theorem precedes_drain (time : Nat) (drainAt : Option Nat) :
    exchange.Precedes { exchange.cancelAt time with drainAt } :=
  ⟨rfl, fun _ isOver => Cancellation.check_cancelBy _ isOver, id⟩

theorem precedes_callerActs (state : CallerState) :
    exchange.Precedes { exchange with outbound := exchange.outbound.actAs state } :=
  ⟨rfl, fun _ isOver => .inl isOver, exchange.outbound.isGone_actAs state⟩

theorem Precedes.refl (exchange : Exchange) : exchange.Precedes exchange :=
  ⟨rfl, fun _ isOver => .inl isOver, id⟩

theorem precedes_put (frame : ResponseFrame) : exchange.Precedes (exchange.put frame) :=
  ⟨rfl, fun _ isOver => .inl isOver, fun isGone => by simpa [put] using isGone⟩

theorem precedes_inbound (inbound : Inbound) : exchange.Precedes { exchange with inbound } :=
  ⟨rfl, fun _ isOver => .inl isOver, id⟩

theorem offer_of_gone (isGone : exchange.outbound.isGone = true) (frame : ResponseFrame) :
    exchange.offer frame = some (exchange, .error disconnected) := if_pos isGone

theorem offer_of_room (stays : exchange.outbound.isGone = false)
    (hasRoom : exchange.outbound.hasRoom = true) (frame : ResponseFrame) :
    exchange.offer frame = some (exchange.put frame, .ok ()) := by
  rw [offer, stays, hasRoom, if_neg Bool.false_ne_true, if_pos rfl]

theorem offer_cases (exchange : Exchange) (frame : ResponseFrame) :
    (exchange.outbound.isGone = true ∧
        exchange.offer frame = some (exchange, .error disconnected)) ∨
      (exchange.outbound.isGone = false ∧ exchange.outbound.hasRoom = true ∧
        exchange.offer frame = some (exchange.put frame, .ok ())) ∨
      (exchange.outbound.isGone = false ∧ exchange.outbound.hasRoom = false ∧
        exchange.offer frame = none) := by
  by_cases isGone : exchange.outbound.isGone = true
  · exact .inl ⟨isGone, offer_of_gone isGone frame⟩
  · rw [Bool.not_eq_true] at isGone
    by_cases hasRoom : exchange.outbound.hasRoom = true
    · exact .inr (.inl ⟨isGone, hasRoom, offer_of_room isGone hasRoom frame⟩)
    · rw [Bool.not_eq_true] at hasRoom
      refine .inr (.inr ⟨isGone, hasRoom, ?_⟩)
      rw [offer, isGone, hasRoom, if_neg Bool.false_ne_true, if_neg Bool.false_ne_true]

theorem exists_outbound_of_offer {frame : ResponseFrame} {after : Exchange}
    {answer : Except Status Unit} (offered : exchange.offer frame = some (after, answer)) :
    ∃ outbound : Outbound, after = { exchange with outbound } ∧
      outbound.isGone = exchange.outbound.isGone := by
  rcases exchange.offer_cases frame with ⟨_, offer⟩ | ⟨_, _, offer⟩ | ⟨_, _, offer⟩
  · cases offer.symm.trans offered
    exact ⟨_, rfl, rfl⟩
  · cases offer.symm.trans offered
    exact ⟨_, rfl, Outbound.isGone_push _ _ _⟩
  · cases offer.symm.trans offered

theorem frameOf_eq_ok_iff {ο : Type} [Payload ο] {message : ο} {frame : ResponseFrame} :
    exchange.frameOf message = .ok frame ↔
      ∃ payload, Payload.encode exchange.wire.codec message = .ok payload ∧
        .message payload = frame := by
  unfold frameOf
  cases Payload.encode exchange.wire.codec message <;> simp [Except.map]

theorem frameOf_eq_error_iff {ο : Type} [Payload ο] {message : ο} {status : Status} :
    exchange.frameOf message = .error status ↔
      Payload.encode exchange.wire.codec message = .error status := by
  unfold frameOf
  cases Payload.encode exchange.wire.codec message <;> simp [Except.map]

end Exchange

/-! ## Attempts -/

namespace Attempt

variable {ο : Type} [Payload ο]

/-- The frames that an attempt has put in: that of its message, if it was accepted. -/
def frames (wire : WireFormat) (attempt : Attempt ο) : List ResponseFrame :=
  match attempt.answer, Payload.encode wire.codec attempt.message with
  | .ok (), .ok payload => [.message payload]
  | _, _ => []

/-- The answer to an attempt has a reason. -/
structure IsFaithful (wire : WireFormat) (attempt : Attempt ο) : Prop where
  /-- The message of an accepted attempt was written. -/
  writes : attempt.answer = .ok () →
    ∃ payload, Payload.encode wire.codec attempt.message = .ok payload
  /-- A `send` that began after the end of the call fails: it cannot write the message, or it tells
  why the call is over. -/
  isOver : ∀ done, attempt.isFinal = false → attempt.before = some done →
    (∃ status, Payload.encode wire.codec attempt.message = .error status ∧
        attempt.answer = .error status) ∨
      ∃ later, attempt.after = some later ∧ (later = done ∨ later = .canceled) ∧
        attempt.answer = .error later.status
  /-- An attempt fails because the message cannot be written, because the call is over, or because
  the response was dropped. The end of the call is no reason for `sendFinal`. -/
  fails : ∀ status, attempt.answer = .error status →
    Payload.encode wire.codec attempt.message = .error status ∨
      (attempt.isFinal = false ∧ ∃ done, attempt.after = some done ∧ status = done.status) ∨
        (attempt.isGone = true ∧ status = Exchange.disconnected)

theorem frames_of_error {wire : WireFormat} {attempt : Attempt ο} {status : Status}
    (answer : attempt.answer = .error status) : attempt.frames wire = [] := by
  simp [frames, answer]

theorem frames_of_ok {wire : WireFormat} {attempt : Attempt ο} {payload : Bytes}
    (answer : attempt.answer = .ok ())
    (written : Payload.encode wire.codec attempt.message = .ok payload) :
    attempt.frames wire = [.message payload] := by
  simp [frames, answer, written]

theorem eq_message_of_mem_frames {wire : WireFormat} {attempt : Attempt ο} {frame : ResponseFrame}
    (member : frame ∈ attempt.frames wire) : ∃ payload, frame = .message payload := by
  unfold frames at member
  split at member
  · exact ⟨_, List.mem_singleton.mp member⟩
  · simp at member

end Attempt

/-! ## The invariant -/

namespace Streaming

variable {ι ο : Type} [Payload ο]

/-- The frames of the messages that were accepted, in the order of the calls. -/
def messages (call : Streaming ι ο) : List ResponseFrame :=
  call.attempts.flatMap fun attempt => attempt.frames call.exchange.wire

omit [Payload ο] in
/-- The frame that ends the response, once the handler returned. -/
def last (call : Streaming ι ο) : List ResponseFrame :=
  (call.outcome.map (ResponseFrame.endOfStream call.exchange.wire)).toList

omit [Payload ο] in
/-- The handler has not returned. -/
def IsRunning (call : Streaming ι ο) : Prop := call.outcome = none ∧ call.isPlaced = false

/-- Where the task stands fits to the rest of the call. -/
def Fits (call : Streaming ι ο) : Prop :=
  match call.stage with
  | .placing frame pending looked =>
    call.IsRunning ∧ pending.isFinal = false ∧
      call.exchange.frameOf pending.message = .ok frame ∧
      ∀ done, pending.before = some done → looked = false ∧
        (call.exchange.done? = some done ∨ call.exchange.done? = some .canceled)
  | .delivering frame pending =>
    call.IsRunning ∧ pending.isFinal = true ∧ call.exchange.frameOf pending.message = .ok frame
  | .ending outcome => call.outcome = some outcome ∧ call.isPlaced = false
  | .closing | .ended =>
    call.outcome.isSome ∧ (call.isPlaced = true ∨ call.exchange.outbound.isGone = true)
  | .going _ | .sleeping _ _ _ | .untilDone _ | .receiving _ => call.IsRunning

/-- What holds of a streaming call after any moves. -/
structure Orderly (call : Streaming ι ο) : Prop where
  contents : call.exchange.outbound.contents =
    call.messages ++ if call.isPlaced then call.last else []
  room : call.exchange.outbound.queue.length ≤ Outbound.capacity
  faithful : ∀ attempt ∈ call.attempts, attempt.IsFaithful call.exchange.wire
  fits : call.Fits
  closed : call.exchange.outbound.closed = true → call.stage = .ended
  closes : call.stage = .ended → call.exchange.outbound.closed = true
  ended : call.exchange.outbound.endedAt.isSome →
    call.exchange.outbound.queue = [] ∧ call.isPlaced = true

theorem orderly_start (exchange : Exchange) (caller : Caller) (handler : Handler ι ο Outcome) :
    (start exchange caller handler).Orderly where
  contents := rfl
  room := Nat.zero_le _
  faithful := fun _ member => nomatch member
  fits := ⟨rfl, rfl⟩
  closed := fun closed => nomatch closed
  closes := fun stage => nomatch stage
  ended := fun ends => nomatch ends

variable {call : Streaming ι ο}

theorem Fits.of_precedes {exchange : Exchange} (fits : call.Fits)
    (order : call.exchange.Precedes exchange) : { call with exchange }.Fits := by
  obtain ⟨current, stage, attempts, outcome, isPlaced⟩ := call
  obtain ⟨wire, lasts, gone⟩ := order
  cases stage with
  | placing frame pending looked =>
      obtain ⟨running, notFinal, written, isOver⟩ := fits
      refine ⟨running, notFinal, ?_, fun done before => ?_⟩
      · simpa only [Exchange.frameOf, wire] using written
      · obtain ⟨notLooked, isDone | isCanceled⟩ := isOver done before
        · exact ⟨notLooked, lasts done isDone⟩
        · refine ⟨notLooked, .inr ?_⟩
          rcases lasts .canceled isCanceled with same | same <;> exact same
  | delivering frame pending =>
      obtain ⟨running, isFinal, written⟩ := fits
      refine ⟨running, isFinal, ?_⟩
      simpa only [Exchange.frameOf, wire] using written
  | closing => exact ⟨fits.1, fits.2.imp_right gone⟩
  | ended => exact ⟨fits.1, fits.2.imp_right gone⟩
  | ending outcome => exact fits
  | going handler => exact fits
  | sleeping time looked next => exact fits
  | untilDone next => exact fits
  | receiving next => exact fits

/-! ## What a step of the task keeps -/

theorem Orderly.closed_eq_false (orderly : call.Orderly) (running : call.IsRunning) :
    call.exchange.outbound.closed = false := by
  cases closed : call.exchange.outbound.closed with
  | false => rfl
  | true =>
      have fits := orderly.fits
      rw [Fits, orderly.closed closed] at fits
      simp [running.1] at fits

/-- The handler goes on without an attempt. -/
theorem Orderly.withStage (orderly : call.Orderly) (running : call.IsRunning) {stage : Stage ι ο}
    (fits : { call with stage }.Fits) : { call with stage }.Orderly where
  contents := orderly.contents
  room := orderly.room
  faithful := orderly.faithful
  fits := fits
  closed := fun closed =>
    absurd ((orderly.closed_eq_false running).symm.trans closed) Bool.false_ne_true
  closes := fun isEnded => by
    change stage = .ended at isEnded
    subst isEnded
    have returned : call.outcome.isSome = true := fits.1
    rw [running.1] at returned
    cases returned
  ended := orderly.ended

theorem messages_answered (call : Streaming ι ο) (pending : Pending ι ο)
    (answer : Except Status Unit) :
    (call.answered pending answer).messages =
      call.messages ++ (call.record pending answer).frames call.exchange.wire := by
  simp [messages, answered]

/-- The handler goes on with the answer to an attempt that put nothing but the frames of its record
in. -/
theorem Orderly.goesOn (orderly : call.Orderly) (running : call.IsRunning)
    {exchange : Exchange} (order : call.exchange.Precedes exchange) {pending : Pending ι ο}
    {answer : Except Status Unit}
    (contents : exchange.outbound.contents = call.exchange.outbound.contents ++
      ({ call with exchange }.record pending answer).frames exchange.wire)
    (room : exchange.outbound.queue.length ≤ Outbound.capacity)
    (closed : exchange.outbound.closed = call.exchange.outbound.closed)
    (endedAt : exchange.outbound.endedAt = call.exchange.outbound.endedAt)
    (faithful : ({ call with exchange }.record pending answer).IsFaithful exchange.wire) :
    ({ call with exchange }.answered pending answer).Orderly where
  contents := by
    have before := orderly.contents
    rw [running.2, if_neg Bool.false_ne_true, List.append_nil] at before
    have sameMessages : { call with exchange }.messages = call.messages := by
      simp only [messages, order.wire]
    rw [messages_answered, sameMessages]
    change exchange.outbound.contents = _ ++ if call.isPlaced then _ else []
    rw [running.2, if_neg Bool.false_ne_true, List.append_nil, contents, before]
    rfl
  room := room
  faithful := by
    intro attempt member
    rcases List.mem_append.mp member with earlier | isLast
    · exact order.wire ▸ orderly.faithful attempt earlier
    · rw [List.mem_singleton.mp isLast]
      exact faithful
  fits := running
  closed := fun isClosed => by
    have isOpen := closed.trans (orderly.closed_eq_false running)
    exact absurd (isOpen.symm.trans isClosed) Bool.false_ne_true
  closes := fun stage => nomatch stage
  ended := fun ends => by
    change exchange.outbound.endedAt.isSome = true at ends
    rw [endedAt] at ends
    exact absurd (running.2.symm.trans (orderly.ended ends).2) Bool.false_ne_true

theorem Orderly.goesOn_error (orderly : call.Orderly) (running : call.IsRunning)
    {pending : Pending ι ο} {status : Status}
    (faithful : (call.record pending (.error status)).IsFaithful call.exchange.wire) :
    (call.answered pending (.error status)).Orderly := by
  refine orderly.goesOn running (Exchange.Precedes.refl _) ?_ orderly.room rfl rfl faithful
  rw [Attempt.frames_of_error rfl, List.append_nil]

theorem Orderly.goesOn_ok (orderly : call.Orderly) (running : call.IsRunning)
    {pending : Pending ι ο} {frame : ResponseFrame}
    (written : call.exchange.frameOf pending.message = .ok frame)
    (notOver : pending.isFinal = false → pending.before = none)
    (hasRoom : call.exchange.outbound.hasRoom = true) :
    ({ call with exchange := call.exchange.put frame }.answered pending (.ok ())).Orderly := by
  obtain ⟨payload, encoded, same⟩ := Exchange.frameOf_eq_ok_iff.mp written
  refine orderly.goesOn running (Exchange.precedes_put frame) ?_ ?_ ?_ ?_ ?_
  · rw [Attempt.frames_of_ok rfl encoded, ← same]
    exact Outbound.contents_push _ _ _
  · exact Outbound.length_queue_push _ hasRoom _ _
  · exact Outbound.closed_push _ _ _
  · exact Outbound.endedAt_push _ _ _
  · refine ⟨fun _ => ⟨payload, encoded⟩, fun done notFinal before => ?_, fun status failed => ?_⟩
    · cases (notOver notFinal).symm.trans before
    · cases failed

theorem Orderly.begin (orderly : call.Orderly) (running : call.IsRunning)
    {pending : Pending ι ο} (before : pending.before = call.exchange.done?) :
    (call.begin pending).Orderly := by
  unfold Streaming.begin
  split
  case h_1 status unwritten =>
    have encoded := Exchange.frameOf_eq_error_iff.mp unwritten
    refine orderly.goesOn_error running ⟨fun accepted => ?_, fun done _ _ => ?_, fun _ failed => ?_⟩
    · cases accepted
    · exact .inl ⟨status, encoded, rfl⟩
    · exact .inl (Except.error.inj failed ▸ encoded)
  case h_2 frame written =>
    refine orderly.withStage running ?_
    cases isFinal : pending.isFinal with
    | true => exact ⟨running, isFinal, written⟩
    | false =>
        refine ⟨running, isFinal, written, fun done isOver => ⟨rfl, .inl ?_⟩⟩
        exact before.symm.trans isOver

theorem Orderly.proceed (orderly : call.Orderly) (running : call.IsRunning)
    (handler : Handler ι ο Outcome) : (call.proceed handler).Orderly := by
  cases handler with
  | finish outcome =>
      have isOpen := orderly.closed_eq_false running
      refine ⟨?_, orderly.room, orderly.faithful, ⟨rfl, running.2⟩, fun closed => ?_,
        fun stage => (nomatch stage), orderly.ended⟩
      · have contents := orderly.contents
        rw [running.2, if_neg Bool.false_ne_true] at contents
        change _ = _ ++ if call.isPlaced then _ else []
        rw [running.2, if_neg Bool.false_ne_true]
        exact contents
      · exact absurd (isOpen.symm.trans closed) Bool.false_ne_true
  | onCheck next => exact orderly.withStage running running
  | onDraining next => exact orderly.withStage running running
  | onSleep millis next => exact orderly.withStage running running
  | onDone next => exact orderly.withStage running running
  | onReceive next => exact orderly.withStage running running
  | onSend message next => exact orderly.begin running rfl
  | onSendFinal message next => exact orderly.begin running rfl

theorem Orderly.goesOn_offered (orderly : call.Orderly) (running : call.IsRunning)
    {pending : Pending ι ο} {frame : ResponseFrame}
    (written : call.exchange.frameOf pending.message = .ok frame)
    (notOver : pending.isFinal = false → pending.before = none)
    {exchange : Exchange} {answer : Except Status Unit}
    (offered : call.exchange.offer frame = some (exchange, answer)) :
    ({ call with exchange }.answered pending answer).Orderly := by
  rcases call.exchange.offer_cases frame with
    ⟨isGone, offer⟩ | ⟨_, hasRoom, offer⟩ | ⟨_, _, offer⟩
  · cases offer.symm.trans offered
    refine orderly.goesOn_error running ⟨fun accepted => ?_, fun done notFinal before => ?_,
      fun _ failed => ?_⟩
    · cases accepted
    · cases (notOver notFinal).symm.trans before
    · exact .inr (.inr ⟨isGone, (Except.error.inj failed).symm⟩)
  · cases offer.symm.trans offered
    exact orderly.goesOn_ok running written notOver hasRoom
  · cases offer.symm.trans offered

theorem Orderly.look (orderly : call.Orderly) {frame : ResponseFrame} {pending : Pending ι ο}
    (stage : call.stage = .placing frame pending false) : call.go.Orderly := by
  have fits := orderly.fits
  rw [Fits, stage] at fits
  obtain ⟨running, notFinal, written, wasOver⟩ := fits
  unfold Streaming.go
  rw [stage]
  cases isOver : call.exchange.done? with
  | some done =>
      refine orderly.goesOn_error running ⟨fun accepted => ?_, fun began _ before => ?_,
        fun _ failed => ?_⟩
      · cases accepted
      · refine .inr ⟨done, isOver, ?_, rfl⟩
        rcases (wasOver began before).2 with same | canceled
        · exact .inl (Option.some.inj (isOver.symm.trans same))
        · exact .inr (Option.some.inj (isOver.symm.trans canceled))
      · exact .inr (.inl ⟨notFinal, done, isOver, (Except.error.inj failed).symm⟩)
  | none =>
      refine orderly.withStage running ⟨running, notFinal, written, fun done before => ?_⟩
      rcases (wasOver done before).2 with same | canceled
      · cases isOver.symm.trans same
      · cases isOver.symm.trans canceled

theorem Orderly.conclude (orderly : call.Orderly) {outcome : Outcome}
    (stage : call.stage = .ending outcome) {exchange : Exchange} {answer : Except Status Unit}
    (offered : call.exchange.offer (.endOfStream call.exchange.wire outcome) =
      some (exchange, answer)) :
    ({ call with exchange, stage := .closing, isPlaced := answer.isOk } :
      Streaming ι ο).Orderly := by
  obtain ⟨contents, room, faithful, fits, closed, _, ended⟩ := orderly
  rw [Fits, stage] at fits
  obtain ⟨returned, notPlaced⟩ := fits
  have isOpen : call.exchange.outbound.closed = false := by
    cases isClosed : call.exchange.outbound.closed with
    | false => rfl
    | true => cases stage.symm.trans (closed isClosed)
  have notEnded : call.exchange.outbound.endedAt.isSome = false := by
    cases ends : call.exchange.outbound.endedAt.isSome with
    | false => rfl
    | true => exact absurd (notPlaced.symm.trans (ended ends).2) Bool.false_ne_true
  rw [notPlaced, if_neg Bool.false_ne_true, List.append_nil] at contents
  rcases call.exchange.offer_cases (.endOfStream call.exchange.wire outcome) with
    ⟨isGone, offer⟩ | ⟨_, hasRoom, offer⟩ | ⟨_, _, offer⟩
  · cases offer.symm.trans offered
    refine ⟨?_, room, faithful, ⟨by simp [returned], .inr isGone⟩, fun isClosed => ?_,
      fun stage => (nomatch stage), fun ends => ?_⟩
    · exact contents.trans (List.append_nil _).symm
    · exact absurd (isOpen.symm.trans isClosed) Bool.false_ne_true
    · exact absurd (notEnded.symm.trans ends) Bool.false_ne_true
  · cases offer.symm.trans offered
    refine ⟨?_, ?_, faithful, ⟨by simp [returned], .inl rfl⟩, fun isClosed => ?_,
      fun stage => (nomatch stage), fun ends => ?_⟩
    · change (call.exchange.put _).outbound.contents = call.messages ++ call.last
      rw [Exchange.put, Outbound.contents_push, contents, last, returned]
      rfl
    · exact Outbound.length_queue_push _ hasRoom _ _
    · simp only [Exchange.put, Outbound.closed_push] at isClosed
      exact absurd (isOpen.symm.trans isClosed) Bool.false_ne_true
    · simp only [Exchange.put, Outbound.endedAt_push] at ends
      exact absurd (notEnded.symm.trans ends) Bool.false_ne_true
  · cases offer.symm.trans offered

theorem Orderly.go (orderly : call.Orderly) : call.go.Orderly := by
  have fits := orderly.fits
  cases stage : call.stage with
  | going handler =>
      rw [Fits, stage] at fits
      simpa only [Streaming.go, stage] using orderly.proceed fits handler
  | sleeping time looked next =>
      rw [Fits, stage] at fits
      unfold Streaming.go
      rw [stage]
      cases looked <;> dsimp only <;> split <;> exact orderly.withStage fits fits
  | untilDone next =>
      rw [Fits, stage] at fits
      unfold Streaming.go
      rw [stage]
      dsimp only
      split
      · exact orderly.withStage fits fits
      · exact orderly
  | receiving next => simpa only [Streaming.go, stage] using orderly
  | placing frame pending looked =>
      cases looked with
      | false => exact orderly.look stage
      | true =>
          rw [Fits, stage] at fits
          obtain ⟨running, notFinal, written, isOver⟩ := fits
          -- The task has just looked and seen an open call, so the attempt began in one.
          have notOver : pending.before = none := by
            cases before : pending.before with
            | none => rfl
            | some done => cases (isOver done before).1
          unfold Streaming.go
          rw [stage]
          dsimp only
          split
          case h_1 exchange answer offered =>
            exact orderly.goesOn_offered running written (fun _ => notOver) offered
          case h_2 =>
            refine orderly.withStage running ⟨running, notFinal, written, fun done before => ?_⟩
            cases notOver.symm.trans before
  | delivering frame pending =>
      rw [Fits, stage] at fits
      obtain ⟨running, isFinal, written⟩ := fits
      unfold Streaming.go
      rw [stage]
      dsimp only
      split
      case h_1 exchange answer offered =>
        refine orderly.goesOn_offered running written (fun notFinal => ?_) offered
        exact absurd (notFinal.symm.trans isFinal) Bool.false_ne_true
      case h_2 => exact orderly
  | ending outcome =>
      unfold Streaming.go
      rw [stage]
      dsimp only
      split
      case h_1 exchange answer offered => exact orderly.conclude stage offered
      case h_2 => exact orderly
  | closing =>
      rw [Fits, stage] at fits
      unfold Streaming.go
      rw [stage]
      refine ⟨?_, ?_, orderly.faithful, ?_, fun _ => rfl, fun _ => ?_, fun ends => ?_⟩
      · exact (Outbound.contents_close _ _).trans orderly.contents
      · simpa using orderly.room
      · exact ⟨fits.1, by simpa using fits.2⟩
      · exact Outbound.closed_close _ _
      · have placed := orderly.ended (by simpa using ends)
        exact ⟨by simpa using placed.1, placed.2⟩
  | ended => simpa only [Streaming.go, stage] using orderly

/-! ## What every move keeps -/

/-- Something happens around the task that puts no frame in. -/
theorem Orderly.around (orderly : call.Orderly) {exchange : Exchange}
    (order : call.exchange.Precedes exchange)
    (contents : exchange.outbound.contents = call.exchange.outbound.contents)
    (room : exchange.outbound.queue.length ≤ call.exchange.outbound.queue.length)
    (closed : exchange.outbound.closed = call.exchange.outbound.closed)
    (ended : exchange.outbound.endedAt.isSome → call.exchange.outbound.endedAt.isSome ∨
      call.exchange.outbound.closed = true ∧ call.exchange.outbound.queue = [] ∧
        call.exchange.outbound.isGone = false) :
    { call with exchange }.Orderly where
  contents := by
    have sameMessages : { call with exchange }.messages = call.messages := by
      simp only [messages, order.wire]
    have sameLast : { call with exchange }.last = call.last := by
      simp only [last, order.wire]
    rw [sameMessages, sameLast]
    exact contents.trans orderly.contents
  room := Nat.le_trans room orderly.room
  faithful := fun attempt member => order.wire ▸ orderly.faithful attempt member
  fits := orderly.fits.of_precedes order
  closed := fun isClosed => orderly.closed (closed.symm.trans isClosed)
  closes := fun stage => closed.trans (orderly.closes stage)
  ended := fun ends => by
    rcases ended ends with before | ⟨isClosed, empty, stays⟩
    · obtain ⟨empty, placed⟩ := orderly.ended before
      rw [empty] at room
      exact ⟨List.length_eq_zero_iff.mp (Nat.le_zero.mp room), placed⟩
    · have fits := orderly.fits
      rw [Fits, orderly.closed isClosed] at fits
      rw [empty] at room
      refine ⟨List.length_eq_zero_iff.mp (Nat.le_zero.mp room), fits.2.resolve_right ?_⟩
      rw [stays]
      exact Bool.false_ne_true

theorem Orderly.step (orderly : call.Orderly) (move : Move ι) : (call.step move).Orderly := by
  have callerActs (state : CallerState) : (call.callerActs state).Orderly :=
    orderly.around (Exchange.precedes_callerActs state) (Outbound.contents_actAs _ _)
      (Outbound.length_queue_actAs _ _) (Outbound.closed_actAs _ _) (Outbound.endedAt_actAs _ _)
  cases move with
  | go => exact orderly.go
  | pass millis =>
      exact orderly.around (Exchange.precedes_pass millis) rfl (Nat.le_refl _) rfl .inl
  | cancel => exact orderly.around (Exchange.precedes_cancelAt _) rfl (Nat.le_refl _) rfl .inl
  | drain => exact orderly.around (Exchange.precedes_drain _ _) rfl (Nat.le_refl _) rfl .inl
  | bring answer inbound =>
      have fits := orderly.fits
      unfold Streaming.step
      dsimp only
      split
      case h_1 next stage =>
        rw [Fits, stage] at fits
        have around : { call with exchange := { call.exchange with inbound } }.Orderly :=
          orderly.around (Exchange.precedes_inbound inbound) rfl (Nat.le_refl _) rfl .inl
        exact around.withStage fits fits
      case h_2 => exact orderly
  | read => exact callerActs _
  | drop => exact callerActs _

theorem Orderly.run (orderly : call.Orderly) (moves : List (Move ι)) :
    (call.run moves).Orderly := by
  induction moves generalizing call with
  | nil => exact orderly
  | cons move moves inductionHypothesis => exact inductionHypothesis (orderly.step move)

/-! ## What the invariant says -/

/-- A step of the task changes nothing but the queue, and nobody leaves by it. -/
theorem exchange_go (call : Streaming ι ο) :
    ∃ outbound : Outbound, call.go.exchange = { call.exchange with outbound } ∧
      outbound.isGone = call.exchange.outbound.isGone := by
  have same : ∃ outbound : Outbound, call.exchange = { call.exchange with outbound } ∧
      outbound.isGone = call.exchange.outbound.isGone := ⟨_, rfl, rfl⟩
  have begins (pending : Pending ι ο) : (call.begin pending).exchange = call.exchange := by
    unfold begin
    split <;> rfl
  unfold go
  split
  case h_1 handler stage =>
    cases handler with
    | onSend message next => exact (begins _).symm ▸ same
    | onSendFinal message next => exact (begins _).symm ▸ same
    | _ => exact same
  case h_7 | h_8 | h_9 =>
    split
    case h_1 exchange answer offered => exact Exchange.exists_outbound_of_offer offered
    case h_2 => exact same
  case h_2 | h_3 | h_4 | h_6 => split <;> exact same
  case h_5 | h_11 => exact same
  case h_10 => exact ⟨_, rfl, Outbound.isGone_close _ _⟩

theorem wire_run (call : Streaming ι ο) (moves : List (Move ι)) :
    (call.run moves).exchange.wire = call.exchange.wire := by
  induction moves generalizing call with
  | nil => rfl
  | cons move moves inductionHypothesis =>
      refine (inductionHypothesis (call.step move)).trans ?_
      cases move with
      | go =>
          obtain ⟨outbound, same, _⟩ := exchange_go call
          change call.go.exchange.wire = _
          rw [same]
      | bring answer inbound =>
          unfold step
          dsimp only
          split <;> rfl
      | _ => rfl

/-- The last frame is put in when the handler has returned, and then the response is closed. -/
theorem Orderly.stage_of_placed (orderly : call.Orderly) (isPlaced : call.isPlaced = true) :
    call.stage = .closing ∨ call.stage = .ended := by
  have fits := orderly.fits
  unfold Fits at fits
  split at fits
  case h_1 | h_2 => exact absurd (fits.1.2.symm.trans isPlaced) Bool.false_ne_true
  case h_4 stage => exact .inl stage
  case h_5 stage => exact .inr stage
  case h_3 | h_6 | h_7 | h_8 | h_9 =>
    exact absurd (fits.2.symm.trans isPlaced) Bool.false_ne_true

theorem Orderly.returned (orderly : call.Orderly) (isPlaced : call.isPlaced = true) :
    ∃ outcome, call.outcome = some outcome := by
  have fits := orderly.fits
  rw [← Option.isSome_iff_exists]
  rcases orderly.stage_of_placed isPlaced with stage | stage
  · rw [Fits, stage] at fits
    exact fits.1
  · rw [Fits, stage] at fits
    exact fits.1

/-- A caller that asks for a frame makes room for the next one. -/
theorem Orderly.offer_of_read (orderly : call.Orderly)
    (stays : call.exchange.outbound.isGone = false) (frame : ResponseFrame) :
    (call.step .read).exchange.offer frame =
      some ((call.step .read).exchange.put frame, .ok ()) := by
  have acts : (call.step .read).exchange.outbound =
      { call.exchange.outbound with state := .reading call.exchange.now }.act := by
    change call.exchange.outbound.actAs _ = _
    rw [Outbound.actAs, stays, if_neg Bool.false_ne_true]
  obtain ⟨hasRoom, isThere⟩ := Outbound.hasRoom_act
    { call.exchange.outbound with state := .reading call.exchange.now } rfl orderly.room
  apply Exchange.offer_of_room
  · rw [acts, isThere]
  · rw [acts, hasRoom]

end Streaming

end RpcEcho
