import RpcEcho.Proofs.Call.Reporting

/-!
# What a call gives

A response holds messages, and only those that the handler gives: what comes behind them tells the
outcome. So what is known of every message that a handler gives is known of every message of the
response, whatever is answered to the handler and whenever the caller reads.

* `Handler.Gives`: what a handler gives, told by recursion on the handler.
* `Exchange.HoldsOnly`: what was put into a response, kept by every step of a call.
* `Transcript.HasMessage`: the payloads of messages that a caller finds in a response.
* `Call.gives_of_unary`, `Call.gives_of_respond`, `Call.gives_of_serverStreaming`,
  `Call.gives_of_bidiStreaming`: what a caller finds.
-/

namespace RpcEcho

/-! ## Handlers -/

namespace Handler

variable {ι ο α β : Type}

/-- All messages that a handler gives are allowed, whatever is answered to it. -/
def Gives (allowed : ο → Prop) : Handler ι ο α → Prop
  | finish _ => True
  | onCheck next => ∀ answer, (next answer).Gives allowed
  | onDraining next => ∀ answer, (next answer).Gives allowed
  | onSleep _ next => ∀ answer, (next answer).Gives allowed
  | onDone next => ∀ done, (next done).Gives allowed
  | onReceive next => ∀ answer, (next answer).Gives allowed
  | onSend message next => allowed message ∧ ∀ answer, (next answer).Gives allowed
  | onSendFinal message next => allowed message ∧ ∀ answer, (next answer).Gives allowed

theorem gives_bind {allowed : ο → Prop} {handler : Handler ι ο α} {rest : α → Handler ι ο β}
    (gives : handler.Gives allowed) (givesThen : ∀ result, (rest result).Gives allowed) :
    (handler >>= rest).Gives allowed := by
  change (handler.bind rest).Gives allowed
  induction handler with
  | finish result => exact givesThen result
  | onCheck next inductionHypothesis | onDraining next inductionHypothesis
  | onSleep _ next inductionHypothesis | onDone next inductionHypothesis
  | onReceive next inductionHypothesis =>
      intro answer
      exact inductionHypothesis answer (gives answer)
  | onSend _ next inductionHypothesis | onSendFinal _ next inductionHypothesis =>
      exact ⟨gives.1, fun answer => inductionHypothesis answer (gives.2 answer)⟩

end Handler

/-! ## Frames -/

section Payloads

variable {ο : Type} [Payload ο]

/-- A payload is that of an allowed message. -/
def Codec.Writes (codec : Codec) (allowed : ο → Prop) (payload : Bytes) : Prop :=
  ∃ message, allowed message ∧ Payload.encode codec message = .ok payload

/-- A frame holds an allowed message, or it is a last one. -/
def ResponseFrame.HoldsOnly (frame : ResponseFrame) (wire : WireFormat) (allowed : ο → Prop) :
    Prop :=
  (∃ payload, wire.codec.Writes allowed payload ∧ frame = .message payload) ∨
    ∃ outcome, frame = .endOfStream wire outcome

omit [Payload ο] in
theorem ResponseFrame.message_injective {first second : Bytes}
    (same : message first = message second) : first = second :=
  Envelope.wrap_inj.mp (ResponseFrame.data.inj same)

theorem ResponseFrame.HoldsOnly.writes {wire : WireFormat} {allowed : ο → Prop} {payload : Bytes}
    (holds : (message payload).HoldsOnly wire allowed) : wire.codec.Writes allowed payload := by
  rcases holds with ⟨other, writes, same⟩ | ⟨outcome, same⟩
  · rw [message_injective same]
    exact writes
  · exact absurd same (message_ne_endOfStream payload wire outcome)

end Payloads

theorem Outbound.contents_advance (limit : Option Nat) (outbound : Outbound) :
    (outbound.advance limit).contents = outbound.contents := by
  fun_induction advance limit outbound with
  | case1 outbound never => rfl
  | case2 outbound time due isBy inductionHypothesis =>
      exact inductionHypothesis.trans (contents_act outbound)
  | case3 outbound time due isLater => rfl

/-! ## Calls -/

namespace Exchange

variable {ο : Type} [Payload ο]

/-- A call in a format has put in allowed messages, and perhaps last frames, but nothing else. -/
structure HoldsOnly (exchange : Exchange) (wire : WireFormat) (allowed : ο → Prop) : Prop where
  format : exchange.wire = wire
  frames : ∀ frame ∈ exchange.outbound.contents, frame.HoldsOnly wire allowed

variable {exchange : Exchange} {wire : WireFormat} {allowed : ο → Prop}

theorem HoldsOnly.hear (holds : exchange.HoldsOnly wire allowed) (limit : Option Nat) :
    (exchange.hear limit).HoldsOnly wire allowed where
  format := holds.format
  frames := by
    change ∀ frame ∈ (exchange.outbound.advance limit).contents, _
    rw [Outbound.contents_advance]
    exact holds.frames

theorem HoldsOnly.wait (holds : exchange.HoldsOnly wire allowed) (ready : Option Nat) :
    (exchange.wait ready).1.HoldsOnly wire allowed := by
  have heard := holds.hear ((exchange.cancellation.race exchange.now ready).map Prod.fst)
  unfold Exchange.wait
  dsimp only
  split
  · exact heard
  · exact ⟨heard.format, heard.frames⟩

theorem HoldsOnly.race (holds : exchange.HoldsOnly wire allowed) (ready : Option Nat) :
    (exchange.race ready).1.HoldsOnly wire allowed := by
  unfold Exchange.race
  split
  · exact holds
  · split
    · exact holds
    · exact holds.wait ready

theorem HoldsOnly.put (holds : exchange.HoldsOnly wire allowed) {frame : ResponseFrame}
    (isFrame : frame.HoldsOnly wire allowed) : (exchange.put frame).HoldsOnly wire allowed where
  format := holds.format
  frames := by
    change ∀ other ∈ (exchange.outbound.push exchange.now frame).contents, _
    rw [Outbound.contents_push]
    intro other member
    rcases List.mem_append.mp member with isOld | isNew
    · exact holds.frames other isOld
    · rw [List.mem_singleton.mp isNew]
      exact isFrame

theorem HoldsOnly.sendFrame (holds : exchange.HoldsOnly wire allowed) {frame : ResponseFrame}
    (isFrame : frame.HoldsOnly wire allowed) :
    (exchange.sendFrame frame).1.HoldsOnly wire allowed := by
  have waits := holds.wait exchange.outbound.nextTaking
  unfold Exchange.sendFrame
  split
  · exact holds
  · split
    · exact holds
    · split
      · exact holds.put isFrame
      · generalize exchange.wait exchange.outbound.nextTaking = waited at waits
        match waited, waits with
        | (after, none), waits | (after, some (.error done)), waits => exact waits
        | (after, some (.ok ())), waits => exact waits.put isFrame

theorem HoldsOnly.deliver (holds : exchange.HoldsOnly wire allowed) {frame : ResponseFrame}
    (isFrame : frame.HoldsOnly wire allowed) :
    (exchange.deliver frame).1.HoldsOnly wire allowed := by
  unfold Exchange.deliver
  split
  · exact holds
  · split
    · exact holds.put isFrame
    · have heard := holds.hear
        (some (max exchange.now (exchange.outbound.due.getD exchange.now)))
      dsimp only
      split
      · exact ⟨heard.format, heard.frames⟩
      · refine HoldsOnly.put ?_ isFrame
        exact ⟨heard.format, heard.frames⟩

/-- The frame of an allowed message, if it can be written. -/
theorem HoldsOnly.of_frameOf (holds : exchange.HoldsOnly wire allowed) {message : ο}
    (isAllowed : allowed message) {frame : ResponseFrame}
    (written : exchange.frameOf message = .ok frame) : frame.HoldsOnly wire allowed := by
  obtain ⟨payload, encoded, rfl⟩ := frameOf_eq_ok_iff.mp written
  rw [holds.format] at encoded
  exact .inl ⟨payload, ⟨message, isAllowed, encoded⟩, rfl⟩

theorem HoldsOnly.send (holds : exchange.HoldsOnly wire allowed) {message : ο}
    (isAllowed : allowed message) : (exchange.send message).1.HoldsOnly wire allowed := by
  unfold Exchange.send
  split
  · exact holds
  · exact holds.sendFrame (holds.of_frameOf isAllowed ‹_›)

theorem HoldsOnly.sendFinal (holds : exchange.HoldsOnly wire allowed) {message : ο}
    (isAllowed : allowed message) : (exchange.sendFinal message).1.HoldsOnly wire allowed := by
  unfold Exchange.sendFinal
  split
  · exact holds
  · exact holds.deliver (holds.of_frameOf isAllowed ‹_›)

theorem HoldsOnly.conclude (holds : exchange.HoldsOnly wire allowed) (outcome : Outcome) :
    (exchange.conclude outcome).HoldsOnly wire allowed := by
  have sameLast := congrArg (ResponseFrame.endOfStream · outcome) holds.format
  have delivered := holds.deliver (.inr ⟨outcome, sameLast⟩)
  unfold Exchange.conclude
  apply HoldsOnly.hear
  refine ⟨delivered.format, ?_⟩
  dsimp only
  rw [Outbound.contents_close]
  exact delivered.frames

variable {ι α : Type} [Payload ι]

theorem HoldsOnly.receive (holds : exchange.HoldsOnly wire allowed) :
    (exchange.receive : Exchange × Option (Inbound.Result ι)).1.HoldsOnly wire allowed := by
  unfold Exchange.receive
  generalize exchange.inbound.body.parts = parts
  induction parts generalizing exchange with
  | nil =>
      have waits := holds.race exchange.nextPartAt
      unfold receiveFrom
      split
      · exact ⟨holds.format, holds.frames⟩
      · generalize exchange.race exchange.nextPartAt = raced at waits
        match raced, waits with
        | (after, none), waits | (after, some (.error done)), waits => exact waits
        | (after, some (.ok ())), waits => exact ⟨waits.format, waits.frames⟩
  | cons part parts inductionHypothesis =>
      have waits := holds.race exchange.nextPartAt
      unfold receiveFrom
      split
      · exact ⟨holds.format, holds.frames⟩
      · generalize exchange.race exchange.nextPartAt = raced at waits
        match raced, waits with
        | (after, none), waits | (after, some (.error done)), waits => exact waits
        | (after, some (.ok ())), waits =>
            exact inductionHypothesis ⟨waits.format, waits.frames⟩

/-- What is known of the messages that a handler gives is kept by its run. -/
theorem HoldsOnly.run {handler : Handler ι ο α} (gives : handler.Gives allowed)
    (holds : exchange.HoldsOnly wire allowed) :
    (exchange.run handler).1.HoldsOnly wire allowed := by
  induction handler generalizing exchange with
  | finish result => exact holds
  | onCheck next inductionHypothesis | onDraining next inductionHypothesis =>
      exact inductionHypothesis _ (gives _) holds
  | onSleep millis next inductionHypothesis =>
      have waits := holds.race (some (exchange.now + millis))
      rw [Exchange.run]
      split <;> rename_i raced <;> rw [raced] at waits
      · exact waits
      · exact inductionHypothesis _ (gives _) waits
  | onDone next inductionHypothesis =>
      have waits := holds.race none
      rw [Exchange.run]
      generalize exchange.race none = raced at waits ⊢
      rcases raced with ⟨after, _ | result⟩
      · exact waits
      · cases result with
        | error done => exact inductionHypothesis _ (gives _) waits
        | ok value => exact waits
  | onReceive next inductionHypothesis =>
      have receives := holds.receive (ι := ι)
      rw [Exchange.run]
      split <;> rename_i received <;> rw [received] at receives
      · exact receives
      · exact inductionHypothesis _ (gives _) receives
  | onSend message next inductionHypothesis =>
      have sends := holds.send gives.1
      rw [Exchange.run]
      split <;> rename_i sent <;> rw [sent] at sends
      · exact sends
      · exact inductionHypothesis _ (gives.2 _) sends
  | onSendFinal message next inductionHypothesis =>
      exact inductionHypothesis _ (gives.2 _) (holds.sendFinal gives.1)

theorem HoldsOnly.runStream {handler : Handler ι ο Outcome} (gives : handler.Gives allowed)
    (holds : exchange.HoldsOnly wire allowed) :
    (exchange.runStream handler).HoldsOnly wire allowed := by
  have runs := holds.run gives
  unfold Exchange.runStream
  generalize exchange.run handler = ended at runs ⊢
  rcases ended with ⟨after, _ | outcome⟩
  · exact runs
  · exact runs.conclude outcome

end Exchange

/-! ## What a caller finds -/

/-- A payload is that of a message of a response: that of a frame of messages or, without envelopes,
the body of a success. -/
def Transcript.HasMessage (transcript : Transcript) (wire : WireFormat) (payload : Bytes) : Prop :=
  if wire.isEnveloped then .message payload ∈ transcript.frames.map Prod.fst
  else transcript.status = 200 ∧ .data payload ∈ transcript.frames.map Prod.fst

section Finding

variable {ι ο : Type} [Payload ι] [Payload ο] {allowed : ο → Prop}

omit [Payload ι] in
theorem writes_of_ofStream {exchange : Exchange} {wire : WireFormat}
    (enveloped : wire.isEnveloped = true) (holds : exchange.HoldsOnly wire allowed) {readyAt : Nat}
    {payload : Bytes}
    (hasMessage : (Transcript.ofStream wire readyAt exchange.outbound).HasMessage wire payload) :
    wire.codec.Writes allowed payload := by
  rw [Transcript.HasMessage, if_pos enveloped] at hasMessage
  have isContent : ResponseFrame.message payload ∈ exchange.outbound.contents :=
    List.mem_append_left _ hasMessage
  exact (holds.frames _ isContent).writes

/-- A result has an allowed message, or fails with the code of a failure. -/
def IsReply (allowed : ο → Prop) (result : Except Status (Reply ο)) : Prop :=
  IsHonest result ∧ ∀ reply, result = .ok reply → allowed reply.message

omit [Payload ο] in
theorem isReply_error {status : Status} (notOk : status.code ≠ .ok) :
    IsReply allowed (.error status) :=
  ⟨isHonest_error_iff.mpr notOk, fun _ isOk => nomatch isOk⟩

omit [Payload ο] in
theorem isReply_ok {reply : Reply ο} (isAllowed : allowed reply.message) :
    IsReply allowed (.ok reply) := by
  refine ⟨isHonest_ok _, fun other same => ?_⟩
  cases same
  exact isAllowed

/-- The payload of a response that is at hand. -/
theorem writes_of_unary {wire : WireFormat} {result : Except Status (Reply ο)}
    (isReply : IsReply allowed result) {readyAt : Nat} {payload : Bytes}
    (hasMessage : (Transcript.ofResponse (Response.unary wire result) readyAt).HasMessage wire
      payload) :
    wire.codec.Writes allowed payload := by
  have frames (response : Response) :
      (Transcript.ofResponse response readyAt).frames.map Prod.fst = response.frames := by
    change (response.frames.map _).map _ = _
    rw [List.map_map]
    exact List.map_id' _
  -- A payload that is written is that of the reply, and nothing else in a response looks like one.
  have fails {status : Status} (notOk : status.code ≠ .ok)
      (hasMessage : (Transcript.ofResponse (Response.ofPayload wire (.error status))
        readyAt).HasMessage wire payload) : wire.codec.Writes allowed payload := by
    rw [Transcript.HasMessage, frames] at hasMessage
    cases wire with
    | connectUnary codec =>
        have isSuccess : status.code.httpStatus = 200 := hasMessage.1
        have isFailure := Code.httpStatus_ge notOk
        omega
    | connectStream codec | grpc codec | grpcWeb codec =>
        exact absurd (List.mem_singleton.mp hasMessage)
          (ResponseFrame.message_ne_endOfStream payload _ _)
  rw [Response.unary] at hasMessage
  cases result with
  | error status => exact fails (isReply.1 status rfl) hasMessage
  | ok reply =>
      cases encoded : Payload.encode wire.codec reply.message with
      | error status =>
          have notOk := Payload.isHonest_encode wire.codec reply.message status encoded
          simp only [Except.bind, Except.map, encoded] at hasMessage
          exact fails notOk hasMessage
      | ok written =>
          have writes : wire.codec.Writes allowed written :=
            ⟨reply.message, isReply.2 reply rfl, encoded⟩
          simp only [Except.bind, Except.map, encoded] at hasMessage
          rw [Transcript.HasMessage, frames] at hasMessage
          cases wire with
          | connectUnary codec =>
              cases ResponseFrame.data.inj (List.mem_singleton.mp hasMessage.2)
              exact writes
          | connectStream codec | grpc codec | grpcWeb codec =>
              rcases List.mem_cons.mp hasMessage with same | isLast
              · rw [ResponseFrame.message_injective same]
                exact writes
              · exact absurd (List.mem_singleton.mp isLast)
                  (ResponseFrame.message_ne_endOfStream payload _ _)

namespace Call

variable {call : Call} {transcript : Transcript} {payload : Bytes}

theorem gives_of_respond {run : Exchange × Option (Except Status (Reply ο))}
    (replies : ∀ result ∈ run.2, IsReply allowed result)
    (answered : respond call.wire run = some transcript)
    (hasMessage : transcript.HasMessage call.wire payload) :
    call.wire.codec.Writes allowed payload := by
  obtain ⟨exchange, result⟩ := run
  cases result with
  | none => cases answered
  | some result =>
      cases answered
      exact writes_of_unary (replies result rfl) hasMessage

theorem gives_of_unary {handler : ι → Handler ι ο (Except Status (Reply ο))}
    (ends : ∀ request, (handler request).EndsIn (IsReply allowed))
    (answered : call.unary handler = some transcript)
    (hasMessage : transcript.HasMessage call.wire payload) :
    call.wire.codec.Writes allowed payload := by
  rw [unary_eq] at answered
  exact gives_of_respond (call.runUnary_endsIn (fun _ => isReply_error) ends) answered hasMessage

omit [Payload ι] in
theorem holdsOnly_listen (exchange : Exchange) (allowed : ο → Prop) :
    (listen exchange).HoldsOnly exchange.wire allowed := by
  refine ⟨rfl, fun frame member => ?_⟩
  have isEmpty : (listen exchange).outbound.contents = [] := rfl
  rw [isEmpty] at member
  cases member

theorem gives_of_serverStreaming {handler : ι → Handler ι ο Outcome}
    (enveloped : call.wire.isEnveloped = true) (gives : ∀ request, (handler request).Gives allowed)
    (answered : call.serverStreaming handler = some transcript)
    (hasMessage : transcript.HasMessage call.wire payload) :
    call.wire.codec.Writes allowed payload := by
  have reads : call.startDraining.ReadsOn
      (call.startDraining.readSingle : Exchange × Option (Except Status ι)).1 :=
    Exchange.readsOn_readSingle Outbound.stays_unheard
  unfold serverStreaming at answered
  generalize (call.startDraining.readSingle : Exchange × Option (Except Status ι)) = read
    at reads answered
  match read, reads, answered with
  | (exchange, some (.error status)), reads, answered =>
      cases answered
      have sameWire : exchange.wire = call.wire := reads.wire
      have holds := holdsOnly_listen exchange allowed
      rw [sameWire] at holds
      exact writes_of_ofStream enveloped (holds.conclude _) hasMessage
  | (exchange, some (.ok request)), reads, answered =>
      cases answered
      have sameWire : exchange.wire = call.wire := reads.wire
      have holds := holdsOnly_listen exchange allowed
      rw [sameWire] at holds
      exact writes_of_ofStream enveloped (holds.runStream (gives request)) hasMessage

theorem gives_of_bidiStreaming {handler : Handler ι ο Outcome}
    (enveloped : call.wire.isEnveloped = true) (gives : handler.Gives allowed)
    (answered : call.bidiStreaming handler = some transcript)
    (hasMessage : transcript.HasMessage call.wire payload) :
    call.wire.codec.Writes allowed payload := by
  cases answered
  have holds : (listen call.startDraining).HoldsOnly call.wire allowed :=
    holdsOnly_listen call.startDraining allowed
  exact writes_of_ofStream enveloped (holds.runStream gives) hasMessage

end Call

end Finding

end RpcEcho
