import RpcEcho.Proofs.Call.Failures
import RpcEcho.Proofs.Call.Patience
import RpcEcho.Proofs.Call.Steady
import RpcEcho.Proofs.Response.Failures

/-!
# Failures reach the caller as failures

A writer is given the result of a handler, or a status if the request cannot be read. If the handler
ends in honest results, so does the call; and what is written of a failure tells it. For a call with
frames in many the last frame does, which a caller that reads to the end gets even if the call was
stopped. In every order of the steps of a task and its caller, the last frame goes in behind all
messages, and a caller that meets the end has it.
-/

namespace RpcEcho

/-! ## What the writers are given -/

/-- The status of a result that is a failure. -/
def failure? {α : Type} : Option (Except Status α) → Option Status
  | some (.error status) => some status
  | _ => none

theorem failure?_eq_some_iff {α : Type} {result : Option (Except Status α)} {status : Status} :
    failure? result = some status ↔ result = some (.error status) := by
  match result with
  | none | some (.error _) | some (.ok _) => simp [failure?]

namespace Call

variable {ι ο : Type} [Payload ι] [Payload ο]

/-- The payload of a reply, unless the call failed or the reply cannot be written. -/
def written (wire : WireFormat) (result : Except Status (Reply ο)) : Except Status Bytes :=
  result.bind fun reply => Payload.encode wire.codec reply.message

/-- A call with one message in and one out as it ends, with its result if there is one. -/
def runUnary (call : Call) (handler : ι → Handler ι ο (Except Status (Reply ο))) :
    Exchange × Option (Except Status (Reply ο)) :=
  match (call.startApart.readSingle : Exchange × Option (Except Status ι)) with
  | (exchange, none) => (exchange, none)
  | (exchange, some (.error status)) => (exchange, some (.error status))
  | (exchange, some (.ok request)) => exchange.run (handler request)

/-- A call with one message in and many out before its last frame, with its outcome if there is
one. -/
def runServerStreaming (call : Call) (handler : ι → Handler ι ο Outcome) :
    Exchange × Option Outcome :=
  match (call.startDraining.readSingle : Exchange × Option (Except Status ι)) with
  | (exchange, none) => (exchange, none)
  | (exchange, some (.error status)) => (listen exchange, some (.error status))
  | (exchange, some (.ok request)) => (listen exchange).run (handler request)

/-- A call with many messages in and many out before its last frame, with its outcome if there is
one. -/
def runBidiStreaming (call : Call) (handler : Handler ι ο Outcome) : Exchange × Option Outcome :=
  (listen call.startDraining).run handler

/-- What the writer of a response with one message is told of a failure. -/
def unaryFailure? (call : Call) (result : Option (Except Status (Reply ο))) : Option Status :=
  failure? (result.map (written call.wire))

theorem unary_eq (call : Call) (handler : ι → Handler ι ο (Except Status (Reply ο))) :
    call.unary handler = respond call.wire (call.runUnary handler) := by
  unfold unary runUnary
  generalize (call.startApart.readSingle : Exchange × Option (Except Status ι)) = read
  match read with
  | (_, none) | (_, some (.error _)) | (_, some (.ok _)) => rfl

/-- A call with one message in ends in what its handler ends in, or in a failure of the reader. -/
theorem runUnary_endsIn (call : Call) {handler : ι → Handler ι ο (Except Status (Reply ο))}
    {allowed : Except Status (Reply ο) → Prop}
    (failures : ∀ status, status.code ≠ .ok → allowed (.error status))
    (ends : ∀ request, (handler request).EndsIn allowed) :
    ∀ result ∈ (call.runUnary handler).2, allowed result := by
  have honest := call.startApart.isHonest_readSingle (ι := ι)
  intro result given
  unfold runUnary at given
  split at given
  · cases given
  · rename_i after status read
    cases given
    exact failures status (honest (.error status) (congrArg Prod.snd read) status rfl)
  · exact Exchange.run_endsIn _ (ends _) result given

theorem isHonest_runUnary (call : Call) {handler : ι → Handler ι ο (Except Status (Reply ο))}
    (ends : ∀ request, (handler request).EndsIn IsHonest) :
    ∀ result ∈ (call.runUnary handler).2, IsHonest result :=
  call.runUnary_endsIn (fun _ notOk => isHonest_error_iff.mpr notOk) ends

theorem isHonest_runServerStreaming (call : Call) {handler : ι → Handler ι ο Outcome}
    (ends : ∀ request, (handler request).EndsIn IsHonest) :
    ∀ outcome ∈ (call.runServerStreaming handler).2, IsHonest outcome := by
  have honest := call.startDraining.isHonest_readSingle (ι := ι)
  intro outcome given
  unfold runServerStreaming at given
  split at given
  · cases given
  · rename_i after status read
    cases given
    exact (honest (.error status) (congrArg Prod.snd read)).error
  · exact Exchange.run_endsIn _ (ends _) outcome given

omit [Payload ι] in
/-- A response with one message tells each failure that its writer is given. -/
theorem respond_tells {wire : WireFormat}
    {run : Exchange × Option (Except Status (Reply ο))}
    (honest : ∀ result ∈ run.2, IsHonest result) {status : Status}
    (fails : failure? (run.2.map (written wire)) = some status) :
    status.code ≠ .ok ∧
      ∃ transcript, respond wire run = some transcript ∧ transcript.TellsFailure wire status := by
  obtain ⟨exchange, result⟩ := run
  obtain ⟨ended, rfl, unwritten⟩ := Option.map_eq_some_iff.mp (failure?_eq_some_iff.mp fails)
  have isFailure : IsHonest (written wire ended) :=
    (honest ended rfl).bind fun reply => Payload.isHonest_encode wire.codec reply.message
  have notOk := isFailure status unwritten
  have response : Response.unary wire ended = Response.ofPayload wire (.error status) := by
    cases ended with
    | error other =>
        cases unwritten
        rfl
    | ok reply =>
        change Payload.encode wire.codec reply.message = .error status at unwritten
        rw [Response.unary]
        simp only [Except.bind, Except.map, unwritten]
  refine ⟨notOk, _, rfl, ?_⟩
  rw [response]
  exact Transcript.tellsFailure_ofPayload notOk wire exchange.now

/-- The last frame of a call that failed tells the failure to a caller that reads to the end. -/
theorem ofStream_tells {exchange : Exchange} {wire : WireFormat} (enveloped : wire.isEnveloped)
    (attended : exchange.IsAttended wire) {status : Status} (notOk : status.code ≠ .ok)
    (readyAt : Nat) :
    (Transcript.ofStream wire readyAt (exchange.conclude (.error status)).outbound).TellsFailure
      wire status := by
  obtain ⟨rfl, sent, steady⟩ := attended
  obtain ⟨received, _⟩ := Exchange.conclude_of_steady steady (.error status)
  have isLast : (Transcript.ofStream exchange.wire readyAt
      (exchange.conclude (.error status)).outbound).frames.map Prod.fst =
        sent ++ [.endOfStream exchange.wire (.error status)] := received
  have tells := ResponseFrame.tellsFailure_endOfStream notOk exchange.wire
  unfold Transcript.TellsFailure
  rw [isLast, List.getLast?_concat]
  generalize exchange.wire = wire at enveloped tells ⊢
  cases wire with
  | connectUnary codec => cases enveloped
  | connectStream codec | grpc codec | grpcWeb codec => exact ⟨_, rfl, tells⟩

omit [Payload ι] [Payload ο] in
theorem isAttended_listen (exchange : Exchange) : (listen exchange).IsAttended exchange.wire :=
  ⟨rfl, _, Outbound.isSteady_start rfl exchange.now⟩

/-- A call with one message in and many out tells each failure that its writer is given. -/
theorem serverStreaming_tells {call : Call} (enveloped : call.wire.isEnveloped)
    {handler : ι → Handler ι ο Outcome} (ends : ∀ request, (handler request).EndsIn IsHonest)
    {status : Status} (fails : failure? (call.runServerStreaming handler).2 = some status) :
    status.code ≠ .ok ∧ ∃ transcript, call.serverStreaming handler = some transcript ∧
      transcript.TellsFailure call.wire status := by
  have failed := failure?_eq_some_iff.mp fails
  have notOk := isHonest_runServerStreaming call ends _ failed status rfl
  have reads : call.startDraining.ReadsOn
      (call.startDraining.readSingle : Exchange × Option (Except Status ι)).1 :=
    Exchange.readsOn_readSingle Outbound.stays_unheard
  refine ⟨notOk, ?_⟩
  unfold runServerStreaming at failed
  unfold serverStreaming
  generalize (call.startDraining.readSingle : Exchange × Option (Except Status ι)) = read
    at reads failed ⊢
  match read, reads, failed with
  | (exchange, some (.error other)), reads, failed =>
      cases failed
      have sameWire : exchange.wire = call.wire := reads.wire
      have attended : (listen exchange).IsAttended call.wire :=
        sameWire ▸ isAttended_listen exchange
      exact ⟨_, rfl, ofStream_tells enveloped attended notOk _⟩
  | (exchange, some (.ok request)), reads, failed =>
      have sameWire : exchange.wire = call.wire := reads.wire
      have attended : (listen exchange).IsAttended call.wire :=
        sameWire ▸ isAttended_listen exchange
      have attendedThen := attended.run (handler request)
      change ((listen exchange).run (handler request)).2 = _ at failed
      refine ⟨_, rfl, ?_⟩
      unfold Exchange.runStream
      generalize (listen exchange).run (handler request) = run at failed attendedThen ⊢
      obtain ⟨after, outcome⟩ := run
      cases failed
      exact ofStream_tells enveloped attendedThen notOk _

/-- A call with many messages in and many out tells each failure that its writer is given. -/
theorem bidiStreaming_tells {call : Call} (enveloped : call.wire.isEnveloped)
    {handler : Handler ι ο Outcome} (ends : handler.EndsIn IsHonest) {status : Status}
    (fails : failure? (call.runBidiStreaming handler).2 = some status) :
    status.code ≠ .ok ∧ ∃ transcript, call.bidiStreaming handler = some transcript ∧
      transcript.TellsFailure call.wire status := by
  have failed := failure?_eq_some_iff.mp fails
  have notOk := Exchange.run_endsIn _ ends _ failed status rfl
  have attended := (isAttended_listen call.startDraining).run handler
  refine ⟨notOk, _, rfl, ?_⟩
  unfold runBidiStreaming at failed
  unfold Exchange.runStream
  generalize (listen call.startDraining).run handler = run at failed attended ⊢
  obtain ⟨after, outcome⟩ := run
  cases failed
  exact ofStream_tells enveloped attended notOk _

end Call

/-! ## In every order -/

namespace Streaming

variable {ι ο : Type} {call : Streaming ι ο}

/-- A call whose handler failed with a status tells the failure: the last frame does, as soon as it
is put in, and a caller that meets the end has it. -/
structure TellsFailure (call : Streaming ι ο) (status : Status) : Prop where
  isFailure : status.code ≠ .ok
  put : call.isPlaced = true → ∃ last, call.contents.getLast? = some last ∧
    last.TellsFailure call.exchange.wire status
  heard : call.exchange.outbound.endedAt.isSome → ∃ last,
    call.exchange.outbound.received.getLast? = some last ∧
      last.TellsFailure call.exchange.wire status

variable [Payload ο]

theorem Orderly.tellsFailure (orderly : call.Orderly) {status : Status} (notOk : status.code ≠ .ok)
    (failed : call.outcome = some (.error status)) : call.TellsFailure status := by
  have tells := ResponseFrame.tellsFailure_endOfStream notOk call.exchange.wire
  have put (placed : call.isPlaced = true) : call.contents.getLast? =
      some (.endOfStream call.exchange.wire (.error status)) := by
    rw [Streaming.contents, orderly.contents, placed, if_pos rfl, last, failed]
    exact List.getLast?_concat
  refine ⟨notOk, fun placed => ⟨_, put placed, tells⟩, fun ends => ?_⟩
  obtain ⟨empty, placed⟩ := orderly.ended ends
  have all : call.contents = call.exchange.outbound.received := by
    rw [Streaming.contents, Outbound.contents, empty, List.append_nil]
  exact ⟨_, all ▸ put placed, tells⟩

/-- In every order of its steps, a call that fails tells so. -/
theorem tellsFailure_run [Payload ι] {handler : Handler ι ο Outcome}
    (ends : handler.EndsIn IsHonest)
    (exchange : Exchange) (caller : Caller) {moves : List (Move ι)}
    (canTake : (start exchange caller handler).CanTake moves) {status : Status}
    (failed : ((start exchange caller handler).run moves).outcome = some (.error status)) :
    ((start exchange caller handler).run moves).TellsFailure status := by
  have started : (start exchange caller handler).EndsIn IsHonest :=
    ⟨ends, fun outcome returned => nomatch returned⟩
  have honest := (started.run canTake).outcome _ failed
  exact ((orderly_start exchange caller handler).run moves).tellsFailure (honest status rfl) failed

end Streaming

end RpcEcho
