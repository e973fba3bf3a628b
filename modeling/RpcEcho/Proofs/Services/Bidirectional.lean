import RpcEcho.Proofs.Call.Answering
import RpcEcho.Proofs.Services.Join

/-!
# Calls that answer request by request

The echo of a stream and the reflection service answer each request as it comes. They differ in the
answer, and in when they look whether the call is over: the echo looks before it waits for a
request, the reflection service behind. While nothing ends the call, that makes no difference: the
caller gets the answers to all messages that the body tells, in order, and then how the body ended.

A question that has no answer in the reflection service is answered too, and the next one is taken.
-/

namespace RpcEcho

open Api Inbound

/-! ## The handlers -/

theorem Echo.bidirectionalStream_eq (metadata : Metadata) (most : Nat) :
    bidirectionalStream metadata most =
      .answering true (fun request => ⟨request.message, metadata⟩) most := by
  induction most with
  | zero => rfl
  | succ most inductionHypothesis =>
      rw [bidirectionalStream, inductionHypothesis]
      refine congrArg Handler.onCheck (funext fun done? => ?_)
      cases done? with
      | some done => rfl
      | none =>
          refine congrArg Handler.onReceive (funext fun result => ?_)
          match result with
          | .error status | .ok none => rfl
          | .ok (some request) =>
              refine congrArg (Handler.onSend _) (funext fun answer => ?_)
              cases answer <;> rfl

theorem Reflector.info_eq (reflector : Reflector) (most : Nat) :
    reflector.info most = .answering false reflector.answer most := by
  induction most with
  | zero => rfl
  | succ most inductionHypothesis =>
      rw [info, inductionHypothesis]
      refine congrArg Handler.onReceive (funext fun result => ?_)
      match result with
      | .error status | .ok none => rfl
      | .ok (some request) =>
          refine congrArg Handler.onCheck (funext fun done? => ?_)
          cases done? with
          | some done => rfl
          | none =>
              refine congrArg (Handler.onSend _) (funext fun answer => ?_)
              cases answer <;> rfl

/-! ## What becomes of a call -/

section Calls

variable {ι ο : Type} [Payload ι] [Payload ο]

/-- All that the body of a call gives: messages, and then the end or a failure, unless the body
falls silent before. -/
def Call.results (call : Call) : List (Result ι) :=
  parse call.wire.codec call.body.ending call.body.octets

/-- A response holds the answers to the results of a body, one by one, and nothing else. -/
structure Transcript.Answers (transcript : Transcript) (wire : WireFormat) (payload : ι → Bytes)
    (results : List (Result ι)) : Prop where
  status : transcript.status = 200
  headers : transcript.headers = Response.contentTyped wire.contentType
  frames : transcript.frames.map Prod.fst = answersTo wire payload results
  ends : transcript.endedAt.isSome = isOver results

/-- A handler answers the results of the body of a call, one by one, whoever reads and however fast,
given how answers are written. -/
structure Call.AnswersEach (call : Call) (handler : Handler ι ο Outcome) (payload : ι → Bytes) :
    Prop where
  /-- A caller that wants all frames gets them, and meets the end just if there is one. -/
  delivers : ∀ caller : Caller, caller.limit = none →
    let outbound := ({ call.startDraining with outbound := Outbound.start caller 0 }.runStream
      handler).outbound
    outbound.received = answersTo call.wire payload call.results ∧
      outbound.endedAt.isSome = isOver (call.results : List (Result ι))
  /-- In every order of the steps of the task, the time and the caller, the handler takes the
  results in order, and holds at most one request. -/
  inOrder : ∀ (caller : Caller) (moves : List (Move ι)),
    let started := Streaming.start call.startDraining caller handler
    started.IsFed moves →
      Streaming.AnswersInOrder payload call.results (started.brought moves) (started.run moves)

/-- What a caller sees of a call, if anything, are the answers to its messages by a handler. -/
def Call.IsAnswered (call : Call) (seen : Option Transcript) (handler : Handler ι ο Outcome)
    (answer : ι → ο) : Prop :=
  ∃ transcript payload, seen = some transcript ∧
    (∀ request, Payload.encode call.wire.codec (answer request) = .ok (payload request)) ∧
    transcript.Answers call.wire payload call.results ∧ call.AnswersEach handler payload

variable {call : Call} {looksFirst : Bool} {answer : ι → ο} {payload : ι → Bytes}

theorem Call.answersEach_answering (notLimited : call.deadline = none)
    (notDraining : call.drainAt = none)
    (writes : ∀ request, Payload.encode call.wire.codec (answer request) = .ok (payload request)) :
    call.AnswersEach (.answering looksFirst answer call.messageBound) payload := by
  have unending : call.startDraining.cancellation = .never := by
    rw [startDraining, start, notLimited, notDraining]
    rfl
  constructor
  · intro caller wantsAll
    have steady : { call.startDraining with outbound := Outbound.start caller 0 }.IsSteady [] :=
      ⟨Outbound.isSteady_start wantsAll 0, unending⟩
    exact steady.runStream_answering rfl writes (Nat.lt_succ_self _)
  · intro caller moves started fed
    exact Streaming.answersInOrder_run caller rfl unending notDraining writes
      (Nat.lt_succ_self _) fed

theorem Call.isAnswered_answering (notLimited : call.deadline = none)
    (notDraining : call.drainAt = none) (notState : Payload.type ο ≠ .healthCheckResponse) :
    let handler : Handler ι ο Outcome := .answering looksFirst answer call.messageBound
    call.IsAnswered (call.bidiStreaming handler) handler answer := by
  choose payload writes using fun request =>
    exists_encode_of_ne call.wire.codec (answer request) notState
  have answers : call.AnswersEach (.answering looksFirst answer call.messageBound) payload :=
    answersEach_answering notLimited notDraining writes
  obtain ⟨received, ends⟩ := answers.delivers {} rfl
  exact ⟨_, payload, rfl, writes, ⟨rfl, rfl, received, ends⟩, answers⟩

end Calls

/-- While nothing ends it, a call of the echo of a stream or of the reflection service gives the
answers to all messages of its body, in order, and then the end of the body or what is wrong with
it. -/
theorem Server.isAnswered_bidirectional (server : Server) {call : Call}
    (notLimited : call.deadline = none) (notDraining : call.drainAt = none) :
    call.IsAnswered (server.call .bidirectionalStream call)
        (Echo.bidirectionalStream call.metadata call.messageBound)
        (fun request => ⟨request.message, call.metadata⟩) ∧
      call.IsAnswered (server.call .reflectionInfo call) (server.reflector.info call.messageBound)
        server.reflector.answer := by
  constructor
  · rw [Server.call, Echo.bidirectionalStream_eq]
    exact Call.isAnswered_answering notLimited notDraining (by decide)
  · rw [Server.call, Reflector.info_eq]
    exact Call.isAnswered_answering notLimited notDraining (by decide)

/-- A call whose body holds two messages and the first octet of a third one. -/
def pairCall : Call := Echo.callOf (Echo.pairRequest false) (.grpc .proto) none

theorem results_pairCall {ι : Type} [Payload ι] {first second : ι}
    (isFirst : Payload.decode .proto [10, 1, 97] = .ok first)
    (isSecond : Payload.decode .proto [10, 1, 98] = .ok second) :
    pairCall.results =
      [.ok (some first), .ok (some second), .error (Envelope.Error.incompleteHeader 1).status] := by
  have short : [10, 1, 97].length ≤ Envelope.maxPayload := by decide
  have octets : pairCall.body.octets = Envelope.wrap [10, 1, 97] Flags.message ++
      (Envelope.wrap [10, 1, 98] Flags.message ++ [7]) := by decide
  have breaksOff : (Inbound.first .proto .complete [7] : Result ι × Bytes).1 =
      .error (Envelope.Error.incompleteHeader 1).status := rfl
  have heard (octets : Bytes) : ¬ IsSilence .complete octets := fun silence => nomatch silence.1
  change parse .proto .complete pairCall.body.octets = _
  rw [octets, parse_of_message (heard _) (first_wrap short isFirst .complete _),
    parse_of_message (heard _) (first_wrap short isSecond .complete _),
    parse_of_last (heard _) breaksOff fun message impossible => nomatch impossible]

/-- Both messages are answered and then the failure is told. In the eyes of the reflection service
the messages ask nothing, which fails twice. -/
theorem isAnswered_pairCall :
    pairCall.deadline = none ∧ pairCall.drainAt = none ∧
      (∃ (transcript : Transcript) (payload : EchoRequest → Bytes),
        Server.call ⟨{}⟩ .bidirectionalStream pairCall = some transcript ∧
        Payload.encode .proto (⟨"a", pairCall.metadata⟩ : EchoResponse) = .ok (payload ⟨"a"⟩) ∧
        transcript.frames.map Prod.fst =
          [.message (payload ⟨"a"⟩), .message (payload ⟨"b"⟩),
            .endOfStream (.grpc .proto) (.error (Envelope.Error.incompleteHeader 1).status)]) ∧
      ∃ (transcript : Transcript) (payload : ReflectionRequest → Bytes),
        Server.call ⟨{}⟩ .reflectionInfo pairCall = some transcript ∧
        Payload.encode .proto (⟨"a", some ⟨"a", none⟩,
          some (.failure .invalidArgument "empty reflection request")⟩ : ReflectionResponse) =
            .ok (payload ⟨"a", none⟩) ∧
        transcript.frames.map Prod.fst =
          [.message (payload ⟨"a", none⟩), .message (payload ⟨"b", none⟩),
            .endOfStream (.grpc .proto) (.error (Envelope.Error.incompleteHeader 1).status)] := by
  have notLimited : pairCall.deadline = none := by decide
  obtain ⟨echo, reflection⟩ := Server.isAnswered_bidirectional ⟨{}⟩ notLimited rfl
  refine ⟨notLimited, rfl, ?_, ?_⟩
  · obtain ⟨transcript, payload, seen, writes, answers, _⟩ := echo
    have results := @results_pairCall EchoRequest _ ⟨"a"⟩ ⟨"b"⟩ (by decide +kernel)
      (by decide +kernel)
    refine ⟨transcript, payload, seen, writes ⟨"a"⟩, ?_⟩
    rw [answers.frames, results]
    rfl
  · obtain ⟨transcript, payload, seen, writes, answers, _⟩ := reflection
    have results := @results_pairCall ReflectionRequest _ ⟨"a", none⟩ ⟨"b", none⟩
      (by decide +kernel) (by decide +kernel)
    refine ⟨transcript, payload, seen, writes ⟨"a", none⟩, ?_⟩
    rw [answers.frames, results]
    rfl

end RpcEcho
