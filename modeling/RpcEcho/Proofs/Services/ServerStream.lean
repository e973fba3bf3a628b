import RpcEcho.Proofs.Api.Lossless
import RpcEcho.Proofs.Call.Prompt
import RpcEcho.Proofs.Services.Echo

/-!
# Streams of numbered messages

A call with one message in and many out says the text several times, with a number for each, and
waits between two messages. `Series` holds what the handler is made from, and the steps of the
handler are told by the number of messages that it has sent: `Series.going_of_lt` is one round of
its loop.

With a prompt caller each message arrives at the millisecond at which it is sent: message `i`,
counted from zero, after `i` pauses. The deadline is all that may stop the stream, and a message
that is due at the deadline does not go out any more.
-/

namespace RpcEcho

open Api RequestBody

namespace Echo

/-- What a stream of numbered messages is made from. -/
structure Series where
  metadata : Metadata
  text : String
  count : Nat
  /-- Milliseconds between two messages. -/
  pause : Nat

namespace Series

variable (series : Series)

/-- The stream that a request asks for. -/
def ofRequest (metadata : Metadata) (request : ServerStreamRequest) : Series where
  metadata := metadata
  text := request.message
  count := (max request.count 1).toNat
  pause := millis request.interval

/-! ## The handler -/

/-- The handler after it has sent a number of messages. -/
def going (sent : Nat) : Handler ServerStreamRequest EchoResponse Outcome :=
  sendRest series.metadata series.text series.count series.pause (series.count - sent)

/-- A message of the stream; the first has the number zero. -/
def message (place : Nat) : EchoResponse :=
  ⟨numbered series.text (place + 1) series.count, series.metadata⟩

/-- The handler after the answer to a message. -/
def answered (place : Nat) :
    Except Status Unit → Handler ServerStreamRequest EchoResponse Outcome
  | .error status => .finish (.error status)
  | .ok () => series.going (place + 1)

/-- The handler after it has looked whether the call is over, before a message. -/
def looked (place : Nat) : Option Done → Handler ServerStreamRequest EchoResponse Outcome
  | some done => .finish (.error (stopped done))
  | none => .onSend (series.message place) (series.answered place)

/-- The handler after the pause before a message. -/
def woken (place : Nat) : Except Done Unit → Handler ServerStreamRequest EchoResponse Outcome
  | .error done => .finish (.error (stopped done))
  | .ok () => .onCheck (series.looked place)

theorem serverStream_eq (metadata : Metadata) (request : ServerStreamRequest) :
    serverStream metadata request = (ofRequest metadata request).going 0 := rfl

theorem going_of_count {sent : Nat} (all : series.count ≤ sent) :
    series.going sent = .finish (.ok Headers.empty) := by
  rw [going, Nat.sub_eq_zero_of_le all]
  rfl

/-- The look at the call and the message behind it, as they stand in the loop. -/
theorem onCheck_looked (place : Nat) :
    (do
      if let some done ← Handler.check then
        return .error (stopped done)
      if let .error status ← Handler.send (series.message place) then
        return .error status
      series.going (place + 1)) = Handler.onCheck (series.looked place) := by
  refine congrArg Handler.onCheck (funext fun done? => ?_)
  cases done? with
  | some done => rfl
  | none =>
      refine congrArg (Handler.onSend _) (funext fun answer => ?_)
      cases answer <;> rfl

/-- One round of the loop: a pause unless the message is the first, a look at the call, and the
message. -/
theorem going_of_lt {place : Nat} (isLess : place < series.count) :
    series.going place =
      if 0 < place ∧ series.pause ≠ 0 then .onSleep series.pause (series.woken place)
      else .onCheck (series.looked place) := by
  have left : series.count - place = series.count - (place + 1) + 1 := by omega
  have number : series.count - (series.count - (place + 1)) = place + 1 := by omega
  have looks := series.onCheck_looked place
  rw [going, left, sendRest, number]
  by_cases pauses : 0 < place ∧ series.pause ≠ 0
  · rw [if_pos pauses, if_pos (by simpa using pauses)]
    refine congrArg (Handler.onSleep _) (funext fun answer => ?_)
    cases answer with
    | error done => rfl
    | ok _ => exact looks
  · rw [if_neg pauses, if_neg (by simpa using pauses)]
    exact looks

/-! ## The messages -/

/-- The octets of a message of the stream. -/
def payload (codec : Codec) (place : Nat) : Bytes :=
  match Payload.encode codec (series.message place) with
  | .ok payload => payload
  | .error _ => []

/-- The frame of a message of the stream. -/
def frame (wire : WireFormat) (place : Nat) : ResponseFrame :=
  .message (series.payload wire.codec place)

/-- The metadata has one value for each name. -/
def HasDistinctNames : Prop := (series.metadata.map Prod.fst).Nodup

variable {series}

theorem encode_message (distinct : series.HasDistinctNames) (codec : Codec) (place : Nat) :
    Payload.encode codec (series.message place) = .ok (series.payload codec place) := by
  have distinctNames : ((series.message place).metadata.map Prod.fst).Nodup := distinct
  obtain ⟨payload, encoded⟩ := exists_encode_response codec distinctNames
  rw [Series.payload, encoded]

theorem frameOf_message (distinct : series.HasDistinctNames) (exchange : Exchange) (place : Nat) :
    exchange.frameOf (series.message place) = .ok (series.frame exchange.wire place) := by
  rw [Exchange.frameOf, encode_message distinct]
  rfl

/-! ## A prompt caller -/

/-- The first messages of the stream with their times. -/
def sentFrom (series : Series) (wire : WireFormat) (start sent : Nat) :
    List (ResponseFrame × Nat) :=
  (List.range sent).map fun place => (series.frame wire place, start + place * series.pause)

theorem sentFrom_succ (wire : WireFormat) (start sent : Nat) :
    series.sentFrom wire start (sent + 1) =
      series.sentFrom wire start sent ++
        [(series.frame wire sent, start + sent * series.pause)] := by
  rw [sentFrom, List.range_succ, List.map_append]
  rfl

/-- How a stream ends that nothing cancels: well behind the last message, or at the deadline if a
message is due then or later. -/
inductive Ends (series : Series) (cancellation : Cancellation) (start : Nat) :
    Nat → Outcome → Nat → Prop where
  | well (isOpen : ∀ place < series.count,
        cancellation.check (start + place * series.pause) = none) :
      Ends series cancellation start series.count (.ok Headers.empty)
        (start + (series.count - 1) * series.pause)
  | late {sent nanos : Nat} (isLess : sent < series.count)
      (limited : cancellation.deadline = some nanos)
      (isOpen : ∀ place < sent, cancellation.check (start + place * series.pause) = none)
      (isLate : Cancellation.firstMilli nanos ≤ start + sent * series.pause) :
      Ends series cancellation start sent (.error Done.deadlineExceeded.status)
        (Cancellation.firstMilli nanos)

variable {exchange : Exchange} {start place : Nat}

theorem run_looked (distinct : series.HasDistinctNames)
    (prompt : exchange.IsPrompt (series.sentFrom exchange.wire start place))
    (isNow : exchange.now = start + place * series.pause) :
    ∃ after : Exchange,
      exchange.run (.onCheck (series.looked place)) = after.run (series.going (place + 1)) ∧
      after.IsPrompt (series.sentFrom exchange.wire start (place + 1)) ∧
      after.now = exchange.now ∧ after.wire = exchange.wire ∧
      after.cancellation = exchange.cancellation := by
  obtain ⟨after, sends, promptThen, sameTime, sameWire, sameCancellation⟩ :=
    prompt.sendFrame (series.frame exchange.wire place)
  refine ⟨after, ?_, ?_, sameTime, sameWire, sameCancellation⟩
  · rw [Exchange.run, prompt.isOpen, looked, Exchange.run, Exchange.send, frameOf_message distinct]
    dsimp only
    rw [sends]
    rfl
  · rw [sentFrom_succ, ← isNow]
    exact promptThen

theorem open_before (prompt : exchange.IsPrompt (series.sentFrom exchange.wire start place))
    (isNow : exchange.now = start + (place - 1) * series.pause) :
    ∀ earlier < place, exchange.cancellation.check (start + earlier * series.pause) = none := by
  intro earlier isEarlier
  refine Cancellation.check_eq_none_of_le ?_ prompt.isOpen
  have bound := Nat.mul_le_mul_right series.pause (Nat.le_sub_one_of_lt isEarlier)
  omega

/-- The rest of a stream for a prompt caller. -/
theorem run_going (distinct : series.HasDistinctNames) (atMost : place ≤ series.count)
    (prompt : exchange.IsPrompt (series.sentFrom exchange.wire start place))
    (isNow : exchange.now = start + (place - 1) * series.pause) :
    ∃ after sent outcome, exchange.run (series.going place) = (after, some outcome) ∧
      after.outbound.IsPrompt after.now (series.sentFrom exchange.wire start sent) ∧
      after.wire = exchange.wire ∧
      series.Ends exchange.cancellation start sent outcome after.now := by
  -- The induction is on the messages that are left.
  obtain ⟨left, isLeft⟩ := Nat.exists_eq_add_of_le atMost
  induction left generalizing exchange place with
  | zero =>
      obtain rfl : place = series.count := by omega
      refine ⟨exchange, series.count, .ok Headers.empty, ?_, prompt.outbound, rfl, ?_⟩
      · rw [going_of_count series (Nat.le_refl _), Exchange.run]
      · rw [isNow]
        exact .well (open_before prompt isNow)
  | succ left inductionHypothesis =>
      have isLess : place < series.count := by omega
      -- The call stands where the message is due: now, or after the pause.
      have goesOn {current : Exchange}
          (promptNow : current.IsPrompt (series.sentFrom current.wire start place))
          (isDue : current.now = start + place * series.pause)
          (sameWire : current.wire = exchange.wire)
          (sameCancellation : current.cancellation = exchange.cancellation) :
          ∃ after sent outcome,
            current.run (.onCheck (series.looked place)) = (after, some outcome) ∧
            after.outbound.IsPrompt after.now (series.sentFrom exchange.wire start sent) ∧
            after.wire = exchange.wire ∧
            series.Ends exchange.cancellation start sent outcome after.now := by
        obtain ⟨next, runs, promptNext, sameTime, nextWire, nextCancellation⟩ :=
          run_looked distinct promptNow isDue
        rw [← nextWire] at promptNext
        rw [runs, ← sameWire, ← nextWire, ← sameCancellation, ← nextCancellation]
        exact inductionHypothesis isLess promptNext (sameTime.trans isDue) (by omega)
      rw [going_of_lt series isLess]
      by_cases pauses : 0 < place ∧ series.pause ≠ 0
      · have isThen : exchange.now + series.pause = start + place * series.pause := by
          have split : place * series.pause = (place - 1) * series.pause + series.pause := by
            rw [← Nat.succ_mul, Nat.succ_eq_add_one, Nat.sub_add_cancel pauses.1]
          omega
        have positive := Nat.pos_of_ne_zero pauses.2
        rw [if_pos pauses, Exchange.run]
        rcases prompt.race_sleep with ⟨isOpen, ends⟩ | ⟨nanos, limited, started, isLate, ends⟩
        · rw [prompt.race_of_ends positive ends]
          exact goesOn (prompt.laterAt (Nat.le_add_right _ _) isOpen) isThen
            (Exchange.wire_laterAt _ _) (Exchange.cancellation_laterAt _ _)
        · rw [prompt.race_of_ends positive ends]
          refine ⟨_, place, _, rfl, prompt.outbound_laterAt (Nat.le_of_lt started),
            Exchange.wire_laterAt _ _, ?_⟩
          rw [Exchange.now_laterAt]
          exact .late isLess limited (open_before prompt isNow) (isThen ▸ isLate)
      · have isDue : exchange.now = start + place * series.pause := by
          rw [isNow]
          rcases Nat.eq_zero_or_pos place with rfl | positive
          · rfl
          · have noPause : series.pause = 0 := by simpa [positive] using pauses
            rw [noPause, Nat.mul_zero, Nat.mul_zero]
        rw [if_neg pauses]
        exact goesOn prompt isDue rfl rfl

/-- What a prompt caller gets of a whole stream. -/
theorem runStream_going (distinct : series.HasDistinctNames)
    (notCancelled : exchange.cancellation.cancelledAt = none) (isOpen : exchange.done? = none) :
    ∃ sent outcome time,
      let after := (Call.listen exchange).runStream (series.going 0)
      after.outbound.delivered = series.sentFrom exchange.wire exchange.now sent ++
        [(.endOfStream exchange.wire outcome, time)] ∧
      after.outbound.endedAt = some time ∧
      series.Ends exchange.cancellation exchange.now sent outcome time := by
  have prompt : (Call.listen exchange).IsPrompt
      (series.sentFrom (Call.listen exchange).wire exchange.now 0) :=
    ⟨Outbound.isPrompt_start exchange.now, notCancelled, isOpen⟩
  have isNow : (Call.listen exchange).now = exchange.now + (0 - 1) * series.pause := by
    rw [Nat.zero_sub, Nat.zero_mul]
    rfl
  obtain ⟨after, sent, outcome, runs, promptThen, sameWire, ends⟩ :=
    run_going distinct (Nat.zero_le _) prompt isNow
  obtain ⟨delivered, endedAt⟩ := Exchange.conclude_of_prompt promptThen outcome
  refine ⟨sent, outcome, after.now, ?_, ?_, ends⟩
  · rw [Exchange.runStream, runs]
    rw [sameWire] at delivered
    exact delivered
  · rw [Exchange.runStream, runs]
    exact endedAt

end Series

/-! ## Pacing -/

/-- A payload says a text beside what headers show. -/
def Says (wire : WireFormat) (headers : Headers) (text : String) (payload : Bytes) : Prop :=
  (∃ metadata, HoldsExactly metadata headers.Shows ∧
    Payload.encode wire.codec (⟨text, metadata⟩ : EchoResponse) = .ok payload) ∧
  (payload.length < Proto.Varint.bound → ∃ metadata, HoldsExactly metadata headers.Shows ∧
    Payload.decode wire.codec payload = .ok (⟨text, metadata⟩ : EchoResponse))

/-- How many messages a request asks for: at least one. -/
def countOf (asked : ServerStreamRequest) : Nat := (max asked.count 1).toNat

/-- The milliseconds between two messages that a request asks for: none if they are negative. -/
def pauseOf (asked : ServerStreamRequest) : Nat := (max asked.interval 0).toNat

/-- Whether the message of a place, counted from zero, is due before the deadline. -/
def IsDue (asked : ServerStreamRequest) (deadline : Option Nat) (place : Nat) : Prop :=
  deadline = none ∨ pauseOf asked = 0 ∨
    ∃ nanos, deadline = some nanos ∧ place * pauseOf asked * Timeout.milli < nanos

/-- What the caller of a stream gets, and when. -/
structure IsPaced (wire : WireFormat) (headers : Headers) (asked : ServerStreamRequest)
    (deadline : Option Nat) (frames : List (ResponseFrame × Nat)) (payload : Nat → Bytes)
    (sent : Nat) (outcome : Outcome) (time : Nat) : Prop where
  texts : ∀ place < countOf asked,
    Says wire headers (numbered asked.message (place + 1) (countOf asked)) (payload place)
  atMost : sent ≤ countOf asked
  /-- A message goes out exactly if it is due before the deadline. -/
  isSent : ∀ place < countOf asked, place < sent ↔ IsDue asked deadline place
  /-- The messages come first, each after its pauses, and then the end. -/
  frames : frames =
    ((List.range sent).map fun place =>
      (ResponseFrame.message (payload place), place * pauseOf asked)) ++
        [(.endOfStream wire outcome, time)]
  /-- Behind the last message the stream ends well, without a pause. -/
  well : sent = countOf asked →
    outcome = .ok Headers.empty ∧ time = (countOf asked - 1) * pauseOf asked
  /-- Else it ends at the first millisecond that is not before the deadline. -/
  late : sent < countOf asked →
    outcome = .error (Status.of .deadlineExceeded "context deadline exceeded") ∧
      ∃ nanos, deadline = some nanos ∧ time = Cancellation.firstMilli nanos

section Pacing

variable {asked : ServerStreamRequest} {deadline : Option Nat} {metadata : Metadata}

theorem pauseOf_eq : pauseOf asked = (Series.ofRequest metadata asked).pause := by
  change (max asked.interval 0).toNat = asked.interval.toNat
  omega

theorem isDue_iff (positive : ∀ nanos, deadline = some nanos → 0 < nanos) (place : Nat) :
    IsDue asked deadline place ↔
      (Cancellation.mk none deadline).check (place * pauseOf asked) = none := by
  rw [Cancellation.check_eq_none_iff]
  constructor
  · intro isDue
    refine ⟨fun time planned => (nomatch planned), fun nanos limited => ?_⟩
    rcases isDue with unlimited | noPause | ⟨other, otherLimit, isBefore⟩
    · cases unlimited.symm.trans limited
    · rw [noPause, Nat.mul_zero, Nat.zero_mul]
      exact positive nanos limited
    · cases otherLimit.symm.trans limited
      exact isBefore
  · rintro ⟨_, isBefore⟩
    cases limited : deadline with
    | none => exact .inl rfl
    | some nanos => exact .inr (.inr ⟨nanos, rfl, isBefore nanos limited⟩)

theorem says_message (wire : WireFormat) {headers : Headers} (wellFormed : headers.IsWellFormed)
    (series : Series) (isMetadata : series.metadata = Metadata.ofHeaders headers) (place : Nat) :
    Says wire headers (numbered series.text (place + 1) series.count)
      (series.payload wire.codec place) := by
  have shown := Metadata.holdsExactly_ofHeaders wellFormed.distinct
  rw [← isMetadata] at shown
  have encoded := Series.encode_message shown.distinct wire.codec place
  refine ⟨⟨series.metadata, shown, encoded⟩, fun fits => ?_⟩
  obtain ⟨metadata, permuted, decoded⟩ := decode_encode_response shown.distinct encoded fits
  exact ⟨metadata, shown.of_perm permuted, decoded⟩

/-- The number of messages that went out is told by the times at which they are due. -/
theorem lt_sent_iff {series : Series} {sent : Nat} {outcome : Outcome} {time : Nat}
    (ends : series.Ends ⟨none, deadline⟩ 0 sent outcome time) {place : Nat}
    (isLess : place < series.count) :
    place < sent ↔ (Cancellation.mk none deadline).check (place * series.pause) = none := by
  have atZero : ∀ other, 0 + other * series.pause = other * series.pause :=
    fun other => Nat.zero_add _
  cases ends with
  | well isOpen => exact ⟨fun _ => atZero place ▸ isOpen place isLess, fun _ => isLess⟩
  | @late sent nanos isLess limited isOpen isLate =>
      refine ⟨fun isSent => atZero place ▸ isOpen place isSent, fun isDue => ?_⟩
      refine Nat.lt_of_not_le fun notSent => ?_
      have isBefore := Cancellation.lt_firstMilli_iff.mpr
        ((Cancellation.check_eq_none_iff.mp isDue).2 nanos limited)
      have behind := Nat.mul_le_mul_right series.pause notSent
      omega

/-- A call of which the request came at the start streams at the pace that the request asks for. -/
theorem exists_isPaced {exchange : Exchange} {headers : Headers}
    (wellFormed : headers.IsWellFormed) (atStart : exchange.now = 0)
    (limits : exchange.cancellation = ⟨none, deadline⟩)
    (positive : ∀ nanos, deadline = some nanos → 0 < nanos) :
    let after := (Call.listen exchange).runStream (serverStream (Metadata.ofHeaders headers) asked)
    ∃ payload sent outcome time,
      IsPaced exchange.wire headers asked deadline after.outbound.delivered payload sent outcome
        time ∧
      after.outbound.endedAt = some time := by
  let series := Series.ofRequest (Metadata.ofHeaders headers) asked
  have distinct : series.HasDistinctNames :=
    (Metadata.holdsExactly_ofHeaders wellFormed.distinct).distinct
  have samePause : pauseOf asked = series.pause := pauseOf_eq
  have isOpen : exchange.done? = none := by
    rw [Exchange.done?, limits, atStart]
    refine Cancellation.check_eq_none_iff.mpr ⟨fun _ planned => (by cases planned), ?_⟩
    intro nanos limited
    exact (Nat.zero_mul _).symm ▸ positive nanos limited
  have notCancelled : exchange.cancellation.cancelledAt = none := by rw [limits]
  obtain ⟨sent, outcome, time, delivered, endedAt, ends⟩ :=
    Series.runStream_going distinct notCancelled isOpen
  rw [limits, atStart] at ends
  rw [atStart] at delivered
  refine ⟨series.payload exchange.wire.codec, sent, outcome, time, ⟨?_, ?_, ?_, ?_, ?_, ?_⟩,
    endedAt⟩
  · exact fun place _ => says_message exchange.wire wellFormed series rfl place
  · cases ends with
    | well isOpen => exact Nat.le_refl _
    | late isLess limited isOpen isLate => exact Nat.le_of_lt isLess
  · intro place isLess
    rw [isDue_iff positive, samePause]
    exact lt_sent_iff ends isLess
  · have handler : serverStream (Metadata.ofHeaders headers) asked = series.going 0 :=
      Series.serverStream_eq _ _
    rw [handler, delivered, samePause, Series.sentFrom]
    simp only [Nat.zero_add]
    rfl
  · intro all
    cases ends with
    | well isOpen => exact ⟨rfl, by rw [samePause, Nat.zero_add]; rfl⟩
    | late isLess limited isOpen isLate => exact absurd all (Nat.ne_of_lt isLess)
  · intro less
    cases ends with
    | well isOpen => exact absurd less (Nat.lt_irrefl _)
    | late isLess limited isOpen isLate => exact ⟨rfl, _, limited, rfl⟩

/-- A call whose request has come at the start is answered by the stream of its handler. -/
theorem answer_serverStream {server : Server} {request : Request} {wire : WireFormat}
    (calls : server.Calls request .serverStream wire)
    (holds : request.body.HoldsOnly wire asked) (atOnce : waits request.body.parts = 0)
    (positive : ∀ nanos, Timeout.ofHeaders? wire request.headers = some nanos → 0 < nanos) :
    ∃ exchange : Exchange, exchange.wire = wire ∧ exchange.now = 0 ∧
      exchange.cancellation = ⟨none, Timeout.ofHeaders? wire request.headers⟩ ∧
      server.answer none request = some (Transcript.ofStream wire 0
        ((Call.listen exchange).runStream
          (serverStream (Metadata.ofHeaders request.headers) asked)).outbound) := by
  let call : Call := ⟨wire, request.headers, request.body, none⟩
  have isOpen : call.startDraining.cancellation.check
      (call.startDraining.now + waits request.body.parts) = none := by
    rw [atOnce]
    refine Cancellation.check_eq_none_iff.mpr ⟨fun _ planned => (by cases planned), ?_⟩
    intro nanos limited
    exact (Nat.zero_mul _).symm ▸ positive nanos limited
  obtain ⟨after, reads, kept⟩ := Exchange.readOnly_of_holdsOnly rfl rfl holds isOpen
  obtain ⟨now, inbound, same⟩ := kept.same
  have atStart : after.now = 0 := by
    have spent := kept.time
    change _ = 0 + waits request.body.parts at spent
    omega
  have enveloped := MethodKind.isEnveloped_of_accepts (by decide) calls.accepted
  have readsSingle : (call.startDraining.readSingle : Exchange × Option (Except Status _)) =
      (after, some (.ok asked)) := by
    exact (if_pos enveloped).trans reads
  refine ⟨after, by rw [same]; rfl, atStart, by rw [same]; rfl, ?_⟩
  rw [Server.answer, calls.route (by decide)]
  change call.serverStreaming (serverStream (Metadata.ofHeaders request.headers)) = _
  rw [Call.serverStreaming, readsSingle, ← atStart]

/-- A request for a stream that is there from the start is answered with success, and with the
messages that are due before the deadline of the request, each at its time. The pace is the same
for a deadline of any number of nanoseconds. -/
theorem serverStream_paced {server : Server} {request : Request} {wire : WireFormat}
    (calls : server.Calls request .serverStream wire)
    (holds : request.body.HoldsOnly wire asked) (atOnce : waits request.body.parts = 0)
    (positive : ∀ nanos, Timeout.ofHeaders? wire request.headers = some nanos → 0 < nanos) :
    (∃ transcript payload sent outcome time,
      server.answer none request = some transcript ∧
      transcript.status = 200 ∧ transcript.readyAt = 0 ∧
      transcript.headers = Response.contentTyped wire.contentType ∧
      IsPaced wire request.headers asked (Timeout.ofHeaders? wire request.headers)
        transcript.frames payload sent outcome time ∧
      transcript.endedAt = some time) ∧
    ∀ (exchange : Exchange) (deadline : Option Nat), exchange.now = 0 →
      exchange.cancellation = ⟨none, deadline⟩ → (∀ nanos, deadline = some nanos → 0 < nanos) →
        let after := (Call.listen exchange).runStream
          (serverStream (Metadata.ofHeaders request.headers) asked)
        ∃ payload sent outcome time,
          IsPaced exchange.wire request.headers asked deadline after.outbound.delivered payload
            sent outcome time ∧
          after.outbound.endedAt = some time := by
  constructor
  · obtain ⟨exchange, rfl, atStart, limits, answered⟩ :=
      answer_serverStream calls holds atOnce positive
    obtain ⟨payload, sent, outcome, time, paced, endedAt⟩ :=
      exists_isPaced calls.headers atStart limits positive
    exact ⟨_, payload, sent, outcome, time, answered, rfl, rfl, rfl, paced, endedAt⟩
  · intro exchange deadline atStart limits positive
    exact exists_isPaced calls.headers atStart limits positive

/-- Three messages, one each millisecond. -/
def ticks : ServerStreamRequest := ⟨"a", 3, 1⟩

/-- A gRPC request for them that leaves time for two. -/
def ticksRequest : Request where
  method := "POST"
  target := "/echo.v1.Echo/ServerStream"
  headers := Headers.ofList [("content-type", Bytes.ofAscii "application/grpc"),
    ("grpc-timeout", Bytes.ofAscii "1500u")]
  body := ⟨[.data [0, 0, 0, 0, 7, 10, 1, 97, 16, 3, 24, 1] 0], .complete⟩

theorem calls_ticksRequest : Server.Calls ⟨{}⟩ ticksRequest .serverStream (.grpc .proto) where
  headers := (by decide : ticksRequest.headers.IsWellFormed)
  path := (by decide : Request.pathChars "/echo.v1.Echo/ServerStream".toList = _)
  isPost := rfl
  format := (by decide : WireFormat.ofHeaders? ticksRequest.headers = some (.grpc .proto))
  accepted := rfl
  admitted := by
    refine Server.disabledProtocol?_eq_none_iff.mpr fun _ _ protocol _ => ?_
    cases protocol <;> rfl

theorem holdsOnly_ticksRequest : ticksRequest.body.HoldsOnly (.grpc .proto) ticks := by
  have encoded : Payload.encode .proto ticks = .ok [10, 1, 97, 16, 3, 24, 1] :=
    congrArg Except.ok (by decide +kernel :
      Proto.Binary.encode catalog .serverStreamRequest (Payload.toMessage ticks) = _)
  have decoded : Payload.decode .proto [10, 1, 97, 16, 3, 24, 1] = .ok ticks :=
    decode_encode_streamRequest ⟨by decide, by decide⟩ ⟨by decide, by decide⟩ encoded (by decide)
  exact ⟨_, [], decoded, by decide, .body rfl, by decide⟩

theorem serverStream_paced_ticks :
    ∃ (transcript : Transcript) (payload : Nat → Bytes),
      Server.answer ⟨{}⟩ none ticksRequest = some transcript ∧
      transcript.frames = [(.message (payload 0), 0), (.message (payload 1), 1),
        (.endOfStream (.grpc .proto)
          (.error (Status.of .deadlineExceeded "context deadline exceeded")), 2)] ∧
      transcript.endedAt = some 2 ∧
      Says (.grpc .proto) ticksRequest.headers "a [2/3]" (payload 1) := by
  have limited : Timeout.ofHeaders? (.grpc .proto) ticksRequest.headers = some 1500000 := by decide
  have inTime : IsDue ticks (some 1500000) 1 := .inr (.inr ⟨_, rfl, by decide⟩)
  have tooLate : ¬ IsDue ticks (some 1500000) 2 := by
    rintro (unlimited | noPause | ⟨nanos, isLimit, isBefore⟩)
    · cases unlimited
    · exact absurd noPause (by decide)
    · cases isLimit
      exact absurd isBefore (by decide)
  have positive : ∀ nanos, Timeout.ofHeaders? (.grpc .proto) ticksRequest.headers = some nanos →
      0 < nanos := by
    intro nanos isLimit
    cases limited.symm.trans isLimit
    decide
  obtain ⟨transcript, payload, sent, outcome, time, answered, _, _, _, paced, endedAt⟩ :=
    (serverStream_paced calls_ticksRequest holdsOnly_ticksRequest rfl positive).1
  rw [limited] at paced
  have atLeast : 1 < sent := (paced.isSent 1 (by decide)).mpr inTime
  have atMost : ¬ 2 < sent := fun isSent => tooLate ((paced.isSent 2 (by decide)).mp isSent)
  obtain rfl : sent = 2 := by omega
  obtain ⟨rfl, nanos, isLimit, rfl⟩ := paced.late (by decide)
  cases isLimit
  exact ⟨transcript, payload, answered, paced.frames, endedAt, paced.texts 1 (by decide)⟩

end Pacing

end Echo

end RpcEcho
