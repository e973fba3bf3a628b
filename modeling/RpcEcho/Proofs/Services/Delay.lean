import RpcEcho.Proofs.Call.Reporting
import RpcEcho.Proofs.Request.Limited
import RpcEcho.Proofs.Services.Echo

/-!
# Delayed echoes

A delayed echo is due some milliseconds after the request has come. If the time limit of the request
is over by then, the call fails when the limit is over, whether it is still reading or already
waiting; else it gives what the echo gives, just when it is due. No format makes a difference to
that.

* `Echo.AsksDelayed`: the requests.
* `Echo.EndsDelayed`: how their calls end, and when.
* `Echo.answer_of_asksDelayed`: every request is answered that way.
-/

namespace RpcEcho

open Api RequestBody

/-! ## Unary calls -/

namespace Call

variable {ι ο : Type} [Payload ι] [Payload ο]

/-- A unary call from its start to its result. -/
def unaryPart (handler : ι → Handler ι ο (Except Status (Reply ο))) : Exchange.Part (Reply ο) :=
  Exchange.andThen (fun exchange => (exchange.readSingle : Exchange × Option (Except Status ι)))
    fun request exchange => exchange.run (handler request)

theorem runUnary_eq (call : Call) (handler : ι → Handler ι ο (Except Status (Reply ο))) :
    call.runUnary handler = unaryPart handler call.startApart := rfl

/-- A call at its start, whose time nothing limits. -/
def startFree (call : Call) : Exchange := { call.startApart with cancellation := .never }

theorem isFree_startFree (call : Call) : call.startFree.IsFree := ⟨rfl, rfl⟩

/-- A unary call that would come to its result without a limit comes to it under a limit that is
longer, and at the same time. Under any other limit it fails when the limit is over. -/
theorem unary_limited {call : Call} {handler : ι → Handler ι ο (Except Status (Reply ο))}
    (heeds : ∀ request, Exchange.HeedsLimit fun exchange => exchange.run (handler request))
    {after : Exchange} {result : Except Status (Reply ο)}
    (free : unaryPart handler call.startFree = (after, some result)) :
    ((∀ nanos, call.deadline = some nanos → after.now * Timeout.milli < nanos) →
      call.unary handler =
        some (Transcript.ofResponse (Response.unary call.wire result) after.now)) ∧
    ∀ nanos, call.deadline = some nanos → nanos ≤ after.now * Timeout.milli →
      call.unary handler = some (Transcript.ofResponse
        (Response.unary call.wire
          (.error Done.deadlineExceeded.status : Except Status (Reply ο)))
        (Cancellation.firstMilli nanos)) := by
  have heedsAll : Exchange.HeedsLimit (unaryPart handler) :=
    Exchange.heedsLimit_readSingle.andThen heeds
  rw [unary_eq, runUnary_eq]
  cases limit : call.deadline with
  | none =>
      have same : call.startApart = call.startFree := by
        rw [startFree, startApart, start, limit]
        rfl
      rw [same, free]
      exact ⟨fun _ => rfl, fun nanos impossible => (nomatch impossible)⟩
  | some nanos =>
      have same : call.startApart = call.startFree.limited nanos := by
        rw [startFree, startApart, start, limit]
        rfl
      rw [same]
      by_cases positive : 0 < Cancellation.firstMilli nanos
      · have cuts := heedsAll.cutsOff call.startFree nanos call.isFree_startFree positive
        rw [free] at cuts
        generalize unaryPart handler (call.startFree.limited nanos) = limited at cuts ⊢
        cases cuts with
        | inTime isFree sooner =>
            have before := Cancellation.lt_firstMilli_iff.mp sooner
            exact ⟨fun _ => rfl, fun other isLimit notLater => by
              cases isLimit
              exact absurd before (Nat.not_lt.mpr notLater)⟩
        | @late _ left isLate fires =>
            have notBefore : ¬ after.now * Timeout.milli < nanos := fun before =>
              absurd (isLate result rfl)
                (Nat.not_le.mpr (Cancellation.lt_firstMilli_iff.mpr before))
            refine ⟨fun inTime => absurd (inTime nanos rfl) notBefore, fun other isLimit _ => ?_⟩
            cases isLimit
            rw [respond, fires]
      · -- The limit was over before the call began.
        obtain rfl : nanos = 0 := by
          have started := mt Cancellation.lt_firstMilli_iff.mpr positive
          omega
        have fails : unaryPart handler (call.startFree.limited 0) =
            (call.startFree.limited 0, some (.error Done.deadlineExceeded.status)) := by
          rw [unaryPart, Exchange.andThen, Exchange.readSingle_of_over rfl rfl]
        rw [fails]
        refine ⟨fun inTime => absurd (inTime 0 rfl) (Nat.not_lt_zero _), fun other isLimit _ => ?_⟩
        cases isLimit
        rfl

end Call

namespace Echo

/-! ## The handler -/

/-- What a delayed echo does when its delay is over, or the call. -/
def afterDelay (metadata : Metadata) (text : String) (slept : Except Done Unit) :
    Handler EchoWithDelayRequest EchoResponse (UnaryResult EchoResponse) :=
  .finish ((slept.mapError Done.status).map fun _ => reply metadata text)

theorem echoWithDelay_eq (metadata : Metadata) (asked : EchoWithDelayRequest) :
    echoWithDelay metadata asked =
      if 0 < asked.delay then .onSleep (millis asked.delay) (afterDelay metadata asked.message)
      else .finish (.ok (reply metadata asked.message)) := by
  unfold echoWithDelay
  split
  case isTrue =>
    refine congrArg (Handler.onSleep _) (funext fun slept => ?_)
    cases slept <;> rfl
  case isFalse => rfl

theorem run_echoWithDelay (metadata : Metadata) (asked : EchoWithDelayRequest)
    (exchange : Exchange) :
    exchange.run (echoWithDelay metadata asked) =
      if 0 < asked.delay then
        Exchange.andThen
          (Exchange.waitFor fun exchange => some (exchange.now + millis asked.delay))
          (fun _ exchange => (exchange, some (.ok (reply metadata asked.message)))) exchange
      else (exchange, some (.ok (reply metadata asked.message))) := by
  rw [echoWithDelay_eq]
  split
  case isTrue =>
    rw [Exchange.run, Exchange.andThen, Exchange.waitFor]
    obtain ⟨after, _ | done | _⟩ := exchange.race (some (exchange.now + millis asked.delay))
    all_goals rfl
  case isFalse => rfl

theorem heedsLimit_echoWithDelay (metadata : Metadata) (asked : EchoWithDelayRequest) :
    Exchange.HeedsLimit fun exchange => exchange.run (echoWithDelay metadata asked) := by
  simp only [run_echoWithDelay]
  by_cases delayed : 0 < asked.delay
  · simp only [delayed, if_true]
    exact (Exchange.heedsLimit_waitFor fun _ _ => rfl).andThen fun _ =>
      Exchange.heedsLimit_result _
  · simp only [delayed, if_false]
    exact Exchange.heedsLimit_result _

/-- Without a limit a delayed echo is given just when it is due. -/
theorem run_echoWithDelay_of_free (metadata : Metadata) (asked : EchoWithDelayRequest)
    {exchange : Exchange} (isFree : exchange.IsFree) :
    exchange.run (echoWithDelay metadata asked) =
      ({ exchange with now := exchange.now + (max asked.delay 0).toNat },
        some (.ok (reply metadata asked.message))) := by
  rw [run_echoWithDelay]
  split
  case isTrue delayed =>
    have same : (max asked.delay 0).toNat = millis asked.delay :=
      congrArg Int.toNat (max_eq_left (Int.le_of_lt delayed))
    rw [Exchange.andThen, Exchange.waitFor, Exchange.race_of_free isFree, same]
    dsimp only
    rw [Nat.max_eq_right (Nat.le_add_right _ _)]
    rfl
  case isFalse atOnce =>
    have none : (max asked.delay 0).toNat = 0 :=
      congrArg Int.toNat (max_eq_right (Int.not_lt.mp atOnce))
    rw [none]
    rfl

/-! ## Requests -/

/-- A request asks for a delayed echo in a format: it calls the method, the delay is a word of 32
bits, and the octets of the body are the message. They may come in any parts at any times. -/
structure AsksDelayed (server : Server) (request : Request) (wire : WireFormat)
    (asked : EchoWithDelayRequest) : Prop where
  calls : server.Calls request .echoWithDelay wire
  fits : Proto.FitsWord asked.delay
  ends : request.body.ending = .complete
  holds : ∃ payload, Payload.encode wire.codec asked = .ok payload ∧
    payload.length ≤ Envelope.maxPayload ∧ request.body.octets = wire.single payload

/-- The millisecond at which a delayed echo is due: the delay after the end of the request has come.
No time is waited if the delay is negative. -/
def dueAt (request : Request) (asked : EchoWithDelayRequest) : Nat :=
  waits request.body.parts + (max asked.delay 0).toNat

/-- How a delayed echo ends that is due at a millisecond, and when. It succeeds exactly if its time
limit, in nanoseconds, is longer; then it gives the reply, just when it is due. Else it fails in the
first millisecond by which the limit is over. -/
structure EndsDelayed (metadata : Metadata) (text : String) (due : Nat) (limit : Option Nat)
    (outcome : UnaryResult EchoResponse) (time : Nat) : Prop where
  succeeds_iff : (∃ given, outcome = .ok given) ↔
    ∀ nanos, limit = some nanos → due * 1000000 < nanos
  given : ∀ given, outcome = .ok given → given = reply metadata text ∧ time = due
  failed : ∀ status, outcome = .error status →
    status = Status.of .deadlineExceeded "context deadline exceeded" ∧
      ∃ nanos, limit = some nanos ∧ ∀ milli, milli < time ↔ milli * 1000000 < nanos

theorem endsDelayed_ok {metadata : Metadata} {text : String} {due : Nat} {limit : Option Nat}
    (inTime : ∀ nanos, limit = some nanos → due * Timeout.milli < nanos) :
    EndsDelayed metadata text due limit (.ok (reply metadata text)) due where
  succeeds_iff := ⟨fun _ => inTime, fun _ => ⟨_, rfl⟩⟩
  given _ same := ⟨(Except.ok.inj same).symm, rfl⟩
  failed _ same := nomatch same

theorem endsDelayed_error {metadata : Metadata} {text : String} {due nanos : Nat}
    (late : nanos ≤ due * Timeout.milli) :
    EndsDelayed metadata text due (some nanos) (.error Done.deadlineExceeded.status)
      (Cancellation.firstMilli nanos) where
  succeeds_iff := by
    refine ⟨fun ⟨_, same⟩ => (nomatch same), fun inTime => ?_⟩
    exact absurd (inTime nanos rfl) (Nat.not_lt.mpr late)
  given _ same := nomatch same
  failed status same := by
    cases same
    exact ⟨rfl, nanos, rfl, fun _ => Cancellation.lt_firstMilli_iff⟩

/-- The text that a result says back, or its failure. -/
def textOf (outcome : UnaryResult EchoResponse) : Except Status String :=
  outcome.map fun given => given.message.message

/-- Delayed echoes of one text that are due at one millisecond under one limit end alike, whatever
metadata they give back. -/
theorem EndsDelayed.alike {metadata others : Metadata} {text : String} {due time later : Nat}
    {limit : Option Nat} {outcome other : UnaryResult EchoResponse}
    (ends : EndsDelayed metadata text due limit outcome time)
    (alsoEnds : EndsDelayed others text due limit other later) :
    later = time ∧ textOf other = textOf outcome := by
  have together := ends.succeeds_iff.trans alsoEnds.succeeds_iff.symm
  cases outcome with
  | ok given =>
      obtain ⟨rfl, rfl⟩ := ends.given given rfl
      obtain ⟨alsoGiven, rfl⟩ := together.mp ⟨_, rfl⟩
      obtain ⟨rfl, rfl⟩ := alsoEnds.given alsoGiven rfl
      exact ⟨rfl, rfl⟩
  | error status =>
      obtain ⟨rfl, nanos, rfl, isFirst⟩ := ends.failed status rfl
      cases other with
      | ok given =>
          obtain ⟨_, impossible⟩ := together.mpr ⟨given, rfl⟩
          cases impossible
      | error alsoStatus =>
          obtain ⟨rfl, alsoNanos, isLimit, isAlsoFirst⟩ := alsoEnds.failed alsoStatus rfl
          cases isLimit
          exact ⟨eq_of_forall_lt_iff fun milli => (isAlsoFirst milli).trans (isFirst milli).symm,
            rfl⟩

variable {server : Server} {request : Request} {wire : WireFormat} {asked : EchoWithDelayRequest}

/-- Without a limit the call of a request gives its reply just when that is due. -/
theorem unaryPart_of_asksDelayed (asks : AsksDelayed server request wire asked)
    (drainAt : Option Nat) :
    ∃ after, Call.unaryPart (echoWithDelay (Metadata.ofHeaders request.headers))
        (Call.mk wire request.headers request.body drainAt).startFree =
          (after, some (.ok (reply (Metadata.ofHeaders request.headers) asked.message))) ∧
      after.now = dueAt request asked := by
  obtain ⟨payload, encoded, short, whole⟩ := asks.holds
  have decoded := decode_encode_delayedRequest asks.fits encoded
    (Nat.lt_of_le_of_lt short (by decide))
  have isFree := (Call.mk wire request.headers request.body drainAt).isFree_startFree
  obtain ⟨between, reads, cameAt⟩ :=
    Exchange.readSingle_of_free isFree rfl asks.ends whole short decoded
  have freeThen : between.IsFree := by
    have kept := (Exchange.heedsLimit_readSingle (ι := EchoWithDelayRequest)).goesOn _ isFree
    rw [reads] at kept
    exact kept.1
  refine ⟨{ between with now := between.now + (max asked.delay 0).toNat }, ?_, ?_⟩
  · rw [Call.unaryPart, Exchange.andThen, reads]
    exact run_echoWithDelay_of_free _ _ freeThen
  · change between.now + (max asked.delay 0).toNat = _
    rw [cameAt]
    exact congrArg (· + (max asked.delay 0).toNat) (Nat.zero_add _)

/-- A request for a delayed echo is answered by what its time limit makes of it. -/
theorem exists_endsDelayed (asks : AsksDelayed server request wire asked) (drainAt : Option Nat) :
    ∃ outcome time,
      server.answer drainAt request =
        some (Transcript.ofResponse (Response.unary wire outcome) time) ∧
      EndsDelayed (Metadata.ofHeaders request.headers) asked.message (dueAt request asked)
        (Timeout.ofHeaders? wire request.headers) outcome time := by
  let call : Call := ⟨wire, request.headers, request.body, drainAt⟩
  have answered : server.answer drainAt request =
      call.unary (echoWithDelay (Metadata.ofHeaders request.headers)) := by
    rw [Server.answer, asks.calls.route (by decide)]
    rfl
  obtain ⟨after, free, due⟩ := unaryPart_of_asksDelayed asks drainAt
  obtain ⟨inTime, late⟩ := Call.unary_limited (heedsLimit_echoWithDelay _) free
  rw [answered]
  rw [due] at inTime late
  by_cases isLonger : ∀ nanos, call.deadline = some nanos →
      dueAt request asked * Timeout.milli < nanos
  · exact ⟨_, _, inTime isLonger, endsDelayed_ok isLonger⟩
  · push Not at isLonger
    obtain ⟨nanos, limited, isLate⟩ := isLonger
    refine ⟨_, _, late nanos limited isLate, ?_⟩
    have isLimit : Timeout.ofHeaders? wire request.headers = some nanos := limited
    rw [isLimit]
    exact endsDelayed_error isLate

/-- The response of a failed unary call is one frame, the failure. -/
theorem exists_frame_of_error {ο : Type} [Payload ο] (wire : WireFormat) (status : Status)
    (time : Nat) :
    ∃ frame, (Transcript.ofResponse
      (Response.unary wire (.error status : Except Status (Reply ο))) time).frames =
        [(frame, time)] := by
  cases wire <;> exact ⟨_, rfl⟩

/-- A request for a delayed echo is answered just when the echo is due if its time limit is longer,
by the response that the echo has; else it is answered by the failure alone, in the millisecond in
which the limit is over. The answer is the same in every format. -/
theorem answer_of_asksDelayed (asks : AsksDelayed server request wire asked)
    (drainAt : Option Nat) :
    ∃ outcome time,
      server.answer drainAt request =
        some (Transcript.ofResponse (Response.unary wire outcome) time) ∧
      EndsDelayed (Metadata.ofHeaders request.headers) asked.message (dueAt request asked)
        (Timeout.ofHeaders? wire request.headers) outcome time ∧
      (∀ given, outcome = .ok given →
        let response := Response.unary wire outcome
        response.Succeeds wire request.headers.Returns ∧
          (response.Fits wire → response.CarriesEcho wire request.headers asked.message) ∧
          ∀ plain, AsksEcho server plain wire asked.message → plain.headers = request.headers →
            plain.IsInTime wire → ∃ echoedAt, server.answer drainAt plain =
              some (Transcript.ofResponse response echoedAt)) ∧
      (∀ status, outcome = .error status →
        let transcript := Transcript.ofResponse (Response.unary wire outcome) time
        transcript.TellsFailure wire status ∧ ∃ frame, transcript.frames = [(frame, time)]) ∧
      ∀ other otherWire, AsksDelayed server other otherWire asked →
        waits other.body.parts = waits request.body.parts →
        Timeout.ofHeaders? otherWire other.headers = Timeout.ofHeaders? wire request.headers →
          ∃ otherOutcome, server.answer drainAt other =
              some (Transcript.ofResponse (Response.unary otherWire otherOutcome) time) ∧
            textOf otherOutcome = textOf outcome := by
  obtain ⟨outcome, time, answered, ends⟩ := exists_endsDelayed asks drainAt
  refine ⟨outcome, time, answered, ends, fun given isGiven => ?_, fun status isStatus => ?_, ?_⟩
  · obtain ⟨rfl, rfl⟩ := ends.given given isGiven
    subst isGiven
    obtain ⟨succeeds, carries⟩ :=
      unary_reply asks.calls.headers asks.calls.accepted asked.message
    refine ⟨succeeds, carries, fun plain asksPlain sameHeaders inTime => ?_⟩
    rw [← sameHeaders]
    exact answer_eq_of_asks asksPlain inTime drainAt
  · obtain ⟨rfl, _⟩ := ends.failed status isStatus
    subst isStatus
    exact ⟨Transcript.tellsFailure_ofPayload (by decide) wire time,
      exists_frame_of_error wire _ time⟩
  · intro other otherWire asksOther sameTime sameLimit
    obtain ⟨otherOutcome, otherTime, otherAnswered, otherEnds⟩ :=
      exists_endsDelayed asksOther drainAt
    have sameDue : dueAt other asked = dueAt request asked := by rw [dueAt, sameTime, dueAt]
    rw [sameDue, sameLimit] at otherEnds
    obtain ⟨rfl, alike⟩ := ends.alike otherEnds
    exact ⟨otherOutcome, otherAnswered, alike⟩

/-- A gRPC request for "hi" after some milliseconds, which has come after five and leaves time for
eight and a half. -/
def laterRequest (delay : UInt8) : Request where
  method := "POST"
  target := "/echo.v1.Echo/EchoWithDelay"
  headers := Headers.ofList [("content-type", Bytes.ofAscii "application/grpc"),
    ("grpc-timeout", Bytes.ofAscii "8500u")]
  body := ⟨[.data [0, 0, 0, 0, 6, 10] 2, .data [2, 104, 105, 16, delay] 3], .complete⟩

theorem asksDelayed_laterRequest {delay : UInt8} {asked : EchoWithDelayRequest}
    (fits : Proto.FitsWord asked.delay)
    (encoded : Proto.Binary.encode catalog .echoWithDelayRequest (Payload.toMessage asked) =
      [10, 2, 104, 105, 16, delay]) :
    AsksDelayed ⟨{}⟩ (laterRequest delay) (.grpc .proto) asked where
  calls :=
    { headers := (by decide : (laterRequest 0).headers.IsWellFormed)
      path := (by decide : Request.pathChars "/echo.v1.Echo/EchoWithDelay".toList = _)
      isPost := rfl
      format := (by decide : WireFormat.ofHeaders? (laterRequest 0).headers = some (.grpc .proto))
      accepted := rfl
      admitted := by
        refine Server.disabledProtocol?_eq_none_iff.mpr fun _ _ protocol _ => ?_
        cases protocol <;> rfl }
  fits := fits
  ends := rfl
  holds := by
    have short : ([10, 2, 104, 105, 16, delay] : Bytes).length ≤ Envelope.maxPayload :=
      (by decide : 6 ≤ 4194304)
    have header : Bytes.ofWord 6 = [0, 0, 0, 6] := by decide
    refine ⟨_, congrArg Except.ok encoded, short, ?_⟩
    change _ = Flags.message.bits :: Bytes.ofWord 6 ++ [10, 2, 104, 105, 16, delay]
    rw [header]
    rfl

/-- A delay of three milliseconds is over before the time limit, and one of four is not. -/
theorem answer_of_laterRequest :
    AsksDelayed ⟨{}⟩ (laterRequest 3) (.grpc .proto) ⟨"hi", 3⟩ ∧
      AsksDelayed ⟨{}⟩ (laterRequest 4) (.grpc .proto) ⟨"hi", 4⟩ ∧
      Server.answer ⟨{}⟩ none (laterRequest 3) = some (Transcript.ofResponse
        (Response.unary (.grpc .proto)
          (.ok (reply (Metadata.ofHeaders (laterRequest 3).headers) "hi"))) 8) ∧
      Server.answer ⟨{}⟩ none (laterRequest 4) = some (Transcript.ofResponse
        (Response.unary (.grpc .proto)
          (.error (Status.of .deadlineExceeded "context deadline exceeded") :
            UnaryResult EchoResponse)) 9) := by
  have asksThree : AsksDelayed ⟨{}⟩ (laterRequest 3) (.grpc .proto) ⟨"hi", 3⟩ :=
    asksDelayed_laterRequest ⟨by decide, by decide⟩ (by decide +kernel)
  have asksFour : AsksDelayed ⟨{}⟩ (laterRequest 4) (.grpc .proto) ⟨"hi", 4⟩ :=
    asksDelayed_laterRequest ⟨by decide, by decide⟩ (by decide +kernel)
  have limited (delay : UInt8) :
      Timeout.ofHeaders? (.grpc .proto) (laterRequest delay).headers = some 8500000 := by
    change Timeout.ofHeaders? (.grpc .proto) (laterRequest 0).headers = some 8500000
    decide
  refine ⟨asksThree, asksFour, ?_, ?_⟩
  · obtain ⟨outcome, time, answered, ends, _⟩ := answer_of_asksDelayed asksThree none
    rw [limited] at ends
    obtain ⟨given, isGiven⟩ := ends.succeeds_iff.mpr fun nanos isLimit => by
      cases isLimit
      decide
    obtain ⟨rfl, rfl⟩ := ends.given given isGiven
    rw [answered, isGiven]
    rfl
  · obtain ⟨outcome, time, answered, ends, _⟩ := answer_of_asksDelayed asksFour none
    rw [limited] at ends
    cases outcome with
    | ok given =>
        have inTime := ends.succeeds_iff.mp ⟨given, rfl⟩ 8500000 rfl
        exact absurd inTime (by decide)
    | error status =>
        obtain ⟨rfl, nanos, isLimit, isFirst⟩ := ends.failed status rfl
        cases isLimit
        have first : time = 9 :=
          Nat.le_antisymm (Nat.not_lt.mp fun later => absurd ((isFirst 9).mp later) (by decide))
            ((isFirst 8).mpr (by decide))
        rw [answered, first]

end Echo

end RpcEcho
