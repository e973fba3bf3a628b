import RpcEcho.Proofs.Response.Delimiting
import RpcEcho.Proofs.Response.Outbound
import RpcEcho.Proofs.Response.Outcome
import RpcEcho.Proofs.Services.Echo

/-!
# Messages joined into one

A call with many messages in and one out collects the texts as they come and says all of them back
in one message. What it gives depends only on what asking for the messages one after the other
gives: if that ends with a failure, the failure is all that the caller sees.

The collector counts down from more messages than the body can hold. `receive_unread_lt` says that
each message takes octets off the body, so the count never ends a collection.
-/

namespace RpcEcho

open Api RequestBody

/-! ## Success without trailers -/

/-- The envelopes behind the messages of a call that ended well and has no trailers. -/
def WireFormat.successEnvelopes : WireFormat → List Envelope.Frame
  | .connectUnary _ | .connectStream _ => [⟨Flags.endStream, Utf8.encode "\x7b\x7d"⟩]
  | .grpc _ => []
  | .grpcWeb _ => [⟨Flags.trailers, Utf8.encode "grpc-status: 0\r\n"⟩]

/-- The HTTP trailers of a call that ended well and has no trailers of its own. -/
def WireFormat.successTrailers : WireFormat → List (String × Bytes)
  | .connectUnary _ | .connectStream _ | .grpcWeb _ => []
  | .grpc _ => [("grpc-status", Bytes.ofAscii "0")]

theorem WireFormat.lastEnvelopes_success (wire : WireFormat) :
    wire.lastEnvelopes (.ok Headers.empty) = wire.successEnvelopes := by
  have noTrailers : EndStream.metadata Headers.empty = [] := by decide
  have object : (EndStream.toJson (.ok Headers.empty)).encode = Utf8.encode "\x7b\x7d" := by
    rw [EndStream.toJson_ok, noTrailers]
    decide
  have block : Trailers.block (ResponseFrame.statusTrailers (.ok Headers.empty)) =
      Utf8.encode "grpc-status: 0\r\n" := by
    decide
  cases wire <;> simp [lastEnvelopes, successEnvelopes, object, block]

theorem WireFormat.successEnvelopes_short (wire : WireFormat) :
    ∀ frame ∈ wire.successEnvelopes, frame.payload.length < Bytes.wordBound := by
  cases wire with
  | connectUnary codec | connectStream codec | grpc codec | grpcWeb codec =>
      cases codec <;> decide

namespace ResponseFrame

theorem octetsOf_success (wire : WireFormat) (payload : Bytes) :
    octetsOf [.message payload, .endOfStream wire (.ok Headers.empty)] =
      (⟨Flags.message, payload⟩ :: wire.successEnvelopes).flatMap Envelope.Frame.wrap := by
  rw [octetsOf_message_last, wire.lastEnvelopes_success]
  rfl

theorem trailersOf_success (wire : WireFormat) (payload : Bytes) :
    trailersOf [.message payload, .endOfStream wire (.ok Headers.empty)] =
      wire.successTrailers := by
  cases wire <;> rfl

end ResponseFrame

namespace Response

/-- A response gives one message and success: these are all frames in its body, and all its HTTP
trailers. The message is texts joined into one beside what headers show. -/
structure Joins (response : Response) (wire : WireFormat) (headers : Headers)
    (texts : List String) : Prop where
  status : response.status = 200
  head : response.headers = contentTyped wire.contentType
  trailers : ResponseFrame.trailersOf response.frames = wire.successTrailers
  gives : ∃ payload metadata,
    wire.frames? (ResponseFrame.octetsOf response.frames) =
      some (⟨Flags.message, payload⟩ :: wire.successEnvelopes) ∧
    Payload.decode wire.codec payload = .ok (⟨", ".intercalate texts, metadata⟩ : EchoResponse) ∧
    HoldsExactly metadata headers.Shows

/-- A streaming response that tells a failure and gives no message. -/
structure OnlyFails (response : Response) (wire : WireFormat) (failure : Status) : Prop where
  status : response.status = 200
  head : response.headers = contentTyped wire.contentType
  frames : response.frames = [.endOfStream wire (.error failure)]
  noMessage : ∀ payload, ResponseFrame.message payload ∉ response.frames

end Response

/-! ## What is left of a body -/

namespace Exchange

variable {ι : Type} [Payload ι]

/-- The octets of a body that no message was read from, those to come behind those held. -/
def unread (exchange : Exchange) : Bytes :=
  exchange.inbound.decoder.pending ++ exchange.inbound.body.octets

theorem inbound_race (exchange : Exchange) (ready : Option Nat) :
    (exchange.race ready).1.inbound = exchange.inbound := by
  unfold race
  split
  · rfl
  · split
    · rfl
    · unfold wait
      dsimp only
      split <;> rfl

/-- A message among the octets held takes its frame off them. -/
theorem unread_lt_of_buffered {exchange : Exchange} {inbound : Inbound} {message : ι}
    (buffered : exchange.inbound.buffered? exchange.wire.codec =
      some (.ok (some message), inbound)) :
    { exchange with inbound }.unread.length < exchange.unread.length := by
  unfold Inbound.buffered? at buffered
  split at buffered
  · cases buffered
  · split at buffered
    · cases buffered
    · cases buffered
    · rename_i frame decoder answer
      obtain rfl := congrArg Prod.snd (Option.some.inj buffered)
      have taken := Envelope.Decoder.next_length_lt answer
      simp only [unread, List.length_append]
      omega

theorem unread_takePart {exchange : Exchange} {part : BodyPart} {parts : List BodyPart}
    (state : exchange.inbound.body.parts = part :: parts) :
    (exchange.takePart part parts).unread = exchange.unread := by
  simp only [unread, takePart, Inbound.withParts, Inbound.push, Envelope.Decoder.push,
    RequestBody.octets, state, List.flatMap_cons, List.append_assoc]

theorem receiveFrom_unread_lt {exchange after : Exchange} {parts : List BodyPart} {message : ι}
    (state : exchange.inbound.body.parts = parts)
    (given : exchange.receiveFrom parts = (after, some (.ok (some message)))) :
    after.unread.length < exchange.unread.length := by
  -- A part that comes moves octets from those to come to those held; only a message takes some off.
  induction parts generalizing exchange with
  | nil =>
      unfold receiveFrom at given
      split at given
      · rename_i buffered
        cases given
        exact unread_lt_of_buffered buffered
      · split at given
        · cases given
        · cases given
        · obtain ⟨_, isMessage⟩ := Prod.mk.inj given
          exact absurd (Option.some.inj isMessage) (Inbound.atEnd_ne_message _ message)
  | cons part parts inductionHypothesis =>
      unfold receiveFrom at given
      split at given
      · rename_i buffered
        cases given
        exact unread_lt_of_buffered buffered
      · split at given
        · cases given
        · cases given
        · rename_i between raced
          have sameInbound : between.inbound = exchange.inbound := by
            rw [← exchange.inbound_race exchange.nextPartAt, raced]
          have kept : (between.takePart part parts).unread = exchange.unread := by
            rw [unread_takePart (sameInbound ▸ state), unread, sameInbound, unread]
          rw [← kept]
          exact inductionHypothesis rfl given

theorem receive_of_receives {exchange : Exchange} {count : Nat} {result : Inbound.Result ι}
    {results : List (Inbound.Result ι)}
    (given : receives (count + 1) exchange = result :: results) :
    ∃ after, exchange.receive = (after, some result) ∧ receives count after = results := by
  rw [receives] at given
  split at given
  · cases given
  · rename_i after answer outcome
    cases given
    exact ⟨after, outcome, rfl⟩

/-- A message takes octets off the body. -/
theorem receive_unread_lt {exchange after : Exchange} {message : ι}
    (given : exchange.receive = (after, some (.ok (some message)))) :
    after.unread.length < exchange.unread.length :=
  receiveFrom_unread_lt rfl given

end Exchange

/-! ## Collecting -/

namespace Echo

/-- The reply to texts that came, in order. -/
def joined (metadata : Metadata) (texts : List String) : Reply EchoResponse where
  message := ⟨", ".intercalate texts, metadata⟩

/-- What asking for messages gives that hold texts. -/
def received (texts : List String) : List (Inbound.Result EchoRequest) :=
  texts.map fun text => .ok (some ⟨text⟩)

section Collecting

variable {exchange after : Exchange} {metadata : Metadata} {came : List String}

theorem run_collect_of_message {request : EchoRequest} (most : Nat)
    (given : exchange.receive = (after, some (.ok (some request)))) :
    exchange.run (collect metadata came (most + 1)) =
      after.run (collect metadata (request.message :: came) most) := by
  change exchange.run (.onReceive _) = _
  rw [Exchange.run, given]
  rfl

theorem run_collect_of_last {last : Inbound.Result EchoRequest} (most : Nat)
    (isLast : ∀ message, last ≠ .ok (some message))
    (given : exchange.receive = (after, some last)) :
    exchange.run (collect metadata came (most + 1)) =
      (after, some (last.map fun _ => joined metadata came.reverse)) := by
  change exchange.run (.onReceive _) = _
  rw [Exchange.run, given]
  match last, isLast with
  | .error status, _ => rfl
  | .ok none, _ => rfl
  | .ok (some message), isLast => exact absurd rfl (isLast message)

/-- A collector gives the texts that came if no failure is behind them, and else the failure. -/
theorem run_collect {texts : List String} {last : Inbound.Result EchoRequest} {most : Nat}
    (given : Exchange.receives (texts.length + 1) exchange = received texts ++ [last])
    (isLast : ∀ message, last ≠ .ok (some message)) (bound : exchange.unread.length < most) :
    ∃ after, exchange.run (collect metadata came most) =
      (after, some (last.map fun _ => joined metadata (came.reverse ++ texts))) := by
  induction texts generalizing exchange came most with
  | nil =>
      obtain ⟨after, outcome, _⟩ := Exchange.receive_of_receives given
      obtain ⟨less, rfl⟩ := Nat.exists_eq_add_of_lt (Nat.zero_lt_of_lt bound)
      exact ⟨after, by
        rw [List.append_nil, Nat.zero_add, run_collect_of_last less isLast outcome]⟩
  | cons text texts inductionHypothesis =>
      obtain ⟨between, outcome, givenLater⟩ := Exchange.receive_of_receives given
      obtain ⟨less, rfl⟩ := Nat.exists_eq_add_of_lt (Nat.zero_lt_of_lt bound)
      have taken := Exchange.receive_unread_lt outcome
      have collected : ∃ after,
          between.run (collect metadata (text :: came) less) = (after, some _) :=
        inductionHypothesis givenLater (by omega)
      rw [List.reverse_cons, List.append_assoc, List.singleton_append] at collected
      rw [Nat.zero_add, run_collect_of_message less outcome]
      exact collected

end Collecting

/-! ## Bodies -/

/-- A payload that a request may have for a text. -/
def IsPayload (wire : WireFormat) (text : String) (payload : Bytes) : Prop :=
  Payload.encode wire.codec (⟨text⟩ : EchoRequest) = .ok payload ∧
    payload.length ≤ Envelope.maxPayload

/-- The octets of a body are the envelopes of requests with texts, and the end of the messages. -/
def HoldsTexts (wire : WireFormat) (body : RequestBody) (texts : List String) : Prop :=
  ∃ payloads rest, List.Forall₂ (IsPayload wire) texts payloads ∧
    Inbound.EndsMessages body.ending rest ∧
    body.octets = (payloads.flatMap fun payload => Envelope.wrap payload Flags.message) ++ rest

section Bodies

variable {wire : WireFormat} {ending : BodyEnding} {rest : Bytes} {texts : List String}
  {payloads : List Bytes}

/-- The messages of a body are read off its octets, and then what stands behind them. -/
theorem reference_of_holds (holds : List.Forall₂ (IsPayload wire) texts payloads)
    (ending : BodyEnding) (rest : Bytes) :
    Inbound.reference wire.codec ending
        ((payloads.flatMap fun payload => Envelope.wrap payload Flags.message) ++ rest) =
      received texts ++ Inbound.reference wire.codec ending rest := by
  induction holds with
  | nil => rfl
  | cons isPayload holds inductionHypothesis =>
      obtain ⟨encoded, fits⟩ := isPayload
      have short := Nat.lt_of_le_of_lt fits (by decide : Envelope.maxPayload < Proto.Varint.bound)
      have found := Inbound.first_wrap fits (decode_encode_request encoded short) ending
      rw [List.flatMap_cons, List.append_assoc, Inbound.reference_of_message (found _),
        inductionHypothesis]
      rfl

/-- A body that is never over ends its messages itself. -/
theorem endsItself_of_holds (holds : List.Forall₂ (IsPayload wire) texts payloads)
    (ends : Inbound.EndsMessages .silent rest) :
    Inbound.EndsItself
      ((payloads.flatMap fun payload => Envelope.wrap payload Flags.message) ++ rest) := by
  induction holds with
  | nil => exact ends.endsItself
  | cons isPayload holds inductionHypothesis =>
      rw [List.flatMap_cons, List.append_assoc]
      exact .later ⟨Flags.message, _⟩ _ isPayload.2 inductionHypothesis

end Bodies

/-! ## Calls -/

section Calls

variable {server : Server} {request : Request} {wire : WireFormat} {drainAt : Option Nat}
  {texts : List String}

/-- The call of a request in a format. -/
def callOf (request : Request) (wire : WireFormat) (drainAt : Option Nat) : Call :=
  ⟨wire, request.headers, request.body, drainAt⟩

/-- What asking for messages gives is what the answer depends on. -/
theorem answer_of_receives (calls : server.Calls request .clientStream wire)
    {last : Inbound.Result EchoRequest}
    (given : Exchange.receives (texts.length + 1) (callOf request wire drainAt).startDraining =
      received texts ++ [last])
    (isLast : ∀ message, last ≠ .ok (some message)) :
    ∃ time, server.answer drainAt request = some (Transcript.ofResponse
      (Response.unary wire
        (last.map fun _ => joined (Metadata.ofHeaders request.headers) texts)) time) := by
  have bound : (callOf request wire drainAt).startDraining.unread.length <
      (callOf request wire drainAt).messageBound :=
    Nat.lt_succ_self request.body.octets.length
  have collected : ∃ after, (callOf request wire drainAt).startDraining.run
      (clientStream (Metadata.ofHeaders request.headers)
        (callOf request wire drainAt).messageBound) =
        (after, some _) :=
    run_collect given isLast bound
  obtain ⟨after, collected⟩ := collected
  refine ⟨after.now, ?_⟩
  rw [Server.answer, calls.route (by decide)]
  change (callOf request wire drainAt).clientStreaming (clientStream _ _) = _
  rw [Call.clientStreaming]
  exact congrArg (Call.respond wire) collected

/-- Messages that come while the call is open are received, and then the end of the body. -/
theorem receives_of_holds (holds : HoldsTexts wire request.body texts)
    (inTime : request.IsInTime wire)
    (notDrained : ∀ time, drainAt = some time → waits request.body.parts < time) :
    Exchange.receives (texts.length + 1) (callOf request wire drainAt).startDraining =
      received texts ++ [.ok none] := by
  obtain ⟨payloads, rest, holds, ends, whole⟩ := holds
  have reading : (callOf request wire drainAt).startDraining.IsReading request.body.ending
      request.body.octets := by
    refine ⟨fun silent => ?_, request.body.parts, [], rfl, rfl, ?_, Outbound.stays_unheard⟩
    · rw [silent] at ends
      rw [whole]
      exact endsItself_of_holds holds ends
    · refine Cancellation.check_eq_none_iff.mpr ⟨fun time drained => ?_, fun nanos limited => ?_⟩
      · exact (Nat.zero_add _).symm ▸ notDrained time drained
      · exact (Nat.zero_add (waits request.body.parts)).symm ▸ inTime nanos limited
  have isExpected := reference_of_holds holds request.body.ending rest
  rw [← whole, Inbound.reference_of_last (ends.first_eq wire.codec)
    fun message impossible => nomatch impossible] at isExpected
  have all := reading.receives_all isExpected
  rwa [List.length_append, received, List.length_map] at all

theorem unary_joined (headers : request.headers.IsWellFormed)
    (accepted : MethodKind.clientStreaming.accepts wire = true) (texts : List String) :
    let response := Response.unary wire (.ok (joined (Metadata.ofHeaders request.headers) texts))
    response.Fits wire → response.Joins wire request.headers texts := by
  intro response fits
  have shown := Metadata.holdsExactly_ofHeaders headers.distinct
  have distinct : ((joined (Metadata.ofHeaders request.headers) texts).message.metadata.map
      Prod.fst).Nodup := shown.distinct
  obtain ⟨payload, encoded⟩ := exists_encode_response wire.codec distinct
  have enveloped := MethodKind.isEnveloped_of_accepts (by decide) accepted
  have shape : response = Response.streamHead wire
      [.message payload, .endOfStream wire (.ok Headers.empty)] :=
    Response.unary_of_enveloped enveloped encoded
  have short : payload.length < Bytes.wordBound :=
    Response.length_lt_of_wrap_lt enveloped
      (fits (Envelope.wrap payload Flags.message) (shape ▸ List.mem_cons_self))
  obtain ⟨metadata, permuted, decoded⟩ := decode_encode_response distinct encoded
    (Nat.lt_trans short (by decide))
  rw [shape]
  refine ⟨rfl, rfl, ResponseFrame.trailersOf_success wire payload, payload, metadata, ?_, decoded,
    shown.of_perm permuted⟩
  rw [Response.streamHead, ResponseFrame.octetsOf_success]
  exact WireFormat.frames?_written enveloped _
    (List.forall_mem_cons.mpr ⟨short, wire.successEnvelopes_short⟩)

theorem unary_failed (accepted : MethodKind.clientStreaming.accepts wire = true)
    (status : Status) :
    (Response.unary wire (.error status : Except Status (Reply EchoResponse))).OnlyFails wire
      status := by
  have shape : Response.unary wire (.error status : Except Status (Reply EchoResponse)) =
      Response.streamHead wire [.endOfStream wire (.error status)] := by
    cases wire with
    | connectUnary codec => cases accepted
    | connectStream codec | grpc codec | grpcWeb codec => rfl
  rw [shape]
  refine ⟨rfl, rfl, rfl, fun payload member => ?_⟩
  exact ResponseFrame.message_ne_endOfStream payload wire _ (List.mem_singleton.mp member)

/-- A call that collects texts says all of them back in one message, in order, beside what the
headers of the request show, and ends well without trailers. The body may come in any parts. If
asking for the messages fails after any number of them, the failure is the whole response. -/
theorem clientStream_joins (calls : server.Calls request .clientStream wire) :
    (∀ texts, HoldsTexts wire request.body texts → request.IsInTime wire →
      (∀ time, drainAt = some time → waits request.body.parts < time) →
        ∃ response time,
          server.answer drainAt request = some (Transcript.ofResponse response time) ∧
            (response.Fits wire → response.Joins wire request.headers texts)) ∧
    ∀ texts status,
      Exchange.receives (texts.length + 1) (callOf request wire drainAt).startDraining =
          received texts ++ [.error status] →
        ∃ response time,
          server.answer drainAt request = some (Transcript.ofResponse response time) ∧
            response.OnlyFails wire status := by
  constructor
  · intro texts holds inTime notDrained
    obtain ⟨time, answered⟩ := answer_of_receives calls
      (receives_of_holds holds inTime notDrained) fun message impossible => nomatch impossible
    exact ⟨_, time, answered, unary_joined calls.headers calls.accepted texts⟩
  · intro texts status given
    obtain ⟨time, answered⟩ := answer_of_receives calls given
      fun message impossible => nomatch impossible
    exact ⟨_, time, answered, unary_failed calls.accepted status⟩

/-- Two messages by gRPC in three parts. With the right end, a frame ends the stream and the body is
never over; else it breaks off inside a header. -/
def pairRequest (wellEnded : Bool) : Request where
  method := "POST"
  target := "/echo.v1.Echo/ClientStream"
  headers := noteHeaders
  body := ⟨[.data [0, 0, 0, 0, 3, 10, 1, 97, 0, 0] 2, .trailers Headers.empty,
    .data ([0, 0, 3, 10, 1, 98] ++ if wellEnded then [128, 0, 0, 0, 0, 7] else [7]) 1],
    if wellEnded then .silent else .complete⟩

theorem calls_pairRequest (wellEnded : Bool) :
    Server.Calls ⟨{}⟩ (pairRequest wellEnded) .clientStream (.grpc .proto) where
  headers := (by decide : noteHeaders.IsWellFormed)
  path := (by decide : Request.pathChars "/echo.v1.Echo/ClientStream".toList = _)
  isPost := rfl
  format := (by decide : WireFormat.ofHeaders? noteHeaders = some (.grpc .proto))
  accepted := rfl
  admitted := by
    refine Server.disabledProtocol?_eq_none_iff.mpr fun _ _ protocol _ => ?_
    cases protocol <;> rfl

theorem isPayload_pair :
    List.Forall₂ (IsPayload (.grpc .proto)) ["a", "b"] [[10, 1, 97], [10, 1, 98]] := by
  have first : Proto.Binary.encode catalog .echoRequest
      (Payload.toMessage (⟨"a"⟩ : EchoRequest)) = [10, 1, 97] := by decide +kernel
  have second : Proto.Binary.encode catalog .echoRequest
      (Payload.toMessage (⟨"b"⟩ : EchoRequest)) = [10, 1, 98] := by decide +kernel
  exact .cons ⟨congrArg Except.ok first, by decide⟩
    (.cons ⟨congrArg Except.ok second, by decide⟩ .nil)

theorem receives_of_pairRequest :
    Exchange.receives 3 (callOf (pairRequest false) (.grpc .proto) none).startDraining =
      received ["a", "b"] ++ [.error (Envelope.Error.incompleteHeader 1).status] := by
  let exchange := (callOf (pairRequest false) (.grpc .proto) none).startDraining
  have reading : exchange.IsReading .complete (pairRequest false).body.octets :=
    ⟨fun silent => (nomatch silent), (pairRequest false).body.parts, [], rfl, rfl,
      (by decide), Outbound.stays_unheard⟩
  have breaksOff : Inbound.reference .proto .complete [7] =
      [(.error (Envelope.Error.incompleteHeader 1).status : Inbound.Result EchoRequest)] :=
    Inbound.reference_of_last rfl fun message impossible => nomatch impossible
  have isExpected := reference_of_holds isPayload_pair .complete [7]
  rw [show (WireFormat.grpc .proto).codec = .proto from rfl, breaksOff] at isExpected
  exact reading.receives_all isExpected

theorem clientStream_joins_pair :
    (∀ wellEnded, Server.Calls ⟨{}⟩ (pairRequest wellEnded) .clientStream (.grpc .proto)) ∧
      (∃ response time,
        Server.answer ⟨{}⟩ none (pairRequest true) =
            some (Transcript.ofResponse response time) ∧
          response.Joins (.grpc .proto) noteHeaders ["a", "b"]) ∧
      ∃ response time,
        Server.answer ⟨{}⟩ none (pairRequest false) =
            some (Transcript.ofResponse response time) ∧
          response.OnlyFails (.grpc .proto) (Envelope.Error.incompleteHeader 1).status := by
  have unlimited : Timeout.ofHeaders? (.grpc .proto) noteHeaders = none := by decide
  have inTime : (pairRequest true).IsInTime (.grpc .proto) :=
    Request.isInTime_of_unlimited unlimited
  have notDrained : ∀ time, none = some time → waits (pairRequest true).body.parts < time :=
    fun time drained => (nomatch drained)
  have holds : HoldsTexts (.grpc .proto) (pairRequest true).body ["a", "b"] :=
    ⟨_, _, isPayload_pair, .frame ⟨Flags.trailers, []⟩ [7] (by decide) (by decide), by decide⟩
  obtain ⟨response, time, answered, joins⟩ :=
    (clientStream_joins (calls_pairRequest true)).1 ["a", "b"] holds inTime notDrained
  refine ⟨calls_pairRequest, ⟨response, time, answered, joins fun octets member => ?_⟩,
    (clientStream_joins (calls_pairRequest false)).2 ["a", "b"] _ receives_of_pairRequest⟩
  obtain ⟨other, same⟩ := answer_of_receives (calls_pairRequest true)
    (receives_of_holds holds inTime notDrained) fun message impossible => nomatch impossible
  have frames : response.frames = (Response.unary (.grpc .proto)
      (.ok (joined (Metadata.ofHeaders noteHeaders) ["a", "b"]))).frames :=
    Option.some.inj ((Server.framesOf?_of_answer answered).symm.trans
      (Server.framesOf?_of_answer same))
  exact fits_of_note (by decide) (by decide) _ octets (frames ▸ member)

end Calls

end Echo

end RpcEcho
