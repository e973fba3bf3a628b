import RpcEcho.Proofs.Api.EchoMessages
import RpcEcho.Proofs.Request.Single
import RpcEcho.Proofs.Response.Unary
import RpcEcho.Proofs.Server.Admission

/-!
# Echoes, from the request to the response

A request that asks for the echo of a text, in any format of unary calls, is answered with that
text, with the metadata of the request beside it and with the trailers that may go back. The one
thing that may come between is the time limit of the request itself.
-/

namespace RpcEcho

open Api RequestBody

/-- A request asks for the echo of a text in a format: it goes to the method, the server speaks the
format, and the octets of the body are the message. They may come in any parts at any times. -/
structure AsksEcho (server : Server) (request : Request) (wire : WireFormat) (text : String) :
    Prop where
  headers : request.headers.IsWellFormed
  path : request.path = "/echo.v1.Echo/Echo".toList
  isPost : request.method = "POST"
  format : WireFormat.ofHeaders? request.headers = some wire
  accepted : MethodKind.unary.accepts wire = true
  admitted : server.disabledProtocol? request.headers = none
  ends : request.body.ending = .complete
  holds : ∃ payload, Payload.encode wire.codec (⟨text⟩ : EchoRequest) = .ok payload ∧
    payload.length ≤ Envelope.maxPayload ∧ request.body.octets = wire.single payload

/-- The body of a request has come before the time limit of the request is over, if it has one. -/
def Request.IsInTime (request : Request) (wire : WireFormat) : Prop :=
  ∀ nanos, Timeout.ofHeaders? wire request.headers = some nanos →
    waits request.body.parts * Timeout.milli < nanos

/-- A request without a time limit is in time. -/
theorem Request.isInTime_of_unlimited {request : Request} {wire : WireFormat}
    (unlimited : Timeout.ofHeaders? wire request.headers = none) : request.IsInTime wire := by
  intro nanos limited
  exact absurd (limited.symm.trans unlimited) (Option.some_ne_none nanos)

/-- A response carries exactly one message, which is the echo of a text beside what the headers
show. -/
def Response.CarriesEcho (response : Response) (wire : WireFormat) (headers : Headers)
    (text : String) : Prop :=
  ∃ payload metadata, response.Carries wire headers.Returns payload ∧
    Payload.decode wire.codec payload = .ok (⟨text, metadata⟩ : EchoResponse) ∧
    HoldsExactly metadata headers.Shows

/-- The frames of an answer to a request, without their times. -/
def Server.framesOf? (server : Server) (request : Request) : Option (List ResponseFrame) :=
  (server.answer none request).map fun transcript => transcript.frames.map Prod.fst

theorem Server.framesOf?_of_answer {server : Server} {request : Request} {response : Response}
    {time : Nat}
    (answered : server.answer none request = some (Transcript.ofResponse response time)) :
    server.framesOf? request = some response.frames := by
  rw [framesOf?, answered, Option.map_some, Transcript.ofResponse, List.map_map]
  exact congrArg some (List.map_id response.frames)

namespace Echo

variable {server : Server} {request : Request} {wire : WireFormat} {text : String}

/-- The reply of an echo is a response of success that carries the echo. -/
theorem unary_reply (wellFormed : request.headers.IsWellFormed)
    (accepted : MethodKind.unary.accepts wire = true) (text : String) :
    let response := Response.unary wire
      (.ok (reply (Metadata.ofHeaders request.headers) text))
    response.Succeeds wire request.headers.Returns ∧
      (response.Fits wire → response.CarriesEcho wire request.headers text) := by
  have shown := Metadata.holdsExactly_ofHeaders wellFormed.distinct
  obtain ⟨pairs, trailers, returned⟩ := Metadata.exists_trailers_ofHeaders wellFormed
  have distinct : ((reply (Metadata.ofHeaders request.headers) text).message.metadata.map
      Prod.fst).Nodup := shown.distinct
  obtain ⟨payload, encoded⟩ := exists_encode_response wire.codec distinct
  have free : ∀ name value, request.headers.Returns name value →
      HeaderName.isProtocol name = false ∧ HeaderName.IsWellFormed name := by
    rintro name value ⟨notOwned, shownText, isShown, _⟩
    exact ⟨notOwned, (wellFormed.of_shows isShown).1⟩
  have returns : (reply (Metadata.ofHeaders request.headers) text).trailers =
      ⟨Headers.entriesOf pairs⟩ := trailers
  obtain ⟨succeeds, carries⟩ := Response.unary_ok accepted returned free returns encoded
  refine ⟨succeeds, fun fits => ?_⟩
  obtain ⟨carried, short⟩ := carries fits
  obtain ⟨metadata, permuted, decoded⟩ := decode_encode_response distinct encoded short
  exact ⟨payload, metadata, carried, decoded, shown.of_perm permuted⟩

theorem route_of_asks (asks : AsksEcho server request wire text) :
    server.route request = .accepted .echo .echo wire := by
  refine Server.route_eq_accepted_iff.mpr ⟨"Echo", ?_, asks.admitted, asks.isPost, asks.format,
    by decide, asks.accepted⟩
  have shape : "/echo.v1.Echo/Echo".toList = Server.methodRoot .echo ++ "Echo".toList := by decide
  rw [asks.path, shape]
  exact Server.serviceOf?_echo server (by decide) (by decide)

/-- A call whose body comes in time reads the request. -/
theorem readSingle_of_asks (asks : AsksEcho server request wire text)
    (inTime : request.IsInTime wire) (drainAt : Option Nat) :
    ∃ after, (Call.mk wire request.headers request.body drainAt).startApart.readSingle =
      (after, some (.ok (⟨text⟩ : EchoRequest))) := by
  obtain ⟨payload, encoded, fits, whole⟩ := asks.holds
  have short : payload.length < Proto.Varint.bound := Nat.lt_of_le_of_lt fits (by decide)
  have decoded := decode_encode_request encoded short
  refine Exchange.readSingle_of_open rfl asks.ends whole fits decoded ⟨?_, Outbound.stays_unheard⟩
  -- Nothing cancels a unary call from outside: draining does not, and nobody listens yet.
  refine Cancellation.check_eq_none_iff.mpr ⟨fun time cancelled => ?_, fun nanos limited => ?_⟩
  · cases cancelled
  · have late := inTime nanos limited
    rwa [← Nat.zero_add (waits request.body.parts)] at late

theorem answer_eq_of_asks (asks : AsksEcho server request wire text)
    (inTime : request.IsInTime wire) (drainAt : Option Nat) :
    ∃ time, server.answer drainAt request =
      some (Transcript.ofResponse
        (Response.unary wire (.ok (reply (Metadata.ofHeaders request.headers) text))) time) := by
  obtain ⟨after, outcome⟩ := readSingle_of_asks asks inTime drainAt
  refine ⟨after.now, ?_⟩
  rw [Server.answer, route_of_asks asks]
  change (Call.mk wire request.headers request.body drainAt).unary
    (echo (Metadata.ofHeaders request.headers)) = _
  rw [Call.unary, outcome]
  rfl

/-- A request for the echo of a text whose body comes in time is answered with success, the
trailers that may go back, and the echo. -/
theorem answer_of_asks (asks : AsksEcho server request wire text)
    (inTime : request.IsInTime wire) (drainAt : Option Nat) :
    ∃ response time,
      server.answer drainAt request = some (Transcript.ofResponse response time) ∧
        response.Succeeds wire request.headers.Returns ∧
        (response.Fits wire → response.CarriesEcho wire request.headers text) := by
  obtain ⟨time, answered⟩ := answer_eq_of_asks asks inTime drainAt
  exact ⟨_, time, answered, unary_reply asks.headers asks.accepted text⟩

/-- A request for the echo of "hi" by gRPC. The envelope of the message comes in two parts. -/
def hiRequest (headers : Headers) : Request where
  method := "POST"
  target := "/echo.v1.Echo/Echo"
  headers := headers
  body := ⟨[.data [0, 0, 0, 0, 4, 10] 3, .data [2, 104, 105] 5], .complete⟩

theorem asksEcho_hiRequest {headers : Headers} (wellFormed : headers.IsWellFormed)
    (format : WireFormat.ofHeaders? headers = some (.grpc .proto)) :
    AsksEcho ⟨{}⟩ (hiRequest headers) (.grpc .proto) "hi" where
  headers := wellFormed
  path := (by decide : Request.pathChars "/echo.v1.Echo/Echo".toList = _)
  isPost := rfl
  format := format
  accepted := rfl
  admitted := by
    refine Server.disabledProtocol?_eq_none_iff.mpr fun _ _ protocol _ => ?_
    cases protocol <;> rfl
  ends := rfl
  holds := by
    have encoded : Proto.Binary.encode catalog .echoRequest
        (Payload.toMessage (⟨"hi"⟩ : EchoRequest)) = [10, 2, 104, 105] := by decide +kernel
    exact ⟨[10, 2, 104, 105], congrArg Except.ok encoded, by decide, rfl⟩

/-- Headers of a gRPC request, one of which is for the application and one for the connection. -/
def noteHeaders : Headers :=
  Headers.ofList [("content-type", Bytes.ofAscii "application/grpc"),
    ("te", Bytes.ofAscii "trailers"), ("x-note", Bytes.ofAscii "a")]

/-- The length of a short text beside what the headers above show. -/
theorem length_of_encode_note {text : String} (notEmpty : text ≠ "")
    (short : (Utf8.encode text).length < 128) {payload : Bytes}
    (encoded : Payload.encode .proto (⟨text, Metadata.ofHeaders noteHeaders⟩ : EchoResponse) =
      .ok payload) : payload.length = (Utf8.encode text).length + 49 := by
  have shown : Metadata.ofHeaders noteHeaders =
      [("content-type", "application/grpc"), ("x-note", "a")] := by decide
  have distinct : ((Metadata.ofHeaders noteHeaders).map Prod.fst).Nodup := by decide
  rw [length_encode_response distinct encoded, shown]
  have type : (Utf8.encode "content-type").length = 12 := rfl
  have mediaType : (Utf8.encode "application/grpc").length = 16 := rfl
  have name : (Utf8.encode "x-note").length = 6 := rfl
  have value : (Utf8.encode "a").length = 1 := rfl
  simp [responseRecords, Proto.Binary.textRecords, Proto.Binary.messageRecords, encode_entry,
    entryRecords, Proto.Record.write_short, type, mediaType, name, value, notEmpty, short]

/-- The response that gives the message is short enough. -/
theorem fits_of_note {text : String} (notEmpty : text ≠ "")
    (short : (Utf8.encode text).length < 128) (trailers : Headers) :
    (Response.unary (.grpc .proto)
      (.ok (⟨⟨text, Metadata.ofHeaders noteHeaders⟩, trailers⟩ : Reply EchoResponse))).Fits
        (.grpc .proto) := by
  let reply : Reply EchoResponse := ⟨⟨text, Metadata.ofHeaders noteHeaders⟩, trailers⟩
  have distinct : (reply.message.metadata.map Prod.fst).Nodup :=
    (by decide : ((Metadata.ofHeaders noteHeaders).map Prod.fst).Nodup)
  obtain ⟨payload, encoded⟩ := exists_encode_response .proto distinct
  have shape : Response.unary (.grpc .proto) (.ok reply) = _ := Response.unary_of_encode encoded
  rw [shape]
  intro octets member
  have isMessage : octets = Envelope.wrap payload Flags.message := by
    rcases List.mem_cons.mp member with isFirst | inRest
    · exact ResponseFrame.data.inj isFirst
    · cases List.mem_singleton.mp inRest
  have bound : (WireFormat.grpc .proto).pieceBound = 4294967301 := rfl
  rw [isMessage, Envelope.length_wrap, length_of_encode_note notEmpty short encoded, bound,
    Envelope.headerLength]
  omega

theorem answer_of_noteHeaders :
    AsksEcho ⟨{}⟩ (hiRequest noteHeaders) (.grpc .proto) "hi" ∧
      (hiRequest noteHeaders).IsInTime (.grpc .proto) ∧
      ∃ response time,
        Server.answer ⟨{}⟩ none (hiRequest noteHeaders) =
            some (Transcript.ofResponse response time) ∧
          response.Succeeds (.grpc .proto) noteHeaders.Returns ∧
          response.CarriesEcho (.grpc .proto) noteHeaders "hi" := by
  have asks : AsksEcho ⟨{}⟩ (hiRequest noteHeaders) (.grpc .proto) "hi" :=
    asksEcho_hiRequest (by decide) (by decide)
  have unlimited : Timeout.ofHeaders? (.grpc .proto) noteHeaders = none := by decide
  have inTime : (hiRequest noteHeaders).IsInTime (.grpc .proto) :=
    Request.isInTime_of_unlimited unlimited
  refine ⟨asks, inTime, ?_⟩
  obtain ⟨response, time, answered, succeeds, carries⟩ := answer_of_asks asks inTime none
  obtain ⟨other, same⟩ := answer_eq_of_asks asks inTime none
  have frames : response.frames = (Response.unary (.grpc .proto)
      (.ok (reply (Metadata.ofHeaders noteHeaders) "hi"))).frames :=
    Option.some.inj ((Server.framesOf?_of_answer answered).symm.trans
      (Server.framesOf?_of_answer same))
  refine ⟨response, time, answered, succeeds, carries fun octets member => ?_⟩
  exact fits_of_note (by decide) (by decide) _ octets (frames ▸ member)

/-- A request whose time limit is over before its body has come gets no echo. -/
theorem exists_asks_without_echo :
    ¬ ∀ (server : Server) (request : Request) (wire : WireFormat) (text : String),
        AsksEcho server request wire text → ∃ response time,
          server.answer none request = some (Transcript.ofResponse response time) ∧
            response.Succeeds wire request.headers.Returns ∧
            (response.Fits wire → response.CarriesEcho wire request.headers text) := by
  let late : Headers :=
    Headers.ofList [("content-type", Bytes.ofAscii "application/grpc"),
      ("grpc-timeout", Bytes.ofAscii "0n")]
  intro claimed
  obtain ⟨response, time, answered, succeeds, _⟩ := claimed ⟨{}⟩ (hiRequest late) (.grpc .proto)
    "hi" (asksEcho_hiRequest (by decide) (by decide))
  have told := (succeeds.trailers.mem_iff Trailers.statusName (Bytes.ofAscii "0")).mpr
    ⟨rfl, Or.inl ⟨rfl, rfl⟩⟩
  have seen : Server.framesOf? ⟨{}⟩ (hiRequest late) =
      some [.trailers (ResponseFrame.statusTrailers (.error Done.deadlineExceeded.status))] := by
    decide
  have frames := Option.some.inj ((Server.framesOf?_of_answer answered).symm.trans seen)
  rw [frames] at told
  exact absurd told (by decide)

end Echo

end RpcEcho
