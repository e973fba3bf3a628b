import RpcEcho.Proofs.Api.Replies
import RpcEcho.Proofs.Response.EndStream
import RpcEcho.Proofs.Response.Unary
import RpcEcho.Proofs.Trailers.Status

/-!
# Outcomes of calls, as callers read them

A call that failed tells its code and its message, and nothing else. A call that succeeded gives its
message and its trailers. Without envelopes a failure is an error object under its HTTP status, and
trailers stand among the headers; in Connect streams both stand in the last frame, which holds texts
only; in gRPC both stand in HTTP trailers.
-/

namespace RpcEcho

/-! ## What the last frame tells -/

/-- The payload of the last frame of a Connect stream tells an outcome: the status alone, or the
trailers that are texts. -/
def EndStream.Tells (payload : Bytes) : Outcome → Prop
  | .error status => read? payload = some ⟨some status, []⟩
  | .ok trailers => ∃ metadata, read? payload = some ⟨none, metadata⟩ ∧
      HoldsExactly metadata fun name texts =>
        ∃ value text, (name, value) ∈ trailers.toList ∧
          HeaderValue.text? value = some text ∧ texts = [text]

/-- HTTP trailers tell an outcome: the status alone, or success and the trailers. -/
def Trailers.TellsOutcome (headers : Headers) : Outcome → Prop
  | .error status => Tells headers status.code status.message
  | .ok trailers => HoldsExactly headers.toList
      (Response.WithStatus fun name value => (name, value) ∈ trailers.toList)

/-- The last frame of a stream tells an outcome, in the envelopes that stand behind the messages or
in HTTP trailers. -/
def ResponseFrame.Ends (wire : WireFormat) (outcome : Outcome) (behind : List Envelope.Frame) :
    ResponseFrame → Prop
  | .data octets => wire.protocol = .connect ∧
      ∃ payload, behind = [⟨Flags.endStream, payload⟩] ∧
        octets = behind.flatMap Envelope.Frame.wrap ∧ wire.frames? octets = some behind ∧
          EndStream.Tells payload outcome
  | .trailers headers => wire.protocol = .grpc ∧ behind = [] ∧ Trailers.TellsOutcome headers outcome

/-- The last frame is short enough for the length field of an envelope, if it is one. -/
def ResponseFrame.LastFits (wire : WireFormat) (outcome : Outcome) : Prop :=
  wire.isEnveloped = true →
    ∀ octets, endOfStream wire outcome = .data octets → octets.length < wire.pieceBound

/-! ## What a response tells -/

namespace Response

/-- A streaming response with the payloads of some messages and an outcome. -/
def Streams (response : Response) (wire : WireFormat) (payloads : List Bytes) (outcome : Outcome) :
    Prop :=
  response.status = 200 ∧ response.headers = contentTyped wire.contentType ∧
    ∃ last behind, response.frames = payloads.map ResponseFrame.message ++ [last] ∧
      last.Ends wire outcome behind ∧
      wire.frames? (ResponseFrame.octetsOf response.frames) =
        some ((payloads.map fun payload => ⟨Flags.message, payload⟩) ++ behind)

/-- A response tells that its call failed. -/
def Fails (response : Response) (wire : WireFormat) (status : Status) : Prop :=
  match wire with
  | .connectUnary _ =>
    response.status = status.code.httpStatus ∧
      response.headers = contentTyped "application/json" ∧
      ∃ body, response.frames = [.data body] ∧
        (Json.parse? body).bind Status.ofJson? = some status
  | wire => response.Streams wire [] (.error status)

/-- A response gives the payload of one message, and trailers. -/
def Gives (response : Response) (wire : WireFormat) (payload : Bytes) (trailers : Headers) : Prop :=
  match wire with
  | .connectUnary codec =>
    response.status = 200 ∧ response.frames = [.data payload] ∧
      HoldsExactly response.headers.toList fun name value =>
        name = "content-type" ∧
            value = Bytes.ofAscii (WireFormat.connectUnary codec).contentType ∨
          ∃ own, name = "trailer-" ++ own ∧ (own, value) ∈ trailers.toList
  | wire => response.Streams wire [payload] (.ok trailers)

end Response

/-! ## The last frame -/

theorem holdsExactly_of_isReturned {trailers : Headers} (returned : Metadata.IsReturned trailers) :
    ∃ pairs, trailers = ⟨Headers.entriesOf pairs⟩ ∧
      HoldsExactly pairs (fun name value => (name, value) ∈ trailers.toList) ∧
      ∀ name value, (name, value) ∈ trailers.toList →
        HeaderName.isProtocol name = false ∧ HeaderName.IsWellFormed name := by
  obtain ⟨pairs, rfl, distinct, each⟩ := returned
  rw [Headers.toList_entriesOf]
  refine ⟨pairs, rfl, ⟨distinct, fun _ _ => Iff.rfl⟩, ?_⟩
  intro name value member
  obtain ⟨free, wellFormed, _⟩ := each (name, value) member
  exact ⟨free, wellFormed⟩

namespace EndStream

/-- What a trailer becomes in the metadata of the last frame. -/
def text? (pair : String × Bytes) : Option (String × List String) :=
  if HeaderName.isProtocol pair.1 then none
  else (HeaderValue.text? pair.2).map fun text => (pair.1, [text])

theorem metadata_entriesOf (pairs : List (String × Bytes)) :
    metadata ⟨Headers.entriesOf pairs⟩ = pairs.filterMap text? := by
  rw [metadata, Headers.entriesOf, List.filterMap_map]
  congr 1
  funext pair
  cases found : HeaderValue.text? pair.2 <;> simp [text?, found]

theorem text?_eq_some_iff {own : String} {value : Bytes} {name : String} {texts : List String}
    (free : HeaderName.isProtocol own = false) :
    text? (own, value) = some (name, texts) ↔
      own = name ∧ ∃ text, HeaderValue.text? value = some text ∧ texts = [text] := by
  rw [text?, if_neg (Bool.eq_false_iff.mp free), Option.map_eq_some_iff]
  constructor
  · intro ⟨text, isText, made⟩
    cases made
    exact ⟨rfl, text, isText, rfl⟩
  · intro ⟨sameName, text, isText, sameTexts⟩
    rw [sameName, sameTexts]
    exact ⟨text, isText, rfl⟩

theorem tells_toJson {outcome : Outcome}
    (returned : ∀ trailers, outcome = .ok trailers → Metadata.IsReturned trailers) :
    Tells (toJson outcome).encode outcome := by
  cases outcome with
  | error status => exact read?_error status
  | ok trailers =>
      obtain ⟨pairs, isPairs, holds, free⟩ := holdsExactly_of_isReturned (returned trailers rfl)
      obtain ⟨read, permuted, isRead⟩ := read?_ok trailers
      have becomes : ∀ {own value name texts}, (own, value) ∈ trailers.toList →
          (text? (own, value) = some (name, texts) ↔
            own = name ∧ ∃ text, HeaderValue.text? value = some text ∧ texts = [text]) :=
        fun member => text?_eq_some_iff (free _ _ member).1
      have picked := holds.filterMap text? (by
        intro pair other made otherMade member isMade otherMember isOtherMade same
        exact ((becomes member).mp isMade).1.trans
          (same.trans ((becomes otherMember).mp isOtherMade).1.symm))
      have told : metadata trailers = pairs.filterMap text? := by
        rw [isPairs, metadata_entriesOf]
      refine ⟨read, isRead, (picked.of_perm (told ▸ permuted)).congr ?_⟩
      intro name texts
      constructor
      · intro ⟨own, value, member, isMade⟩
        obtain ⟨rfl, text, isText, isTexts⟩ := (becomes member).mp isMade
        exact ⟨value, text, member, isText, isTexts⟩
      · intro ⟨value, text, member, isText, isTexts⟩
        exact ⟨name, value, member, (becomes member).mpr ⟨rfl, text, isText, isTexts⟩⟩

end EndStream

theorem Trailers.tellsOutcome_statusTrailers {outcome : Outcome}
    (returned : ∀ trailers, outcome = .ok trailers → Metadata.IsReturned trailers) :
    TellsOutcome (ResponseFrame.statusTrailers outcome) outcome := by
  cases outcome with
  | error status => exact tells_statusTrailers status
  | ok trailers =>
      obtain ⟨pairs, isPairs, holds, free⟩ := holdsExactly_of_isReturned (returned trailers rfl)
      obtain ⟨all, told, allHold⟩ :=
        Response.statusTrailers_ok holds fun name value member => (free name value member).1
      rw [← isPairs] at told
      rw [TellsOutcome, told, Headers.toList_entriesOf]
      exact allHold

namespace ResponseFrame

/-- The last frame of a Connect stream or of gRPC tells the outcome. -/
theorem endOfStream_ends {wire : WireFormat} (spoken : wire.protocol ≠ .grpcWeb)
    (enveloped : wire.isEnveloped = true) {outcome : Outcome}
    (returned : ∀ trailers, outcome = .ok trailers → Metadata.IsReturned trailers)
    (fits : LastFits wire outcome) :
    ∃ behind, (endOfStream wire outcome).Ends wire outcome behind ∧
      ∀ frame ∈ behind, frame.payload.length < Bytes.wordBound := by
  cases wire with
  | connectUnary codec => cases enveloped
  | grpcWeb codec => exact absurd rfl spoken
  | grpc codec =>
      refine ⟨[], ⟨rfl, rfl, Trailers.tellsOutcome_statusTrailers returned⟩, ?_⟩
      intro frame member
      cases member
  | connectStream codec =>
      let last : Envelope.Frame := ⟨Flags.endStream, (EndStream.toJson outcome).encode⟩
      have short : last.payload.length < Bytes.wordBound :=
        Response.length_lt_of_wrap_lt enveloped (fits enveloped _ rfl)
      have only : ∀ frame ∈ [last], frame.payload.length < Bytes.wordBound := by
        intro frame member
        rw [List.mem_singleton.mp member]
        exact short
      have isRead := WireFormat.frames?_written enveloped [last] only
      rw [List.flatMap_singleton] at isRead
      exact ⟨[last], ⟨rfl, _, rfl, (List.flatMap_singleton _ _).symm, isRead,
        EndStream.tells_toJson returned⟩, only⟩

end ResponseFrame

namespace Response

/-! ## Whole responses -/

theorem octetsOf_append (front rest : List ResponseFrame) :
    ResponseFrame.octetsOf (front ++ rest) =
      ResponseFrame.octetsOf front ++ ResponseFrame.octetsOf rest :=
  List.flatMap_append

theorem octetsOf_messages (payloads : List Bytes) :
    ResponseFrame.octetsOf (payloads.map ResponseFrame.message) =
      (payloads.map fun payload => (⟨Flags.message, payload⟩ : Envelope.Frame)).flatMap
        Envelope.Frame.wrap := by
  rw [ResponseFrame.octetsOf, List.flatMap_map, List.flatMap_map]
  rfl

theorem octetsOf_last {wire : WireFormat} {outcome : Outcome} {behind : List Envelope.Frame}
    {last : ResponseFrame} (ends : last.Ends wire outcome behind) :
    ResponseFrame.octetsOf [last] = behind.flatMap Envelope.Frame.wrap := by
  cases last with
  | data octets =>
      obtain ⟨_, payload, _, isWritten, _⟩ := ends
      rw [ResponseFrame.octetsOf, List.flatMap_singleton]
      exact isWritten
  | trailers headers =>
      obtain ⟨_, nothing, _⟩ := ends
      rw [nothing]
      rfl

/-- Messages and the last frame are read one behind the other. -/
theorem streams_streamHead {wire : WireFormat} (spoken : wire.protocol ≠ .grpcWeb)
    (enveloped : wire.isEnveloped = true) {outcome : Outcome}
    (returned : ∀ trailers, outcome = .ok trailers → Metadata.IsReturned trailers)
    (fits : ResponseFrame.LastFits wire outcome) {payloads : List Bytes}
    (short : ∀ payload ∈ payloads, payload.length < Bytes.wordBound) :
    (streamHead wire (payloads.map ResponseFrame.message ++
      [.endOfStream wire outcome])).Streams wire payloads outcome := by
  obtain ⟨behind, ends, shortBehind⟩ :=
    ResponseFrame.endOfStream_ends spoken enveloped returned fits
  refine ⟨rfl, rfl, _, behind, rfl, ends, ?_⟩
  have all : ∀ frame ∈ (payloads.map fun payload => (⟨Flags.message, payload⟩ : Envelope.Frame)) ++
      behind, frame.payload.length < Bytes.wordBound := by
    intro frame member
    rcases List.mem_append.mp member with inMessages | inBehind
    · obtain ⟨payload, isPayload, rfl⟩ := List.mem_map.mp inMessages
      exact short payload isPayload
    · exact shortBehind frame inBehind
  have isRead := WireFormat.frames?_written enveloped _ all
  rw [List.flatMap_append, ← octetsOf_messages, ← octetsOf_last ends, ← octetsOf_append] at isRead
  exact isRead

theorem gives_connectUnary {trailers : Headers} (returned : Metadata.IsReturned trailers)
    (short : ∀ name ∈ trailers.names, (Utf8.encode name).length ≤ 65527) (codec : Codec)
    (payload : Bytes) :
    (ofPayload (.connectUnary codec) (.ok (payload, trailers))).Gives (.connectUnary codec) payload
      trailers := by
  obtain ⟨pairs, isPairs, holds, free⟩ := holdsExactly_of_isReturned returned
  have told := holdsExactly_withTrailers holds (fun name value member => (free name value member).2)
    codec
  rw [← isPairs] at told
  refine ⟨rfl, rfl, told.congr fun name value => or_congr Iff.rfl ?_⟩
  constructor
  · intro ⟨_, _, own, isName, member⟩
    exact ⟨own, isName, member⟩
  · intro ⟨own, isName, member⟩
    have shortOwn : (Utf8.encode own).length ≤ 65527 := by
      obtain ⟨entry, inEntries, isPair⟩ := List.mem_flatMap.mp member
      obtain ⟨_, _, same⟩ := List.mem_map.mp isPair
      cases same
      exact short _ (List.mem_map_of_mem inEntries)
    have opening : (Utf8.encode "trailer-").length = 8 := by decide
    refine ⟨rfl, ?_, own, isName, member⟩
    rw [isName, Utf8.encode_append, List.length_append, opening, HeaderName.maxLength]
    omega

variable {ο : Type} [Payload ο]

theorem unary_error_fails {wire : WireFormat} (spoken : wire.protocol ≠ .grpcWeb) {status : Status}
    (fits : ResponseFrame.LastFits wire (.error status)) :
    (unary wire (.error status : Except Status (Reply ο))).Fails wire status := by
  have returned : ∀ trailers, (.error status : Outcome) = .ok trailers →
      Metadata.IsReturned trailers := by
    intro trailers impossible
    cases impossible
  have noPayload : ∀ payload ∈ ([] : List Bytes), payload.length < Bytes.wordBound := by
    intro payload member
    cases member
  cases wire with
  | connectUnary codec => exact ⟨rfl, rfl, _, rfl, status.parse?_encode_toJson⟩
  | grpcWeb codec => exact absurd rfl spoken
  | connectStream codec | grpc codec => exact streams_streamHead spoken rfl returned fits noPayload

theorem unary_ok_gives {wire : WireFormat} (spoken : wire.protocol ≠ .grpcWeb) {reply : Reply ο}
    {payload : Bytes} (encoded : Payload.encode wire.codec reply.message = .ok payload)
    (returned : Metadata.IsReturned reply.trailers)
    (shortNames : ∀ name ∈ reply.trailers.names, (Utf8.encode name).length ≤ 65527)
    (short : payload.length < Bytes.wordBound)
    (fits : ResponseFrame.LastFits wire (.ok reply.trailers)) :
    (unary wire (.ok reply)).Gives wire payload reply.trailers := by
  have isReturned : ∀ trailers, (.ok reply.trailers : Outcome) = .ok trailers →
      Metadata.IsReturned trailers := by
    intro trailers same
    cases same
    exact returned
  have onePayload : ∀ other ∈ [payload], other.length < Bytes.wordBound := by
    intro other member
    rw [List.mem_singleton.mp member]
    exact short
  rw [unary_of_encode encoded]
  cases wire with
  | connectUnary codec => exact gives_connectUnary returned shortNames codec payload
  | grpcWeb codec => exact absurd rfl spoken
  | connectStream codec | grpc codec =>
      exact streams_streamHead spoken rfl isReturned fits onePayload

/-- A message that cannot be written makes the call fail. -/
theorem unary_unwritable {wire : WireFormat} {reply : Reply ο} {status : Status}
    (refused : Payload.encode wire.codec reply.message = .error status) :
    unary wire (.ok reply) = unary wire (.error status : Except Status (Reply ο)) := by
  simp [unary, Except.bind, Except.map, refused]

/-- The outcome of a call survives Connect and gRPC. A failure tells exactly its code and message,
also when it is the reply that cannot be written. A success gives one payload, which is read as the
message, and exactly the trailers, but for those in Connect streams that are no texts. The last
frame of a stream tells its outcome whatever came before it. -/
theorem outcome_survives [Api.Lossless ο] (wire : WireFormat) (spoken : wire.protocol ≠ .grpcWeb) :
    (∀ status, ResponseFrame.LastFits wire (.error status) →
      (unary wire (.error status : Except Status (Reply ο))).Fails wire status) ∧
    (∀ (reply : Reply ο) (status : Status),
      Payload.encode wire.codec reply.message = .error status →
        ResponseFrame.LastFits wire (.error status) →
          (unary wire (.ok reply)).Fails wire status) ∧
    (∀ (message : ο) (metadata : Metadata) (payload : Bytes), Api.Lossless.IsValue message →
      Payload.encode wire.codec message = .ok payload → payload.length < Bytes.wordBound →
        (∀ name ∈ metadata.trailers.names, (Utf8.encode name).length ≤ 65527) →
          ResponseFrame.LastFits wire (.ok metadata.trailers) →
            (∃ read, Payload.decode wire.codec payload = .ok read ∧
              Api.Lossless.Same read message) ∧
            (unary wire (.ok ⟨message, metadata.trailers⟩)).Gives wire payload
              metadata.trailers) ∧
    (wire.isEnveloped = true → ∀ outcome : Outcome,
      (∀ trailers, outcome = .ok trailers → ∃ metadata : Metadata, trailers = metadata.trailers) →
        ResponseFrame.LastFits wire outcome →
          ∃ behind, (ResponseFrame.endOfStream wire outcome).Ends wire outcome behind) := by
  refine ⟨?_, ?_, ?_, ?_⟩
  · intro status fits
    exact unary_error_fails spoken fits
  · intro reply status refused fits
    rw [unary_unwritable refused]
    exact unary_error_fails spoken fits
  · intro message metadata payload isValue encoded short shortNames fits
    have inBounds : payload.length < Proto.Varint.bound := Nat.lt_trans short (by decide)
    exact ⟨Api.Lossless.decode_encode isValue encoded inBounds,
      unary_ok_gives spoken encoded metadata.isReturned_trailers shortNames short fits⟩
  · intro enveloped outcome made fits
    have returned : ∀ trailers, outcome = .ok trailers → Metadata.IsReturned trailers := by
      intro trailers same
      obtain ⟨metadata, rfl⟩ := made trailers same
      exact metadata.isReturned_trailers
    obtain ⟨behind, ends, _⟩ := ResponseFrame.endOfStream_ends spoken enveloped returned fits
    exact ⟨behind, ends⟩

theorem outcome_survives_notFound :
    let status := Status.of .notFound "no \"key\": 100 % é"
    (WireFormat.grpc .proto).protocol ≠ .grpcWeb ∧
      ResponseFrame.LastFits (.grpc .proto) (.error status) ∧
      (unary (.grpc .proto) (.error status : Except Status (Reply Api.EchoResponse))).Fails
        (.grpc .proto) status := by
  have spoken : (WireFormat.grpc .proto).protocol ≠ .grpcWeb := by decide
  have fits : ResponseFrame.LastFits (.grpc .proto)
      (.error (Status.of .notFound "no \"key\": 100 % é")) := by
    intro _ octets impossible
    cases impossible
  exact ⟨spoken, fits,
    (@outcome_survives Api.EchoResponse _ _ (.grpc .proto) spoken).1 _ fits⟩

/-! ## What does not survive -/

theorem length_le_flatMap {α β : Type} {spell : α → List β} (nonempty : ∀ a, spell a ≠ [])
    (list : List α) : list.length ≤ (list.flatMap spell).length := by
  induction list with
  | nil => exact Nat.zero_le _
  | cons a rest inductionHypothesis =>
      have positive := List.length_pos_iff.mpr (nonempty a)
      rw [List.flatMap_cons, List.length_append, List.length_cons]
      omega

theorem length_le_encode_error (code : Code) (message : String) :
    message.toList.length ≤ (EndStream.toJson (.error ⟨code, some message⟩)).encode.length := by
  have nonempty : ∀ c, String.utf8EncodeChar c ≠ [] := fun _ => String.utf8EncodeChar_ne_nil
  have escaped : ∀ c, Json.escape c ≠ [] := by
    intro c
    unfold Json.escape
    repeat' split
    all_goals exact List.cons_ne_nil _ _
  have spelled : message.toList.length ≤
      (EndStream.toJson (.error ⟨code, some message⟩)).spell.length := by
    have inside := length_le_flatMap escaped message.toList
    simp only [EndStream.toJson_error, Status.toJson_eq, Json.spell, Json.spellMembers,
      Option.toList_some, List.map_cons, List.map_nil, Json.ofText, Option.getD_some,
      Json.spellText, List.length_cons, List.length_append]
    omega
  rw [Json.encode_eq_octetsOf]
  exact Nat.le_trans spelled (length_le_flatMap nonempty _)

/-- In a Connect stream a trailer that is no text is lost, and a message of `2 ^ 32` letters is not
read back. -/
theorem exists_outcome_altered :
    (∃ (metadata : Metadata) (octets payload : Bytes),
      metadata.trailers.toList = [("x-d", Utf8.encode "é")] ∧
        ResponseFrame.endOfStream (.connectStream .json) (.ok metadata.trailers) = .data octets ∧
          (WireFormat.connectStream .json).frames? octets = some [⟨Flags.endStream, payload⟩] ∧
            EndStream.read? payload = some ⟨none, []⟩) ∧
      ∃ (status : Status) (octets : Bytes),
        ResponseFrame.endOfStream (.connectStream .json) (.error status) = .data octets ∧
          ∀ frame, (WireFormat.connectStream .json).frames? octets ≠ some [frame] := by
  constructor
  · let metadata : Metadata := [("x-d", "é")]
    have noTexts : EndStream.metadata metadata.trailers = [] := by decide
    have object : EndStream.toJson (.ok metadata.trailers) = .object [] := by
      rw [EndStream.toJson_ok, noTexts]
      rfl
    have payload : (EndStream.toJson (.ok metadata.trailers)).encode = Utf8.encode "\x7b\x7d" := by
      rw [object]
      decide
    obtain ⟨read, permuted, isRead⟩ := EndStream.read?_ok metadata.trailers
    rw [noTexts] at permuted
    rw [permuted.eq_nil, payload] at isRead
    refine ⟨metadata, _, Utf8.encode "\x7b\x7d", by decide, rfl, ?_, isRead⟩
    have written : (WireFormat.connectStream .json).frames? _ =
        some [⟨Flags.endStream, Utf8.encode "\x7b\x7d"⟩] :=
      WireFormat.frames?_written rfl _ (by decide)
    rw [payload]
    rw [List.flatMap_singleton] at written
    exact written
  · refine ⟨⟨.internal, some (String.ofList (List.replicate Bytes.wordBound 'a'))⟩, _, rfl, ?_⟩
    intro frame isRead
    -- The payload is as long as the message, but the one frame has a payload that fits.
    have long := length_le_encode_error .internal
      (String.ofList (List.replicate Bytes.wordBound 'a'))
    rw [String.toList_ofList, List.length_replicate] at long
    obtain ⟨shape, bounded⟩ := WireFormat.eq_flatMap_of_frames? rfl isRead
    have lengths := congrArg List.length shape
    rw [List.flatMap_singleton, Envelope.Frame.wrap, Envelope.length_wrap, Envelope.length_wrap]
      at lengths
    have short := bounded frame List.mem_cons_self
    omega

end Response

end RpcEcho
