import RpcEcho.Api.Message
import RpcEcho.Proofs.Response.Unary

/-!
# Where the message of an enveloped response ends

The body of an enveloped response is the envelope of its message and, but for gRPC, the envelope
that tells how the call ended. The only thing that says where the first ends and the second begins
is the length field, which holds the length of the payload modulo `2 ^ 32`.

* `octetsOf_message_last`: the body, as envelopes;
* `delimits_message_last_iff`: the body can be read back exactly if each length fits its field;
* `unary_delimits_iff`: the same of a whole response, and what is read at every length.
-/

namespace RpcEcho

/-! ## The envelopes of a body -/

/-- The envelopes that tell in a body how a call ended. In gRPC it is told in HTTP trailers. -/
def WireFormat.lastEnvelopes (wire : WireFormat) (outcome : Outcome) : List Envelope.Frame :=
  match wire with
  | .connectUnary _ | .connectStream _ => [⟨Flags.endStream, (EndStream.toJson outcome).encode⟩]
  | .grpc _ => []
  | .grpcWeb _ => [⟨Flags.trailers, Trailers.block (ResponseFrame.statusTrailers outcome)⟩]

/-- A body tells by itself where its message ends. The header in front announces the length of the
payload, and whoever reads without a limit finds the payload and what stands behind it. -/
structure WireFormat.Delimits (wire : WireFormat) (payload : Bytes)
    (behind : List Envelope.Frame) (body : Bytes) : Prop where
  announced : ∃ rest,
    Envelope.header? body = some (Flags.message, payload.length, payload ++ rest)
  frames : wire.frames? body = some (⟨Flags.message, payload⟩ :: behind)

namespace ResponseFrame

variable (wire : WireFormat) (payload : Bytes) (outcome : Outcome)

theorem octetsOf_message_last :
    octetsOf [.message payload, .endOfStream wire outcome] =
      Envelope.wrap payload Flags.message ++
        (wire.lastEnvelopes outcome).flatMap Envelope.Frame.wrap := by
  cases wire <;> rfl

variable {wire}

theorem delimits_message_last_iff (enveloped : wire.isEnveloped = true) :
    wire.Delimits payload (wire.lastEnvelopes outcome)
        (octetsOf [.message payload, .endOfStream wire outcome]) ↔
      payload.length < Bytes.wordBound ∧
        ∀ frame ∈ wire.lastEnvelopes outcome, frame.payload.length < Bytes.wordBound := by
  constructor
  · -- No frame that is read is too long, so none of these is.
    intro delimited
    obtain ⟨_, short⟩ := WireFormat.eq_flatMap_of_frames? enveloped delimited.frames
    exact ⟨short _ List.mem_cons_self, fun frame behind => short frame (.tail _ behind)⟩
  · rintro ⟨short, shortBehind⟩
    constructor
    · rw [octetsOf_message_last, Envelope.header?_wrap_append, Nat.mod_eq_of_lt short]
      exact ⟨_, rfl⟩
    · rw [octetsOf_message_last]
      exact WireFormat.frames?_written enveloped (⟨Flags.message, payload⟩ :: _)
        (List.forall_mem_cons.mpr ⟨short, shortBehind⟩)

end ResponseFrame

/-! ## Whole responses -/

namespace Response

variable {ο : Type} [Payload ο] {wire : WireFormat} {reply : Reply ο} {payload : Bytes}

theorem unary_of_enveloped (enveloped : wire.isEnveloped = true)
    (encoded : Payload.encode wire.codec reply.message = .ok payload) :
    unary wire (.ok reply) =
      streamHead wire [.message payload, .endOfStream wire (.ok reply.trailers)] := by
  rw [unary_of_encode encoded]
  cases wire with
  | connectUnary codec => cases enveloped
  | connectStream codec | grpc codec | grpcWeb codec => rfl

/-- In a format with envelopes, the header in front of a reply announces the length of its payload
modulo `2 ^ 32`. A reader without a limit takes so many octets of the payload as the message, and
reads on behind them. So the body tells where its message ends exactly if the payload is shorter
than `2 ^ 32` octets and so is what tells the end of the call. -/
theorem unary_delimits_iff (enveloped : wire.isEnveloped = true)
    (encoded : Payload.encode wire.codec reply.message = .ok payload) :
    let body := ResponseFrame.octetsOf (unary wire (.ok reply)).frames
    let behind := wire.lastEnvelopes (.ok reply.trailers)
    let announced := payload.length % Bytes.wordBound
    Envelope.header? body =
        some (Flags.message, announced, payload ++ behind.flatMap Envelope.Frame.wrap) ∧
      (Envelope.Decoder.unlimited body).next =
        .ok (some ⟨Flags.message, payload.take announced⟩,
          .unlimited (payload.drop announced ++ behind.flatMap Envelope.Frame.wrap)) ∧
      (wire.Delimits payload behind body ↔
        payload.length < Bytes.wordBound ∧
          ∀ frame ∈ behind, frame.payload.length < Bytes.wordBound) := by
  intro body behind announced
  have frames : (unary wire (.ok reply)).frames =
      [.message payload, .endOfStream wire (.ok reply.trailers)] :=
    congrArg Response.frames (unary_of_enveloped enveloped encoded)
  have whole : body = ResponseFrame.octetsOf
      [.message payload, .endOfStream wire (.ok reply.trailers)] :=
    congrArg ResponseFrame.octetsOf frames
  refine ⟨?_, ?_, ?_⟩
  · rw [whole, ResponseFrame.octetsOf_message_last]
    exact Envelope.header?_wrap_append payload Flags.message _
  · rw [whole, ResponseFrame.octetsOf_message_last]
    exact Envelope.Decoder.next_unlimited_wrap payload Flags.message _
  · rw [whole]
    exact ResponseFrame.delimits_message_last_iff payload _ enveloped

/-- A message and a trailer by gRPC-Web. -/
def taggedReply : Reply Api.EchoResponse where
  message := ⟨"a", []⟩
  trailers := Headers.ofList [("x-tag", Bytes.ofAscii "b")]

theorem unary_delimits_taggedReply :
    (WireFormat.grpcWeb .proto).Delimits [10, 1, 97]
      [⟨Flags.trailers, Bytes.ofAscii "x-tag: b\r\ngrpc-status: 0\r\n"⟩]
      (ResponseFrame.octetsOf (unary (.grpcWeb .proto) (.ok taggedReply)).frames) := by
  have encoded : Payload.encode (WireFormat.grpcWeb .proto).codec taggedReply.message =
      .ok [10, 1, 97] := by
    have written : Proto.Binary.encode Api.catalog .echoResponse
        (Payload.toMessage taggedReply.message) = [10, 1, 97] := by decide +kernel
    exact congrArg Except.ok written
  have last : (WireFormat.grpcWeb .proto).lastEnvelopes (.ok taggedReply.trailers) =
      [⟨Flags.trailers, Bytes.ofAscii "x-tag: b\r\ngrpc-status: 0\r\n"⟩] := by decide
  have delimited := (unary_delimits_iff rfl encoded).2.2
  rw [last] at delimited
  exact delimited.mpr ⟨by decide, by decide⟩

end Response

end RpcEcho
