import RpcEcho.Call.Transcript
import RpcEcho.Proofs.Response.EndStream
import RpcEcho.Proofs.Trailers.Status

/-!
# What a failure looks like

In each format a caller can tell a failure from a success. Without envelopes the HTTP status is one
of an error. In a Connect stream the last frame holds an error object. In gRPC the number of the
trailers is not zero, and in gRPC-Web neither is that of the block of lines.
-/

namespace RpcEcho

/-- The number of a status in trailers is not that of success. -/
def Trailers.TellFailure (trailers : Headers) : Prop :=
  ∃ number, 0 < number ∧ trailers.values statusName = [Bytes.ofAscii number.repr]

/-- The last frame of a response tells a failure: by an error object, or by its number in HTTP
trailers or in a block of lines. -/
def ResponseFrame.TellsFailure (frame : ResponseFrame) (wire : WireFormat) (status : Status) :
    Prop :=
  match wire with
  | .connectUnary _ | .connectStream _ =>
    ∃ payload, frame = .data (Envelope.wrap payload Flags.endStream) ∧
      EndStream.read? payload = some ⟨some status, []⟩
  | .grpc _ => ∃ trailers, frame = .trailers trailers ∧ Trailers.TellFailure trailers
  | .grpcWeb _ =>
    ∃ block, frame = .data (Envelope.wrap block Flags.trailers) ∧
      Trailers.TellFailure (Trailers.ofBlock block)

/-- What a caller sees tells a failure. Without envelopes the HTTP status does, and the body is the
error object; else the last frame does. -/
def Transcript.TellsFailure (transcript : Transcript) (wire : WireFormat) (status : Status) :
    Prop :=
  match wire with
  | .connectUnary _ =>
    400 ≤ transcript.status ∧
      ∃ body, transcript.frames.map Prod.fst = [.data body] ∧
        (Json.parse? body).bind Status.ofJson? = some status
  | wire =>
    ∃ last, (transcript.frames.map Prod.fst).getLast? = some last ∧ last.TellsFailure wire status

theorem Code.number_pos {code : Code} (notOk : code ≠ .ok) : 0 < code.number := by
  cases code <;> first | exact absurd rfl notOk | decide

theorem Code.httpStatus_ge {code : Code} (notOk : code ≠ .ok) : 400 ≤ code.httpStatus := by
  cases code <;> first | exact absurd rfl notOk | decide

theorem Trailers.Tells.tellFailure {trailers : Headers} {code : Code} {message : Option String}
    (tells : Tells trailers code message) (notOk : code ≠ .ok) : TellFailure trailers :=
  ⟨code.number, Code.number_pos notOk, tells.code⟩

theorem ResponseFrame.tellsFailure_endOfStream {status : Status} (notOk : status.code ≠ .ok)
    (wire : WireFormat) : (endOfStream wire (.error status)).TellsFailure wire status := by
  cases wire with
  | connectUnary codec | connectStream codec => exact ⟨_, rfl, EndStream.read?_error status⟩
  | grpc codec => exact ⟨_, rfl, (Trailers.tells_statusTrailers status).tellFailure notOk⟩
  | grpcWeb codec =>
      exact ⟨_, rfl, (Trailers.tells_ofBlock_statusBlock status).tellFailure notOk⟩

theorem Transcript.tellsFailure_ofPayload {status : Status} (notOk : status.code ≠ .ok)
    (wire : WireFormat) (readyAt : Nat) :
    (ofResponse (Response.ofPayload wire (.error status)) readyAt).TellsFailure wire status := by
  have last := ResponseFrame.tellsFailure_endOfStream notOk wire
  cases wire with
  | connectUnary codec =>
      exact ⟨Code.httpStatus_ge notOk, _, rfl, status.parse?_encode_toJson⟩
  | connectStream codec | grpc codec | grpcWeb codec => exact ⟨_, rfl, last⟩

end RpcEcho
