import RpcEcho.Trailers
import RpcEcho.WireFormat
import RpcEcho.Header.Metadata
import RpcEcho.Status.Json
import RpcEcho.Api.Codec

/-!
# Frames of responses

The body of a response is a sequence of frames: octets, or HTTP trailers at the end.

* `ResponseFrame.message`: the frame of a message.
* `ResponseFrame.endOfStream`: the last frame, which tells how the call ended.
-/

namespace RpcEcho

/-- A frame of a response body. -/
inductive ResponseFrame where
  | data (octets : Bytes)
  | trailers (headers : Headers)
  deriving DecidableEq, Repr

/-- How a call ended: well, with trailers, or badly. -/
abbrev Outcome := Except Status Headers

namespace EndStream

/-- Trailers as the metadata of an end-of-stream object: the texts of every name that no protocol
owns. -/
def metadata (trailers : Headers) : List (String × List String) :=
  trailers.entries.filterMap fun entry =>
    let texts := entry.2.filterMap HeaderValue.text?
    if HeaderName.isProtocol entry.1 || texts.isEmpty then none else some (entry.1, texts)

/-- The end-of-stream object of an outcome: the error, or the metadata unless there is none. -/
def toJson : Outcome → Json
  | .error status => Json.ofMembers [("error", status.toJson)]
  | .ok trailers =>
    let metadata := metadata trailers
    if metadata.isEmpty then Json.ofMembers []
    else Json.ofMembers [("metadata", Json.ofMembers (metadata.map fun entry =>
      (entry.1, .array (entry.2.map Json.ofText))))]

end EndStream

namespace ResponseFrame

/-- The frame of the payload of a message. -/
def message (payload : Bytes) : ResponseFrame := .data (Envelope.wrap payload Flags.message)

/-- The status trailers of an outcome. Trailers of the application go with success only. -/
def statusTrailers : Outcome → Headers
  | .ok extra => Trailers.ofOutcome none extra
  | .error status => Trailers.ofOutcome (some status) Headers.empty

/-- The last frame of an enveloped response. -/
def endOfStream (wire : WireFormat) (outcome : Outcome) : ResponseFrame :=
  match wire with
  | .connectUnary _ | .connectStream _ =>
    .data (Envelope.wrap (EndStream.toJson outcome).encode Flags.endStream)
  | .grpc _ => .trailers (statusTrailers outcome)
  | .grpcWeb _ => .data (Trailers.frame (statusTrailers outcome))

end ResponseFrame

end RpcEcho
