import RpcEcho.Response.Frame

/-!
# Responses

A response with all of its body at hand.

* `Response.unary`: the response of a call that gives one message or fails.
* `Response.streamHead`: what stands before the frames of a streaming call.
* `Response.rejection`: a refusal before a call begins.
-/

namespace RpcEcho

/-- A response: HTTP status, headers, and the frames of the body. -/
structure Response where
  status : Nat
  headers : Headers
  frames : List ResponseFrame
  deriving DecidableEq, Repr

/-- A message and the trailers that go with it. -/
structure Reply (ο : Type) where
  message : ο
  trailers : Headers := Headers.empty
  deriving DecidableEq, Repr

namespace Response

/-- The headers that name a content type. -/
def contentTyped (contentType : String) : Headers :=
  Headers.empty.insert "content-type" (Bytes.ofAscii contentType)

/-- The response of a unary call without envelopes that failed. -/
def failure (status : Status) : Response where
  status := status.code.httpStatus
  headers := contentTyped "application/json"
  frames := [.data status.toJson.encode]

/-- Trailers among the headers of a response, under names that say so. A name that would be too
long is left out. -/
def withTrailers (headers trailers : Headers) : Headers :=
  trailers.toList.foldl
    (fun headers entry =>
      match HeaderName.parse? (Utf8.encode ("trailer-" ++ entry.1)) with
      | some name => headers.append name entry.2
      | none => headers)
    headers

/-- What stands before the frames of a call in a format. -/
def streamHead (wire : WireFormat) (frames : List ResponseFrame) : Response where
  status := 200
  headers := contentTyped wire.contentType
  frames := frames

/-- The response of a call that gives one payload, with trailers, or fails. -/
def ofPayload (wire : WireFormat) (result : Except Status (Bytes × Headers)) : Response :=
  match wire, result with
  | .connectUnary _, .ok (payload, trailers) =>
    let head := streamHead wire [.data payload]
    { head with headers := withTrailers head.headers trailers }
  | .connectUnary _, .error status => failure status
  | wire, .ok (payload, trailers) =>
    streamHead wire [.message payload, .endOfStream wire (.ok trailers)]
  | wire, .error status => streamHead wire [.endOfStream wire (.error status)]

/-- The response of a call that gives one message or fails. -/
def unary {ο : Type} [Payload ο] (wire : WireFormat) (result : Except Status (Reply ο)) :
    Response :=
  ofPayload wire (result.bind fun reply =>
    (Payload.encode wire.codec reply.message).map fun payload => (payload, reply.trailers))

/-- A refusal, with its reason as text. -/
def rejection (status : Nat) (reason : String) : Response where
  status := status
  headers := contentTyped "text/plain; charset=utf-8"
  frames := [.data (Utf8.encode reason)]

/-- A response without headers and without a body. -/
def bare (status : Nat) : Response := ⟨status, Headers.empty, []⟩

end Response

end RpcEcho
