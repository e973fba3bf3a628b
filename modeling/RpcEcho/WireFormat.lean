import RpcEcho.Header.Map
import RpcEcho.Header.Metadata
import RpcEcho.Text.Blank
import RpcEcho.Text.Part

/-!
# Protocols and wire formats

Which protocol a request speaks and in which format its messages travel is told by its content
type. Two readings exist: the admission filter looks for the mark of a protocol anywhere in the
content type, and the call itself matches the media type exactly.

* `Protocol.classify`: the mark that a content type carries.
* `WireFormat.ofContentType?`: the format that a media type names.
* `MethodKind.accepts`: which kinds of methods a format serves.
-/

namespace RpcEcho

/-- The protocols that the server speaks. -/
inductive Protocol where
  | connect
  | grpc
  | grpcWeb
  deriving DecidableEq, Repr

namespace Protocol

/-- The name of a protocol. -/
def name : Protocol → String
  | connect => "Connect"
  | grpc => "gRPC"
  | grpcWeb => "gRPC-Web"

/-- The protocol whose mark stands in a content type. -/
def classify (contentType : String) : Option Protocol :=
  if Text.occursIn "application/grpc-web" contentType then some grpcWeb
  else if Text.occursIn "application/grpc" contentType then some grpc
  else if Text.occursIn "application/connect+" contentType
      || contentType == "application/json" || contentType == "application/proto"
      || contentType.startsWith "application/json;" || contentType.startsWith "application/proto;"
    then some connect
  else none

/-- The protocol of a request, by the first value of its content type. -/
def ofHeaders? (headers : Headers) : Option Protocol :=
  (headers.firstText? "content-type").bind classify

end Protocol

/-- How a message is written. -/
inductive Codec where
  | json
  | proto
  deriving DecidableEq, Repr

/-- How the messages of a call are framed, and how each is written. -/
inductive WireFormat where
  /-- One message is the whole body. -/
  | connectUnary (codec : Codec)
  /-- Envelopes, the last of which holds the status as JSON. -/
  | connectStream (codec : Codec)
  /-- Envelopes, with the status in HTTP trailers. -/
  | grpc (codec : Codec)
  /-- Envelopes, the last of which holds trailers. -/
  | grpcWeb (codec : Codec)
  deriving DecidableEq, Repr

namespace WireFormat

/-- How a message is written in the format. -/
def codec : WireFormat → Codec
  | connectUnary codec | connectStream codec | grpc codec | grpcWeb codec => codec

/-- The protocol that the format belongs to. -/
def protocol : WireFormat → Protocol
  | connectUnary _ | connectStream _ => .connect
  | grpc _ => .grpc
  | grpcWeb _ => .grpcWeb

/-- Whether messages stand in envelopes. -/
def isEnveloped : WireFormat → Bool
  | connectUnary _ => false
  | connectStream _ | grpc _ | grpcWeb _ => true

/-- The content type of replies in the format. -/
def contentType : WireFormat → String
  | connectUnary .json => "application/json"
  | connectUnary .proto => "application/proto"
  | connectStream .json => "application/connect+json"
  | connectStream .proto => "application/connect+proto"
  | grpc .json => "application/grpc+json"
  | grpc .proto => "application/grpc"
  | grpcWeb .json => "application/grpc-web+json"
  | grpcWeb .proto => "application/grpc-web+proto"

/-- The media types that requests may carry, in the order in which they are advertised. -/
def mediaTypes : List (String × WireFormat) :=
  [("application/json", connectUnary .json),
    ("application/proto", connectUnary .proto),
    ("application/connect+json", connectStream .json),
    ("application/connect+proto", connectStream .proto),
    ("application/grpc", grpc .proto),
    ("application/grpc+proto", grpc .proto),
    ("application/grpc+json", grpc .json),
    ("application/grpc-web", grpcWeb .proto),
    ("application/grpc-web+proto", grpcWeb .proto),
    ("application/grpc-web+json", grpcWeb .json)]

/-- The media type of a content type: what stands before the first semicolon, without white space
around it and in small letters. -/
def mediaType (contentType : String) : String :=
  HeaderName.fold
    (String.ofList (Text.trimChars (contentType.toList.takeWhile fun c => c != ';')))

/-- The format that a content type names. -/
def ofContentType? (contentType : String) : Option WireFormat :=
  mediaTypes.lookup (mediaType contentType)

/-- The format of a request, by the first value of its content type. -/
def ofHeaders? (headers : Headers) : Option WireFormat :=
  (headers.firstText? "content-type").bind ofContentType?

end WireFormat

/-- How many messages a method takes and gives. -/
inductive MethodKind where
  | unary
  | serverStreaming
  | clientStreaming
  | bidiStreaming
  deriving DecidableEq, Repr

namespace MethodKind

/-- All kinds of methods. -/
def all : List MethodKind := [unary, serverStreaming, clientStreaming, bidiStreaming]

/-- Whether a method takes exactly one message. -/
def takesOne : MethodKind → Bool
  | unary | serverStreaming => true
  | clientStreaming | bidiStreaming => false

/-- Whether methods of the kind can be called in a format. -/
def accepts (kind : MethodKind) : WireFormat → Bool
  | .connectUnary _ => kind = unary
  | .connectStream _ => kind ≠ unary
  | .grpc _ | .grpcWeb _ => true

end MethodKind

end RpcEcho
