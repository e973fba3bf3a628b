import RpcEcho.Api.Catalog
import RpcEcho.WireFormat

/-!
# The services

The four services and their methods: names, kinds, and the types of the messages they exchange.
-/

namespace RpcEcho.Api

/-- The services. -/
inductive Service where
  | echo
  | health
  | reflection
  /-- Reflection under the name of its first version. -/
  | reflectionAlpha
  deriving DecidableEq, Repr

/-- The methods. -/
inductive Method where
  | echo
  | echoWithDelay
  | echoError
  | serverStream
  | clientStream
  | bidirectionalStream
  | check
  | watch
  | reflectionInfo
  deriving DecidableEq, Repr

namespace Method

/-- The name of a method in its service. -/
def name : Method → String
  | echo => "Echo"
  | echoWithDelay => "EchoWithDelay"
  | echoError => "EchoError"
  | serverStream => "ServerStream"
  | clientStream => "ClientStream"
  | bidirectionalStream => "BidirectionalStream"
  | check => "Check"
  | watch => "Watch"
  | reflectionInfo => "ServerReflectionInfo"

/-- How many messages a method takes and gives. -/
def kind : Method → MethodKind
  | echo | echoWithDelay | echoError | check => .unary
  | serverStream | watch => .serverStreaming
  | clientStream => .clientStreaming
  | bidirectionalStream | reflectionInfo => .bidiStreaming

/-- The type of the messages that a method takes. -/
def input : Method → MessageType
  | echo | clientStream | bidirectionalStream => .echoRequest
  | echoWithDelay => .echoWithDelayRequest
  | echoError => .echoErrorRequest
  | serverStream => .serverStreamRequest
  | check | watch => .healthCheckRequest
  | reflectionInfo => .serverReflectionRequest

/-- The type of the messages that a method gives. -/
def output : Method → MessageType
  | echo | echoWithDelay | echoError | serverStream | clientStream | bidirectionalStream =>
    .echoResponse
  | check | watch => .healthCheckResponse
  | reflectionInfo => .serverReflectionResponse

end Method

namespace Service

/-- The package of a service. -/
def package : Service → String
  | echo => "echo.v1"
  | health => "grpc.health.v1"
  | reflection => "grpc.reflection.v1"
  | reflectionAlpha => "grpc.reflection.v1alpha"

/-- The name of a service in its package. -/
def shortName : Service → String
  | echo => "Echo"
  | health => "Health"
  | reflection | reflectionAlpha => "ServerReflection"

/-- The full name of a service. -/
def name (service : Service) : String := service.package ++ "." ++ service.shortName

/-- The methods of a service, in the order in which its file lists them. -/
def methods : Service → List Method
  | echo =>
    [.echo, .echoWithDelay, .echoError, .serverStream, .clientStream, .bidirectionalStream]
  | health => [.check, .watch]
  | reflection | reflectionAlpha => [.reflectionInfo]

/-- The method of a name. -/
def method? (service : Service) (name : String) : Option Method :=
  service.methods.find? fun method => method.name == name

end Service

end RpcEcho.Api
