import RpcEcho.Proto.Schema

/-!
# The messages of the services

The types of the messages that the echo, health and reflection services exchange, and their fields.
The two versions of the reflection service share their messages.
-/

namespace RpcEcho.Api

open Proto

/-- The message types. -/
inductive MessageType where
  | echoRequest
  | echoResponse
  | metadataEntry
  | echoWithDelayRequest
  | echoErrorRequest
  | serverStreamRequest
  | healthCheckRequest
  | healthCheckResponse
  | serverReflectionRequest
  | extensionRequest
  | serverReflectionResponse
  | fileDescriptorResponse
  | extensionNumberResponse
  | listServiceResponse
  | serviceResponse
  | errorResponse
  deriving DecidableEq, Repr

namespace MessageType

/-- The name of a type in its package. -/
def name : MessageType → String
  | echoRequest => "EchoRequest"
  | echoResponse => "EchoResponse"
  | metadataEntry => "MetadataEntry"
  | echoWithDelayRequest => "EchoWithDelayRequest"
  | echoErrorRequest => "EchoErrorRequest"
  | serverStreamRequest => "ServerStreamRequest"
  | healthCheckRequest => "HealthCheckRequest"
  | healthCheckResponse => "HealthCheckResponse"
  | serverReflectionRequest => "ServerReflectionRequest"
  | extensionRequest => "ExtensionRequest"
  | serverReflectionResponse => "ServerReflectionResponse"
  | fileDescriptorResponse => "FileDescriptorResponse"
  | extensionNumberResponse => "ExtensionNumberResponse"
  | listServiceResponse => "ListServiceResponse"
  | serviceResponse => "ServiceResponse"
  | errorResponse => "ErrorResponse"

/-- All types that stand on their own, in the order in which their packages list them. -/
def all : List MessageType :=
  [echoRequest, echoResponse, echoWithDelayRequest, echoErrorRequest, serverStreamRequest,
    healthCheckRequest, healthCheckResponse, serverReflectionRequest, extensionRequest,
    serverReflectionResponse, fileDescriptorResponse, extensionNumberResponse,
    listServiceResponse, serviceResponse, errorResponse]

/-- The type of a name. -/
def ofName? (name : String) : Option MessageType := all.find? fun type => type.name == name

end MessageType

/-- The names of the states of a service. -/
def servingStates : List (String × Int) :=
  [("UNKNOWN", 0), ("SERVING", 1), ("NOT_SERVING", 2), ("SERVICE_UNKNOWN", 3)]

/-- A text field. -/
def textField (number : Nat) (name : String) : MessageField MessageType :=
  ⟨number, name, .scalar .text, .implicit⟩

/-- A number field. -/
def intField (number : Nat) (name : String) : MessageField MessageType :=
  ⟨number, name, .scalar .int32, .implicit⟩

/-- A text that is one of several choices. -/
def textChoice (number : Nat) (name : String) : MessageField MessageType :=
  ⟨number, name, .scalar .text, .explicit⟩

/-- A field that holds a message. -/
def messageField (number : Nat) (name : String) (type : MessageType) : MessageField MessageType :=
  ⟨number, name, .message type, .explicit⟩

/-- The fields of every message type. -/
def catalog : Catalog MessageType
  | .echoRequest => [.single (textField 1 "message")]
  | .echoResponse =>
    [.single (textField 1 "message"),
      .single ⟨2, "metadata", .message .metadataEntry, .map⟩]
  | .metadataEntry => [.single (textField 1 "key"), .single (textField 2 "value")]
  | .echoWithDelayRequest => [.single (textField 1 "message"), .single (intField 2 "delay_ms")]
  | .echoErrorRequest =>
    [.single (textField 1 "message"), .single (intField 2 "code"), .single (textField 3 "details")]
  | .serverStreamRequest =>
    [.single (textField 1 "message"), .single (intField 2 "count"),
      .single (intField 3 "interval_ms")]
  | .healthCheckRequest => [.single (textField 1 "service")]
  | .healthCheckResponse =>
    [.single ⟨1, "status", .scalar (.enumeration "ServingStatus" servingStates), .implicit⟩]
  | .serverReflectionRequest =>
    [.single (textField 1 "host"),
      .choice "message_request"
        [textChoice 3 "file_by_filename",
          textChoice 4 "file_containing_symbol",
          messageField 5 "file_containing_extension" .extensionRequest,
          textChoice 6 "all_extension_numbers_of_type",
          textChoice 7 "list_services"]]
  | .extensionRequest =>
    [.single (textField 1 "containing_type"), .single (intField 2 "extension_number")]
  | .serverReflectionResponse =>
    [.single (textField 1 "valid_host"),
      .single (messageField 2 "original_request" .serverReflectionRequest),
      .choice "message_response"
        [messageField 4 "file_descriptor_response" .fileDescriptorResponse,
          messageField 5 "all_extension_numbers_response" .extensionNumberResponse,
          messageField 6 "list_services_response" .listServiceResponse,
          messageField 7 "error_response" .errorResponse]]
  | .fileDescriptorResponse =>
    [.single ⟨1, "file_descriptor_proto", .scalar .bytes, .repeated⟩]
  | .extensionNumberResponse =>
    [.single (textField 1 "base_type_name"),
      .single ⟨2, "extension_number", .scalar .int32, .packed⟩]
  | .listServiceResponse => [.single ⟨1, "service", .message .serviceResponse, .repeated⟩]
  | .serviceResponse => [.single (textField 1 "name")]
  | .errorResponse =>
    [.single (intField 1 "error_code"), .single (textField 2 "error_message")]

end RpcEcho.Api
