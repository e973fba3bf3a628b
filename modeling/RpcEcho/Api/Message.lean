import RpcEcho.Api.Codec
import RpcEcho.Header.Metadata

/-!
# The values that services exchange

One type for each message that a service looks into or gives, and how its values travel.
-/

namespace RpcEcho.Api

open Proto

/-! ## Echo -/

/-- What is to be said back. -/
structure EchoRequest where
  message : String
  deriving DecidableEq, Repr

instance : Payload EchoRequest where
  type := .echoRequest
  toMessage request := Message.ofText 1 request.message
  ofMessage message := ⟨message.text 1⟩

/-- What is said back, and the metadata that came with the request. -/
structure EchoResponse where
  message : String
  metadata : Metadata
  deriving DecidableEq, Repr

/-- Metadata as the entries of a map. -/
def metadataEntries (metadata : Metadata) : List Message :=
  Binary.mapEntries catalog .metadataEntry
    (metadata.map fun entry => Message.ofText 1 entry.1 ++ Message.ofText 2 entry.2)

instance : Payload EchoResponse where
  type := .echoResponse
  toMessage response :=
    Message.ofText 1 response.message
      ++ (metadataEntries response.metadata).map fun entry => (2, .message entry)
  ofMessage message :=
    ⟨message.text 1, (message.messages 2).map fun entry => (entry.text 1, entry.text 2)⟩

/-- What is to be said back later. -/
structure EchoWithDelayRequest where
  message : String
  /-- Milliseconds to wait; none are waited if it is negative. -/
  delay : Int
  deriving DecidableEq, Repr

instance : Payload EchoWithDelayRequest where
  type := .echoWithDelayRequest
  toMessage request := Message.ofText 1 request.message ++ Message.ofInt 2 request.delay
  ofMessage message := ⟨message.text 1, message.int 2⟩

/-- How a call is to fail. -/
structure EchoErrorRequest where
  message : String
  code : Int
  details : String
  deriving DecidableEq, Repr

instance : Payload EchoErrorRequest where
  type := .echoErrorRequest
  toMessage request :=
    Message.ofText 1 request.message ++ Message.ofInt 2 request.code
      ++ Message.ofText 3 request.details
  ofMessage message := ⟨message.text 1, message.int 2, message.text 3⟩

/-- What is to be said several times. -/
structure ServerStreamRequest where
  message : String
  count : Int
  /-- Milliseconds between two messages. -/
  interval : Int
  deriving DecidableEq, Repr

instance : Payload ServerStreamRequest where
  type := .serverStreamRequest
  toMessage request :=
    Message.ofText 1 request.message ++ Message.ofInt 2 request.count
      ++ Message.ofInt 3 request.interval
  ofMessage message := ⟨message.text 1, message.int 2, message.int 3⟩

/-! ## Health -/

/-- The service whose state is asked for; the empty name means the whole server. -/
structure HealthCheckRequest where
  service : String
  deriving DecidableEq, Repr

instance : Payload HealthCheckRequest where
  type := .healthCheckRequest
  toMessage request := Message.ofText 1 request.service
  ofMessage message := ⟨message.text 1⟩

/-- The states of a service. -/
inductive ServingStatus where
  | unknown
  | serving
  | notServing
  | serviceUnknown
  deriving DecidableEq, Repr

namespace ServingStatus

/-- The number of a state. -/
def number : ServingStatus → Int
  | unknown => 0
  | serving => 1
  | notServing => 2
  | serviceUnknown => 3

/-- The name of a state. -/
def name : ServingStatus → String
  | unknown => "UNKNOWN"
  | serving => "SERVING"
  | notServing => "NOT_SERVING"
  | serviceUnknown => "SERVICE_UNKNOWN"

end ServingStatus

/-- The state of a service, as a number. -/
structure HealthCheckResponse where
  status : Int
  deriving DecidableEq, Repr

/-- The response that tells a state. -/
def HealthCheckResponse.of (status : ServingStatus) : HealthCheckResponse := ⟨status.number⟩

instance : Payload HealthCheckResponse where
  type := .healthCheckResponse
  toMessage response := Message.ofInt 1 response.status
  ofMessage message := ⟨message.int 1⟩

/-! ## Reflection -/

/-- What a client may ask about the files of the server. -/
inductive ReflectionQuery where
  | fileByName (name : String)
  | fileOfSymbol (symbol : String)
  | fileOfExtension (type : String) (number : Int)
  | extensionNumbers (type : String)
  | services (filter : String)
  deriving DecidableEq, Repr

namespace ReflectionQuery

/-- The entry of a question. -/
def toEntry : ReflectionQuery → Nat × Value
  | fileByName name => (3, .text name)
  | fileOfSymbol symbol => (4, .text symbol)
  | fileOfExtension type number => (5, .message (Message.ofText 1 type ++ Message.ofInt 2 number))
  | extensionNumbers type => (6, .text type)
  | services filter => (7, .text filter)

/-- The question of an entry. -/
def ofEntry? : Nat × Value → Option ReflectionQuery
  | (3, .text name) => some (fileByName name)
  | (4, .text symbol) => some (fileOfSymbol symbol)
  | (5, .message entries) => some (fileOfExtension (Message.text entries 1) (Message.int entries 2))
  | (6, .text type) => some (extensionNumbers type)
  | (7, .text filter) => some (services filter)
  | _ => none

end ReflectionQuery

/-- A question about the files of the server. -/
structure ReflectionRequest where
  host : String
  query : Option ReflectionQuery
  deriving DecidableEq, Repr

namespace ReflectionRequest

/-- The message of a request. -/
def toMessage (request : ReflectionRequest) : Message :=
  Message.ofText 1 request.host ++ (request.query.map ReflectionQuery.toEntry).toList

/-- The request of a message. -/
def ofMessage (message : Message) : ReflectionRequest :=
  ⟨message.text 1, message.findSome? ReflectionQuery.ofEntry?⟩

instance : Payload ReflectionRequest where
  type := .serverReflectionRequest
  toMessage := toMessage
  ofMessage := ofMessage

end ReflectionRequest

/-- What a question about the files of the server is answered with. -/
inductive ReflectionAnswer where
  /-- Encoded files. -/
  | files (encoded : List Bytes)
  | extensionNumbers (type : String) (numbers : List Int)
  | services (names : List String)
  | failure (code : Code) (message : String)
  deriving DecidableEq, Repr

namespace ReflectionAnswer

/-- The entry of an answer. -/
def toEntry : ReflectionAnswer → Nat × Value
  | files encoded => (4, .message (encoded.map fun octets => (1, .bytes octets)))
  | extensionNumbers type numbers =>
    (5, .message (Message.ofText 1 type ++ numbers.map fun number => (2, .int number)))
  | services names => (6, .message (names.map fun name => (1, .message (Message.ofText 1 name))))
  | failure code message =>
    (7, .message (Message.ofInt 1 code.number ++ Message.ofText 2 message))

/-- The answer of an entry. -/
def ofEntry? : Nat × Value → Option ReflectionAnswer
  | (4, .message entries) =>
    some (files (entries.filterMap fun entry =>
      match entry.2 with
      | .bytes octets => some octets
      | _ => none))
  | (5, .message entries) =>
    some (extensionNumbers (Message.text entries 1)
      ((Message.values entries 2).filterMap fun value =>
        match value with
        | .int number => some number
        | _ => none))
  | (6, .message entries) =>
    some (services ((Message.messages entries 1).map fun entry => entry.text 1))
  | (7, .message entries) =>
    some (failure (Code.ofNumber (Message.int entries 1)) (Message.text entries 2))
  | _ => none

end ReflectionAnswer

/-- A reply to a question about the files of the server. -/
structure ReflectionResponse where
  validHost : String
  originalRequest : Option ReflectionRequest
  answer : Option ReflectionAnswer
  deriving DecidableEq, Repr

instance : Payload ReflectionResponse where
  type := .serverReflectionResponse
  toMessage response :=
    Message.ofText 1 response.validHost
      ++ (response.originalRequest.map fun request => (2, .message request.toMessage)).toList
      ++ (response.answer.map ReflectionAnswer.toEntry).toList
  ofMessage message :=
    ⟨message.text 1, (message.messages 2).head?.map ReflectionRequest.ofMessage,
      message.findSome? ReflectionAnswer.ofEntry?⟩

end RpcEcho.Api
