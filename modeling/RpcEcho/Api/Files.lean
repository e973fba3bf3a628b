import RpcEcho.Api.Service
import RpcEcho.Descriptor.Pool
import RpcEcho.Proto.JsonForm

/-!
# The files of the services

Each package is described by one file, made from the catalog of messages and the lists of methods,
so that what reflection tells about a message is what its reader and writer do.

* `Service.file`: the file of the package of a service.
* `builtinFiles`: the files of all packages.
-/

namespace RpcEcho.Api

open Proto Descriptor

/-- The message type inside which a type stands. -/
def MessageType.outer? : MessageType → Option MessageType
  | .metadataEntry => some .echoResponse
  | _ => none

/-- The name of a type behind the names of the types around it. -/
def MessageType.path (type : MessageType) : String :=
  match type.outer? with
  | some outer => outer.name ++ "." ++ type.name
  | none => type.name

/-- How a file numbers the labels: one, or many. -/
def labelNumber : Label → Int
  | .implicit | .explicit => 1
  | .required => 2
  | .repeated | .packed | .map => 3

/-- How a file numbers the types of fields. -/
def typeNumber : FieldType MessageType → Int
  | .scalar .double => 1
  | .scalar .int64 => 3
  | .scalar .uint64 => 4
  | .scalar .int32 => 5
  | .scalar .bool => 8
  | .scalar .text => 9
  | .message _ => 11
  | .scalar .bytes => 12
  | .scalar (.enumeration ..) => 14

/-- The full name of the type of a field, where the field refers to a type. -/
def typeReference? (package : String) (type : MessageType) :
    FieldType MessageType → Option String
  | .message other => some ("." ++ package ++ "." ++ other.path)
  | .scalar (.enumeration name _) => some ("." ++ package ++ "." ++ type.path ++ "." ++ name)
  | .scalar _ => none

/-- An entry that is there only if it has a value. -/
def entryOf? (number : Nat) (value : Option Value) : Message :=
  (value.map fun value => (number, value)).toList

/-- The description of a field, with the position of the choice that it belongs to. -/
def fieldDescription (package : String) (type : MessageType) (choice : Option Nat)
    (field : MessageField MessageType) : Message :=
  [(1, .text field.name), (3, .int field.number), (4, .int (labelNumber field.label)),
    (5, .int (typeNumber field.type))]
    ++ entryOf? 6 ((typeReference? package type field.type).map .text)
    ++ entryOf? 9 (choice.map fun position => .int position)
    ++ [(10, .text (JsonForm.key field))]

/-- The descriptions of the fields of slots, with the names of the choices met so far. -/
def fieldDescriptions (package : String) (type : MessageType) (choices : List String) :
    List (Slot MessageType) → List Message × List String
  | [] => ([], choices)
  | .single field :: rest =>
    let (described, all) := fieldDescriptions package type choices rest
    (fieldDescription package type none field :: described, all)
  | .choice name members :: rest =>
    let (described, all) := fieldDescriptions package type (choices ++ [name]) rest
    (members.map (fieldDescription package type (some choices.length)) ++ described, all)

/-- The description of a number with names, if a field holds one. -/
def enumDescription? (field : MessageField MessageType) : Option Message :=
  match field.type with
  | .scalar (.enumeration name values) =>
    some ((1, .text name) :: values.map fun value =>
      (2, .message [(1, .text value.1), (2, .int value.2)]))
  | _ => none

/-- The description of a message type, given those of the types inside it. -/
def typeDescription (package : String) (inner : List Message) (type : MessageType) : Message :=
  let (fields, choices) := fieldDescriptions package type [] (catalog type)
  let isEntry := type.outer?.isSome
  [(1, .text type.name)]
    ++ fields.map (fun field => (2, .message field))
    ++ inner.map (fun entry => (3, .message entry))
    ++ ((catalog.fields type).filterMap enumDescription?).map (fun enum => (4, .message enum))
    ++ (if isEntry then [(7, .message [(7, .int 1)])] else [])
    ++ choices.map (fun name => (8, .message [(1, .text name)]))

/-- The types of map entries that a message type holds. -/
def entryTypes (type : MessageType) : List MessageType :=
  (catalog.fields type).filterMap fun field =>
    match field.label, field.type with
    | .map, .message entry => some entry
    | _, _ => none

/-- The entry of a truth value that is there only if it holds. -/
def ifTrue (number : Nat) (holds : Bool) : Message := if holds then [(number, .int 1)] else []

/-- The description of a method. -/
def methodDescription (package : String) (method : Method) : Message :=
  [(1, .text method.name), (2, .text ("." ++ package ++ "." ++ method.input.path)),
    (3, .text ("." ++ package ++ "." ++ method.output.path))]
    ++ ifTrue 5 (method.kind = .clientStreaming || method.kind = .bidiStreaming)
    ++ ifTrue 6 (method.kind = .serverStreaming || method.kind = .bidiStreaming)

namespace Service

/-- The name of the file of a service. -/
def fileName : Service → String
  | echo => "echo/v1/echo.proto"
  | health => "grpc/health/v1/health.proto"
  | reflection => "grpc/reflection/v1/reflection.proto"
  | reflectionAlpha => "grpc/reflection/v1alpha/reflection.proto"

/-- The message types of the package of a service. -/
def types : Service → List MessageType
  | echo =>
    [.echoRequest, .echoResponse, .echoWithDelayRequest, .echoErrorRequest, .serverStreamRequest]
  | health => [.healthCheckRequest, .healthCheckResponse]
  | reflection | reflectionAlpha =>
    [.serverReflectionRequest, .extensionRequest, .serverReflectionResponse,
      .fileDescriptorResponse, .extensionNumberResponse, .listServiceResponse, .serviceResponse,
      .errorResponse]

/-- The file of the package of a service. -/
def file (service : Service) : FileDescriptor :=
  let package := service.package
  ⟨[(1, .text service.fileName), (2, .text package)]
    ++ service.types.map (fun type =>
      (4, .message (typeDescription package
        ((entryTypes type).map (typeDescription package [])) type)))
    ++ [(6, .message ((1, .text service.shortName) :: service.methods.map fun method =>
      (2, .message (methodDescription package method)))),
      (12, .text "proto3")]⟩

end Service

/-- The files of all packages. -/
def builtinFiles : List FileDescriptor :=
  [Service.echo, .health, .reflection, .reflectionAlpha].map Service.file

/-- The pool of the files of all packages. -/
def builtinPool : DescriptorPool := ⟨builtinFiles⟩

end RpcEcho.Api
