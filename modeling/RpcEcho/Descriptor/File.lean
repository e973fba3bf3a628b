import RpcEcho.Descriptor.Schema
import RpcEcho.Proto.Binary

/-!
# Described files

A file of message types and services, and the names it defines. A name is qualified by the package
and by the messages around it; the values of an enumeration stand beside the enumeration, not
inside it.

* `FileDescriptor`: a file, as the message that describes it.
* `FileDescriptor.symbols`, `FileDescriptor.messageNames`: the names that it defines.
* `FileDescriptor.setOf?`: the files of an encoded set.
-/

namespace RpcEcho.Descriptor

open Proto

/-- A name inside a scope. -/
def qualify (scope name : String) : String := if scope.isEmpty then name else scope ++ "." ++ name

/-- An enumeration: its name and the names of its values. -/
structure EnumDescriptor where
  name : String
  values : List String
  deriving DecidableEq, Repr

/-- A service: its name and the names of its methods. -/
structure ServiceDescriptor where
  name : String
  methods : List String
  deriving DecidableEq, Repr

/-- A message type: its name, the names of its fields, and the types inside it. -/
inductive MessageDescriptor where
  | mk (name : String) (fields : List String) (nested : List MessageDescriptor)
    (enums : List EnumDescriptor)
  deriving Repr

/-- The names that messages have as their first field. -/
def names (messages : List Message) : List String := messages.map fun message => message.text 1

/-- The enumerations that a field of a message describes. -/
def enumsOf (message : Message) (number : Nat) : List EnumDescriptor :=
  (message.messages number).map fun entry => ⟨entry.text 1, names (entry.messages 2)⟩

mutual

/-- The message type that a value describes, if it is a message. -/
def messageOf? : Value → Option MessageDescriptor
  | .message entries =>
    some (.mk (Message.text entries 1) (names (Message.messages entries 2)) (messagesOf 3 entries)
      (enumsOf entries 4))
  | .text _ | .bytes _ | .int _ => none

/-- The message types that a field of a message describes. -/
def messagesOf (number : Nat) : List (Nat × Value) → List MessageDescriptor
  | [] => []
  | (found, value) :: rest =>
    if found = number then (messageOf? value).toList ++ messagesOf number rest
    else messagesOf number rest

end

/-! ## Names -/

namespace EnumDescriptor

/-- The names that an enumeration defines in a scope. -/
def symbols (scope : String) (enum : EnumDescriptor) : List String :=
  qualify scope enum.name :: enum.values.map (qualify scope)

end EnumDescriptor

namespace ServiceDescriptor

/-- The names that a service defines in a scope. -/
def symbols (scope : String) (service : ServiceDescriptor) : List String :=
  let name := qualify scope service.name
  name :: service.methods.map (qualify name)

end ServiceDescriptor

namespace MessageDescriptor

mutual

/-- The names that a message type defines in a scope. -/
def symbols (scope : String) : MessageDescriptor → List String
  | .mk name fields nested enums =>
    let own := qualify scope name
    own :: (fields.map (qualify own) ++ symbolsOfAll own nested
      ++ enums.flatMap (EnumDescriptor.symbols own))

/-- The names that several message types define in a scope. -/
def symbolsOfAll (scope : String) : List MessageDescriptor → List String
  | [] => []
  | message :: rest => symbols scope message ++ symbolsOfAll scope rest

end

mutual

/-- The names of a message type and of those inside it. -/
def messageNames (scope : String) : MessageDescriptor → List String
  | .mk name _ nested _ =>
    let own := qualify scope name
    own :: messageNamesOfAll own nested

/-- The names of several message types and of those inside them. -/
def messageNamesOfAll (scope : String) : List MessageDescriptor → List String
  | [] => []
  | message :: rest => messageNames scope message ++ messageNamesOfAll scope rest

end

end MessageDescriptor

/-! ## Files -/

/-- A file, as the message that describes it. -/
structure FileDescriptor where
  content : Message

namespace FileDescriptor

/-- The name of a file; empty if it has none. -/
def name (file : FileDescriptor) : String := file.content.text 1

/-- The package of a file; empty if it has none. -/
def package (file : FileDescriptor) : String := file.content.text 2

/-- The names of the files that a file builds on. -/
def dependencies (file : FileDescriptor) : List String := file.content.texts 3

/-- The message types at the top of a file. -/
def messages (file : FileDescriptor) : List MessageDescriptor := messagesOf 4 file.content

/-- The enumerations at the top of a file. -/
def enums (file : FileDescriptor) : List EnumDescriptor := enumsOf file.content 5

/-- The services of a file. -/
def services (file : FileDescriptor) : List ServiceDescriptor :=
  (file.content.messages 6).map fun entry => ⟨entry.text 1, names (entry.messages 2)⟩

/-- The names that a file defines. -/
def symbols (file : FileDescriptor) : List String :=
  MessageDescriptor.symbolsOfAll file.package file.messages
    ++ file.enums.flatMap (EnumDescriptor.symbols file.package)
    ++ file.services.flatMap (ServiceDescriptor.symbols file.package)

/-- The names of all message types of a file. -/
def messageNames (file : FileDescriptor) : List String :=
  MessageDescriptor.messageNamesOfAll file.package file.messages

/-- The octets of the message that describes a file. -/
def encode (file : FileDescriptor) : Bytes := Binary.encode catalog .file file.content

/-- A message that describes a file, without what it says about source text. -/
def ofMessage (message : Message) : FileDescriptor :=
  ⟨message.filter fun entry => entry.1 ≠ 9⟩

/-- The files of an encoded set. -/
def setOf? (octets : Bytes) : Option (List FileDescriptor) :=
  (Binary.decode? catalog .fileSet octets).map fun set => (set.messages 1).map ofMessage

end FileDescriptor

end RpcEcho.Descriptor
