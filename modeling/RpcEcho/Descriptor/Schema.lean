import RpcEcho.Proto.Schema

/-!
# The messages that describe files

Files of message types and services are described by messages themselves. The module lists their
types and fields. All fields that occur at most once tell absence from the default, and numbers
with names are kept as numbers.
-/

namespace RpcEcho.Descriptor

open Proto

/-- The message types. -/
inductive DescriptorType where
  | fileSet
  | file
  | message
  | extensionRange
  | numberRange
  | extensionRangeOptions
  | field
  | choice
  | choiceOptions
  | enumeration
  | enumValue
  | service
  | method
  | fileOptions
  | messageOptions
  | fieldOptions
  | enumOptions
  | enumValueOptions
  | serviceOptions
  | methodOptions
  | uninterpretedOption
  | namePart
  | sourceInfo
  | location
  deriving DecidableEq, Repr

/-- A field of one scalar. -/
def scalarField (kind : Scalar) (number : Nat) (name : String) : Slot DescriptorType :=
  .single ⟨number, name, .scalar kind, .explicit⟩

/-- A field of one text. -/
def text (number : Nat) (name : String) : Slot DescriptorType := scalarField .text number name

/-- A field of one number of thirty-two bits. -/
def int (number : Nat) (name : String) : Slot DescriptorType := scalarField .int32 number name

/-- A field of one truth value. -/
def bool (number : Nat) (name : String) : Slot DescriptorType := scalarField .bool number name

/-- A field of one number with names. -/
def enumerated (number : Nat) (name : String) : Slot DescriptorType :=
  scalarField (.enumeration name []) number name

/-- A field of many texts. -/
def texts (number : Nat) (name : String) : Slot DescriptorType :=
  .single ⟨number, name, .scalar .text, .repeated⟩

/-- A field of one message. -/
def part (number : Nat) (name : String) (type : DescriptorType) : Slot DescriptorType :=
  .single ⟨number, name, .message type, .explicit⟩

/-- A field of many messages. -/
def parts (number : Nat) (name : String) (type : DescriptorType) : Slot DescriptorType :=
  .single ⟨number, name, .message type, .repeated⟩

/-- The field of options that were not understood, which all kinds of options have. -/
def uninterpreted : Slot DescriptorType := parts 999 "uninterpreted_option" .uninterpretedOption

/-- The fields of every message type. -/
def catalog : Catalog DescriptorType
  | .fileSet => [parts 1 "file" .file]
  | .file =>
    [text 1 "name", text 2 "package", texts 3 "dependency", parts 4 "message_type" .message,
      parts 5 "enum_type" .enumeration, parts 6 "service" .service, parts 7 "extension" .field,
      part 8 "options" .fileOptions, part 9 "source_code_info" .sourceInfo,
      .single ⟨10, "public_dependency", .scalar .int32, .repeated⟩,
      .single ⟨11, "weak_dependency", .scalar .int32, .repeated⟩,
      text 12 "syntax"]
  | .message =>
    [text 1 "name", parts 2 "field" .field, parts 3 "nested_type" .message,
      parts 4 "enum_type" .enumeration, parts 5 "extension_range" .extensionRange,
      parts 6 "extension" .field, part 7 "options" .messageOptions, parts 8 "oneof_decl" .choice,
      parts 9 "reserved_range" .numberRange, texts 10 "reserved_name"]
  | .extensionRange => [int 1 "start", int 2 "end", part 3 "options" .extensionRangeOptions]
  | .numberRange => [int 1 "start", int 2 "end"]
  | .extensionRangeOptions => [uninterpreted]
  | .field =>
    [text 1 "name", text 2 "extendee", int 3 "number", enumerated 4 "label", enumerated 5 "type",
      text 6 "type_name", text 7 "default_value", part 8 "options" .fieldOptions,
      int 9 "oneof_index", text 10 "json_name", bool 17 "proto3_optional"]
  | .choice => [text 1 "name", part 2 "options" .choiceOptions]
  | .choiceOptions => [uninterpreted]
  | .enumeration =>
    [text 1 "name", parts 2 "value" .enumValue, part 3 "options" .enumOptions,
      parts 4 "reserved_range" .numberRange, texts 5 "reserved_name"]
  | .enumValue => [text 1 "name", int 2 "number", part 3 "options" .enumValueOptions]
  | .service => [text 1 "name", parts 2 "method" .method, part 3 "options" .serviceOptions]
  | .method =>
    [text 1 "name", text 2 "input_type", text 3 "output_type", part 4 "options" .methodOptions,
      bool 5 "client_streaming", bool 6 "server_streaming"]
  | .fileOptions =>
    [text 1 "java_package", text 8 "java_outer_classname", enumerated 9 "optimize_for",
      bool 10 "java_multiple_files", text 11 "go_package", bool 16 "cc_generic_services",
      bool 17 "java_generic_services", bool 18 "py_generic_services",
      bool 20 "java_generate_equals_and_hash", bool 23 "deprecated",
      bool 27 "java_string_check_utf8", bool 31 "cc_enable_arenas", text 36 "objc_class_prefix",
      text 37 "csharp_namespace", text 39 "swift_prefix", text 40 "php_class_prefix",
      text 41 "php_namespace", bool 42 "php_generic_services", text 44 "php_metadata_namespace",
      text 45 "ruby_package", uninterpreted]
  | .messageOptions =>
    [bool 1 "message_set_wire_format", bool 2 "no_standard_descriptor_accessor",
      bool 3 "deprecated", bool 7 "map_entry", uninterpreted]
  | .fieldOptions =>
    [enumerated 1 "ctype", bool 2 "packed", bool 3 "deprecated", bool 5 "lazy",
      enumerated 6 "jstype", bool 10 "weak", uninterpreted]
  | .enumOptions => [bool 2 "allow_alias", bool 3 "deprecated", uninterpreted]
  | .enumValueOptions => [bool 1 "deprecated", uninterpreted]
  | .serviceOptions => [bool 33 "deprecated", uninterpreted]
  | .methodOptions => [bool 33 "deprecated", enumerated 34 "idempotency_level", uninterpreted]
  | .uninterpretedOption =>
    [parts 2 "name" .namePart, text 3 "identifier_value",
      scalarField .uint64 4 "positive_int_value", scalarField .int64 5 "negative_int_value",
      scalarField .double 6 "double_value", scalarField .bytes 7 "string_value",
      text 8 "aggregate_value"]
  | .namePart =>
    [.single ⟨1, "name_part", .scalar .text, .required⟩,
      .single ⟨2, "is_extension", .scalar .bool, .required⟩]
  | .sourceInfo => [parts 1 "location" .location]
  | .location =>
    [.single ⟨1, "path", .scalar .int32, .packed⟩, .single ⟨2, "span", .scalar .int32, .packed⟩,
      text 3 "leading_comments", text 4 "trailing_comments", texts 6 "leading_detached_comments"]

end RpcEcho.Descriptor
