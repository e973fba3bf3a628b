import RpcEcho.Descriptor.File

/-!
# What a file defines

The names that a file defines, told by what stands in it. A message type may stand inside others,
and an enumeration inside a message type; each qualifies the names of what it holds, except that the
values of an enumeration have the scope that the enumeration has itself.

* `FileDescriptor.HasMessage`, `FileDescriptor.HasEnum`: what stands in a file, with its scope.
* `FileDescriptor.Defines`: the names of all that.
* `FileDescriptor.mem_symbols`: these are the names that the file lists.
* `FileDescriptor.mem_messageNames`: the same for the names of message types alone.
-/

namespace RpcEcho.Descriptor

namespace FileDescriptor

/-- A message type stands in a scope of a file: at the top, or inside another one. -/
inductive HasMessage (file : FileDescriptor) : String → MessageDescriptor → Prop
  | top {message : MessageDescriptor} (member : message ∈ file.messages) :
      HasMessage file file.package message
  | nested {scope name : String} {fields : List String} {inside : List MessageDescriptor}
      {enums : List EnumDescriptor} {message : MessageDescriptor}
      (outer : HasMessage file scope (.mk name fields inside enums)) (member : message ∈ inside) :
      HasMessage file (qualify scope name) message

/-- An enumeration stands in a scope of a file: at the top, or inside a message type. -/
inductive HasEnum (file : FileDescriptor) : String → EnumDescriptor → Prop
  | top {enum : EnumDescriptor} (member : enum ∈ file.enums) : HasEnum file file.package enum
  | nested {scope name : String} {fields : List String} {inside : List MessageDescriptor}
      {enums : List EnumDescriptor} {enum : EnumDescriptor}
      (outer : file.HasMessage scope (.mk name fields inside enums)) (member : enum ∈ enums) :
      HasEnum file (qualify scope name) enum

/-- The names that a file defines. -/
inductive Defines (file : FileDescriptor) : String → Prop
  | message {scope name : String} {fields : List String} {inside : List MessageDescriptor}
      {enums : List EnumDescriptor} (has : file.HasMessage scope (.mk name fields inside enums)) :
      Defines file (qualify scope name)
  | field {scope name field : String} {fields : List String} {inside : List MessageDescriptor}
      {enums : List EnumDescriptor} (has : file.HasMessage scope (.mk name fields inside enums))
      (member : field ∈ fields) : Defines file (qualify (qualify scope name) field)
  | enumeration {scope : String} {enum : EnumDescriptor} (has : file.HasEnum scope enum) :
      Defines file (qualify scope enum.name)
  | enumValue {scope value : String} {enum : EnumDescriptor} (has : file.HasEnum scope enum)
      (member : value ∈ enum.values) : Defines file (qualify scope value)
  | service {service : ServiceDescriptor} (has : service ∈ file.services) :
      Defines file (qualify file.package service.name)
  | method {service : ServiceDescriptor} {method : String} (has : service ∈ file.services)
      (member : method ∈ service.methods) :
      Defines file (qualify (qualify file.package service.name) method)

/-- The names of the message types of a file. -/
def DefinesMessage (file : FileDescriptor) (symbol : String) : Prop :=
  ∃ scope name fields inside enums,
    file.HasMessage scope (.mk name fields inside enums) ∧ symbol = qualify scope name

end FileDescriptor

/-! ## The names that are listed -/

theorem EnumDescriptor.mem_symbols {scope symbol : String} {enum : EnumDescriptor} :
    symbol ∈ enum.symbols scope ↔
      symbol = qualify scope enum.name ∨ ∃ value ∈ enum.values, qualify scope value = symbol := by
  rw [EnumDescriptor.symbols, List.mem_cons, List.mem_map]

theorem ServiceDescriptor.mem_symbols {scope symbol : String} {service : ServiceDescriptor} :
    symbol ∈ service.symbols scope ↔ symbol = qualify scope service.name ∨
      ∃ method ∈ service.methods, qualify (qualify scope service.name) method = symbol := by
  rw [ServiceDescriptor.symbols, List.mem_cons, List.mem_map]

namespace MessageDescriptor

theorem mem_symbolsOfAll {scope symbol : String} {messages : List MessageDescriptor} :
    symbol ∈ symbolsOfAll scope messages ↔
      ∃ message ∈ messages, symbol ∈ symbols scope message := by
  induction messages with
  | nil => simp [symbolsOfAll]
  | cons message messages inductionHypothesis =>
      rw [symbolsOfAll, List.mem_append, inductionHypothesis]
      simp

theorem mem_messageNamesOfAll {scope symbol : String} {messages : List MessageDescriptor} :
    symbol ∈ messageNamesOfAll scope messages ↔
      ∃ message ∈ messages, symbol ∈ messageNames scope message := by
  induction messages with
  | nil => simp [messageNamesOfAll]
  | cons message messages inductionHypothesis =>
      rw [messageNamesOfAll, List.mem_append, inductionHypothesis]
      simp

/-- What a message type lists of a scope is what it has of its own, or what the message types inside
it list. -/
def Recurses (lists own : String → MessageDescriptor → Prop) : Prop :=
  ∀ scope name fields inside enums, lists scope (.mk name fields inside enums) ↔
    own scope (.mk name fields inside enums) ∨ ∃ inner ∈ inside, lists (qualify scope name) inner

/-- A symbol is the name of a message type, of a field of it, or of an enumeration in it. -/
def HasSymbol (symbol scope : String) : MessageDescriptor → Prop
  | .mk name fields _ enums =>
    symbol = qualify scope name ∨
      (∃ field ∈ fields, qualify (qualify scope name) field = symbol) ∨
      ∃ enum ∈ enums, symbol ∈ enum.symbols (qualify scope name)

/-- A symbol is the name of a message type. -/
def HasName (symbol scope : String) : MessageDescriptor → Prop
  | .mk name _ _ _ => symbol = qualify scope name

theorem recurses_symbols (symbol : String) :
    Recurses (fun scope message => symbol ∈ symbols scope message) (HasSymbol symbol) := by
  intro scope name fields inside enums
  change symbol ∈ symbols scope _ ↔ _
  rw [symbols, List.mem_cons, List.mem_append, List.mem_append, List.mem_map, mem_symbolsOfAll,
    List.mem_flatMap, HasSymbol, or_right_comm, ← or_assoc]

theorem recurses_messageNames (symbol : String) :
    Recurses (fun scope message => symbol ∈ messageNames scope message) (HasName symbol) := by
  intro scope name fields inside enums
  change symbol ∈ messageNames scope _ ↔ _
  rw [messageNames, List.mem_cons, mem_messageNamesOfAll, HasName]

end MessageDescriptor

/-! ## What stands in a file -/

namespace FileDescriptor

variable {file : FileDescriptor} {scope symbol : String}

section Recursion

variable {lists own : String → MessageDescriptor → Prop}

/-- By induction on the message types inside. -/
theorem exists_own (recurses : MessageDescriptor.Recurses lists own) {scope : String}
    {message : MessageDescriptor} (has : file.HasMessage scope message)
    (listed : lists scope message) :
    ∃ scope message, file.HasMessage scope message ∧ own scope message := by
  match message with
  | .mk name fields inside enums =>
    rcases (recurses scope name fields inside enums).mp listed with
      isOwn | ⟨inner, isInner, inInner⟩
    · exact ⟨scope, _, has, isOwn⟩
    · exact exists_own recurses (.nested has isInner) inInner
termination_by sizeOf message
decreasing_by
  have smaller := List.sizeOf_lt_of_mem isInner
  simp only [MessageDescriptor.mk.sizeOf_spec]
  omega

/-- What a message type lists is listed at the top, however deep it stands. -/
theorem exists_top (recurses : MessageDescriptor.Recurses lists own) {message : MessageDescriptor}
    (has : file.HasMessage scope message) (listed : lists scope message) :
    ∃ top ∈ file.messages, lists file.package top := by
  induction has with
  | top isTop => exact ⟨_, isTop, listed⟩
  | nested outer isInner inductionHypothesis =>
      exact inductionHypothesis ((recurses _ _ _ _ _).mpr (.inr ⟨_, isInner, listed⟩))

/-- What the message types at the top list is what all message types have of their own. -/
theorem exists_top_iff (recurses : MessageDescriptor.Recurses lists own) :
    (∃ top ∈ file.messages, lists file.package top) ↔
      ∃ scope message, file.HasMessage scope message ∧ own scope message := by
  constructor
  · rintro ⟨top, isTop, listed⟩
    exact exists_own recurses (.top isTop) listed
  · rintro ⟨scope, ⟨name, fields, inside, enums⟩, has, isOwn⟩
    exact exists_top recurses has ((recurses _ _ _ _ _).mpr (.inl isOwn))

end Recursion

theorem mem_symbols_cases :
    symbol ∈ file.symbols ↔
      (∃ scope message, file.HasMessage scope message ∧ message.HasSymbol symbol scope) ∨
      (∃ enum ∈ file.enums, symbol ∈ enum.symbols file.package) ∨
      ∃ service ∈ file.services, symbol ∈ service.symbols file.package := by
  rw [symbols, List.mem_append, List.mem_append, MessageDescriptor.mem_symbolsOfAll,
    List.mem_flatMap, List.mem_flatMap, or_assoc,
    exists_top_iff (MessageDescriptor.recurses_symbols symbol)]

theorem defines_of_mem_enum {enum : EnumDescriptor} (has : file.HasEnum scope enum)
    (member : symbol ∈ enum.symbols scope) : file.Defines symbol := by
  rcases EnumDescriptor.mem_symbols.mp member with rfl | ⟨value, isValue, rfl⟩
  · exact .enumeration has
  · exact .enumValue has isValue

theorem mem_symbols_of_hasEnum {enum : EnumDescriptor} (has : file.HasEnum scope enum)
    (member : symbol ∈ enum.symbols scope) : symbol ∈ file.symbols := by
  cases has with
  | top isTop => exact mem_symbols_cases.mpr (.inr (.inl ⟨_, isTop, member⟩))
  | nested outer isInner =>
      exact mem_symbols_cases.mpr (.inl ⟨_, _, outer, .inr (.inr ⟨_, isInner, member⟩)⟩)

/-- A file lists the names that it defines. -/
theorem mem_symbols : symbol ∈ file.symbols ↔ file.Defines symbol := by
  constructor
  · intro member
    rcases mem_symbols_cases.mp member with
      ⟨scope, ⟨name, fields, inside, enums⟩, has, hasSymbol⟩ | ⟨enum, isEnum, inEnum⟩ |
      ⟨service, isService, inService⟩
    · rcases hasSymbol with rfl | ⟨field, isField, rfl⟩ | ⟨enum, isEnum, inEnum⟩
      · exact .message has
      · exact .field has isField
      · exact defines_of_mem_enum (.nested has isEnum) inEnum
    · exact defines_of_mem_enum (.top isEnum) inEnum
    · rcases ServiceDescriptor.mem_symbols.mp inService with rfl | ⟨method, isMethod, rfl⟩
      · exact .service isService
      · exact .method isService isMethod
  · intro defines
    cases defines with
    | message has => exact mem_symbols_cases.mpr (.inl ⟨_, _, has, .inl rfl⟩)
    | field has isField =>
        exact mem_symbols_cases.mpr (.inl ⟨_, _, has, .inr (.inl ⟨_, isField, rfl⟩)⟩)
    | enumeration has =>
        exact mem_symbols_of_hasEnum has (EnumDescriptor.mem_symbols.mpr (.inl rfl))
    | enumValue has isValue =>
        exact mem_symbols_of_hasEnum has (EnumDescriptor.mem_symbols.mpr (.inr ⟨_, isValue, rfl⟩))
    | service has =>
        exact mem_symbols_cases.mpr
          (.inr (.inr ⟨_, has, ServiceDescriptor.mem_symbols.mpr (.inl rfl)⟩))
    | method has isMethod =>
        exact mem_symbols_cases.mpr
          (.inr (.inr ⟨_, has, ServiceDescriptor.mem_symbols.mpr (.inr ⟨_, isMethod, rfl⟩)⟩))

/-- A file lists the names of its message types. -/
theorem mem_messageNames : symbol ∈ file.messageNames ↔ file.DefinesMessage symbol := by
  rw [messageNames, MessageDescriptor.mem_messageNamesOfAll,
    exists_top_iff (MessageDescriptor.recurses_messageNames symbol)]
  constructor
  · rintro ⟨scope, ⟨name, fields, inside, enums⟩, has, same⟩
    exact ⟨scope, name, fields, inside, enums, has, same⟩
  · rintro ⟨scope, name, fields, inside, enums, has, same⟩
    exact ⟨scope, _, has, same⟩

end FileDescriptor

end RpcEcho.Descriptor
