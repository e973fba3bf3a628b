/-!
# Message schemas

What the fields of a message are: their numbers and names, what each holds and how often. A
catalog gives the fields of every message type of one family, and types refer to one another by
their names in the family, so that a message may hold messages of its own type.

A message is the list of its entries, each a field number with a value, in the order of the fields.
A field that holds its default, where that cannot be told from absence, has no entry; a repeated
field has one entry for each element; an entry of a map is a message of key and value.

* `MessageField`, `Slot`, `Catalog`: schemas.
* `Value`, `Message`: what they describe.
-/

namespace RpcEcho.Proto

/-- What a field holds that holds no message. -/
inductive Scalar where
  | text
  | bytes
  | int32
  | int64
  | uint64
  | bool
  | double
  /-- Numbers, some of which have names. -/
  | enumeration (name : String) (values : List (String × Int))
  deriving DecidableEq, Repr

/-- What a field holds, in a family of message types. -/
inductive FieldType (τ : Type) where
  | scalar (kind : Scalar)
  | message (type : τ)
  deriving DecidableEq, Repr

/-- How often a field occurs, and how it is written. -/
inductive Label where
  /-- At most once, and absent when it holds its default. -/
  | implicit
  /-- At most once, with absence told apart from the default. -/
  | explicit
  /-- Exactly once: it is written even if it holds its default. -/
  | required
  /-- Any number of times, each element on its own. -/
  | repeated
  /-- Any number of times, all elements in one record. -/
  | packed
  /-- Any number of entries, each a message of a key text and a value text; of entries with one key
  the last counts. -/
  | map
  deriving DecidableEq, Repr

/-- A field of a message type. -/
structure MessageField (τ : Type) where
  number : Nat
  name : String
  type : FieldType τ
  label : Label
  deriving DecidableEq, Repr

/-- The place of one field in a message, or of several of which at most one is present. -/
inductive Slot (τ : Type) where
  | single (field : MessageField τ)
  | choice (name : String) (members : List (MessageField τ))
  deriving DecidableEq, Repr

/-- The fields of a slot. -/
def Slot.fields {τ : Type} : Slot τ → List (MessageField τ)
  | .single field => [field]
  | .choice _ members => members

/-- The slots of every message type of a family, in the order of the field numbers. -/
abbrev Catalog (τ : Type) := τ → List (Slot τ)

/-- The fields of a message type. -/
def Catalog.fields {τ : Type} (catalog : Catalog τ) (type : τ) : List (MessageField τ) :=
  (catalog type).flatMap Slot.fields

/-- The field of a number. -/
def Catalog.field? {τ : Type} (catalog : Catalog τ) (type : τ) (number : Nat) :
    Option (MessageField τ) :=
  (catalog.fields type).find? fun field => field.number = number

/-- What an entry of a message holds. -/
inductive Value where
  | text (value : String)
  | bytes (value : List UInt8)
  /-- A number: signed or unsigned, a truth value as 0 or 1, or the bits of a double. -/
  | int (value : Int)
  | message (entries : List (Nat × Value))
  deriving Inhabited, Repr

/-- A message: its entries, in the order of the fields. -/
abbrev Message := List (Nat × Value)

namespace Scalar

/-- The default of a field that holds a scalar. -/
def default : Scalar → Value
  | .text => .text ""
  | .bytes => .bytes []
  | .int32 | .int64 | .uint64 | .bool | .double | .enumeration .. => .int 0

/-- Whether several elements can stand in one record. -/
def isPackable : Scalar → Bool
  | .text | .bytes => false
  | .int32 | .int64 | .uint64 | .bool | .double | .enumeration .. => true

end Scalar

/-- Whether a value is the default of a scalar field. -/
def Value.isDefault : Value → Bool
  | .text value => value.isEmpty
  | .bytes value => value.isEmpty
  | .int value => value = 0
  | .message _ => false

namespace Message

/-- The values of a field, in order. -/
def values (message : Message) (number : Nat) : List Value :=
  message.filterMap fun entry => if entry.1 = number then some entry.2 else none

/-- The value of a field that occurs at most once. -/
def value? (message : Message) (number : Nat) : Option Value := (message.values number).head?

/-- The text of a field; the empty text if it is absent. -/
def text (message : Message) (number : Nat) : String :=
  match message.value? number with
  | some (.text value) => value
  | _ => ""

/-- The number of a field; zero if it is absent. -/
def int (message : Message) (number : Nat) : Int :=
  match message.value? number with
  | some (.int value) => value
  | _ => 0

/-- The texts of a repeated field. -/
def texts (message : Message) (number : Nat) : List String :=
  (message.values number).filterMap fun value =>
    match value with
    | .text value => some value
    | _ => none

/-- The messages of a repeated field. -/
def messages (message : Message) (number : Nat) : List Message :=
  (message.values number).filterMap fun value =>
    match value with
    | .message entries => some entries
    | _ => none

/-- The entry of a text field without presence: none for the empty text. -/
def ofText (number : Nat) (value : String) : Message :=
  if value.isEmpty then [] else [(number, .text value)]

/-- The entry of a number field without presence: none for zero. -/
def ofInt (number : Nat) (value : Int) : Message :=
  if value = 0 then [] else [(number, .int value)]

end Message

end RpcEcho.Proto
