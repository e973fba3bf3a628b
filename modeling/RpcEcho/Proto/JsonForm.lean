import RpcEcho.Proto.Binary
import RpcEcho.Json.Reader
import RpcEcho.Text.Base64
import RpcEcho.Text.Decimal

/-!
# The JSON form of messages

A message is an object whose keys are the names of its fields in camel case. Lists are arrays, maps
are objects, octets are base 64, and numbers with names are written by name.

* `JsonForm.ofMessage`: the object of a message. A number that should have a name and has none
  cannot be written.
* `JsonForm.toMessage?`: the message of an object. Both spellings of a name are read, unknown keys
  are passed over, and a field or a choice that is given twice is an error.

The form covers texts, octets, numbers of thirty-two bits, numbers with names, and messages.
-/

namespace RpcEcho.Proto.JsonForm

/-- A name in camel case: a letter behind an underscore becomes a capital. -/
def camelChars : List Char → List Char
  | '_' :: c :: rest => c.toUpper :: camelChars rest
  | c :: rest => c :: camelChars rest
  | [] => []

/-- The key under which a field is written. -/
def key {τ : Type} (field : MessageField τ) : String := String.ofList (camelChars field.name.toList)

/-! ## Writing -/

/-- A number that has no name where only names are written. -/
structure Unnamed where
  number : Int
  deriving DecidableEq, Repr

/-- The JSON of a scalar; what does not fit its field is null. -/
def ofScalar (kind : Scalar) (value : Value) : Except Unnamed Json :=
  match kind, value with
  | .text, .text value => .ok (Json.ofText value)
  | .bytes, .bytes value => .ok (Json.ofText (Base64.encode value))
  | .int32, .int value => .ok (Json.ofInt value)
  | .enumeration _ names, .int value =>
    match names.find? fun entry => entry.2 = value with
    | some entry => .ok (Json.ofText entry.1)
    | none => .error ⟨value⟩
  | _, _ => .ok .null

/-- The member of an object that an entry of a map makes. -/
def mapMember : Value → Option (String × Json)
  | .message entry => some (Message.text entry 1, Json.ofText (Message.text entry 2))
  | _ => none

/-- The members that one slot makes, from the message and the JSON of each of its values. -/
def slotMembers {τ : Type} (message : Message) (written : List (Nat × Json)) (slot : Slot τ) :
    List (String × Json) :=
  slot.fields.flatMap fun field =>
    let own := written.filterMap fun entry => if entry.1 = field.number then some entry.2 else none
    match field.label with
    | .map =>
      let entries := message.values field.number
      if entries.isEmpty then []
      else [(key field, Json.ofMembers (entries.filterMap mapMember))]
    | .repeated | .packed => if own.isEmpty then [] else [(key field, .array own)]
    | .implicit | .explicit | .required => own.map fun json => (key field, json)

/-- The object of a message, from the JSON of each of its values. -/
def object {τ : Type} (catalog : Catalog τ) (type : τ) (message : Message)
    (written : List (Nat × Json)) : Json :=
  Json.ofMembers ((catalog type).flatMap (slotMembers message written))

mutual

/-- The JSON of one value. -/
def ofValue {τ : Type} (catalog : Catalog τ) (type : FieldType τ) (value : Value) :
    Except Unnamed Json :=
  match type, value with
  | .message type, .message entries =>
    (ofEntries catalog type entries).map (object catalog type entries)
  | .scalar kind, value => ofScalar kind value
  | .message _, _ => .ok .null

/-- The JSON of each entry of a message. -/
def ofEntries {τ : Type} (catalog : Catalog τ) (type : τ) :
    List (Nat × Value) → Except Unnamed (List (Nat × Json))
  | [] => .ok []
  | (number, value) :: rest =>
    match catalog.field? type number with
    | none => ofEntries catalog type rest
    | some field =>
      match ofValue catalog field.type value with
      | .error unnamed => .error unnamed
      | .ok json => (ofEntries catalog type rest).map fun written => (number, json) :: written

end

/-- The object of a message. -/
def ofMessage {τ : Type} (catalog : Catalog τ) (type : τ) (message : Message) :
    Except Unnamed Json :=
  (ofEntries catalog type message).map (object catalog type message)

/-! ## Reading -/

/-- Whether a number fits in thirty-two bits with a sign. -/
def fits32 (value : Int) : Bool := -2147483648 ≤ value && value ≤ 2147483647

/-- The most digits that count in a number of thirty-two bits. -/
def mostDigits : Nat := 10

/-- The number that decimal digits spell, perhaps behind a sign, unless it is too long for
thirty-two bits. -/
def integer? (text : String) : Option Int :=
  match text.toList with
  | '-' :: digits => (Decimal.readUpTo? mostDigits digits).map fun value => -(value : Int)
  | '+' :: digits => (Decimal.readUpTo? mostDigits digits).map fun value => (value : Int)
  | digits => (Decimal.readUpTo? mostDigits digits).map fun value => (value : Int)

/-- The scalar that JSON stands for. -/
def toScalar? (kind : Scalar) (json : Json) : Option Value :=
  match kind, json with
  | .text, .string (some text) => some (.text text)
  | .bytes, .string (some text) => (Base64.decode? (Utf8.encode text)).map .bytes
  | .int32, .number (some value) => if fits32 value then some (.int value) else none
  | .int32, .string (some text) =>
    (integer? text).bind fun value => if fits32 value then some (.int value) else none
  | .enumeration _ names, .number (some value) =>
    if names.any fun entry => entry.2 = value then some (.int value) else none
  | .enumeration _ names, .string (some text) => (names.lookup text).map .int
  | _, _ => none

/-- The entry of a map that a member of an object makes. -/
def toMapEntry? (member : Option String × Json) : Option Message :=
  match member with
  | (some key, .string (some value)) => some (Message.ofText 1 key ++ Message.ofText 2 value)
  | _ => none

/-- The field of a key, in either spelling, with its slot. -/
def field? {τ : Type} (catalog : Catalog τ) (type : τ) (name : String) :
    Option (Slot τ × MessageField τ) :=
  (catalog type).findSome? fun slot =>
    (slot.fields.find? fun field => key field = name || field.name = name).map
      fun field => (slot, field)

/-- What the members of an object gave so far: the numbers of the given fields, each with its
values. -/
abbrev Given := List (Nat × List Value)

/-- Whether a field of a slot was given. -/
def Given.has {τ : Type} (given : Given) (slot : Slot τ) : Bool :=
  slot.fields.any fun field => given.any fun entry => entry.1 = field.number

/-- The message of all given fields, in the order of the slots. -/
def Given.message {τ : Type} (given : Given) (catalog : Catalog τ) (type : τ) : Message :=
  (catalog.fields type).flatMap fun field =>
    ((given.lookup field.number).getD []).map fun value => (field.number, value)

/-- The values of a field without presence: none for the default. -/
def unlessDefault (value : Value) : List Value := if value.isDefault then [] else [value]

/-- The values that a member gives to its field, from what its JSON stands for as one value and as a
list of values. -/
def fieldValues? {τ : Type} (catalog : Catalog τ) (field : MessageField τ) (json : Json)
    (one : Option Value) (all : Option (List Value)) : Option (List Value) :=
  match field.label, field.type, json with
  | .repeated, _, _ | .packed, _, _ => all
  | .map, .message type, .object members =>
    (members.mapM toMapEntry?).map fun entries =>
      (Binary.mapEntries catalog type entries).map .message
  | .map, _, _ => none
  | .implicit, _, _ => one.map unlessDefault
  | .explicit, _, _ | .required, _, _ => one.map fun value => [value]

/-- Whether a field that is given as null counts as not given. -/
def isAbsent {τ : Type} (field : MessageField τ) (json : Json) : Bool :=
  match json with
  | .null => field.label = .explicit
  | _ => false

mutual

/-- The value that JSON stands for. -/
def toValue? {τ : Type} (catalog : Catalog τ) (type : FieldType τ) (json : Json) : Option Value :=
  match type, json with
  | .message type, .object members =>
    (toGiven? catalog type [] members).map fun given => .message (given.message catalog type)
  | .scalar kind, json => toScalar? kind json
  | .message _, _ => none

/-- The values of the items of an array. -/
def toElements? {τ : Type} (catalog : Catalog τ) (type : FieldType τ) : Json → Option (List Value)
  | .array items => toValues? catalog type items
  | _ => none

/-- The values of all items. -/
def toValues? {τ : Type} (catalog : Catalog τ) (type : FieldType τ) :
    List Json → Option (List Value)
  | [] => some []
  | item :: rest =>
    match toValue? catalog type item, toValues? catalog type rest with
    | some value, some values => some (value :: values)
    | _, _ => none

/-- What the members of an object give, onto what others gave before them. -/
def toGiven? {τ : Type} (catalog : Catalog τ) (type : τ) (given : Given) :
    List (Option String × Json) → Option Given
  | [] => some given
  | (key, json) :: rest =>
    match key with
    | none => none
    | some name =>
      match field? catalog type name with
      | none => toGiven? catalog type given rest
      | some (slot, field) =>
        let one := toValue? catalog field.type json
        let all := toElements? catalog field.type json
        if given.has slot then none
        else if isAbsent field json then toGiven? catalog type given rest
        else match fieldValues? catalog field json one all with
          | none => none
          | some values => toGiven? catalog type ((field.number, values) :: given) rest

end

/-- The message of an object. -/
def toMessage? {τ : Type} (catalog : Catalog τ) (type : τ) : Json → Option Message
  | .object members =>
    (toGiven? catalog type [] members).map fun given => given.message catalog type
  | _ => none

end RpcEcho.Proto.JsonForm
