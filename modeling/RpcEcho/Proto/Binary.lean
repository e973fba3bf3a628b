import RpcEcho.Proto.Schema
import RpcEcho.Proto.Record
import RpcEcho.Text.Utf8

/-!
# The binary form of messages

* `Binary.encode`: the octets of a message. Fields go in the order of their numbers; the entries of
  a map go in the order of their octets.
* `Binary.decode?`: the message of octets. The records of each field are collected and combined:
  of a field that occurs once the last record counts, messages are merged, lists are joined, and of
  map entries with one key the last counts. Records of unknown fields are passed over.

A message in a record is merged by reading the joined octets of its records, since the fields of
joined octets are the fields of the parts in order.
-/

namespace RpcEcho.Proto.Binary

/-! ## Writing -/

/-- The octets of a signed or unsigned number of sixty-four bits. -/
def integer (value : Int) : Bytes := Varint.write (value % 18446744073709551616).toNat

/-- The lowest octets of a number, the lowest first. -/
def lowOctets (value : Nat) : Nat → Bytes
  | 0 => []
  | count + 1 => UInt8.ofNat value :: lowOctets (value / 256) count

/-- Octets behind their length. -/
def delimited (octets : Bytes) : Bytes := Varint.write octets.length ++ octets

/-- The content of a record that holds one scalar. -/
def scalar (kind : Scalar) (value : Value) : Bytes :=
  match kind, value with
  | .double, .int value => lowOctets value.toNat 8
  | _, .int value => integer value
  | _, .text value => delimited (Utf8.encode value)
  | _, .bytes value => delimited value
  | _, .message _ => []

/-- The number of the wire type of a field that is written one element a record. -/
def wireNumber {τ : Type} : FieldType τ → Nat
  | .scalar .double => 1
  | .scalar .text | .scalar .bytes => 2
  | .scalar _ => 0
  | .message _ => 2

/-- The key of a record. -/
def key (number wire : Nat) : Bytes := Varint.write (number * 8 + wire)

/-- The records of one slot, from the written contents of all entries of the message. -/
def slot {τ : Type} (contents : List (Nat × Bytes)) : Slot τ → Bytes
  | .choice _ members =>
    contents.flatMap fun entry =>
      match members.find? fun field => field.number = entry.1 with
      | some field => key field.number (wireNumber field.type) ++ entry.2
      | none => []
  | .single field =>
    let own := contents.filterMap fun entry =>
      if entry.1 = field.number then some entry.2 else none
    match field.label with
    | .packed => if own.isEmpty then [] else key field.number 2 ++ delimited own.flatten
    | _ => own.flatMap fun content => key field.number (wireNumber field.type) ++ content

mutual

/-- The written content of one value. -/
def content {τ : Type} (catalog : Catalog τ) (type : FieldType τ) (value : Value) : Bytes :=
  match type, value with
  | .message type, .message entries =>
    delimited ((catalog type).flatMap (slot (contents catalog type entries)))
  | .scalar kind, value => scalar kind value
  | .message _, _ => []

/-- The written contents of the entries of a message. -/
def contents {τ : Type} (catalog : Catalog τ) (type : τ) : List (Nat × Value) → List (Nat × Bytes)
  | [] => []
  | (number, value) :: rest =>
    match catalog.field? type number with
    | some field => (number, content catalog field.type value) :: contents catalog type rest
    | none => contents catalog type rest

end

/-- The octets of a message. -/
def encode {τ : Type} (catalog : Catalog τ) (type : τ) (message : Message) : Bytes :=
  (catalog type).flatMap (slot (contents catalog type message))

/-! ## Maps -/

/-- Whether octets come before others, or are the same. -/
def octetsLe : Bytes → Bytes → Bool
  | [], _ => true
  | _ :: _, [] => false
  | first :: rest, second :: others =>
    first < second || (first == second && octetsLe rest others)

/-- Of entries with one key the last, in the place of the first. -/
def lastOfEachKey (entries : List Message) : List Message :=
  entries.foldl
    (fun kept entry =>
      if kept.any fun other => other.text 1 = entry.text 1 then
        kept.map fun other => if other.text 1 = entry.text 1 then entry else other
      else kept ++ [entry])
    []

/-- The entries of a map in the order of their octets, one for each key. -/
def mapEntries {τ : Type} (catalog : Catalog τ) (type : τ) (entries : List Message) :
    List Message :=
  let written := (lastOfEachKey entries).map fun entry =>
    (delimited (encode catalog type entry), entry)
  (written.mergeSort fun first second => octetsLe first.1 second.1).map Prod.snd

/-! ## Reading -/

/-- The signed number of the low thirty-two bits. -/
def low32 (value : Nat) : Int :=
  let bits := value % 4294967296
  if bits < 2147483648 then bits else (bits : Int) - 4294967296

/-- The signed number of sixty-four bits. -/
def low64 (value : Nat) : Int :=
  if value < 9223372036854775808 then value else (value : Int) - 18446744073709551616

/-- The number of octets that stand the lowest first. -/
def ofLittleEndian (octets : Bytes) : Nat :=
  octets.foldr (fun octet value => value * 256 + octet.toNat) 0

/-- The number that a variable-length number means in a field. -/
def ofVarint (kind : Scalar) (value : Nat) : Int :=
  match kind with
  | .int32 | .enumeration .. => low32 value
  | .int64 => low64 value
  | .bool => if value = 0 then 0 else 1
  | .uint64 | .double | .text | .bytes => value

/-- The scalar of a record, if the record has the right shape. -/
def scalarOf? (kind : Scalar) (content : Record.Content) : Option Value :=
  match kind, content with
  | .text, .delimited octets => (Utf8.decode? octets).map .text
  | .bytes, .delimited octets => some (.bytes octets)
  | .text, _ | .bytes, _ => none
  | .double, .fixed64 octets => some (.int (ofLittleEndian octets))
  | .double, _ => none
  | kind, .varint value => some (.int (ofVarint kind value))
  | _, _ => none

/-- The elements that stand in one record, onto those read so far, last first. -/
def unpackOnto? (kind : Scalar) (read : List Value) (octets : Bytes) : Option (List Value) :=
  if octets.isEmpty then some read.reverse
  else match kind with
  | .double =>
    match _cut : Bytes.splitAt? 8 octets with
    | none => none
    | some (front, rest) => unpackOnto? kind (.int (ofLittleEndian front) :: read) rest
  | _ =>
    match _read : Varint.read octets with
    | none => none
    | some (value, rest) => unpackOnto? kind (.int (ofVarint kind value) :: read) rest
termination_by octets.length
decreasing_by
  · obtain ⟨whole, size⟩ := Bytes.splitAt?_eq_some _cut
    have := congrArg List.length whole
    simp only [List.length_append] at this
    omega
  · exact Varint.read_length _read

/-- The elements of a record of a repeated scalar: one, or all in one record. -/
def elementsOf? (kind : Scalar) (content : Record.Content) : Option (List Value) :=
  match kind.isPackable, content with
  | true, .delimited octets => unpackOnto? kind [] octets
  | _, content => (scalarOf? kind content).map fun value => [value]

/-- The octets of a record that holds a message. -/
def messageOctets? : Record.Content → Option Bytes
  | .delimited octets => some octets
  | _ => none

/-- The message that several records of one field make together. Each record must be readable by
itself; `read?` reads a message of the type. -/
def merged? (read? : Bytes → Option Message) (records : List Record.Content) : Option Message :=
  (records.mapM messageOctets?).bind fun parts =>
    (parts.mapM read?).bind fun messages =>
      match messages with
      | [message] => some message
      | _ => read? parts.flatten

/-- The last value of a field that occurs at most once. All records must be readable. -/
def last? {τ : Type} (read? : τ → Bytes → Option Message) (type : FieldType τ)
    (records : List Record.Content) : Option (Option Value) :=
  if records.isEmpty then some none
  else match type with
  | .scalar kind => (records.mapM (scalarOf? kind)).map List.getLast?
  | .message type => (merged? (read? type) records).map fun message => some (.message message)

/-- The entries that the records of one field make. -/
def fieldEntries? {τ : Type} (catalog : Catalog τ) (read? : τ → Bytes → Option Message)
    (field : MessageField τ) (records : List Record.Content) : Option (List (Nat × Value)) :=
  let one (value : Value) : List (Nat × Value) := [(field.number, value)]
  let all (values : List Value) : List (Nat × Value) :=
    values.map fun value => (field.number, value)
  match field.label, field.type with
  | .implicit, type =>
    (last? read? type records).map fun value =>
      match value with
      | some value => if value.isDefault then [] else one value
      | none => []
  | .explicit, type =>
    (last? read? type records).map fun value => (value.map one).getD []
  | .required, .scalar kind =>
    (last? read? (.scalar kind) records).map fun value => one (value.getD kind.default)
  | .required, .message type =>
    (last? read? (.message type) records).map fun value => (value.map one).getD []
  | .repeated, .scalar kind | .packed, .scalar kind | .map, .scalar kind =>
    (records.mapM (elementsOf? kind)).map fun elements => all elements.flatten
  | .repeated, .message type | .packed, .message type =>
    ((records.mapM messageOctets?).bind fun parts => parts.mapM (read? type)).map
      fun messages => all (messages.map .message)
  | .map, .message type =>
    ((records.mapM messageOctets?).bind fun parts => parts.mapM (read? type)).map
      fun messages => all ((mapEntries catalog type messages).map .message)

/-- The records at the end that have the field number of the last one. -/
def lastRun (records : List (Nat × Record.Content)) : List (Nat × Record.Content) :=
  match records.getLast? with
  | none => []
  | some last => (records.reverse.takeWhile fun record => record.1 = last.1).reverse

/-- Whether a record can be read as its field. -/
def isReadable {τ : Type} (read? : τ → Bytes → Option Message) (field : MessageField τ)
    (content : Record.Content) : Bool :=
  match field.type with
  | .scalar kind => (scalarOf? kind content).isSome
  | .message type => ((messageOctets? content).bind (read? type)).isSome

/-- The entries that the records of a message make in one slot. -/
def slotEntries? {τ : Type} (catalog : Catalog τ) (read? : τ → Bytes → Option Message)
    (records : List (Nat × Record.Content)) : Slot τ → Option (List (Nat × Value))
  | .single field =>
    fieldEntries? catalog read? field
      (records.filterMap fun record => if record.1 = field.number then some record.2 else none)
  | .choice _ members =>
    let own := records.filter fun record => members.any fun field => field.number = record.1
    let readable := own.all fun record =>
      members.any fun field => field.number = record.1 && isReadable read? field record.2
    let run := lastRun own
    if !readable then none
    else match members.find? fun field => run.any fun record => record.1 = field.number with
    | none => some []
    | some field =>
      (last? read? field.type (run.map Prod.snd)).map fun value =>
        (value.map fun value => [(field.number, value)]).getD []

/-- How the records of a message type are read. -/
def reading {τ : Type} (catalog : Catalog τ) (type : τ) (number : Nat) : Record.Reading :=
  match catalog.field? type number with
  | none => .unknown
  | some field => if field.label = .map then .entry else .announced

/-- The message that records make. -/
def ofRecords? {τ : Type} (catalog : Catalog τ) (read? : τ → Bytes → Option Message) (type : τ)
    (records : List (Nat × Record.Content)) : Option Message :=
  ((catalog type).mapM (slotEntries? catalog read? records)).map List.flatten

/-- The message of octets, where messages and groups may nest `depth` deep. -/
def decodeWithin? {τ : Type} (catalog : Catalog τ) : Nat → τ → Bytes → Option Message
  | 0, type, octets =>
    (Record.readAll? 0 (reading catalog type) octets).bind
      (ofRecords? catalog (fun _ _ => none) type)
  | depth + 1, type, octets =>
    (Record.readAll? (depth + 1) (reading catalog type) octets).bind
      (ofRecords? catalog (decodeWithin? catalog depth) type)

/-- How deep messages and groups may nest. -/
def maxDepth : Nat := 100

/-- The message of octets. -/
def decode? {τ : Type} (catalog : Catalog τ) (type : τ) (octets : Bytes) : Option Message :=
  decodeWithin? catalog maxDepth type octets

end RpcEcho.Proto.Binary
