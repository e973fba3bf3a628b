import RpcEcho.Proofs.Proto.Values

/-!
# The records of a message

The binary form of a message of a catalog is the records of what it holds in each slot, slot after
slot, and the records of a slot can be told from those of all others by their numbers.

* `Binary.recordContent`, `Binary.records`: the records of values and of messages.
* `Binary.encode_eq`: the octets of a message are those of its records.
* `Binary.filter_records`: the records of a slot among those of the whole message.
-/

namespace RpcEcho.Proto.Binary

variable {τ : Type} {catalog : Catalog τ} {depth : τ → Nat}

/-! ## Records of values -/

/-- The content of the record of a value. -/
def recordContent (catalog : Catalog τ) : FieldType τ → Value → Record.Content
  | .message type, .message message => .delimited (encode catalog type message)
  | _, .text value => .delimited (Utf8.encode value)
  | _, .bytes value => .delimited value
  | _, .int value => .varint (bitsOf value)
  | .scalar _, .message _ => .delimited []

/-- The records of the values that a field holds, from the content of each. -/
def recordsBy (content : Value → Record.Content) (field : MessageField τ) (values : List Value) :
    List (Nat × Record.Content) :=
  let contents := values.map content
  match field.label with
  | .packed =>
    if contents.isEmpty then []
    else [(field.number, .delimited (contents.flatMap Record.contentOctets))]
  | _ => contents.map fun content => (field.number, content)

/-- The records of the values that a field holds. -/
def fieldRecords (catalog : Catalog τ) (field : MessageField τ) (values : List Value) :
    List (Nat × Record.Content) :=
  let contents := values.map (recordContent catalog field.type)
  match field.label with
  | .packed =>
    if contents.isEmpty then []
    else [(field.number, .delimited (contents.flatMap Record.contentOctets))]
  | _ => contents.map fun content => (field.number, content)

/-- The records of a message, those of a packed field one by one. -/
def entryRecords (catalog : Catalog τ) (type : τ) (message : Message) :
    List (Nat × Record.Content) :=
  message.filterMap fun entry =>
    (catalog.field? type entry.1).map fun field =>
      (entry.1, recordContent catalog field.type entry.2)

/-- The records of a slot. -/
def slotRecords (catalog : Catalog τ) (type : τ) (message : Message) :
    Slot τ → List (Nat × Record.Content)
  | .single field => fieldRecords catalog field (message.values field.number)
  | .choice _ members => entryRecords catalog type (message.among members)

/-- The records of a message, slot after slot. -/
def records (catalog : Catalog τ) (type : τ) (message : Message) : List (Nat × Record.Content) :=
  (catalog type).flatMap (slotRecords catalog type message)

theorem scalar_of_number {kind : Scalar} (isNumber : kind.isPackable = true)
    (notDouble : kind ≠ .double) (number : Int) :
    scalar kind (.int number) = Varint.write (bitsOf number) := by
  cases kind with
  | int32 | int64 | uint64 | bool | enumeration _ _ => rfl
  | double => exact absurd rfl notDouble
  | text | bytes => cases isNumber

theorem wireNumber_of_number {kind : Scalar} (isNumber : kind.isPackable = true)
    (notDouble : kind ≠ .double) : wireNumber (.scalar kind : FieldType τ) = 0 := by
  cases kind with
  | int32 | int64 | uint64 | bool | enumeration _ _ => rfl
  | double => exact absurd rfl notDouble
  | text | bytes => cases isNumber

theorem scalarOf?_number {kind : Scalar} (isNumber : kind.isPackable = true)
    (notDouble : kind ≠ .double) (bits : Nat) :
    scalarOf? kind (.varint bits) = some (.int (ofVarint kind bits)) := by
  cases kind with
  | int32 | int64 | uint64 | bool | enumeration _ _ => rfl
  | double => exact absurd rfl notDouble
  | text | bytes => cases isNumber

theorem scalar_of_short {kind : Scalar} (short : IsShort kind) (number : Int) :
    scalar kind (.int number) = Varint.write (bitsOf number) :=
  scalar_of_number short.isPackable short.ne_double number

theorem wireNumber_of_short {kind : Scalar} (short : IsShort kind) :
    wireNumber (.scalar kind : FieldType τ) = 0 :=
  wireNumber_of_number short.isPackable short.ne_double

theorem scalarOf?_of_short {kind : Scalar} (short : IsShort kind) {number : Int}
    (fits : FitsWord number) : scalarOf? kind (.varint (bitsOf number)) = some (.int number) := by
  rw [scalarOf?_number short.isPackable short.ne_double, ofVarint_bitsOf short fits.1 fits.2]

theorem content_eq {type : FieldType τ} {value : Value} (valid : IsValue catalog type value) :
    content catalog type value = Record.contentOctets (recordContent catalog type value) := by
  cases valid with
  | message shaped each =>
      rw [content, recordContent, encode]
      rfl
  | scalar holds =>
      rw [content]
      rcases Scalar.Holds.cases holds with ⟨text, rfl, rfl⟩ | ⟨octets, rfl, rfl⟩ |
        ⟨short, number, rfl, fits⟩
      · rfl
      · rfl
      · exact scalar_of_short short number

/-- A value has the wire type of the field that holds it. -/
theorem wireType_recordContent {type : FieldType τ} {value : Value}
    (valid : IsValue catalog type value) :
    Record.wireNumber (Record.wireTypeOf (recordContent catalog type value)) = wireNumber type := by
  cases valid with
  | message shaped each => rfl
  | scalar holds =>
      rcases Scalar.Holds.cases holds with ⟨text, rfl, rfl⟩ | ⟨octets, rfl, rfl⟩ |
        ⟨short, number, rfl, fits⟩
      · rfl
      · rfl
      · exact (wireNumber_of_short short).symm

/-! ## The octets of a message -/

theorem contents_eq_filterMap (catalog : Catalog τ) (type : τ) (message : Message) :
    contents catalog type message = message.filterMap fun entry =>
      (catalog.field? type entry.1).map fun field =>
        (entry.1, content catalog field.type entry.2) := by
  induction message with
  | nil => rw [contents, List.filterMap_nil]
  | cons entry message inductionHypothesis =>
      obtain ⟨number, value⟩ := entry
      rw [contents, List.filterMap_cons]
      cases catalog.field? type number with
      | none => exact inductionHypothesis
      | some field =>
          exact congrArg ((number, content catalog field.type value) :: ·) inductionHypothesis

theorem contents_eq {type : τ} {message : Message}
    (each : catalog.Each type message (IsValue catalog)) :
    contents catalog type message = (entryRecords catalog type message).map written := by
  rw [contents_eq_filterMap, entryRecords, List.map_filterMap]
  refine List.filterMap_congr fun entry member => ?_
  cases found : catalog.field? type entry.1 with
  | none => rfl
  | some field =>
      simp only [Option.map_some, content_eq (each entry member field found)]
      rfl

/-- The written contents of a field are those of what it holds. -/
theorem own_contents {type : τ} {field : MessageField τ}
    (found : catalog.field? type field.number = some field) (message : Message) :
    ((contents catalog type message).filterMap fun entry =>
      if entry.1 = field.number then some entry.2 else none) =
        (message.values field.number).map (content catalog field.type) := by
  rw [contents_eq_filterMap, List.filterMap_filterMap, Message.values, List.map_filterMap]
  congr 1
  funext entry
  by_cases same : entry.1 = field.number
  · simp [same, found]
  · cases catalog.field? type entry.1 <;> simp [same]

/-- A field that is not packed writes one record for each value. -/
theorem slot_oneByOne {field : MessageField τ} (oneByOne : field.label ≠ .packed)
    (written : List (Nat × Bytes)) :
    slot written (.single field) =
      (written.filterMap fun entry => if entry.1 = field.number then some entry.2 else none).flatMap
        fun content => key field.number (wireNumber field.type) ++ content := by
  obtain ⟨number, name, type, label⟩ := field
  cases label with
  | packed => exact absurd rfl oneByOne
  | implicit | explicit | required | repeated | map => rfl

theorem recordsBy_oneByOne {field : MessageField τ} (oneByOne : field.label ≠ .packed)
    (content : Value → Record.Content) (values : List Value) :
    recordsBy content field values = values.map fun value => (field.number, content value) := by
  obtain ⟨number, name, type, label⟩ := field
  cases label with
  | packed => exact absurd rfl oneByOne
  | implicit | explicit | required | repeated | map => exact List.map_map

/-- What a field of its own writes is the records of what it holds, if each value is written as some
content of the wire type of the field. -/
theorem slot_recordsBy {type : τ} {message : Message} {field : MessageField τ}
    (found : catalog.field? type field.number = some field) {contentFor : Value → Record.Content}
    (isContent : ∀ value ∈ message.values field.number,
      content catalog field.type value = Record.contentOctets (contentFor value))
    (shaped : ∀ value ∈ message.values field.number,
      Record.wireNumber (Record.wireTypeOf (contentFor value)) = wireNumber field.type) :
    slot (contents catalog type message) (.single field) =
      (recordsBy contentFor field (message.values field.number)).flatMap Record.write := by
  by_cases isPacked : field.label = .packed
  · have written : (message.values field.number).map (content catalog field.type) =
        ((message.values field.number).map contentFor).map Record.contentOctets := by
      rw [List.map_map]
      exact List.map_congr_left isContent
    simp only [slot, recordsBy, isPacked, own_contents found, written, List.isEmpty_iff,
      List.map_eq_nil_iff]
    split
    · rfl
    · simp [Record.write, Record.wireTypeOf, Record.wireNumber, Record.contentOctets,
        List.flatMap_def]
  · rw [slot_oneByOne isPacked, recordsBy_oneByOne isPacked, own_contents found, List.flatMap_map,
      List.flatMap_map]
    refine List.flatMap_congr fun value member => ?_
    rw [Record.write, shaped value member, isContent value member]

/-- What a field of its own writes is the records of what it holds. -/
theorem slot_single {type : τ} {message : Message} {field : MessageField τ}
    (found : catalog.field? type field.number = some field)
    (each : catalog.Each type message (IsValue catalog)) :
    slot (contents catalog type message) (.single field) =
      (fieldRecords catalog field (message.values field.number)).flatMap Record.write :=
  have valid := isValue_of_mem found each
  slot_recordsBy found (fun value member => content_eq (valid value member))
    fun value member => wireType_recordContent (valid value member)

/-- A choice takes, of some records, those of its members. -/
theorem slot_choice_written {members : List (MessageField τ)} (name : String)
    {records : List (Nat × Record.Content)}
    (shaped : ∀ record ∈ records, ∀ field ∈ members, field.number = record.1 →
      Record.wireNumber (Record.wireTypeOf record.2) = wireNumber field.type) :
    slot (records.map written) (.choice name members) =
      (records.filter fun record => members.any fun field => field.number = record.1).flatMap
        Record.write := by
  rw [slot, List.flatMap_map]
  induction records with
  | nil => rfl
  | cons record records inductionHypothesis =>
      have rest := inductionHypothesis fun other member =>
        shaped other (List.mem_cons_of_mem _ member)
      rw [List.flatMap_cons, rest, List.filter_cons]
      cases chosen : members.find? fun field => field.number = (written record).1 with
      | none =>
          have isNoMember : (members.any fun field => decide (field.number = record.1)) = false :=
            List.any_eq_false.mpr (List.find?_eq_none.mp chosen)
          rw [isNoMember]
          rfl
      | some field =>
          have isMember := List.mem_of_find?_eq_some chosen
          have found := List.find?_some chosen
          have same : field.number = record.1 := of_decide_eq_true found
          have isAny : (members.any fun field => decide (field.number = record.1)) = true :=
            List.any_eq_true.mpr ⟨field, isMember, by simpa using same⟩
          have shape := shaped record List.mem_cons_self field isMember same
          rw [isAny, if_pos rfl, List.flatMap_cons, Record.write, shape, ← same]
          rfl

theorem entryRecords_among (catalog : Catalog τ) (type : τ) (message : Message)
    (members : List (MessageField τ)) :
    entryRecords catalog type (message.among members) =
      (entryRecords catalog type message).filter fun record =>
        members.any fun field => field.number = record.1 := by
  rw [entryRecords, entryRecords, Message.among, List.filterMap_filter, List.filter_filterMap]
  refine List.filterMap_congr fun entry _ => ?_
  cases catalog.field? type entry.1 with
  | none => split <;> rfl
  | some field => rw [Option.map_some, Option.filter_some]

/-- What a choice writes is the records of those of its members that are present. -/
theorem slot_choice {type : τ} {message : Message} {members : List (MessageField τ)}
    (found : ∀ field ∈ members, catalog.field? type field.number = some field)
    (each : catalog.Each type message (IsValue catalog)) (name : String) :
    slot (contents catalog type message) (.choice name members) =
      (entryRecords catalog type (message.among members)).flatMap Record.write := by
  rw [contents_eq each, entryRecords_among, slot_choice_written]
  intro record member field isMember same
  obtain ⟨entry, inMessage, made⟩ := List.mem_filterMap.mp member
  obtain ⟨other, known, rfl⟩ := Option.map_eq_some_iff.mp made
  have again := found field isMember
  rw [same, known] at again
  cases again
  exact wireType_recordContent (each entry inMessage field known)

/-- The octets of a message are those of its records. -/
theorem encode_eq (sound : catalog.IsSound depth) {type : τ} {message : Message}
    (each : catalog.Each type message (IsValue catalog)) :
    encode catalog type message = (records catalog type message).flatMap Record.write := by
  rw [encode, records, List.flatMap_assoc]
  refine List.flatMap_congr fun slot member => ?_
  cases slot with
  | single field =>
      exact slot_single (sound.field?_eq (Catalog.mem_fields member List.mem_cons_self)) each
  | choice name members =>
      exact slot_choice (fun field isMember =>
        sound.field?_eq (Catalog.mem_fields member isMember)) each name

/-! ## The records of a slot among all -/

/-- A slot has a field of a number. -/
def covers (slot : Slot τ) (number : Nat) : Bool :=
  slot.fields.any fun field => field.number = number

theorem covers_eq_true {slot : Slot τ} {number : Nat} :
    covers slot number = true ↔ ∃ field ∈ slot.fields, field.number = number := by
  simp [covers]

theorem fst_of_mem_recordsBy {content : Value → Record.Content} {field : MessageField τ}
    {values : List Value} {record : Nat × Record.Content}
    (member : record ∈ recordsBy content field values) : record.1 = field.number := by
  rw [recordsBy] at member
  split at member
  · split at member
    · cases member
    · rw [List.mem_singleton.mp member]
  · obtain ⟨_, _, rfl⟩ := List.mem_map.mp member
    rfl

theorem fst_of_mem_fieldRecords {field : MessageField τ} {values : List Value}
    {record : Nat × Record.Content} (member : record ∈ fieldRecords catalog field values) :
    record.1 = field.number :=
  fst_of_mem_recordsBy member

theorem covers_of_mem_slotRecords {type : τ} {message : Message} {slot : Slot τ}
    {record : Nat × Record.Content} (member : record ∈ slotRecords catalog type message slot) :
    covers slot record.1 = true := by
  cases slot with
  | single field =>
      rw [fst_of_mem_fieldRecords member]
      simp [covers, Slot.fields]
  | choice name members =>
      obtain ⟨entry, isPresent, made⟩ := List.mem_filterMap.mp member
      obtain ⟨_, _, rfl⟩ := Option.map_eq_some_iff.mp made
      exact (List.mem_filter.mp isPresent).2

/-- Slots with different numbers do not get the records of one another, nor the entries. -/
theorem filter_covers {α : Type} {slots : List (Slot τ)}
    (increasing : ((slots.flatMap Slot.fields).map MessageField.number).Pairwise (· < ·))
    {made : Slot τ → List (Nat × α)}
    (covered : ∀ slot ∈ slots, ∀ record ∈ made slot, covers slot record.1 = true)
    {slot : Slot τ} (member : slot ∈ slots) :
    ((slots.flatMap made).filter fun record => covers slot record.1) = made slot := by
  induction slots with
  | nil => cases member
  | cons first slots inductionHypothesis =>
      rw [List.flatMap_cons, List.map_append, List.pairwise_append] at increasing
      obtain ⟨_, increasingRest, apart⟩ := increasing
      -- No number belongs both to the first slot and to a later one.
      have disjoint : ∀ later ∈ slots, ∀ number, covers first number = true →
          covers later number = true → False := by
        intro later isLater number inFirst inLater
        obtain ⟨field, isField, rfl⟩ := covers_eq_true.mp inFirst
        obtain ⟨other, isOther, same⟩ := covers_eq_true.mp inLater
        have below := apart _ (List.mem_map_of_mem isField) _
          (List.mem_map_of_mem (List.mem_flatMap.mpr ⟨later, isLater, isOther⟩))
        omega
      have coveredFirst := covered first List.mem_cons_self
      have coveredRest : ∀ slot ∈ slots, ∀ record ∈ made slot, covers slot record.1 = true :=
        fun slot isLater => covered slot (List.mem_cons_of_mem first isLater)
      rw [List.flatMap_cons, List.filter_append]
      rcases List.mem_cons.mp member with rfl | inRest
      · have own : ((made slot).filter fun record => covers slot record.1) = made slot :=
          List.filter_eq_self.mpr coveredFirst
        have others : ((slots.flatMap made).filter fun record => covers slot record.1) = [] := by
          rw [List.filter_eq_nil_iff]
          intro record isRecord inSlot
          obtain ⟨later, isLater, isMade⟩ := List.mem_flatMap.mp isRecord
          exact disjoint later isLater _ inSlot (coveredRest later isLater record isMade)
        rw [own, others, List.append_nil]
      · have front : ((made first).filter fun record => covers slot record.1) = [] := by
          rw [List.filter_eq_nil_iff]
          exact fun record isMade inSlot =>
            disjoint slot inRest _ (coveredFirst record isMade) inSlot
        rw [front, List.nil_append, inductionHypothesis increasingRest coveredRest inRest]

theorem filter_records (sound : catalog.IsSound depth) {type : τ} (message : Message)
    {slot : Slot τ} (member : slot ∈ catalog type) :
    ((records catalog type message).filter fun record => covers slot record.1) =
      slotRecords catalog type message slot :=
  filter_covers (sound.increasing type) (fun _ _ _ => covers_of_mem_slotRecords) member

end RpcEcho.Proto.Binary
