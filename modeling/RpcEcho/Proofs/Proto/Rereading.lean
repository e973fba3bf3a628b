import RpcEcho.Proofs.Proto.ReadValues

/-!
# Reading what was read

A message that was read is written, and what is written is read as the message again: no field is
lost and none is changed, whatever order and shape its records had at first. This holds of catalogs
without choices and maps, whose types may refer to themselves.

* `Catalog.IsPlain`: such catalogs.
* `Catalog.IsRead`: what the messages are that are read, by the recursion of the reader.
* `Binary.isRead_of_decodeWithin?`: all that is read is such a message.
* `Binary.decodeWithin?_encode_of_isRead`: all such messages are read again.
-/

namespace RpcEcho.Proto

variable {τ : Type}

/-! ## Plain catalogs -/

/-- What a field may hold, and how often, for it to be read again as it was read. -/
def MessageField.IsPlain (field : MessageField τ) : Prop :=
  match field.type, field.label with
  | .scalar _, .explicit | .scalar _, .required | .scalar _, .repeated => True
  | .scalar kind, .packed => Binary.IsShort kind
  | .message _, .explicit | .message _, .repeated => True
  | .scalar _, .implicit | .scalar _, .map => False
  | .message _, .implicit | .message _, .required | .message _, .packed | .message _, .map => False

instance : DecidablePred (MessageField.IsPlain : MessageField τ → Prop)
  | ⟨_, _, .scalar _, .explicit⟩ | ⟨_, _, .scalar _, .required⟩ | ⟨_, _, .scalar _, .repeated⟩
  | ⟨_, _, .message _, .explicit⟩ | ⟨_, _, .message _, .repeated⟩ => .isTrue trivial
  | ⟨_, _, .scalar .int32, .packed⟩ | ⟨_, _, .scalar (.enumeration ..), .packed⟩ => .isTrue trivial
  | ⟨_, _, .scalar .text, .packed⟩ | ⟨_, _, .scalar .bytes, .packed⟩
  | ⟨_, _, .scalar .int64, .packed⟩ | ⟨_, _, .scalar .uint64, .packed⟩
  | ⟨_, _, .scalar .bool, .packed⟩ | ⟨_, _, .scalar .double, .packed⟩
  | ⟨_, _, .scalar _, .implicit⟩ | ⟨_, _, .scalar _, .map⟩
  | ⟨_, _, .message _, .implicit⟩ | ⟨_, _, .message _, .required⟩
  | ⟨_, _, .message _, .packed⟩ | ⟨_, _, .message _, .map⟩ => .isFalse id

theorem MessageField.IsPlain.ne_map {field : MessageField τ} (plain : field.IsPlain) :
    field.label ≠ .map := by
  obtain ⟨number, name, type, label⟩ := field
  rintro rfl
  cases type <;> cases plain

/-- A catalog of plain fields, each in a slot of its own. -/
structure Catalog.IsPlain (catalog : Catalog τ) : Prop where
  increasing : ∀ type, ((catalog.fields type).map MessageField.number).Pairwise (· < ·)
  numbers : ∀ type, ∀ field ∈ catalog.fields type,
    0 < field.number ∧ field.number < Record.fieldBound
  single : ∀ type, catalog type = (catalog.fields type).map .single
  fields : ∀ type, ∀ field ∈ catalog.fields type, field.IsPlain

/-! ## Messages that are read -/

/-- A value of a field, where the messages inside it are of some kind. -/
def FieldType.Holds (inner : τ → Message → Prop) : FieldType τ → Value → Prop
  | .scalar kind, value => kind.Reads value
  | .message type, .message entries => inner type entries
  | .message _, .text _ | .message _, .bytes _ | .message _, .int _ => False

theorem FieldType.Holds.imp {inner others : τ → Message → Prop} {type : FieldType τ}
    {value : Value} (holds : type.Holds inner value)
    (implied : ∀ inside held, type = .message inside → value = .message held →
      inner inside held → others inside held) : type.Holds others value := by
  cases type with
  | scalar kind => exact holds
  | message inside =>
      cases value with
      | message held => exact implied inside held rfl rfl holds
      | text _ | bytes _ | int _ => cases holds

/-- A message is what its fields hold, in the order of the fields, and each holds as many values as
it may. -/
structure Catalog.Holds (catalog : Catalog τ) (inner : τ → Message → Prop) (type : τ)
    (message : Message) : Prop where
  whole : Message.ofFields (catalog.fields type) (fun field => message.values field.number) =
    message
  admits : ∀ field ∈ catalog.fields type, field.label.Admits (message.values field.number)
  each : ∀ field ∈ catalog.fields type, ∀ value ∈ message.values field.number,
    field.type.Holds inner value

/-- The messages that a reader gives, where messages may nest `depth` deep. -/
def Catalog.IsRead (catalog : Catalog τ) : Nat → τ → Message → Prop
  | 0 => catalog.Holds fun _ _ => False
  | depth + 1 => catalog.Holds (catalog.IsRead depth)

namespace Catalog

variable {catalog : Catalog τ} {inner : τ → Message → Prop} {type : τ} {message : Message}

/-- A message that is put together from what each field may hold. -/
theorem holds_ofFields (plain : catalog.IsPlain) {held : MessageField τ → List Value}
    (admits : ∀ field ∈ catalog.fields type, field.label.Admits (held field))
    (each : ∀ field ∈ catalog.fields type, ∀ value ∈ held field, field.type.Holds inner value) :
    catalog.Holds inner type (Message.ofFields (catalog.fields type) held) := by
  have values : ∀ field ∈ catalog.fields type,
      (Message.ofFields (catalog.fields type) held).values field.number = held field :=
    fun field member => Message.values_ofFields (plain.increasing type) held member
  refine ⟨Message.ofFields_congr values, fun field member => ?_, fun field member => ?_⟩
  · rw [values field member]
    exact admits field member
  · rw [values field member]
    exact each field member

/-- A message keeps its type if a field that may be absent is dropped. -/
theorem Holds.drop (plain : catalog.IsPlain) (holds : catalog.Holds inner type message)
    {number : Nat} (optional : ∀ field ∈ catalog.fields type, field.number = number →
      field.label.Admits []) :
    catalog.Holds inner type (message.filter fun entry => entry.1 ≠ number) := by
  let held (field : MessageField τ) : List Value :=
    if field.number = number then [] else message.values field.number
  have whole : message.filter (fun entry => entry.1 ≠ number) =
      Message.ofFields (catalog.fields type) held := by
    conv_lhs => rw [← holds.whole]
    rw [Message.ofFields, Message.ofFields, List.filter_flatMap]
    refine List.flatMap_congr fun field _ => ?_
    by_cases isDropped : field.number = number <;>
      simp [held, isDropped, List.filter_map, Function.comp_def]
  rw [whole]
  refine holds_ofFields plain (fun field member => ?_) fun field member => ?_
  · by_cases isDropped : field.number = number
    · simpa only [held, if_pos isDropped] using optional field member isDropped
    · simpa only [held, if_neg isDropped] using holds.admits field member
  · by_cases isDropped : field.number = number
    · simp [held, isDropped]
    · simpa only [held, if_neg isDropped] using holds.each field member

end Catalog

namespace Binary

variable {catalog : Catalog τ} {inner : τ → Message → Prop} {read? : τ → Bytes → Option Message}

/-! ## What is read -/

section Reading

variable (reads : ∀ (type : τ) (octets : Bytes) (message : Message),
  read? type octets = some message → inner type message)

include reads

theorem holds_of_last? {type : FieldType τ} {records : List Record.Content}
    (fits : ∀ content ∈ records, Record.ContentFits content) {value : Value}
    (found : last? read? type records = some (some value)) : type.Holds inner value := by
  unfold last? at found
  split at found
  · cases found
  · cases type with
    | scalar kind =>
        obtain ⟨values, areRead, isLast⟩ := Option.map_eq_some_iff.mp found
        obtain ⟨content, member, isRead⟩ :=
          exists_of_mem_mapM areRead (List.mem_of_getLast? isLast)
        exact reads_of_scalarOf? (fits content member) isRead
    | message type =>
        obtain ⟨message, isMerged, same⟩ := Option.map_eq_some_iff.mp found
        cases same
        obtain ⟨parts, _, rest⟩ := Option.bind_eq_some_iff.mp isMerged
        obtain ⟨messages, areRead, isWhole⟩ := Option.bind_eq_some_iff.mp rest
        split at isWhole
        · cases isWhole
          obtain ⟨part, _, isRead⟩ := exists_of_mem_mapM areRead List.mem_cons_self
          exact reads _ _ _ isRead
        · exact reads _ _ _ isWhole

/-- What is read of a plain field: as many values of it as its label admits. -/
theorem exists_of_fieldEntries? {field : MessageField τ} (plain : field.IsPlain)
    {records : List Record.Content} (fits : ∀ content ∈ records, Record.ContentFits content)
    {entries : Message} (found : fieldEntries? catalog read? field records = some entries) :
    ∃ values : List Value, entries = values.map (fun value => (field.number, value)) ∧
      field.label.Admits values ∧ ∀ value ∈ values, field.type.Holds inner value := by
  obtain ⟨number, name, type, label⟩ := field
  have last {type : FieldType τ} {value? : Option Value}
      (isLast : last? read? type records = some value?) :
      ∀ value ∈ value?, type.Holds inner value := fun value isValue =>
    holds_of_last? reads fits (isLast.trans (congrArg some isValue))
  have elements {kind : Scalar} {read : List (List Value)}
      (areRead : records.mapM (elementsOf? kind) = some read) :
      ∀ value ∈ read.flatten, kind.Reads value := by
    intro value member
    obtain ⟨values, isOne, isValue⟩ := List.mem_flatten.mp member
    obtain ⟨content, isContent, isRead⟩ := exists_of_mem_mapM areRead isOne
    exact reads_of_elementsOf? (fits content isContent) isRead value isValue
  cases label with
  | implicit | map => cases type <;> cases plain
  | explicit =>
      obtain ⟨value?, isLast, rfl⟩ := Option.map_eq_some_iff.mp found
      refine ⟨value?.toList, ?_, ?_, fun value member => last isLast value (by simpa using member)⟩
      · cases value? <;> rfl
      · cases value? <;> simp [Label.Admits]
  | required =>
      cases type with
      | message type => cases plain
      | scalar kind =>
          obtain ⟨value?, isLast, rfl⟩ := Option.map_eq_some_iff.mp found
          refine ⟨[value?.getD kind.default], rfl, rfl, fun value member => ?_⟩
          rw [List.mem_singleton.mp member]
          cases value? with
          | some value => exact last isLast value rfl
          | none => cases kind <;> simp [FieldType.Holds, Scalar.Reads, Scalar.default, FitsWord]
  | packed =>
      cases type with
      | message type => cases plain
      | scalar kind =>
          obtain ⟨read, areRead, rfl⟩ := Option.map_eq_some_iff.mp found
          exact ⟨read.flatten, rfl, trivial, elements areRead⟩
  | repeated =>
      cases type with
      | scalar kind =>
          obtain ⟨read, areRead, rfl⟩ := Option.map_eq_some_iff.mp found
          exact ⟨read.flatten, rfl, trivial, elements areRead⟩
      | message type =>
          obtain ⟨messages, areRead, rfl⟩ := Option.map_eq_some_iff.mp found
          obtain ⟨parts, _, eachRead⟩ := Option.bind_eq_some_iff.mp areRead
          refine ⟨messages.map .message, rfl, trivial, fun value member => ?_⟩
          obtain ⟨message, isMessage, rfl⟩ := List.mem_map.mp member
          obtain ⟨part, _, isRead⟩ := exists_of_mem_mapM eachRead isMessage
          exact reads _ _ _ isRead

omit reads in
theorem contentFits_of_mem_own {records : List (Nat × Record.Content)} {number : Nat}
    (fits : ∀ record ∈ records, Record.ContentFits record.2) :
    ∀ content ∈ own number records, Record.ContentFits content := by
  intro content isOwn
  obtain ⟨record, isRecord, taken⟩ := List.mem_filterMap.mp isOwn
  split at taken
  · cases taken
    exact fits record isRecord
  · cases taken

/-- What records make is put together from what they make in each field. -/
theorem holds_of_ofRecords? (plain : catalog.IsPlain) {type : τ}
    {records : List (Nat × Record.Content)} (fits : ∀ record ∈ records, Record.ContentFits record.2)
    {message : Message} (found : ofRecords? catalog read? type records = some message) :
    catalog.Holds inner type message := by
  obtain ⟨parts, areParts, rfl⟩ := Option.map_eq_some_iff.mp found
  obtain ⟨areRead, whole⟩ := eq_map_getD_of_mapM areParts []
  -- The values of a field are those of the entries that its records make.
  let made (field : MessageField τ) : Message :=
    (slotEntries? catalog read? records (.single field)).getD []
  have values : ∀ field ∈ catalog.fields type,
      made field = ((made field).map Prod.snd).map (fun value => (field.number, value)) ∧
        field.label.Admits ((made field).map Prod.snd) ∧
          ∀ value ∈ (made field).map Prod.snd, field.type.Holds inner value := by
    intro field member
    have isSlot : .single field ∈ catalog type := by
      rw [plain.single type]
      exact List.mem_map_of_mem member
    obtain ⟨values, shape, admits, holds⟩ :=
      exists_of_fieldEntries? reads (plain.fields type field member)
        (contentFits_of_mem_own fits) (areRead _ isSlot)
    have isMade : made field = values.map fun value => (field.number, value) := shape
    have unpaired : (made field).map Prod.snd = values := by
      rw [isMade, List.map_map]
      exact List.map_id values
    rw [unpaired]
    exact ⟨isMade, admits, holds⟩
  have joined : parts.flatten =
      Message.ofFields (catalog.fields type) fun field => (made field).map Prod.snd := by
    rw [whole, plain.single type, List.map_map, ← List.flatMap_def, Message.ofFields]
    exact List.flatMap_congr fun field member => (values field member).1
  rw [joined]
  exact Catalog.holds_ofFields plain (fun field member => (values field member).2.1)
    fun field member => (values field member).2.2

end Reading

/-- All that is read is a message as it is read. -/
theorem isRead_of_decodeWithin? (plain : catalog.IsPlain) {depth : Nat} {type : τ} {octets : Bytes}
    {message : Message} (found : decodeWithin? catalog depth type octets = some message) :
    catalog.IsRead depth type message := by
  induction depth generalizing type octets message with
  | zero =>
      rw [decodeWithin?] at found
      obtain ⟨records, areRead, isMade⟩ := Option.bind_eq_some_iff.mp found
      exact holds_of_ofRecords? (fun _ _ _ impossible => by cases impossible) plain
        (Record.contentFits_of_mem_readAll? areRead) isMade
  | succ depth inductionHypothesis =>
      rw [decodeWithin?] at found
      obtain ⟨records, areRead, isMade⟩ := Option.bind_eq_some_iff.mp found
      have reads (type : τ) (octets : Bytes) (message : Message)
          (isRead : decodeWithin? catalog depth type octets = some message) :
          catalog.IsRead depth type message := inductionHypothesis isRead
      exact holds_of_ofRecords? reads plain
        (Record.contentFits_of_mem_readAll? areRead) isMade

/-! ## What is written -/

theorem content_eq_contentOf {type : FieldType τ} {value : Value} (holds : type.Holds inner value) :
    content catalog type value = Record.contentOctets (contentOf catalog type value) := by
  cases type with
  | message type =>
      cases value with
      | message message =>
          rw [contentOf_message, content, recordContent, encode]
          rfl
      | text _ | bytes _ | int _ => cases holds
  | scalar kind =>
      rw [content]
      rcases Scalar.Reads.cases holds with ⟨text, rfl, rfl⟩ | ⟨octets, rfl, rfl⟩ |
        ⟨number, rfl, rfl | ⟨isNumber, notDouble⟩⟩
      · rfl
      · rfl
      · rfl
      · rw [contentOf_number isNumber notDouble]
        exact scalar_of_number isNumber notDouble number

/-- A value that was read is written with the wire type of its field. -/
theorem wireType_contentOf {type : FieldType τ} {value : Value} (holds : type.Holds inner value) :
    Record.wireNumber (Record.wireTypeOf (contentOf catalog type value)) = wireNumber type := by
  cases type with
  | message type =>
      cases value with
      | message message => rfl
      | text _ | bytes _ | int _ => cases holds
  | scalar kind =>
      rcases Scalar.Reads.cases holds with ⟨text, rfl, rfl⟩ | ⟨octets, rfl, rfl⟩ |
        ⟨number, rfl, rfl | ⟨isNumber, notDouble⟩⟩
      · rfl
      · rfl
      · rfl
      · rw [contentOf_number isNumber notDouble]
        exact (wireNumber_of_number isNumber notDouble).symm

theorem contentOf_cases {type : FieldType τ} {value : Value} (holds : type.Holds inner value) :
    (∃ octets, contentOf catalog type value = .delimited octets) ∨
      Record.ContentFits (contentOf catalog type value) := by
  cases type with
  | message type =>
      cases value with
      | message message => exact .inl ⟨_, rfl⟩
      | text _ | bytes _ | int _ => cases holds
  | scalar kind =>
      rcases Scalar.Reads.cases holds with ⟨text, rfl, rfl⟩ | ⟨octets, rfl, rfl⟩ |
        ⟨number, rfl, rfl | ⟨isNumber, notDouble⟩⟩
      · exact .inl ⟨_, rfl⟩
      · exact .inl ⟨_, rfl⟩
      · exact .inr (lowOctets_length _ 8)
      · rw [contentOf_number isNumber notDouble]
        exact .inr (bitsOf_lt number)

/-- The records of the values that a field holds, doubles among them. -/
def recordsOf (catalog : Catalog τ) (field : MessageField τ) (values : List Value) :
    List (Nat × Record.Content) :=
  recordsBy (contentOf catalog field.type) field values

/-- The records of a message, field after field. -/
def readRecords (catalog : Catalog τ) (type : τ) (message : Message) :
    List (Nat × Record.Content) :=
  (catalog.fields type).flatMap fun field =>
    recordsOf catalog field (message.values field.number)

/-- The octets of a message are those of its records. -/
theorem encode_eq_of_holds (plain : catalog.IsPlain) {type : τ} {message : Message}
    (holds : catalog.Holds inner type message) :
    encode catalog type message = (readRecords catalog type message).flatMap Record.write := by
  rw [encode, readRecords, List.flatMap_assoc]
  conv_lhs => rw [plain.single type, List.flatMap_map]
  refine List.flatMap_congr fun field member => ?_
  have each := holds.each field member
  exact slot_recordsBy (Catalog.field?_eq (plain.increasing type) member)
    (fun value isHeld => content_eq_contentOf (each value isHeld))
    fun value isHeld => wireType_contentOf (each value isHeld)

/-! ## What is read again -/

/-- Each field gets its own records. -/
theorem own_readRecords (plain : catalog.IsPlain) {type : τ} (message : Message)
    {field : MessageField τ} (member : field ∈ catalog.fields type) :
    own field.number (readRecords catalog type message) =
      (recordsOf catalog field (message.values field.number)).map Prod.snd := by
  let made (slot : Slot τ) : List (Nat × Record.Content) :=
    slot.fields.flatMap fun field => recordsOf catalog field (message.values field.number)
  have isSlot : .single field ∈ catalog type := by
    rw [plain.single type]
    exact List.mem_map_of_mem member
  have covered : ∀ slot ∈ catalog type, ∀ record ∈ made slot, covers slot record.1 = true := by
    intro slot _ record isMade
    obtain ⟨other, isField, inOther⟩ := List.mem_flatMap.mp isMade
    exact covers_eq_true.mpr ⟨other, isField, (fst_of_mem_recordsBy inOther).symm⟩
  have whole : (catalog type).flatMap made = readRecords catalog type message := by
    rw [readRecords, Catalog.fields, List.flatMap_assoc]
  have owned := filter_covers (plain.increasing type) covered isSlot
  rw [whole] at owned
  rw [own_eq_filter_covers, owned]
  exact congrArg (List.map Prod.snd) (List.flatMap_singleton _ _)

theorem record_cases {field : MessageField τ} {values : List Value}
    (each : ∀ value ∈ values, field.type.Holds inner value) {record : Nat × Record.Content}
    (member : record ∈ recordsOf catalog field values) :
    (∃ octets, record.2 = .delimited octets) ∨ Record.ContentFits record.2 := by
  rw [recordsOf, recordsBy] at member
  split at member
  · split at member
    · cases member
    · rw [List.mem_singleton.mp member]
      exact .inl ⟨_, rfl⟩
  · obtain ⟨_, isContent, rfl⟩ := List.mem_map.mp member
    obtain ⟨value, isHeld, rfl⟩ := List.mem_map.mp isContent
    exact contentOf_cases (each value isHeld)

/-- The records of a message whose octets fit are readable. -/
theorem isReadable_of_mem_readRecords (plain : catalog.IsPlain) {type : τ} {message : Message}
    (holds : catalog.Holds inner type message)
    (fits : (encode catalog type message).length < Varint.bound) :
    ∀ record ∈ readRecords catalog type message,
      Record.IsReadable (reading catalog type) record := by
  intro record member
  obtain ⟨field, isField, inField⟩ := List.mem_flatMap.mp member
  obtain ⟨positive, bounded⟩ := plain.numbers type field isField
  have number := fst_of_mem_recordsBy inField
  have known := Catalog.field?_eq (plain.increasing type) isField
  refine ⟨number ▸ positive, number ▸ bounded, ?_, .inl ?_⟩
  · rcases record_cases (holds.each field isField) inField with ⟨octets, shape⟩ | contentFits
    · have isDelimited : (record.1, .delimited octets) ∈ readRecords catalog type message :=
        shape ▸ member
      rw [encode_eq_of_holds plain holds] at fits
      rw [shape]
      exact Nat.lt_of_le_of_lt (length_le_of_delimited isDelimited) fits
    · exact contentFits
  · simp [reading, number, known, (plain.fields type field isField).ne_map]

/-- A message is read from what is written of it. -/
abbrev Rereads (catalog : Catalog τ) (read? : τ → Bytes → Option Message) (type : τ)
    (message : Message) : Prop :=
  read? type (encode catalog type message) = some message

theorem last?_contentOf {type : FieldType τ} {value : Value}
    (holds : type.Holds (Rereads catalog read?) value) :
    last? read? type [contentOf catalog type value] = some (some value) := by
  cases type with
  | scalar kind => simp [last?, scalarOf?_contentOf holds]
  | message type =>
      cases value with
      | message message =>
          have back : ReadsBack catalog read? (.message type) (.message message) := holds
          exact last?_single back
      | text _ | bytes _ | int _ => cases holds

theorem elementsOf?_contentOf {kind : Scalar} {value : Value} (reads : kind.Reads value) :
    elementsOf? kind (contentOf catalog (.scalar kind) value) = some [value] := by
  have isRead : scalarOf? kind (contentOf catalog (.scalar kind) value) = some value :=
    scalarOf?_contentOf reads
  -- Only a text or octets stand in content of a given length, and those are read one by one.
  have notPacked (octets : Bytes) (isNumber : kind.isPackable = true) :
      contentOf catalog (.scalar kind) value ≠ .delimited octets := by
    rcases Scalar.Reads.cases reads with ⟨text, rfl, rfl⟩ | ⟨octets, rfl, rfl⟩ |
      ⟨number, rfl, rfl | ⟨_, notDouble⟩⟩
    · cases isNumber
    · cases isNumber
    · nofun
    · rw [contentOf_number isNumber notDouble]
      nofun
  rw [elementsOf?]
  · rw [isRead, Option.map_some]
  · exact fun octets isNumber => notPacked octets isNumber

theorem IsShort.holds_of_reads {kind : Scalar} (short : IsShort kind) {value : Value}
    (reads : kind.Reads value) : kind.Holds value := by
  cases kind with
  | int32 | enumeration _ _ =>
      cases value with
      | int number => exact reads
      | text _ | bytes _ | message _ => cases reads
  | text | bytes | int64 | uint64 | bool | double => cases short

theorem IsShort.contentOf_eq {kind : Scalar} (short : IsShort kind) :
    contentOf catalog (.scalar kind) = recordContent catalog (.scalar kind) := by
  funext value
  cases kind with
  | int32 | enumeration _ _ => rfl
  | text | bytes | int64 | uint64 | bool | double => cases short

/-- What is written of a plain field is read as what the field holds. -/
theorem fieldEntries?_recordsOf {field : MessageField τ} (plain : field.IsPlain)
    {values : List Value} (admits : field.label.Admits values)
    (each : ∀ value ∈ values, field.type.Holds (Rereads catalog read?) value) :
    fieldEntries? catalog read? field ((recordsOf catalog field values).map Prod.snd) =
      some (values.map fun value => (field.number, value)) := by
  obtain ⟨number, name, type, label⟩ := field
  have oneByOne (contents : List Record.Content) :
      (contents.map fun content => (number, content)).map Prod.snd = contents := by
    rw [List.map_map]
    exact List.map_id contents
  cases label with
  | implicit | map => cases type <;> cases plain
  | explicit =>
      simp only [recordsOf, recordsBy, oneByOne, fieldEntries?]
      cases values with
      | nil => rfl
      | cons value rest =>
          have noMore : rest.length ≤ 0 := Nat.le_of_succ_le_succ admits
          cases List.eq_nil_of_length_eq_zero (Nat.le_zero.mp noMore)
          simp [last?_contentOf (each value List.mem_cons_self)]
  | required =>
      simp only [recordsOf, recordsBy, oneByOne]
      cases type with
      | message type => cases plain
      | scalar kind =>
          obtain ⟨value, rfl⟩ := List.length_eq_one_iff.mp admits
          have isLast := last?_contentOf (each value List.mem_cons_self)
          simp only [fieldEntries?, List.map_cons, List.map_nil, isLast]
          rfl
  | repeated =>
      cases type with
      | scalar kind =>
          have elements : (values.map (contentOf catalog (.scalar kind))).mapM (elementsOf? kind) =
              some (values.map fun value => [value]) :=
            mapM_map_eq_some fun value member => elementsOf?_contentOf (each value member)
          have joined : (values.map fun value => [value]).flatten = values := by
            rw [← List.flatMap_def, List.flatMap_singleton']
          simp only [recordsOf, recordsBy, oneByOne, fieldEntries?, elements, Option.map_some,
            joined]
      | message type =>
          have same : (messagesOf values).map .message = values := by
            refine map_message_messagesOf fun value member => ?_
            cases value with
            | message message => exact ⟨message, rfl⟩
            | text _ | bytes _ | int _ => cases each _ member
          have found := messages_read fun message member =>
            each (.message message) (same ▸ List.mem_map_of_mem member)
          rw [same] at found
          simp only [recordsOf, recordsBy, oneByOne, fieldEntries?, contentOf_message]
          rw [found, Option.map_some, same]
  | packed =>
      cases type with
      | message type => cases plain
      | scalar kind =>
          have short : IsShort kind := plain
          have unpacked := unpackOnto?_contents catalog short
            (fun value member => short.holds_of_reads (each value member)) []
          have isRead (octets : Bytes) : elementsOf? kind (.delimited octets) =
              unpackOnto? kind [] octets := by
            rw [elementsOf?]
            exact short.isPackable
          simp only [recordsOf, recordsBy, fieldEntries?, short.contentOf_eq]
          cases values with
          | nil => rfl
          | cons value values =>
              rw [List.map_cons, List.flatMap_cons] at unpacked
              simp [isRead, unpacked]

/-- Each slot of a message reads what the message holds in it. -/
theorem ofRecords?_readRecords (plain : catalog.IsPlain) {type : τ} {message : Message}
    (holds : catalog.Holds (Rereads catalog read?) type message) :
    ofRecords? catalog read? type (readRecords catalog type message) = some message := by
  have each : ∀ field ∈ catalog.fields type,
      slotEntries? catalog read? (readRecords catalog type message) (.single field) =
        some ((message.values field.number).map fun value => (field.number, value)) := by
    intro field member
    change fieldEntries? catalog read? field (own field.number _) = _
    rw [own_readRecords plain message member]
    exact fieldEntries?_recordsOf (plain.fields type field member) (holds.admits field member)
      (holds.each field member)
  have found := mapM_map_eq_some each
  rw [← plain.single type] at found
  rw [ofRecords?, found, Option.map_some, ← List.flatMap_def]
  exact congrArg some holds.whole

/-- A message inside another takes no more octets. -/
theorem length_encode_le (plain : catalog.IsPlain) {type inside : τ} {message held : Message}
    (holds : catalog.Holds inner type message) {field : MessageField τ}
    (isField : field ∈ catalog.fields type) (isMessage : field.type = .message inside)
    (isHeld : .message held ∈ message.values field.number) :
    (encode catalog inside held).length ≤ (encode catalog type message).length := by
  have notPacked : field.label ≠ .packed := by
    have isPlain := plain.fields type field isField
    intro packed
    simp [MessageField.IsPlain, isMessage, packed] at isPlain
  have inField : (field.number, .delimited (encode catalog inside held)) ∈
      recordsOf catalog field (message.values field.number) := by
    rw [recordsOf, recordsBy_oneByOne notPacked, isMessage]
    exact List.mem_map.mpr ⟨_, isHeld, rfl⟩
  rw [encode_eq_of_holds plain holds]
  exact length_le_of_delimited (List.mem_flatMap.mpr ⟨field, isField, inField⟩)

/-- A message is read again if all messages inside it are, one level less deep. -/
theorem decodeWithin?_encode_of_holds (plain : catalog.IsPlain) {type : τ} {message : Message}
    (holds : catalog.Holds inner type message)
    (fits : (encode catalog type message).length < Varint.bound) {limit : Nat}
    (again : ∀ inside held, inner inside held →
      (encode catalog inside held).length < Varint.bound →
        ∃ lower, limit = lower + 1 ∧ Rereads catalog (decodeWithin? catalog lower) inside held) :
    decodeWithin? catalog limit type (encode catalog type message) = some message := by
  have readable := isReadable_of_mem_readRecords plain holds fits
  have octets := encode_eq_of_holds plain holds
  rw [octets]
  refine decodeWithin?_write readable limit fun read? isReader => ?_
  refine ofRecords?_readRecords plain
    ⟨holds.whole, holds.admits, fun field isField value isHeld => ?_⟩
  refine (holds.each field isField value isHeld).imp fun inside held isMessage same isInner => ?_
  subst same
  have shorter := length_encode_le plain holds isField isMessage isHeld
  obtain ⟨lower, isLower, rereads⟩ := again inside held isInner (Nat.lt_of_le_of_lt shorter fits)
  rw [Rereads, isReader lower isLower]
  exact rereads

/-- What was read is read again. By induction on how deep messages nest. -/
theorem decodeWithin?_encode_of_isRead (plain : catalog.IsPlain) {depth : Nat} {type : τ}
    {message : Message} (isRead : catalog.IsRead depth type message) {limit : Nat}
    (deep : depth ≤ limit) (fits : (encode catalog type message).length < Varint.bound) :
    decodeWithin? catalog limit type (encode catalog type message) = some message := by
  induction depth generalizing type message limit with
  | zero =>
      rw [Catalog.IsRead] at isRead
      exact decodeWithin?_encode_of_holds plain isRead fits fun _ _ impossible => impossible.elim
  | succ depth inductionHypothesis =>
      rw [Catalog.IsRead] at isRead
      obtain ⟨lower, rfl⟩ : ∃ lower, limit = lower + 1 :=
        Nat.exists_eq_add_one_of_ne_zero (by omega)
      have below : depth ≤ lower := Nat.le_of_succ_le_succ deep
      exact decodeWithin?_encode_of_holds plain isRead fits fun inside held isInner fitsHeld =>
        ⟨lower, rfl, inductionHypothesis isInner below fitsHeld⟩

end Binary

end RpcEcho.Proto
