import RpcEcho.Proofs.Proto.MessageRecords

/-!
# Messages there and back in the binary form

Each slot of a message reads its records back as what the message holds in it, so the octets of a
message are read as the message. Of the entries of a map only the order changes.

* `Binary.ReadsBack`: the content of a value is read as the value.
* `Binary.slotEntries?_records`: what each slot reads.
* `Binary.decodeWithin?_encode`: the whole message, by induction on the values in it.
-/

namespace RpcEcho.Proto.Binary

variable {τ : Type} {catalog : Catalog τ} {depth : τ → Nat}

/-! ## Reading records -/

/-- The content of a value is read as the value. -/
def ReadsBack (catalog : Catalog τ) (read? : τ → Bytes → Option Message) :
    FieldType τ → Value → Prop
  | .scalar kind, value => scalarOf? kind (recordContent catalog (.scalar kind) value) = some value
  | .message inner, .message message => read? inner (encode catalog inner message) = some message
  | .message _, _ => False

variable {read? : τ → Bytes → Option Message}

theorem readsBack_scalar {kind : Scalar} {value : Value}
    (valid : IsValue catalog (.scalar kind) value) :
    ReadsBack catalog read? (.scalar kind) value := by
  cases valid with
  | scalar holds =>
      rcases Scalar.Holds.cases holds with ⟨text, rfl, rfl⟩ | ⟨octets, rfl, rfl⟩ |
        ⟨short, number, rfl, fits⟩
      · simp [ReadsBack, recordContent, scalarOf?, Utf8.decode?_encode]
      · rfl
      · exact scalarOf?_of_short short fits

/-- The only value of a field is the last one. -/
theorem last?_single {type : FieldType τ} {value : Value}
    (readBack : ReadsBack catalog read? type value) :
    last? read? type [recordContent catalog type value] = some (some value) := by
  cases type with
  | scalar kind =>
      have found : scalarOf? kind (recordContent catalog (.scalar kind) value) = some value :=
        readBack
      simp [last?, found]
  | message inner =>
      cases value with
      | message message =>
          have found : read? inner (encode catalog inner message) = some message := readBack
          simp [last?, merged?, recordContent, messageOctets?, found]
      | text _ | bytes _ | int _ => cases readBack

/-- Records of messages are read one by one. -/
theorem messages_read {inner : τ} {messages : List Message}
    (readBack : ∀ message ∈ messages, read? inner (encode catalog inner message) = some message) :
    (((messages.map Value.message).map (recordContent catalog (.message inner))).mapM
      messageOctets?).bind (fun parts => parts.mapM (read? inner)) = some messages := by
  have parts : ((messages.map Value.message).map (recordContent catalog (.message inner))).mapM
      messageOctets? = some (messages.map (encode catalog inner)) := by
    rw [List.map_map]
    exact mapM_map_eq_some fun _ _ => rfl
  have each : (messages.map (encode catalog inner)).mapM (read? inner) = some (messages.map id) :=
    mapM_map_eq_some readBack
  rw [List.map_id] at each
  rw [parts, Option.bind_some, each]

/-- Numbers that stand in one record are read one after the other. -/
theorem unpackOnto?_contents (catalog : Catalog τ) {kind : Scalar} (short : IsShort kind)
    {values : List Value}
    (valid : ∀ value ∈ values, kind.Holds value) (before : List Value) :
    unpackOnto? kind before ((values.map (recordContent catalog (.scalar kind))).flatMap
      Record.contentOctets) = some (before.reverse ++ values) := by
  induction values generalizing before with
  | nil =>
      rw [unpackOnto?]
      · simp
      · exact IsShort.ne_double short
  | cons value values inductionHypothesis =>
      have rest := inductionHypothesis fun other member =>
        valid other (List.mem_cons_of_mem value member)
      obtain ⟨number, rfl, fits⟩ : ∃ number, value = .int number ∧ FitsWord number := by
        rcases Scalar.Holds.cases (valid value List.mem_cons_self) with ⟨_, rfl, _⟩ | ⟨_, rfl, _⟩ |
          ⟨_, found⟩
        · cases short
        · cases short
        · exact found
      let others := (values.map (recordContent catalog (.scalar kind))).flatMap
        Record.contentOctets
      change unpackOnto? kind before (Varint.write (bitsOf number) ++ others) = _
      have isRead : Varint.read (Varint.write (bitsOf number) ++ others) =
          some (bitsOf number, others) := Varint.read_write (bitsOf_lt number) others
      have notEmpty : (Varint.write (bitsOf number) ++ others).isEmpty = false := by
        rw [Varint.write]
        split <;> rfl
      rw [unpackOnto?, notEmpty]
      · simp only [Bool.false_eq_true, if_false]
        split
        · rename_i failed
          rw [isRead] at failed
          cases failed
        · rename_i found
          rw [isRead] at found
          cases found
          rw [ofVarint_bitsOf short fits.1 fits.2, rest]
          simp
      · exact IsShort.ne_double short

/-! ## Reading fields -/

theorem elements_read (catalog : Catalog τ) {kind : Scalar} {values : List Value}
    (valid : ∀ value ∈ values, kind.Holds value) :
    ((values.map (recordContent catalog (.scalar kind))).mapM (elementsOf? kind)).map
      List.flatten = some values := by
  have each : ∀ value ∈ values,
      elementsOf? kind (recordContent catalog (.scalar kind) value) = some [value] := by
    intro value member
    rcases Scalar.Holds.cases (valid value member) with ⟨text, rfl, rfl⟩ | ⟨octets, rfl, rfl⟩ |
      ⟨short, number, rfl, fits⟩
    · simp [elementsOf?, Scalar.isPackable, recordContent, scalarOf?, Utf8.decode?_encode]
    · simp [elementsOf?, Scalar.isPackable, recordContent, scalarOf?]
    · have found := scalarOf?_of_short short fits
      have content : recordContent catalog (.scalar kind) (.int number) =
          .varint (bitsOf number) := rfl
      have shape : elementsOf? kind (.varint (bitsOf number)) =
          (scalarOf? kind (.varint (bitsOf number))).map fun value => [value] := by
        rw [elementsOf?]
        intro _ _ isDelimited
        cases isDelimited
      rw [content, shape, found, Option.map_some]
  rw [mapM_map_eq_some each, Option.map_some]
  congr 1
  induction values with
  | nil => rfl
  | cons value values inductionHypothesis =>
      exact congrArg (value :: ·) (inductionHypothesis
        (fun other member => valid other (List.mem_cons_of_mem value member))
        fun other member => each other (List.mem_cons_of_mem value member))

theorem holds_of_isValue {kind : Scalar} {values : List Value}
    (valid : ∀ value ∈ values, IsValue catalog (.scalar kind) value) :
    ∀ value ∈ values, kind.Holds value := fun value member => by
  cases valid value member with
  | scalar holds => exact holds

theorem isShort_of_isPackable {kind : Scalar} (sound : kind.IsSound)
    (packable : kind.isPackable = true) : IsShort kind := by
  cases kind with
  | int32 | enumeration _ _ => trivial
  | text | bytes => cases packable
  | int64 | uint64 | bool | double => cases sound

/-- The records of a field are read as what the field holds. -/
theorem fieldEntries?_fieldRecords {field : MessageField τ} {values : List Value}
    (sound : field.type.IsSound catalog field.label) (admitted : field.label.Admits values)
    (valid : ∀ value ∈ values, IsValue catalog field.type value)
    (readBack : ∀ value ∈ values, ReadsBack catalog read? field.type value) :
    fieldEntries? catalog read? field ((fieldRecords catalog field values).map Prod.snd) =
      some ((arranged catalog id field values).map fun value => (field.number, value)) := by
  obtain ⟨number, name, type, label⟩ := field
  have oneByOne (contents : List Record.Content) :
      (contents.map fun content => (number, content)).map Prod.snd = contents := by
    rw [List.map_map]
    exact List.map_id contents
  have atMostOne (single : values.length ≤ 1) : values = [] ∨ ∃ value, values = [value] := by
    match values with
    | [] => exact .inl rfl
    | [value] => exact .inr ⟨value, rfl⟩
    | _ :: _ :: _ => simp at single
  cases label with
  | implicit =>
      rw [arranged_of_notMap (by simp)]
      simp only [fieldRecords, oneByOne, fieldEntries?]
      rcases atMostOne admitted.1 with rfl | ⟨value, rfl⟩
      · rfl
      · have found := last?_single (readBack value List.mem_cons_self)
        simp [found, admitted.2 value List.mem_cons_self]
  | explicit =>
      rw [arranged_of_notMap (by simp)]
      simp only [fieldRecords, oneByOne, fieldEntries?]
      rcases atMostOne admitted with rfl | ⟨value, rfl⟩
      · rfl
      · have found := last?_single (readBack value List.mem_cons_self)
        simp [found]
  | required => cases type <;> cases sound
  | repeated =>
      rw [arranged_of_notMap (by simp)]
      simp only [fieldRecords, oneByOne]
      cases type with
      | scalar kind =>
          have found := elements_read catalog (holds_of_isValue valid)
          simp only [fieldEntries?]
          rw [Option.map_eq_some_iff] at found ⊢
          obtain ⟨elements, isRead, joined⟩ := found
          exact ⟨elements, isRead, by rw [joined]⟩
      | message inner =>
          have same := map_message_messagesOf fun value member =>
            isMessage_of_isValue (valid value member)
          have each : ∀ message ∈ messagesOf values,
              read? inner (encode catalog inner message) = some message := fun message member =>
            readBack (.message message) (same ▸ List.mem_map_of_mem member)
          have found := messages_read each
          simp only [fieldEntries?]
          rw [← same, found, Option.map_some]
  | packed =>
      rw [arranged_of_notMap (by simp)]
      cases type with
      | message inner => cases sound
      | scalar kind =>
          have holds := holds_of_isValue valid
          have short := isShort_of_isPackable sound.1 sound.2
          simp only [fieldRecords, fieldEntries?]
          cases values with
          | nil => rfl
          | cons value values =>
              have unpacked := unpackOnto?_contents catalog short holds []
              rw [List.map_cons, List.flatMap_cons] at unpacked
              have isRead (octets : Bytes) : elementsOf? kind (.delimited octets) =
                  unpackOnto? kind [] octets := by
                rw [elementsOf?]
                exact sound.2
              simp [isRead, unpacked]
  | map =>
      cases type with
      | scalar kind => cases sound
      | message inner =>
          have same := map_message_messagesOf fun value member =>
            isMessage_of_isValue (valid value member)
          have each : ∀ message ∈ messagesOf values,
              read? inner (encode catalog inner message) = some message := fun message member =>
            readBack (.message message) (same ▸ List.mem_map_of_mem member)
          have found := messages_read each
          simp only [fieldRecords, oneByOne, fieldEntries?, arranged, id]
          rw [← same, found, Option.map_some, same]

/-! ## Reading slots -/

/-- What is read of a slot. -/
def slotArranged (catalog : Catalog τ) (message : Message) : Slot τ → Message
  | .single field =>
    (arranged catalog id field (message.values field.number)).map
      fun value => (field.number, value)
  | .choice _ members => message.among members

theorem own_eq_filter_covers (field : MessageField τ) (records : List (Nat × Record.Content)) :
    own field.number records =
      (records.filter fun record => covers (.single field) record.1).map Prod.snd := by
  induction records with
  | nil => rfl
  | cons record records inductionHypothesis =>
      rw [own] at inductionHypothesis ⊢
      by_cases same : record.1 = field.number
      · simp [covers, Slot.fields, same, inductionHypothesis]
      · simp [covers, Slot.fields, same, Ne.symm same, inductionHypothesis]

theorem isReadable_of_readsBack {field : MessageField τ} {value : Value}
    (readBack : ReadsBack catalog read? field.type value) :
    isReadable read? field (recordContent catalog field.type value) = true := by
  obtain ⟨number, name, type, label⟩ := field
  cases type with
  | scalar kind => exact Option.isSome_iff_exists.mpr ⟨value, readBack⟩
  | message inner =>
      cases value with
      | message message => exact Option.isSome_iff_exists.mpr ⟨message, readBack⟩
      | text _ | bytes _ | int _ => cases readBack

/-- The run at the end of some records has one number. -/
theorem any_lastRun {records : List (Nat × Record.Content)} {last : Nat × Record.Content}
    (isLast : records.getLast? = some last) (number : Nat) :
    ((lastRun records).any fun record => record.1 = number) = decide (last.1 = number) := by
  obtain ⟨before, rfl⟩ := List.getLast?_eq_some_iff.mp isLast
  by_cases same : last.1 = number
  · rw [decide_eq_true same]
    refine List.any_eq_true.mpr ⟨last, ?_, decide_eq_true same⟩
    simp [lastRun]
  · rw [decide_eq_false same]
    refine List.any_eq_false.mpr fun record member isNumber => same ?_
    rw [lastRun, isLast] at member
    have sameRun := List.all_eq_true.mp List.all_takeWhile record (List.mem_reverse.mp member)
    exact (of_decide_eq_true sameRun).symm.trans (of_decide_eq_true isNumber)

theorem find?_number {members : List (MessageField τ)} {field : MessageField τ}
    (distinct : ∀ first ∈ members, ∀ second ∈ members, first.number = second.number →
      first = second) (isMember : field ∈ members) :
    (members.find? fun other => decide (field.number = other.number)) = some field := by
  have isFound : (members.find? fun other => decide (field.number = other.number)).isSome := by
    rw [List.find?_isSome]
    exact ⟨field, isMember, decide_eq_true rfl⟩
  obtain ⟨other, isOther⟩ := Option.isSome_iff_exists.mp isFound
  have same : field.number = other.number := by simpa using List.find?_some isOther
  rw [isOther, distinct field isMember other (List.mem_of_find?_eq_some isOther) same]

theorem eq_of_found {type : τ} {members : List (MessageField τ)}
    (found : ∀ field ∈ members, catalog.field? type field.number = some field) :
    ∀ first ∈ members, ∀ second ∈ members, first.number = second.number → first = second := by
  intro first isFirst second isSecond same
  have isFound := found first isFirst
  rw [same, found second isSecond] at isFound
  exact (Option.some.inj isFound).symm

theorem last?_ne_none {type : FieldType τ} {contents : List Record.Content}
    (notEmpty : contents ≠ []) : last? read? type contents ≠ some none := by
  intro found
  have isEmpty : contents.isEmpty = false := by simpa using notEmpty
  cases type with
  | scalar kind =>
      rw [last?, isEmpty] at found
      obtain ⟨values, areRead, isLast⟩ := Option.map_eq_some_iff.mp found
      have noValue : values = [] := List.getLast?_eq_none_iff.mp isLast
      have same := congrArg List.length (map_eq_map_some_of_mapM areRead)
      rw [noValue] at same
      exact notEmpty (by simpa using same)
  | message inner =>
      rw [last?, isEmpty] at found
      obtain ⟨_, _, impossible⟩ := Option.map_eq_some_iff.mp found
      cases impossible

/-- A choice reads the records at its end that have one number, if all its records can be read. -/
theorem slotEntries?_choice_iff {members : List (MessageField τ)} {name : String}
    (distinct : ∀ first ∈ members, ∀ second ∈ members, first.number = second.number →
      first = second)
    {records own : List (Nat × Record.Content)}
    (owned : (records.filter fun record => covers (.choice name members) record.1) = own)
    {entries : Message} :
    slotEntries? catalog read? records (.choice name members) = some entries ↔
      (∀ record ∈ own, ∃ field ∈ members, field.number = record.1 ∧
        isReadable read? field record.2 = true) ∧
      (own = [] ∧ entries = [] ∨ ∃ last field value, own.getLast? = some last ∧ field ∈ members ∧
        field.number = last.1 ∧
        last? read? field.type ((lastRun own).map Prod.snd) = some (some value) ∧
        entries = [(field.number, value)]) := by
  have ownEq : (records.filter fun record =>
      members.any fun field => decide (field.number = record.1)) = own := owned
  have readableIff : (own.all fun record => members.any fun field =>
      decide (field.number = record.1) && isReadable read? field record.2) = true ↔
        ∀ record ∈ own, ∃ field ∈ members, field.number = record.1 ∧
          isReadable read? field record.2 = true := by
    simp
  simp only [slotEntries?, ownEq]
  by_cases readable : (own.all fun record => members.any fun field =>
      decide (field.number = record.1) && isReadable read? field record.2) = true
  · rw [readable, ← readableIff]
    simp only [Bool.not_true, Bool.false_eq_true, if_false, readable, true_and]
    rcases List.eq_nil_or_concat own with rfl | ⟨before, last, isOwn⟩
    · have noMember : (members.find? fun _ => false) = none :=
        List.find?_eq_none.mpr fun _ _ => by simp
      simp [lastRun, noMember, eq_comm]
    · have isLast : own.getLast? = some last := by simp [isOwn]
      have inOwn : last ∈ own := List.mem_of_getLast? isLast
      obtain ⟨field, isMember, same, _⟩ := readableIff.mp readable last inOwn
      have chosen := find?_number distinct isMember
      have notEmpty : (lastRun own).map Prod.snd ≠ [] := by simp [lastRun, isOwn]
      simp only [any_lastRun isLast, ← same, chosen]
      constructor
      · intro found
        obtain ⟨value?, isRead, rfl⟩ := Option.map_eq_some_iff.mp found
        cases value? with
        | none => exact absurd isRead (last?_ne_none notEmpty)
        | some value => exact .inr ⟨last, field, value, isLast, isMember, same, isRead, rfl⟩
      · rintro (⟨isEmpty, _⟩ | ⟨other, only, value, isOther, isOnly, onlyNumber, isRead, rfl⟩)
        · rw [isEmpty] at inOwn
          cases inOwn
        · cases isLast.symm.trans isOther
          rw [distinct field isMember only isOnly (same.trans onlyNumber.symm)]
          exact Option.map_eq_some_iff.mpr ⟨some value, isRead, rfl⟩
  · rw [← readableIff]
    simp [readable]

theorem entryRecords_singleton {type : τ} {number : Nat} {field : MessageField τ}
    (known : catalog.field? type number = some field) (value : Value) :
    entryRecords catalog type [(number, value)] =
      [(number, recordContent catalog field.type value)] := by
  simp [entryRecords, known]

/-- The records of a choice are read as the member that is present. -/
theorem slotEntries?_choice {type : τ} {message : Message} {members : List (MessageField τ)}
    {records : List (Nat × Record.Content)} {name : String}
    (found : ∀ field ∈ members, catalog.field? type field.number = some field)
    (atMostOne : (message.among members).length ≤ 1)
    (readBack : catalog.Each type message (ReadsBack catalog read?))
    (owned : (records.filter fun record => covers (.choice name members) record.1) =
      entryRecords catalog type (message.among members)) :
    slotEntries? catalog read? records (.choice name members) = some (message.among members) := by
  rw [slotEntries?_choice_iff (eq_of_found found) owned]
  match present : message.among members with
  | [] => exact ⟨fun _ member => (List.not_mem_nil member).elim, .inl ⟨rfl, rfl⟩⟩
  | _ :: _ :: _ => simp [present] at atMostOne
  | [(number, value)] =>
      have inAmong : (number, value) ∈ message.among members :=
        present ▸ List.mem_singleton_self (number, value)
      obtain ⟨inMessage, isAny⟩ := List.mem_filter.mp inAmong
      obtain ⟨field, isMember, same⟩ := List.any_eq_true.mp isAny
      cases (of_decide_eq_true same : field.number = number)
      have known := found field isMember
      have back := readBack _ inMessage field known
      rw [entryRecords_singleton known]
      refine ⟨fun record isOnly => ?_, .inr ⟨_, field, value, rfl, isMember, rfl, ?_, rfl⟩⟩
      · rw [List.mem_singleton.mp isOnly]
        exact ⟨field, isMember, rfl, isReadable_of_readsBack back⟩
      · simpa [lastRun] using last?_single back

/-! ## Reading messages -/

theorem slotEntries?_records (sound : catalog.IsSound depth) {type : τ} {message : Message}
    (shaped : catalog.Shapes type message)
    (each : catalog.Each type message (IsValue catalog))
    (readBack : catalog.Each type message (ReadsBack catalog read?))
    {slot : Slot τ} (member : slot ∈ catalog type) :
    slotEntries? catalog read? (records catalog type message) slot =
      some (slotArranged catalog message slot) := by
  have found : ∀ field ∈ slot.fields, catalog.field? type field.number = some field :=
    fun field isField => sound.field?_eq (Catalog.mem_fields member isField)
  have owned := filter_records sound message member
  cases slot with
  | single field =>
      have known := found field List.mem_cons_self
      have isField := Catalog.field?_eq_some known
      change fieldEntries? catalog read? field (own field.number _) = _
      rw [own_eq_filter_covers, owned]
      exact fieldEntries?_fieldRecords (sound.fields type field isField)
        (shaped.slots _ member) (isValue_of_mem known each)
        fun value isHeld => readBack _ (Message.mem_values.mp isHeld) field known
  | choice name members =>
      exact slotEntries?_choice found (shaped.slots _ member) readBack owned

/-- What is read of all slots is what is read of all fields. -/
theorem flatMap_slotArranged (sound : catalog.IsSound depth) {type : τ} {message : Message}
    (shaped : catalog.Shapes type message) :
    (catalog type).flatMap (slotArranged catalog message) =
      Message.ofFields (catalog.fields type)
        fun field => arranged catalog id field (message.values field.number) := by
  rw [Message.ofFields, Catalog.fields, List.flatMap_assoc]
  refine List.flatMap_congr fun slot member => ?_
  cases slot with
  | single field => rw [slotArranged, Slot.fields, List.flatMap_singleton]
  | choice name members =>
      have increasing : (members.map MessageField.number).Pairwise (· < ·) :=
        (sound.increasing type).sublist ((Catalog.sublist_fields member).map MessageField.number)
      rw [slotArranged, Slot.fields, ← Message.ofFields_among increasing shaped.ordered]
      refine List.flatMap_congr fun field isMember => ?_
      have isExplicit : field.label = .explicit := sound.slots type _ member field isMember
      rw [arranged_of_notMap (by simp [isExplicit])]

/-- A record of a field of a type: its content is delimited, or a number where no entry of a map
stands. -/
def IsRecordOf (catalog : Catalog τ) (type : τ) (record : Nat × Record.Content) : Prop :=
  ∃ field ∈ catalog.fields type, record.1 = field.number ∧
    ((∃ octets, record.2 = .delimited octets) ∨
      field.label ≠ .map ∧ ∃ value < Varint.bound, record.2 = .varint value)

theorem recordContent_cases {type : FieldType τ} {value : Value}
    (valid : IsValue catalog type value) :
    (∃ octets, recordContent catalog type value = .delimited octets) ∨
      (∃ kind, type = .scalar kind) ∧
        ∃ number < Varint.bound, recordContent catalog type value = .varint number := by
  cases valid with
  | message shaped each => exact .inl ⟨_, rfl⟩
  | scalar holds =>
      rcases Scalar.Holds.cases holds with ⟨text, rfl, rfl⟩ | ⟨octets, rfl, rfl⟩ |
        ⟨short, number, rfl, fits⟩
      · exact .inl ⟨_, rfl⟩
      · exact .inl ⟨_, rfl⟩
      · exact .inr ⟨⟨_, rfl⟩, bitsOf number, bitsOf_lt number, rfl⟩

theorem isRecordOf_of_value (sound : catalog.IsSound depth) {type : τ} {field : MessageField τ}
    (isField : field ∈ catalog.fields type) {value : Value}
    (valid : IsValue catalog field.type value) :
    IsRecordOf catalog type (field.number, recordContent catalog field.type value) := by
  refine ⟨field, isField, rfl, ?_⟩
  rcases recordContent_cases valid with delimited | ⟨⟨kind, isScalar⟩, number⟩
  · exact .inl delimited
  · refine .inr ⟨fun isMap => ?_, number⟩
    have isSound := sound.fields type field isField
    rw [isScalar, isMap] at isSound
    exact isSound

theorem isRecordOf_of_mem (sound : catalog.IsSound depth) {type : τ} {message : Message}
    (each : catalog.Each type message (IsValue catalog))
    {record : Nat × Record.Content} (member : record ∈ records catalog type message) :
    IsRecordOf catalog type record := by
  obtain ⟨slot, isSlot, inSlot⟩ := List.mem_flatMap.mp member
  cases slot with
  | single field =>
      have isField := Catalog.mem_fields isSlot List.mem_cons_self
      rw [slotRecords, fieldRecords] at inSlot
      split at inSlot
      · split at inSlot
        · cases inSlot
        · rw [List.mem_singleton.mp inSlot]
          exact ⟨field, isField, rfl, .inl ⟨_, rfl⟩⟩
      · obtain ⟨content, isContent, rfl⟩ := List.mem_map.mp inSlot
        obtain ⟨value, isHeld, rfl⟩ := List.mem_map.mp isContent
        exact isRecordOf_of_value sound isField
          (isValue_of_mem (sound.field?_eq isField) each value isHeld)
  | choice name members =>
      obtain ⟨entry, isPresent, made⟩ := List.mem_filterMap.mp inSlot
      obtain ⟨field, known, rfl⟩ := Option.map_eq_some_iff.mp made
      have number : field.number = entry.1 := by simpa using List.find?_some known
      have valid := each entry (List.mem_filter.mp isPresent).1 field known
      rw [← number]
      exact isRecordOf_of_value sound (List.mem_of_find?_eq_some known) valid

theorem length_le_of_delimited {records : List (Nat × Record.Content)} {number : Nat}
    {octets : Bytes} (member : (number, .delimited octets) ∈ records) :
    octets.length ≤ (records.flatMap Record.write).length := by
  obtain ⟨before, behind, rfl⟩ := List.append_of_mem member
  rw [List.flatMap_append, List.flatMap_cons, Record.write, Record.contentOctets,
    Binary.delimited]
  simp only [List.length_append]
  omega

/-- The records of a message whose octets fit are readable. -/
theorem isReadable_of_isRecordOf (sound : catalog.IsSound depth) {type : τ}
    {records : List (Nat × Record.Content)}
    (fits : (records.flatMap Record.write).length < Varint.bound)
    (ofType : ∀ record ∈ records, IsRecordOf catalog type record) :
    ∀ record ∈ records, Record.IsReadable (reading catalog type) record := by
  intro record member
  obtain ⟨field, isField, number, content⟩ := ofType record member
  obtain ⟨positive, bounded⟩ := sound.numbers type field isField
  have known := sound.field?_eq isField
  refine ⟨number ▸ positive, number ▸ bounded, ?_, ?_⟩
  · rcases content with ⟨octets, shape⟩ | ⟨_, value, small, shape⟩
    · have isDelimited : (record.1, .delimited octets) ∈ records := shape ▸ member
      rw [shape]
      exact Nat.lt_of_le_of_lt (length_le_of_delimited isDelimited) fits
    · rw [shape]
      exact small
  · rw [reading, number, known]
    rcases content with delimited | ⟨notMap, _⟩
    · by_cases isMap : field.label = .map
      · exact .inr ⟨by simp [isMap], delimited⟩
      · exact .inl (by simp [isMap])
    · exact .inl (by simp [notMap])

/-- A message that stands in a field has a record of its own. -/
theorem mem_records {type inner : τ} {message held : Message} {field : MessageField τ}
    {number : Nat} (member : (number, .message held) ∈ message)
    (known : catalog.field? type number = some field) (isMessage : field.type = .message inner)
    (sound : catalog.IsSound depth) :
    (number, .delimited (encode catalog inner held)) ∈ records catalog type message := by
  have same : field.number = number := by simpa using List.find?_some known
  have isField := List.mem_of_find?_eq_some known
  obtain ⟨slot, isSlot, inSlot⟩ := List.mem_flatMap.mp isField
  have content : recordContent catalog field.type (.message held) =
      .delimited (encode catalog inner held) := by rw [isMessage, recordContent]
  refine List.mem_flatMap.mpr ⟨slot, isSlot, ?_⟩
  cases slot with
  | single only =>
      cases List.mem_singleton.mp inSlot
      have notPacked : field.label ≠ .packed := by
        intro packed
        have isSound := sound.fields type field isField
        rw [isMessage, packed] at isSound
        exact isSound
      have isHeld : Value.message held ∈ message.values field.number :=
        Message.mem_values.mpr (same ▸ member)
      rw [slotRecords, fieldRecords]
      split
      · contradiction
      · exact List.mem_map.mpr ⟨_, List.mem_map_of_mem isHeld, by rw [content, same]⟩
  | choice name members =>
      have isPresent : (number, .message held) ∈ message.among members :=
        List.mem_filter.mpr
          ⟨member, List.any_eq_true.mpr ⟨field, inSlot, decide_eq_true same⟩⟩
      refine List.mem_filterMap.mpr ⟨_, isPresent, ?_⟩
      rw [known, Option.map_some, content]

/-- The octets of a message are read as the message, where the entries of its maps go in the order
of a map. By induction on the values in the message: each message in it is read back as it is, since
it has no map of its own. -/
theorem decodeWithin?_encode (sound : catalog.IsSound depth) {type : τ} {message : Message}
    (valid : catalog.IsMessage type message) {limit : Nat} (deep : depth type ≤ limit)
    (fits : (encode catalog type message).length < Varint.bound) :
    decodeWithin? catalog limit type (encode catalog type message) =
      some (Message.ofFields (catalog.fields type)
        fun field => arranged catalog id field (message.values field.number)) := by
  unfold Catalog.IsMessage at valid
  generalize isType : FieldType.message type = fieldType at valid
  generalize isValue : Value.message message = value at valid
  induction valid generalizing type message limit with
  | scalar holds => cases isType
  | message shaped each inductionHypothesis =>
      cases isType
      cases isValue
      rename_i type message
      have octets := encode_eq sound each
      have readable := isReadable_of_isRecordOf sound (octets ▸ fits)
        fun record member => isRecordOf_of_mem sound each member
      rw [octets]
      refine decodeWithin?_write readable limit fun read? isReader => ?_
      have readBack : catalog.Each type message (ReadsBack catalog read?) := by
        intro entry member field known
        have validEntry := each entry member field known
        cases isMessage : field.type with
        | scalar kind => exact readsBack_scalar (isMessage ▸ validEntry)
        | message inner =>
            obtain ⟨number, held⟩ := entry
            have isField := List.mem_of_find?_eq_some known
            have nests := sound.nests type field isField inner isMessage
            have noMap : catalog.HasNoMap inner :=
              hasNoMap_of_isSound (isMessage ▸ sound.fields type field isField)
            rw [isMessage] at validEntry
            cases validEntry with
            | @message _ held shapedHeld _ =>
                obtain ⟨lower, rfl⟩ : ∃ lower, limit = lower + 1 :=
                  Nat.exists_eq_add_one_of_ne_zero (by omega)
                have isRecord := mem_records member known isMessage sound
                have fitsHeld : (encode catalog inner held).length < Varint.bound :=
                  Nat.lt_of_le_of_lt (length_le_of_delimited isRecord) (octets ▸ fits)
                have deepHeld : depth inner ≤ lower := by omega
                have found := inductionHypothesis _ member field known deepHeld fitsHeld
                  isMessage.symm rfl
                rw [ofFields_arranged_of_hasNoMap sound shapedHeld noMap] at found
                rw [isReader lower rfl]
                exact found
      have slots : (catalog type).mapM (slotEntries? catalog read? (records catalog type message)) =
          some ((catalog type).map (slotArranged catalog message)) := by
        have eachSlot : ∀ slot ∈ catalog type,
            slotEntries? catalog read? (records catalog type message) (id slot) =
              some (slotArranged catalog message slot) := fun slot member =>
          slotEntries?_records sound shaped each readBack member
        have found := mapM_map_eq_some eachSlot
        rwa [List.map_id] at found
      rw [ofRecords?, ← flatMap_slotArranged sound shaped]
      rw [slots, Option.map_some, List.flatMap_def]

end RpcEcho.Proto.Binary
