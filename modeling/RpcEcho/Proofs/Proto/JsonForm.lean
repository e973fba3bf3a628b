import RpcEcho.Proofs.Proto.JsonWriting
import RpcEcho.Proofs.Proto.Presentation

/-!
# The written form of a message

The object that is written for a message is one of its JSON forms: the keys in camel case and in
order, no field that holds its default, numbers as numbers or by name, and base 64 in the standard
alphabet with its fill. So it is read as the message, as every other form is.

* `JsonForm.gives_of_mem_fieldJsons`: what is written for a field.
* `JsonForm.pairwise_items`: no two members of the object stand in one slot.
* `JsonForm.presents_of_ofValue`: what is written for a value, by induction on the values in it.
-/

namespace RpcEcho.Proto.JsonForm

variable {τ : Type} {catalog : Catalog τ} {depth : τ → Nat} {type : τ}

/-! ## Maps -/

/-- The entries of a map in the order in which their object holds them. -/
def byKey (entries : List Message) : List Message :=
  Json.sortedBy (fun entry => Message.text entry 1) entries

theorem byKey_perm (entries : List Message) : (byKey entries).Perm entries :=
  Json.sortedBy_perm _ entries

theorem ofText_text {message : Message} {number : Nat} {field : MessageField τ}
    (isText : field.type = .scalar .text) (isImplicit : field.label = .implicit)
    (admitted : field.label.Admits (message.values number))
    (valid : ∀ value ∈ message.values number, IsValue catalog field.type value) :
    Message.ofText number (Message.text message number) =
      (message.values number).map fun value => (number, value) := by
  rw [isImplicit] at admitted
  rw [isText] at valid
  rw [Message.text, Message.value?]
  rcases held : message.values number with _ | ⟨value, _ | _⟩
  · simp [Message.ofText]
  · have holds := valid value (held ▸ List.mem_singleton_self value)
    cases value with
    | text text =>
        have notDefault := admitted.2 (.text text) (held ▸ List.mem_singleton_self _)
        rw [Value.isDefault] at notDefault
        simp [Message.ofText, notDefault]
    | bytes _ | int _ | message _ =>
        cases holds with
        | scalar holds => cases holds
  · simp [Label.Admits, held] at admitted

/-- An entry of a map is told by its two texts. -/
theorem entryOf_pairOf (sound : catalog.IsSound depth) {inner : τ}
    (isEntry : catalog inner = entrySlots) {entry : Message}
    (valid : catalog.IsMessage inner entry) : Message.entryOf (Message.pairOf entry) = entry := by
  cases valid with
  | message shaped each =>
      have whole := Message.ofFields_values sound shaped
      have fields : catalog.fields inner =
          [⟨1, "key", .scalar .text, .implicit⟩, ⟨2, "value", .scalar .text, .implicit⟩] := by
        rw [Catalog.fields, isEntry]
        rfl
      have text {field : MessageField τ} (isField : field ∈ catalog.fields inner)
          (isText : field.type = .scalar .text) (isImplicit : field.label = .implicit)
          (isSlot : .single field ∈ catalog inner) :
          Message.ofText field.number (Message.text entry field.number) =
            (entry.values field.number).map fun value => (field.number, value) := by
        have admitted : field.label.Admits (entry.values field.number) := shaped.slots _ isSlot
        exact ofText_text isText isImplicit admitted
          (isValue_of_mem (sound.field?_eq isField) each)
      have key := text (fields ▸ List.mem_cons_self) rfl rfl (isEntry ▸ List.mem_cons_self)
      have value := text (fields ▸ List.mem_cons_of_mem _ List.mem_cons_self) rfl rfl
        (isEntry ▸ List.mem_cons_of_mem _ List.mem_cons_self)
      rw [fields, Message.ofFields, List.flatMap_cons, List.flatMap_cons, List.flatMap_nil,
        List.append_nil, ← key, ← value] at whole
      exact whole

theorem isMessage_of_mem {inner : τ} {values : List Value}
    (valid : ∀ value ∈ values, IsValue catalog (.message inner) value) {entry : Message}
    (member : entry ∈ messagesOf values) : catalog.IsMessage inner entry := by
  have areMessages := map_message_messagesOf fun value isHeld =>
    isMessage_of_isValue (valid value isHeld)
  exact valid (.message entry) (areMessages ▸ List.mem_map_of_mem member)

/-- The object of a map has its entries in the order of their keys. -/
theorem ofMembers_mapMember {inner : τ} {values : List Value}
    (valid : ∀ value ∈ values, IsValue catalog (.message inner) value) :
    Json.ofMembers (values.filterMap mapMember) =
      .object ((byKey (messagesOf values)).map fun entry =>
        (some (Message.text entry 1), Json.ofText (Message.text entry 2))) := by
  have areMessages := map_message_messagesOf fun value isHeld =>
    isMessage_of_isValue (valid value isHeld)
  have members : values.filterMap mapMember = (messagesOf values).map fun entry =>
      (Message.text entry 1, Json.ofText (Message.text entry 2)) := by
    rw [← areMessages, List.filterMap_map, areMessages, ← List.filterMap_eq_map]
    rfl
  rw [members, Json.ofMembers_map]
  rfl

/-- The entries of a map in the order of their keys are told by their texts. -/
theorem entryOf_of_mem_byKey (sound : catalog.IsSound depth) {inner : τ}
    (isEntry : catalog inner = entrySlots) {values : List Value}
    (valid : ∀ value ∈ values, IsValue catalog (.message inner) value) :
    ∀ entry ∈ byKey (messagesOf values), Message.entryOf (Message.pairOf entry) = entry := by
  intro entry member
  have isHeld := (byKey_perm _).mem_iff.mp member
  exact entryOf_pairOf sound isEntry (isMessage_of_mem valid isHeld)

/-! ## Fields -/

/-- The only JSON that was written for a field is that of its only value. -/
theorem eq_singleton_of_own {field : MessageField τ} {values : List Value} {jsons : List Json}
    (writes : List.Forall₂ (fun value json => ofValue catalog field.type value = .ok json)
      values jsons)
    (single : values.length ≤ 1) {json : Json} (member : json ∈ jsons) :
    ∃ value, values = [value] ∧ ofValue catalog field.type value = .ok json := by
  obtain ⟨value, isHeld, wrote⟩ := exists_of_mem_right writes member
  refine ⟨value, ?_, wrote⟩
  match values with
  | [] => cases isHeld
  | [only] => rw [List.mem_singleton.mp isHeld]
  | _ :: _ :: _ => simp at single

theorem presentsScalar_of_ofScalar {kind : Scalar} {value : Value} (holds : kind.Holds value)
    {json : Json} (writes : ofScalar kind value = .ok json) : PresentsScalar kind value json := by
  rcases holds.cases with ⟨text, rfl, rfl⟩ | ⟨octets, rfl, rfl⟩ | ⟨short, number, rfl, fits⟩
  · cases writes
    exact .text
  · cases writes
    exact .bytes (Base64.isForm_encode octets)
  · cases kind with
    | int32 =>
        cases writes
        exact .number
    | enumeration name names =>
        rw [ofScalar] at writes
        split at writes
        · rename_i entry isFound
          cases writes
          have same : entry.2 = number := by simpa using List.find?_some isFound
          rw [← same]
          exact .byName (List.mem_of_find?_eq_some isFound)
        · cases writes
    | text | bytes | int64 | uint64 | bool | double => cases short

theorem gives_of_mem_fieldJsons (sound : catalog.IsSound depth) {field : MessageField τ}
    (isSound : field.type.IsSound catalog field.label) {message : Message}
    {written : List (Nat × Json)} (admitted : field.label.Admits (message.values field.number))
    (valid : ∀ value ∈ message.values field.number, IsValue catalog field.type value)
    (presents : ∀ value ∈ message.values field.number, ∀ json,
      ofValue catalog field.type value = .ok json → Presents catalog field.type value json)
    (writes : List.Forall₂ (fun value json => ofValue catalog field.type value = .ok json)
      (message.values field.number) (own field.number written))
    {json : Json} (member : json ∈ fieldJsons message written field) :
    Gives catalog field (message.values field.number) json := by
  obtain ⟨number, name, type, label⟩ := field
  -- A field that occurs at most once holds a single value with the JSON written for it.
  have single (isSingle : label = .implicit ∨ label = .explicit)
      (atMostOne : (message.values number).length ≤ 1) (isOwn : json ∈ own number written) :
      Gives catalog ⟨number, name, type, label⟩ (message.values number) json := by
    obtain ⟨value, only, wrote⟩ := eq_singleton_of_own writes atMostOne isOwn
    have presentsValue := presents value (only ▸ List.mem_singleton_self value) json wrote
    rw [only]
    exact .one isSingle presentsValue
  have list (isList : label = .repeated ∨ label = .packed)
      (isArray : json = .array (own number written)) :
      Gives catalog ⟨number, name, type, label⟩ (message.values number) json := by
    obtain ⟨sameLength, each⟩ := List.forall₂_iff_zip.mp writes
    let pairs := (message.values number).zip (own number written)
    have gives : Gives catalog ⟨number, name, type, label⟩ (pairs.map Prod.fst)
        (.array (pairs.map Prod.snd)) := .list isList fun pair isPair =>
      presents pair.1 (List.of_mem_zip isPair).1 pair.2 (each isPair)
    rwa [List.map_fst_zip (Nat.le_of_eq sameLength),
      List.map_snd_zip (Nat.le_of_eq sameLength.symm), ← isArray] at gives
  cases label with
  | implicit => exact single (Or.inl rfl) admitted.1 member
  | explicit => exact single (Or.inr rfl) admitted member
  | required => cases type <;> cases isSound
  | repeated =>
      simp only [fieldJsons] at member
      split at member
      · cases member
      · exact list (Or.inl rfl) (List.mem_singleton.mp member)
  | packed =>
      simp only [fieldJsons] at member
      split at member
      · cases member
      · exact list (Or.inr rfl) (List.mem_singleton.mp member)
  | map =>
      cases type with
      | scalar kind => cases isSound
      | message inner =>
          simp only [fieldJsons] at member
          split at member
          · cases member
          · have areMessages := map_message_messagesOf fun value isHeld =>
              isMessage_of_isValue (valid value isHeld)
            have told := entryOf_of_mem_byKey sound isSound valid
            let pairs := (byKey (messagesOf (message.values number))).map Message.pairOf
            have entries : (message.values number).Perm
                (pairs.map fun pair => .message (Message.entryOf pair)) := by
              have permuted := (byKey_perm (messagesOf (message.values number))).map Value.message
              rw [areMessages] at permuted
              rw [List.map_map]
              have same := List.map_congr_left fun entry isEntry =>
                congrArg Value.message (told entry isEntry)
              exact permuted.symm.trans (.of_eq same.symm)
            have gives : Gives catalog ⟨number, name, .message inner, .map⟩ (message.values number)
                (.object (pairs.map fun pair => (some pair.1, .string (some pair.2)))) :=
              .map rfl entries
            rw [List.map_map] at gives
            rw [List.mem_singleton.mp member, ofMembers_mapMember valid]
            exact gives

/-! ## The members of a message -/

/-- Two fields of a type do not stand in one slot. -/
def Apart (catalog : Catalog τ) (type : τ) (first second : MessageField τ × Json) : Prop :=
  ∀ slot ∈ catalog type, first.1 ∈ slot.fields → second.1 ∈ slot.fields → False

theorem mem_items {fields : List (MessageField τ)} {message : Message}
    {written : List (Nat × Json)} {item : MessageField τ × Json} :
    item ∈ items fields message written ↔
      item.1 ∈ fields ∧ item.2 ∈ fieldJsons message written item.1 := by
  constructor
  · intro member
    obtain ⟨field, isField, isMade⟩ := List.mem_flatMap.mp member
    obtain ⟨json, isJson, rfl⟩ := List.mem_map.mp isMade
    exact ⟨isField, isJson⟩
  · rintro ⟨isField, isJson⟩
    exact List.mem_flatMap.mpr ⟨item.1, isField, List.mem_map_of_mem isJson⟩

section Members

variable {message : Message} {written : List (Nat × Json)} {field : MessageField τ}

theorem values_ne_nil_of_mem_fieldJsons
    (writes : List.Forall₂ (fun value json => ofValue catalog field.type value = .ok json)
      (message.values field.number) (own field.number written))
    {json : Json} (member : json ∈ fieldJsons message written field) :
    message.values field.number ≠ [] := by
  intro empty
  rw [empty] at writes
  have noJson := List.forall₂_nil_left_iff.mp writes
  have noMember : fieldJsons message written field = [] := by
    rw [fieldJsons]
    split <;> simp [empty, noJson]
  rw [noMember] at member
  cases member

theorem exists_mem_fieldJsons
    (writes : List.Forall₂ (fun value json => ofValue catalog field.type value = .ok json)
      (message.values field.number) (own field.number written))
    (notEmpty : message.values field.number ≠ []) :
    ∃ json, json ∈ fieldJsons message written field := by
  have someJson : own field.number written ≠ [] := by
    intro empty
    rw [empty] at writes
    exact notEmpty (List.forall₂_nil_right_iff.mp writes)
  refine List.exists_mem_of_ne_nil _ ?_
  rw [fieldJsons]
  split <;> simp [notEmpty, someJson]

theorem length_fieldJsons_le (isSound : field.type.IsSound catalog field.label)
    (admitted : field.label.Admits (message.values field.number))
    (writes : List.Forall₂ (fun value json => ofValue catalog field.type value = .ok json)
      (message.values field.number) (own field.number written)) :
    (fieldJsons message written field).length ≤ 1 := by
  have sameLength := writes.length_eq
  obtain ⟨number, name, type, label⟩ := field
  cases label with
  | implicit => exact sameLength ▸ admitted.1
  | explicit => exact sameLength ▸ admitted
  | required => cases type <;> cases isSound
  | repeated | packed | map =>
      simp only [fieldJsons]
      split <;> simp

end Members

/-- Of the fields of a slot at most one holds something. -/
theorem eq_of_values_ne_nil {message : Message} {slot : Slot τ} (admitted : slot.Admits message)
    (distinct : ∀ field ∈ slot.fields, ∀ other ∈ slot.fields, field.number = other.number →
      field = other)
    {field other : MessageField τ} (isField : field ∈ slot.fields) (isOther : other ∈ slot.fields)
    (holds : message.values field.number ≠ []) (otherHolds : message.values other.number ≠ []) :
    field = other := by
  cases slot with
  | single only => rw [List.mem_singleton.mp isField, List.mem_singleton.mp isOther]
  | choice name members =>
      have present {field : MessageField τ} (isMember : field ∈ members)
          (holds : message.values field.number ≠ []) :
          ∃ value, (field.number, value) ∈ message.among members := by
        obtain ⟨value, isHeld⟩ := List.exists_mem_of_ne_nil _ holds
        exact ⟨value, List.mem_filter.mpr ⟨Message.mem_values.mp isHeld,
          List.any_eq_true.mpr ⟨field, isMember, decide_eq_true rfl⟩⟩⟩
      obtain ⟨value, isPresent⟩ := present isField holds
      obtain ⟨otherValue, otherPresent⟩ := present isOther otherHolds
      have atMostOne : (message.among members).length ≤ 1 := admitted
      refine distinct field isField other isOther ?_
      match held : message.among members with
      | [] => simp [held] at isPresent
      | _ :: _ :: _ => simp [held] at atMostOne
      | [entry] =>
          rw [held, List.mem_singleton] at isPresent otherPresent
          rw [← otherPresent] at isPresent
          exact congrArg Prod.fst isPresent

/-- No two of the given fields stand in one slot. -/
theorem pairwise_items (sound : catalog.IsSound depth) {message : Message}
    (shaped : catalog.Shapes type message) {written : List (Nat × Json)}
    (admitted : ∀ field ∈ catalog.fields type,
      (fieldJsons message written field).length ≤ 1)
    (holds : ∀ field ∈ catalog.fields type, ∀ json ∈ fieldJsons message written field,
      message.values field.number ≠ []) :
    (items (catalog.fields type) message written).Pairwise (Apart catalog type) := by
  have different : (items (catalog.fields type) message written).Pairwise
      fun first second => first.1 ≠ second.1 := by
    rw [items, List.pairwise_flatMap]
    constructor
    · intro field isField
      have atMostOne := admitted field isField
      rcases made : fieldJsons message written field with _ | ⟨json, _ | _⟩
      · exact .nil
      · exact List.pairwise_singleton _ _
      · simp [made] at atMostOne
    · have increasing := List.pairwise_map.mp (sound.increasing type)
      refine increasing.imp fun {field other} below item isItem second isSecond same => ?_
      obtain ⟨_, _, rfl⟩ := List.mem_map.mp isItem
      obtain ⟨_, _, rfl⟩ := List.mem_map.mp isSecond
      have sameField : field = other := same
      rw [sameField] at below
      exact Nat.lt_irrefl _ below
  refine different.imp_of_mem fun {first second} isFirst isSecond notSame => ?_
  intro slot isSlot inSlot inSame
  obtain ⟨isField, isJson⟩ := mem_items.mp isFirst
  obtain ⟨isOther, isOtherJson⟩ := mem_items.mp isSecond
  refine notSame (eq_of_values_ne_nil (shaped.slots slot isSlot) (fun field isHere other isThere =>
    sound.eq_of_number (Catalog.mem_fields isSlot isHere) (Catalog.mem_fields isSlot isThere))
    inSlot inSame (holds first.1 isField first.2 isJson)
    (holds second.1 isOther second.2 isOtherJson))

/-! ## Messages -/

/-- The object of a message is one of its JSON forms, if the JSON of its values is. -/
theorem presents_object (sound : catalog.IsSound depth) (names : NamesFind catalog)
    {message : Message} (shaped : catalog.Shapes type message)
    (each : catalog.Each type message (IsValue catalog))
    (presents : ∀ field ∈ catalog.fields type, ∀ value ∈ message.values field.number, ∀ json,
      ofValue catalog field.type value = .ok json → Presents catalog field.type value json)
    {written : List (Nat × Json)} (wrote : ofEntries catalog type message = .ok written) :
    Presents catalog (.message type) (.message message) (object catalog type message written) := by
  let given := items (catalog.fields type) message written
  have writes (field : MessageField τ) (isField : field ∈ catalog.fields type) :=
    own_written (sound.field?_eq isField) wrote
  have gives : ∀ item ∈ given, Gives catalog item.1 (message.values item.1.number) item.2 := by
    intro item isItem
    obtain ⟨isField, isJson⟩ := mem_items.mp isItem
    exact gives_of_mem_fieldJsons sound (sound.fields type item.1 isField)
      (Message.admits_values sound shaped isField)
      (isValue_of_mem (sound.field?_eq isField) each) (presents item.1 isField)
      (writes item.1 isField) isJson
  have apart : given.Pairwise (Apart catalog type) :=
    pairwise_items sound shaped
      (fun field isField => length_fieldJsons_le (sound.fields type field isField)
        (Message.admits_values sound shaped isField) (writes field isField))
      fun field isField json isJson =>
        values_ne_nil_of_mem_fieldJsons (writes field isField) isJson
  have place {item : MessageField τ × Json} (isItem : item ∈ given) :
      ∃ slot ∈ catalog type, item.1 ∈ slot.fields ∧
        slotOf? catalog type (some (key item.1), item.2) = some slot := by
    obtain ⟨slot, isSlot, inSlot⟩ := List.mem_flatMap.mp (mem_items.mp isItem).1
    exact ⟨slot, isSlot, inSlot,
      slotOf?_of_namesSlot names isSlot ⟨item.1, inSlot, _, rfl, Or.inl rfl⟩⟩
  -- A key is a name of its own field only.
  have sole {item : MessageField τ × Json} (isItem : item ∈ given) {field : MessageField τ}
      {slot : Slot τ} (isSlot : slot ∈ catalog type) (inSlot : field ∈ slot.fields)
      (isName : IsName field (key item.1)) : field = item.1 := by
    obtain ⟨place, isPlace, inPlace⟩ := List.mem_flatMap.mp (mem_items.mp isItem).1
    have found := names type place isPlace item.1 inPlace (key item.1) (Or.inl rfl)
    have again := names type slot isSlot field inSlot (key item.1) isName
    exact congrArg Prod.snd (Option.some.inj (again.symm.trans found))
  let sorted := Json.sortedBy (fun item => key item.1) given
  have permuted : sorted.Perm given := Json.sortedBy_perm _ given
  have shape : object catalog type message written =
      .object (sorted.map fun item => (some (key item.1), item.2)) := by
    rw [object_eq, Json.ofMembers_map]
  rw [shape]
  refine .message ?_ ?_ ?_ ?_
  · intro member isMember
    obtain ⟨item, _, rfl⟩ := List.mem_map.mp isMember
    simp
  · have apartSorted : sorted.Pairwise (Apart catalog type) :=
      permuted.symm.pairwise apart fun isApart slot isSlot inSlot inSame =>
        isApart slot isSlot inSame inSlot
    apply List.pairwise_map.mpr
    refine apartSorted.imp_of_mem fun {first second} isFirst isSecond isApart => ?_
    obtain ⟨slot, isSlot, inSlot, isPlace⟩ := place (permuted.mem_iff.mp isFirst)
    obtain ⟨other, _, inOther, isOther⟩ := place (permuted.mem_iff.mp isSecond)
    refine standApart_of_slotOf? names (Or.inr fun same => ?_)
    rw [isPlace, isOther, Option.some.injEq] at same
    exact isApart slot isSlot inSlot (same ▸ inOther)
  · intro field isField name json isMember isName
    obtain ⟨item, isItem, same⟩ := List.mem_map.mp isMember
    cases same
    obtain ⟨slot, isSlot, inSlot⟩ := List.mem_flatMap.mp isField
    have isGiven := permuted.mem_iff.mp isItem
    rw [sole isGiven isSlot inSlot isName]
    exact gives item isGiven
  · intro field isField unnamed
    by_contra holds
    obtain ⟨json, isJson⟩ := exists_mem_fieldJsons (writes field isField) holds
    have isGiven : (field, json) ∈ sorted := permuted.mem_iff.mpr (mem_items.mpr ⟨isField, isJson⟩)
    exact unnamed (key field) json (List.mem_map.mpr ⟨_, isGiven, rfl⟩) (Or.inl rfl)

/-- What is written for a value is one of its JSON forms. -/
theorem presents_of_ofValue (sound : catalog.IsSound depth) (names : NamesFind catalog)
    {type : FieldType τ} {value : Value} (valid : IsValue catalog type value) {json : Json}
    (writes : ofValue catalog type value = .ok json) : Presents catalog type value json := by
  induction valid generalizing json with
  | scalar holds =>
      rw [ofValue] at writes
      exact .scalar (presentsScalar_of_ofScalar holds writes)
  | @message type message shaped each inductionHypothesis =>
      rw [ofValue] at writes
      cases wrote : ofEntries catalog type message with
      | error unnamed =>
          rw [wrote] at writes
          cases writes
      | ok written =>
          rw [wrote] at writes
          cases writes
          refine presents_object sound names shaped each ?_ wrote
          intro field isField value isHeld json wroteValue
          exact inductionHypothesis _ (Message.mem_values.mp isHeld) field
            (sound.field?_eq isField) wroteValue

end RpcEcho.Proto.JsonForm
