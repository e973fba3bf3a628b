import RpcEcho.Proto.JsonForm
import RpcEcho.Proofs.Json.Objects
import RpcEcho.Proofs.Proto.Values

/-!
# The objects of messages

A message can be written unless a number without a name stands where numbers have names. Its object
has a member for each field that holds something, with the JSON of what the field holds, and tells
all about it.

* `JsonForm.exists_error_iff`: which values cannot be written.
* `JsonForm.own_written`, `JsonForm.object_eq`: what is written for a field, and for a message.
* `JsonForm.isExact_of_ofValue`: what is written is read as it is.
-/

namespace RpcEcho.Proto.JsonForm

variable {τ : Type} {catalog : Catalog τ} {depth : τ → Nat} {type : τ}

/-! ## Which values can be written -/

/-- A message cannot be written just if one of its entries cannot. -/
theorem ofEntries_error_iff {message : Message} :
    (∃ unnamed, ofEntries catalog type message = .error unnamed) ↔
      ∃ entry ∈ message, ∃ field, catalog.field? type entry.1 = some field ∧
        ∃ unnamed, ofValue catalog field.type entry.2 = .error unnamed := by
  induction message with
  | nil => simp [ofEntries]
  | cons entry message inductionHypothesis =>
      obtain ⟨number, value⟩ := entry
      rw [List.exists_mem_cons_iff, ← inductionHypothesis, ofEntries]
      cases known : catalog.field? type number with
      | none => simp
      | some field =>
          simp only [Option.some.injEq, exists_eq_left']
          cases ofValue catalog field.type value with
          | error unnamed => simp
          | ok json => cases ofEntries catalog type message <;> simp [Except.map]

theorem ofValue_message_error_iff {message : Message} :
    (∃ unnamed, ofValue catalog (.message type) (.message message) = .error unnamed) ↔
      ∃ unnamed, ofEntries catalog type message = .error unnamed := by
  rw [ofValue]
  cases ofEntries catalog type message <;> simp [Except.map]

/-- A scalar cannot be written only if it is a number without a name. -/
theorem hasUnnamed_of_ofScalar {kind : Scalar} {value : Value} {unnamed : Unnamed}
    (failed : ofScalar kind value = .error unnamed) : HasUnnamed catalog (.scalar kind) value := by
  unfold ofScalar at failed
  split at failed
  case h_4 names number =>
    split at failed
    case h_1 => cases failed
    case h_2 isNone =>
      refine .number fun entry member same => ?_
      simpa [same] using List.find?_eq_none.mp isNone entry member
  all_goals cases failed

/-- What cannot be written holds a number without a name. -/
theorem hasUnnamed_of_ofValue (type : FieldType τ) (value : Value)
    (fails : ∃ unnamed, ofValue catalog type value = .error unnamed) :
    HasUnnamed catalog type value := by
  match type, value with
  | .scalar kind, value =>
      obtain ⟨unnamed, failed⟩ := fails
      rw [ofValue] at failed
      exact hasUnnamed_of_ofScalar failed
  | .message type, .message message =>
      obtain ⟨entry, member, field, known, failsInside⟩ :=
        ofEntries_error_iff.mp (ofValue_message_error_iff.mp fails)
      have smaller : sizeOf entry.2 < 1 + sizeOf message := by
        have inside := List.sizeOf_lt_of_mem member
        obtain ⟨number, value⟩ := entry
        simp only [Prod.mk.sizeOf_spec] at inside ⊢
        omega
      exact .inside member known (hasUnnamed_of_ofValue field.type entry.2 failsInside)
  | .message type, .text _ | .message type, .bytes _ | .message type, .int _ =>
      obtain ⟨unnamed, failed⟩ := fails
      rw [ofValue] at failed
      · cases failed
      · simp
termination_by sizeOf value

/-- A value cannot be written just if a number without a name stands in it. -/
theorem exists_error_iff {type : FieldType τ} {value : Value} :
    (∃ unnamed, ofValue catalog type value = .error unnamed) ↔ HasUnnamed catalog type value := by
  refine ⟨hasUnnamed_of_ofValue type value, fun unnamed => ?_⟩
  induction unnamed with
  | @number name names number unnamed =>
      have isNone : names.find? (fun entry => entry.2 = number) = none :=
        List.find?_eq_none.mpr fun entry member => by simpa using unnamed entry member
      rw [ofValue, ofScalar, isNone]
      exact ⟨_, rfl⟩
  | inside member known _ inductionHypothesis =>
      exact ofValue_message_error_iff.mpr
        (ofEntries_error_iff.mpr ⟨_, member, _, known, inductionHypothesis⟩)

/-! ## What is written -/

/-- The JSON that was written for the entries of a field. -/
def own (number : Nat) (written : List (Nat × Json)) : List Json :=
  written.filterMap fun entry => if entry.1 = number then some entry.2 else none

/-- What was written for a field is the JSON of its values, one by one. -/
theorem own_written {message : Message} {field : MessageField τ}
    (found : catalog.field? type field.number = some field) {written : List (Nat × Json)}
    (writes : ofEntries catalog type message = .ok written) :
    List.Forall₂ (fun value json => ofValue catalog field.type value = .ok json)
      (message.values field.number) (own field.number written) := by
  induction message generalizing written with
  | nil =>
      rw [ofEntries] at writes
      cases writes
      exact .nil
  | cons entry message inductionHypothesis =>
      obtain ⟨number, value⟩ := entry
      rw [ofEntries] at writes
      cases known : catalog.field? type number with
      | none =>
          have different : number ≠ field.number := by
            rintro rfl
            rw [known] at found
            cases found
          simp only [known] at writes
          simpa [Message.values, different] using inductionHypothesis writes
      | some other =>
          simp only [known] at writes
          cases wrote : ofValue catalog other.type value with
          | error unnamed => simp [wrote] at writes
          | ok json =>
              cases wroteRest : ofEntries catalog type message with
              | error unnamed => simp [wrote, wroteRest, Except.map] at writes
              | ok rest =>
                  simp only [wrote, wroteRest, Except.map, Except.ok.injEq] at writes
                  subst writes
                  have restHolds := inductionHypothesis wroteRest
                  by_cases same : number = field.number
                  · subst same
                    rw [known] at found
                    cases found
                    simpa [Message.values, own] using And.intro wrote restHolds
                  · simpa [Message.values, own, same] using restHolds

/-- The JSON of the members of a field: of a list an array, and of a map an object. -/
def fieldJsons (message : Message) (written : List (Nat × Json)) (field : MessageField τ) :
    List Json :=
  match field.label with
  | .map =>
    if (message.values field.number).isEmpty then []
    else [Json.ofMembers ((message.values field.number).filterMap mapMember)]
  | .repeated | .packed =>
    if (own field.number written).isEmpty then [] else [.array (own field.number written)]
  | .implicit | .explicit | .required => own field.number written

/-- The fields of some type that are given, each with its JSON. -/
def items (fields : List (MessageField τ)) (message : Message) (written : List (Nat × Json)) :
    List (MessageField τ × Json) :=
  fields.flatMap fun field => (fieldJsons message written field).map fun json => (field, json)

theorem slotMembers_eq (message : Message) (written : List (Nat × Json)) (slot : Slot τ) :
    slotMembers message written slot =
      slot.fields.flatMap fun field =>
        (fieldJsons message written field).map fun json => (key field, json) := by
  rw [slotMembers]
  refine List.flatMap_congr fun field _ => ?_
  obtain ⟨number, name, type, label⟩ := field
  cases label with
  | implicit | explicit | required => rfl
  | repeated | packed | map =>
      simp only [fieldJsons, own]
      split <;> rfl

/-- The object of a message has the given fields under their keys. -/
theorem object_eq (catalog : Catalog τ) (type : τ) (message : Message)
    (written : List (Nat × Json)) :
    object catalog type message written =
      Json.ofMembers ((items (catalog.fields type) message written).map
        fun item => (key item.1, item.2)) := by
  rw [object, items, List.map_flatMap, Catalog.fields, List.flatMap_assoc]
  congr 1
  refine List.flatMap_congr fun slot _ => ?_
  rw [slotMembers_eq]
  refine List.flatMap_congr fun field _ => ?_
  rw [List.map_map]
  rfl

/-! ## What is written tells all -/

theorem exists_of_mem_right {alpha beta : Type} {related : alpha → beta → Prop}
    {items : List alpha} {others : List beta} (each : List.Forall₂ related items others)
    {other : beta} (member : other ∈ others) : ∃ item ∈ items, related item other := by
  induction each with
  | nil => cases member
  | @cons item other items others holds _ inductionHypothesis =>
      rcases List.mem_cons.mp member with rfl | inRest
      · exact ⟨item, List.mem_cons_self, holds⟩
      · obtain ⟨found, isFound, holdsFound⟩ := inductionHypothesis inRest
        exact ⟨found, List.mem_cons_of_mem item isFound, holdsFound⟩

theorem isExact_ofInt {value : Int} (fits : FitsWord value) : (Json.ofInt value).IsExact := by
  obtain ⟨low, high⟩ := fits
  refine ⟨value, rfl, ?_⟩
  rw [Json.digitOctets, List.length_map, Json.mostDigits,
    Nat.length_toDigits_le_iff (by decide) (by decide)]
  omega

theorem isExact_ofScalar {kind : Scalar} {value : Value} (holds : kind.Holds value) {json : Json}
    (writes : ofScalar kind value = .ok json) : json.IsExact := by
  rcases holds.cases with ⟨text, rfl, rfl⟩ | ⟨octets, rfl, rfl⟩ | ⟨short, number, rfl, fits⟩
  · cases writes
    exact ⟨text, rfl⟩
  · cases writes
    exact ⟨_, rfl⟩
  · cases kind with
    | int32 =>
        cases writes
        exact isExact_ofInt fits
    | enumeration name names =>
        rw [ofScalar] at writes
        split at writes
        · cases writes
          exact ⟨_, rfl⟩
        · cases writes
    | text | bytes | int64 | uint64 | bool | double => cases short

theorem isExact_of_mem_fieldJsons {message : Message} {written : List (Nat × Json)}
    {field : MessageField τ} (exact : ∀ json ∈ own field.number written, json.IsExact)
    {json : Json} (member : json ∈ fieldJsons message written field) : json.IsExact := by
  rw [fieldJsons] at member
  split at member
  · split at member
    · cases member
    · rw [List.mem_singleton.mp member]
      refine Json.isExact_ofMembers fun entry isEntry => ?_
      obtain ⟨value, _, made⟩ := List.mem_filterMap.mp isEntry
      cases value with
      | message held =>
          cases made
          exact ⟨_, rfl⟩
      | text _ | bytes _ | int _ => cases made
  · split at member
    · cases member
    · rw [List.mem_singleton.mp member]
      exact Json.areExact_of_forall exact
  · split at member
    · cases member
    · rw [List.mem_singleton.mp member]
      exact Json.areExact_of_forall exact
  all_goals exact exact json member

theorem isExact_object {message : Message} {written : List (Nat × Json)}
    (exact : ∀ field ∈ catalog.fields type, ∀ json ∈ own field.number written, json.IsExact) :
    (object catalog type message written).IsExact := by
  rw [object_eq]
  refine Json.isExact_ofMembers fun entry isEntry => ?_
  obtain ⟨item, isItem, rfl⟩ := List.mem_map.mp isEntry
  obtain ⟨field, isField, isMade⟩ := List.mem_flatMap.mp isItem
  obtain ⟨json, isJson, rfl⟩ := List.mem_map.mp isMade
  exact isExact_of_mem_fieldJsons (exact field isField) isJson

/-- What is written for a value is read as it is. -/
theorem isExact_of_ofValue (sound : catalog.IsSound depth) {type : FieldType τ} {value : Value}
    (valid : IsValue catalog type value) {json : Json}
    (writes : ofValue catalog type value = .ok json) : json.IsExact := by
  induction valid generalizing json with
  | scalar holds =>
      rw [ofValue] at writes
      exact isExact_ofScalar holds writes
  | @message type message shaped each inductionHypothesis =>
      rw [ofValue] at writes
      cases wrote : ofEntries catalog type message with
      | error unnamed =>
          rw [wrote] at writes
          cases writes
      | ok written =>
          rw [wrote] at writes
          cases writes
          refine isExact_object fun field isField json isOwn => ?_
          have found := sound.field?_eq isField
          obtain ⟨value, isHeld, wroteValue⟩ := exists_of_mem_right (own_written found wrote) isOwn
          exact inductionHypothesis _ (Message.mem_values.mp isHeld) field found wroteValue

end RpcEcho.Proto.JsonForm
