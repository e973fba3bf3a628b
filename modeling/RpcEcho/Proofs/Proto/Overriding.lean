import RpcEcho.Proofs.Proto.BinaryForm

/-!
# One message overridden by another

What proto3 asks of two messages of a type that are read as one: the newer scalar counts, lists are
joined, of entries with one key the newer one counts, messages in fields are merged, and of a choice
the newer member stays. It holds of each field whose records stand behind one another.

* `Overrides`: what it means, field by field and message in message.
* `Binary.fieldEntries?_append`: the records of a field behind others of the field.
-/

namespace RpcEcho.Proto

variable {τ : Type}

/-- A field of this label occurs at most once. -/
def Label.IsSingle : Label → Prop
  | .implicit | .explicit => True
  | .required | .repeated | .packed | .map => False

mutual

/-- What a field holds when a newer message overrides an older one, from what each of them holds in
it. -/
inductive FieldOverrides (catalog : Catalog τ) :
    MessageField τ → List Value → List Value → List Value → Prop
  /-- A field that the newer message leaves out stays as it was. -/
  | kept {field : MessageField τ} {old : List Value} : FieldOverrides catalog field old [] old
  /-- The newer scalar counts. -/
  | replaced {field : MessageField τ} {kind : Scalar} {old : List Value} {value : Value}
      (isScalar : field.type = .scalar kind) (single : field.label.IsSingle) :
      FieldOverrides catalog field old [value] [value]
  | added {field : MessageField τ} {value : Value} (single : field.label.IsSingle) :
      FieldOverrides catalog field [] [value] [value]
  | merged {field : MessageField τ} {type : τ} {old new result : Message}
      (isMessage : field.type = .message type) (single : field.label.IsSingle)
      (inside : Overrides catalog type old new result) :
      FieldOverrides catalog field [.message old] [.message new] [.message result]
  /-- The newer elements go behind the older ones. -/
  | joined {field : MessageField τ} {old new : List Value}
      (isList : field.label = .repeated ∨ field.label = .packed) :
      FieldOverrides catalog field old new (old ++ new)
  /-- Of entries with one key the newer one counts. -/
  | keyed {field : MessageField τ} {old new result : List Value} (isMap : field.label = .map)
      (distinct : (result.map Value.key).Nodup)
      (each : ∀ value, value ∈ result ↔
        value ∈ new ∨ value ∈ old ∧ value.key ∉ new.map Value.key) :
      FieldOverrides catalog field old new result

/-- What a newer message makes of an older one of the same type: of a choice the newer member drops
all others, and each field is overridden by itself. -/
inductive Overrides (catalog : Catalog τ) : τ → Message → Message → Message → Prop
  | fields {type : τ} {old new result : Message}
      (whole : Message.ofFields (catalog.fields type)
        (fun field => result.values field.number) = result)
      (dropped : ∀ slot ∈ catalog type, ∀ field ∈ slot.fields, ∀ other ∈ slot.fields,
        other ≠ field → new.values other.number ≠ [] → result.values field.number = [])
      (each : ∀ slot ∈ catalog type, ∀ field ∈ slot.fields,
        (∀ other ∈ slot.fields, other ≠ field → new.values other.number = []) →
          FieldOverrides catalog field (old.values field.number) (new.values field.number)
            (result.values field.number)) :
      Overrides catalog type old new result

end

namespace Binary

/-! ## Maps -/

theorem mem_keepLast {kept : List Message} {entry other : Message} :
    other ∈ keepLast kept entry ↔ other = entry ∨ other ∈ kept ∧ other.text 1 ≠ entry.text 1 := by
  by_cases isHeld : ∃ other ∈ kept, other.text 1 = entry.text 1
  · obtain ⟨same, member, sameKey⟩ := isHeld
    rw [keepLast_of_mem member sameKey, List.mem_map]
    constructor
    · rintro ⟨before, isBefore, rfl⟩
      by_cases replaced : before.text 1 = entry.text 1
      · exact .inl (if_pos replaced)
      · rw [if_neg replaced]
        exact .inr ⟨isBefore, replaced⟩
    · rintro (rfl | ⟨isKept, different⟩)
      · exact ⟨same, member, if_pos sameKey⟩
      · exact ⟨other, isKept, if_neg different⟩
  · have isNew : ∀ other ∈ kept, other.text 1 ≠ entry.text 1 :=
      fun other member same => isHeld ⟨other, member, same⟩
    rw [keepLast_of_new isNew, List.mem_append, List.mem_singleton, or_comm]
    exact or_congr_right ⟨fun member => ⟨member, isNew other member⟩, And.left⟩

theorem nodup_keepLast {kept : List Message} {entry : Message}
    (distinct : (kept.map fun other => other.text 1).Nodup) :
    ((keepLast kept entry).map fun other => other.text 1).Nodup := by
  by_cases isHeld : ∃ other ∈ kept, other.text 1 = entry.text 1
  · obtain ⟨same, member, sameKey⟩ := isHeld
    have sameKeys : ((keepLast kept entry).map fun other => other.text 1) =
        kept.map fun other => other.text 1 := by
      rw [keepLast_of_mem member sameKey, List.map_map]
      refine List.map_congr_left fun other _ => ?_
      by_cases replaced : other.text 1 = entry.text 1
      · rw [Function.comp_apply, if_pos replaced, replaced]
      · rw [Function.comp_apply, if_neg replaced]
    rwa [sameKeys]
  · have isNew : ∀ other ∈ kept, other.text 1 ≠ entry.text 1 :=
      fun other member same => isHeld ⟨other, member, same⟩
    rw [keepLast_of_new isNew, List.map_append, List.map_singleton]
    refine List.nodup_append.mpr ⟨distinct, List.nodup_singleton _, ?_⟩
    intro key isKey last isLast
    obtain ⟨other, member, rfl⟩ := List.mem_map.mp isKey
    rw [List.mem_singleton.mp isLast]
    exact isNew other member

/-- Entries with different keys take the places of those with their keys. -/
theorem mem_foldl_keepLast {entries kept : List Message} {entry : Message}
    (distinct : (entries.map fun entry => entry.text 1).Nodup) :
    entry ∈ entries.foldl keepLast kept ↔
      entry ∈ entries ∨ entry ∈ kept ∧ entry.text 1 ∉ entries.map fun entry => entry.text 1 := by
  induction entries generalizing kept with
  | nil => simp
  | cons first entries inductionHypothesis =>
      obtain ⟨isNew, distinctRest⟩ := List.nodup_cons.mp distinct
      rw [List.foldl_cons, inductionHypothesis distinctRest, mem_keepLast, List.mem_cons,
        List.map_cons, List.mem_cons, not_or]
      constructor
      · rintro (isLater | ⟨rfl | ⟨isKept, different⟩, notLater⟩)
        · exact .inl (.inr isLater)
        · exact .inl (.inl rfl)
        · exact .inr ⟨isKept, different, notLater⟩
      · rintro ((rfl | isLater) | ⟨isKept, different, notLater⟩)
        · exact .inr ⟨.inl rfl, isNew⟩
        · exact .inl isLater
        · exact .inr ⟨.inr ⟨isKept, different⟩, notLater⟩

theorem nodup_lastOfEachKey (entries : List Message) :
    ((lastOfEachKey entries).map fun entry => entry.text 1).Nodup := by
  rw [lastOfEachKey_eq]
  have keeps : ∀ kept : List Message, (kept.map fun entry => entry.text 1).Nodup →
      ((entries.foldl keepLast kept).map fun entry => entry.text 1).Nodup := by
    induction entries with
    | nil => exact fun kept distinct => distinct
    | cons entry entries inductionHypothesis =>
        exact fun kept distinct => inductionHypothesis _ (nodup_keepLast distinct)
  exact keeps [] List.nodup_nil

variable {catalog : Catalog τ}

theorem mem_mapEntries_append {type : τ} {old new : List Message} {entry : Message}
    (distinct : (new.map fun entry => entry.text 1).Nodup) :
    entry ∈ mapEntries catalog type (old ++ new) ↔
      entry ∈ new ∨ entry ∈ mapEntries catalog type old ∧
        entry.text 1 ∉ new.map fun entry => entry.text 1 := by
  rw [(mapEntries_perm_lastOfEachKey catalog type _).mem_iff,
    (mapEntries_perm_lastOfEachKey catalog type _).mem_iff, lastOfEachKey_eq, List.foldl_append,
    mem_foldl_keepLast distinct, ← lastOfEachKey_eq]

theorem nodup_mapEntries (type : τ) (entries : List Message) :
    ((mapEntries catalog type entries).map fun entry => entry.text 1).Nodup :=
  ((mapEntries_perm_lastOfEachKey catalog type entries).map _).nodup_iff.mpr
    (nodup_lastOfEachKey entries)

/-! ## Fields -/

theorem values_map_number (number : Nat) (values : List Value) :
    Message.values (values.map fun value => (number, value)) number = values := by
  rw [Message.values, List.filterMap_map]
  simp

/-- Octets of a message behind others of its type are read as what they make of the other
message. -/
def Merges (catalog : Catalog τ) (read? : τ → Bytes → Option Message) : FieldType τ → Value → Prop
  | .message inner, .message new => ∀ octets old, read? inner octets = some old →
      ∃ result, read? inner (octets ++ encode catalog inner new) = some result ∧
        Overrides catalog inner old new result
  | _, _ => True

variable {read? : τ → Bytes → Option Message}

/-- The records of a message are read as their octets, one behind the other. -/
theorem merged?_eq_some_iff {read? : Bytes → Option Message} {contents : List Record.Content}
    {message : Message} : merged? read? contents = some message ↔
      ∃ parts, contents.mapM messageOctets? = some parts ∧
        (∃ messages, parts.mapM read? = some messages) ∧ read? parts.flatten = some message := by
  rw [merged?, Option.bind_eq_some_iff]
  refine exists_congr fun parts => and_congr_right fun _ => ?_
  rw [Option.bind_eq_some_iff]
  constructor
  · rintro ⟨messages, areRead, found⟩
    refine ⟨⟨messages, areRead⟩, ?_⟩
    split at found
    · rename_i only
      cases found
      obtain ⟨part, rfl, isRead⟩ := List.map_eq_singleton_iff.mp (map_eq_map_some_of_mapM areRead)
      rwa [List.flatten_singleton]
    · exact found
  · rintro ⟨⟨messages, areRead⟩, found⟩
    refine ⟨messages, areRead, ?_⟩
    split
    · rename_i only
      obtain ⟨part, rfl, isRead⟩ := List.map_eq_singleton_iff.mp (map_eq_map_some_of_mapM areRead)
      rw [List.flatten_singleton, isRead] at found
      exact found
    · exact found

theorem isEmpty_concat {alpha : Type} (front : List alpha) (item : alpha) :
    (front ++ [item]).isEmpty = false := by simp

theorem exists_mapM_of_last? {kind : Scalar} {contents : List Record.Content} {old : Option Value}
    (found : last? read? (.scalar kind) contents = some old) :
    ∃ values, contents.mapM (scalarOf? kind) = some values := by
  rw [last?] at found
  split at found
  · rename_i isEmpty
    exact ⟨[], by rw [List.isEmpty_iff.mp isEmpty]; rfl⟩
  · obtain ⟨values, areRead, _⟩ := Option.map_eq_some_iff.mp found
    exact ⟨values, areRead⟩

theorem last?_concat_scalar {kind : Scalar} {contents : List Record.Content} {old : Option Value}
    (found : last? read? (.scalar kind) contents = some old) {content : Record.Content}
    {value : Value} (isRead : scalarOf? kind content = some value) :
    last? read? (.scalar kind) (contents ++ [content]) = some (some value) := by
  obtain ⟨values, areRead⟩ := exists_mapM_of_last? found
  rw [last?, isEmpty_concat]
  simp [mapM_concat areRead isRead]

/-- A message behind messages is read as its octets behind theirs. -/
theorem last?_concat_message {inner : τ} {contents : List Record.Content} {old new : Message}
    (found : last? read? (.message inner) contents = some (some (.message old)))
    (isRead : read? inner (encode catalog inner new) = some new) :
    ∃ octets, read? inner octets = some old ∧
      ∀ result, read? inner (octets ++ encode catalog inner new) = some result →
        last? read? (.message inner) (contents ++ [.delimited (encode catalog inner new)]) =
          some (some (.message result)) := by
  rw [last?] at found
  split at found
  · cases found
  · obtain ⟨before, isMerged, same⟩ := Option.map_eq_some_iff.mp found
    cases same
    obtain ⟨parts, areParts, ⟨messages, areRead⟩, isBefore⟩ := merged?_eq_some_iff.mp isMerged
    refine ⟨parts.flatten, isBefore, fun result isResult => ?_⟩
    have isMerged : merged? (read? inner) (contents ++ [.delimited (encode catalog inner new)]) =
        some result := by
      refine merged?_eq_some_iff.mpr
        ⟨_, mapM_concat areParts rfl, ⟨_, mapM_concat areRead isRead⟩, ?_⟩
      rwa [List.flatten_append, List.flatten_singleton]
    rw [last?, isEmpty_concat]
    exact Option.map_eq_some_iff.mpr ⟨result, isMerged, rfl⟩

/-- A value behind the values of a field that occurs at most once overrides them. -/
theorem last?_concat {field : MessageField τ} {contents : List Record.Content} {old : Option Value}
    (found : last? read? field.type contents = some old) (single : field.label.IsSingle)
    {value : Value} (back : ReadsBack catalog read? field.type value)
    (merges : Merges catalog read? field.type value) :
    ∃ result, last? read? field.type (contents ++ [recordContent catalog field.type value]) =
        some (some result) ∧ FieldOverrides catalog field old.toList [value] [result] := by
  generalize isType : field.type = type at found back merges ⊢
  cases type with
  | scalar kind => exact ⟨value, last?_concat_scalar found back, .replaced isType single⟩
  | message inner =>
      cases value with
      | message new =>
          cases contents with
          | nil =>
              cases found
              exact ⟨.message new, last?_single back, .added single⟩
          | cons content contents =>
              have isMessage : ∃ before, old = some (.message before) := by
                obtain ⟨before, _, same⟩ := Option.map_eq_some_iff.mp found
                exact ⟨before, same.symm⟩
              obtain ⟨before, rfl⟩ := isMessage
              obtain ⟨octets, isBefore, joins⟩ := last?_concat_message found back
              obtain ⟨result, isResult, overrides⟩ := merges octets before isBefore
              exact ⟨.message result, joins result isResult, .merged isType single overrides⟩
      | text _ | bytes _ | int _ => cases back

/-- The messages of some records. -/
def messagesOf? (read? : Bytes → Option Message) (contents : List Record.Content) :
    Option (List Message) :=
  (contents.mapM messageOctets?).bind fun parts => parts.mapM read?

theorem messagesOf?_append {read? : Bytes → Option Message} {front behind : List Record.Content}
    {first second : List Message} (isFirst : messagesOf? read? front = some first)
    (isSecond : messagesOf? read? behind = some second) :
    messagesOf? read? (front ++ behind) = some (first ++ second) := by
  obtain ⟨parts, areParts, areRead⟩ := Option.bind_eq_some_iff.mp isFirst
  obtain ⟨others, areOthers, othersRead⟩ := Option.bind_eq_some_iff.mp isSecond
  exact Option.bind_eq_some_iff.mpr
    ⟨_, mapM_append_eq_some areParts areOthers, mapM_append_eq_some areRead othersRead⟩

/-- The messages that a field holds are read of their records. -/
theorem messagesOf?_values {inner : τ} {values : List Value}
    (valid : ∀ value ∈ values, IsValue catalog (.message inner) value)
    (back : ∀ value ∈ values, ReadsBack catalog read? (.message inner) value) :
    (messagesOf values).map .message = values ∧
      messagesOf? (read? inner) (values.map (recordContent catalog (.message inner))) =
        some (messagesOf values) := by
  have same := map_message_messagesOf fun value member => isMessage_of_isValue (valid value member)
  refine ⟨same, ?_⟩
  have each : ∀ message ∈ messagesOf values,
      read? inner (encode catalog inner message) = some message := fun message member =>
    back (.message message) (same ▸ List.mem_map_of_mem member)
  have found := messages_read each
  rwa [same] at found

theorem nodup_keys_mapEntries (type : τ) (entries : List Message) :
    (((mapEntries catalog type entries).map Value.message).map Value.key).Nodup := by
  rw [List.map_map]
  exact nodup_mapEntries type entries

theorem mem_values_mapEntries {type : τ} {old new : List Message} {value : Value}
    (distinct : ((new.map Value.message).map Value.key).Nodup) :
    value ∈ (mapEntries catalog type (old ++ new)).map Value.message ↔
      value ∈ new.map Value.message ∨ value ∈ (mapEntries catalog type old).map Value.message ∧
        value.key ∉ (new.map Value.message).map Value.key := by
  rw [List.map_map] at distinct ⊢
  constructor
  · intro member
    obtain ⟨entry, isEntry, rfl⟩ := List.mem_map.mp member
    rcases (mem_mapEntries_append distinct).mp isEntry with isNew | ⟨isOld, notNew⟩
    · exact .inl (List.mem_map_of_mem isNew)
    · exact .inr ⟨List.mem_map_of_mem isOld, notNew⟩
  · rintro (member | ⟨member, notNew⟩)
    · obtain ⟨entry, isNew, rfl⟩ := List.mem_map.mp member
      exact List.mem_map_of_mem ((mem_mapEntries_append distinct).mpr (.inl isNew))
    · obtain ⟨entry, isOld, rfl⟩ := List.mem_map.mp member
      exact List.mem_map_of_mem ((mem_mapEntries_append distinct).mpr (.inr ⟨isOld, notNew⟩))

/-- A value behind what a field without presence holds. -/
theorem fieldEntries?_concat_implicit {number : Nat} {name : String} {kind : Scalar}
    {contents : List Record.Content} {entries : Message}
    (found : fieldEntries? catalog read? ⟨number, name, .scalar kind, .implicit⟩ contents =
      some entries) {value : Value} (notDefault : value.isDefault = false)
    (back : ReadsBack catalog read? (.scalar kind) value) :
    fieldEntries? catalog read? ⟨number, name, .scalar kind, .implicit⟩
      (contents ++ [recordContent catalog (.scalar kind) value]) = some [(number, value)] := by
  obtain ⟨old, isLast, _⟩ := Option.map_eq_some_iff.mp found
  refine Option.map_eq_some_iff.mpr ⟨_, last?_concat_scalar isLast back, ?_⟩
  simp [notDefault]

/-- The records of what a message holds in a field, behind others of the field. -/
theorem fieldEntries?_append {field : MessageField τ} {contents : List Record.Content}
    {entries : Message} (found : fieldEntries? catalog read? field contents = some entries)
    {values : List Value} (sound : field.type.IsSound catalog field.label)
    (admitted : field.label.Admits values)
    (valid : ∀ value ∈ values, IsValue catalog field.type value)
    (back : ∀ value ∈ values, ReadsBack catalog read? field.type value)
    (merges : ∀ value ∈ values, Merges catalog read? field.type value) :
    ∃ result : Message, fieldEntries? catalog read? field
        (contents ++ (fieldRecords catalog field values).map Prod.snd) = some result ∧
      FieldOverrides catalog field (entries.values field.number) values
        (result.values field.number) := by
  by_cases isAbsent : values = []
  · refine ⟨entries, ?_, isAbsent ▸ .kept⟩
    have noRecords : fieldRecords catalog field [] = [] := by
      rw [fieldRecords]
      split <;> rfl
    rwa [isAbsent, noRecords, List.map_nil, List.append_nil]
  obtain ⟨number, name, type, label⟩ := field
  have oneByOne (contents : List Record.Content) :
      (contents.map fun content => (number, content)).map Prod.snd = contents := by
    rw [List.map_map]
    exact List.map_id contents
  have isOnly (atMostOne : values.length ≤ 1) : ∃ value, values = [value] :=
    List.length_eq_one_iff.mp (Nat.le_antisymm atMostOne (List.length_pos_iff.mpr isAbsent))
  cases label with
  | implicit =>
      obtain ⟨value, rfl⟩ := isOnly admitted.1
      cases type with
      | message inner => cases sound
      | scalar kind =>
          have isRead := fieldEntries?_concat_implicit found
            (admitted.2 value List.mem_cons_self) (back value List.mem_cons_self)
          refine ⟨_, isRead, ?_⟩
          rw [← List.map_singleton, values_map_number]
          exact .replaced rfl trivial
  | explicit =>
      obtain ⟨value, rfl⟩ := isOnly admitted
      obtain ⟨old, isLast, rfl⟩ := Option.map_eq_some_iff.mp found
      have single : (MessageField.mk number name type .explicit).label.IsSingle := trivial
      obtain ⟨result, isResult, overrides⟩ := last?_concat isLast single
        (back value List.mem_cons_self) (merges value List.mem_cons_self)
      refine ⟨[(number, result)], Option.map_eq_some_iff.mpr ⟨_, isResult, rfl⟩, ?_⟩
      rw [← List.map_singleton, values_map_number]
      cases old with
      | none => exact overrides
      | some before =>
          have held := values_map_number number [before]
          rw [List.map_singleton] at held
          exact held.symm ▸ overrides
  | required => cases type <;> cases sound
  | repeated =>
      cases type with
      | scalar kind =>
          obtain ⟨elements, areRead, rfl⟩ := Option.map_eq_some_iff.mp found
          obtain ⟨others, othersRead, joined⟩ :=
            Option.map_eq_some_iff.mp (elements_read catalog (holds_of_isValue valid))
          refine ⟨_, Option.map_eq_some_iff.mpr
            ⟨_, mapM_append_eq_some areRead ((congrArg _ (oneByOne _)).trans othersRead), rfl⟩, ?_⟩
          rw [values_map_number, values_map_number, List.flatten_append, joined]
          exact .joined (.inl rfl)
      | message inner =>
          obtain ⟨messages, areRead, rfl⟩ := Option.map_eq_some_iff.mp found
          obtain ⟨areMessages, newRead⟩ := messagesOf?_values valid back
          refine ⟨_, Option.map_eq_some_iff.mpr ⟨_, messagesOf?_append areRead
            ((congrArg _ (oneByOne _)).trans newRead), rfl⟩, ?_⟩
          rw [values_map_number, values_map_number, List.map_append, areMessages]
          exact .joined (.inl rfl)
  | packed =>
      cases type with
      | message inner => cases sound
      | scalar kind =>
          obtain ⟨elements, areRead, rfl⟩ := Option.map_eq_some_iff.mp found
          obtain ⟨value, others, rfl⟩ := List.exists_cons_of_ne_nil isAbsent
          have unpacked := unpackOnto?_contents catalog (isShort_of_isPackable sound.1 sound.2)
            (holds_of_isValue valid) []
          have isRead (octets : Bytes) : elementsOf? kind (.delimited octets) =
              unpackOnto? kind [] octets := by
            rw [elementsOf?]
            exact sound.2
          refine ⟨_, Option.map_eq_some_iff.mpr
            ⟨_, mapM_concat areRead ((isRead _).trans unpacked), rfl⟩, ?_⟩
          rw [values_map_number, values_map_number, List.flatten_append, List.flatten_singleton]
          exact .joined (.inr rfl)
  | map =>
      cases type with
      | scalar kind => cases sound
      | message inner =>
          obtain ⟨messages, areRead, rfl⟩ := Option.map_eq_some_iff.mp found
          obtain ⟨areMessages, newRead⟩ := messagesOf?_values valid back
          refine ⟨_, Option.map_eq_some_iff.mpr ⟨_, messagesOf?_append areRead
            ((congrArg _ (oneByOne _)).trans newRead), rfl⟩, ?_⟩
          have distinct : (((messagesOf values).map Value.message).map Value.key).Nodup :=
            areMessages.symm ▸ admitted
          rw [values_map_number, values_map_number]
          refine .keyed rfl (nodup_keys_mapEntries inner _) fun value => ?_
          have each : value ∈ (mapEntries catalog inner (messages ++ _)).map Value.message ↔ _ :=
            mem_values_mapEntries distinct
          rwa [areMessages] at each

end Binary
end RpcEcho.Proto
