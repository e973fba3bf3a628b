import RpcEcho.Proofs.Proto.Appending
import RpcEcho.Proofs.Proto.Overriding

/-!
# Messages one behind the other

The octets of a message stand behind octets that are already a message, with fields of no known
number between them. They are read as one message: what the first holds, overridden by what the
second holds.

* `Binary.SlotOverrides`: what it means of the entries of one slot.
* `Binary.exists_decodeWithin?_append`: the joined octets, by induction on how deep messages may
  nest.
-/

namespace RpcEcho.Proto.Binary

variable {τ : Type} {catalog : Catalog τ} {read? : τ → Bytes → Option Message}

/-! ## Slots -/

/-- What a newer message makes of what an older one holds in a slot. -/
structure SlotOverrides (catalog : Catalog τ) (slot : Slot τ) (old new result : Message) :
    Prop where
  dropped : ∀ field ∈ slot.fields, ∀ other ∈ slot.fields,
    other ≠ field → new.values other.number ≠ [] → result.values field.number = []
  each : ∀ field ∈ slot.fields,
    (∀ other ∈ slot.fields, other ≠ field → new.values other.number = []) →
      FieldOverrides catalog field (old.values field.number) (new.values field.number)
        (result.values field.number)

theorem SlotOverrides.single {field : MessageField τ} {old new result : Message}
    (overrides : FieldOverrides catalog field (old.values field.number) (new.values field.number)
      (result.values field.number)) : SlotOverrides catalog (.single field) old new result where
  dropped := by
    intro first isFirst second isSecond different
    exact absurd ((List.mem_singleton.mp isSecond).trans (List.mem_singleton.mp isFirst).symm)
      different
  each := by
    intro only isOnly _
    rw [List.mem_singleton.mp isOnly]
    exact overrides

/-- Of a choice that the newer message leaves out nothing changes. -/
theorem SlotOverrides.of_absent {slot : Slot τ} {old new : Message}
    (absent : ∀ field ∈ slot.fields, new.values field.number = []) :
    SlotOverrides catalog slot old new old where
  dropped := fun _ _ other isOther _ isSet => absurd (absent other isOther) isSet
  each := by
    intro field isField _
    rw [absent field isField]
    exact .kept

theorem values_singleton (number asked : Nat) (value : Value) :
    Message.values [(number, value)] asked = if number = asked then [value] else [] := by
  by_cases same : number = asked <;> simp [Message.values, same]

/-- Of a choice that the newer message makes, its member is overridden and no other is left. -/
theorem SlotOverrides.of_member {slot : Slot τ} {field : MessageField τ} {old new : Message}
    {value result : Value}
    (distinct : ∀ first ∈ slot.fields, ∀ second ∈ slot.fields, first.number = second.number →
      first = second)
    (isField : field ∈ slot.fields) (isSet : new.values field.number = [value])
    (only : ∀ other ∈ slot.fields, new.values other.number ≠ [] → other = field)
    (overrides : FieldOverrides catalog field (old.values field.number) [value] [result]) :
    SlotOverrides catalog slot old new [(field.number, result)] where
  dropped := by
    intro first isFirst other isOther different otherSet
    rw [values_singleton, if_neg]
    intro same
    apply different
    rw [only other isOther otherSet, distinct field isField first isFirst same]
  each := by
    intro first isFirst absent
    by_cases same : first = field
    · rw [same, isSet, values_singleton, if_pos rfl]
      exact overrides
    · have noValue := absent field isField (Ne.symm same)
      rw [isSet] at noValue
      cases noValue

theorem lastRun_concat_of_same {records : List (Nat × Record.Content)}
    {last record : Nat × Record.Content} (isLast : records.getLast? = some last)
    (same : last.1 = record.1) : lastRun (records ++ [record]) = lastRun records ++ [record] := by
  simp [lastRun, isLast, same]

theorem lastRun_concat_of_other {records : List (Nat × Record.Content)}
    {record : Nat × Record.Content}
    (other : ∀ last, records.getLast? = some last → last.1 ≠ record.1) :
    lastRun (records ++ [record]) = [record] := by
  rcases List.eq_nil_or_concat records with rfl | ⟨before, last, rfl⟩
  · simp [lastRun]
  · have different := other last (by simp)
    simp [lastRun, different]

theorem values_among (message : Message) {members : List (MessageField τ)} {field : MessageField τ}
    (isMember : field ∈ members) :
    (message.among members).values field.number = message.values field.number := by
  rw [Message.among, Message.values, Message.values, List.filterMap_filter]
  refine List.filterMap_congr fun entry _ => ?_
  by_cases same : entry.1 = field.number
  · have isAny : (members.any fun other => decide (other.number = entry.1)) = true :=
      List.any_eq_true.mpr ⟨field, isMember, decide_eq_true same.symm⟩
    rw [if_pos isAny]
  · simp [same]

variable {depth : τ → Nat}

/-- The member that a message makes of a choice, behind other records of the choice. -/
theorem slotEntries?_concat {members : List (MessageField τ)} {name : String}
    (distinct : ∀ first ∈ members, ∀ second ∈ members, first.number = second.number →
      first = second)
    {found records : List (Nat × Record.Content)} {entries : Message}
    (isRead : slotEntries? catalog read? found (.choice name members) = some entries)
    {field : MessageField τ} (isMember : field ∈ members) (single : field.label.IsSingle)
    {value : Value} (back : ReadsBack catalog read? field.type value)
    (merges : Merges catalog read? field.type value)
    (owned : (records.filter fun record => covers (.choice name members) record.1) =
      [(field.number, recordContent catalog field.type value)]) :
    ∃ result, slotEntries? catalog read? (found ++ records) (.choice name members) =
        some [(field.number, result)] ∧
      FieldOverrides catalog field (entries.values field.number) [value] [result] := by
  obtain ⟨readable, held⟩ := (slotEntries?_choice_iff distinct rfl).mp isRead
  generalize isOwn : (found.filter fun record => covers (.choice name members) record.1) = own
    at readable held
  let record := (field.number, recordContent catalog field.type value)
  have ownAll : ((found ++ records).filter fun record => covers (.choice name members) record.1) =
      own ++ [record] := by rw [List.filter_append, isOwn, owned]
  have readableAll : ∀ other ∈ own ++ [record], ∃ member ∈ members, member.number = other.1 ∧
      isReadable read? member other.2 = true := by
    intro other isOther
    rcases List.mem_append.mp isOther with isOld | isNew
    · exact readable other isOld
    · rw [List.mem_singleton.mp isNew]
      exact ⟨field, isMember, rfl, isReadable_of_readsBack back⟩
  have isLast : (own ++ [record]).getLast? = some record := by simp
  have made {old : Option Value} {contents : List Record.Content}
      (isRun : (lastRun (own ++ [record])).map Prod.snd =
        contents ++ [recordContent catalog field.type value])
      (isOld : last? read? field.type contents = some old) :
      ∃ result, slotEntries? catalog read? (found ++ records) (.choice name members) =
          some [(field.number, result)] ∧
        FieldOverrides catalog field old.toList [value] [result] := by
    obtain ⟨result, isResult, overrides⟩ := last?_concat isOld single back merges
    refine ⟨result, ?_, overrides⟩
    rw [slotEntries?_choice_iff distinct ownAll]
    exact ⟨readableAll, .inr ⟨record, field, result, isLast, isMember, rfl, isRun ▸ isResult, rfl⟩⟩
  -- A record of the same member right before goes on, any other one begins again.
  by_cases goesOn : ∃ last, own.getLast? = some last ∧ last.1 = field.number
  · obtain ⟨last, isBefore, sameNumber⟩ := goesOn
    rcases held with ⟨isEmpty, _⟩ | ⟨other, member, before, isOther, inMembers, number, isOld, rfl⟩
    · rw [isEmpty] at isBefore
      cases isBefore
    · cases isBefore.symm.trans isOther
      cases distinct member inMembers field isMember (number.trans sameNumber)
      have isRun : (lastRun (own ++ [record])).map Prod.snd =
          (lastRun own).map Prod.snd ++ [recordContent catalog field.type value] := by
        rw [lastRun_concat_of_same isBefore sameNumber, List.map_append]
        rfl
      rw [values_singleton, if_pos rfl]
      exact made isRun isOld
  · have isRun : (lastRun (own ++ [record])).map Prod.snd =
        [] ++ [recordContent catalog field.type value] := by
      rw [lastRun_concat_of_other fun last isBefore same => goesOn ⟨last, isBefore, same⟩]
      rfl
    have noneBefore : entries.values field.number = [] := by
      rcases held with ⟨_, rfl⟩ | ⟨last, member, before, isLast, _, number, _, rfl⟩
      · rfl
      · rw [values_singleton, if_neg fun same => goesOn ⟨last, isLast, number.symm.trans same⟩]
    rw [noneBefore]
    exact made isRun rfl

/-- What a message holds in a slot, behind what was read of the slot. -/
theorem slotEntries?_append (sound : catalog.IsSound depth) {type : τ} {new : Message}
    (shaped : catalog.Shapes type new) (each : catalog.Each type new (IsValue catalog))
    (back : catalog.Each type new (ReadsBack catalog read?))
    (merges : catalog.Each type new (Merges catalog read?)) {slot : Slot τ}
    (member : slot ∈ catalog type) {found : List (Nat × Record.Content)} {entries : Message}
    (isRead : slotEntries? catalog read? found slot = some entries) :
    ∃ result : Message,
      slotEntries? catalog read? (found ++ records catalog type new) slot = some result ∧
        SlotOverrides catalog slot entries new result := by
  have known : ∀ field ∈ slot.fields, catalog.field? type field.number = some field :=
    fun field isField => sound.field?_eq (Catalog.mem_fields member isField)
  have owned := filter_records sound new member
  cases slot with
  | single field =>
      have isKnown := known field List.mem_cons_self
      have isField := Catalog.field?_eq_some isKnown
      have ownAll : own field.number (found ++ records catalog type new) = own field.number found ++
          (fieldRecords catalog field (new.values field.number)).map Prod.snd := by
        rw [own_append, own_eq_filter_covers field (records catalog type new), owned]
        rfl
      have isHeld {value : Value} (held : value ∈ new.values field.number) :
          (field.number, value) ∈ new := Message.mem_values.mp held
      obtain ⟨result, isResult, overrides⟩ := fieldEntries?_append isRead
        (sound.fields type field isField) (shaped.slots _ member) (isValue_of_mem isKnown each)
        (fun value held => back _ (isHeld held) field isKnown)
        fun value held => merges _ (isHeld held) field isKnown
      refine ⟨result, ?_, .single overrides⟩
      change fieldEntries? catalog read? field (own field.number _) = _
      rw [ownAll]
      exact isResult
  | choice name members =>
      have distinct : ∀ first ∈ members, ∀ second ∈ members, first.number = second.number →
          first = second := eq_of_found known
      have atMostOne : (new.among members).length ≤ 1 := shaped.slots _ member
      have ownedBy : ((records catalog type new).filter fun record =>
          covers (.choice name members) record.1) =
            entryRecords catalog type (new.among members) := owned
      match present : new.among members with
      | _ :: _ :: _ => simp [present] at atMostOne
      | [] =>
          have sameOwn : ((found ++ records catalog type new).filter fun record =>
              covers (.choice name members) record.1) =
                found.filter fun record => covers (.choice name members) record.1 := by
            rw [List.filter_append, ownedBy, present]
            exact List.append_nil _
          refine ⟨entries, (slotEntries?_choice_iff distinct sameOwn).mpr
            ((slotEntries?_choice_iff distinct rfl).mp isRead), .of_absent fun field isMember => ?_⟩
          have inChoice : field ∈ members := isMember
          have noValue := values_among new inChoice
          rw [present] at noValue
          exact noValue.symm
      | [(number, value)] =>
          have inAmong : (number, value) ∈ new.among members :=
            present ▸ List.mem_singleton_self (number, value)
          obtain ⟨inMessage, isAny⟩ := List.mem_filter.mp inAmong
          obtain ⟨field, isMember, same⟩ := List.any_eq_true.mp isAny
          cases (of_decide_eq_true same : field.number = number)
          have isKnown := known field isMember
          have isExplicit : field.label = .explicit := sound.slots type _ member field isMember
          have single : field.label.IsSingle := isExplicit ▸ trivial
          have held {other : MessageField τ} (isOther : other ∈ members) :
              new.values other.number = if field.number = other.number then [value] else [] := by
            rw [← values_among new isOther, present, values_singleton]
          rw [present, entryRecords_singleton isKnown] at ownedBy
          obtain ⟨result, isResult, overrides⟩ :=
            slotEntries?_concat distinct isRead isMember single
            (back _ inMessage field isKnown) (merges _ inMessage field isKnown) ownedBy
          refine ⟨_, isResult,
            .of_member distinct isMember ?_ (fun other isOther isSet => ?_) overrides⟩
          · rw [held isMember, if_pos rfl]
          · rw [held isOther] at isSet
            by_cases same : field.number = other.number
            · exact (distinct field isMember other isOther same).symm
            · exact absurd (if_neg same) isSet

/-! ## Messages -/

/-- Entries of the fields of a slot, in the order of the fields. -/
def Makes (slot : Slot τ) (entries : Message) : Prop :=
  Message.ofFields slot.fields (fun field => entries.values field.number) = entries

theorem exists_values_of_fieldEntries? {field : MessageField τ} {contents : List Record.Content}
    {entries : Message} (found : fieldEntries? catalog read? field contents = some entries) :
    ∃ values : List Value, entries = values.map fun value => (field.number, value) := by
  obtain ⟨number, name, type, label⟩ := field
  cases label with
  | implicit =>
      obtain ⟨value, _, rfl⟩ := Option.map_eq_some_iff.mp found
      cases value with
      | none => exact ⟨[], rfl⟩
      | some value =>
        by_cases isDefault : value.isDefault = true
        · exact ⟨[], if_pos isDefault⟩
        · exact ⟨[value], if_neg isDefault⟩
  | explicit =>
      obtain ⟨value, _, rfl⟩ := Option.map_eq_some_iff.mp found
      cases value with
      | none => exact ⟨[], rfl⟩
      | some value => exact ⟨[value], rfl⟩
  | required =>
      cases type with
      | scalar kind =>
          obtain ⟨value, _, rfl⟩ := Option.map_eq_some_iff.mp found
          exact ⟨[value.getD kind.default], rfl⟩
      | message inner =>
          obtain ⟨value, _, rfl⟩ := Option.map_eq_some_iff.mp found
          cases value with
          | none => exact ⟨[], rfl⟩
          | some value => exact ⟨[value], rfl⟩
  | repeated | packed | map =>
      cases type with
      | scalar kind | message inner =>
          obtain ⟨_, _, rfl⟩ := Option.map_eq_some_iff.mp found
          exact ⟨_, rfl⟩

theorem fieldEntries?_makes {field : MessageField τ} {contents : List Record.Content}
    {entries : Message} (found : fieldEntries? catalog read? field contents = some entries) :
    Makes (.single field) entries := by
  obtain ⟨values, rfl⟩ := exists_values_of_fieldEntries? found
  rw [Makes, Message.ofFields, Slot.fields, List.flatMap_singleton, values_map_number]

theorem slotEntries?_makes (sound : catalog.IsSound depth) {type : τ} {slot : Slot τ}
    (member : slot ∈ catalog type) {records : List (Nat × Record.Content)} {entries : Message}
    (found : slotEntries? catalog read? records slot = some entries) : Makes slot entries := by
  cases slot with
  | single field => exact fieldEntries?_makes found
  | choice name members =>
      have known : ∀ field ∈ members, catalog.field? type field.number = some field :=
        fun field isField => sound.field?_eq (Catalog.mem_fields member isField)
      have increasing : (members.map MessageField.number).Pairwise (· < ·) :=
        (sound.increasing type).sublist ((Catalog.sublist_fields member).map MessageField.number)
      obtain ⟨_, ⟨_, rfl⟩ | ⟨_, field, value, _, isMember, _, _, rfl⟩⟩ :=
        (slotEntries?_choice_iff (eq_of_found known) rfl).mp found
      · exact List.flatMap_eq_nil_iff.mpr fun _ _ => rfl
      · rw [Makes, Slot.fields, Message.ofFields_among increasing (List.pairwise_singleton _ _)]
        have isAny : (members.any fun other => decide (other.number = field.number)) = true :=
          List.any_eq_true.mpr ⟨field, isMember, decide_eq_true rfl⟩
        exact List.filter_cons_of_pos isAny

section Slots

variable {type : τ} {made : Slot τ → Message}

/-- What the slots of a type make, taken together, holds in each field what its slot makes. -/
theorem values_flatMap
    (increasing : ((catalog.fields type).map MessageField.number).Pairwise (· < ·))
    (makes : ∀ slot ∈ catalog type, Makes slot (made slot)) {slot : Slot τ}
    (member : slot ∈ catalog type) {field : MessageField τ} (isField : field ∈ slot.fields) :
    Message.values ((catalog type).flatMap made) field.number =
      (made slot).values field.number := by
  have covered : ∀ slot ∈ catalog type, ∀ entry ∈ made slot, covers slot entry.1 = true := by
    intro slot isSlot entry isEntry
    rw [← makes slot isSlot] at isEntry
    obtain ⟨field, isField, inField⟩ := List.mem_flatMap.mp isEntry
    obtain ⟨value, _, rfl⟩ := List.mem_map.mp inField
    exact covers_eq_true.mpr ⟨field, isField, rfl⟩
  have own : Message.among ((catalog type).flatMap made) slot.fields = made slot :=
    filter_covers increasing covered member
  rw [← values_among _ isField, own]

theorem ofFields_flatMap
    (increasing : ((catalog.fields type).map MessageField.number).Pairwise (· < ·))
    (makes : ∀ slot ∈ catalog type, Makes slot (made slot)) :
    Message.ofFields (catalog.fields type)
      (fun field => Message.values ((catalog type).flatMap made) field.number) =
        (catalog type).flatMap made := by
  rw [Message.ofFields, Catalog.fields, List.flatMap_assoc]
  refine List.flatMap_congr fun slot member => ?_
  rw [← Message.ofFields, Message.ofFields_congr fun field isField =>
    values_flatMap increasing makes member isField]
  exact makes slot member

end Slots

/-- The records of a message behind those of another message of its type. -/
theorem ofRecords?_append (sound : catalog.IsSound depth) {type : τ} {new : Message}
    (shaped : catalog.Shapes type new) (each : catalog.Each type new (IsValue catalog))
    (back : catalog.Each type new (ReadsBack catalog read?))
    (merges : catalog.Each type new (Merges catalog read?))
    {found : List (Nat × Record.Content)} {old : Message}
    (isRead : ofRecords? catalog read? type found = some old) :
    ∃ result, ofRecords? catalog read? type (found ++ records catalog type new) = some result ∧
      Overrides catalog type old new result := by
  obtain ⟨made, areRead, rfl⟩ := Option.map_eq_some_iff.mp isRead
  obtain ⟨readEach, rfl⟩ := eq_map_getD_of_mapM areRead []
  let before (slot : Slot τ) : Message := (slotEntries? catalog read? found slot).getD []
  let after (slot : Slot τ) : Message :=
    (slotEntries? catalog read? (found ++ records catalog type new) slot).getD []
  have readAfter : ∀ slot ∈ catalog type,
      slotEntries? catalog read? (found ++ records catalog type new) slot = some (after slot) ∧
        SlotOverrides catalog slot (before slot) new (after slot) := by
    intro slot member
    obtain ⟨result, isResult, overrides⟩ :=
      slotEntries?_append sound shaped each back merges member (readEach slot member)
    have same : after slot = result := congrArg (Option.getD · []) isResult
    rw [same]
    exact ⟨isResult, overrides⟩
  have increasing := sound.increasing type
  have makesBefore : ∀ slot ∈ catalog type, Makes slot (before slot) :=
    fun slot member => slotEntries?_makes sound member (readEach slot member)
  have makesAfter : ∀ slot ∈ catalog type, Makes slot (after slot) :=
    fun slot member => slotEntries?_makes sound member (readAfter slot member).1
  refine ⟨(catalog type).flatMap after, ?_, .fields ?_ ?_ ?_⟩
  · have readAll := @mapM_map_eq_some _ _ _ _ id _ _ fun slot member => (readAfter slot member).1
    rw [List.map_id] at readAll
    rw [ofRecords?, readAll, Option.map_some, List.flatMap_def]
  · exact ofFields_flatMap increasing makesAfter
  · intro slot member field isField other isOther different isSet
    rw [values_flatMap increasing makesAfter member isField]
    exact (readAfter slot member).2.dropped field isField other isOther different isSet
  · intro slot member field isField absent
    rw [values_flatMap increasing makesAfter member isField, ← List.flatMap_def,
      values_flatMap increasing makesBefore member isField]
    exact (readAfter slot member).2.each field isField absent

/-- The reader of the messages that stand in a message. -/
def innerReader (catalog : Catalog τ) : Nat → τ → Bytes → Option Message
  | 0 => fun _ _ => none
  | limit + 1 => decodeWithin? catalog limit

theorem decodeWithin?_eq (limit : Nat) (type : τ) (octets : Bytes) :
    decodeWithin? catalog limit type octets =
      (Record.readAll? limit (reading catalog type) octets).bind
        (ofRecords? catalog (innerReader catalog limit) type) := by
  cases limit <;> rfl

/-- A message that stands in another one nests less deep and has fewer octets. -/
theorem exists_lower_of_mem (sound : catalog.IsSound depth) {type inner : τ}
    {message held : Message}
    (each : catalog.Each type message (IsValue catalog)) {limit : Nat} (deep : depth type ≤ limit)
    (fits : (encode catalog type message).length < Varint.bound) {number : Nat}
    {field : MessageField τ} (member : (number, .message held) ∈ message)
    (known : catalog.field? type number = some field) (isMessage : field.type = .message inner) :
    ∃ lower, limit = lower + 1 ∧ depth inner ≤ lower ∧
      (encode catalog inner held).length < Varint.bound := by
  have nests := sound.nests type field (List.mem_of_find?_eq_some known) inner isMessage
  have isRecord := mem_records member known isMessage sound
  obtain ⟨lower, rfl⟩ : ∃ lower, limit = lower + 1 :=
    Nat.exists_eq_add_one_of_ne_zero (by omega)
  exact ⟨lower, rfl, by omega,
    Nat.lt_of_le_of_lt (length_le_of_delimited isRecord) (encode_eq sound each ▸ fits)⟩

theorem readsBack_of_each (sound : catalog.IsSound depth) {type : τ} {message : Message}
    (each : catalog.Each type message (IsValue catalog)) {limit : Nat} (deep : depth type ≤ limit)
    (fits : (encode catalog type message).length < Varint.bound) :
    catalog.Each type message (ReadsBack catalog (innerReader catalog limit)) := by
  intro entry member field known
  have validEntry := each entry member field known
  cases isMessage : field.type with
  | scalar kind => exact readsBack_scalar (isMessage ▸ validEntry)
  | message inner =>
      obtain ⟨number, value⟩ := entry
      rw [isMessage] at validEntry
      have noMap : catalog.HasNoMap inner := hasNoMap_of_isSound
        (isMessage ▸ sound.fields type field (List.mem_of_find?_eq_some known))
      obtain ⟨held, rfl⟩ := isMessage_of_isValue validEntry
      obtain ⟨lower, rfl, deepHeld, fitsHeld⟩ :=
        exists_lower_of_mem sound each deep fits member known isMessage
      have found := decodeWithin?_encode sound validEntry deepHeld fitsHeld
      cases validEntry with
      | message shaped _ =>
          rw [ofFields_arranged_of_hasNoMap sound shaped noMap] at found
          exact found

theorem readAll?_unknown (sound : catalog.IsSound depth) {limit : Nat} {type : τ} {octets : Bytes}
    {found : List (Nat × Record.Content)}
    (isRead : Record.readAll? limit (reading catalog type) octets = some found)
    {fields : List (Nat × Bytes)}
    (unknown : ∀ field ∈ fields,
      Record.IsField limit field.1 field.2 ∧ catalog.field? type field.1 = none)
    {new : Message} (each : catalog.Each type new (IsValue catalog))
    (fits : (encode catalog type new).length < Varint.bound) :
    Record.readAll? limit (reading catalog type)
        (octets ++ fields.flatMap Prod.snd ++ encode catalog type new) =
      some (found ++ records catalog type new) := by
  rw [encode_eq sound each]
  refine Record.readAll?_append isRead (fun field member => ?_) ?_
  · obtain ⟨isField, notKnown⟩ := unknown field member
    refine ⟨isField, ?_⟩
    rw [reading, notKnown]
  · exact isReadable_of_isRecordOf sound (encode_eq sound each ▸ fits)
      fun record member => isRecordOf_of_mem sound each member

/-- The octets of a message behind octets that are already a message, with fields of no known number
between them: the older message is overridden by the newer one. By induction on how deep messages
may nest, since a message in a field is read like that as well. -/
theorem exists_decodeWithin?_append (sound : catalog.IsSound depth) {limit : Nat} {type : τ}
    {octets : Bytes} {old new : Message}
    (found : decodeWithin? catalog limit type octets = some old)
    (valid : catalog.IsMessage type new) (deep : depth type ≤ limit)
    (fits : (encode catalog type new).length < Varint.bound) {fields : List (Nat × Bytes)}
    (unknown : ∀ field ∈ fields,
      Record.IsField limit field.1 field.2 ∧ catalog.field? type field.1 = none) :
    ∃ result, decodeWithin? catalog limit type
        (octets ++ fields.flatMap Prod.snd ++ encode catalog type new) = some result ∧
      Overrides catalog type old new result := by
  induction limit using Nat.strongRecOn generalizing type octets old new fields with
  | ind limit inductionHypothesis =>
      cases valid with
      | message shaped each =>
          rw [decodeWithin?_eq] at found ⊢
          obtain ⟨before, areRead, isOld⟩ := Option.bind_eq_some_iff.mp found
          rw [readAll?_unknown sound areRead unknown each fits, Option.bind_some]
          refine ofRecords?_append sound shaped each (readsBack_of_each sound each deep fits)
            (fun entry member field known => ?_) isOld
          have validEntry := each entry member field known
          cases isMessage : field.type with
          | scalar kind => trivial
          | message inner =>
              obtain ⟨number, value⟩ := entry
              rw [isMessage] at validEntry
              obtain ⟨held, rfl⟩ := isMessage_of_isValue validEntry
              obtain ⟨lower, rfl, deepHeld, fitsHeld⟩ :=
                exists_lower_of_mem sound each deep fits member known isMessage
              intro inside oldHeld isOldHeld
              have noField : ∀ field ∈ ([] : List (Nat × Bytes)),
                  Record.IsField lower field.1 field.2 ∧
                  catalog.field? inner field.1 = none := fun _ impossible => nomatch impossible
              have overridden := inductionHypothesis lower (Nat.lt_succ_self lower) isOldHeld
                validEntry deepHeld fitsHeld noField
              rwa [List.flatMap_nil, List.append_nil] at overridden

end RpcEcho.Proto.Binary
