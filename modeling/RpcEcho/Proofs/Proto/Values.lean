import Mathlib.Data.List.Nodup
import Mathlib.Data.List.Perm.Basic
import RpcEcho.Proofs.Proto.Messages

/-!
# The values of message types

Which values a field can hold, and which lists of entries are messages of a type: every entry
belongs to a field of the type, the entries go in the order of the field numbers, and each slot
holds as many as its label admits. A message is put together again from what it holds in each of
its fields.

* `IsValue`, `Catalog.Shapes`: values and messages, of any catalog.
* `HasUnnamed`: whether a number without a name stands where numbers have names.
* `Catalog.IsSound`: the catalogs whose messages both codecs can carry.
* `Message.Agrees`: two messages hold the same, however the entries of their maps are ordered.
-/

namespace RpcEcho.Proto

variable {τ : Type}

/-! ## Values -/

/-- A number has thirty-two bits with a sign. -/
def FitsWord (value : Int) : Prop := -2147483648 ≤ value ∧ value < 2147483648

/-- The values of the kinds of scalars that services exchange. -/
def Scalar.Holds : Scalar → Value → Prop
  | .text, .text _ | .bytes, .bytes _ => True
  | .int32, .int value | .enumeration .., .int value => FitsWord value
  | _, _ => False

/-- A scalar value is a text, octets, or a number of thirty-two bits. -/
theorem Scalar.Holds.cases {kind : Scalar} {value : Value} (holds : kind.Holds value) :
    (∃ text, kind = .text ∧ value = .text text) ∨
    (∃ octets, kind = .bytes ∧ value = .bytes octets) ∨
      (Binary.IsShort kind ∧ ∃ number, value = .int number ∧ FitsWord number) := by
  cases kind with
  | text =>
      cases value with
      | text text => exact .inl ⟨text, rfl, rfl⟩
      | bytes _ | int _ | message _ => cases holds
  | bytes =>
      cases value with
      | bytes octets => exact .inr (.inl ⟨octets, rfl, rfl⟩)
      | text _ | int _ | message _ => cases holds
  | int32 | enumeration _ _ =>
      cases value with
      | int number => exact .inr (.inr ⟨trivial, number, rfl, holds⟩)
      | text _ | bytes _ | message _ => cases holds
  | int64 | uint64 | bool | double => cases value <;> cases holds

/-- The key of an entry of a map. -/
def Value.key : Value → String
  | .message entry => Message.text entry 1
  | _ => ""

/-- As many values as a label admits; one that cannot be told from absence is not held. -/
def Label.Admits (values : List Value) : Label → Prop
  | .implicit => values.length ≤ 1 ∧ ∀ value ∈ values, value.isDefault = false
  | .explicit => values.length ≤ 1
  | .required => values.length = 1
  | .repeated | .packed => True
  | .map => (values.map Value.key).Nodup

instance (values : List Value) : (label : Label) → Decidable (label.Admits values)
  | .implicit =>
    inferInstanceAs (Decidable (values.length ≤ 1 ∧ ∀ value ∈ values, value.isDefault = false))
  | .explicit => inferInstanceAs (Decidable (values.length ≤ 1))
  | .required => inferInstanceAs (Decidable (values.length = 1))
  | .repeated | .packed => .isTrue trivial
  | .map => inferInstanceAs (Decidable (values.map Value.key).Nodup)

/-- The entries of a message that belong to some fields. -/
def Message.among (message : Message) (members : List (MessageField τ)) : Message :=
  message.filter fun entry => members.any fun field => field.number = entry.1

/-- A slot holds as many values as it may: of a choice there is at most one. -/
def Slot.Admits (message : Message) : Slot τ → Prop
  | .single field => field.label.Admits (message.values field.number)
  | .choice _ members => (message.among members).length ≤ 1

instance (message : Message) : (slot : Slot τ) → Decidable (slot.Admits message)
  | .single field => inferInstanceAs (Decidable (field.label.Admits (message.values field.number)))
  | .choice _ members => inferInstanceAs (Decidable ((message.among members).length ≤ 1))

theorem admits_text {message : Message} {field : MessageField τ}
    (isImplicit : field.label = .implicit) (value : String)
    (held : message.values field.number = (Message.ofText field.number value).values field.number) :
    Slot.Admits message (.single field) := by
  rw [Slot.Admits, isImplicit, Label.Admits, held, Message.values_ofText]
  by_cases empty : value = "" <;> simp [empty, Value.isDefault]

theorem admits_int {message : Message} {field : MessageField τ}
    (isImplicit : field.label = .implicit) (value : Int)
    (held : message.values field.number = (Message.ofInt field.number value).values field.number) :
    Slot.Admits message (.single field) := by
  rw [Slot.Admits, isImplicit, Label.Admits, held, Message.values_ofInt]
  by_cases zero : value = 0 <;> simp [zero, Value.isDefault]

/-- The entries of a message of a type: of known fields, in the order of their numbers, and as many
as the slots admit. -/
structure Catalog.Shapes (catalog : Catalog τ) (type : τ) (message : Message) : Prop where
  known : ∀ entry ∈ message, catalog.field? type entry.1 ≠ none
  ordered : (message.map Prod.fst).Pairwise (· ≤ ·)
  slots : ∀ slot ∈ catalog type, slot.Admits message

instance (catalog : Catalog τ) (type : τ) (message : Message) :
    Decidable (catalog.Shapes type message) :=
  decidable_of_iff
    ((∀ entry ∈ message, catalog.field? type entry.1 ≠ none) ∧
      (message.map Prod.fst).Pairwise (· ≤ ·) ∧ ∀ slot ∈ catalog type, slot.Admits message)
    ⟨fun ⟨known, ordered, slots⟩ => ⟨known, ordered, slots⟩,
      fun shaped => ⟨shaped.known, shaped.ordered, shaped.slots⟩⟩

/-- The values that a field of a type can hold. -/
inductive IsValue (catalog : Catalog τ) : FieldType τ → Value → Prop
  | scalar {kind : Scalar} {value : Value} (holds : kind.Holds value) :
      IsValue catalog (.scalar kind) value
  | message {type : τ} {message : Message} (shaped : catalog.Shapes type message)
      (each : ∀ entry ∈ message, ∀ field, catalog.field? type entry.1 = some field →
        IsValue catalog field.type entry.2) :
      IsValue catalog (.message type) (.message message)

/-- Each entry of a message holds of its field what is asked. -/
abbrev Catalog.Each (catalog : Catalog τ) (type : τ) (message : Message)
    (holds : FieldType τ → Value → Prop) : Prop :=
  ∀ entry ∈ message, ∀ field, catalog.field? type entry.1 = some field → holds field.type entry.2

/-- The messages of a type. -/
abbrev Catalog.IsMessage (catalog : Catalog τ) (type : τ) (message : Message) : Prop :=
  IsValue catalog (.message type) (.message message)

/-- A number without a name stands in a value where numbers have names. -/
inductive HasUnnamed (catalog : Catalog τ) : FieldType τ → Value → Prop
  | number {name : String} {names : List (String × Int)} {value : Int}
      (unnamed : ∀ entry ∈ names, entry.2 ≠ value) :
      HasUnnamed catalog (.scalar (.enumeration name names)) (.int value)
  | inside {type : τ} {message : Message} {entry : Nat × Value} {field : MessageField τ}
      (member : entry ∈ message) (found : catalog.field? type entry.1 = some field)
      (unnamed : HasUnnamed catalog field.type entry.2) :
      HasUnnamed catalog (.message type) (.message message)

/-! ## Catalogs -/

/-- The scalars that both codecs can carry. Different numbers have different names. -/
def Scalar.IsSound : Scalar → Prop
  | .text | .bytes | .int32 => True
  | .enumeration _ names => (names.map Prod.fst).Nodup
  | .int64 | .uint64 | .bool | .double => False

instance : DecidablePred Scalar.IsSound
  | .text | .bytes | .int32 => .isTrue trivial
  | .enumeration _ names => inferInstanceAs (Decidable (names.map Prod.fst).Nodup)
  | .int64 | .uint64 | .bool | .double => .isFalse id

/-- The slots of the entries of a map of texts. -/
def entrySlots : List (Slot τ) :=
  [.single ⟨1, "key", .scalar .text, .implicit⟩, .single ⟨2, "value", .scalar .text, .implicit⟩]

/-- No field of a type is a map. -/
def Catalog.HasNoMap (catalog : Catalog τ) (type : τ) : Prop :=
  ∀ field ∈ catalog.fields type, field.label ≠ .map

instance (catalog : Catalog τ) (type : τ) : Decidable (catalog.HasNoMap type) :=
  inferInstanceAs (Decidable (∀ field ∈ catalog.fields type, field.label ≠ .map))

/-- What a field of a label may hold for both codecs to carry it. A map holds texts, and no message
that stands in a field holds a map of its own. -/
def FieldType.IsSound (catalog : Catalog τ) : FieldType τ → Label → Prop
  | .scalar kind, .implicit | .scalar kind, .explicit | .scalar kind, .repeated => kind.IsSound
  | .scalar kind, .packed => kind.IsSound ∧ kind.isPackable = true
  | .message inner, .explicit | .message inner, .repeated => catalog.HasNoMap inner
  | .message inner, .map => catalog inner = entrySlots
  | _, _ => False

instance [DecidableEq τ] (catalog : Catalog τ) (type : FieldType τ) (label : Label) :
    Decidable (type.IsSound catalog label) :=
  match type, label with
  | .scalar kind, .implicit | .scalar kind, .explicit | .scalar kind, .repeated =>
    inferInstanceAs (Decidable kind.IsSound)
  | .scalar kind, .packed => inferInstanceAs (Decidable (kind.IsSound ∧ kind.isPackable = true))
  | .message inner, .explicit | .message inner, .repeated =>
    inferInstanceAs (Decidable (catalog.HasNoMap inner))
  | .message inner, .map => inferInstanceAs (Decidable (catalog inner = entrySlots))
  | .scalar _, .required | .scalar _, .map | .message _, .implicit | .message _, .required
  | .message _, .packed => .isFalse id

/-- The label of a slot: each member of a choice is present or not. -/
def Slot.IsSound : Slot τ → Prop
  | .single _ => True
  | .choice _ members => ∀ field ∈ members, field.label = .explicit

instance : DecidablePred (Slot.IsSound : Slot τ → Prop)
  | .single _ => .isTrue trivial
  | .choice _ members => inferInstanceAs (Decidable (∀ field ∈ members, field.label = .explicit))

/-- A catalog whose messages both codecs can carry, with a bound on how deep the messages of each
type nest. -/
structure Catalog.IsSound (catalog : Catalog τ) (depth : τ → Nat) : Prop where
  increasing : ∀ type, ((catalog.fields type).map MessageField.number).Pairwise (· < ·)
  numbers : ∀ type, ∀ field ∈ catalog.fields type,
    0 < field.number ∧ field.number < Record.fieldBound
  fields : ∀ type, ∀ field ∈ catalog.fields type, field.type.IsSound catalog field.label
  slots : ∀ type, ∀ slot ∈ catalog type, slot.IsSound
  nests : ∀ type, ∀ field ∈ catalog.fields type, ∀ inner, field.type = .message inner →
    depth inner < depth type

/-! ## Looking fields up -/

namespace Catalog

variable {catalog : Catalog τ} {depth : τ → Nat} {type : τ} {field : MessageField τ}

theorem field?_eq_some (found : catalog.field? type field.number = some field) :
    field ∈ catalog.fields type := List.mem_of_find?_eq_some found

/-- Different fields have different numbers. -/
theorem eq_of_number {other : MessageField τ}
    (increasing : ((catalog.fields type).map MessageField.number).Pairwise (· < ·))
    (member : field ∈ catalog.fields type) (otherMember : other ∈ catalog.fields type)
    (same : field.number = other.number) : field = other := by
  have distinct : ((catalog.fields type).map MessageField.number).Nodup :=
    increasing.imp Nat.ne_of_lt
  exact List.inj_on_of_nodup_map distinct member otherMember same

/-- A field is found by its number. -/
theorem field?_eq (increasing : ((catalog.fields type).map MessageField.number).Pairwise (· < ·))
    (member : field ∈ catalog.fields type) : catalog.field? type field.number = some field := by
  have isFound : (catalog.field? type field.number).isSome := by
    rw [field?, List.find?_isSome]
    exact ⟨field, member, by simp⟩
  obtain ⟨other, found⟩ := Option.isSome_iff_exists.mp isFound
  have otherMember := List.mem_of_find?_eq_some found
  have same : other.number = field.number := by simpa using List.find?_some found
  rw [found, eq_of_number increasing otherMember member same]

theorem IsSound.eq_of_number (sound : catalog.IsSound depth) {other : MessageField τ}
    (member : field ∈ catalog.fields type) (otherMember : other ∈ catalog.fields type)
    (same : field.number = other.number) : field = other :=
  Catalog.eq_of_number (sound.increasing type) member otherMember same

theorem IsSound.field?_eq (sound : catalog.IsSound depth) (member : field ∈ catalog.fields type) :
    catalog.field? type field.number = some field :=
  Catalog.field?_eq (sound.increasing type) member

theorem mem_fields {slot : Slot τ} (slotMember : slot ∈ catalog type)
    (member : field ∈ slot.fields) : field ∈ catalog.fields type :=
  List.mem_flatMap.mpr ⟨slot, slotMember, member⟩

theorem sublist_fields {slot : Slot τ} (member : slot ∈ catalog type) :
    slot.fields.Sublist (catalog.fields type) := by
  obtain ⟨before, behind, whole⟩ := List.append_of_mem member
  rw [fields, whole, List.flatMap_append, List.flatMap_cons]
  exact (List.sublist_append_left _ _).trans (List.sublist_append_right _ _)

end Catalog

/-! ## Messages from their fields -/

namespace Message

theorem map_values (message : Message) (number : Nat) :
    (message.values number).map (fun value => (number, value)) =
      message.filter fun entry => entry.1 = number := by
  induction message with
  | nil => rfl
  | cons entry message inductionHypothesis =>
      by_cases same : entry.1 = number
      · obtain ⟨_, value⟩ := entry
        cases same
        simpa [values] using inductionHypothesis
      · simpa [values, same] using inductionHypothesis

theorem mem_values {message : Message} {number : Nat} {value : Value} :
    value ∈ message.values number ↔ (number, value) ∈ message := by
  simp only [values, List.mem_filterMap]
  constructor
  · rintro ⟨⟨other, held⟩, member, found⟩
    split at found
    · rename_i same
      cases found
      exact same ▸ member
    · cases found
  · intro member
    exact ⟨_, member, by simp⟩

/-- The messages in a field of a message are its entries of that number. -/
theorem mem_messages {message inside : Message} {number : Nat} :
    inside ∈ message.messages number ↔ .message inside ∈ message.values number := by
  rw [messages, List.mem_filterMap]
  constructor
  · rintro ⟨value, isHeld, isMessage⟩
    cases value with
    | message entries =>
        cases isMessage
        exact isHeld
    | text _ | bytes _ | int _ => cases isMessage
  · exact fun isHeld => ⟨_, isHeld, rfl⟩

/-- The message that holds some values in each field of a type. -/
def ofFields (fields : List (MessageField τ)) (held : MessageField τ → List Value) : Message :=
  fields.flatMap fun field => (held field).map fun value => (field.number, value)

theorem ofFields_congr {fields : List (MessageField τ)} {held others : MessageField τ → List Value}
    (same : ∀ field ∈ fields, held field = others field) :
    ofFields fields held = ofFields fields others :=
  List.flatMap_congr fun field member => by rw [same field member]

theorem values_ofFields {fields : List (MessageField τ)}
    (increasing : (fields.map MessageField.number).Pairwise (· < ·))
    (held : MessageField τ → List Value) {field : MessageField τ} (member : field ∈ fields) :
    (ofFields fields held).values field.number = held field := by
  -- Only the entries of the field itself have its number.
  have own (other : MessageField τ) :
      values ((held other).map fun value => (other.number, value)) field.number =
        if other.number = field.number then held other else [] := by
    rw [values, List.filterMap_map]
    by_cases same : other.number = field.number
    · simp [same]
    · simp [same]
  induction fields with
  | nil => cases member
  | cons first fields inductionHypothesis =>
      obtain ⟨later, increasingRest⟩ := List.pairwise_cons.mp increasing
      rw [ofFields, List.flatMap_cons, values_append, own, ← ofFields]
      rcases List.mem_cons.mp member with rfl | inRest
      · have noMore : values (ofFields fields held) field.number = [] := by
          rw [List.eq_nil_iff_forall_not_mem]
          intro value inValues
          obtain ⟨other, otherMember, isEntry⟩ := List.mem_flatMap.mp (mem_values.mp inValues)
          obtain ⟨_, _, same⟩ := List.mem_map.mp isEntry
          have isLater := later _ (List.mem_map_of_mem otherMember)
          have sameNumber := congrArg Prod.fst same
          simp only at sameNumber
          omega
        rw [if_pos rfl, noMore, List.append_nil]
      · have isLater := later _ (List.mem_map_of_mem inRest)
        rw [if_neg (by omega), List.nil_append, inductionHypothesis increasingRest inRest]

/-- The entries of the least number stand in front of all others. -/
theorem filter_append_of_ordered {message : Message} {number : Nat}
    (ordered : (message.map Prod.fst).Pairwise (· ≤ ·))
    (least : ∀ entry ∈ message, number ≤ entry.1) :
    (message.filter fun entry => entry.1 = number) ++
      (message.filter fun entry => entry.1 ≠ number) = message := by
  induction message with
  | nil => rfl
  | cons entry message inductionHypothesis =>
      obtain ⟨later, orderedRest⟩ := List.pairwise_cons.mp ordered
      have rest := inductionHypothesis orderedRest fun other member =>
        least other (List.mem_cons_of_mem entry member)
      by_cases same : entry.1 = number
      · simpa [same] using rest
      · have notLater : ∀ other ∈ message, ¬ other.1 = number := by
          intro other member
          have isLater := later _ (List.mem_map_of_mem member)
          have bound := least entry List.mem_cons_self
          omega
        have noFront : (message.filter fun entry => entry.1 = number) = [] := by
          simpa using notLater
        rw [noFront, List.nil_append] at rest
        simpa [same, noFront] using rest

/-- Entries in the order of their numbers, put together number by number. -/
theorem flatMap_filter_number {message : Message} {numbers : List Nat}
    (increasing : numbers.Pairwise (· < ·)) (ordered : (message.map Prod.fst).Pairwise (· ≤ ·))
    (known : ∀ entry ∈ message, entry.1 ∈ numbers) :
    (numbers.flatMap fun number => message.filter fun entry => entry.1 = number) = message := by
  induction numbers generalizing message with
  | nil =>
      have empty : message = [] := List.eq_nil_iff_forall_not_mem.mpr fun entry member =>
        List.not_mem_nil (known entry member)
      rw [empty, List.flatMap_nil]
  | cons number numbers inductionHypothesis =>
      obtain ⟨later, increasingRest⟩ := List.pairwise_cons.mp increasing
      let rest := message.filter fun entry => entry.1 ≠ number
      have split : (message.filter fun entry => entry.1 = number) ++ rest = message := by
        refine filter_append_of_ordered ordered fun entry member => ?_
        rcases List.mem_cons.mp (known entry member) with same | isLater
        · exact Nat.le_of_eq same.symm
        · exact Nat.le_of_lt (later _ isLater)
      have restOf : ∀ other ∈ numbers, (message.filter fun entry => entry.1 = other) =
          rest.filter fun entry => entry.1 = other := by
        intro other member
        have isLater := later other member
        rw [List.filter_filter]
        refine List.filter_congr fun entry _ => ?_
        by_cases same : entry.1 = other
        · simp [same]
          omega
        · simp [same]
      have restOrdered : (rest.map Prod.fst).Pairwise (· ≤ ·) :=
        ordered.sublist (List.filter_sublist.map _)
      have restKnown : ∀ entry ∈ rest, entry.1 ∈ numbers := by
        intro entry member
        obtain ⟨inMessage, different⟩ := List.mem_filter.mp member
        exact (List.mem_cons.mp (known entry inMessage)).resolve_left (by simpa using different)
      rw [List.flatMap_cons, List.flatMap_congr restOf,
        inductionHypothesis increasingRest restOrdered restKnown, split]

/-- The entries of some fields are put together from what the message holds in each of them. -/
theorem ofFields_among {fields : List (MessageField τ)} {message : Message}
    (increasing : (fields.map MessageField.number).Pairwise (· < ·))
    (ordered : (message.map Prod.fst).Pairwise (· ≤ ·)) :
    ofFields fields (fun field => message.values field.number) = message.among fields := by
  have isOf : ∀ entry ∈ message.among fields, entry.1 ∈ fields.map MessageField.number := by
    intro entry member
    obtain ⟨field, isField, same⟩ := List.any_eq_true.mp (List.mem_filter.mp member).2
    exact of_decide_eq_true same ▸ List.mem_map_of_mem isField
  have orderedAmong : ((message.among fields).map Prod.fst).Pairwise (· ≤ ·) :=
    ordered.sublist (List.filter_sublist.map Prod.fst)
  have whole := flatMap_filter_number increasing orderedAmong isOf
  rw [← whole, List.flatMap_map, ofFields]
  refine List.flatMap_congr fun field isField => ?_
  rw [map_values, among, List.filter_filter]
  refine List.filter_congr fun entry _ => ?_
  by_cases same : entry.1 = field.number
  · have isAny : (fields.any fun other => decide (other.number = entry.1)) = true :=
      List.any_eq_true.mpr ⟨field, isField, by simp [same]⟩
    rw [isAny, Bool.and_true]
  · simp [same]

/-- A message of a type is put together from what it holds in each field. -/
theorem ofFields_values {catalog : Catalog τ} {depth : τ → Nat} {type : τ} {message : Message}
    (sound : catalog.IsSound depth) (shaped : catalog.Shapes type message) :
    ofFields (catalog.fields type) (fun field => message.values field.number) = message := by
  rw [ofFields_among (sound.increasing type) shaped.ordered, among, List.filter_eq_self]
  intro entry member
  obtain ⟨field, found⟩ := Option.ne_none_iff_exists'.mp (shaped.known entry member)
  have same : field.number = entry.1 := by simpa using List.find?_some found
  exact List.any_eq_true.mpr
    ⟨field, List.mem_of_find?_eq_some found, decide_eq_true same⟩

/-- A field of a message holds as many values as its label admits. -/
theorem admits_values {catalog : Catalog τ} {depth : τ → Nat} {type : τ} {message : Message}
    (sound : catalog.IsSound depth) (shaped : catalog.Shapes type message)
    {field : MessageField τ} (member : field ∈ catalog.fields type) :
    field.label.Admits (message.values field.number) := by
  obtain ⟨slot, isSlot, inSlot⟩ := List.mem_flatMap.mp member
  cases slot with
  | single only =>
      cases List.mem_singleton.mp inSlot
      exact shaped.slots _ isSlot
  | choice name members =>
      have isExplicit : field.label = .explicit := sound.slots type _ isSlot field inSlot
      have atMostOne : (message.among members).length ≤ 1 := shaped.slots _ isSlot
      have isMember : ∀ entry ∈ message, decide (entry.1 = field.number) = true →
          (members.any fun other => decide (other.number = entry.1)) = true := fun entry _ same =>
        List.any_eq_true.mpr ⟨field, inSlot, by simpa using (of_decide_eq_true same).symm⟩
      have fewer := List.countP_mono_left isMember
      have count : (message.values field.number).length =
          message.countP fun entry => entry.1 = field.number := by
        rw [List.countP_eq_length_filter, ← map_values, List.length_map]
      rw [isExplicit, Label.Admits, count]
      rw [among, ← List.countP_eq_length_filter] at atMostOne
      exact Nat.le_trans fewer atMostOne

/-- Two messages of a type hold the same: the same entries, those of a field in the same order
unless they are the entries of a map. -/
structure Agrees (catalog : Catalog τ) (type : τ) (first second : Message) : Prop where
  entries : first.Perm second
  ordered : ∀ field ∈ catalog.fields type, field.label ≠ .map →
    first.values field.number = second.values field.number

/-- A message that holds in each field what another one holds, but for the order of the entries of
maps, agrees with it. -/
theorem agrees_ofFields {catalog : Catalog τ} {depth : τ → Nat} {type : τ} {message : Message}
    (sound : catalog.IsSound depth) (shaped : catalog.Shapes type message)
    {held : MessageField τ → List Value}
    (ordered : ∀ field ∈ catalog.fields type, field.label ≠ .map →
      held field = message.values field.number)
    (permuted : ∀ field ∈ catalog.fields type, field.label = .map →
      (held field).Perm (message.values field.number)) :
    Agrees catalog type (ofFields (catalog.fields type) held) message where
  entries := by
    have each : ∀ field ∈ catalog.fields type, (held field).Perm (message.values field.number) := by
      intro field member
      by_cases isMap : field.label = .map
      · exact permuted field member isMap
      · rw [ordered field member isMap]
    have fields := List.Perm.flatMap_left (catalog.fields type) fun field member =>
      (each field member).map fun value => (field.number, value)
    rwa [← ofFields, ← ofFields, ofFields_values sound shaped] at fields
  ordered := fun field member notMap => by
    rw [values_ofFields (sound.increasing type) held member, ordered field member notMap]

end Message

/-! ## Entries of maps in another order -/

/-- The messages among some values. -/
def messagesOf (values : List Value) : List Message :=
  values.filterMap fun value =>
    match value with
    | .message entries => some entries
    | _ => none

theorem map_message_messagesOf {values : List Value}
    (areMessages : ∀ value ∈ values, ∃ message, value = .message message) :
    (messagesOf values).map .message = values := by
  induction values with
  | nil => rfl
  | cons value values inductionHypothesis =>
      have rest := inductionHypothesis fun other member =>
        areMessages other (List.mem_cons_of_mem value member)
      obtain ⟨message, rfl⟩ := areMessages value List.mem_cons_self
      exact congrArg (Value.message message :: ·) rest

theorem isMessage_of_isValue {catalog : Catalog τ} {inner : τ} {value : Value}
    (valid : IsValue catalog (.message inner) value) : ∃ message, value = .message message := by
  cases valid with
  | message shaped each => exact ⟨_, rfl⟩

/-- The values that a message of a type holds in a field are values of the field. -/
theorem isValue_of_mem {catalog : Catalog τ} {type : τ} {message : Message} {field : MessageField τ}
    (found : catalog.field? type field.number = some field)
    (each : catalog.Each type message (IsValue catalog)) :
    ∀ value ∈ message.values field.number, IsValue catalog field.type value :=
  fun _ member => each _ (Message.mem_values.mp member) field found

section Order

variable {catalog : Catalog τ} {depth : τ → Nat} {order : List Message → List Message}

/-- The values of a field, once the entries of a map came in some order and were put in that of a
map. -/
def arranged (catalog : Catalog τ) (order : List Message → List Message) (field : MessageField τ)
    (values : List Value) : List Value :=
  match field.label, field.type with
  | .map, .message inner =>
    (Binary.mapEntries catalog inner (order (messagesOf values))).map .message
  | _, _ => values

theorem arranged_of_notMap {field : MessageField τ} (notMap : field.label ≠ .map)
    (values : List Value) : arranged catalog order field values = values := by
  rw [arranged]
  split
  · rename_i isMap _
    exact absurd isMap notMap
  · rfl

theorem map_key_messagesOf (values : List Value)
    (areMessages : (messagesOf values).map .message = values) :
    ((messagesOf values).map fun entry => Message.text entry 1) = values.map Value.key := by
  conv_rhs => rw [← areMessages]
  rw [List.map_map]
  rfl

/-- Of the entries of a map none is lost. -/
theorem arranged_perm (keeps : ∀ entries, (order entries).Perm entries)
    {field : MessageField τ} {values : List Value}
    (sound : field.type.IsSound catalog field.label) (isMap : field.label = .map)
    (admitted : field.label.Admits values)
    (valid : ∀ value ∈ values, IsValue catalog field.type value) :
    (arranged catalog order field values).Perm values := by
  obtain ⟨number, name, type, label⟩ := field
  cases isMap
  cases type with
  | scalar kind => cases sound
  | message inner =>
      have areMessages := map_message_messagesOf fun value member =>
        isMessage_of_isValue (valid value member)
      have distinct : ((messagesOf values).map fun entry => Message.text entry 1).Nodup := by
        rw [map_key_messagesOf values areMessages]
        exact admitted
      have ordered := keeps (messagesOf values)
      have distinctOrdered : ((order (messagesOf values)).map fun entry =>
          Message.text entry 1).Nodup :=
        (ordered.map fun entry => Message.text entry 1).nodup_iff.mpr distinct
      have permuted :=
        ((Binary.mapEntries_perm catalog inner distinctOrdered).trans ordered).map Value.message
      rw [areMessages] at permuted
      exact permuted

/-- What is read of all fields agrees with the message. -/
theorem agrees_arranged (sound : catalog.IsSound depth)
    (keeps : ∀ entries, (order entries).Perm entries) {type : τ} {message : Message}
    (shaped : catalog.Shapes type message)
    (each : catalog.Each type message (IsValue catalog)) :
    Message.Agrees catalog type
      (Message.ofFields (catalog.fields type)
        fun field => arranged catalog order field (message.values field.number)) message := by
  refine Message.agrees_ofFields sound shaped
    (fun field _ notMap => arranged_of_notMap notMap _) fun field isField isMap => ?_
  exact arranged_perm keeps (sound.fields type field isField) isMap
    (Message.admits_values sound shaped isField) (isValue_of_mem (sound.field?_eq isField) each)

/-- Of a message without maps nothing changes its place. -/
theorem ofFields_arranged_of_hasNoMap (sound : catalog.IsSound depth) {type : τ}
    {message : Message} (shaped : catalog.Shapes type message) (noMap : catalog.HasNoMap type) :
    Message.ofFields (catalog.fields type)
      (fun field => arranged catalog order field (message.values field.number)) = message := by
  rw [Message.ofFields_congr fun field isField => arranged_of_notMap (noMap field isField) _]
  exact Message.ofFields_values sound shaped

theorem hasNoMap_of_isSound {inner : τ} {label : Label}
    (sound : (FieldType.message inner).IsSound catalog label) : catalog.HasNoMap inner := by
  cases label with
  | explicit | repeated => exact sound
  | map =>
      have isEntry : catalog inner = entrySlots := sound
      intro field isField
      rw [Catalog.fields, isEntry] at isField
      rcases List.mem_cons.mp isField with rfl | isValue
      · simp
      · rw [List.mem_singleton.mp isValue]
        simp
  | implicit | required | packed => cases sound

end Order
end RpcEcho.Proto
