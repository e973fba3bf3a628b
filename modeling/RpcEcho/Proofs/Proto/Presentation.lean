import Mathlib.Data.List.Pairwise
import RpcEcho.Proofs.Proto.Values
import RpcEcho.Proofs.Text.Base64
import RpcEcho.Proofs.Text.Decimal
import RpcEcho.Proto.JsonForm

/-!
# The JSON forms of a message

A message has many JSON forms: the members of an object stand in any order, and each key is one of
two spellings; a field that holds its default may be written or left out; a number may be a text, a
number with a name the number, and octets are in either alphabet of base 64. An object may have
members that belong to no field, with anything in them, but two members never belong to one slot.

* `JsonForm.Presents`, `JsonForm.Gives`: the JSON forms of a value, and of what a field holds.
* `JsonForm.toMessage?_of_presents`: each of them is read as the message.
-/

namespace RpcEcho.Proto.JsonForm

variable {τ : Type} {catalog : Catalog τ} {depth : τ → Nat} {type : τ}

/-! ## Forms -/

/-- Both spellings of the name of a field. -/
def IsName (field : MessageField τ) (name : String) : Prop := name = key field ∨ name = field.name

/-- A member of an object belongs to a field of a slot. -/
def NamesSlot (slot : Slot τ) (member : Option String × Json) : Prop :=
  ∃ field ∈ slot.fields, ∃ name, member.1 = some name ∧ IsName field name

/-- Two members of an object do not belong to one slot. -/
def StandApart (catalog : Catalog τ) (type : τ) (first second : Option String × Json) : Prop :=
  ∀ slot ∈ catalog type, NamesSlot slot first → ¬ NamesSlot slot second

/-- The JSON forms of a scalar: octets are in any form of base 64, a number is a number or a decimal
text, and a number with a name is its name or its number. -/
inductive PresentsScalar : Scalar → Value → Json → Prop
  | text {text : String} : PresentsScalar .text (.text text) (.string (some text))
  | bytes {octets : Bytes} {text : String} (isForm : Base64.IsForm octets (Utf8.encode text)) :
      PresentsScalar .bytes (.bytes octets) (.string (some text))
  | number {number : Int} : PresentsScalar .int32 (.int number) (.number (some number))
  | decimal {number : Int} {text : String} (isForm : Decimal.IsForm number text.toList) :
      PresentsScalar .int32 (.int number) (.string (some text))
  | byName {kind : String} {names : List (String × Int)} {entry : String × Int}
      (member : entry ∈ names) :
      PresentsScalar (.enumeration kind names) (.int entry.2) (.string (some entry.1))
  | byNumber {kind : String} {names : List (String × Int)} {entry : String × Int}
      (member : entry ∈ names) :
      PresentsScalar (.enumeration kind names) (.int entry.2) (.number (some entry.2))

mutual

/-- The JSON forms of a value. A message is an object with a member for each field that holds
something; members whose keys are no names of fields may hold anything. -/
inductive Presents (catalog : Catalog τ) : FieldType τ → Value → Json → Prop
  | scalar {kind : Scalar} {value : Value} {json : Json}
      (presents : PresentsScalar kind value json) : Presents catalog (.scalar kind) value json
  | message {type : τ} {message : Message} {members : List (Option String × Json)}
      (keys : ∀ member ∈ members, member.1 ≠ none)
      (apart : members.Pairwise (StandApart catalog type))
      (given : ∀ field ∈ catalog.fields type, ∀ name json, (some name, json) ∈ members →
        IsName field name → Gives catalog field (message.values field.number) json)
      (absent : ∀ field ∈ catalog.fields type,
        (∀ name json, (some name, json) ∈ members → ¬ IsName field name) →
          message.values field.number = []) :
      Presents catalog (.message type) (.message message) (.object members)

/-- The JSON forms of what a field holds. A field without presence may be written when it holds its
default, a list when it has no elements, and a map when it has no entries. -/
inductive Gives (catalog : Catalog τ) : MessageField τ → List Value → Json → Prop
  | one {field : MessageField τ} {value : Value} {json : Json}
      (isSingle : field.label = .implicit ∨ field.label = .explicit)
      (presents : Presents catalog field.type value json) : Gives catalog field [value] json
  | default {field : MessageField τ} {kind : Scalar} {json : Json}
      (isImplicit : field.label = .implicit) (isScalar : field.type = .scalar kind)
      (presents : PresentsScalar kind kind.default json) : Gives catalog field [] json
  | list {field : MessageField τ} {pairs : List (Value × Json)}
      (isList : field.label = .repeated ∨ field.label = .packed)
      (each : ∀ pair ∈ pairs, Presents catalog field.type pair.1 pair.2) :
      Gives catalog field (pairs.map Prod.fst) (.array (pairs.map Prod.snd))
  | map {field : MessageField τ} {values : List Value} {pairs : List (String × String)}
      (isMap : field.label = .map)
      (entries : values.Perm (pairs.map fun pair => .message (Message.entryOf pair))) :
      Gives catalog field values
        (.object (pairs.map fun pair => (some pair.1, .string (some pair.2))))

end

/-! ## Reading scalars -/

theorem isSound_of_scalar {kind : Scalar} {label : Label}
    (sound : (FieldType.scalar kind).IsSound catalog label) : kind.IsSound := by
  cases label with
  | implicit | explicit | repeated => exact sound
  | packed => exact sound.1
  | required | map => cases sound

theorem lookup_of_nodup {names : List (String × Int)} (distinct : (names.map Prod.fst).Nodup)
    {entry : String × Int} (member : entry ∈ names) : names.lookup entry.1 = some entry.2 := by
  induction names with
  | nil => cases member
  | cons first names inductionHypothesis =>
      obtain ⟨isNew, distinctRest⟩ := List.nodup_cons.mp distinct
      rcases List.mem_cons.mp member with rfl | inRest
      · exact List.lookup_cons_self
      · have different : (entry.1 == first.1) = false := by
          rw [beq_eq_false_iff_ne]
          intro same
          exact isNew (same ▸ List.mem_map_of_mem inRest)
        rw [List.lookup_cons, different, inductionHypothesis distinctRest inRest]

theorem fits32_of_fitsWord {number : Int} (fits : FitsWord number) : fits32 number = true := by
  obtain ⟨low, high⟩ := fits
  simp only [fits32, Bool.and_eq_true, decide_eq_true_eq]
  omega

theorem integer?_of_isForm {number : Int} {text : String}
    (isForm : Decimal.IsForm number text.toList) (fits : FitsWord number) :
    integer? text = some number := by
  obtain ⟨low, high⟩ := fits
  have isRead {digits : List Char} (notEmpty : digits ≠ [])
      (areDigits : ∀ c ∈ digits, c.isDigit = true)
      (small : Decimal.value digits ≤ 2147483648) :
      Decimal.readUpTo? mostDigits digits = some (Decimal.value digits) :=
    Decimal.readUpTo?_of_lt notEmpty areDigits (Nat.lt_of_le_of_lt small (by decide))
  rw [integer?]
  generalize text.toList = chars at isForm
  cases isForm with
  | plain notEmpty areDigits =>
      have found := isRead notEmpty areDigits (by omega)
      split
      · exact absurd (areDigits '-' List.mem_cons_self) (by decide)
      · exact absurd (areDigits '+' List.mem_cons_self) (by decide)
      · rw [found]
        rfl
  | plus notEmpty areDigits =>
      have found := isRead notEmpty areDigits (by omega)
      simp only [found]
      rfl
  | minus notEmpty areDigits =>
      have found := isRead notEmpty areDigits (by omega)
      simp only [found]
      rfl

theorem toScalar?_of_presents {kind : Scalar} (sound : kind.IsSound) {value : Value}
    (holds : kind.Holds value) {json : Json} (presents : PresentsScalar kind value json) :
    toScalar? kind json = some value := by
  cases presents with
  | text => rfl
  | bytes isForm => rw [toScalar?, Base64.decode?_of_isForm isForm, Option.map_some]
  | number => rw [toScalar?, if_pos (fits32_of_fitsWord holds)]
  | decimal isForm =>
      rw [toScalar?, integer?_of_isForm isForm holds, Option.bind_some,
        if_pos (fits32_of_fitsWord holds)]
  | byName member => rw [toScalar?, lookup_of_nodup sound member, Option.map_some]
  | @byNumber kind names entry member =>
      have isAny : (names.any fun other => decide (other.2 = entry.2)) = true :=
        List.any_eq_true.mpr ⟨entry, member, decide_eq_true rfl⟩
      rw [toScalar?, if_pos isAny]

theorem holds_default {kind : Scalar} (sound : kind.IsSound) : kind.Holds kind.default := by
  cases kind with
  | text | bytes => trivial
  | int32 | enumeration _ _ => exact ⟨by decide, by decide⟩
  | int64 | uint64 | bool | double => cases sound

theorem unlessDefault_default {kind : Scalar} : unlessDefault kind.default = [] := by
  cases kind <;> rfl

theorem ne_null_of_presentsScalar {kind : Scalar} {value : Value} {json : Json}
    (presents : PresentsScalar kind value json) : json ≠ .null := by
  cases presents <;> simp

theorem Presents.ne_null {type : FieldType τ} {value : Value} {json : Json}
    (presents : Presents catalog type value json) : json ≠ .null := by
  cases presents with
  | scalar presents => exact ne_null_of_presentsScalar presents
  | message => simp

theorem Gives.ne_null {field : MessageField τ} {values : List Value} {json : Json}
    (gives : Gives catalog field values json) : json ≠ .null := by
  cases gives with
  | one _ presents => exact presents.ne_null
  | default _ _ presents => exact ne_null_of_presentsScalar presents
  | list _ _ => simp
  | map _ _ => simp

theorem isAbsent_of_ne_null {field : MessageField τ} {json : Json} (notNull : json ≠ .null) :
    isAbsent field json = false := by
  cases json with
  | null => exact absurd rfl notNull
  | bool _ | number _ | string _ | array _ | object _ => rfl

/-! ## Reading fields -/

/-- Every JSON form of a value is read as the value. -/
def ReadsAll (catalog : Catalog τ) (type : FieldType τ) (value : Value) : Prop :=
  ∀ json, Presents catalog type value json → toValue? catalog type json = some value

theorem readsAll_scalar {kind : Scalar} (sound : kind.IsSound) {value : Value}
    (holds : kind.Holds value) : ReadsAll catalog (.scalar kind) value := by
  intro json presents
  cases presents with
  | scalar presents => rw [toValue?, toScalar?_of_presents sound holds presents]

theorem toValues?_of_presents {type : FieldType τ} {pairs : List (Value × Json)}
    (each : ∀ pair ∈ pairs, Presents catalog type pair.1 pair.2)
    (readsAll : ∀ value ∈ pairs.map Prod.fst, ReadsAll catalog type value) :
    toValues? catalog type (pairs.map Prod.snd) = some (pairs.map Prod.fst) := by
  induction pairs with
  | nil => rfl
  | cons pair pairs inductionHypothesis =>
      have first := readsAll pair.1 List.mem_cons_self pair.2 (each pair List.mem_cons_self)
      have rest := inductionHypothesis
        (fun other member => each other (List.mem_cons_of_mem _ member))
        fun value member => readsAll value (List.mem_cons_of_mem _ member)
      rw [List.map_cons, List.map_cons, toValues?, first, rest]

/-- A field is given as what it holds; of the entries of a map only the order changes. -/
def HoldsAs (field : MessageField τ) (values held : List Value) : Prop :=
  if field.label = .map then held.Perm values else held = values

theorem holdsAs_nil (field : MessageField τ) : HoldsAs field [] [] := by
  rw [HoldsAs]
  split
  · exact .refl _
  · rfl

theorem fieldValues?_of_map {field : MessageField τ} (isMap : field.label = .map)
    (isSound : field.type.IsSound catalog field.label) {values : List Value}
    (admitted : field.label.Admits values) {pairs : List (String × String)}
    (entries : values.Perm (pairs.map fun pair => .message (Message.entryOf pair)))
    (one : Option Value) (all : Option (List Value)) :
    ∃ held, fieldValues? catalog field
        (.object (pairs.map fun pair => (some pair.1, .string (some pair.2)))) one all = some held ∧
      held.Perm values := by
  obtain ⟨number, name, fieldType, label⟩ := field
  cases isMap
  cases fieldType with
  | scalar kind => cases isSound
  | message inner =>
      have isRead : (pairs.map fun pair => (some pair.1, Json.string (some pair.2))).mapM
          toMapEntry? = some (pairs.map Message.entryOf) := mapM_map_eq_some fun _ _ => rfl
      have distinct :
          ((pairs.map Message.entryOf).map fun entry => Message.text entry 1).Nodup := by
        have sameKeys := (entries.map Value.key).nodup_iff.mp admitted
        rw [List.map_map] at sameKeys ⊢
        exact sameKeys
      have permuted := (Binary.mapEntries_perm catalog inner distinct).map Value.message
      rw [List.map_map] at permuted
      refine ⟨_, ?_, permuted.trans entries.symm⟩
      simp only [fieldValues?]
      rw [isRead, Option.map_some]

theorem fieldValues?_of_gives {field : MessageField τ}
    (isSound : field.type.IsSound catalog field.label) {values : List Value}
    (admitted : field.label.Admits values)
    (readsAll : ∀ value ∈ values, ReadsAll catalog field.type value) {json : Json}
    (gives : Gives catalog field values json) :
    ∃ held, fieldValues? catalog field json (toValue? catalog field.type json)
        (toElements? catalog field.type json) = some held ∧ HoldsAs field values held := by
  cases gives with
  | @one _ value _ isSingle presents =>
      have found := readsAll value List.mem_cons_self json presents
      refine ⟨[value], ?_, by rcases isSingle with label | label <;> simp [HoldsAs, label]⟩
      rcases isSingle with label | label
      · rw [label] at admitted
        have notDefault := admitted.2 value List.mem_cons_self
        simp [fieldValues?, label, found, unlessDefault, notDefault]
      · simp [fieldValues?, label, found]
  | @default _ kind _ isImplicit isScalar presents =>
      rw [isImplicit, isScalar] at isSound
      have reads : ReadsAll catalog (.scalar kind) kind.default :=
        readsAll_scalar isSound (holds_default isSound)
      have found := reads json (.scalar presents)
      refine ⟨[], ?_, holdsAs_nil field⟩
      simp [fieldValues?, isImplicit, isScalar, found, unlessDefault_default]
  | @list _ pairs isList each =>
      have found := toValues?_of_presents each readsAll
      refine ⟨pairs.map Prod.fst, ?_, by rcases isList with label | label <;> simp [HoldsAs, label]⟩
      rcases isList with label | label <;> simp [fieldValues?, label, toElements?, found]
  | map isMap entries =>
      obtain ⟨held, found, permuted⟩ := fieldValues?_of_map isMap isSound admitted entries
        (toValue? catalog field.type _) (toElements? catalog field.type _)
      exact ⟨held, found, by rwa [HoldsAs, if_pos isMap]⟩

/-! ## Reading objects -/

/-- Each field is found under both spellings of its name. -/
def NamesFind (catalog : Catalog τ) : Prop :=
  ∀ type, ∀ slot ∈ catalog type, ∀ field ∈ slot.fields, ∀ name, IsName field name →
    field? catalog type name = some (slot, field)

/-- The slot to which a member of an object belongs. -/
def slotOf? (catalog : Catalog τ) (type : τ) (member : Option String × Json) : Option (Slot τ) :=
  member.1.bind fun name => (field? catalog type name).map Prod.fst

theorem slotOf?_of_namesSlot (names : NamesFind catalog) {slot : Slot τ}
    (isSlot : slot ∈ catalog type) {member : Option String × Json}
    (namesSlot : NamesSlot slot member) :
    slotOf? catalog type member = some slot := by
  obtain ⟨field, inSlot, name, isKey, isName⟩ := namesSlot
  simp [slotOf?, isKey, names type slot isSlot field inSlot name isName]

theorem standApart_of_slotOf? (names : NamesFind catalog) {first second : Option String × Json}
    (different : slotOf? catalog type first = none ∨
      slotOf? catalog type first ≠ slotOf? catalog type second) :
    StandApart catalog type first second := by
  intro slot isSlot namesFirst namesSecond
  rw [slotOf?_of_namesSlot names isSlot namesFirst, slotOf?_of_namesSlot names isSlot namesSecond]
    at different
  simp at different

theorem isName_of_field? {name : String} {slot : Slot τ} {field : MessageField τ}
    (found : field? catalog type name = some (slot, field)) :
    slot ∈ catalog type ∧ field ∈ slot.fields ∧ IsName field name := by
  obtain ⟨other, isSlot, inSlot⟩ := List.exists_of_findSome?_eq_some found
  obtain ⟨member, isMember, same⟩ := Option.map_eq_some_iff.mp inSlot
  cases same
  have spelled := List.find?_some isMember
  simp only [Bool.or_eq_true, decide_eq_true_eq] at spelled
  exact ⟨isSlot, List.mem_of_find?_eq_some isMember, spelled.imp Eq.symm Eq.symm⟩

/-- What a member of an object gives: nothing, if its key is no name of a field. -/
def givenBy (catalog : Catalog τ) (type : τ) (held : MessageField τ → List Value)
    (member : Option String × Json) : Option (Nat × List Value) :=
  member.1.bind fun name => (field? catalog type name).map fun found =>
    (found.2.number, held found.2)

theorem has_cons (number : Nat) (values : List Value) (given : Given) (slot : Slot τ) :
    Given.has ((number, values) :: given) slot =
      ((slot.fields.any fun field => decide (number = field.number)) || given.has slot) := by
  rw [Given.has, Given.has, Bool.eq_iff_iff]
  simp only [List.any_eq_true, List.any_cons, Bool.or_eq_true, decide_eq_true_eq]
  constructor
  · rintro ⟨field, isField, isFirst | isLater⟩
    · exact Or.inl ⟨field, isField, isFirst⟩
    · exact Or.inr ⟨field, isField, isLater⟩
  · rintro (⟨field, isField, isFirst⟩ | ⟨field, isField, isLater⟩)
    · exact ⟨field, isField, Or.inl isFirst⟩
    · exact ⟨field, isField, Or.inr isLater⟩

/-- One member for a field, whatever was given before it and whatever comes behind it. -/
theorem toGiven?_cons (given : Given) (name : String) (json : Json)
    (rest : List (Option String × Json)) {slot : Slot τ} {field : MessageField τ}
    (found : field? catalog type name = some (slot, field)) :
    toGiven? catalog type given ((some name, json) :: rest) =
      if given.has slot then none
      else if isAbsent field json then toGiven? catalog type given rest
      else (fieldValues? catalog field json (toValue? catalog field.type json)
          (toElements? catalog field.type json)).bind fun values =>
        toGiven? catalog type ((field.number, values) :: given) rest := by
  rw [toGiven?]
  simp only [found]
  cases fieldValues? catalog field json (toValue? catalog field.type json)
    (toElements? catalog field.type json) <;> rfl

/-- Members that stand apart are read as what they give, in whatever order they come and whatever
stands between them. -/
theorem toGiven?_members (sound : catalog.IsSound depth) {held : MessageField τ → List Value}
    {members : List (Option String × Json)} (given : Given)
    (keys : ∀ member ∈ members, member.1 ≠ none)
    (apart : members.Pairwise (StandApart catalog type))
    (free : ∀ slot ∈ catalog type, ∀ member ∈ members, NamesSlot slot member →
      given.has slot = false)
    (reads : ∀ field ∈ catalog.fields type, ∀ name json, (some name, json) ∈ members →
      IsName field name → isAbsent field json = false ∧
        fieldValues? catalog field json (toValue? catalog field.type json)
          (toElements? catalog field.type json) = some (held field)) :
    toGiven? catalog type given members =
      some ((members.filterMap (givenBy catalog type held)).reverse ++ given) := by
  induction members generalizing given with
  | nil => rw [toGiven?, List.filterMap_nil, List.reverse_nil, List.nil_append]
  | cons member members inductionHypothesis =>
      obtain ⟨key, json⟩ := member
      obtain ⟨name, rfl⟩ := Option.ne_none_iff_exists'.mp (keys _ List.mem_cons_self)
      obtain ⟨isApart, apartRest⟩ := List.pairwise_cons.mp apart
      have keysRest : ∀ member ∈ members, member.1 ≠ none := fun member isMember =>
        keys member (List.mem_cons_of_mem _ isMember)
      have readsRest := fun field isField name json isMember =>
        reads field isField name json (List.mem_cons_of_mem _ isMember)
      cases found : field? catalog type name with
      | none =>
          rw [toGiven?]
          simp only [found]
          have freeRest := fun slot isSlot member isMember =>
            free slot isSlot member (List.mem_cons_of_mem _ isMember)
          have nothing : givenBy catalog type held (some name, json) = none := by
            simp [givenBy, found]
          rw [List.filterMap_cons_none nothing]
          exact inductionHypothesis given keysRest apartRest freeRest readsRest
      | some place =>
          obtain ⟨slot, field⟩ := place
          obtain ⟨isSlot, inSlot, isName⟩ := isName_of_field? found
          have isField := Catalog.mem_fields isSlot inSlot
          have names : NamesSlot slot (some name, json) := ⟨field, inSlot, name, rfl, isName⟩
          have isFree := free slot isSlot _ List.mem_cons_self names
          obtain ⟨present, isRead⟩ := reads field isField name json List.mem_cons_self isName
          have isGiven : givenBy catalog type held (some name, json) =
              some (field.number, held field) := by simp [givenBy, found]
          have freeRest : ∀ other ∈ catalog type, ∀ member ∈ members, NamesSlot other member →
              Given.has ((field.number, held field) :: given) other = false := by
            intro other isOther member isMember namesOther
            rw [has_cons, free other isOther member (List.mem_cons_of_mem _ isMember) namesOther,
              Bool.or_false, List.any_eq_false]
            intro second inOther sameNumber
            have same : field = second := sound.eq_of_number isField
              (Catalog.mem_fields isOther inOther) (of_decide_eq_true sameNumber)
            exact isApart member isMember other isOther
              ⟨field, same ▸ inOther, name, rfl, isName⟩ namesOther
          have later := inductionHypothesis ((field.number, held field) :: given) keysRest apartRest
            freeRest readsRest
          rw [toGiven?_cons given name json members found, isFree, present, isRead,
            if_neg Bool.false_ne_true, if_neg Bool.false_ne_true, Option.bind_some, later,
            List.filterMap_cons_some isGiven, List.reverse_cons, List.append_assoc]
          rfl

/-! ## Reading messages -/

theorem toValue?_message (inner : τ) (json : Json) :
    toValue? catalog (.message inner) json =
      (toMessage? catalog inner json).map Value.message := by
  cases json with
  | object members =>
      rw [toValue?, toMessage?, Option.map_map]
      rfl
  | null | bool _ | number _ | string _ | array _ => rfl

theorem lookup_eq {entries : List (Nat × List Value)} {number : Nat} {values : List Value}
    (only : ∀ entry ∈ entries, entry.1 = number → entry.2 = values)
    (isGiven : values ≠ [] → ∃ entry ∈ entries, entry.1 = number) :
    (entries.lookup number).getD [] = values := by
  induction entries with
  | nil =>
      by_contra different
      obtain ⟨_, member, _⟩ := isGiven fun empty => different (by simp [empty])
      cases member
  | cons entry entries inductionHypothesis =>
      by_cases same : entry.1 = number
      · have here := only entry List.mem_cons_self same
        rw [List.lookup_cons, same, beq_self_eq_true]
        exact here
      · have different : (number == entry.1) = false := beq_eq_false_iff_ne.mpr (Ne.symm same)
        rw [List.lookup_cons, different]
        refine inductionHypothesis
          (fun other member => only other (List.mem_cons_of_mem entry member)) fun notEmpty => ?_
        obtain ⟨other, member, sameNumber⟩ := isGiven notEmpty
        rcases List.mem_cons.mp member with rfl | inRest
        · exact absurd sameNumber same
        · exact ⟨other, inRest, sameNumber⟩

/-- The given fields make the message that holds what they give. -/
theorem message_of_members (sound : catalog.IsSound depth) {held : MessageField τ → List Value}
    {members : List (Option String × Json)}
    (isGiven : ∀ field ∈ catalog.fields type, held field ≠ [] →
      ∃ member ∈ members, givenBy catalog type held member = some (field.number, held field)) :
    Given.message (members.filterMap (givenBy catalog type held)).reverse catalog type =
      Message.ofFields (catalog.fields type) held := by
  rw [Given.message, Message.ofFields]
  refine List.flatMap_congr fun field isField => ?_
  have found : ((members.filterMap (givenBy catalog type held)).reverse.lookup
      field.number).getD [] = held field := by
    refine lookup_eq (fun entry isEntry sameNumber => ?_) fun notEmpty => ?_
    · obtain ⟨⟨key, json⟩, _, gives⟩ := List.mem_filterMap.mp (List.mem_reverse.mp isEntry)
      obtain ⟨name, rfl, gives⟩ := Option.bind_eq_some_iff.mp gives
      obtain ⟨⟨slot, other⟩, isFound, rfl⟩ := Option.map_eq_some_iff.mp gives
      obtain ⟨isSlot, inSlot, _⟩ := isName_of_field? isFound
      have same : other = field :=
        sound.eq_of_number (Catalog.mem_fields isSlot inSlot) isField sameNumber
      exact congrArg held same
    · obtain ⟨member, isMember, gives⟩ := isGiven field isField notEmpty
      exact ⟨_, List.mem_reverse.mpr (List.mem_filterMap.mpr ⟨member, isMember, gives⟩), rfl⟩
  rw [found]

/-- The JSON of a field is the same wherever the object names the field. -/
theorem json_unique {members : List (Option String × Json)}
    (apart : members.Pairwise (StandApart catalog type)) {field : MessageField τ}
    (isField : field ∈ catalog.fields type) {name other : String} {json second : Json}
    (isFirst : (some name, json) ∈ members) (isSecond : (some other, second) ∈ members)
    (isName : IsName field name) (isOther : IsName field other) : json = second := by
  obtain ⟨slot, isSlot, inSlot⟩ := List.mem_flatMap.mp isField
  have symmetric : Std.Symm (StandApart catalog type) :=
    ⟨fun _ _ isApart slot isSlot one two => isApart slot isSlot two one⟩
  by_contra different
  have notSame : ((some name, json) : Option String × Json) ≠ (some other, second) := fun same =>
    different (congrArg Prod.snd same)
  exact apart.forall isFirst isSecond notSame slot isSlot
    ⟨field, inSlot, name, rfl, isName⟩ ⟨field, inSlot, other, rfl, isOther⟩

/-- An object that presents a message is read as what its fields hold. -/
theorem toMessage?_members (sound : catalog.IsSound depth) (names : NamesFind catalog)
    {message : Message} (shaped : catalog.Shapes type message)
    (readsAll : ∀ field ∈ catalog.fields type, ∀ value ∈ message.values field.number,
      ReadsAll catalog field.type value)
    {json : Json} (presents : Presents catalog (.message type) (.message message) json) :
    ∃ held, toMessage? catalog type json = some (Message.ofFields (catalog.fields type) held) ∧
      ∀ field ∈ catalog.fields type, HoldsAs field (message.values field.number) (held field) := by
  cases presents with
  | @message _ _ members keys apart given absent =>
      have each : ∀ field : MessageField τ, ∃ held, field ∈ catalog.fields type →
          HoldsAs field (message.values field.number) held ∧
            (held ≠ [] → ∃ name json, (some name, json) ∈ members ∧ IsName field name) ∧
            ∀ name json, (some name, json) ∈ members → IsName field name →
              fieldValues? catalog field json (toValue? catalog field.type json)
                (toElements? catalog field.type json) = some held := by
        intro field
        by_cases isField : field ∈ catalog.fields type
        · by_cases named : ∃ name json, (some name, json) ∈ members ∧ IsName field name
          · obtain ⟨name, json, isMember, isName⟩ := named
            obtain ⟨held, found, holds⟩ := fieldValues?_of_gives (sound.fields type field isField)
              (Message.admits_values sound shaped isField) (readsAll field isField)
              (given field isField name json isMember isName)
            refine ⟨held, fun _ => ⟨holds, fun _ => ⟨name, json, isMember, isName⟩, ?_⟩⟩
            intro other second isSecond isOther
            rwa [← json_unique apart isField isMember isSecond isName isOther]
          · have noMember : ∀ name json, (some name, json) ∈ members → ¬ IsName field name :=
              fun name json isMember isName => named ⟨name, json, isMember, isName⟩
            refine ⟨[], fun _ => ⟨?_, fun notEmpty => absurd rfl notEmpty, ?_⟩⟩
            · rw [absent field isField noMember]
              exact holdsAs_nil field
            · exact fun name json isMember isName => absurd isName (noMember name json isMember)
        · exact ⟨[], fun isHere => absurd isHere isField⟩
      choose held holds using each
      have isRead := toGiven?_members sound [] keys apart (fun _ _ _ _ _ => by simp [Given.has])
        fun field isField name json isMember isName =>
          ⟨isAbsent_of_ne_null (given field isField name json isMember isName).ne_null,
            (holds field isField).2.2 name json isMember isName⟩
      have isGiven : ∀ field ∈ catalog.fields type, held field ≠ [] →
          ∃ member ∈ members, givenBy catalog type held member =
            some (field.number, held field) := by
        intro field isField notEmpty
        obtain ⟨name, json, isMember, isName⟩ := (holds field isField).2.1 notEmpty
        obtain ⟨slot, isSlot, inSlot⟩ := List.mem_flatMap.mp isField
        refine ⟨_, isMember, ?_⟩
        simp [givenBy, names type slot isSlot field inSlot name isName]
      refine ⟨held, ?_, fun field isField => (holds field isField).1⟩
      rw [List.append_nil] at isRead
      rw [toMessage?, isRead, Option.map_some, message_of_members sound isGiven]

theorem ofFields_of_hasNoMap (sound : catalog.IsSound depth) {message : Message}
    (shaped : catalog.Shapes type message) (noMap : catalog.HasNoMap type)
    {held : MessageField τ → List Value}
    (holds : ∀ field ∈ catalog.fields type,
      HoldsAs field (message.values field.number) (held field)) :
    Message.ofFields (catalog.fields type) held = message := by
  have same : ∀ field ∈ catalog.fields type, held field = message.values field.number := by
    intro field isField
    have isHeld := holds field isField
    rwa [HoldsAs, if_neg (noMap field isField)] at isHeld
  rw [Message.ofFields_congr same, Message.ofFields_values sound shaped]

/-- Every JSON form of a message is read as the message, but for the order of its maps. By induction
on the values in the message: each message in it has no map of its own. -/
theorem toMessage?_of_presents (sound : catalog.IsSound depth) (names : NamesFind catalog)
    {message : Message} (valid : catalog.IsMessage type message) {json : Json}
    (presents : Presents catalog (.message type) (.message message) json) :
    ∃ held, toMessage? catalog type json = some (Message.ofFields (catalog.fields type) held) ∧
      ∀ field ∈ catalog.fields type, HoldsAs field (message.values field.number) (held field) := by
  unfold Catalog.IsMessage at valid
  generalize isType : FieldType.message type = fieldType at valid
  generalize isValue : Value.message message = value at valid
  induction valid generalizing type message json with
  | scalar holds => cases isType
  | message shaped each inductionHypothesis =>
      cases isType
      cases isValue
      rename_i type message
      refine toMessage?_members sound names shaped (fun field isField value isHeld => ?_) presents
      have known := sound.field?_eq isField
      have isEntry := Message.mem_values.mp isHeld
      have validValue := each _ isEntry field known
      have isSound := sound.fields type field isField
      cases isMessage : field.type with
      | scalar kind =>
          rw [isMessage] at validValue isSound
          cases validValue with
          | scalar holds => exact readsAll_scalar (isSound_of_scalar isSound) holds
      | message inner =>
          intro json presentsValue
          rw [isMessage] at validValue isSound
          cases validValue with
          | @message _ inside shapedInside _ =>
              obtain ⟨held, found, holds⟩ :=
                inductionHypothesis _ isEntry field known presentsValue isMessage.symm rfl
              rw [toValue?_message, found, Option.map_some,
                ofFields_of_hasNoMap sound shapedInside (hasNoMap_of_isSound isSound) holds]

theorem agrees_of_holdsAs (sound : catalog.IsSound depth) {message : Message}
    (shaped : catalog.Shapes type message) {held : MessageField τ → List Value}
    (holds : ∀ field ∈ catalog.fields type,
      HoldsAs field (message.values field.number) (held field)) :
    Message.Agrees catalog type (Message.ofFields (catalog.fields type) held) message := by
  apply Message.agrees_ofFields sound shaped
  · intro field isField notMap
    have isHeld := holds field isField
    rwa [HoldsAs, if_neg notMap] at isHeld
  · intro field isField isMap
    have isHeld := holds field isField
    rwa [HoldsAs, if_pos isMap] at isHeld

end RpcEcho.Proto.JsonForm
