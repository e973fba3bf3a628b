import RpcEcho.Proofs.Proto.Presentation

/-!
# Members given twice

An object that gives something other than null twice for one slot stands for no message, wherever
in the JSON of a message it stands: twice for one field, in one spelling or in both, or for two
members of a choice.

* `JsonForm.GivesTwice`: JSON with such an object in it.
* `JsonForm.toMessage?_of_givesTwice`: it is not read.
-/

namespace RpcEcho.Proto.JsonForm

variable {τ : Type} {catalog : Catalog τ} {type : τ}

/-- In the JSON of a message, where a message of the catalog is expected, some object gives
something other than null twice for one slot. -/
inductive GivesTwice (catalog : Catalog τ) : τ → Json → Prop
  | here {type : τ} {slot : Slot τ} {front middle behind : List (Option String × Json)}
      {first second : Option String × Json} (isSlot : slot ∈ catalog type)
      (namesFirst : NamesSlot slot first) (namesSecond : NamesSlot slot second)
      (notNullFirst : first.2 ≠ .null) (notNullSecond : second.2 ≠ .null) :
      GivesTwice catalog type (.object (front ++ first :: (middle ++ second :: behind)))
  | inField {type inner : τ} {field : MessageField τ} {name : String} {json : Json}
      {members : List (Option String × Json)} (isField : field ∈ catalog.fields type)
      (isMessage : field.type = .message inner)
      (isSingle : field.label = .implicit ∨ field.label = .explicit) (isName : IsName field name)
      (member : (some name, json) ∈ members) (givesTwice : GivesTwice catalog inner json) :
      GivesTwice catalog type (.object members)
  | inItem {type inner : τ} {field : MessageField τ} {name : String} {items : List Json}
      {json : Json} {members : List (Option String × Json)} (isField : field ∈ catalog.fields type)
      (isMessage : field.type = .message inner)
      (isList : field.label = .repeated ∨ field.label = .packed) (isName : IsName field name)
      (member : (some name, .array items) ∈ members) (isItem : json ∈ items)
      (givesTwice : GivesTwice catalog inner json) : GivesTwice catalog type (.object members)

theorem GivesTwice.exists_members {json : Json} (givesTwice : GivesTwice catalog type json) :
    ∃ members, json = .object members := by
  cases givesTwice <;> exact ⟨_, rfl⟩

/-! ## Reading members in two parts -/

/-- Members are read in two parts, and what was given stays given. -/
theorem toGiven?_append (given : Given) (front rest : List (Option String × Json)) :
    toGiven? catalog type given (front ++ rest) = none ∨
      ∃ more, toGiven? catalog type given (front ++ rest) =
        toGiven? catalog type (more ++ given) rest := by
  induction front generalizing given with
  | nil => exact Or.inr ⟨[], rfl⟩
  | cons member front inductionHypothesis =>
      obtain ⟨key, json⟩ := member
      rw [List.cons_append]
      cases key with
      | none => exact Or.inl (by rw [toGiven?])
      | some name =>
          cases found : field? catalog type name with
          | none =>
              rw [toGiven?]
              simp only [found]
              exact inductionHypothesis given
          | some place =>
              obtain ⟨slot, field⟩ := place
              rw [toGiven?_cons given name json _ found]
              by_cases isGiven : given.has slot = true
              · exact Or.inl (if_pos isGiven)
              · rw [if_neg isGiven]
                by_cases absent : isAbsent field json = true
                · rw [if_pos absent]
                  exact inductionHypothesis given
                · rw [if_neg absent]
                  cases fieldValues? catalog field json (toValue? catalog field.type json)
                    (toElements? catalog field.type json) with
                  | none => exact Or.inl rfl
                  | some values =>
                      rcases inductionHypothesis ((field.number, values) :: given) with
                        fails | ⟨more, same⟩
                      · exact Or.inl fails
                      · refine Or.inr ⟨more ++ [(field.number, values)], ?_⟩
                        rw [Option.bind_some, same, List.append_assoc]
                        rfl

theorem has_append {given : Given} {slot : Slot τ} (isGiven : given.has slot = true)
    (more : Given) : Given.has (more ++ given) slot = true := by
  induction more with
  | nil => exact isGiven
  | cons entry more inductionHypothesis =>
      rw [List.cons_append, has_cons, inductionHypothesis, Bool.or_true]

/-- A member for a slot that was given is refused. -/
theorem toGiven?_of_has {given : Given} {slot : Slot τ} (isGiven : given.has slot = true)
    {name : String} {field : MessageField τ} (found : field? catalog type name = some (slot, field))
    (json : Json) (rest : List (Option String × Json)) :
    toGiven? catalog type given ((some name, json) :: rest) = none := by
  rw [toGiven?_cons given name json rest found, if_pos isGiven]

/-- A member that is not null gives its slot, or is refused. -/
theorem toGiven?_of_ne_null (given : Given) {name : String} {slot : Slot τ} {field : MessageField τ}
    (found : field? catalog type name = some (slot, field)) (inSlot : field ∈ slot.fields)
    {json : Json} (notNull : json ≠ .null) (rest : List (Option String × Json)) :
    toGiven? catalog type given ((some name, json) :: rest) = none ∨
      ∃ later : Given, later.has slot = true ∧
        toGiven? catalog type given ((some name, json) :: rest) =
          toGiven? catalog type later rest := by
  rw [toGiven?_cons given name json rest found, isAbsent_of_ne_null notNull]
  by_cases isGiven : given.has slot = true
  · exact Or.inl (if_pos isGiven)
  · rw [if_neg isGiven, if_neg Bool.false_ne_true]
    cases fieldValues? catalog field json (toValue? catalog field.type json)
      (toElements? catalog field.type json) with
    | none => exact Or.inl rfl
    | some values =>
        refine Or.inr ⟨(field.number, values) :: given, ?_, rfl⟩
        have own : (slot.fields.any fun other => decide (field.number = other.number)) = true :=
          List.any_eq_true.mpr ⟨field, inSlot, decide_eq_true rfl⟩
        rw [has_cons, own, Bool.true_or]

theorem toGiven?_twice (names : NamesFind catalog) {slot : Slot τ} (isSlot : slot ∈ catalog type)
    {first second : Option String × Json} (namesFirst : NamesSlot slot first)
    (namesSecond : NamesSlot slot second) (notNull : first.2 ≠ .null) (given : Given)
    (front middle behind : List (Option String × Json)) :
    toGiven? catalog type given (front ++ first :: (middle ++ second :: behind)) = none := by
  obtain ⟨_, json⟩ := first
  obtain ⟨_, other⟩ := second
  obtain ⟨field, inSlot, name, rfl, isName⟩ := namesFirst
  obtain ⟨again, inSame, repeated, rfl, isRepeated⟩ := namesSecond
  have found := names type slot isSlot field inSlot name isName
  have foundAgain := names type slot isSlot again inSame repeated isRepeated
  rcases toGiven?_append given front _ with fails | ⟨more, same⟩
  · exact fails
  · rw [same]
    rcases toGiven?_of_ne_null (more ++ given) found inSlot notNull _ with
      fails | ⟨later, isGiven, same⟩
    · exact fails
    · rw [same]
      rcases toGiven?_append later middle _ with fails | ⟨more, same⟩
      · exact fails
      · rw [same]
        exact toGiven?_of_has (has_append isGiven more) foundAgain other behind

/-! ## Values that cannot be read -/

/-- An object is not read if one of its members has a value that its field cannot take. -/
theorem toGiven?_of_unreadable (names : NamesFind catalog) {field : MessageField τ}
    (isField : field ∈ catalog.fields type) {name : String} (isName : IsName field name)
    {json : Json} (notNull : json ≠ .null)
    (unreadable : fieldValues? catalog field json (toValue? catalog field.type json)
      (toElements? catalog field.type json) = none)
    {members : List (Option String × Json)} (member : (some name, json) ∈ members)
    (given : Given) : toGiven? catalog type given members = none := by
  obtain ⟨slot, isSlot, inSlot⟩ := List.mem_flatMap.mp isField
  have found := names type slot isSlot field inSlot name isName
  obtain ⟨front, behind, rfl⟩ := List.append_of_mem member
  rcases toGiven?_append given front _ with fails | ⟨more, same⟩
  · exact fails
  · rw [same, toGiven?_cons _ name json behind found, isAbsent_of_ne_null notNull, unreadable]
    simp

theorem toValues?_of_unreadable {type : FieldType τ} {items : List Json} {json : Json}
    (isItem : json ∈ items) (unreadable : toValue? catalog type json = none) :
    toValues? catalog type items = none := by
  induction items with
  | nil => cases isItem
  | cons first items inductionHypothesis =>
      rw [toValues?]
      rcases List.mem_cons.mp isItem with rfl | inRest
      · rw [unreadable]
      · rw [inductionHypothesis inRest]
        cases toValue? catalog type first <;> rfl

/-- JSON that gives something twice stands for no message. -/
theorem toMessage?_of_givesTwice (names : NamesFind catalog) {json : Json}
    (givesTwice : GivesTwice catalog type json) : toMessage? catalog type json = none := by
  induction givesTwice with
  | here isSlot namesFirst namesSecond notNull _ =>
      rw [toMessage?, toGiven?_twice names isSlot namesFirst namesSecond notNull]
      rfl
  | @inField type inner field name json members isField isMessage isSingle isName member givesTwice
      inductionHypothesis =>
      have noValue : toValue? catalog field.type json = none := by
        rw [isMessage, toValue?_message, inductionHypothesis, Option.map_none]
      have notNull : json ≠ .null := by
        obtain ⟨inside, rfl⟩ := givesTwice.exists_members
        simp
      have unreadable : fieldValues? catalog field json (toValue? catalog field.type json)
          (toElements? catalog field.type json) = none := by
        rcases isSingle with label | label <;> simp [fieldValues?, label, noValue]
      rw [toMessage?, toGiven?_of_unreadable names isField isName notNull unreadable member]
      rfl
  | @inItem type inner field name items json members isField isMessage isList isName member isItem
      _ inductionHypothesis =>
      have noValue : toValue? catalog field.type json = none := by
        rw [isMessage, toValue?_message, inductionHypothesis, Option.map_none]
      have noElements := toValues?_of_unreadable isItem noValue
      have unreadable : fieldValues? catalog field (.array items)
          (toValue? catalog field.type (.array items))
          (toElements? catalog field.type (.array items)) = none := by
        rcases isList with label | label <;> simp [fieldValues?, label, toElements?, noElements]
      have notNull : Json.array items ≠ .null := by simp
      rw [toMessage?, toGiven?_of_unreadable names isField isName notNull unreadable member]
      rfl

end RpcEcho.Proto.JsonForm
