import RpcEcho.Proofs.Json.Lexemes

/-!
# JSON texts as tokens

A text of a value is cut into the tokens of the value, whatever blanks stand between them.

* `Json.tokensOf`: the tokens of a value.
* `Json.spells_text`: every text of a value, by recursion over the value.
-/

namespace RpcEcho.Json

open RpcEcho

mutual

def tokensOf : Json → List Token
  | .null => [.atom .null]
  | .bool value => [.atom (.bool value)]
  | .number value => [.atom (.number value)]
  | .string text => [.text text]
  | .array items => .openArray :: (itemTokens items ++ [.closeArray])
  | .object members => .openObject :: (memberTokens members ++ [.closeObject])

/-- The tokens of items with commas between them. -/
def itemTokens : List Json → List Token
  | [] => []
  | [item] => tokensOf item
  | item :: rest => tokensOf item ++ .comma :: itemTokens rest

/-- The tokens of members with commas between them. -/
def memberTokens : List (Option String × Json) → List Token
  | [] => []
  | [(key, value)] => .text key :: .colon :: tokensOf value
  | (key, value) :: rest =>
    .text key :: .colon :: (tokensOf value ++ .comma :: memberTokens rest)

end

/-- Some octets, before the given rest, are cut into some tokens. -/
def Spells (octets : Bytes) (tokens : List Token) (rest : Bytes) : Prop :=
  ∀ read, tokensOnto read (octets ++ rest) = tokensOnto (tokens.reverse ++ read) rest

theorem spells_nil (rest : Bytes) : Spells [] [] rest := fun _ => rfl

theorem Spells.append {front behind rest : Bytes} {first second : List Token}
    (spellsFront : Spells front first (behind ++ rest)) (spellsBehind : Spells behind second rest) :
    Spells (front ++ behind) (first ++ second) rest := by
  intro read
  rw [List.append_assoc, spellsFront, spellsBehind, List.reverse_append, List.append_assoc]

theorem spells_token {first : UInt8} {octets rest : Bytes} {token : Token}
    (noSpace : isSpace first = false) (found : token? first (octets ++ rest) = some (token, rest)) :
    Spells (first :: octets) [token] rest := by
  intro read
  rw [List.cons_append, tokensOnto, noSpace]
  simp only [Bool.false_eq_true, if_false]
  split
  · rename_i failed
    rw [found] at failed
    cases failed
  · rename_i other after again
    rw [found] at again
    cases again
    rfl

theorem spells_mark {octet : UInt8} {token : Token} (noSpace : isSpace octet = false)
    (mark : mark? octet = some token) (rest : Bytes) : Spells [octet] [token] rest :=
  spells_token noSpace (by rw [token?, mark]; rfl)

/-! ## Blanks -/

theorem spells_blanks {blanks : Bytes} (areBlanks : AreBlanks blanks) (rest : Bytes) :
    Spells blanks [] rest := by
  induction blanks with
  | nil => exact spells_nil rest
  | cons blank blanks inductionHypothesis =>
      have later := inductionHypothesis fun octet member =>
        areBlanks octet (List.mem_cons_of_mem blank member)
      intro read
      rw [List.cons_append, tokensOnto, areBlanks blank List.mem_cons_self]
      exact later read

theorem Spells.between {before octets after rest : Bytes} {tokens : List Token}
    (blanksBefore : AreBlanks before) (spells : Spells octets tokens (after ++ rest))
    (blanksAfter : AreBlanks after) : Spells (before ++ (octets ++ after)) tokens rest := by
  have behind := spells.append (spells_blanks blanksAfter rest)
  rw [List.append_nil] at behind
  exact (spells_blanks blanksBefore _).append behind

/-- A blank continues no number. -/
theorem IsSeparated.behind_blanks {blanks rest : Bytes} (areBlanks : AreBlanks blanks)
    (separated : IsSeparated rest) : IsSeparated (blanks ++ rest) := by
  cases blanks with
  | nil => exact separated
  | cons blank blanks =>
      have isBlank := areBlanks blank List.mem_cons_self
      simp only [isSpace, Bool.or_eq_true, beq_iff_eq] at isBlank
      intro octet member
      cases member
      rcases isBlank with ((rfl | rfl) | rfl) | rfl
      all_goals exact ⟨rfl, by decide, by decide, by decide⟩

/-! ## Strings and numbers -/

theorem IsQuoted.spells {text : Option String} {octets : Bytes} (isQuoted : IsQuoted text octets)
    (rest : Bytes) : Spells octets [.text text] rest := by
  obtain ⟨isBody, rfl⟩ := isQuoted
  refine spells_token rfl ?_
  rw [List.append_assoc]
  exact string?_of_isBody isBody rest

/-- A digit or a minus sign begins no token but a number. -/
theorem token?_of_numeral {first : UInt8} (numeral : first = 45 ∨ Bytes.isDigit first = true)
    (octets : Bytes) :
    isSpace first = false ∧
      token? first octets =
        (number? (first :: octets)).map fun found => (.atom (.number found.1), found.2) := by
  have checked : ∀ number < 58, number = 45 ∨ 48 ≤ number →
      isSpace (UInt8.ofNat number) = false ∧ mark? (UInt8.ofNat number) = none ∧
        (UInt8.ofNat number == 34) = false ∧ word? (UInt8.ofNat number) = none := by
    decide
  have range : first.toNat < 58 ∧ (first.toNat = 45 ∨ 48 ≤ first.toNat) := by
    rcases numeral with rfl | digit
    · decide
    · simp only [Bytes.isDigit, Bool.and_eq_true, decide_eq_true_eq, UInt8.le_iff_toNat_le] at digit
      exact ⟨Nat.lt_succ_of_le digit.2, Or.inr digit.1⟩
  obtain ⟨noSpace, noMark, noQuote, noWord⟩ := checked first.toNat range.1 range.2
  rw [UInt8.ofNat_toNat] at noSpace noMark noQuote noWord
  refine ⟨noSpace, ?_⟩
  rw [token?, noMark, noWord]
  simp only [noQuote, Bool.false_eq_true, if_false]

theorem AreDigits.exists_cons {digits : Bytes} (areDigits : AreDigits digits) (rest : Bytes) :
    ∃ first others, digits ++ rest = first :: others ∧ Bytes.isDigit first = true := by
  cases digits with
  | nil => exact absurd rfl areDigits.notEmpty
  | cons first others => exact ⟨first, others ++ rest, rfl, areDigits.each first List.mem_cons_self⟩

theorem IsNumeral.exists_cons {value : Option Int} {octets : Bytes}
    (isNumeral : IsNumeral value octets) :
    ∃ first others, octets = first :: others ∧ (first = 45 ∨ Bytes.isDigit first = true) := by
  cases isNumeral with
  | whole isWhole _ =>
      obtain ⟨first, others, shape, isDigit⟩ := isWhole.areDigits.exists_cons []
      rw [List.append_nil] at shape
      exact ⟨first, others, shape, Or.inr isDigit⟩
  | negative _ _ _ => exact ⟨45, _, rfl, Or.inl rfl⟩
  | @other sign digits fraction exponent isSign isWhole _ _ _ =>
      rcases isSign with rfl | rfl
      · obtain ⟨first, others, shape, isDigit⟩ :=
          isWhole.areDigits.exists_cons (fraction ++ exponent)
        exact ⟨first, others, shape, Or.inr isDigit⟩
      · exact ⟨45, _, rfl, Or.inl rfl⟩

theorem IsNumeral.spells {value : Option Int} {octets : Bytes} (isNumeral : IsNumeral value octets)
    {rest : Bytes} (separated : IsSeparated rest) :
    Spells octets [.atom (.number value)] rest := by
  have found := isNumeral.read separated
  obtain ⟨first, others, rfl, numeral⟩ := isNumeral.exists_cons
  obtain ⟨noSpace, reads⟩ := token?_of_numeral numeral (others ++ rest)
  rw [List.cons_append] at found
  apply spells_token noSpace
  rw [reads, found]
  rfl

/-! ## Values -/

theorem IsItem.spells {json : Json} {octets : Bytes} (isItem : IsItem json octets)
    (spells : ∀ text, IsText json text → ∀ rest, IsSeparated rest →
      Spells text (tokensOf json) rest)
    {rest : Bytes} (separated : IsSeparated rest) : Spells octets (tokensOf json) rest := by
  obtain ⟨blanksBefore, isText, blanksAfter⟩ := isItem
  exact (spells _ isText _ (separated.behind_blanks blanksAfter)).between blanksBefore blanksAfter

theorem IsMember.spells {key : Option String} {json : Json} {octets : Bytes}
    (isMember : IsMember (key, json) octets)
    (spells : ∀ text, IsText json text → ∀ rest, IsSeparated rest →
      Spells text (tokensOf json) rest)
    {rest : Bytes} (separated : IsSeparated rest) :
    Spells octets (.text key :: .colon :: tokensOf json) rest := by
  cases isMember with
  | @colon _ _ before name after value blanksBefore isQuoted blanksAfter isItem =>
      have colon : Spells [58] [.colon] (value ++ rest) := spells_mark rfl rfl _
      have behindName := (spells_blanks blanksAfter _).append
        (colon.append (isItem.spells spells separated))
      exact (spells_blanks blanksBefore _).append ((isQuoted.spells _).append behindName)

mutual

/-- Every text of a value is cut into the tokens of the value. -/
theorem spells_text (json : Json) (octets : Bytes) (isText : IsText json octets) (rest : Bytes)
    (separated : IsSeparated rest) : Spells octets (tokensOf json) rest := by
  match json with
  | .null =>
      cases isText
      exact spells_token rfl rfl
  | .bool true =>
      cases isText
      exact spells_token rfl rfl
  | .bool false =>
      cases isText
      exact spells_token rfl rfl
  | .number value =>
      cases isText with
      | number isNumeral => exact isNumeral.spells separated
  | .string text =>
      cases isText with
      | string isQuoted => exact isQuoted.spells rest
  | .array items =>
      cases isText with
      | @array items inside areItems =>
          have within :=
            spells_items items inside areItems (93 :: rest) (isSeparated_cons (by simp))
          exact (spells_mark rfl rfl _).append (within.append (spells_mark rfl rfl rest))
  | .object members =>
      cases isText with
      | @object members inside areMembers =>
          have within :=
            spells_members members inside areMembers (125 :: rest) (isSeparated_cons (by simp))
          exact (spells_mark rfl rfl _).append (within.append (spells_mark rfl rfl rest))

theorem spells_items (items : List Json) (octets : Bytes) (areItems : AreItems items octets)
    (rest : Bytes) (separated : IsSeparated rest) : Spells octets (itemTokens items) rest := by
  match items with
  | [] =>
      cases areItems with
      | none areBlanks => exact spells_blanks areBlanks rest
  | [item] =>
      cases areItems with
      | last isItem => exact isItem.spells (spells_text item) separated
  | item :: next :: others =>
      cases areItems with
      | @more item next others text behind isItem areItems =>
          have later := spells_items (next :: others) behind areItems rest separated
          have comma : Spells [44] [.comma] (behind ++ rest) := spells_mark rfl rfl _
          exact (isItem.spells (spells_text item) (isSeparated_cons (by simp))).append
            (comma.append later)

theorem spells_members (members : List (Option String × Json)) (octets : Bytes)
    (areMembers : AreMembers members octets) (rest : Bytes) (separated : IsSeparated rest) :
    Spells octets (memberTokens members) rest := by
  match members with
  | [] =>
      cases areMembers with
      | none areBlanks => exact spells_blanks areBlanks rest
  | [(key, value)] =>
      cases areMembers with
      | last isMember => exact isMember.spells (spells_text value) separated
  | (key, value) :: next :: others =>
      cases areMembers with
      | @more member next others text behind isMember areMembers =>
          have later := spells_members (next :: others) behind areMembers rest separated
          have comma : Spells [44] [.comma] (behind ++ rest) := spells_mark rfl rfl _
          exact (isMember.spells (spells_text value) (isSeparated_cons (by simp))).append
            (comma.append later)

end

/-- A text of a value, and nothing else, is cut into the tokens of the value. -/
theorem tokens?_of_isPayload {json : Json} {octets : Bytes} (isPayload : IsPayload json octets) :
    tokens? octets = some (tokensOf json) := by
  have spelled := IsItem.spells isPayload (spells_text json) isSeparated_nil []
  rw [List.append_nil, List.append_nil] at spelled
  rw [tokens?, spelled, tokensOnto, List.reverse_reverse]

end RpcEcho.Json
