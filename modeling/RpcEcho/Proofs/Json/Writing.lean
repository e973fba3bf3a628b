import RpcEcho.Proofs.Json.RoundTrip

/-!
# Written JSON read back

The written form of a value is one of its texts, and the most compact one: no blanks, and escapes
only where they must be. So a value is read back if its texts are texts and its numbers are whole.

* `Json.IsExact`: the values whose written form tells all about them.
* `Json.isText_spell`: the written form of a value is a text of it.
* `Json.parse?_encode`: an exact value is read back from its written form.
-/

namespace RpcEcho.Json

open RpcEcho

/-! ## Strings -/

/-- The octets of the written form of a text, without its quotes. -/
def escapedText (chars : List Char) : Bytes :=
  chars.flatMap fun c => (escape c).flatMap String.utf8EncodeChar

theorem isUnit_of_control : ∀ number < 32, IsUnit number
    [48, 48, hexOctet (number / 16), hexOctet (number % 16)] := by
  intro number small
  have zero : IsHexDigit 0 48 := ⟨by decide, Or.inl rfl⟩
  have high : IsHexDigit (number / 16) (hexOctet (number / 16)) := ⟨by omega, Or.inl rfl⟩
  have low : IsHexDigit (number % 16) (hexOctet (number % 16)) := ⟨by omega, Or.inl rfl⟩
  have digits := IsUnit.digits zero zero high low
  have whole : ((0 * 16 + 0) * 16 + number / 16) * 16 + number % 16 = number := by omega
  rwa [whole] at digits

theorem isCharacter_escape (c : Char) :
    IsCharacter c ((escape c).flatMap String.utf8EncodeChar) := by
  by_cases special : c = '"' ∨ c = '\\' ∨ c = '\x08' ∨ c = '\x0c' ∨ c = '\n' ∨ c = '\r' ∨ c = '\t'
  · rcases special with rfl | rfl | rfl | rfl | rfl | rfl | rfl
    all_goals exact .short (by decide)
  · simp only [not_or] at special
    obtain ⟨notQuote, notBackslash, notBack, notFeed, notLine, notReturn, notTab⟩ := special
    rw [escape]
    simp only [notQuote, notBackslash, notBack, notFeed, notLine, notReturn, notTab, if_false]
    by_cases control : c.toNat < 0x20
    · have ascii : ∀ digit < 16, (Nat.digitChar digit).toNat < 128 := by decide
      have high := Utf8.utf8EncodeChar_of_ascii (ascii (c.toNat / 16) (by omega))
      have low := Utf8.utf8EncodeChar_of_ascii (ascii (c.toNat % 16) (by omega))
      simp only [control, if_true, List.flatMap_cons, List.flatMap_nil, high, low]
      exact .unit (isUnit_of_control c.toNat control)
    · simp only [control, if_false, List.flatMap_cons, List.flatMap_nil, List.append_nil]
      exact .plain notQuote notBackslash (Nat.not_lt.mp control)

theorem isBody_escapedText (chars : List Char) : IsBody (escapedText chars) (some chars) := by
  induction chars with
  | nil => exact .nil
  | cons c chars inductionHypothesis => exact .character (isCharacter_escape c) inductionHypothesis

def quotedText (text : String) : Bytes := 34 :: (escapedText text.toList ++ [34])

theorem isQuoted_quotedText (text : String) : IsQuoted (some text) (quotedText text) :=
  .quotes (isBody_escapedText text.toList) (by simp)

/-! ## Numbers -/

def digitOctets (number : Nat) : Bytes :=
  (Nat.toDigits 10 number).map fun c => UInt8.ofNat c.toNat

theorem toNat_ofNat_digit {c : Char} (digit : c.isDigit = true) :
    (UInt8.ofNat c.toNat).toNat = c.toNat ∧ 48 ≤ c.toNat ∧ c.toNat ≤ 57 := by
  simp only [Char.isDigit, Bool.and_eq_true, decide_eq_true_eq, UInt32.le_iff_toNat_le] at digit
  obtain ⟨low, high⟩ := digit
  have small : c.toNat ≤ 57 := high
  exact ⟨UInt8.toNat_ofNat_of_lt' (by rw [UInt8.size]; omega), low, high⟩

theorem isDigit_of_mem_digitOctets {number : Nat} {octet : UInt8}
    (member : octet ∈ digitOctets number) : Bytes.isDigit octet = true := by
  obtain ⟨c, digit, rfl⟩ := List.mem_map.mp member
  have isDigit : c.isDigit = true :=
    Nat.isDigit_of_mem_toDigits (by decide) (by decide) digit
  obtain ⟨value, low, high⟩ := toNat_ofNat_digit isDigit
  simp only [Bytes.isDigit, Bool.and_eq_true, decide_eq_true_eq, UInt8.le_iff_toNat_le, value]
  exact ⟨low, high⟩

theorem digitsValue_digitOctets (number : Nat) : digitsValue (digitOctets number) = number := by
  have general : ∀ (chars : List Char) (read : Nat), (∀ c ∈ chars, c.isDigit = true) →
      (chars.map fun c => UInt8.ofNat c.toNat).foldl
          (fun value digit => value * 10 + (digit.toNat - 48)) read =
        Nat.ofDigitChars 10 chars read := by
    intro chars
    induction chars with
    | nil => intro read _; rfl
    | cons c chars inductionHypothesis =>
        intro read digits
        rw [List.map_cons, List.foldl_cons,
          inductionHypothesis _ fun other member => digits other (List.mem_cons_of_mem c member),
          Nat.ofDigitChars_cons, (toNat_ofNat_digit (digits c List.mem_cons_self)).1, Nat.mul_comm]
        rfl
  have digits : ∀ c ∈ Nat.toDigits 10 number, c.isDigit = true := fun c member =>
    Nat.isDigit_of_mem_toDigits (by decide) (by decide) member
  rw [digitsValue, digitOctets, general _ 0 digits, Nat.ofDigitChars_ten_toDigits]

/-- A number other than zero begins with another digit than zero. -/
theorem head_digitOctets {number : Nat} (positive : 0 < number) :
    ∃ first rest, digitOctets number = first :: rest ∧ first ≠ 48 := by
  induction number using Nat.strongRecOn with
  | ind number inductionHypothesis =>
      rw [digitOctets, Nat.toDigits_eq_if (by decide)]
      by_cases short : number < 10
      · rw [if_pos short]
        refine ⟨_, [], rfl, ?_⟩
        have small : ∀ digit < 10, 0 < digit → UInt8.ofNat (Nat.digitChar digit).toNat ≠ 48 := by
          decide
        exact small number short positive
      · rw [if_neg short]
        obtain ⟨first, rest, shape, notZero⟩ :=
          inductionHypothesis (number / 10) (by omega) (by omega)
        rw [digitOctets] at shape
        refine ⟨first, rest ++ [UInt8.ofNat (Nat.digitChar (number % 10)).toNat], ?_, notZero⟩
        rw [List.map_append, shape]
        rfl

theorem areDigits_digitOctets (number : Nat) : AreDigits (digitOctets number) where
  notEmpty := by simp [digitOctets]
  each := fun _ => isDigit_of_mem_digitOctets

theorem isWhole_digitOctets (number : Nat) : IsWhole (digitOctets number) where
  areDigits := areDigits_digitOctets number
  noZero := by
    intro zero
    rcases Nat.eq_zero_or_pos number with rfl | positive
    · rfl
    · obtain ⟨first, rest, shape, notZero⟩ := head_digitOctets positive
      rw [shape] at zero
      exact absurd (Option.some.inj zero) notZero

def intOctets (value : Int) : Bytes :=
  if 0 ≤ value then digitOctets value.toNat else 45 :: digitOctets (-value).toNat

theorem isNumeral_intOctets {value : Int}
    (short : (digitOctets value.natAbs).length ≤ mostDigits) :
    IsNumeral (some value) (intOctets value) := by
  by_cases nonneg : 0 ≤ value
  · have size : value.natAbs = value.toNat := by omega
    rw [size] at short
    have numeral := IsNumeral.whole (isWhole_digitOctets value.toNat) short
    rw [digitsValue_digitOctets, Int.toNat_of_nonneg nonneg] at numeral
    rwa [intOctets, if_pos nonneg]
  · have size : value.natAbs = (-value).toNat := by omega
    rw [size] at short
    have notZero : digitOctets (-value).toNat ≠ [48] := by
      intro zero
      have same := digitsValue_digitOctets (-value).toNat
      rw [zero] at same
      have isZero : digitsValue [48] = 0 := rfl
      omega
    have numeral := IsNumeral.negative (isWhole_digitOctets (-value).toNat) short notZero
    have negated : -(((-value).toNat : Nat) : Int) = value := by omega
    rw [digitsValue_digitOctets, negated] at numeral
    rwa [intOctets, if_neg nonneg]

/-! ## Values -/

mutual

/-- The written form tells all about the value: its texts are texts, and its numbers are whole and
not too long. -/
def IsExact : Json → Prop
  | .null => True
  | .bool _ => True
  | .number value => ∃ whole, value = some whole ∧ (digitOctets whole.natAbs).length ≤ mostDigits
  | .string text => ∃ chars, text = some chars
  | .array items => AreExact items
  | .object members => AreMembersExact members

def AreExact : List Json → Prop
  | [] => True
  | item :: rest => IsExact item ∧ AreExact rest

def AreMembersExact : List (Option String × Json) → Prop
  | [] => True
  | (key, value) :: rest => (∃ chars, key = some chars) ∧ IsExact value ∧ AreMembersExact rest

end

/-! ## Octets of values -/

def octetsOf (chars : List Char) : Bytes := chars.flatMap String.utf8EncodeChar

theorem octetsOf_append (front rest : List Char) :
    octetsOf (front ++ rest) = octetsOf front ++ octetsOf rest :=
  List.flatMap_append

theorem octetsOf_cons_of_ascii {c : Char} (ascii : c.toNat < 128) (rest : List Char) :
    octetsOf (c :: rest) = UInt8.ofNat c.toNat :: octetsOf rest := by
  rw [octetsOf, List.flatMap_cons, Utf8.utf8EncodeChar_of_ascii ascii]
  rfl

theorem octetsOf_spellText (text : String) : octetsOf (spellText text) = quotedText text := by
  rw [spellText, octetsOf_cons_of_ascii (by decide), octetsOf_append]
  have same : octetsOf (text.toList.flatMap escape) = escapedText text.toList := by
    rw [octetsOf, List.flatMap_assoc]
    rfl
  rw [same]
  rfl

theorem octetsOf_repr (value : Int) : octetsOf value.repr.toList = intOctets value := by
  have digits : ∀ number : Nat, octetsOf (Nat.toDigits 10 number) = digitOctets number := by
    intro number
    have ascii : ∀ c ∈ Nat.toDigits 10 number, c.toNat < 128 := by
      intro c member
      have digit : c.isDigit = true := Nat.isDigit_of_mem_toDigits (by decide) (by decide) member
      have := (toNat_ofNat_digit digit).2.2
      omega
    rw [octetsOf, ← Utf8.encode_ofList, Utf8.encode_ofList_of_ascii ascii]
    rfl
  rw [Int.repr_eq_if, intOctets]
  by_cases nonneg : 0 ≤ value
  · rw [if_pos nonneg, if_pos nonneg, Nat.toList_repr, digits]
  · rw [if_neg nonneg, if_neg nonneg, String.toList_append, Nat.toList_repr]
    have minus : "-".toList = ['-'] := rfl
    rw [minus, List.singleton_append, octetsOf_cons_of_ascii (by decide), digits]
    rfl

theorem encode_eq_octetsOf (json : Json) : json.encode = octetsOf json.spell := by
  rw [encode, write, Utf8.encode_ofList, octetsOf]

theorem isItem_of_isText {json : Json} {octets : Bytes} (isText : IsText json octets) :
    IsItem json octets := by
  have noBlanks : AreBlanks [] := fun _ member => by cases member
  have isItem := IsItem.between noBlanks isText noBlanks
  rwa [List.append_nil] at isItem

theorem isMember_of_isText (key : String) {json : Json} {octets : Bytes}
    (isText : IsText json octets) : IsMember (some key, json) (quotedText key ++ 58 :: octets) := by
  have noBlanks : AreBlanks [] := fun _ member => by cases member
  exact .colon noBlanks (isQuoted_quotedText key) noBlanks (isItem_of_isText isText)

mutual

/-- The written form of an exact value is a text of it. -/
theorem isText_spell (json : Json) (exact : IsExact json) : IsText json (octetsOf json.spell) := by
  match json with
  | .null => exact .null
  | .bool true => exact .true
  | .bool false => exact .false
  | .number value =>
      obtain ⟨whole, rfl, short⟩ := exact
      rw [spell, Option.getD_some, octetsOf_repr]
      exact .number (isNumeral_intOctets short)
  | .string text =>
      obtain ⟨chars, rfl⟩ := exact
      rw [spell, Option.getD_some, octetsOf_spellText]
      exact .string (isQuoted_quotedText chars)
  | .array items =>
      rw [spell, octetsOf_cons_of_ascii (by decide), octetsOf_append]
      exact .array (areItems_spellItems items exact)
  | .object members =>
      rw [spell, octetsOf_cons_of_ascii (by decide), octetsOf_append]
      exact .object (areMembers_spellMembers members exact)

theorem areItems_spellItems (items : List Json) (exact : AreExact items) :
    AreItems items (octetsOf (spellItems items)) := by
  match items with
  | [] => exact .none fun _ member => by cases member
  | [item] => exact .last (isItem_of_isText (isText_spell item exact.1))
  | item :: next :: others =>
      rw [spellItems, octetsOf_append, octetsOf_cons_of_ascii (by decide)]
      · exact .more (isItem_of_isText (isText_spell item exact.1))
          (areItems_spellItems (next :: others) exact.2)
      · simp

theorem areMembers_spellMembers (members : List (Option String × Json))
    (exact : AreMembersExact members) : AreMembers members (octetsOf (spellMembers members)) := by
  match members with
  | [] => exact .none fun _ member => by cases member
  | [(key, value)] =>
      obtain ⟨⟨chars, rfl⟩, exactValue, _⟩ := exact
      rw [spellMembers, Option.getD_some, octetsOf_append, octetsOf_spellText,
        octetsOf_cons_of_ascii (by decide)]
      exact .last (isMember_of_isText chars (isText_spell value exactValue))
  | (key, value) :: next :: others =>
      obtain ⟨⟨chars, rfl⟩, exactValue, exactRest⟩ := exact
      rw [spellMembers, Option.getD_some, octetsOf_append, octetsOf_spellText,
        octetsOf_cons_of_ascii (by decide), octetsOf_append, octetsOf_cons_of_ascii (by decide),
        ← List.cons_append, ← List.append_assoc]
      · exact .more (isMember_of_isText chars (isText_spell value exactValue))
          (areMembers_spellMembers (next :: others) exactRest)
      · simp

end

theorem isPayload_encode {json : Json} (exact : IsExact json) : IsPayload json json.encode := by
  rw [encode_eq_octetsOf]
  exact isItem_of_isText (isText_spell json exact)

/-- An exact value is read back from its written form. -/
theorem parse?_encode {json : Json} (exact : IsExact json) : parse? json.encode = some json :=
  parse?_of_isPayload (isPayload_encode exact)

end RpcEcho.Json
