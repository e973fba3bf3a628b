import RpcEcho.Json.Token

/-!
# The grammar of JSON texts

Which octets are a text of a JSON value. A string may hold each character as it is, escaped by one
letter, or by its code units; numbers may have a fraction and an exponent; blanks may stand between
all tokens. A value has many texts.

* `Json.IsBody`: what may stand between the quotes of a string.
* `Json.IsNumeral`: numbers.
* `Json.IsText`: texts of a value, without blanks around them.
* `Json.IsPayload`: texts of a value, with blanks around them.
-/

namespace RpcEcho.Json

/-! ## Strings -/

/-- The small hexadecimal digit of a value below sixteen. -/
def hexOctet (digit : Nat) : UInt8 := UInt8.ofNat (Nat.digitChar digit).toNat

/-- A hexadecimal digit, small or capital. -/
structure IsHexDigit (value : Nat) (octet : UInt8) : Prop where
  small : value < 16
  spells : octet = hexOctet value ∨ octet = Bytes.upperHexDigit value

/-- Four hexadecimal digits spell a code unit. -/
inductive IsUnit : Nat → Bytes → Prop
  | digits {a b c d : Nat} {first second third fourth : UInt8} (isFirst : IsHexDigit a first)
      (isSecond : IsHexDigit b second) (isThird : IsHexDigit c third)
      (isFourth : IsHexDigit d fourth) :
      IsUnit (((a * 16 + b) * 16 + c) * 16 + d) [first, second, third, fourth]

/-- The octets of an escape by number. -/
def unitEscape (digits : Bytes) : Bytes := 92 :: 117 :: digits

/-- A code unit that begins a pair. -/
def IsHigh (unit : Nat) : Prop := 0xD800 ≤ unit ∧ unit ≤ 0xDBFF

/-- A code unit that ends a pair. -/
def IsLow (unit : Nat) : Prop := 0xDC00 ≤ unit ∧ unit ≤ 0xDFFF

/-- The letters that escape one character each. -/
def shortEscapes : List (UInt8 × Char) :=
  [(34, '"'), (92, '\\'), (47, '/'), (98, '\x08'), (102, '\x0c'), (110, '\n'), (114, '\r'),
    (116, '\t')]

/-- The ways to write a character of a string. -/
inductive IsCharacter (c : Char) : Bytes → Prop
  | plain (noQuote : c ≠ '"') (noBackslash : c ≠ '\\') (noControl : 0x20 ≤ c.toNat) :
      IsCharacter c (String.utf8EncodeChar c)
  | short {letter : UInt8} (escapes : (letter, c) ∈ shortEscapes) : IsCharacter c [92, letter]
  | unit {digits : Bytes} (isUnit : IsUnit c.toNat digits) : IsCharacter c (unitEscape digits)
  | pair {high low : Nat} {first second : Bytes} (isHigh : IsHigh high) (isLow : IsLow low)
      (value : c.toNat = 0x10000 + (high - 0xD800) * 0x400 + (low - 0xDC00))
      (isFirst : IsUnit high first) (isSecond : IsUnit low second) :
      IsCharacter c (unitEscape first ++ unitEscape second)

/-- A code unit is half of a pair, and what stands behind it does not complete the pair. -/
def IsAlone (unit : Nat) (rest : Bytes) : Prop :=
  IsLow unit ∨ IsHigh unit ∧
    ∀ low digits after, IsLow low → IsUnit low digits → rest ≠ unitEscape digits ++ after

/-- What stands between the quotes of a string, and its characters. A string with half of a pair
alone in it is no text. -/
inductive IsBody : Bytes → Option (List Char) → Prop
  | nil : IsBody [] (some [])
  | character {c : Char} {octets rest : Bytes} {chars : Option (List Char)}
      (isCharacter : IsCharacter c octets) (isBody : IsBody rest chars) :
      IsBody (octets ++ rest) (chars.map (c :: ·))
  | alone {unit : Nat} {digits rest : Bytes} {chars : Option (List Char)}
      (isUnit : IsUnit unit digits) (isAlone : IsAlone unit rest) (isBody : IsBody rest chars) :
      IsBody (unitEscape digits ++ rest) none

/-- A string in its quotes. -/
inductive IsQuoted (text : Option String) : Bytes → Prop
  | quotes {body : Bytes} {chars : Option (List Char)} (isBody : IsBody body chars)
      (same : text = chars.map String.ofList) : IsQuoted text (34 :: (body ++ [34]))

/-! ## Numbers -/

/-- One or more decimal digits. -/
structure AreDigits (octets : Bytes) : Prop where
  notEmpty : octets ≠ []
  each : ∀ octet ∈ octets, Bytes.isDigit octet = true

/-- The digits of a whole number: only zero begins with a zero. -/
structure IsWhole (digits : Bytes) : Prop where
  areDigits : AreDigits digits
  noZero : digits.head? = some 48 → digits = [48]

/-- A fraction, or none. -/
inductive IsFraction : Bytes → Prop
  | absent : IsFraction []
  | point {digits : Bytes} (areDigits : AreDigits digits) : IsFraction (46 :: digits)

/-- An exponent, or none. -/
inductive IsExponent : Bytes → Prop
  | absent : IsExponent []
  | mark {letter : UInt8} {sign digits : Bytes} (isLetter : letter = 101 ∨ letter = 69)
      (isSign : sign = [] ∨ sign = [43] ∨ sign = [45]) (areDigits : AreDigits digits) :
      IsExponent (letter :: (sign ++ digits))

/-- A number, and its value if it is written as a whole number of at most twenty digits other than
`-0`. -/
inductive IsNumeral : Option Int → Bytes → Prop
  | whole {digits : Bytes} (isWhole : IsWhole digits) (short : digits.length ≤ mostDigits) :
      IsNumeral (some (digitsValue digits)) digits
  | negative {digits : Bytes} (isWhole : IsWhole digits) (short : digits.length ≤ mostDigits)
      (notZero : digits ≠ [48]) : IsNumeral (some (-(digitsValue digits : Int))) (45 :: digits)
  | other {sign digits fraction exponent : Bytes} (isSign : sign = [] ∨ sign = [45])
      (isWhole : IsWhole digits) (isFraction : IsFraction fraction)
      (isExponent : IsExponent exponent)
      (noValue : fraction ≠ [] ∨ exponent ≠ [] ∨ mostDigits < digits.length ∨
        sign = [45] ∧ digits = [48]) :
      IsNumeral none (sign ++ (digits ++ (fraction ++ exponent)))

/-! ## Values -/

/-- Blanks, perhaps none. -/
def AreBlanks (octets : Bytes) : Prop := ∀ octet ∈ octets, isSpace octet = true

instance : DecidablePred AreBlanks := fun octets => List.decidableBAll _ octets

mutual

/-- Some octets are a text of a value. -/
inductive IsText : Json → Bytes → Prop
  | null : IsText .null [110, 117, 108, 108]
  | true : IsText (.bool true) [116, 114, 117, 101]
  | false : IsText (.bool false) [102, 97, 108, 115, 101]
  | number {value : Option Int} {octets : Bytes} (isNumeral : IsNumeral value octets) :
      IsText (.number value) octets
  | string {text : Option String} {octets : Bytes} (isQuoted : IsQuoted text octets) :
      IsText (.string text) octets
  | array {items : List Json} {inside : Bytes} (areItems : AreItems items inside) :
      IsText (.array items) (91 :: (inside ++ [93]))
  | object {members : List (Option String × Json)} {inside : Bytes}
      (areMembers : AreMembers members inside) : IsText (.object members) (123 :: (inside ++ [125]))

/-- What stands between the brackets of an array: items with commas between them. -/
inductive AreItems : List Json → Bytes → Prop
  | none {blank : Bytes} (areBlanks : AreBlanks blank) : AreItems [] blank
  | last {item : Json} {text : Bytes} (isItem : IsItem item text) : AreItems [item] text
  | more {item next : Json} {items : List Json} {text others : Bytes} (isItem : IsItem item text)
      (areItems : AreItems (next :: items) others) :
      AreItems (item :: next :: items) (text ++ 44 :: others)

/-- What stands between the braces of an object: members with commas between them. -/
inductive AreMembers : List (Option String × Json) → Bytes → Prop
  | none {blank : Bytes} (areBlanks : AreBlanks blank) : AreMembers [] blank
  | last {member : Option String × Json} {text : Bytes} (isMember : IsMember member text) :
      AreMembers [member] text
  | more {member next : Option String × Json} {members : List (Option String × Json)}
      {text others : Bytes} (isMember : IsMember member text)
      (areMembers : AreMembers (next :: members) others) :
      AreMembers (member :: next :: members) (text ++ 44 :: others)

/-- A value with blanks around it. -/
inductive IsItem : Json → Bytes → Prop
  | between {json : Json} {before text after : Bytes} (blanksBefore : AreBlanks before)
      (isText : IsText json text) (blanksAfter : AreBlanks after) :
      IsItem json (before ++ (text ++ after))

/-- A key, a colon and a value, with blanks around all of them. -/
inductive IsMember : Option String × Json → Bytes → Prop
  | colon {key : Option String} {json : Json} {before name after value : Bytes}
      (blanksBefore : AreBlanks before) (isQuoted : IsQuoted key name)
      (blanksAfter : AreBlanks after) (isItem : IsItem json value) :
      IsMember (key, json) (before ++ (name ++ (after ++ 58 :: value)))

end

/-- Some octets are a text of a value, perhaps with blanks around it. -/
abbrev IsPayload (json : Json) (octets : Bytes) : Prop := IsItem json octets

end RpcEcho.Json
