import RpcEcho.Text.Utf8

/-!
# JSON values

JSON as far as messages need it. Messages hold whole numbers and texts only, so a number written
with a fraction, an exponent or very many digits, and a string whose escapes or octets make no text,
keep nothing but their kind: they may stand where nobody looks at them.

* `Json`: the values.
* `Json.ofMembers`: an object with its members in the order of their keys.
* `Json.spell`, `Json.write`: the compact written form, as characters and as a text.
-/

namespace RpcEcho

/-- A JSON value. -/
inductive Json where
  | null
  | bool (value : Bool)
  /-- A number, with its value if it is written as a whole number of at most twenty digits other
  than `-0`. -/
  | number (value : Option Int)
  /-- A string, with its text if it has one. -/
  | string (text : Option String)
  | array (items : List Json)
  /-- An object, with its members in order; a key may be a string without a text. -/
  | object (members : List (Option String × Json))
  deriving Inhabited, Repr

namespace Json

/-- The string of a text. -/
def ofText (text : String) : Json := .string (some text)

/-- A whole number. -/
def ofInt (value : Int) : Json := .number (some value)

/-- An object with its members in the order of their keys. A writer of messages may as well keep the
order in which the fields are declared; sorting is a choice of the model, which makes the written
text independent of that order. Readers look members up by key, so they tell the same of both. -/
def ofMembers (members : List (String × Json)) : Json :=
  .object ((members.mergeSort fun first second => decide (first.1 ≤ second.1)).map
    fun entry => (some entry.1, entry.2))

/-- The written form of one character of a string. -/
def escape (c : Char) : List Char :=
  if c = '"' then ['\\', '"']
  else if c = '\\' then ['\\', '\\']
  else if c = '\x08' then ['\\', 'b']
  else if c = '\x0c' then ['\\', 'f']
  else if c = '\n' then ['\\', 'n']
  else if c = '\r' then ['\\', 'r']
  else if c = '\t' then ['\\', 't']
  else if c.toNat < 0x20 then
    ['\\', 'u', '0', '0', Nat.digitChar (c.toNat / 16), Nat.digitChar (c.toNat % 16)]
  else [c]

/-- The written form of a string. -/
def spellText (text : String) : List Char := '"' :: (text.toList.flatMap escape ++ ['"'])

mutual

/-- The characters of the compact written form. -/
def spell : Json → List Char
  | .null => ['n', 'u', 'l', 'l']
  | .bool true => ['t', 'r', 'u', 'e']
  | .bool false => ['f', 'a', 'l', 's', 'e']
  | .number value => (value.getD 0).repr.toList
  | .string text => spellText (text.getD "")
  | .array items => '[' :: (spellItems items ++ [']'])
  | .object members => '\x7b' :: (spellMembers members ++ ['\x7d'])

/-- Items with commas between them. -/
def spellItems : List Json → List Char
  | [] => []
  | [item] => spell item
  | item :: rest => spell item ++ ',' :: spellItems rest

/-- Members with commas between them. -/
def spellMembers : List (Option String × Json) → List Char
  | [] => []
  | [(key, value)] => spellText (key.getD "") ++ ':' :: spell value
  | (key, value) :: rest =>
    spellText (key.getD "") ++ ':' :: (spell value ++ ',' :: spellMembers rest)

end

/-- The compact written form. -/
def write (json : Json) : String := String.ofList json.spell

/-- The octets of the written form. -/
def encode (json : Json) : Bytes := Utf8.encode json.write

end Json

end RpcEcho
