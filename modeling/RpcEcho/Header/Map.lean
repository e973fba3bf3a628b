import RpcEcho.Text.Utf8

/-!
# Header maps

Names with their values, in the order in which the names came. A name stands once, with all its
values behind it, so that iterating yields the values of one name together.

* `HeaderName.parse?`, `HeaderValue.isValid`: which octets HTTP admits.
* `Headers.append`, `Headers.insert`: one more value, or one value instead of all others.
* `Headers.first?`, `Headers.toList`: the views.
-/

namespace RpcEcho

namespace HeaderName

/-- Whether an octet may stand in a name after folding case: the token characters of HTTP. -/
def isTokenOctet (octet : UInt8) : Bool :=
  Bytes.isDigit octet || Bytes.isLetter octet
    || [33, 35, 36, 37, 38, 39, 42, 43, 45, 46, 94, 95, 96, 124, 126].contains octet

/-- The longest name that HTTP libraries take, in octets. -/
def maxLength : Nat := 65535

/-- The name that octets spell, with small letters; none if they spell no name. -/
def parse? (octets : Bytes) : Option String :=
  if octets.isEmpty || maxLength < octets.length || !octets.all isTokenOctet then none
  else some (String.ofList ((Bytes.lower octets).map fun octet => Char.ofNat octet.toNat))

end HeaderName

namespace HeaderValue

/-- Whether an octet may stand in a value: anything but controls, and the tab. -/
def isValidOctet (octet : UInt8) : Bool := (32 ≤ octet && octet != 127) || octet == 9

/-- Whether octets make a value. -/
def isValid (octets : Bytes) : Bool := octets.all isValidOctet

/-- Whether an octet of a value is text: printable ASCII or a tab. -/
def isTextOctet (octet : UInt8) : Bool := (32 ≤ octet && octet < 127) || octet == 9

/-- The text of a value; a value with an octet outside printable ASCII is no text. -/
def text? (value : Bytes) : Option String :=
  if value.all isTextOctet then some (String.ofList (value.map fun octet => Char.ofNat octet.toNat))
  else none

end HeaderValue

/-- A header map: each name once, in the order of first insertion, with its values. -/
structure Headers where
  /-- The names with their values. -/
  entries : List (String × List Bytes) := []
  deriving DecidableEq, Repr, Inhabited

namespace Headers

/-- The map without names. -/
def empty : Headers := ⟨[]⟩

/-- The values of a name, in order. -/
def values (headers : Headers) (name : String) : List Bytes :=
  match headers.entries.find? fun entry => entry.1 = name with
  | some entry => entry.2
  | none => []

/-- The first value of a name. -/
def first? (headers : Headers) (name : String) : Option Bytes := (headers.values name).head?

/-- Whether a name stands in the map. -/
def contains (headers : Headers) (name : String) : Bool :=
  headers.entries.any fun entry => entry.1 = name

/-- Puts one more value behind those of its name; a new name goes to the end. -/
def append (headers : Headers) (name : String) (value : Bytes) : Headers :=
  if headers.contains name then
    ⟨headers.entries.map fun entry =>
      if entry.1 = name then (entry.1, entry.2 ++ [value]) else entry⟩
  else ⟨headers.entries ++ [(name, [value])]⟩

/-- Makes a value the only one of its name; a name that was there keeps its place. -/
def insert (headers : Headers) (name : String) (value : Bytes) : Headers :=
  if headers.contains name then
    ⟨headers.entries.map fun entry => if entry.1 = name then (entry.1, [value]) else entry⟩
  else ⟨headers.entries ++ [(name, [value])]⟩

/-- The pairs of name and value, those of one name together. -/
def toList (headers : Headers) : List (String × Bytes) :=
  headers.entries.flatMap fun entry => entry.2.map fun value => (entry.1, value)

/-- The map that appending the pairs in order gives. -/
def ofList (pairs : List (String × Bytes)) : Headers :=
  pairs.foldl (fun headers pair => headers.append pair.1 pair.2) empty

/-- The text of the first value of a name. -/
def firstText? (headers : Headers) (name : String) : Option String :=
  (headers.first? name).bind HeaderValue.text?

end Headers

end RpcEcho
