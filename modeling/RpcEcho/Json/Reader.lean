import RpcEcho.Json.Token

/-!
# Reading JSON

A value from tokens, by a machine with a stack of the arrays and objects that are still open. It
takes one token at a time, so a value may nest to any depth.

* `Json.Reader.step`: what one token does.
* `Json.parse?`: the value that octets spell, if they spell one and nothing else.
-/

namespace RpcEcho.Json

/-- An array or object that is still open, with what it holds so far, last first. -/
inductive Frame where
  | array (items : List Json)
  | object (members : List (Option String × Json))
  /-- An object that waits for the value of a key. -/
  | member (key : Option String) (members : List (Option String × Json))

/-- What may come next. -/
inductive Expected where
  /-- A value. -/
  | value
  /-- A value or the end of the array that was just opened. -/
  | firstItem
  /-- A key or the end of the object that was just opened. -/
  | firstKey
  /-- A key. -/
  | key
  /-- The colon behind a key. -/
  | colon (key : Option String)
  /-- A comma, or the end of what is open. -/
  | separator
  /-- Nothing: the value is complete. -/
  | nothing (value : Json)

/-- The state of the machine. -/
structure Reader where
  expected : Expected
  frames : List Frame

namespace Reader

/-- The machine before the first token. -/
def start : Reader := ⟨.value, []⟩

/-- Puts a complete value where it belongs. -/
def settle (value : Json) : List Frame → Option Reader
  | [] => some ⟨.nothing value, []⟩
  | .array items :: frames => some ⟨.separator, .array (value :: items) :: frames⟩
  | .member key members :: frames =>
    some ⟨.separator, .object ((key, value) :: members) :: frames⟩
  | .object _ :: _ => none

/-- A value begins. -/
def beginValue (frames : List Frame) : Token → Option Reader
  | .openArray => some ⟨.firstItem, .array [] :: frames⟩
  | .openObject => some ⟨.firstKey, .object [] :: frames⟩
  | .text content => settle (.string content) frames
  | .atom value => settle value frames
  | .closeArray | .closeObject | .comma | .colon => none

/-- The innermost array or object ends. -/
def close : Token → List Frame → Option Reader
  | .closeArray, .array items :: frames => settle (.array items.reverse) frames
  | .closeObject, .object members :: frames => settle (.object members.reverse) frames
  | _, _ => none

/-- What one token does; none if it may not come here. -/
def step (reader : Reader) (token : Token) : Option Reader :=
  match reader.expected, token, reader.frames with
  | .value, token, frames => beginValue frames token
  | .firstItem, .closeArray, frames => close .closeArray frames
  | .firstItem, token, frames => beginValue frames token
  | .firstKey, .closeObject, frames => close .closeObject frames
  | .firstKey, .text key, frames => some ⟨.colon key, frames⟩
  | .key, .text key, frames => some ⟨.colon key, frames⟩
  | .colon key, .colon, .object members :: frames => some ⟨.value, .member key members :: frames⟩
  | .separator, .comma, .array items :: frames => some ⟨.value, .array items :: frames⟩
  | .separator, .comma, .object members :: frames => some ⟨.key, .object members :: frames⟩
  | .separator, token, frames => close token frames
  | _, _, _ => none

/-- Takes all tokens. -/
def run (reader : Reader) : List Token → Option Reader
  | [] => some reader
  | token :: rest => (reader.step token).bind fun next => next.run rest

/-- The value, once it is complete. -/
def value? (reader : Reader) : Option Json :=
  match reader.expected with
  | .nothing value => some value
  | _ => none

end Reader

/-- The value that tokens make. -/
def ofTokens? (tokens : List Token) : Option Json := (Reader.start.run tokens).bind Reader.value?

/-- The value that octets spell. -/
def parse? (octets : Bytes) : Option Json := (tokens? octets).bind ofTokens?

end RpcEcho.Json
