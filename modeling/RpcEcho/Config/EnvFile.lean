import RpcEcho.Text.Alphanumeric
import RpcEcho.Text.Blank
import RpcEcho.Text.Utf8

/-!
# Files of variables

A file of lines `NAME=value`. A value is made of bare text, of text between single quotes, which
stands for itself, and of text between double quotes. Outside single quotes a backslash escapes, and
`$NAME` stands for the value of another variable. Quoted text may span lines.

* `EnvFile.scan`: whether a line ends where it ends, or goes on in the next one.
* `EnvFile.value`: the value that is spelled behind an equals sign.
* `EnvFile.entryOf?`: the name and the value of a line.
* `EnvFile.parse`: the entries of a file, or its first fault.
-/

namespace RpcEcho.EnvFile

/-! ## Faults -/

/-- What can be wrong with a file. -/
inductive Error where
  /-- A line, or the value in it, cannot be read beyond a position. -/
  | line (content : String) (position : Nat)
  /-- A line is no UTF-8. -/
  | notUtf8
  deriving DecidableEq, Repr

namespace Error

/-- The words for a fault. -/
def message : Error → String
  | line content position =>
    "Error parsing line: '" ++ content ++ "', error at line index: " ++ position.repr
  | notUtf8 => "stream did not contain valid UTF-8"

end Error

/-! ## Lines -/

/-- What is open after some characters of a line. -/
inductive Openness where
  /-- Nothing. -/
  | nothing
  /-- A bare blank, behind which a comment may begin. -/
  | blank
  | escape
  | single
  | singleEscape
  | double
  | doubleEscape
  deriving DecidableEq, Repr

namespace Openness

/-- What is open behind a character of bare text. -/
def ofBare (c : Char) : Openness :=
  if c = '\\' then escape
  else if c = '"' then double
  else if c = '\'' then single
  else nothing

/-- What is open behind one more character. -/
def step (openness : Openness) (c : Char) : Openness :=
  match openness with
  | nothing => if Text.isBlank c && c != '\n' && c != '\r' then blank else ofBare c
  | blank => ofBare c
  | escape => nothing
  | single => if c = '\\' then singleEscape else if c = '\'' then nothing else single
  | singleEscape => single
  | double => if c = '\\' then doubleEscape else if c = '"' then nothing else double
  | doubleEscape => double

end Openness

/-- A line, last character first, without the line end behind it. -/
def withoutLineEnd (reversed : List Char) : List Char :=
  match reversed with
  | '\n' :: '\r' :: rest => rest
  | '\n' :: rest => rest
  | _ => reversed

/-- How far a line goes. -/
inductive Extent where
  /-- It ends here. These are its characters, last first. -/
  | complete (reversed : List Char)
  /-- It goes on in the next line of the file. These are its characters so far, last first. -/
  | incomplete (openness : Openness) (reversed : List Char)
  deriving DecidableEq, Repr

/-- Follows what is open through the characters of a line, behind those already passed, last
first. The line ends before a comment, and at its line end unless something is open there. -/
def scan (openness : Openness) (reversed : List Char) : List Char → Extent
  | [] =>
    if openness = .nothing then .complete (withoutLineEnd reversed)
    else .incomplete openness reversed
  | c :: rest =>
    if openness = .blank && c = '#' then .complete reversed
    else scan (openness.step c) (c :: reversed) rest

/-- Whether a line is nothing but a comment. -/
def isComment (line : List Char) : Bool := (line.dropWhile Text.isBlank).head? = some '#'

/-- Cuts octets behind each line feed, onto the lines and the part of a line read so far, last
first. -/
def linesOnto (lines : List Bytes) (current : Bytes) : Bytes → List Bytes
  | [] => (if current.isEmpty then lines else current.reverse :: lines).reverse
  | octet :: rest =>
    if octet = 10 then linesOnto ((octet :: current).reverse :: lines) [] rest
    else linesOnto lines (octet :: current) rest

/-! ## Values -/

/-- The values that names stand for. -/
abbrev Lookup := String → Option String

/-- What the next character of a value belongs to. -/
inductive Part where
  | bare
  | single
  | double
  /-- The name behind a dollar sign, last character first. -/
  | name (inDouble : Bool) (reversed : List Char)
  /-- The name in braces behind a dollar sign, last character first. -/
  | braced (inDouble : Bool) (reversed : List Char)
  /-- The character behind a backslash. -/
  | escaped (inDouble : Bool)
  /-- What stands behind the value. -/
  | behind
  deriving DecidableEq, Repr

/-- Bare text, or text in double quotes. -/
def Part.text (inDouble : Bool) : Part := if inDouble then .double else .bare

/-- The characters that a name stands for, last first. -/
def substitute (lookup : Lookup) (reversedName : List Char) : List Char :=
  (((lookup (String.ofList reversedName.reverse)).getD "").toList).reverse

/-- The character that an escaped character stands for. -/
def unescape? (c : Char) : Option Char :=
  if c = 'n' then some '\n'
  else if ['\\', '\'', '"', '$', ' '].contains c then some c
  else none

/-- What a character of a value does: to what the next one belongs, and the value so far, last
character first. None if the character may not stand there. -/
def valueStep (lookup : Lookup) (part : Part) (read : List Char) (c : Char) :
    Option (Part × List Char) :=
  match part with
  | .behind => if c = ' ' || c = '\t' then some (.behind, read) else none
  | .escaped inDouble => (unescape? c).map fun meant => (Part.text inDouble, meant :: read)
  | .single => if c = '\'' then some (.bare, read) else some (.single, c :: read)
  | .name inDouble reversed =>
    if Text.isAlphanumeric c then some (.name inDouble (c :: reversed), read)
    else if c = '\x7b' && reversed.isEmpty then some (.braced inDouble [], read)
    else
      let read := substitute lookup reversed ++ read
      if c = '$' then some (.name inDouble [], read) else some (Part.text inDouble, c :: read)
  | .braced inDouble reversed =>
    if c = '\x7d' then some (Part.text inDouble, substitute lookup reversed ++ read)
    else some (.braced inDouble (c :: reversed), read)
  | .double =>
    if c = '$' then some (.name true [], read)
    else if c = '"' then some (.bare, read)
    else if c = '\\' then some (.escaped true, read)
    else some (.double, c :: read)
  | .bare =>
    if c = '$' then some (.name false [], read)
    else if c = '\'' then some (.single, read)
    else if c = '"' then some (.double, read)
    else if c = '\\' then some (.escaped false, read)
    else if c = ' ' || c = '\t' then some (.behind, read)
    else some (.bare, c :: read)

/-- The value so far, last character first, if it may end here. -/
def valueEnd? (lookup : Lookup) (part : Part) (read : List Char) : Option (List Char) :=
  match part with
  | .bare | .behind | .escaped false => some read
  | .name false reversed => some (substitute lookup reversed ++ read)
  | .single | .double | .braced _ _ | .escaped true | .name true _ => none

/-- The value that characters spell. A fault is the position at which they cannot be read further;
when something stays open, that is the last octet. -/
def valueFrom (lookup : Lookup) (size : Nat) (part : Part) (read : List Char) (position : Nat) :
    List Char → Except Nat String
  | [] =>
    match valueEnd? lookup part read with
    | some reversed => .ok (String.ofList reversed.reverse)
    | none => .error (size - 1)
  | c :: rest =>
    if part = .behind && c = '#' then .ok (String.ofList read.reverse)
    else match valueStep lookup part read c with
      | some (next, longer) => valueFrom lookup size next longer (position + 1) rest
      | none => .error position

/-- How many octets characters take. -/
def octetCount (chars : List Char) : Nat := chars.foldl (fun count c => count + c.utf8Size) 0

/-- The value that is spelled behind an equals sign. -/
def value (lookup : Lookup) (chars : List Char) : Except Error String :=
  match valueFrom lookup (octetCount chars) .bare [] 0 chars with
  | .ok text => .ok text
  | .error position => .error (.line (String.ofList chars) position)

/-! ## Entries -/

/-- Characters that are still to be read, and how many octets were read before them. -/
structure Cursor where
  rest : List Char
  position : Nat

namespace Cursor

/-- Passes over the characters at the front that have a property. -/
def skip (cursor : Cursor) (property : Char → Bool) : Cursor where
  rest := cursor.rest.dropWhile property
  position := cursor.position + octetCount (cursor.rest.takeWhile property)

/-- Passes over blanks. -/
def skipBlanks (cursor : Cursor) : Cursor := cursor.skip Text.isBlank

end Cursor

/-- Whether a character may begin a name. -/
def isNameStart (c : Char) : Bool := c.isAlpha || c == '_'

/-- Whether a character may stand in a name. -/
def isNameChar (c : Char) : Bool := c.isAlphanum || c == '_' || c == '.'

/-- A name at the front, and what stands behind it and the blanks after it. A fault is a
position. -/
def name (cursor : Cursor) : Except Nat (String × Cursor) :=
  match cursor.rest with
  | [] => .error cursor.position
  | c :: _ =>
    if isNameStart c then
      .ok (String.ofList (cursor.rest.takeWhile isNameChar), (cursor.skip isNameChar).skipBlanks)
    else .error cursor.position

/-- What stands behind an equals sign at the front. A fault is a position. -/
def behindEquals (cursor : Cursor) : Except Nat Cursor :=
  match cursor.rest with
  | '=' :: rest => .ok ⟨rest, cursor.position + 1⟩
  | _ => .error cursor.position

/-- The name of a line and what stands behind its equals sign. The word `export` may stand before
the name, unless it is the name. A fault is a position. -/
def nameOfLine (cursor : Cursor) : Except Nat (String × Cursor) :=
  match name cursor with
  | .error position => .error position
  | .ok (word, behind) =>
    match behindEquals behind with
    | .ok value => .ok (word, value)
    | .error position =>
      if word = "export" then
        match name behind with
        | .error position => .error position
        | .ok (word, behind) => (behindEquals behind).map fun value => (word, value)
      else .error position

/-- Whether nothing, or a comment, stands at the front. -/
def isVoid (chars : List Char) : Bool :=
  match chars with
  | [] => true
  | c :: _ => c == '#'

/-- The entry of a line; an empty line and a comment have none. -/
def entryOf? (lookup : Lookup) (line : List Char) : Except Error (Option (String × String)) :=
  let start := (Cursor.mk (Text.trimEndChars line) 0).skipBlanks
  if isVoid start.rest then .ok none
  else match nameOfLine start with
    | .error position => .error (.line (String.ofList line) position)
    | .ok (name, behind) =>
      let spelled := behind.skipBlanks.rest
      if isVoid spelled then .ok (some (name, ""))
      else (value lookup spelled).map fun text => some (name, text)

/-! ## Files -/

/-- What a name in a value stands for: the variable that is set outside the file, else the last
entry of the name. The entries stand last first. -/
def known (outside : Lookup) (reversed : List (String × String)) : Lookup := fun name =>
  match outside name with
  | some value => some value
  | none => (reversed.find? fun entry => entry.1 = name).map Prod.snd

/-- The entries of lines, last first, behind the entries and the characters of an incomplete line
read so far, which stand last first too. -/
def parseLines (outside : Lookup) (entries : List (String × String)) (openness : Openness)
    (before : List Char) : List Bytes → Except Error (List (String × String))
  | [] =>
    if openness = .nothing then .ok entries
    else .error (.line (String.ofList before.reverse) (octetCount before))
  | octets :: rest =>
    match Utf8.decode? octets with
    | none => .error .notUtf8
    | some text =>
      if before.isEmpty && isComment text.toList then parseLines outside entries .nothing [] rest
      else match scan openness before text.toList with
        | .incomplete openness before => parseLines outside entries openness before rest
        | .complete line =>
          match entryOf? (known outside entries) line.reverse with
          | .ok entry => parseLines outside (entry.toList ++ entries) .nothing [] rest
          | .error error => .error error

/-- The entries of a file, last first, given the variables that are set outside it. -/
def parse (outside : Lookup) (octets : Bytes) : Except Error (List (String × String)) :=
  parseLines outside [] .nothing [] (linesOnto [] [] octets)

end RpcEcho.EnvFile
