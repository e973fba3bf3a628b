import RpcEcho.Bytes

/-!
# UTF-8

A text and its octets. Reading is either strict, and then refuses anything that is not UTF-8, or
lenient, and then puts U+FFFD for each maximal malformed piece.

* `Utf8.encode`, `Utf8.decode?`: the octets of a text and the text of well-formed octets.
* `Utf8.step`: the first character, where a malformed piece counts as one.
* `Utf8.decodeLenient`: the text of any octets.
-/

namespace RpcEcho.Utf8

/-- The octets of a text. -/
def encode (text : String) : Bytes := text.toUTF8.data.toList

/-- The text of octets that are well-formed UTF-8. -/
def decode? (octets : Bytes) : Option String := String.fromUTF8? octets.toByteArray

/-- Whether an octet continues a character. -/
def isContinuation (octet : UInt8) : Bool := 0x80 ≤ octet && octet ≤ 0xBF

/-- The range that the second octet of a character must lie in, given the first, together with the
number of octets of the whole character. A first octet that starts no character has none. -/
def secondRange? (first : UInt8) : Option (UInt8 × UInt8 × Nat) :=
  if 0xC2 ≤ first && first ≤ 0xDF then some (0x80, 0xBF, 2)
  else if first == 0xE0 then some (0xA0, 0xBF, 3)
  else if (0xE1 ≤ first && first ≤ 0xEC) || first == 0xEE || first == 0xEF then some (0x80, 0xBF, 3)
  else if first == 0xED then some (0x80, 0x9F, 3)
  else if first == 0xF0 then some (0x90, 0xBF, 4)
  else if 0xF1 ≤ first && first ≤ 0xF3 then some (0x80, 0xBF, 4)
  else if first == 0xF4 then some (0x80, 0x8F, 4)
  else none

/-- The character that four continuation-stripped parts make. -/
def character (lead second third fourth : Nat) : Char :=
  Char.ofNat (((lead * 64 + second) * 64 + third) * 64 + fourth)

/-- The low six bits of a continuation octet. -/
def lowBits (octet : UInt8) : Nat := octet.toNat % 64

/-- One step of lenient reading: the character at the front, U+FFFD for a malformed piece, and the
octets after it. A malformed piece is the longest front that begins some character, and at least
one octet. -/
def step (first : UInt8) (rest : Bytes) : Char × Bytes :=
  if first < 0x80 then (Char.ofNat first.toNat, rest)
  else match secondRange? first with
  | none => ('\uFFFD', rest)
  | some (low, high, size) =>
    match rest with
    | [] => ('\uFFFD', [])
    | second :: rest₂ =>
      if second < low || high < second then ('\uFFFD', second :: rest₂)
      else if size = 2 then (character 0 0 (first.toNat % 32) (lowBits second), rest₂)
      else match rest₂ with
      | [] => ('\uFFFD', [])
      | third :: rest₃ =>
        if !isContinuation third then ('\uFFFD', third :: rest₃)
        else if size = 3 then
          (character 0 (first.toNat % 16) (lowBits second) (lowBits third), rest₃)
        else match rest₃ with
        | [] => ('\uFFFD', [])
        | fourth :: rest₄ =>
          if !isContinuation fourth then ('\uFFFD', fourth :: rest₄)
          else
            (character (first.toNat % 8) (lowBits second) (lowBits third) (lowBits fourth), rest₄)

theorem step_length (first : UInt8) (rest : Bytes) :
    (step first rest).2.length ≤ rest.length := by
  simp only [step]
  repeat' split
  all_goals simp_all
  all_goals omega

/-- Lenient reading onto the characters read so far, last first. -/
def lenientOnto (read : List Char) : Bytes → List Char
  | [] => read.reverse
  | first :: rest => lenientOnto ((step first rest).1 :: read) (step first rest).2
termination_by octets => octets.length
decreasing_by
  have := step_length first rest
  simp only [List.length_cons]
  omega

/-- The text of any octets: well-formed ones are read as they stand, and each maximal malformed
piece becomes one U+FFFD. -/
def decodeLenient (octets : Bytes) : String := String.ofList (lenientOnto [] octets)

end RpcEcho.Utf8
