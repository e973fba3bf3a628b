/-!
# Byte sequences

Wire data is a list of octets, so that statements about framing and coding are statements about
lists. The module holds the few operations on octets that more than one format needs:

* big-endian words of four octets,
* the case fold, the digits and the blanks of ASCII,
* hexadecimal digits in either case,
* cutting a sequence at a length, which fails when the sequence is too short.
-/

namespace RpcEcho

/-- A sequence of octets. -/
abbrev Bytes := List UInt8

namespace Bytes

/-! ## Words of four octets -/

/-- The four octets of `value` modulo `2 ^ 32`, most significant first. -/
def ofWord (value : Nat) : Bytes :=
  [UInt8.ofNat (value / 16777216), UInt8.ofNat (value / 65536), UInt8.ofNat (value / 256),
    UInt8.ofNat value]

/-- The number that four octets denote, most significant first. -/
def wordOf (first second third fourth : UInt8) : Nat :=
  ((first.toNat * 256 + second.toNat) * 256 + third.toNat) * 256 + fourth.toNat

/-! ## ASCII -/

/-- Whether an octet is an ASCII decimal digit. -/
def isDigit (octet : UInt8) : Bool := 48 ≤ octet && octet ≤ 57

/-- Whether an octet is an ASCII letter. -/
def isLetter (octet : UInt8) : Bool := (65 ≤ octet && octet ≤ 90) || (97 ≤ octet && octet ≤ 122)

/-- An ASCII capital becomes the small letter; every other octet stays. -/
def lowerOctet (octet : UInt8) : UInt8 := if 65 ≤ octet && octet ≤ 90 then octet + 32 else octet

/-- The ASCII case fold of a sequence. -/
def lower (octets : Bytes) : Bytes := octets.map lowerOctet

/-- The blanks of ASCII: space, tab, line feed, form feed and carriage return. -/
def isBlank (octet : UInt8) : Bool :=
  octet == 32 || octet == 9 || octet == 10 || octet == 12 || octet == 13

/-- Drops the ASCII blanks at both ends. -/
def trim (octets : Bytes) : Bytes :=
  ((octets.dropWhile isBlank).reverse.dropWhile isBlank).reverse

/-- The octets of an ASCII text, one octet a character. -/
def ofAscii (text : String) : Bytes := text.toList.map fun c => UInt8.ofNat c.toNat

/-! ## Hexadecimal digits -/

/-- The value of a hexadecimal digit, in either case. -/
def hexValue? (octet : UInt8) : Option Nat :=
  if 48 ≤ octet && octet ≤ 57 then some (octet.toNat - 48)
  else if 65 ≤ octet && octet ≤ 70 then some (octet.toNat - 55)
  else if 97 ≤ octet && octet ≤ 102 then some (octet.toNat - 87)
  else none

/-- The capital hexadecimal digit of a value below sixteen. -/
def upperHexDigit (value : Nat) : UInt8 :=
  if value < 10 then UInt8.ofNat (48 + value) else UInt8.ofNat (55 + value)

/-! ## Cutting -/

/-- The first `count` octets and the rest, where there are that many. -/
def splitAt? (count : Nat) (octets : Bytes) : Option (Bytes × Bytes) :=
  let (front, rest) := octets.splitAt count
  if front.length = count then some (front, rest) else none

theorem splitAt?_eq_some {count : Nat} {octets front rest : Bytes}
    (cut : splitAt? count octets = some (front, rest)) :
    octets = front ++ rest ∧ front.length = count := by
  simp only [splitAt?, List.splitAt_eq] at cut
  split at cut
  · simp only [Option.some.injEq, Prod.mk.injEq] at cut
    obtain ⟨rfl, rfl⟩ := cut
    exact ⟨(List.take_append_drop count octets).symm, by assumption⟩
  · cases cut

theorem splitAt?_append (front rest : Bytes) :
    splitAt? front.length (front ++ rest) = some (front, rest) := by
  simp [splitAt?, List.splitAt_eq]

end Bytes

end RpcEcho
