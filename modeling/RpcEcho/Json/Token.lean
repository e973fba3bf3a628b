import RpcEcho.Json.Basic

/-!
# Tokens of JSON

Octets cut into tokens. White space between tokens is dropped; escapes in strings are undone, and
the shape of every token is checked, whether or not somebody will look at its content.

* `Json.unescape?`: the content of a string token, if its escapes are well formed.
* `Json.number?`: the longest number at the front.
* `Json.tokens?`: all tokens.
-/

namespace RpcEcho.Json

/-- The tokens of JSON. -/
inductive Token where
  | openArray
  | closeArray
  | openObject
  | closeObject
  | comma
  | colon
  /-- A string, with its text if it has one. -/
  | text (content : Option String)
  /-- A value that is one token and no string. -/
  | atom (value : Json)
  deriving Repr

/-- Whether an octet may stand between tokens. -/
def isSpace (octet : UInt8) : Bool := octet == 32 || octet == 9 || octet == 10 || octet == 13

/-! ## Strings -/

/-- The octets from behind an opening quote to its closing quote, and those after it. Escapes stay
as they are; control characters are refused. -/
def rawStringOnto (read : Bytes) : Bytes → Option (Bytes × Bytes)
  | [] => none
  | 34 :: rest => some (read.reverse, rest)
  | 92 :: escaped :: rest => rawStringOnto (escaped :: 92 :: read) rest
  | octet :: rest => if octet < 32 then none else rawStringOnto (octet :: read) rest

/-- The number that four hexadecimal digits spell. -/
def hexWord? (first second third fourth : UInt8) : Option Nat :=
  match Bytes.hexValue? first, Bytes.hexValue? second, Bytes.hexValue? third,
    Bytes.hexValue? fourth with
  | some a, some b, some c, some d => some (((a * 16 + b) * 16 + c) * 16 + d)
  | _, _, _, _ => none

/-- The octet that a short escape stands for. -/
def shortEscape? (escaped : UInt8) : Option UInt8 :=
  if escaped == 34 || escaped == 92 || escaped == 47 then some escaped
  else if escaped == 98 then some 8
  else if escaped == 102 then some 12
  else if escaped == 110 then some 10
  else if escaped == 114 then some 13
  else if escaped == 116 then some 9
  else none

/-- The octets of a code point, last first. -/
def reversedOctets (codePoint : Nat) : Bytes :=
  (String.utf8EncodeChar (Char.ofNat codePoint)).reverse

/-- What the escape of a code unit, and the octets behind it, come to: the octets of a character,
last first, or none for half of a pair alone; and the octets after it. -/
def unitOctets (unit : Nat) (rest : Bytes) : Option Bytes × Bytes :=
  if 0xDC00 ≤ unit && unit ≤ 0xDFFF then (none, rest)
  else if 0xD800 ≤ unit && unit ≤ 0xDBFF then
    match rest with
    | 92 :: 117 :: a :: b :: c :: d :: after =>
      match hexWord? a b c d with
      | some low =>
        if 0xDC00 ≤ low && low ≤ 0xDFFF then
          (some (reversedOctets (0x10000 + (unit - 0xD800) * 0x400 + (low - 0xDC00))), after)
        else (none, rest)
      | none => (none, rest)
    | _ => (none, rest)
  else (some (reversedOctets unit), rest)

theorem unitOctets_length (unit : Nat) (rest : Bytes) :
    (unitOctets unit rest).2.length ≤ rest.length := by
  simp only [unitOctets]
  repeat' split
  all_goals simp_all
  all_goals omega

/-- Undoes the escapes of a raw string, onto the octets read so far, last first. The outer option
is empty if an escape is malformed; the inner one if half of a pair stands alone. -/
def unescapeOnto (read : Option Bytes) : Bytes → Option (Option Bytes)
  | [] => some (read.map List.reverse)
  | 92 :: 117 :: a :: b :: c :: d :: rest =>
    match hexWord? a b c d with
    | none => none
    | some unit =>
      unescapeOnto ((unitOctets unit rest).1.bind fun octets => read.map (octets ++ ·))
        (unitOctets unit rest).2
  | 92 :: escaped :: rest =>
    match shortEscape? escaped with
    | none => none
    | some octet => unescapeOnto (read.map (octet :: ·)) rest
  | [92] => none
  | octet :: rest => unescapeOnto (read.map (octet :: ·)) rest
termination_by octets => octets.length
decreasing_by
  · have shorter := unitOctets_length unit rest
    simp only [List.length_cons]
    omega
  · simp only [List.length_cons]
    omega
  · simp

/-- The text of a raw string; the outer option is empty if an escape is malformed, the inner one if
there is no text. -/
def unescape? (raw : Bytes) : Option (Option String) :=
  (unescapeOnto (some []) raw).map fun octets => octets.bind Utf8.decode?

/-! ## Numbers -/

/-- The number that decimal digits spell. -/
def digitsValue (digits : Bytes) : Nat :=
  digits.foldl (fun value digit => value * 10 + (digit.toNat - 48)) 0

/-- The most digits of a whole number that keeps its value. -/
def mostDigits : Nat := 20

/-- The value of a whole number with the given digits, unless they are too many. -/
def wholeValue? (digits : Bytes) : Option Nat :=
  if mostDigits < digits.length then none else some (digitsValue digits)

/-- The fraction at the front, if there is one: whether there was, and the octets after it. -/
def fraction? : Bytes → Option (Bool × Bytes)
  | 46 :: rest =>
    if (rest.takeWhile Bytes.isDigit).isEmpty then none
    else some (true, rest.dropWhile Bytes.isDigit)
  | rest => some (false, rest)

/-- The digits of an exponent behind its sign. -/
def exponentDigits? (rest : Bytes) : Option (Bool × Bytes) :=
  if (rest.takeWhile Bytes.isDigit).isEmpty then none
  else some (true, rest.dropWhile Bytes.isDigit)

/-- The exponent at the front, if there is one: whether there was, and the octets after it. -/
def exponent? : Bytes → Option (Bool × Bytes)
  | octet :: rest =>
    if octet == 101 || octet == 69 then
      match rest with
      | 43 :: digits => exponentDigits? digits
      | 45 :: digits => exponentDigits? digits
      | digits => exponentDigits? digits
    else some (false, octet :: rest)
  | [] => some (false, [])

/-- The digits before fraction and exponent: a zero alone, or digits that begin with no zero. -/
def wholeDigits? : Bytes → Option (Bytes × Bytes)
  | 48 :: rest => some ([48], rest)
  | rest =>
    if (rest.takeWhile Bytes.isDigit).isEmpty then none
    else some (rest.takeWhile Bytes.isDigit, rest.dropWhile Bytes.isDigit)

/-- The number at the front, without its sign: its value if it is whole and not too long, and the
octets after it. -/
def magnitude? (octets : Bytes) : Option (Option Nat × Bytes) :=
  match wholeDigits? octets with
  | none => none
  | some (digits, rest) =>
    match fraction? rest with
    | none => none
    | some (hasFraction, rest) =>
      match exponent? rest with
      | none => none
      | some (hasExponent, rest) =>
        some (if hasFraction || hasExponent then none else wholeValue? digits, rest)

/-- The value of a number with a minus sign; minus zero is not whole. -/
def negated (magnitude : Option Nat) : Option Int :=
  match magnitude with
  | some 0 => none
  | some value => some (-(value : Int))
  | none => none

/-- The number at the front, and the octets after it. -/
def number? : Bytes → Option (Option Int × Bytes)
  | 45 :: rest => (magnitude? rest).map fun found => (negated found.1, found.2)
  | octets => (magnitude? octets).map fun found => (found.1.map Int.ofNat, found.2)

/-! ## All tokens -/

/-- The octets behind a word, if the word stands at the front. -/
def afterWord? : Bytes → Bytes → Option Bytes
  | [], octets => some octets
  | _ :: _, [] => none
  | expected :: word, octet :: rest => if expected = octet then afterWord? word rest else none

/-- The token that is one octet. -/
def mark? (octet : UInt8) : Option Token :=
  if octet == 91 then some .openArray
  else if octet == 93 then some .closeArray
  else if octet == 123 then some .openObject
  else if octet == 125 then some .closeObject
  else if octet == 44 then some .comma
  else if octet == 58 then some .colon
  else none

/-- The word that begins with an octet: its other octets, and the value that it stands for. -/
def word? (first : UInt8) : Option (Bytes × Json) :=
  if first == 110 then some ([117, 108, 108], .null)
  else if first == 116 then some ([114, 117, 101], .bool true)
  else if first == 102 then some ([97, 108, 115, 101], .bool false)
  else none

/-- The string token whose opening quote was read, and the octets after it. -/
def string? (octets : Bytes) : Option (Token × Bytes) :=
  match rawStringOnto [] octets with
  | none => none
  | some (raw, after) => (unescape? raw).map fun content => (.text content, after)

/-- The token that begins with an octet, and the octets after it. -/
def token? (first : UInt8) (rest : Bytes) : Option (Token × Bytes) :=
  match mark? first with
  | some token => some (token, rest)
  | none =>
    if first == 34 then string? rest
    else match word? first with
      | some (word, value) => (afterWord? word rest).map fun after => (.atom value, after)
      | none => (number? (first :: rest)).map fun found => (.atom (.number found.1), found.2)

/-! ## Tokens are not empty -/

theorem rawStringOnto_length {read octets raw after : Bytes}
    (found : rawStringOnto read octets = some (raw, after)) : after.length < octets.length := by
  fun_induction rawStringOnto read octets <;> simp_all <;> omega

theorem dropWhile_length (p : UInt8 → Bool) (octets : Bytes) :
    (octets.takeWhile p).length + (octets.dropWhile p).length = octets.length := by
  rw [← List.length_append, List.takeWhile_append_dropWhile]

theorem fraction?_length {octets after : Bytes} {had : Bool}
    (found : fraction? octets = some (had, after)) : after.length ≤ octets.length := by
  unfold fraction? at found
  split at found
  · rename_i rest
    have := dropWhile_length Bytes.isDigit rest
    split at found
    · cases found
    · simp only [Option.some.injEq, Prod.mk.injEq] at found
      obtain ⟨_, rfl⟩ := found
      simp only [List.length_cons]
      omega
  · simp_all

theorem exponentDigits?_length {octets after : Bytes} {had : Bool}
    (found : exponentDigits? octets = some (had, after)) : after.length ≤ octets.length := by
  have := dropWhile_length Bytes.isDigit octets
  unfold exponentDigits? at found
  split at found
  · cases found
  · simp only [Option.some.injEq, Prod.mk.injEq] at found
    obtain ⟨_, rfl⟩ := found
    omega

theorem exponent?_length {octets after : Bytes} {had : Bool}
    (found : exponent? octets = some (had, after)) : after.length ≤ octets.length := by
  unfold exponent? at found
  split at found
  · split at found
    · split at found
      all_goals
        have := exponentDigits?_length found
        simp only [List.length_cons]
        omega
    · simp_all
  · simp_all

theorem wholeDigits?_length {octets digits after : Bytes}
    (found : wholeDigits? octets = some (digits, after)) : after.length < octets.length := by
  unfold wholeDigits? at found
  split at found
  · simp only [Option.some.injEq, Prod.mk.injEq] at found
    obtain ⟨_, rfl⟩ := found
    simp
  · have := dropWhile_length Bytes.isDigit octets
    split at found
    · cases found
    · rename_i nonempty
      simp only [Option.some.injEq, Prod.mk.injEq] at found
      obtain ⟨rfl, rfl⟩ := found
      have : 0 < (octets.takeWhile Bytes.isDigit).length := by
        simp only [List.isEmpty_iff] at nonempty
        exact List.length_pos_iff.mpr nonempty
      omega

theorem magnitude?_length {octets after : Bytes} {value : Option Nat}
    (found : magnitude? octets = some (value, after)) : after.length < octets.length := by
  unfold magnitude? at found
  split at found
  · cases found
  · rename_i digits rest whole
    have shorter := wholeDigits?_length whole
    split at found
    · cases found
    · rename_i hasFraction rest₂ fractionFound
      have := fraction?_length fractionFound
      split at found
      · cases found
      · rename_i hasExponent rest₃ exponentFound
        have := exponent?_length exponentFound
        simp_all
        omega

theorem number?_length {octets after : Bytes} {value : Option Int}
    (found : number? octets = some (value, after)) : after.length < octets.length := by
  unfold number? at found
  split at found
  all_goals
    simp only [Option.map_eq_some_iff, Prod.mk.injEq] at found
    obtain ⟨⟨magnitude, rest⟩, read, _, rfl⟩ := found
    have := magnitude?_length read
    simp_all
    try omega

theorem afterWord?_length {word octets after : Bytes}
    (found : afterWord? word octets = some after) : after.length ≤ octets.length := by
  fun_induction afterWord? word octets <;> simp_all
  omega

theorem string?_length {octets after : Bytes} {token : Token}
    (found : string? octets = some (token, after)) : after.length < octets.length := by
  unfold string? at found
  split at found
  · cases found
  · rename_i raw behind read
    simp only [Option.map_eq_some_iff, Prod.mk.injEq] at found
    obtain ⟨_, _, _, rfl⟩ := found
    exact rawStringOnto_length read

theorem token?_length {first : UInt8} {rest after : Bytes} {token : Token}
    (found : token? first rest = some (token, after)) : after.length ≤ rest.length := by
  unfold token? at found
  split at found
  · cases found
    exact Nat.le_refl _
  · split at found
    · exact Nat.le_of_lt (string?_length found)
    · split at found
      all_goals
        simp only [Option.map_eq_some_iff, Prod.mk.injEq] at found
        obtain ⟨_, read, _, rfl⟩ := found
      · exact afterWord?_length read
      · exact Nat.le_of_lt_succ (number?_length read)

/-- All tokens, onto those read so far, last first. -/
def tokensOnto (read : List Token) : Bytes → Option (List Token)
  | [] => some read.reverse
  | first :: rest =>
    if isSpace first then tokensOnto read rest
    else match _found : token? first rest with
      | none => none
      | some (token, after) => tokensOnto (token :: read) after
termination_by octets => octets.length
decreasing_by
  · simp
  · have := token?_length _found
    simp only [List.length_cons]
    omega

/-- All tokens of some octets, if every token is well formed. -/
def tokens? (octets : Bytes) : Option (List Token) := tokensOnto [] octets

end RpcEcho.Json
