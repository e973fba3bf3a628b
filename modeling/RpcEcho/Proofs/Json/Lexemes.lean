import RpcEcho.Proofs.Json.Grammar
import RpcEcho.Proofs.Text.Utf8

/-!
# Reading strings and numbers

Every string and every number of the grammar is read as what it says. A string is cut at its closing
quote, since every quote inside it is escaped, and undoing the escapes gives the octets of its
characters. A number ends where its digits end, so something else must stand behind it.

* `Json.string?_of_isBody`: strings.
* `Json.IsNumeral.read`: numbers.
-/

namespace RpcEcho.Json

open RpcEcho

/-! ## Hexadecimal digits -/

theorem toNat_hexOctet :
    ∀ value < 16, (hexOctet value).toNat = if value < 10 then 48 + value else 87 + value := by
  decide

theorem toNat_upperHexDigit : ∀ value < 16,
    (Bytes.upperHexDigit value).toNat = if value < 10 then 48 + value else 55 + value := by
  decide

theorem hexValue?_eq_some_iff {octet : UInt8} {value : Nat} :
    Bytes.hexValue? octet = some value ↔ IsHexDigit value octet := by
  constructor
  · intro found
    have range : value < 16 ∧ (octet.toNat = (if value < 10 then 48 + value else 87 + value) ∨
        octet.toNat = if value < 10 then 48 + value else 55 + value) := by
      simp only [Bytes.hexValue?, Bool.and_eq_true, decide_eq_true_eq, UInt8.le_iff_toNat_le,
        UInt8.reduceToNat] at found
      split at found
      · cases found
        rw [if_pos (by omega), if_pos (by omega)]
        omega
      · split at found
        · cases found
          rw [if_neg (by omega), if_neg (by omega)]
          omega
        · split at found
          · cases found
            rw [if_neg (by omega), if_neg (by omega)]
            omega
          · cases found
    obtain ⟨small, spells⟩ := range
    rw [← toNat_hexOctet value small, ← toNat_upperHexDigit value small] at spells
    exact ⟨small, spells.imp UInt8.toNat_inj.mp UInt8.toNat_inj.mp⟩
  · rintro ⟨small, spells⟩
    have checked : ∀ value < 16, Bytes.hexValue? (hexOctet value) = some value ∧
        Bytes.hexValue? (Bytes.upperHexDigit value) = some value := by decide
    rcases spells with rfl | rfl
    · exact (checked value small).1
    · exact (checked value small).2

theorem isUnit_iff_hexWord? {unit : Nat} {a b c d : UInt8} :
    hexWord? a b c d = some unit ↔ IsUnit unit [a, b, c, d] := by
  constructor
  · intro found
    unfold hexWord? at found
    split at found
    · rename_i isFirst isSecond isThird isFourth
      cases found
      exact .digits (hexValue?_eq_some_iff.mp isFirst) (hexValue?_eq_some_iff.mp isSecond)
        (hexValue?_eq_some_iff.mp isThird) (hexValue?_eq_some_iff.mp isFourth)
    · cases found
  · rintro ⟨isFirst, isSecond, isThird, isFourth⟩
    rw [hexWord?, hexValue?_eq_some_iff.mpr isFirst, hexValue?_eq_some_iff.mpr isSecond,
      hexValue?_eq_some_iff.mpr isThird, hexValue?_eq_some_iff.mpr isFourth]

theorem IsUnit.exists_hexWord? {unit : Nat} {digits : Bytes} (isUnit : IsUnit unit digits) :
    ∃ a b c d, digits = [a, b, c, d] ∧ hexWord? a b c d = some unit := by
  cases isUnit with
  | digits isFirst isSecond isThird isFourth =>
      exact ⟨_, _, _, _, rfl, isUnit_iff_hexWord?.mpr (.digits isFirst isSecond isThird isFourth)⟩

/-! ## Plain octets -/

/-- Whether an octet means nothing special inside a string. -/
def IsPlainOctet (octet : UInt8) : Prop := octet ≠ 34 ∧ octet ≠ 92 ∧ ¬ octet < 32

theorem isPlainOctet_ofNat {c : Char} (ascii : c.toNat < 128) (notQuote : c ≠ '"')
    (notBackslash : c ≠ '\\') (notControl : ¬ c.toNat < 0x20) :
    IsPlainOctet (UInt8.ofNat c.toNat) := by
  have value : (UInt8.ofNat c.toNat).toNat = c.toNat :=
    UInt8.toNat_ofNat_of_lt' (Nat.lt_trans ascii (by decide))
  refine ⟨fun isQuote => notQuote ?_, fun isBackslash => notBackslash ?_, fun isLow => ?_⟩
  · rw [isQuote] at value
    exact Char.toNat_inj.mp value.symm
  · rw [isBackslash] at value
    exact Char.toNat_inj.mp value.symm
  · rw [UInt8.lt_iff_toNat_lt, value] at isLow
    exact notControl isLow

theorem isPlainOctet_of_le {octet : UInt8} (high : 128 ≤ octet) : IsPlainOctet octet := by
  rw [UInt8.le_iff_toNat_le] at high
  refine ⟨?_, ?_, fun isLow => ?_⟩
  · rintro rfl
    exact absurd high (by decide)
  · rintro rfl
    exact absurd high (by decide)
  · rw [UInt8.lt_iff_toNat_lt] at isLow
    exact absurd (Nat.lt_of_le_of_lt high isLow) (by decide)

theorem isPlainOctet_of_char {c : Char} (noQuote : c ≠ '"') (noBackslash : c ≠ '\\')
    (noControl : 0x20 ≤ c.toNat) : ∀ octet ∈ String.utf8EncodeChar c, IsPlainOctet octet := by
  intro octet member
  by_cases ascii : c.toNat < 128
  · rw [Utf8.utf8EncodeChar_of_ascii ascii, List.mem_singleton] at member
    rw [member]
    exact isPlainOctet_ofNat ascii noQuote noBackslash (Nat.not_lt.mpr noControl)
  · exact isPlainOctet_of_le (Utf8.le_of_mem_utf8EncodeChar (Nat.not_lt.mp ascii) member)

theorem IsHexDigit.isPlain {value : Nat} {octet : UInt8} (isDigit : IsHexDigit value octet) :
    IsPlainOctet octet := by
  have checked : ∀ value < 16,
      (hexOctet value ≠ 34 ∧ hexOctet value ≠ 92 ∧ ¬ hexOctet value < 32) ∧
        Bytes.upperHexDigit value ≠ 34 ∧ Bytes.upperHexDigit value ≠ 92 ∧
          ¬ Bytes.upperHexDigit value < 32 := by decide
  obtain ⟨small, rfl | rfl⟩ := isDigit
  · exact (checked value small).1
  · exact (checked value small).2

theorem IsUnit.plain {unit : Nat} {digits : Bytes} (isUnit : IsUnit unit digits) :
    ∀ octet ∈ digits, IsPlainOctet octet := by
  obtain ⟨isFirst, isSecond, isThird, isFourth⟩ := isUnit
  simp only [List.mem_cons, List.not_mem_nil, or_false, forall_eq_or_imp, forall_eq]
  exact ⟨isFirst.isPlain, isSecond.isPlain, isThird.isPlain, isFourth.isPlain⟩

/-! ## Cutting a string at its quote -/

theorem rawStringOnto_plain {octets : Bytes} (plain : ∀ octet ∈ octets, IsPlainOctet octet)
    (read rest : Bytes) :
    rawStringOnto read (octets ++ rest) = rawStringOnto (octets.reverse ++ read) rest := by
  induction octets generalizing read with
  | nil => rfl
  | cons octet octets inductionHypothesis =>
      obtain ⟨notQuote, notBackslash, notControl⟩ := plain octet List.mem_cons_self
      have later := inductionHypothesis
        (fun other member => plain other (List.mem_cons_of_mem octet member)) (octet :: read)
      rw [List.cons_append, rawStringOnto, if_neg notControl, later]
      · simp
      · exact notQuote
      · exact fun _ _ same _ => notBackslash same

theorem rawStringOnto_unitEscape {unit : Nat} {digits : Bytes} (isUnit : IsUnit unit digits)
    (read rest : Bytes) :
    rawStringOnto read (unitEscape digits ++ rest) =
      rawStringOnto ((unitEscape digits).reverse ++ read) rest := by
  have passed := rawStringOnto_plain isUnit.plain (117 :: 92 :: read) rest
  simpa [unitEscape, rawStringOnto] using passed

theorem IsCharacter.raw {c : Char} {octets : Bytes} (isCharacter : IsCharacter c octets)
    (read rest : Bytes) :
    rawStringOnto read (octets ++ rest) = rawStringOnto (octets.reverse ++ read) rest := by
  cases isCharacter with
  | plain noQuote noBackslash noControl =>
      exact rawStringOnto_plain (isPlainOctet_of_char noQuote noBackslash noControl) read rest
  | short escapes => simp [rawStringOnto]
  | unit isUnit => exact rawStringOnto_unitEscape isUnit read rest
  | pair _ _ _ isFirst isSecond =>
      rw [List.append_assoc, rawStringOnto_unitEscape isFirst, rawStringOnto_unitEscape isSecond,
        List.reverse_append, List.append_assoc]

theorem IsBody.raw {body : Bytes} {chars : Option (List Char)} (isBody : IsBody body chars)
    (read rest : Bytes) :
    rawStringOnto read (body ++ 34 :: rest) = some (read.reverse ++ body, rest) := by
  induction isBody generalizing read with
  | nil => simp [rawStringOnto]
  | character isCharacter _ inductionHypothesis =>
      rw [List.append_assoc, isCharacter.raw, inductionHypothesis]
      simp
  | alone isUnit _ _ inductionHypothesis =>
      rw [List.append_assoc, rawStringOnto_unitEscape isUnit, inductionHypothesis]
      simp

/-! ## Undoing escapes -/

theorem unescapeOnto_plain {octets : Bytes} (plain : ∀ octet ∈ octets, IsPlainOctet octet)
    (read : Option Bytes) (rest : Bytes) :
    unescapeOnto read (octets ++ rest) = unescapeOnto (read.map (octets.reverse ++ ·)) rest := by
  induction octets generalizing read with
  | nil => simp
  | cons octet octets inductionHypothesis =>
      obtain ⟨_, notBackslash, _⟩ := plain octet List.mem_cons_self
      have later := inductionHypothesis
        (fun other member => plain other (List.mem_cons_of_mem octet member))
        (read.map (octet :: ·))
      rw [List.cons_append, unescapeOnto, later]
      · simp [Function.comp_def]
      · exact fun _ _ _ _ _ same _ => notBackslash same
      · exact fun _ _ same _ => notBackslash same
      · exact fun same _ => notBackslash same

theorem unescapeOnto_unitEscape {unit : Nat} {digits : Bytes} (isUnit : IsUnit unit digits)
    (read : Option Bytes) (rest : Bytes) :
    unescapeOnto read (unitEscape digits ++ rest) =
      unescapeOnto ((unitOctets unit rest).1.bind fun octets => read.map (octets ++ ·))
        (unitOctets unit rest).2 := by
  obtain ⟨a, b, c, d, rfl, stands⟩ := isUnit.exists_hexWord?
  rw [unitEscape]
  simp only [List.cons_append, List.nil_append]
  rw [unescapeOnto, stands]

theorem unitOctets_of_char {c : Char} (rest : Bytes) :
    unitOctets c.toNat rest = (some (String.utf8EncodeChar c).reverse, rest) := by
  have noHalf : c.toNat < 0xD800 ∨ 0xDFFF < c.toNat :=
    c.valid.imp id And.left
  have notLow : ¬ (0xDC00 ≤ c.toNat ∧ c.toNat ≤ 0xDFFF) := by omega
  have notHigh : ¬ (0xD800 ≤ c.toNat ∧ c.toNat ≤ 0xDBFF) := by omega
  simp [unitOctets, notLow, notHigh, reversedOctets]

theorem unitOctets_of_pair {c : Char} {high low : Nat} {second : Bytes} (isHigh : IsHigh high)
    (isLow : IsLow low)
    (value : c.toNat = 0x10000 + (high - 0xD800) * 0x400 + (low - 0xDC00))
    (isSecond : IsUnit low second) (rest : Bytes) :
    unitOctets high (unitEscape second ++ rest) =
      (some (String.utf8EncodeChar c).reverse, rest) := by
  have notLow : ¬ 0xDC00 ≤ high := by
    have := isHigh.2
    omega
  obtain ⟨_, _, _, _, rfl, stands⟩ := isSecond.exists_hexWord?
  have same : reversedOctets (0x10000 + (high - 0xD800) * 0x400 + (low - 0xDC00)) =
      (String.utf8EncodeChar c).reverse := by
    rw [reversedOctets, ← value, Char.ofNat_toNat]
  unfold unitOctets
  simp only [unitEscape, List.cons_append, List.nil_append, stands]
  simp [notLow, isHigh.1, isHigh.2, isLow.1, isLow.2, same]

theorem unitOctets_of_alone {unit : Nat} {rest : Bytes} (isAlone : IsAlone unit rest) :
    unitOctets unit rest = (none, rest) := by
  rcases isAlone with ⟨low, high⟩ | ⟨⟨low, high⟩, noPair⟩
  · simp [unitOctets, low, high]
  · have notLow : ¬ 0xDC00 ≤ unit := by omega
    unfold unitOctets
    simp only [notLow, low, high, decide_false, decide_true, Bool.false_and, Bool.and_self,
      Bool.false_eq_true, if_false, if_true]
    split
    · rename_i a b c d after
      split
      · rename_i second stands
        split
        · rename_i isLow
          simp only [Bool.and_eq_true, decide_eq_true_eq] at isLow
          exact absurd rfl (noPair second [a, b, c, d] after isLow (isUnit_iff_hexWord?.mp stands))
        · rfl
      · rfl
    · rfl

theorem shortEscape?_of_mem {letter : UInt8} {c : Char} (escapes : (letter, c) ∈ shortEscapes) :
    letter ≠ 117 ∧
      ∃ octet, shortEscape? letter = some octet ∧ String.utf8EncodeChar c = [octet] := by
  simp only [shortEscapes, List.mem_cons, List.not_mem_nil, or_false, Prod.mk.injEq] at escapes
  rcases escapes with ⟨rfl, rfl⟩ | ⟨rfl, rfl⟩ | ⟨rfl, rfl⟩ | ⟨rfl, rfl⟩ | ⟨rfl, rfl⟩ | ⟨rfl, rfl⟩ |
    ⟨rfl, rfl⟩ | ⟨rfl, rfl⟩
  all_goals exact ⟨by decide, _, rfl, rfl⟩

theorem IsCharacter.unescape {c : Char} {octets : Bytes} (isCharacter : IsCharacter c octets)
    (read : Option Bytes) (rest : Bytes) :
    unescapeOnto read (octets ++ rest) =
      unescapeOnto (read.map ((String.utf8EncodeChar c).reverse ++ ·)) rest := by
  cases isCharacter with
  | plain noQuote noBackslash noControl =>
      exact unescapeOnto_plain (isPlainOctet_of_char noQuote noBackslash noControl) read rest
  | short escapes =>
      obtain ⟨notNumber, octet, stands, own⟩ := shortEscape?_of_mem escapes
      rw [own, List.cons_append, List.cons_append, unescapeOnto, stands]
      · rfl
      · exact fun _ _ _ _ _ same _ => notNumber same
  | unit isUnit => rw [unescapeOnto_unitEscape isUnit, unitOctets_of_char, Option.bind_some]
  | pair isHigh isLow value isFirst isSecond =>
      rw [List.append_assoc, unescapeOnto_unitEscape isFirst,
        unitOctets_of_pair isHigh isLow value isSecond, Option.bind_some]

theorem IsBody.unescape {body : Bytes} {chars : Option (List Char)} (isBody : IsBody body chars)
    (read : Option Bytes) :
    unescapeOnto read body = some (chars.bind fun chars =>
      read.map fun octets => octets.reverse ++ chars.flatMap String.utf8EncodeChar) := by
  induction isBody generalizing read with
  | nil =>
      rw [unescapeOnto]
      simp
  | character isCharacter _ inductionHypothesis =>
      rw [isCharacter.unescape, inductionHypothesis, Option.bind_map]
      simp [Function.comp_def]
  | alone isUnit isAlone _ inductionHypothesis =>
      rw [unescapeOnto_unitEscape isUnit, unitOctets_of_alone isAlone, inductionHypothesis]
      simp

/-- A string is read as its text, and it ends at its quote. -/
theorem string?_of_isBody {body : Bytes} {chars : Option (List Char)} (isBody : IsBody body chars)
    (rest : Bytes) :
    string? (body ++ 34 :: rest) = some (.text (chars.map String.ofList), rest) := by
  have texts (chars : List Char) :
      Utf8.decode? (chars.flatMap String.utf8EncodeChar) = some (String.ofList chars) := by
    rw [← Utf8.encode_ofList, Utf8.decode?_encode]
  rw [string?, isBody.raw]
  cases chars <;> simp [unescape?, isBody.unescape, texts]

/-! ## Numbers -/

/-- What stands behind a value: nothing, or an octet that continues no number. -/
def IsSeparated (rest : Bytes) : Prop :=
  ∀ octet ∈ rest.head?, Bytes.isDigit octet = false ∧ octet ≠ 46 ∧ octet ≠ 101 ∧ octet ≠ 69

theorem isSeparated_nil : IsSeparated [] := fun _ member => by cases member

theorem isSeparated_cons {octet : UInt8} {rest : Bytes}
    (separates : octet = 44 ∨ octet = 93 ∨ octet = 125) : IsSeparated (octet :: rest) := by
  intro other member
  cases member
  rcases separates with rfl | rfl | rfl <;> exact ⟨rfl, by decide, by decide, by decide⟩

/-- No digit stands at the front. -/
def EndsDigits (rest : Bytes) : Prop := ∀ octet ∈ rest.head?, Bytes.isDigit octet = false

theorem IsSeparated.endsDigits {rest : Bytes} (separated : IsSeparated rest) : EndsDigits rest :=
  fun octet member => (separated octet member).1

theorem AreDigits.span {digits : Bytes} (areDigits : AreDigits digits) {rest : Bytes}
    (ends : EndsDigits rest) :
    ((digits ++ rest).takeWhile Bytes.isDigit) = digits ∧
      (digits ++ rest).dropWhile Bytes.isDigit = rest := by
  rw [List.takeWhile_append_of_pos areDigits.each, List.dropWhile_append_of_pos areDigits.each]
  cases rest with
  | nil => simp
  | cons octet rest => simp [ends octet rfl]

theorem AreDigits.isEmpty_eq {digits : Bytes} (areDigits : AreDigits digits) :
    digits.isEmpty = false := by simpa using areDigits.notEmpty

theorem AreDigits.not_head {digits : Bytes} (areDigits : AreDigits digits) {octet : UInt8}
    (noDigit : Bytes.isDigit octet = false) (rest after : Bytes) :
    digits ++ rest ≠ octet :: after := by
  intro same
  cases digits with
  | nil => exact areDigits.notEmpty rfl
  | cons first others =>
      rw [List.cons_append] at same
      have isDigit := areDigits.each first List.mem_cons_self
      rw [(List.cons.inj same).1, noDigit] at isDigit
      cases isDigit

theorem IsWhole.read {digits : Bytes} (isWhole : IsWhole digits) {rest : Bytes}
    (ends : EndsDigits rest) : wholeDigits? (digits ++ rest) = some (digits, rest) := by
  by_cases zero : digits.head? = some 48
  · rw [isWhole.noZero zero]
    rfl
  · obtain ⟨taken, dropped⟩ := isWhole.areDigits.span ends
    rw [wholeDigits?, taken, dropped, isWhole.areDigits.isEmpty_eq]
    · rfl
    · intro after same
      cases digits with
      | nil => exact isWhole.areDigits.notEmpty rfl
      | cons first others =>
          rw [List.cons_append] at same
          exact zero (congrArg some (List.cons.inj same).1)

theorem IsFraction.read {fraction : Bytes} (isFraction : IsFraction fraction) {rest : Bytes}
    (ends : EndsDigits rest) (noPoint : ∀ after, rest ≠ 46 :: after) :
    fraction? (fraction ++ rest) = some (!fraction.isEmpty, rest) := by
  cases isFraction with
  | absent =>
      rw [List.nil_append, fraction?]
      · rfl
      · exact noPoint
  | point areDigits =>
      obtain ⟨taken, dropped⟩ := areDigits.span ends
      rw [List.cons_append, fraction?, taken, dropped, areDigits.isEmpty_eq]
      rfl

theorem AreDigits.exponent {digits : Bytes} (areDigits : AreDigits digits) {rest : Bytes}
    (ends : EndsDigits rest) : exponentDigits? (digits ++ rest) = some (true, rest) := by
  obtain ⟨taken, dropped⟩ := areDigits.span ends
  rw [exponentDigits?, taken, dropped, areDigits.isEmpty_eq]
  rfl

theorem IsExponent.read {exponent : Bytes} (isExponent : IsExponent exponent) {rest : Bytes}
    (separated : IsSeparated rest) :
    exponent? (exponent ++ rest) = some (!exponent.isEmpty, rest) := by
  cases isExponent with
  | absent =>
      cases rest with
      | nil => rfl
      | cons octet rest =>
          obtain ⟨_, _, notSmall, notCapital⟩ := separated octet rfl
          simp [exponent?, notSmall, notCapital]
  | @mark letter sign digits isLetter isSign areDigits =>
      have letters : (letter == 101 || letter == 69) = true := by simpa using isLetter
      have found := areDigits.exponent separated.endsDigits
      unfold exponent?
      simp only [List.cons_append, letters, if_true, List.append_assoc]
      rcases isSign with rfl | rfl | rfl
      · rw [List.nil_append]
        split
        · rename_i plus
          exact absurd plus (areDigits.not_head (by decide) rest _)
        · rename_i minus
          exact absurd minus (areDigits.not_head (by decide) rest _)
        · exact found
      · exact found
      · exact found

/-- What follows the whole digits of a number begins with no digit. -/
theorem endsDigits_of_exponent {exponent rest : Bytes} (isExponent : IsExponent exponent)
    (separated : IsSeparated rest) :
    EndsDigits (exponent ++ rest) ∧ ∀ after, exponent ++ rest ≠ 46 :: after := by
  cases isExponent with
  | absent =>
      refine ⟨separated.endsDigits, fun after same => ?_⟩
      rw [List.nil_append] at same
      have isHead : (46 : UInt8) ∈ rest.head? := by rw [same]; rfl
      exact (separated 46 isHead).2.1 rfl
  | mark isLetter isSign areDigits =>
      constructor
      · intro octet member
        cases member
        rcases isLetter with rfl | rfl <;> rfl
      · intro after same
        rw [List.cons_append] at same
        rw [(List.cons.inj same).1] at isLetter
        exact absurd isLetter (by decide)

theorem endsDigits_of_fraction {fraction rest : Bytes} (isFraction : IsFraction fraction)
    (ends : EndsDigits rest) : EndsDigits (fraction ++ rest) := by
  cases isFraction with
  | absent => exact ends
  | point areDigits =>
      intro octet member
      cases member
      rfl

theorem magnitude?_of_parts {digits fraction exponent rest : Bytes} (isWhole : IsWhole digits)
    (isFraction : IsFraction fraction) (isExponent : IsExponent exponent)
    (separated : IsSeparated rest) :
    magnitude? (digits ++ (fraction ++ (exponent ++ rest))) =
      some (if !fraction.isEmpty || !exponent.isEmpty then none else wholeValue? digits, rest) := by
  obtain ⟨ends, noPoint⟩ := endsDigits_of_exponent isExponent separated
  rw [magnitude?, isWhole.read (endsDigits_of_fraction isFraction ends)]
  simp only [isFraction.read ends noPoint, isExponent.read separated]

theorem magnitude?_of_isWhole {digits rest : Bytes} (isWhole : IsWhole digits)
    (short : digits.length ≤ mostDigits) (separated : IsSeparated rest) :
    magnitude? (digits ++ rest) = some (some (digitsValue digits), rest) := by
  have found := magnitude?_of_parts isWhole .absent .absent separated
  have size : ¬ mostDigits < digits.length := Nat.not_lt.mpr short
  simpa [wholeValue?, size] using found

theorem number?_of_noSign {digits rest : Bytes} (areDigits : AreDigits digits) :
    number? (digits ++ rest) =
      (magnitude? (digits ++ rest)).map fun found => (found.1.map Int.ofNat, found.2) := by
  rw [number?]
  exact fun after => areDigits.not_head (by decide) rest after

/-- Only zero alone has the value zero. -/
theorem IsWhole.digitsValue_pos {digits : Bytes} (isWhole : IsWhole digits)
    (notZero : digits ≠ [48]) : 0 < digitsValue digits := by
  have grows : ∀ (digits : Bytes) (before : Nat), before ≤
      digits.foldl (fun value digit => value * 10 + (digit.toNat - 48)) before := by
    intro digits
    induction digits with
    | nil => exact fun before => Nat.le_refl before
    | cons digit digits inductionHypothesis =>
        intro before
        have later := inductionHypothesis (before * 10 + (digit.toNat - 48))
        rw [List.foldl_cons]
        omega
  cases digits with
  | nil => exact absurd rfl isWhole.areDigits.notEmpty
  | cons first others =>
      have isDigit := isWhole.areDigits.each first List.mem_cons_self
      have different : first.toNat ≠ 48 := by
        intro same
        have isZero : first = 48 := UInt8.toNat_inj.mp same
        exact notZero (isWhole.noZero (congrArg some isZero))
      simp only [Bytes.isDigit, Bool.and_eq_true, decide_eq_true_eq, UInt8.le_iff_toNat_le,
        UInt8.reduceToNat] at isDigit
      have later := grows others (0 * 10 + (first.toNat - 48))
      rw [digitsValue, List.foldl_cons]
      omega

/-- A number is read as its value, and it ends where something else begins. -/
theorem IsNumeral.read {value : Option Int} {octets : Bytes} (isNumeral : IsNumeral value octets)
    {rest : Bytes} (separated : IsSeparated rest) :
    number? (octets ++ rest) = some (value, rest) := by
  cases isNumeral with
  | whole isWhole short =>
      rw [number?_of_noSign isWhole.areDigits, magnitude?_of_isWhole isWhole short separated]
      rfl
  | @negative digits isWhole short notZero =>
      obtain ⟨before, positive⟩ : ∃ before, digitsValue digits = before + 1 :=
        Nat.exists_eq_succ_of_ne_zero (Nat.ne_of_gt (isWhole.digitsValue_pos notZero))
      rw [List.cons_append, number?, magnitude?_of_isWhole isWhole short separated, positive]
      rfl
  | @other sign digits fraction exponent isSign isWhole isFraction isExponent noValue =>
      have found := magnitude?_of_parts isWhole isFraction isExponent separated
      rw [List.append_assoc, List.append_assoc, List.append_assoc]
      rcases isSign with rfl | rfl
      · have noMagnitude : (if !fraction.isEmpty || !exponent.isEmpty then none
            else wholeValue? digits) = none := by
          rcases noValue with notEmpty | notEmpty | long | ⟨impossible, _⟩
          · simp [notEmpty]
          · simp [notEmpty]
          · simp [wholeValue?, long]
          · cases impossible
        rw [noMagnitude] at found
        rw [List.nil_append, number?_of_noSign isWhole.areDigits, found]
        rfl
      · have noNumber : negated (if !fraction.isEmpty || !exponent.isEmpty then none
            else wholeValue? digits) = none := by
          rcases noValue with notEmpty | notEmpty | long | ⟨_, rfl⟩
          · simp [notEmpty, negated]
          · simp [notEmpty, negated]
          · simp [wholeValue?, long, negated]
          · split <;> rfl
        rw [List.cons_append, List.nil_append, number?, found, Option.map_some, noNumber]

end RpcEcho.Json
