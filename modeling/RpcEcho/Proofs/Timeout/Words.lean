import RpcEcho.Proofs.Header.Projection
import RpcEcho.Proofs.Text.Decimal
import RpcEcho.Timeout.Words

/-!
# Machine words are wide enough for timeouts

Eight digits times an hour's seconds fit a word of 64 bits, and so do ten digits. So reading with
words is reading with numbers: no product is cut off, no number is refused for its size, and the
span of time is the number of nanoseconds. Cutting off the last octet of a text gives its last
character if that is ASCII, and is refused if it is not, for every text.

* `Span.toNanos_ofMillis` and its kin: spans of time by their nanoseconds.
* `Words.amount?_encode`: digits as words and as numbers.
* `Words.splitLast?_encode`: the last character of a text.
* `Words.exists_read?`: reading with words and with numbers.
-/

namespace RpcEcho

/-! ## Digits -/

theorem Decimal.foldl_lt (digits : List Char) (areDigits : ∀ c ∈ digits, c.isDigit = true)
    (before : Nat) :
    digits.foldl (fun value digit => value * 10 + (digit.toNat - 48)) before <
      (before + 1) * 10 ^ digits.length := by
  induction digits generalizing before with
  | nil => simp
  | cons first digits inductionHypothesis =>
      have isDigit := areDigits first List.mem_cons_self
      simp only [Char.isDigit, Bool.and_eq_true, decide_eq_true_eq,
        UInt32.le_iff_toNat_le] at isDigit
      have high : first.toNat ≤ 57 := isDigit.2
      have bound : before * 10 + (first.toNat - 48) + 1 ≤ (before + 1) * 10 := by omega
      calc digits.foldl (fun value digit => value * 10 + (digit.toNat - 48))
            (before * 10 + (first.toNat - 48))
          < (before * 10 + (first.toNat - 48) + 1) * 10 ^ digits.length :=
            inductionHypothesis (fun c member => areDigits c (List.mem_cons_of_mem first member)) _
        _ ≤ (before + 1) * 10 * 10 ^ digits.length := Nat.mul_le_mul_right _ bound
        _ = (before + 1) * 10 ^ (digits.length + 1) := by ring

/-- A number is smaller than the power of ten with as many zeros as it has digits. -/
theorem Decimal.value_lt {digits : List Char} (areDigits : ∀ c ∈ digits, c.isDigit = true) :
    value digits < 10 ^ digits.length := by
  have bound := foldl_lt digits areDigits 0
  rwa [Nat.zero_add, Nat.one_mul] at bound

namespace Utf8

/-- The last octet of a character that is not ASCII continues it. -/
theorem isContinuation_of_getLast? {c : Char} (beyond : 128 ≤ c.toNat) {octet : UInt8}
    (isLast : octet ∈ (String.utf8EncodeChar c).getLast?) : isContinuation octet = true := by
  have low (value : Nat) : isContinuation (UInt8.ofNat (value % 64 + 128)) = true := by
    have small := Nat.mod_lt value (by decide : 0 < 64)
    have whole : (UInt8.ofNat (value % 64 + 128)).toNat = value % 64 + 128 :=
      UInt8.toNat_ofNat_of_lt' (by rw [UInt8.size]; omega)
    rw [isContinuation, Bool.and_eq_true, decide_eq_true_eq, decide_eq_true_eq,
      UInt8.le_iff_toNat_le, UInt8.le_iff_toNat_le, whole]
    exact ⟨Nat.le_add_left _ _, Nat.le_trans (Nat.add_le_add_right (Nat.le_of_lt_succ small) 128)
      (by decide)⟩
  have notSmall : ¬ c.val.toNat ≤ 0x7f := Nat.not_le.mpr beyond
  unfold String.utf8EncodeChar at isLast
  simp only [if_neg notSmall] at isLast
  split at isLast
  · cases isLast
    exact low _
  · split at isLast
    · cases isLast
      exact low _
    · cases isLast
      exact low _

/-- An octet of a character is a digit if and only if the character is one. -/
theorem isDigit_of_mem_utf8EncodeChar {c : Char} {octet : UInt8}
    (member : octet ∈ String.utf8EncodeChar c) : Bytes.isDigit octet = c.isDigit := by
  rw [Bool.eq_iff_iff, Bytes.isDigit, Char.isDigit, Bool.and_eq_true, Bool.and_eq_true]
  simp only [decide_eq_true_eq, UInt8.le_iff_toNat_le, UInt32.le_iff_toNat_le, GE.ge]
  by_cases ascii : c.toNat < 128
  · rw [utf8EncodeChar_of_ascii ascii, List.mem_singleton] at member
    have toNat : (UInt8.ofNat c.toNat).toNat = c.toNat :=
      UInt8.toNat_ofNat_of_lt' (by rw [UInt8.size]; omega)
    rw [member, toNat]
    rfl
  · have high := UInt8.le_iff_toNat_le.mp (le_of_mem_utf8EncodeChar (Nat.not_lt.mp ascii) member)
    have octetAbove : ¬ octet.toNat ≤ (57 : UInt8).toNat :=
      Nat.not_le.mpr (Nat.lt_of_lt_of_le (by decide) high)
    have charAbove : ¬ c.val.toNat ≤ (57 : UInt32).toNat :=
      Nat.not_le.mpr (Nat.lt_of_lt_of_le (by decide) (Nat.not_lt.mp ascii))
    exact ⟨fun digit => absurd digit.2 octetAbove, fun digit => absurd digit.2 charAbove⟩

/-- The octets of a text are digits if and only if its characters are. -/
theorem all_isDigit_encode (chars : List Char) :
    (encode (String.ofList chars)).all Bytes.isDigit = chars.all Char.isDigit := by
  rw [encode_ofList, List.all_flatMap]
  refine List.all_congr rfl fun c => ?_
  rw [Bool.eq_iff_iff, List.all_eq_true]
  constructor
  · intro all
    obtain ⟨octet, member⟩ := List.exists_mem_of_ne_nil _ String.utf8EncodeChar_ne_nil
    rw [← isDigit_of_mem_utf8EncodeChar member, all octet member]
  · intro isDigit octet member
    rw [isDigit_of_mem_utf8EncodeChar member, isDigit]

end Utf8

namespace Timeout

theorem toNat_lt_of_isDigit {c : Char} (isDigit : c.isDigit = true) : c.toNat < 128 := by
  simp only [Char.isDigit, Bool.and_eq_true, decide_eq_true_eq, UInt32.le_iff_toNat_le] at isDigit
  exact Nat.lt_of_le_of_lt isDigit.2 (by decide)

/-! ## Spans -/

namespace Span

theorem toNanos_ofSeconds (seconds : UInt64) :
    (ofSeconds seconds).toNanos = seconds.toNat * 1000000000 := by
  simp only [toNanos, ofSeconds, UInt32.toNat_zero, Nat.add_zero]

theorem toNanos_ofMillis (millis : UInt64) : (ofMillis millis).toNanos = millis.toNat * milli := by
  have whole : (millis / 1000).toNat = millis.toNat / 1000 := UInt64.toNat_div millis 1000
  rw [toNanos, ofMillis, toNat_partOfMillis, whole, milli]
  omega

theorem toNanos_ofMicros (micros : UInt64) : (ofMicros micros).toNanos = micros.toNat * 1000 := by
  have whole : (micros / 1000000).toNat = micros.toNat / 1000000 := UInt64.toNat_div micros 1000000
  rw [toNanos, ofMicros, toNat_partOfMicros, whole]
  omega

theorem toNanos_ofNanos (nanos : UInt64) : (ofNanos nanos).toNanos = nanos.toNat := by
  have whole : (nanos / 1000000000).toNat = nanos.toNat / 1000000000 :=
    UInt64.toNat_div nanos 1000000000
  rw [toNanos, ofNanos, toNat_partOfNanos, whole]
  omega

end Span

namespace Words

/-! ## Amounts -/

/-- Digits whose number fits a word are read as that number. No number on the way is larger than the
last one. -/
theorem foldlM_appendDigit? (digits : List Char) (areDigits : ∀ c ∈ digits, c.isDigit = true)
    (before : UInt64)
    (fits : digits.foldl (fun value digit => value * 10 + (digit.toNat - 48)) before.toNat <
      UInt64.size) :
    ∃ after, (digits.map fun c => UInt8.ofNat c.toNat).foldlM appendDigit? before = some after ∧
      after.toNat =
        digits.foldl (fun value digit => value * 10 + (digit.toNat - 48)) before.toNat := by
  induction digits generalizing before with
  | nil => exact ⟨before, rfl, rfl⟩
  | cons first digits inductionHypothesis =>
      let next := before.toNat * 10 + (first.toNat - 48)
      have nextFits : next < UInt64.size :=
        calc next
            = next * 1 := (Nat.mul_one next).symm
          _ ≤ next * 10 ^ digits.length := Nat.mul_le_mul_left next (Nat.pow_pos (by decide))
          _ ≤ digits.foldl (fun value digit => value * 10 + (digit.toNat - 48)) next :=
              Decimal.mul_pow_le_foldl digits next
          _ < UInt64.size := fits
      have toNat : (UInt64.ofNat next).toNat = next := UInt64.toNat_ofNat_of_lt' nextFits
      have appended : appendDigit? before (UInt8.ofNat first.toNat) = some (UInt64.ofNat next) := by
        have ascii := toNat_lt_of_isDigit (areDigits first List.mem_cons_self)
        rw [appendDigit?, HeaderValue.toNat_octet ascii]
        exact if_pos nextFits
      obtain ⟨after, read, number⟩ := inductionHypothesis
        (fun c member => areDigits c (List.mem_cons_of_mem first member)) (UInt64.ofNat next)
        (by rw [toNat]; exact fits)
      refine ⟨after, ?_, by rw [number, toNat]; rfl⟩
      rw [List.map_cons, List.foldlM_cons, appended]
      exact read

/-- Up to nineteen digits are read as words as they are read as numbers. -/
theorem amount?_encode (most : Nat) (fits : 10 ^ most ≤ UInt64.size) (chars : List Char) :
    (amount? most (Utf8.encode (String.ofList chars))).map UInt64.toNat =
      Timeout.amount? most chars := by
  by_cases areDigits : ∀ c ∈ chars, c.isDigit = true
  · have ascii : ∀ c ∈ chars, c.toNat < 128 :=
      fun c member => toNat_lt_of_isDigit (areDigits c member)
    have all : chars.all Char.isDigit = true := List.all_eq_true.mpr areDigits
    rw [amount?, Utf8.all_isDigit_encode, all, Utf8.encode_ofList_of_ascii ascii, List.isEmpty_map,
      List.length_map, Timeout.amount?, Decimal.read?, all]
    by_cases tooMany : most < chars.length
    · simp [tooMany]
    · by_cases empty : chars.isEmpty = true
      · simp [empty]
      · have small : Decimal.value chars < UInt64.size :=
          calc Decimal.value chars
              < 10 ^ chars.length := Decimal.value_lt areDigits
            _ ≤ 10 ^ most := Nat.pow_le_pow_right (by decide) (Nat.not_lt.mp tooMany)
            _ ≤ UInt64.size := fits
        obtain ⟨after, read, number⟩ := foldlM_appendDigit? chars areDigits 0 small
        simp only [empty, tooMany, Bool.false_or, decide_false, Bool.not_true, Bool.false_eq_true,
          if_false, read, Option.map_some, number]
        rfl
  · have notAll : chars.all Char.isDigit = false := by
      rw [Bool.eq_false_iff, ne_eq, List.all_eq_true]
      exact areDigits
    rw [amount?, Utf8.all_isDigit_encode, notAll, Timeout.amount?, Decimal.read?, notAll]
    simp

/-! ## The last character -/

theorem splitLast?_encode_concat (front : List Char) (last : Char) :
    splitLast? (Utf8.encode (String.ofList (front ++ [last]))) =
      if last.toNat < 128 then
        some (Utf8.encode (String.ofList front), UInt8.ofNat last.toNat)
      else none := by
  rw [Utf8.encode_ofList, Utf8.encode_ofList, List.flatMap_append, List.flatMap_singleton,
    splitLast?, List.reverse_append]
  by_cases ascii : last.toNat < 128
  · have notContinuing : Utf8.isContinuation (UInt8.ofNat last.toNat) = false := by
      rw [Utf8.isContinuation, Bool.and_eq_false_iff, decide_eq_false_iff_not,
        UInt8.le_iff_toNat_le, HeaderValue.toNat_octet ascii]
      exact Or.inl (Nat.not_le.mpr ascii)
    rw [if_pos ascii, Utf8.utf8EncodeChar_of_ascii ascii]
    simp [notContinuing]
  · rw [if_neg ascii]
    have shape := String.utf8EncodeChar_ne_nil (c := last)
    obtain ⟨octet, isLast⟩ :=
      Option.ne_none_iff_exists'.mp (List.getLast?_eq_none_iff.not.mpr shape)
    have continuing := Utf8.isContinuation_of_getLast? (Nat.not_lt.mp ascii) isLast
    rw [List.getLast?_eq_head?_reverse] at isLast
    obtain ⟨rest, reversed⟩ := List.head?_eq_some_iff.mp isLast
    rw [reversed]
    simp [continuing]

/-! ## Units -/

theorem mul_of_lt (one other : UInt64) (fits : one.toNat * other.toNat < UInt64.size) :
    ∃ product, mul one other = .ok product ∧ product.toNat = one.toNat * other.toNat := by
  refine ⟨one * other, if_pos fits, ?_⟩
  rw [UInt64.toNat_mul]
  exact Nat.mod_eq_of_lt fits

/-- Amounts of every unit fit a word on every step, down to their seconds. -/
theorem exists_scaled? {amount : UInt64} (small : amount.toNat < 10 ^ 8) {unit : Char}
    (ascii : unit.toNat < 128) :
    ∃ span?, scaled? amount (UInt8.ofNat unit.toNat) = .ok span? ∧
      span?.map Span.toNanos = (unit? unit).map fun nanos => amount.toNat * nanos := by
  have isNot (other : Char) (otherAscii : other.toNat < 128) (different : unit ≠ other) :
      UInt8.ofNat unit.toNat ≠ UInt8.ofNat other.toNat := by
    rw [ne_eq, ← UInt8.toNat_inj, HeaderValue.toNat_octet ascii, HeaderValue.toNat_octet otherAscii,
      Char.toNat_inj]
    exact different
  have sixty : (60 : UInt64).toNat = 60 := rfl
  obtain ⟨minutes, toMinutes, minutesNumber⟩ := mul_of_lt amount 60
    (by rw [UInt64.size, sixty]; omega)
  obtain ⟨seconds, toSeconds, secondsNumber⟩ := mul_of_lt minutes 60
    (by rw [UInt64.size, minutesNumber, sixty]; omega)
  rw [sixty] at minutesNumber secondsNumber
  unfold unit?
  split
  case h_1 =>
    refine ⟨some (.ofSeconds seconds), ?_, ?_⟩
    · change (mul amount 60 >>= fun minutes => mul minutes 60 >>= fun seconds =>
        pure (some (Span.ofSeconds seconds))) = _
      rw [toMinutes]
      change (mul minutes 60 >>= fun seconds => pure (some (Span.ofSeconds seconds))) = _
      rw [toSeconds]
      rfl
    · rw [Option.map_some, Span.toNanos_ofSeconds, secondsNumber, minutesNumber, Option.map_some,
        Nat.mul_assoc, Nat.mul_assoc]
  case h_2 =>
    refine ⟨some (.ofSeconds minutes), ?_, ?_⟩
    · change (mul amount 60 >>= fun seconds => pure (some (Span.ofSeconds seconds))) = _
      rw [toMinutes]
      rfl
    · rw [Option.map_some, Span.toNanos_ofSeconds, minutesNumber, Option.map_some, Nat.mul_assoc]
  case h_3 => exact ⟨some (.ofSeconds amount), rfl, congrArg some (Span.toNanos_ofSeconds amount)⟩
  case h_4 => exact ⟨some (.ofMillis amount), rfl, congrArg some (Span.toNanos_ofMillis amount)⟩
  case h_5 => exact ⟨some (.ofMicros amount), rfl, congrArg some (Span.toNanos_ofMicros amount)⟩
  case h_6 =>
    refine ⟨some (.ofNanos amount), rfl, ?_⟩
    rw [Option.map_some, Span.toNanos_ofNanos, Option.map_some, Nat.mul_one]
  case h_7 noHours noMinutes noSeconds noMillis noMicros noNanos =>
    refine ⟨none, ?_, rfl⟩
    have notHours : UInt8.ofNat unit.toNat ≠ 72 := isNot 'H' (by decide) noHours
    have notMinutes : UInt8.ofNat unit.toNat ≠ 77 := isNot 'M' (by decide) noMinutes
    have notSeconds : UInt8.ofNat unit.toNat ≠ 83 := isNot 'S' (by decide) noSeconds
    have notMillis : UInt8.ofNat unit.toNat ≠ 109 := isNot 'm' (by decide) noMillis
    have notMicros : UInt8.ofNat unit.toNat ≠ 117 := isNot 'u' (by decide) noMicros
    have notNanos : UInt8.ofNat unit.toNat ≠ 110 := isNot 'n' (by decide) noNanos
    rw [scaled?, if_neg notHours, if_neg notMinutes, if_neg notSeconds, if_neg notMillis,
      if_neg notMicros, if_neg notNanos]
    rfl

theorem unit?_eq_none_of_le {unit : Char} (beyond : 128 ≤ unit.toNat) : unit? unit = none := by
  unfold unit?
  split
  all_goals first | rfl | exact absurd beyond (by decide)

/-! ## Texts -/

theorem amount_lt {most amount : Nat} {chars : List Char}
    (isAmount : Timeout.amount? most chars = some amount) : amount < 10 ^ most := by
  rw [Timeout.amount?] at isAmount
  split at isAmount
  · cases isAmount
  · rename_i notMore
    obtain ⟨_, areDigits, rfl⟩ := Decimal.read?_eq_some_iff.mp isAmount
    calc Decimal.value chars
        < 10 ^ chars.length := Decimal.value_lt areDigits
      _ ≤ 10 ^ most := Nat.pow_le_pow_right (by decide) (Nat.not_lt.mp notMore)

theorem ofMillis?_encode (text : String) :
    (ofMillis? (Utf8.encode text)).map Span.toNanos = Timeout.ofMillis? text := by
  have same := amount?_encode 10 (by decide) text.toList
  rw [String.ofList_toList] at same
  rw [ofMillis?, Timeout.ofMillis?, ← same]
  cases amount? 10 (Utf8.encode text) with
  | none => rfl
  | some millis =>
      have isZero : millis = 0 ↔ millis.toNat = 0 := UInt64.toNat_inj.symm
      simp only [Option.bind_some, Option.map_some, isZero]
      split
      · rfl
      · exact congrArg some (Span.toNanos_ofMillis millis)

theorem exists_ofUnit? (text : String) :
    ∃ span?, ofUnit? (Utf8.encode text) = .ok span? ∧
      span?.map Span.toNanos = Timeout.ofUnit? text := by
  rw [← String.ofList_toList (s := text)]
  generalize text.toList = chars
  rw [Timeout.ofUnit?, String.toList_ofList]
  rcases List.eq_nil_or_concat chars with rfl | ⟨front, last, rfl⟩
  · exact ⟨none, rfl, rfl⟩
  rw [List.concat_eq_append, List.reverse_append, List.reverse_singleton, List.singleton_append,
    ofUnit?, splitLast?_encode_concat]
  simp only [List.reverse_reverse]
  have same := amount?_encode 8 (by decide) front
  by_cases ascii : last.toNat < 128
  · rw [if_pos ascii]
    simp only
    cases isAmount : amount? 8 (Utf8.encode (String.ofList front)) with
    | none =>
        rw [isAmount, Option.map_none] at same
        rw [← same]
        exact ⟨none, rfl, rfl⟩
    | some amount =>
        rw [isAmount, Option.map_some] at same
        rw [← same]
        obtain ⟨span?, read, nanos⟩ := exists_scaled? (amount_lt same.symm) ascii
        refine ⟨span?, read, nanos.trans ?_⟩
        cases unit? last <;> rfl
  · rw [if_neg ascii, unit?_eq_none_of_le (Nat.not_lt.mp ascii)]
    refine ⟨none, rfl, ?_⟩
    cases Timeout.amount? 8 front <;> rfl

end Words

/-- The timeout that a text spells in a protocol, in nanoseconds. -/
def ofText? (protocol : Protocol) (text : String) : Option Nat :=
  match protocol with
  | .connect => ofMillis? text
  | .grpc | .grpcWeb => ofUnit? text

theorem ofHeaders?_eq (wire : WireFormat) (headers : Headers) :
    ofHeaders? wire headers = (headers.firstText? (headerName wire)).bind fun text =>
      ofText? wire.protocol (Text.trim text) := rfl

namespace Words

/-- Reading a text in words never fails for the size of a number, and finds the same timeout. -/
theorem exists_read? (protocol : Protocol) (text : String) :
    ∃ span?, read? protocol (Utf8.encode text) = .ok span? ∧
      span?.map Span.toNanos = ofText? protocol text := by
  cases protocol with
  | connect => exact ⟨_, rfl, ofMillis?_encode text⟩
  | grpc => exact exists_ofUnit? text
  | grpcWeb => exact exists_ofUnit? text

theorem exists_ofHeaders? (wire : WireFormat) (headers : Headers) :
    ∃ span?, ofHeaders? wire headers = .ok span? ∧
      span?.map Span.toNanos = Timeout.ofHeaders? wire headers := by
  rw [ofHeaders?, ofHeaders?_eq]
  cases headers.firstText? (headerName wire) with
  | none => exact ⟨none, rfl, rfl⟩
  | some text => exact exists_read? wire.protocol (Text.trim text)

end Words

end Timeout

end RpcEcho
