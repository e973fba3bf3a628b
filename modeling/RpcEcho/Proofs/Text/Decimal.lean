import RpcEcho.Text.Decimal
import Mathlib.Algebra.Order.Ring.Nat
import Mathlib.Tactic.Ring

/-!
# Decimal texts of numbers

A number has many decimal texts: zeros may stand in front of its digits, and a sign in front of
those. Reading counts the digits from the first one on that is no zero, and these are no more than
the size of the number asks for.

* `Decimal.IsForm`: the decimal texts of a number.
* `Decimal.readUpTo?_of_lt`: digits are read if their number is small enough.
-/

namespace RpcEcho.Decimal

/-- Some characters are a decimal text of a number: digits, perhaps behind a sign. -/
inductive IsForm : Int → List Char → Prop
  | plain {digits : List Char} (notEmpty : digits ≠ [])
      (areDigits : ∀ c ∈ digits, c.isDigit = true) : IsForm (value digits) digits
  | plus {digits : List Char} (notEmpty : digits ≠ [])
      (areDigits : ∀ c ∈ digits, c.isDigit = true) : IsForm (value digits) ('+' :: digits)
  | minus {digits : List Char} (notEmpty : digits ≠ [])
      (areDigits : ∀ c ∈ digits, c.isDigit = true) : IsForm (-(value digits : Int)) ('-' :: digits)

theorem value_significant (digits : List Char) : value (significant digits) = value digits := by
  induction digits with
  | nil => rfl
  | cons first digits inductionHypothesis =>
      by_cases zero : first = '0'
      · rw [significant, List.dropWhile_cons_of_pos (by simpa using zero), ← significant,
          inductionHypothesis, zero]
        rfl
      · rw [significant, List.dropWhile_cons_of_neg (by simpa using zero)]

theorem mul_pow_le_foldl (digits : List Char) (before : Nat) :
    before * 10 ^ digits.length ≤
      digits.foldl (fun value digit => value * 10 + (digit.toNat - 48)) before := by
  induction digits generalizing before with
  | nil => simp
  | cons first digits inductionHypothesis =>
      calc before * 10 ^ (digits.length + 1)
          = before * 10 * 10 ^ digits.length := by ring
        _ ≤ (before * 10 + (first.toNat - 48)) * 10 ^ digits.length :=
            Nat.mul_le_mul_right _ (Nat.le_add_right _ _)
        _ ≤ _ := inductionHypothesis _

/-- A number has as many places as its digits, if the first one is no zero. -/
theorem pow_le_value {first : Char} (isDigit : first.isDigit = true) (notZero : first ≠ '0')
    (digits : List Char) : 10 ^ digits.length ≤ value (first :: digits) := by
  simp only [Char.isDigit, Bool.and_eq_true, decide_eq_true_eq, UInt32.le_iff_toNat_le] at isDigit
  have low : 48 ≤ first.toNat := isDigit.1
  have different : first.toNat ≠ 48 := fun same => notZero (Char.toNat_inj.mp same)
  have positive : 1 ≤ 0 * 10 + (first.toNat - 48) := by omega
  calc 10 ^ digits.length
      = 1 * 10 ^ digits.length := (Nat.one_mul _).symm
    _ ≤ (0 * 10 + (first.toNat - 48)) * 10 ^ digits.length := Nat.mul_le_mul_right _ positive
    _ ≤ value (first :: digits) := mul_pow_le_foldl digits _

theorem length_significant_le {digits : List Char} (areDigits : ∀ c ∈ digits, c.isDigit = true)
    {most : Nat} (small : value digits < 10 ^ most) : (significant digits).length ≤ most := by
  rw [← value_significant] at small
  cases shape : significant digits with
  | nil => exact Nat.zero_le most
  | cons first rest =>
      have notZero : first ≠ '0' := by
        have isHead := List.head?_dropWhile_not (fun c => c == '0') digits
        rw [← significant, shape] at isHead
        simpa using isHead
      have isDigit : first.isDigit = true := by
        have isSuffix := List.dropWhile_suffix (fun c => c == '0') (l := digits)
        rw [← significant, shape] at isSuffix
        exact areDigits first (isSuffix.mem List.mem_cons_self)
      rw [shape] at small
      have fewer := Nat.lt_of_le_of_lt (pow_le_value isDigit notZero rest) small
      exact (Nat.pow_lt_pow_iff_right (by decide)).mp fewer

/-- Digits are read as their number, however many zeros they begin with. -/
theorem readUpTo?_of_lt {digits : List Char} (notEmpty : digits ≠ [])
    (areDigits : ∀ c ∈ digits, c.isDigit = true) {most : Nat} (small : value digits < 10 ^ most) :
    readUpTo? most digits = some (value digits) := by
  have fewer := length_significant_le areDigits small
  rw [readUpTo?, if_neg (Nat.not_lt.mpr fewer)]
  exact read?_eq_some_iff.mpr ⟨notEmpty, areDigits, rfl⟩

end RpcEcho.Decimal
