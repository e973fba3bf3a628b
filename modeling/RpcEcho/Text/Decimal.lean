/-!
# Decimal numbers

The numbers that ASCII digits spell.

* `Decimal.value`: the number of some digits, however many zeros they begin with.
* `Decimal.read?`: the number of some characters, if all of them are digits.
* `Decimal.readUpTo?`: the same, unless too many digits count.
-/

namespace RpcEcho.Decimal

/-- The number that digits spell. -/
def value (digits : List Char) : Nat :=
  digits.foldl (fun value digit => value * 10 + (digit.toNat - 48)) 0

/-- The number that characters spell, if there is at least one and all are digits. -/
def read? (chars : List Char) : Option Nat :=
  if chars.isEmpty || !chars.all Char.isDigit then none else some (value chars)

/-- The digits that count: those from the first one on that is no zero. -/
def significant (chars : List Char) : List Char := chars.dropWhile fun c => c == '0'

/-- The number that characters spell, if there is at least one, all are digits, and at most `most`
of them count. -/
def readUpTo? (most : Nat) (chars : List Char) : Option Nat :=
  if most < (significant chars).length then none else read? chars

theorem value_concat (digits : List Char) (last : Char) :
    value (digits ++ [last]) = value digits * 10 + (last.toNat - 48) := by
  simp only [value, List.foldl_append, List.foldl_cons, List.foldl_nil]

theorem read?_eq_some_iff {chars : List Char} {number : Nat} :
    read? chars = some number ↔
      chars ≠ [] ∧ (∀ c ∈ chars, c.isDigit = true) ∧ value chars = number := by
  unfold read?
  split
  · rename_i refused
    simp only [Bool.or_eq_true, List.isEmpty_iff, Bool.not_eq_true', List.all_eq_false] at refused
    constructor
    · intro found
      cases found
    · rintro ⟨nonempty, digits, _⟩
      rcases refused with empty | ⟨c, member, other⟩
      · exact absurd empty nonempty
      · exact absurd (digits c member) other
  · rename_i accepted
    simp only [Bool.or_eq_true, List.isEmpty_iff, Bool.not_eq_true', not_or, Bool.not_eq_false,
      List.all_eq_true] at accepted
    obtain ⟨nonempty, digits⟩ := accepted
    rw [Option.some.injEq]
    exact ⟨fun same => ⟨nonempty, digits, same⟩, fun spelled => spelled.2.2⟩

end RpcEcho.Decimal
