/-!
# Parts of texts

Where some characters stand, one behind the other, among others.

* `Text.behind?`: what stands behind the first place where a part occurs.
* `Text.occursIn`: whether a part occurs.
-/

namespace RpcEcho.Text

/-- What stands behind the first place where a part occurs. -/
def behind? (part : List Char) : List Char → Option (List Char)
  | [] => if part.isEmpty then some [] else none
  | c :: rest =>
    if part.isPrefixOf (c :: rest) then some ((c :: rest).drop part.length) else behind? part rest

/-- Whether a text stands somewhere in another. -/
def occursIn (part text : String) : Bool := (behind? part.toList text.toList).isSome

theorem isSome_behind?_iff {part chars : List Char} :
    (behind? part chars).isSome = true ↔ part <:+: chars := by
  induction chars with
  | nil =>
    rw [behind?, List.infix_nil]
    split <;> simp_all
  | cons c rest inductionHypothesis =>
    rw [behind?, List.infix_cons_iff, ← inductionHypothesis, ← List.isPrefixOf_iff_prefix]
    split <;> simp_all

end RpcEcho.Text
