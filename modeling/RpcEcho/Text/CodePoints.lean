/-!
# Sets of code points

Classes of characters are lists of ranges of code points.
-/

namespace RpcEcho.Text

/-- Whether some range of a list, ends included, holds the code point. -/
def isWithin (codePoint : Nat) (ranges : List (Nat × Nat)) : Bool :=
  ranges.any fun range => range.1 ≤ codePoint && codePoint ≤ range.2

end RpcEcho.Text
