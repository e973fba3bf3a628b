/-!
# Blanks

White space as Unicode lists it, and texts without the white space at their ends.

* `Text.isBlank`: the twenty-five white-space characters.
* `Text.trim`: a text without the white space at its ends.
-/

namespace RpcEcho.Text

/-- Whether a character is white space. -/
def isBlank (c : Char) : Bool :=
  let codePoint := c.toNat
  (0x09 ≤ codePoint && codePoint ≤ 0x0D) || codePoint == 0x20 || codePoint == 0x85
    || codePoint == 0xA0 || codePoint == 0x1680 || (0x2000 ≤ codePoint && codePoint ≤ 0x200A)
    || codePoint == 0x2028 || codePoint == 0x2029 || codePoint == 0x202F || codePoint == 0x205F
    || codePoint == 0x3000

/-- Drops the white space at the end of a sequence of characters. -/
def trimEndChars (chars : List Char) : List Char := (chars.reverse.dropWhile isBlank).reverse

/-- Drops the white space at the front and at the end of a sequence of characters. -/
def trimChars (chars : List Char) : List Char := trimEndChars (chars.dropWhile isBlank)

/-- A text without the white space at its ends. -/
def trim (text : String) : String := String.ofList (trimChars text.toList)

end RpcEcho.Text
