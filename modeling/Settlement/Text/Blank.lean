/-!
# Blank characters

A character is blank when it separates or surrounds words: the white space of Unicode, and the
four separator controls U+001C to U+001F. `Text.trim` removes blanks from both ends of a text.
-/

namespace Settlement.Text

/-- Blank characters: Unicode white space and the separator controls U+001C to U+001F. -/
def isBlank (c : Char) : Bool :=
  let n := c.toNat
  (0x09 ≤ n && n ≤ 0x0D) || (0x1C ≤ n && n ≤ 0x20) || n == 0x85 || n == 0xA0 || n == 0x1680 ||
    (0x2000 ≤ n && n ≤ 0x200A) || n == 0x2028 || n == 0x2029 || n == 0x202F || n == 0x205F ||
    n == 0x3000

/-- The text without the blanks at its two ends. -/
def trimChars (cs : List Char) : List Char :=
  ((cs.dropWhile isBlank).reverse.dropWhile isBlank).reverse

/-- The text without the blanks at its two ends. -/
def trim (s : String) : String := String.ofList (trimChars s.toList)

/-- Texts that hold nothing but blanks, the empty one among them. -/
def isBlankText (s : String) : Bool := s.toList.all isBlank

end Settlement.Text
