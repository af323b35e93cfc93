/-!
# Letter case of code words

Code words (currency codes, reasons, level names) are written in the twenty-six Latin capitals, and
are recognised in other spellings. A few letters outside the basic alphabet, such as `ß` and the
ligature `ﬁ`, have capitals inside it: `Text.upper` and `Text.fold` give the letters that are
written with basic ones when capitalised or when case is ignored, and keep every other character.
A text that keeps such a character is no code word, whatever its capital would be.
-/

namespace Settlement.Text

/-- Letters outside the basic alphabet whose capital form is written inside it. -/
def capitalForms : List (Char × String) :=
  [('ß', "SS"), ('ı', "I"), ('ſ', "S"), ('ﬀ', "FF"), ('ﬁ', "FI"), ('ﬂ', "FL"), ('ﬃ', "FFI"),
    ('ﬄ', "FFL"), ('ﬅ', "ST"), ('ﬆ', "ST")]

/-- Letters outside the basic alphabet that are spelled inside it when case is ignored. -/
def foldedForms : List (Char × String) :=
  [('ß', "ss"), ('ſ', "s"), ('ẞ', "ss"), ('\u212A', "k"), ('ﬀ', "ff"), ('ﬁ', "fi"), ('ﬂ', "fl"),
    ('ﬃ', "ffi"), ('ﬄ', "ffl"), ('ﬅ', "st"), ('ﬆ', "st")]

/-- The capital form of a text, as far as it is written with the basic alphabet. -/
def upper (s : String) : String :=
  String.ofList (s.toList.flatMap fun c =>
    ((capitalForms.lookup c).map String.toList).getD [c.toUpper])

/-- A text when case is ignored, as far as it is then spelled with the basic alphabet. -/
def fold (s : String) : String :=
  String.ofList (s.toList.flatMap fun c =>
    ((foldedForms.lookup c).map String.toList).getD [c.toLower])

/-- The twenty-six Latin capitals. -/
def isCapital (c : Char) : Bool := 'A' ≤ c && c ≤ 'Z'

/-- The letters of the basic alphabet, of either case. -/
def isLetter (c : Char) : Bool := isCapital c || ('a' ≤ c && c ≤ 'z')

end Settlement.Text
