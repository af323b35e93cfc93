/-!
# Why a text is not JSON

A syntax failure says what is wrong and where. Places are counted in characters: the offset from the
start of the text counts from zero, lines and columns count from one.
-/

namespace Settlement.Json

/-- What is wrong at some place of a text. -/
inductive Cause where
  | byteOrderMark
  | expectedValue
  | expectedName
  | expectedColon
  | expectedComma
  | extraData
  | unterminatedText
  | controlCharacter
  | badEscape
  | badUnicodeEscape
  /-- Half of a surrogate pair is spelled without the other half. -/
  | loneSurrogate
  deriving DecidableEq

/-- The cause in words. -/
def Cause.text : Cause → String
  | .byteOrderMark => "Unexpected UTF-8 BOM (decode using utf-8-sig)"
  | .expectedValue => "Expecting value"
  | .expectedName => "Expecting property name enclosed in double quotes"
  | .expectedColon => "Expecting ':' delimiter"
  | .expectedComma => "Expecting ',' delimiter"
  | .extraData => "Extra data"
  | .unterminatedText => "Unterminated string starting at"
  | .controlCharacter => "Invalid control character at"
  | .badEscape => "Invalid \\escape"
  | .badUnicodeEscape => "Invalid \\uXXXX escape"
  | .loneSurrogate => "Lone surrogate in \\uXXXX escape"

/-- Why a reader stops: at some offset, or because a whole number has too many digits. -/
inductive Refusal where
  | malformed (cause : Cause) (offset : Nat)
  | longWhole (digits : Nat)
  deriving DecidableEq

/-- A cause and its place. -/
structure Place where
  cause : Cause
  line : Nat
  column : Nat
  offset : Nat
  deriving DecidableEq

/-- The place of an offset in a text. -/
def Place.of (cause : Cause) (text : List Char) (offset : Nat) : Place :=
  let before := text.take offset
  ⟨cause, before.count '\n' + 1, (before.reverse.takeWhile (· != '\n')).length + 1, offset⟩

/-- The cause and its place in words. -/
def Place.text (p : Place) : String :=
  s!"{p.cause.text}: line {p.line} column {p.column} (char {p.offset})"

end Settlement.Json
