import Settlement.Decimal.Numeral
import Settlement.Fault
import Settlement.Table

/-!
# Reading JSON

`Json.read` reads a text as one JSON value. Beyond the standard it takes the words `NaN`,
`Infinity` and `-Infinity` for numbers, keeps the last of two fields of one name, and refuses whole
numbers of more than `Fault.longestWhole` digits. Numbers with a fraction or an exponent become
binary numbers of 64 bits.

A `Cursor` is what is left to read, with its offset from the start. Half of a surrogate pair without
the other half is no character, and an escape that spells one is refused.
-/

namespace Settlement.Json

/-- The rest of a text and its offset. -/
structure Cursor where
  offset : Nat
  rest : List Char

namespace Cursor

/-- The cursor `n` characters further on. -/
def skip (c : Cursor) (n : Nat) : Cursor := ⟨c.offset + n, c.rest.drop n⟩

/-- Space between the parts of a JSON text. -/
def isSpace (c : Char) : Bool := c == ' ' || c == '\t' || c == '\n' || c == '\r'

/-- The cursor behind the space that follows. -/
def skipSpace (c : Cursor) : Cursor := c.skip (c.rest.takeWhile isSpace).length

end Cursor

/-! ### Texts -/

/-- The value of a hexadecimal digit. -/
def hexDigit? (c : Char) : Option Nat :=
  if '0' ≤ c && c ≤ '9' then some (c.toNat - '0'.toNat)
  else if 'a' ≤ c && c ≤ 'f' then some (c.toNat - 'a'.toNat + 10)
  else if 'A' ≤ c && c ≤ 'F' then some (c.toNat - 'A'.toNat + 10)
  else none

/-- The code unit that four hexadecimal digits spell. -/
def unit? : List Char → Option Nat
  | [a, b, c, d] => do
    let a ← hexDigit? a
    let b ← hexDigit? b
    let c ← hexDigit? c
    let d ← hexDigit? d
    some (((a * 16 + b) * 16 + c) * 16 + d)
  | _ => none

/-- The character that a letter behind a backslash stands for. -/
def escapedChar? : Char → Option Char
  | '"' => some '"'
  | '\\' => some '\\'
  | '/' => some '/'
  | 'b' => some '\x08'
  | 'f' => some '\x0c'
  | 'n' => some '\n'
  | 'r' => some '\r'
  | 't' => some '\t'
  | _ => none

/-- The character of a code unit by itself. -/
def lone (offset unit : Nat) : Except Refusal Char :=
  if 0xD800 ≤ unit && unit ≤ 0xDFFF then .error (.malformed .loneSurrogate offset)
  else .ok (Char.ofNat unit)

/-- The character behind `\u`, where `digits` follows, and how many characters spell it: four, or
ten with the second half of a surrogate pair. An escape is complete only if the text goes on behind
it. -/
def unicodeEscape (offset : Nat) (digits : List Char) : Except Refusal (Char × Nat) :=
  if digits.length < 5 then .error (.malformed .badUnicodeEscape offset)
  else
    match unit? (digits.take 4) with
    | none => .error (.malformed .badUnicodeEscape offset)
    | some high =>
      let rest := digits.drop 4
      if 0xD800 ≤ high && high ≤ 0xDBFF && 6 < rest.length && rest.take 2 == ['\\', 'u'] then
        match unit? ((rest.drop 2).take 4) with
        | none => .error (.malformed .badUnicodeEscape (offset + 6))
        | some low =>
          if 0xDC00 ≤ low && low ≤ 0xDFFF then
            .ok (Char.ofNat (0x10000 + (high - 0xD800) * 0x400 + (low - 0xDC00)), 10)
          else (lone offset high).map (·, 4)
      else (lone offset high).map (·, 4)

/-- The text whose opening mark stands at `start`, read from behind what is `done` of it; one
character or escape is read for each unit of `fuel`. -/
def textFrom (start : Nat) : Nat → Cursor → List Char → Except Refusal (String × Cursor)
  | 0, _, _ => .error (.malformed .unterminatedText start)
  | fuel + 1, cur, done =>
    match cur.rest with
    | [] => .error (.malformed .unterminatedText start)
    | '"' :: _ => .ok (String.ofList done.reverse, cur.skip 1)
    | ['\\'] => .error (.malformed .unterminatedText start)
    | '\\' :: 'u' :: digits => do
      let (c, n) ← unicodeEscape (cur.offset + 1) digits
      textFrom start fuel (cur.skip (n + 2)) (c :: done)
    | '\\' :: letter :: _ =>
      match escapedChar? letter with
      | some c => textFrom start fuel (cur.skip 2) (c :: done)
      | none => .error (.malformed .badEscape cur.offset)
    | c :: _ =>
      if c.toNat ≤ 0x1F then .error (.malformed .controlCharacter cur.offset)
      else textFrom start fuel (cur.skip 1) (c :: done)

/-- The text whose opening mark stands at the cursor. -/
def text (cur : Cursor) : Except Refusal (String × Cursor) :=
  textFrom cur.offset (cur.rest.length + 1) (cur.skip 1) []

/-! ### Numbers -/

/-- The ten digits of the basic alphabet. -/
def isDigit (c : Char) : Bool := '0' ≤ c && c ≤ '9'

/-- The number that digits of the basic alphabet spell. -/
def digitsValue (cs : List Char) : Nat := Numeral.valueOf (cs.map fun c => c.toNat - '0'.toNat)

/-- The digits of the whole part: one zero, or digits that do not start with zero. -/
def wholePart : List Char → List Char
  | '0' :: _ => ['0']
  | cs => cs.takeWhile isDigit

/-- The digits of a fraction, without the point; none if no digit follows the point. -/
def fractionPart : List Char → List Char
  | '.' :: rest => rest.takeWhile isDigit
  | _ => []

/-- An exponent and the number of its characters; nothing if no digit belongs to it. -/
def exponentPart : List Char → Option (Int × Nat)
  | [] => none
  | mark :: rest =>
    if mark = 'e' || mark = 'E' then
      let (negative, digits) := Numeral.spanSign rest
      let digits' := digits.takeWhile isDigit
      if digits'.isEmpty then none
      else
        let n : Int := digitsValue digits'
        some (if negative then -n else n, 1 + (rest.length - digits.length) + digits'.length)
    else none

/-- The number at the cursor, and how many characters it takes. -/
def number (cur : Cursor) : Except Refusal (Value × Cursor) :=
  let negative := cur.rest.head? == some '-'
  let start := if negative then 1 else 0
  let whole := wholePart (cur.rest.drop start)
  if whole.isEmpty then .error (.malformed .expectedValue cur.offset)
  else
    let fraction := fractionPart (cur.rest.drop (start + whole.length))
    let behindFraction :=
      start + whole.length + (if fraction.isEmpty then 0 else fraction.length + 1)
    let exponent := exponentPart (cur.rest.drop behindFraction)
    if fraction.isEmpty && exponent.isNone then
      if Fault.longestWhole < whole.length then .error (.longWhole whole.length)
      else
        let n : Int := digitsValue whole
        .ok (.whole (if negative then -n else n), cur.skip behindFraction)
    else
      let (e, n) := exponent.getD (0, 0)
      let x : Decimal := ⟨negative, digitsValue (whole ++ fraction), e - fraction.length⟩
      .ok (.real (.ofDecimal x), cur.skip (behindFraction + n))

/-! ### Values -/

/-- Words that stand for values. -/
def words : List (String × Value) :=
  [("null", .null), ("true", .flag true), ("false", .flag false), ("NaN", .real .undefined),
    ("Infinity", .real (.infinite false)), ("-Infinity", .real (.infinite true))]

/-- The value of the word at the cursor. -/
def word? (cur : Cursor) : Option (Value × Cursor) :=
  (words.find? fun w => w.1.toList.isPrefixOf cur.rest).map fun w => (w.2, cur.skip w.1.length)

mutual

/-- The value at the cursor. Each unit of fuel enters one list, record or part of one. -/
def value : Nat → Cursor → Except Refusal (Value × Cursor)
  | 0, cur => .error (.malformed .expectedValue cur.offset)
  | fuel + 1, cur =>
    match cur.rest with
    | '"' :: _ => do
      let (s, cur) ← text cur
      .ok (.text s, cur)
    | '{' :: _ =>
      let cur := (cur.skip 1).skipSpace
      if cur.rest.head? == some '}' then .ok (.record [], cur.skip 1)
      else fields fuel cur []
    | '[' :: _ =>
      let cur := (cur.skip 1).skipSpace
      if cur.rest.head? == some ']' then .ok (.list [], cur.skip 1)
      else items fuel cur []
    | _ =>
      match word? cur with
      | some step => .ok step
      | none => number cur

/-- The items of a list from the cursor on, behind those that are done. -/
def items : Nat → Cursor → List Value → Except Refusal (Value × Cursor)
  | 0, cur, _ => .error (.malformed .expectedValue cur.offset)
  | fuel + 1, cur, done => do
    let (v, cur) ← value fuel cur
    let cur := cur.skipSpace
    if cur.rest.head? == some ']' then .ok (.list (v :: done).reverse, cur.skip 1)
    else if cur.rest.head? == some ',' then items fuel (cur.skip 1).skipSpace (v :: done)
    else .error (.malformed .expectedComma cur.offset)

/-- The fields of a record from the cursor on, behind those that are done. -/
def fields : Nat → Cursor → List (String × Value) → Except Refusal (Value × Cursor)
  | 0, cur, _ => .error (.malformed .expectedName cur.offset)
  | fuel + 1, cur, done => do
    if cur.rest.head? != some '"' then .error (.malformed .expectedName cur.offset)
    else
      let (name, cur) ← text cur
      let cur := cur.skipSpace
      if cur.rest.head? != some ':' then .error (.malformed .expectedColon cur.offset)
      else
        let (v, cur) ← value fuel (cur.skip 1).skipSpace
        let cur := cur.skipSpace
        let done := Table.insertIn name v done
        if cur.rest.head? == some '\x7d' then .ok (.record done, cur.skip 1)
        else if cur.rest.head? == some ',' then fields fuel (cur.skip 1).skipSpace done
        else .error (.malformed .expectedComma cur.offset)

end

/-- The value that a whole text spells. -/
def readChars (cs : List Char) : Except Refusal Value := do
  if cs.head? == some '\uFEFF' then .error (.malformed .byteOrderMark 0)
  else
    let (v, cur) ← value (2 * cs.length + 2) (Cursor.skipSpace ⟨0, cs⟩)
    let cur := cur.skipSpace
    if cur.rest.isEmpty then .ok v else .error (.malformed .extraData cur.offset)

/-- A text with every line ended by a single line feed. -/
def unifyLines : List Char → List Char
  | '\r' :: '\n' :: rest => '\n' :: unifyLines rest
  | '\r' :: rest => '\n' :: unifyLines rest
  | c :: rest => c :: unifyLines rest
  | [] => []

/-- The value that the octets of a file spell. -/
def read (octets : ByteArray) : Except Fault Value := do
  let cs ← (Text.Utf8.decode octets).mapError .undecodable
  let cs := unifyLines cs
  match readChars cs with
  | .ok v => .ok v
  | .error (.malformed cause offset) => .error (.notJson (.of cause cs offset))
  | .error (.longWhole digits) => .error (.longDigitString digits)

end Settlement.Json
