import Settlement.Binary64
import Settlement.Text.Quoted

/-!
# Unchecked values

A `Value` is what stands in a field before anyone has checked that it is of the right kind: a field
of a session file, an argument of a caller. Checks name the kind of a value they refuse
(`Value.kind`), or show the value itself, with quotation marks around texts (`Value.quoted`) or
without (`Value.shown`).
-/

namespace Settlement

/-- A value of any kind. The fields of a record are in order, and no two have one name. -/
inductive Value where
  | null
  | flag (b : Bool)
  | whole (n : Int)
  | real (x : Binary64)
  | decimal (x : Numeric)
  | text (s : String)
  | list (items : List Value)
  | record (fields : List (String × Value))

namespace Value

/-- The name of the kind of a value. -/
def kind : Value → String
  | null => "NoneType"
  | flag _ => "bool"
  | whole _ => "int"
  | real _ => "float"
  | decimal _ => "Decimal"
  | text _ => "str"
  | list _ => "list"
  | record _ => "dict"

/-- The name of the kind of a value, with the library that a decimal comes from. -/
def fullKind : Value → String
  | decimal _ => "decimal.Decimal"
  | v => v.kind

mutual

/-- A value as it is shown inside a message, texts between quotation marks. -/
def quoted : Value → String
  | null => "None"
  | flag b => if b then "True" else "False"
  | whole n => toString n
  | real x => x.text
  | decimal x => "Decimal('" ++ x.text ++ "')"
  | text s => Text.quoted s
  | list items => "[" ++ ", ".intercalate (quotedItems items) ++ "]"
  | record fields => "\x7b" ++ ", ".intercalate (quotedFields fields) ++ "\x7d"

/-- The items of a list, each as it is shown. -/
def quotedItems : List Value → List String
  | [] => []
  | v :: rest => quoted v :: quotedItems rest

/-- The fields of a record, each as it is shown. -/
def quotedFields : List (String × Value) → List String
  | [] => []
  | (name, v) :: rest => (Text.quoted name ++ ": " ++ quoted v) :: quotedFields rest

end

/-- A value as it is shown by itself: a text as it is, a decimal as its numeral. -/
def shown : Value → String
  | text s => s
  | decimal x => x.text
  | v => v.quoted

/-- Values that stand for nothing where a value of any kind may stand: null, `false`, zero, and the
empty text, list and record. -/
def isVoid : Value → Bool
  | null => true
  | flag b => !b
  | whole n => n == 0
  | real x => x.isZero
  | decimal x => x.isZero
  | text s => s.isEmpty
  | list items => items.isEmpty
  | record fields => fields.isEmpty

mutual

/-- The whole numbers that a value shows, those in its items and fields among them. -/
def wholes : Value → List Int
  | whole n => [n]
  | list items => wholesOfItems items
  | record fields => wholesOfFields fields
  | null | flag _ | real _ | decimal _ | text _ => []

/-- The whole numbers that the items of a list show. -/
def wholesOfItems : List Value → List Int
  | [] => []
  | v :: rest => wholes v ++ wholesOfItems rest

/-- The whole numbers that the fields of a record show. -/
def wholesOfFields : List (String × Value) → List Int
  | [] => []
  | (_, v) :: rest => wholes v ++ wholesOfFields rest

end

end Value

/-- A field that should hold an `α`: it does, or some other value was found in its place. -/
inductive Given (α : Type) where
  | given (a : α)
  | other (v : Value)

/-- The value that a field should hold, or the error for the value found in its place. -/
def Given.require {α ε : Type} (refuse : Value → ε) : Given α → Except ε α
  | .given a => .ok a
  | .other v => .error (refuse v)

end Settlement
