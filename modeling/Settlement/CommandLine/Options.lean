import Settlement.Text.LetterCase

/-!
# Options on a command line

Options have long names. The value of an option follows in the next argument, whatever that looks
like, or behind an equals sign. Everything behind a bare `--` is an operand. Options may stand among
the operands, unless the first operand is to end them.
-/

namespace Settlement.CommandLine

/-- An option: its name, and whether a value belongs to it. -/
structure Switch where
  name : String
  takesValue : Bool

/-- What an argument list holds: options in order, each with its value, and operands. -/
structure Parsed where
  options : List (String × String)
  operands : List String

namespace Parsed

/-- The last value given for an option. -/
def last? (p : Parsed) (name : String) : Option String := p.options.reverse.lookup name

/-- All values given for an option, in order. -/
def all (p : Parsed) (name : String) : List String :=
  (p.options.filter fun o => o.1 == name).map Prod.snd

def has (p : Parsed) (name : String) : Bool := (p.last? name).isSome

end Parsed

/-- The parts of a text before and after its first equals sign. -/
def splitEquals (s : String) : String × Option String :=
  match s.toList.span (· != '=') with
  | (_, []) => (s, none)
  | (name, _ :: value) => (String.ofList name, some (String.ofList value))

/-- Arguments that are read as options: a hyphen and something behind it. -/
def isOptionLike (arg : String) : Bool :=
  match arg.toList with
  | '-' :: _ :: _ => true
  | _ => false

/-- Reads arguments; none is the answer to an unknown option, a missing value or one too many. The
flag says whether options may stand behind operands. -/
def parseInto (known : List Switch) (mixed : Bool) (done : Parsed) :
    List String → Option Parsed
  | [] => some done
  | arg :: rest =>
    if arg = "--" then some { done with operands := done.operands ++ rest }
    else if isOptionLike arg then
      let (name, attached) := splitEquals arg
      match known.find? fun o => o.name == name with
      | none => none
      | some o =>
        let add (value : String) : Parsed :=
          { done with options := done.options ++ [(name, value)] }
        match o.takesValue, attached, rest with
        | true, some value, rest => parseInto known mixed (add value) rest
        | true, none, value :: rest => parseInto known mixed (add value) rest
        | true, none, [] => none
        | false, some _, _ => none
        | false, none, rest => parseInto known mixed (add "") rest
    else if mixed then
      parseInto known mixed { done with operands := done.operands ++ [arg] } rest
    else some { done with operands := done.operands ++ arg :: rest }

/-- The options and operands of an argument list. -/
def parse (known : List Switch) (mixed : Bool) (args : List String) : Option Parsed :=
  parseInto known mixed ⟨[], []⟩ args

/-- The choice that a text names, in any case. -/
def choose? (choices : List String) (s : String) : Option String :=
  choices.find? fun choice => Text.fold choice == Text.fold s

end Settlement.CommandLine
