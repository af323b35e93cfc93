/-!
# Identifiers of checks

A check that is given no id gets a random one: sixteen octets, written as five groups of hexadecimal
digits, with the marks of a random identifier in the third and the fourth group.
-/

namespace Settlement.Check.Identifier

/-- An octet as two hexadecimal digits. -/
def octetDigits (n : Nat) : List Char :=
  (if n < 16 then ['0'] else []) ++ Nat.toDigits 16 n

/-- The seventh octet says that the identifier is random, the ninth of which layout it is. -/
def marked (position n : Nat) : Nat :=
  if position = 6 then 0x40 + n % 0x10 else if position = 8 then 0x80 + n % 0x40 else n

/-- The identifier of a sequence of octets. -/
def ofOctets (octets : List Nat) : String :=
  String.ofList (octets.zipIdx.flatMap fun (n, position) =>
    (if [4, 6, 8, 10].contains position then ['-'] else []) ++ octetDigits (marked position n))

end Settlement.Check.Identifier
