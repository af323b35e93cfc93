/-!
# Reading UTF-8

`Utf8.decode` reads a sequence of octets as characters. An octet sequence that is none is refused at
the first character that cannot be completed, with the range of octets at fault: the longest start
of a character found there, or the single octet that starts none.
-/

namespace Settlement.Text.Utf8

/-- What is wrong with the octets at fault. -/
inductive Flaw where
  /-- No character starts with this octet. -/
  | start
  /-- A character starts here, but the next octet does not continue it. -/
  | continuation
  /-- The octets end inside a character. -/
  | truncated
  deriving DecidableEq

/-- Where and why octets are not UTF-8: the `count` octets from `position` on are at fault. -/
structure Failure where
  position : Nat
  count : Nat
  octet : Nat
  flaw : Flaw
  deriving DecidableEq

/-- What a first octet asks for: how many octets follow, and the range of the next one. -/
def lead? (b : Nat) : Option (Nat × Nat × Nat) :=
  if b < 0x80 then some (0, 0x80, 0xBF)
  else if 0xC2 ≤ b && b ≤ 0xDF then some (1, 0x80, 0xBF)
  else if b == 0xE0 then some (2, 0xA0, 0xBF)
  else if b == 0xED then some (2, 0x80, 0x9F)
  else if 0xE1 ≤ b && b ≤ 0xEF then some (2, 0x80, 0xBF)
  else if b == 0xF0 then some (3, 0x90, 0xBF)
  else if b == 0xF4 then some (3, 0x80, 0x8F)
  else if 0xF1 ≤ b && b ≤ 0xF3 then some (3, 0x80, 0xBF)
  else none

/-- The bits that a first octet contributes when `n` octets follow it. -/
def leadBits (b n : Nat) : Nat :=
  match n with
  | 0 => b
  | 1 => b % 0x20
  | 2 => b % 0x10
  | _ => b % 0x08

/-- Where the reader stands: between characters, or inside one that started at `start` with octet
`first`, has the bits `bits` and `seen` octets so far, and needs `left` more, the next between
`low` and `high`. -/
structure Progress where
  start : Nat
  first : Nat
  seen : Nat
  bits : Nat
  left : Nat
  low : Nat
  high : Nat

/-- Reads octets from `position` on; `done` holds the characters read so far, the last one first. -/
def decodeFrom (position : Nat) (current : Option Progress) (done : List Char) :
    List Nat → Except Failure (List Char)
  | [] =>
    match current with
    | none => .ok done.reverse
    | some p => .error ⟨p.start, p.seen, p.first, .truncated⟩
  | b :: rest =>
    match current with
    | none =>
      match lead? b with
      | none => .error ⟨position, 1, b, .start⟩
      | some (0, _, _) => decodeFrom (position + 1) none (Char.ofNat b :: done) rest
      | some (n, low, high) =>
        decodeFrom (position + 1) (some ⟨position, b, 1, leadBits b n, n, low, high⟩) done rest
    | some p =>
      if p.low ≤ b && b ≤ p.high then
        let bits := p.bits * 0x40 + b % 0x40
        if p.left ≤ 1 then decodeFrom (position + 1) none (Char.ofNat bits :: done) rest
        else
          decodeFrom (position + 1)
            (some ⟨p.start, p.first, p.seen + 1, bits, p.left - 1, 0x80, 0xBF⟩) done rest
      else .error ⟨p.start, p.seen, p.first, .continuation⟩

/-- The characters that a sequence of octets spells. -/
def decode (octets : ByteArray) : Except Failure (List Char) :=
  decodeFrom 0 none [] (octets.data.toList.map UInt8.toNat)

/-- The octets at fault and what is wrong with them, in words. -/
def Failure.text (f : Failure) : String :=
  let reason := match f.flaw with
    | .start => "invalid start byte"
    | .continuation => "invalid continuation byte"
    | .truncated => "unexpected end of data"
  if f.count = 1 then
    "'utf-8' codec can't decode byte 0x" ++ String.ofList (Nat.toDigits 16 f.octet) ++
      s!" in position {f.position}: {reason}"
  else
    s!"'utf-8' codec can't decode bytes in position {f.position}-" ++
      s!"{f.position + f.count - 1}: {reason}"

end Settlement.Text.Utf8
