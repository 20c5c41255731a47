/-! Bytes as pairs of hexadecimal digits. Writing uses lower case; reading takes
either case, refuses an odd number of digits first, and otherwise names the first
byte of the text that is no digit. -/

namespace NativeContracts.Hex

def digit (n : UInt8) : Char :=
  if n < 10 then Char.ofUInt8 (48 + n) else Char.ofUInt8 (87 + n)

def encodeByte (byte : UInt8) : List Char := [digit (byte / 16), digit (byte % 16)]

def encode (bytes : List UInt8) : String := String.ofList (bytes.flatMap encodeByte)

/-- The `digits` lowest hexadecimal digits of a number, leading zeros included. -/
def fixed : Nat → Nat → List Char
  | 0, _ => []
  | digits + 1, n => fixed digits (n / 16) ++ [digit (n % 16).toUInt8]

/-- The value of an ASCII digit. -/
def value? (byte : UInt8) : Option UInt8 :=
  if 48 ≤ byte ∧ byte ≤ 57 then some (byte - 48)
  else if 65 ≤ byte ∧ byte ≤ 70 then some (byte - 55)
  else if 97 ≤ byte ∧ byte ≤ 102 then some (byte - 87)
  else none

/-- The value of a digit in a text. -/
def charValue? (c : Char) : Option Nat :=
  if c.toNat < 128 then (value? c.toNat.toUInt8).map UInt8.toNat else none

/-- The number that the first `count` characters spell, and the characters after them. -/
def number? : Nat → Nat → List Char → Option (Nat × List Char)
  | 0, n, rest => some (n, rest)
  | count + 1, n, c :: rest =>
    match charValue? c with
    | some d => number? count (16 * n + d) rest
    | none => none
  | _ + 1, _, [] => none

inductive Fault where
  | oddLength
  | invalidDigit (byte : UInt8) (position : Nat)
  deriving DecidableEq

/-- `done` holds the bytes read so far, the last one first. -/
def decodePairs (position : Nat) (done : List UInt8) : List UInt8 → Except Fault (List UInt8)
  | high :: low :: rest =>
    match value? high, value? low with
    | none, _ => .error (.invalidDigit high position)
    | some _, none => .error (.invalidDigit low (position + 1))
    | some h, some l => decodePairs (position + 2) ((16 * h + l) :: done) rest
  | _ => .ok done.reverse

def decode (text : List UInt8) : Except Fault (List UInt8) :=
  if text.length % 2 = 1 then .error .oddLength else decodePairs 0 [] text

end NativeContracts.Hex
