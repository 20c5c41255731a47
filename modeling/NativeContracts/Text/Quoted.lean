import NativeContracts.Text.Hex
import NativeContracts.Text.Unprintable

/-! Texts and characters between quotes. A backslash stands before the quote and
before itself, a few controls have letters, and every other character that would
not show is written by its number in braces. -/

namespace NativeContracts.Quoted

/-- The shortest hexadecimal digits of a character's number. -/
def number (c : Char) : List Char := Nat.toDigits 16 c.toNat

/-- One character between quotes of the kind `quote`. -/
def escape (quote c : Char) : List Char :=
  if c = '\x00' then ['\\', '0']
  else if c = '\t' then ['\\', 't']
  else if c = '\r' then ['\\', 'r']
  else if c = '\n' then ['\\', 'n']
  else if c = '\\' ∨ c = quote then ['\\', c]
  else if Unprintable.contains c then ['\\', 'u', '\x7b'] ++ number c ++ ['\x7d']
  else [c]

def text (s : String) : String :=
  String.ofList ('"' :: s.toList.flatMap (escape '"') ++ ['"'])

def char (c : Char) : String := String.ofList ('\'' :: escape '\'' c ++ ['\''])

end NativeContracts.Quoted
