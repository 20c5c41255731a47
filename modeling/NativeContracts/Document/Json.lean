import NativeContracts.Document
import NativeContracts.Text.Hex

/-! Documents in JSON. A text holds exactly one value with blanks around it. Numbers
are integers of at most 64 bits, and all others are values of no use, like texts
with half a surrogate pair and tables that have such a text for a name. -/

namespace NativeContracts.Json

def isBlank (c : Char) : Bool := c = ' ' || c = '\n' || c = '\t' || c = '\r'

def skipBlanks (cs : List Char) : List Char := cs.dropWhile isBlank

/-- A text up to some place: its characters, the last one first, half a surrogate pair
that waits for the other, and whether there was no half alone so far. -/
structure Scan where
  done : List Char := []
  half : Option Nat := none
  whole : Bool := true

namespace Scan

def add (scan : Scan) (c : Char) : Scan :=
  ⟨c :: scan.done, none, scan.whole && scan.half.isNone⟩

def isHigh (unit : Nat) : Bool := 0xD800 ≤ unit && unit < 0xDC00

def isLow (unit : Nat) : Bool := 0xDC00 ≤ unit && unit < 0xE000

def addUnit (scan : Scan) (unit : Nat) : Scan :=
  match scan.half with
  | some high =>
    if isLow unit then
      ⟨Char.ofNat (0x10000 + (high - 0xD800) * 0x400 + (unit - 0xDC00)) :: scan.done, none,
        scan.whole⟩
    else ⟨scan.done, none, false⟩
  | none =>
    if isHigh unit then { scan with half := some unit }
    else if isLow unit then { scan with whole := false }
    else scan.add (Char.ofNat unit)

def text? (scan : Scan) : Option String :=
  if scan.whole && scan.half.isNone then some (String.ofList scan.done.reverse) else none

end Scan

/-- The character that a letter after a backslash stands for. -/
def escaped? : Char → Option Char
  | '"' => some '"'
  | '\\' => some '\\'
  | '/' => some '/'
  | 'b' => some '\x08'
  | 'f' => some '\x0c'
  | 'n' => some '\n'
  | 'r' => some '\r'
  | 't' => some '\t'
  | _ => none

/-- Reads a text after its opening quote. -/
def readText (scan : Scan) : List Char → Option (Option String × List Char)
  | '"' :: rest => some (scan.text?, rest)
  | '\\' :: 'u' :: a :: b :: c :: d :: rest =>
    match Hex.number? 4 0 [a, b, c, d] with
    | some (unit, _) => readText (scan.addUnit unit) rest
    | none => none
  | '\\' :: c :: rest =>
    match escaped? c with
    | some c => readText (scan.add c) rest
    | none => none
  | c :: rest => if c < ' ' then none else readText (scan.add c) rest
  | [] => none

def digitsValue (digits : List Char) : Nat :=
  digits.foldl (fun n d => 10 * n + (d.toNat - 48)) 0

/-- Reads digits, of which there is at least one. -/
def readDigits (cs : List Char) : Option (List Char × List Char) :=
  match cs.span Char.isDigit with
  | ([], _) => none
  | split => some split

/-- Reads a fraction, if there is one, and tells whether there was. -/
def readFraction : List Char → Option (Bool × List Char)
  | '.' :: rest => (readDigits rest).map fun split => (true, split.2)
  | rest => some (false, rest)

def readExponent : List Char → Option (Bool × List Char)
  | e :: rest =>
    if e = 'e' ∨ e = 'E' then
      let rest := match rest with
        | '+' :: rest | '-' :: rest => rest
        | _ => rest
      (readDigits rest).map fun split => (true, split.2)
    else some (false, e :: rest)
  | [] => some (false, [])

/-- An integer of 64 bits, signed or not. Minus zero is none. -/
def integer (negative : Bool) (size : Nat) : Document :=
  if negative then
    if size = 0 ∨ 1 <<< 63 < size then .other else .integer (-size)
  else if 1 <<< 64 ≤ size then .other else .integer size

def readNumber (cs : List Char) : Option (Document × List Char) := do
  let (negative, cs) := match cs with
    | '-' :: rest => (true, rest)
    | _ => (false, cs)
  let (digits, rest) ← readDigits cs
  if digits.head? = some '0' ∧ 1 < digits.length then none
  let (fraction, rest) ← readFraction rest
  let (exponent, rest) ← readExponent rest
  if fraction || exponent then return (.other, rest)
  return (integer negative (digitsValue digits), rest)

/-- A table, if all its names are texts. -/
def tableOf (fields : List (Option String × Document)) : Document :=
  match fields.mapM fun field => field.1.map (·, field.2) with
  | some fields => .table fields
  | none => .other

mutual

/-- Reads a value. Every step takes at least one character or goes one place into a
value that does, so that twice the length of the text is `fuel` enough. -/
def readValue (fuel : Nat) (cs : List Char) : Option (Document × List Char) :=
  match fuel with
  | 0 => none
  | fuel + 1 =>
    match skipBlanks cs with
    | '"' :: rest =>
      match readText {} rest with
      | some (some value, rest) => some (.text value, rest)
      | some (none, rest) => some (.other, rest)
      | none => none
    | '[' :: rest =>
      match skipBlanks rest with
      | ']' :: rest => some (.list [], rest)
      | rest => readItems fuel [] rest
    | '\x7b' :: rest =>
      match skipBlanks rest with
      | '\x7d' :: rest => some (.table [], rest)
      | rest => readFields fuel [] rest
    | 't' :: 'r' :: 'u' :: 'e' :: rest => some (.boolean true, rest)
    | 'f' :: 'a' :: 'l' :: 's' :: 'e' :: rest => some (.boolean false, rest)
    | 'n' :: 'u' :: 'l' :: 'l' :: rest => some (.null, rest)
    | rest => readNumber rest

/-- Reads the values of a list after the first of them was announced. -/
def readItems (fuel : Nat) (done : List Document) (cs : List Char) :
    Option (Document × List Char) :=
  match fuel with
  | 0 => none
  | fuel + 1 =>
    match readValue fuel cs with
    | none => none
    | some (value, rest) =>
      match skipBlanks rest with
      | ',' :: rest => readItems fuel (value :: done) rest
      | ']' :: rest => some (.list (value :: done).reverse, rest)
      | _ => none

def readFields (fuel : Nat) (done : List (Option String × Document)) (cs : List Char) :
    Option (Document × List Char) :=
  match fuel with
  | 0 => none
  | fuel + 1 =>
    match readName cs with
    | none => none
    | some (name, rest) =>
      match readValue fuel rest with
      | none => none
      | some (value, rest) =>
        match skipBlanks rest with
        | ',' :: rest => readFields fuel ((name, value) :: done) rest
        | '\x7d' :: rest => some (tableOf ((name, value) :: done).reverse, rest)
        | _ => none

/-- Reads a name and the colon after it. -/
def readName (cs : List Char) : Option (Option String × List Char) :=
  match skipBlanks cs with
  | '"' :: rest =>
    match readText {} rest with
    | none => none
    | some (name, rest) =>
      match skipBlanks rest with
      | ':' :: rest => some (name, rest)
      | _ => none
  | _ => none

end

def read? (text : String) : Option Document := do
  let cs := text.toList
  let (document, rest) ← readValue (2 * cs.length + 2) cs
  if (skipBlanks rest).isEmpty then some document else none

/-- A character between quotes. -/
def escape (c : Char) : List Char :=
  if c = '"' ∨ c = '\\' then ['\\', c]
  else if c = '\x08' then ['\\', 'b']
  else if c = '\x0c' then ['\\', 'f']
  else if c = '\n' then ['\\', 'n']
  else if c = '\r' then ['\\', 'r']
  else if c = '\t' then ['\\', 't']
  else if c < ' ' then '\\' :: 'u' :: Hex.fixed 4 c.toNat
  else [c]

def writeText (text : String) : String :=
  String.ofList ('"' :: text.toList.flatMap escape ++ ['"'])

def writeList (items : List String) : String := "[" ++ ",".intercalate items ++ "]"

def writeTable (fields : List (String × String)) : String :=
  "\x7b" ++ ",".intercalate (fields.map fun f => writeText f.1 ++ ":" ++ f.2) ++ "\x7d"

end NativeContracts.Json
