import NativeContracts.Document
import NativeContracts.Text.Hex

/-! Numbers, dates and truth values in TOML. Digits may have single underscores
between them. Dates and times have to exist, leap seconds included. A fraction that
is too large for a 64-bit float is refused when it is positive. -/

namespace NativeContracts.Toml

/-- Reads further digits, each after one underscore or none. -/
def moreDigits (isDigit : Char → Bool) (done : List Char) :
    List Char → Option (List Char × List Char)
  | '_' :: c :: rest => if isDigit c then moreDigits isDigit (c :: done) rest else none
  | ['_'] => none
  | c :: rest =>
    if isDigit c then moreDigits isDigit (c :: done) rest else some (done.reverse, c :: rest)
  | [] => some (done.reverse, [])

def readDigits (isDigit : Char → Bool) : List Char → Option (List Char × List Char)
  | c :: rest => if isDigit c then moreDigits isDigit [c] rest else none
  | [] => none

/-- Reads decimal digits without a zero before others. -/
def readDecimal : List Char → Option (List Char × List Char)
  | '0' :: rest => some (['0'], rest)
  | cs => readDigits Char.isDigit cs

def valueIn (base : Nat) (digits : List Char) : Nat :=
  digits.foldl (fun n d => base * n + (Hex.charValue? d).getD 0) 0

def readSign : List Char → Bool × List Char
  | '-' :: rest => (true, rest)
  | '+' :: rest => (false, rest)
  | cs => (false, cs)

/-- An integer of 64 bits with a sign. -/
def integer? (negative : Bool) (size : Nat) : Option Document :=
  if negative then if size ≤ 1 <<< 63 then some (.integer (-size)) else none
  else if size < 1 <<< 63 then some (.integer size) else none

def readBased (base : Nat) (isDigit : Char → Bool) (cs : List Char) :
    Option (Document × List Char) := do
  let (digits, rest) ← readDigits isDigit cs
  return (← integer? false (valueIn base digits), rest)

def isBelow (base : Nat) (c : Char) : Bool :=
  match Hex.charValue? c with
  | some d => d < base
  | none => false

def readInteger : List Char → Option (Document × List Char)
  | '0' :: 'x' :: rest => readBased 16 (isBelow 16) rest
  | '0' :: 'o' :: rest => readBased 8 (isBelow 8) rest
  | '0' :: 'b' :: rest => readBased 2 (isBelow 2) rest
  | cs => do
    let (negative, cs) := readSign cs
    let (digits, rest) ← readDecimal cs
    return (← integer? negative (valueIn 10 digits), rest)

/-- Whether `size` times a power of ten is rounded to infinity: it is no less than the
middle between the largest float and the power of two above it. -/
def isInfinite (size : Nat) (exponent : Int) : Bool :=
  let bound := 1 <<< 1024 - 1 <<< 970
  let digits : Int := (Nat.toDigits 10 size).length
  if size = 0 ∨ digits + exponent < 300 then false
  else if 320 < digits + exponent then true
  else if 0 ≤ exponent then bound ≤ size * Nat.pow 10 exponent.toNat
  else bound * Nat.pow 10 (-exponent).toNat ≤ size

/-- Reads an exponent with its letter. -/
def readExponent : List Char → Option (Int × List Char)
  | e :: rest =>
    if e = 'e' ∨ e = 'E' then do
      let (negative, rest) := readSign rest
      let (digits, rest) ← readDigits Char.isDigit rest
      let size : Int := valueIn 10 digits
      return (if negative then -size else size, rest)
    else none
  | [] => none

def readSpecial : List Char → Option (List Char)
  | 'i' :: 'n' :: 'f' :: rest => some rest
  | 'n' :: 'a' :: 'n' :: rest => some rest
  | _ => none

/-- Reads a fraction. -/
def readFloat (cs : List Char) : Option (Document × List Char) := do
  let (negative, cs) := readSign cs
  match readSpecial cs with
  | some rest => return (.other, rest)
  | none =>
    let (whole, rest) ← readDecimal cs
    let (fraction, exponent, rest) ← match rest with
      | '.' :: rest => do
        let (fraction, rest) ← readDigits Char.isDigit rest
        let (exponent, rest) := (readExponent rest).getD (0, rest)
        some (fraction, exponent, rest)
      | rest => do
        let (exponent, rest) ← readExponent rest
        some ([], exponent, rest)
    if !negative && isInfinite (valueIn 10 (whole ++ fraction)) (exponent - fraction.length) then
      none
    else return (.other, rest)

/-- Reads exactly `count` digits that spell a number between `low` and `high`. -/
def readField (count low high : Nat) (cs : List Char) : Option (Nat × List Char) :=
  let digits := cs.take count
  let value := valueIn 10 digits
  if digits.length = count ∧ digits.all Char.isDigit ∧ low ≤ value ∧ value ≤ high then
    some (value, cs.drop count)
  else none

def readMark (mark : Char) : List Char → Option (List Char)
  | c :: rest => if c = mark then some rest else none
  | [] => none

def daysIn (year month : Nat) : Nat :=
  if month = 2 then
    if year % 4 = 0 ∧ (year % 100 ≠ 0 ∨ year % 400 = 0) then 29 else 28
  else if month = 4 ∨ month = 6 ∨ month = 9 ∨ month = 11 then 30
  else 31

/-- The characters after a date. -/
def readDate (cs : List Char) : Option (List Char) := do
  let (year, rest) ← readField 4 0 9999 cs
  let rest ← readMark '-' rest
  let (month, rest) ← readField 2 1 12 rest
  let rest ← readMark '-' rest
  let (_, rest) ← readField 2 1 (daysIn year month) rest
  return rest

def readClock (cs : List Char) : Option (List Char) := do
  let (_, rest) ← readField 2 0 23 cs
  let rest ← readMark ':' rest
  let (_, rest) ← readField 2 0 59 rest
  return rest

/-- The characters after a time of day. -/
def readTime (cs : List Char) : Option (List Char) := do
  let rest ← readClock cs
  let rest ← readMark ':' rest
  let (_, rest) ← readField 2 0 60 rest
  match rest with
  | '.' :: digits =>
    match digits.span Char.isDigit with
    | ([], _) => return rest
    | (_, rest) => return rest
  | _ => return rest

/-- The characters after an offset from universal time, if there is one. -/
def skipOffset : List Char → Option (List Char)
  | 'Z' :: rest | 'z' :: rest => some rest
  | '+' :: rest | '-' :: rest => readClock rest
  | rest => some rest

/-- The characters after the time of day that follows a date, if one does. -/
def skipTime (cs : List Char) : List Char :=
  match cs with
  | c :: rest =>
    if c = 'T' ∨ c = 't' ∨ c = ' ' then ((readTime rest).bind skipOffset).getD cs else cs
  | [] => []

/-- A date or a time is a table with a field of its own, which no record has. -/
def moment : Document := .table [("date-time", .other)]

def readMoment (cs : List Char) : Option (Document × List Char) :=
  match readDate cs with
  | some rest => some (moment, skipTime rest)
  | none => (readTime cs).map (moment, ·)

def readScalar (cs : List Char) : Option (Document × List Char) :=
  match cs with
  | 't' :: 'r' :: 'u' :: 'e' :: rest => some (.boolean true, rest)
  | 'f' :: 'a' :: 'l' :: 's' :: 'e' :: rest => some (.boolean false, rest)
  | _ => readMoment cs <|> readFloat cs <|> readInteger cs

end NativeContracts.Toml
