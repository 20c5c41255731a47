import NativeContracts.Text.Hex

/-! Names and texts in TOML. A text stands between single or double quotes, on one
line, or on several between three quotes; only double quotes let a backslash stand
for other characters. A name is such a text on one line, or plain letters. -/

namespace NativeContracts.Toml

def isSpace (c : Char) : Bool := c = ' ' || c = '\t'

def skipSpaces (cs : List Char) : List Char := cs.dropWhile isSpace

/-- What stands for itself in texts and comments: all but the controls other than the tab. -/
def isPlain (c : Char) : Bool := c = '\t' || (' ' ≤ c && c ≠ '\x7f')

/-- The characters after an end of line. -/
def newline? : List Char → Option (List Char)
  | '\n' :: rest | '\r' :: '\n' :: rest => some rest
  | _ => none

/-- The character that a letter after a backslash stands for. -/
def escaped? : Char → Option Char
  | 'b' => some '\x08'
  | 't' => some '\t'
  | 'n' => some '\n'
  | 'f' => some '\x0c'
  | 'r' => some '\r'
  | '"' => some '"'
  | '\\' => some '\\'
  | _ => none

/-- The character with the number that all of `digits` spell. -/
def numbered? (digits : List Char) : Option Char :=
  match Hex.number? digits.length 0 digits with
  | some (n, _) =>
    if n < 0xD800 ∨ 0xE000 ≤ n ∧ n < 0x110000 then some (Char.ofNat n) else none
  | none => none

/-- Reads a text on one line after its opening double quote. -/
def readBasic (done : List Char) : List Char → Option (String × List Char)
  | '"' :: rest => some (String.ofList done.reverse, rest)
  | '\\' :: 'u' :: a :: b :: c :: d :: rest =>
    match numbered? [a, b, c, d] with
    | some c => readBasic (c :: done) rest
    | none => none
  | '\\' :: 'U' :: a :: b :: c :: d :: e :: f :: g :: h :: rest =>
    match numbered? [a, b, c, d, e, f, g, h] with
    | some c => readBasic (c :: done) rest
    | none => none
  | '\\' :: c :: rest =>
    match escaped? c with
    | some c => readBasic (c :: done) rest
    | none => none
  | c :: rest => if isPlain c then readBasic (c :: done) rest else none
  | [] => none

/-- The end of a text on several lines, after three quotes: up to two quotes more belong
to the text. -/
def closeLong (quote : Char) (done : List Char) (cs : List Char) : String × List Char :=
  let extra := (cs.take 2).takeWhile (· = quote)
  (String.ofList (done.reverse ++ extra), cs.drop extra.length)

/-- Reads a text on several lines after its opening double quotes. While `skipping`, blanks
and ends of lines are left out. -/
def readLongBasic (done : List Char) (skipping : Bool) : List Char → Option (String × List Char)
  | '"' :: '"' :: '"' :: rest => some (closeLong '"' done rest)
  | '\n' :: rest | '\r' :: '\n' :: rest =>
    if skipping then readLongBasic done true rest else readLongBasic ('\n' :: done) false rest
  | '\\' :: 'u' :: a :: b :: c :: d :: rest =>
    match numbered? [a, b, c, d] with
    | some c => readLongBasic (c :: done) false rest
    | none => none
  | '\\' :: 'U' :: a :: b :: c :: d :: e :: f :: g :: h :: rest =>
    match numbered? [a, b, c, d, e, f, g, h] with
    | some c => readLongBasic (c :: done) false rest
    | none => none
  | '\\' :: c :: rest =>
    match escaped? c with
    | some c => readLongBasic (c :: done) false rest
    | none =>
      -- A backslash at the end of a line joins it to the next text.
      if isSpace c ∧ (newline? (skipSpaces rest)).isSome ∨ c = '\n' ∨
          c = '\r' ∧ rest.head? = some '\n' then
        readLongBasic done true rest
      else none
  | c :: rest =>
    if skipping && isSpace c then readLongBasic done true rest
    else if isPlain c then readLongBasic (c :: done) false rest
    else none
  | [] => none

def readLiteral (done : List Char) : List Char → Option (String × List Char)
  | '\'' :: rest => some (String.ofList done.reverse, rest)
  | c :: rest => if isPlain c then readLiteral (c :: done) rest else none
  | [] => none

def readLongLiteral (done : List Char) : List Char → Option (String × List Char)
  | '\'' :: '\'' :: '\'' :: rest => some (closeLong '\'' done rest)
  | '\n' :: rest | '\r' :: '\n' :: rest => readLongLiteral ('\n' :: done) rest
  | c :: rest => if isPlain c then readLongLiteral (c :: done) rest else none
  | [] => none

/-- An end of line right after the opening quotes is no part of the text. -/
def afterOpening (cs : List Char) : List Char := (newline? cs).getD cs

def readText : List Char → Option (String × List Char)
  | '"' :: '"' :: '"' :: rest => readLongBasic [] false (afterOpening rest)
  | '"' :: rest => readBasic [] rest
  | '\'' :: '\'' :: '\'' :: rest => readLongLiteral [] (afterOpening rest)
  | '\'' :: rest => readLiteral [] rest
  | _ => none

def isBare (c : Char) : Bool := c.isAlphanum || c = '_' || c = '-'

def readName : List Char → Option (String × List Char)
  | '"' :: rest => readBasic [] rest
  | '\'' :: rest => readLiteral [] rest
  | cs =>
    match cs.span isBare with
    | ([], _) => none
    | (name, rest) => some (String.ofList name, rest)

/-- Reads names with dots between them; `fuel` is more than their number. -/
def readNames (fuel : Nat) (done : List String) (cs : List Char) :
    Option (List String × List Char) :=
  match fuel with
  | 0 => none
  | fuel + 1 =>
    match readName (skipSpaces cs) with
    | none => none
    | some (name, rest) =>
      match skipSpaces rest with
      | '.' :: rest => readNames fuel (name :: done) rest
      | rest => some (name :: done, rest)

/-- A dotted name: the names that lead to it, and its own. -/
structure Path where
  parents : List String
  name : String

/-- Reads a dotted name of fewer than 80 parts, and the blanks after it. -/
def readPath (cs : List Char) : Option (Path × List Char) :=
  match readNames 79 [] cs with
  | some (name :: parents, rest) => some (⟨parents.reverse, name⟩, rest)
  | _ => none

end NativeContracts.Toml
