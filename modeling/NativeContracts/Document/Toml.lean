import NativeContracts.Document.Toml.Scalar
import NativeContracts.Document.Toml.Tree

/-! Documents in TOML. A text is a sequence of lines, each of which names a value or
begins a table; a value may be a list over several lines or a table on one. Lists
and tables inside each other are at most 79 deep. -/

namespace NativeContracts.Toml

/-- The characters after blanks, ends of lines and comments. -/
def skipLines (comment : Bool) : List Char → Option (List Char)
  | '\n' :: rest | '\r' :: '\n' :: rest => skipLines false rest
  | c :: rest =>
    if comment then if isPlain c then skipLines true rest else none
    else if isSpace c then skipLines false rest
    else if c = '#' then skipLines true rest
    else if c = '\r' then none
    else some (c :: rest)
  | [] => if comment then none else some []

/-- The characters after the end of a line that has nothing more than a comment. -/
def endLine (cs : List Char) : Option (List Char) :=
  let rest := match skipSpaces cs with
    | '#' :: rest => rest.dropWhile isPlain
    | rest => rest
  match rest with
  | [] => some []
  | rest => newline? rest

/-- Reads the items of a list after its bracket, and the closing bracket. Each item takes
a character at least, so that the number of characters is `fuel` enough. -/
def readItems (one : List Char → Option (Document × List Char)) (fuel : Nat)
    (done : List Document) (cs : List Char) : Option (Document × List Char) :=
  match fuel with
  | 0 => none
  | fuel + 1 =>
    match skipLines false cs with
    | some (']' :: rest) => some (.list done.reverse, rest)
    | some rest =>
      match one rest with
      | none => none
      | some (item, rest) =>
        match skipLines false rest with
        | some (',' :: rest) => readItems one fuel (item :: done) rest
        | some (']' :: rest) => some (.list (item :: done).reverse, rest)
        | _ => none
    | none => none

/-- Reads a name, an equals sign and a value. -/
def readPair (one : List Char → Option (Document × List Char)) (cs : List Char) :
    Option (Pair × List Char) := do
  let (path, rest) ← readPath cs
  let rest ← readMark '=' rest
  let (value, rest) ← one (skipSpaces rest)
  return (⟨path, value⟩, rest)

/-- Reads the pairs of a table on one line, and the closing brace. -/
def readPairs (one : List Char → Option (Document × List Char)) (fuel : Nat)
    (fields : Fields) (cs : List Char) : Option (Document × List Char) :=
  match fuel with
  | 0 => none
  | fuel + 1 =>
    match readPair one cs with
    | none => none
    | some (pair, rest) =>
      match assign fields pair with
      | none => none
      | some fields =>
        match skipSpaces rest with
        | ',' :: rest => readPairs one fuel fields rest
        | '\x7d' :: rest => some (.table (fieldDocuments fields), rest)
        | _ => none

/-- Reads a value in which lists and tables are nested at most `depth` deep. -/
def readValue : Nat → List Char → Option (Document × List Char)
  | depth + 1, '[' :: rest => readItems (readValue depth) (rest.length + 1) [] rest
  | 0, '[' :: _ | 0, '\x7b' :: _ => none
  | depth + 1, '\x7b' :: rest =>
    match skipSpaces rest with
    | '\x7d' :: rest => some (.table [], rest)
    | rest => readPairs (readValue depth) (rest.length + 1) [] rest
  | _, '"' :: rest => (readText ('"' :: rest)).map fun split => (.text split.1, split.2)
  | _, '\'' :: rest => (readText ('\'' :: rest)).map fun split => (.text split.1, split.2)
  | _, cs => readScalar cs

def maxDepth : Nat := 79

def readHeader : List Char → Option (Header × List Char)
  | '[' :: '[' :: rest => do
    let (path, rest) ← readPath rest
    let rest ← readMark ']' rest
    let rest ← readMark ']' rest
    return (.element path, ← endLine rest)
  | '[' :: rest => do
    let (path, rest) ← readPath rest
    let rest ← readMark ']' rest
    return (.table path, ← endLine rest)
  | _ => none

/-- Reads the lines up to the next header or the end. -/
def readLines (fuel : Nat) (done : List Pair) (cs : List Char) : Option (List Pair × List Char) :=
  match fuel with
  | 0 => none
  | fuel + 1 =>
    match skipSpaces cs with
    | [] => some (done.reverse, [])
    | '[' :: rest => some (done.reverse, '[' :: rest)
    | rest =>
      match endLine rest with
      | some rest => readLines fuel done rest
      | none =>
        match readPair (readValue maxDepth) rest with
        | none => none
        | some (pair, rest) =>
          match endLine rest with
          | none => none
          | some rest => readLines fuel (pair :: done) rest

def readBlocks (fuel : Nat) (fields : Fields) (cs : List Char) : Option Fields :=
  match fuel with
  | 0 => none
  | fuel + 1 =>
    match cs with
    | [] => some fields
    | cs =>
      match readHeader cs with
      | none => none
      | some (header, rest) =>
        match readLines (rest.length + 1) [] rest with
        | none => none
        | some (pairs, rest) =>
          match addBlock fields ⟨header, pairs⟩ with
          | none => none
          | some fields => readBlocks fuel fields rest

/-- The table that a text holds. A byte order mark may stand before it. -/
def read? (text : String) : Option Document := do
  let cs := match text.toList with
    | '\ufeff' :: rest => rest
    | cs => cs
  let (pairs, rest) ← readLines (cs.length + 1) [] cs
  let fields ← pairs.foldlM assign []
  let fields ← readBlocks (cs.length + 1) fields rest
  return .table (fieldDocuments fields)

end NativeContracts.Toml
