import NativeContracts.Document
import NativeContracts.Document.Toml.Text

/-! The tree that the lines of a TOML text build. A table is made either by its own
header, or as a step on the way to another table, or by a dotted name, and which of
these it was decides what may still be added to it. A list of tables takes additions
in its last element. Values are closed. -/

namespace NativeContracts.Toml

inductive Node where
  | value (document : Document)
  /-- `implicit` tables have no header of their own; `dotted` ones come from a dotted name. -/
  | table (implicit dotted : Bool) (fields : List (String × Node))
  /-- The last element comes first. -/
  | tables (elements : List (List (String × Node)))

abbrev Fields := List (String × Node)

def setField (name : String) (node : Node) : Fields → Fields
  | [] => [(name, node)]
  | field :: rest =>
    if field.1 = name then (name, node) :: rest else field :: setField name node rest

/-- Changes the table at the end of `path` by `act`, which is told whether that table comes
from a dotted name. Tables on the way that are missing are made. A dotted name leads
through no table that has a header of its own. -/
def alter (dotted : Bool) (act : Bool → Fields → Option Fields) :
    List String → Bool → Fields → Option Fields
  | [], here, fields => act here fields
  | name :: path, _, fields =>
    match fields.lookup name with
    | none =>
      (alter dotted act path dotted []).map fun inner =>
        setField name (.table true dotted inner) fields
    | some (.table implicit inside inner) =>
      if dotted && !implicit then none
      else (alter dotted act path inside inner).map fun inner =>
        setField name (.table implicit inside inner) fields
    | some (.tables (last :: before)) =>
      (alter dotted act path false last).map fun last =>
        setField name (.tables (last :: before)) fields
    | some _ => none

/-- A value with its name. -/
structure Pair where
  path : Path
  value : Document

/-- Adds a value under a new name. A dotted name leads to a table that dotted names made. -/
def assign (fields : Fields) (pair : Pair) : Option Fields :=
  let parents := pair.path.parents
  alter true (fun dotted fields =>
    if dotted == parents.isEmpty || fields.any (·.1 = pair.path.name) then none
    else some (fields ++ [(pair.path.name, .value pair.value)])) parents false fields

/-- What a header begins: one table, or one more element of a list of tables. -/
inductive Header where
  | table (path : Path)
  | element (path : Path)

/-- A header and the values under it. -/
structure Block where
  header : Header
  pairs : List Pair

/-- The fields of a table whose header stands in a place that holds `node`. -/
def reopened? : Option Node → Option Fields
  | none => some []
  | some (.table true false fields) => some fields
  | some _ => none

def elements? : Option Node → Option (List Fields)
  | none => some []
  | some (.tables elements) => some elements
  | some _ => none

def addBlock (fields : Fields) (block : Block) : Option Fields :=
  match block.header with
  | .table path =>
    alter false (fun _ fields => do
      let inner ← block.pairs.foldlM assign (← reopened? (fields.lookup path.name))
      return setField path.name (.table false false inner) fields) path.parents false fields
  | .element path =>
    alter false (fun _ fields => do
      let before ← elements? (fields.lookup path.name)
      let inner ← block.pairs.foldlM assign []
      return setField path.name (.tables (inner :: before)) fields) path.parents false fields

mutual

def Node.document : Node → Document
  | .value document => document
  | .table _ _ fields => .table (fieldDocuments fields)
  | .tables elements => .list (elementDocuments [] elements)

def fieldDocuments : List (String × Node) → List (String × Document)
  | [] => []
  | (name, node) :: rest => (name, node.document) :: fieldDocuments rest

def elementDocuments (done : List Document) : List (List (String × Node)) → List Document
  | [] => done
  | fields :: before => elementDocuments (.table (fieldDocuments fields) :: done) before

end

end NativeContracts.Toml
