/-! Documents are what configuration and exchange files hold, whatever notation they
are written in. A record with named fields is a table, in any order of the fields, or
a list of its fields in their own order. -/

namespace NativeContracts

inductive Document where
  | null
  | boolean (value : Bool)
  | integer (value : Int)
  | text (value : String)
  | list (items : List Document)
  | table (fields : List (String × Document))
  /-- A value that no record has a use for, such as a fraction or a broken text. -/
  | other

namespace Document

/-- The fields called `names`, where they are given. A table gives no field twice; what
else it holds is ignored. A list holds nothing more, unless `surplus` allows it. -/
def fields? (surplus : Bool) (names : List String) : Document → Option (List (Option Document))
  | table fields =>
    if names.any fun name => 1 < fields.countP (·.1 = name) then none
    else some (names.map fun name => fields.lookup name)
  | list items =>
    if !surplus && names.length < items.length then none
    else some ((List.range names.length).map (items[·]?))
  | _ => none

def integerIn? (low high : Int) : Document → Option Int
  | integer value => if low ≤ value ∧ value ≤ high then some value else none
  | _ => none

def word? (document : Document) : Option UInt64 :=
  (document.integerIn? 0 (UInt64.size - 1)).map fun n => n.toNat.toUInt64

def id? (document : Document) : Option Int32 :=
  (document.integerIn? Int32.minValue.toInt Int32.maxValue.toInt).map Int32.ofInt

def byte? (document : Document) : Option UInt8 :=
  (document.integerIn? 0 255).map fun n => n.toNat.toUInt8

def boolean? : Document → Option Bool
  | boolean value => some value
  | _ => none

def text? : Document → Option String
  | text value => some value
  | _ => none

def list? {α : Type} (decode : Document → Option α) : Document → Option (List α)
  | list items => items.mapM decode
  | _ => none

/-- A value that may be left out by writing null. -/
def nullable? {α : Type} (decode : Document → Option α) : Document → Option (Option α)
  | null => some none
  | document => (decode document).map some

/-- A field that has a default when it is not given. -/
def orDefault? {α : Type} (decode : Document → Option α) (default : α) :
    Option Document → Option α
  | none => some default
  | some document => decode document

end Document

end NativeContracts
