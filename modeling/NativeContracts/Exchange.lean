import NativeContracts.Document.Json
import NativeContracts.Store.Key
import NativeContracts.Store.Record
import NativeContracts.Trigger

/-! Keys, records and triggers in JSON, as nodes exchange them. All fields have to be
there. A trigger is its name, or a table with the name over nothing. -/

namespace NativeContracts

namespace Document

def key? (document : Document) : Option Key := do
  match ← document.fields? false ["id", "key"] with
  | [some owner, some bytes] => return ⟨← owner.id?, ← bytes.list? byte?⟩
  | _ => none

def record? (document : Document) : Option Record := do
  match ← document.fields? false ["value", "is_constant"] with
  | [some bytes, some isConstant] => return ⟨← bytes.list? byte?, ← isConstant.boolean?⟩
  | _ => none

def trigger? : Document → Option Trigger
  | text name | table [(name, null)] => Trigger.ofName? name
  | _ => none

end Document

def writeBytes (bytes : List UInt8) : String :=
  Json.writeList (bytes.map fun byte => toString byte.toNat)

def Key.json (key : Key) : String :=
  Json.writeTable [("id", toString key.owner.toInt), ("key", writeBytes key.bytes)]

def Record.json (record : Record) : String :=
  Json.writeTable [
    ("value", writeBytes record.bytes),
    ("is_constant", if record.isConstant then "true" else "false")]

def Trigger.json (trigger : Trigger) : String := Json.writeText trigger.name

end NativeContracts
