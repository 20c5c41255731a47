/-! The kinds of items and the bytes that mark them where items are stored.
Reading a marker undoes writing it, and no other byte is a marker. -/

namespace NativeContracts

/-- `any` is the kind of the null item. -/
inductive Item.Kind where
  | any
  | boolean
  | integer
  | byteString
  | buffer
  | array
  | struct
  deriving DecidableEq

namespace Item.Kind

def name : Kind → String
  | any => "Any"
  | boolean => "Boolean"
  | integer => "Integer"
  | byteString => "ByteString"
  | buffer => "Buffer"
  | array => "Array"
  | struct => "Struct"

def marker : Kind → UInt8
  | any => 0x00
  | boolean => 0x20
  | integer => 0x21
  | byteString => 0x28
  | buffer => 0x30
  | array => 0x40
  | struct => 0x41

def ofMarker? (byte : UInt8) : Option Kind :=
  [any, boolean, integer, byteString, buffer, array, struct].find? fun kind => kind.marker = byte

/-- Compound items hold other items. -/
def isCompound : Kind → Bool
  | array | struct => true
  | _ => false

/-- Primitive items hold one value that never changes. -/
def isPrimitive : Kind → Bool
  | boolean | integer | byteString => true
  | _ => false

@[simp] theorem ofMarker?_marker (kind : Kind) : ofMarker? kind.marker = some kind := by
  cases kind <;> rfl

theorem ofMarker?_eq_some_iff {byte : UInt8} {kind : Kind} :
    ofMarker? byte = some kind ↔ kind.marker = byte := by
  constructor
  · intro h
    simpa using List.find?_some h
  · rintro rfl
    exact ofMarker?_marker kind

end Item.Kind

end NativeContracts
