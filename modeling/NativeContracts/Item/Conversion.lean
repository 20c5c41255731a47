import NativeContracts.Fault
import NativeContracts.Item
import NativeContracts.Text.Utf8
import NativeContracts.TwosComplement

/-! Reading an item as a truth value, an integer, bytes, text or a list of items.
Integers and bytes stand for each other in two's complement, with no bytes at all
for zero, and neither reading goes beyond 32 bytes. A buffer has bytes and a truth
value but is no integer. -/

namespace NativeContracts.Item

/-- The fewest bytes that read back as `n`: none for zero. -/
def integerBytes (n : Int) : List UInt8 := if n = 0 then [] else TwosComplement.encode n

theorem decode_integerBytes (n : Int) : TwosComplement.decode (integerBytes n) = n := by
  unfold integerBytes
  split
  · next hzero => exact hzero.symm
  · exact TwosComplement.decode_encode n

theorem length_integerBytes_decode_le (bytes : List UInt8) :
    (integerBytes (TwosComplement.decode bytes)).length ≤ bytes.length := by
  unfold integerBytes
  split
  · exact Nat.zero_le _
  · next hnonzero =>
    apply TwosComplement.length_encode_decode_le
    rintro rfl
    exact hnonzero rfl

def toBool : Item → Except Fault Bool
  | null => .ok false
  | boolean value => .ok value
  | integer value => .ok (value ≠ 0)
  | byteString bytes | buffer bytes =>
    if integerWidth < bytes.length then .error (.invalidType (.tooWideForBoolean bytes.length))
    else .ok (bytes.any (· ≠ 0))
  | array _ | struct _ => .ok true

def toInt : Item → Except Fault Int
  | boolean value => .ok (if value then 1 else 0)
  | integer value =>
    let size := TwosComplement.width value
    if integerWidth < size then .error (.invalidType (.tooWideForInteger size)) else .ok value
  | byteString bytes =>
    if integerWidth < bytes.length then .error (.invalidType (.tooWideForInteger bytes.length))
    else .ok (TwosComplement.decode bytes)
  | item => .error (.invalidType (.noInteger item.kind))

def toBytes : Item → Except Fault (List UInt8)
  | boolean value => .ok [if value then 1 else 0]
  | integer value => .ok (integerBytes value)
  | byteString bytes | buffer bytes => .ok bytes
  | item => .error (.invalidType (.noBytes item.kind))

def toText (item : Item) : Except Fault String := do
  match Utf8.decode? (← item.toBytes) with
  | some text => return text
  | none => throw (.invalidType .notUtf8)

/-- The items of an array or a struct. -/
def toItems : Item → Except Fault (List Item)
  | array items | struct items => .ok items
  | item => .error (.invalidType (.notCompound item.kind))

/-- The fields of a struct, which an array does not have. -/
def toFields : Item → Except Fault (List Item)
  | struct items => .ok items
  | item => .error (.invalidType (.notStruct item.kind))

def ofText (text : String) : Item := .byteString (Utf8.encode text)

end NativeContracts.Item
