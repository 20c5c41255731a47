import NativeContracts.Item.Conversion
import NativeContracts.VarInt

/-! The stored form of an item: its marker, then a truth value as one byte, an
integer or a payload as its bytes after their length, and a compound item as its
children after their number. -/

namespace NativeContracts.Item

/-- Bytes after their length. -/
def payload (bytes : List UInt8) : List UInt8 := VarInt.encode bytes.length ++ bytes

mutual

def layout : Item → List UInt8
  | null => [Kind.any.marker]
  | boolean value => [Kind.boolean.marker, if value then 1 else 0]
  | integer value => Kind.integer.marker :: payload (integerBytes value)
  | byteString bytes => Kind.byteString.marker :: payload bytes
  | buffer bytes => Kind.buffer.marker :: payload bytes
  | array items => Kind.array.marker :: VarInt.encode items.length ++ layouts items
  | struct items => Kind.struct.marker :: VarInt.encode items.length ++ layouts items

def layouts : List Item → List UInt8
  | [] => []
  | item :: rest => layout item ++ layouts rest

end

end NativeContracts.Item
