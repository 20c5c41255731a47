import NativeContracts.Item.Layout

/-! Writing the stored form of an item under limits. Every node is written to the
end and then measured together with all that was written before it, so the first
node at which the output is too long decides the size a fault reports. -/

namespace NativeContracts.Item

/-- Refuses an output that is longer than an item may be. -/
def measured (limits : Limits) (out : Array UInt8) : Except Fault (Array UInt8) :=
  if limits.maxItemSize < out.size then .error (.itemTooLarge out.size limits.maxItemSize)
  else .ok out

mutual

def write (limits : Limits) : Item → Array UInt8 → Except Fault (Array UInt8)
  | null, out => measured limits (out.push Kind.any.marker)
  | boolean value, out =>
    measured limits ((out.push Kind.boolean.marker).push (if value then 1 else 0))
  | integer value, out =>
    let bytes := integerBytes value
    if limits.maxIntegerSize < bytes.length then
      .error (.encoding (.integerTooWide bytes.length limits.maxIntegerSize))
    else measured limits (out.push Kind.integer.marker ++ payload bytes)
  | byteString bytes, out => measured limits (out.push Kind.byteString.marker ++ payload bytes)
  | buffer bytes, out => measured limits (out.push Kind.buffer.marker ++ payload bytes)
  | array items, out => do
    let out ← writeAll limits items (out.push Kind.array.marker ++ VarInt.encode items.length)
    measured limits out
  | struct items, out => do
    let out ← writeAll limits items (out.push Kind.struct.marker ++ VarInt.encode items.length)
    measured limits out

def writeAll (limits : Limits) : List Item → Array UInt8 → Except Fault (Array UInt8)
  | [], out => .ok out
  | item :: rest, out => do
    let out ← write limits item out
    writeAll limits rest out

end

def encode (limits : Limits) (item : Item) : Except Fault (List UInt8) := do
  let out ← item.write limits #[]
  return out.toList

end NativeContracts.Item
