import NativeContracts.Item.Conversion
import NativeContracts.VarInt

/-! Reading an item back from bytes that nobody vouches for. An allowance, at
first the largest number of references, is spent by one for each item, and the
number of children an item announces is checked against what is left of it before
any of them is read. It bounds the depth of nesting too. -/

namespace NativeContracts.Item

/-- Reads `count` items one after another; `done` holds those read so far, the last one first. -/
def readMany (one : Nat → List UInt8 → Except Fault (Item × Nat × List UInt8)) :
    Nat → List Item → Nat → List UInt8 → Except Fault (List Item × Nat × List UInt8)
  | 0, done, allowance, bytes => .ok (done.reverse, allowance, bytes)
  | count + 1, done, allowance, bytes => do
    let (item, allowance, bytes) ← one allowance bytes
    readMany one count (item :: done) allowance bytes

/-- Reads one item nested at most `depth` deep. Gives the allowance and the bytes left. -/
def read (limits : Limits) : Nat → Nat → List UInt8 → Except Fault (Item × Nat × List UInt8)
  | depth + 1, allowance + 1, bytes => do
    let (marker, bytes) ← VarInt.readByte bytes
    match Kind.ofMarker? marker with
    | none => throw (.encoding (.unknownMarker marker))
    | some .any => return (null, allowance, bytes)
    | some .boolean =>
      let (byte, bytes) ← VarInt.readByte bytes
      if byte = 0 then return (boolean false, allowance, bytes)
      else if byte = 1 then return (boolean true, allowance, bytes)
      else throw (.encoding (.notBoolean byte))
    | some .integer =>
      let (digits, bytes) ← VarInt.readBytes limits.maxIntegerSize bytes
      return (integer (TwosComplement.decode digits), allowance, bytes)
    | some .byteString =>
      let (content, bytes) ← VarInt.readBytes limits.maxItemSize bytes
      return (byteString content, allowance, bytes)
    | some .buffer =>
      let (content, bytes) ← VarInt.readBytes limits.maxItemSize bytes
      return (buffer content, allowance, bytes)
    | some .array =>
      let (count, bytes) ← VarInt.read allowance bytes
      let (items, allowance, bytes) ← readMany (read limits depth) count [] allowance bytes
      return (array items, allowance, bytes)
    | some .struct =>
      let (count, bytes) ← VarInt.read allowance bytes
      let (items, allowance, bytes) ← readMany (read limits depth) count [] allowance bytes
      return (struct items, allowance, bytes)
  | _, _, _ => throw (.encoding (.tooManyItems limits.maxStackSize))

/-- The item that all of `bytes` store. -/
def decode (limits : Limits) (bytes : List UInt8) : Except Fault Item := do
  let (item, _, rest) ← read limits limits.maxStackSize limits.maxStackSize bytes
  if rest.isEmpty then return item else throw (.encoding .trailingBytes)

end NativeContracts.Item
