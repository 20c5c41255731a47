import NativeContracts.Fault
import NativeContracts.LittleEndian

/-! Lengths in front of what they count. A length below 253 is its own byte; a
larger one is two, four or eight little-endian bytes after a byte that says which.
Writing takes the shortest form, and reading takes any. -/

namespace NativeContracts.VarInt

def encode (n : Nat) : List UInt8 :=
  if n < 0xFD then [n.toUInt8]
  else if n ≤ 0xFFFF then 0xFD :: LittleEndian.encode 2 n
  else if n ≤ 0xFFFFFFFF then 0xFE :: LittleEndian.encode 4 n
  else 0xFF :: LittleEndian.encode 8 n

/-- How many bytes hold the length after its first byte; none when that byte is the length. -/
def extraBytes (first : UInt8) : Nat :=
  if first = 0xFD then 2 else if first = 0xFE then 4 else if first = 0xFF then 8 else 0

/-- The first `count` bytes and those after them. -/
def splitBytes (count : Nat) (bytes : List UInt8) :
    Except Fault (List UInt8 × List UInt8) :=
  -- Only `count` places of the list are looked at, unless they run out.
  if count = 0 ∨ bytes.drop (count - 1) ≠ [] then .ok (bytes.take count, bytes.drop count)
  else .error (.encoding (.endOfData count bytes.length))

def readByte : List UInt8 → Except Fault (UInt8 × List UInt8)
  | [] => .error (.encoding (.endOfData 1 0))
  | byte :: rest => .ok (byte, rest)

/-- A length of at most `max`, in any of its forms. -/
def read (max : Nat) (bytes : List UInt8) : Except Fault (Nat × List UInt8) := do
  let (first, rest) ← readByte bytes
  let (length, rest) ←
    match extraBytes first with
    | 0 => pure (first.toNat, rest)
    | extra => do
      let (digits, rest) ← splitBytes extra rest
      pure (LittleEndian.decode digits, rest)
  if max < length then throw (.encoding (.lengthTooLarge length max))
  return (length, rest)

/-- A length of at most `max` and as many bytes. -/
def readBytes (max : Nat) (bytes : List UInt8) : Except Fault (List UInt8 × List UInt8) := do
  let (length, rest) ← read max bytes
  splitBytes length rest

theorem splitBytes_eq (count : Nat) (bytes : List UInt8) :
    splitBytes count bytes =
      if count ≤ bytes.length then .ok (bytes.take count, bytes.drop count)
      else .error (.encoding (.endOfData count bytes.length)) := by
  have h : (count = 0 ∨ bytes.drop (count - 1) ≠ []) ↔ count ≤ bytes.length := by
    rw [ne_eq, List.drop_eq_nil_iff]
    omega
  simp only [splitBytes, h]

end NativeContracts.VarInt
