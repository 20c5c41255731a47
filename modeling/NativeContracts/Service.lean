import NativeContracts.LittleEndian
import NativeContracts.Sha256
import NativeContracts.Text.Hex
import NativeContracts.Text.Utf8

/-! Services are addressed by 32-bit numbers. The number of a name is the first
four bytes of the name's SHA-256, read lowest first, so two names can share one. -/

namespace NativeContracts

structure Service where
  number : UInt32
  deriving DecidableEq, Hashable

namespace Service

def ofName (name : String) : Service :=
  ⟨(LittleEndian.decode ((Sha256.digest (Utf8.encode name)).take 4)).toUInt32⟩

/-- The number's four bytes, lowest first, as they stand in a script. -/
def operand (s : Service) : List UInt8 := LittleEndian.encode 4 s.number.toNat

def ofOperand (bytes : List UInt8) : Service := ⟨(LittleEndian.decode bytes).toUInt32⟩

def text (s : Service) : String := "0x" ++ String.ofList (Hex.fixed 8 s.number.toNat)

theorem ofOperand_operand (s : Service) : ofOperand s.operand = s := by
  have h : s.number.toNat < LittleEndian.capacity 4 := s.number.toNat_lt
  simp only [ofOperand, operand, LittleEndian.decode_encode]
  rw [Nat.mod_eq_of_lt h]
  simp

theorem operand_ofOperand {bytes : List UInt8} (h : bytes.length = 4) :
    (ofOperand bytes).operand = bytes := by
  have hlt := LittleEndian.decode_lt bytes
  rw [h] at hlt
  have hword : (LittleEndian.decode bytes).toUInt32.toNat = LittleEndian.decode bytes := by
    rw [Nat.toUInt32_eq, UInt32.toNat_ofNat']
    exact Nat.mod_eq_of_lt hlt
  rw [operand, ofOperand, hword, ← h, LittleEndian.encode_decode]

end Service

end NativeContracts
