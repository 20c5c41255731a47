/-! Naturals as a fixed number of bytes, lowest first. `encode` keeps the low
bytes of a number that does not fit, and `decode` undoes it on one that does. -/

namespace NativeContracts.LittleEndian

def encode : Nat → Nat → List UInt8
  | 0, _ => []
  | width + 1, n => n.toUInt8 :: encode width (n / 256)

/-- How many numbers `width` bytes tell apart. -/
def capacity : Nat → Nat
  | 0 => 1
  | width + 1 => 256 * capacity width

def decode (bytes : List UInt8) : Nat :=
  bytes.foldr (fun byte rest => byte.toNat + 256 * rest) 0

@[simp] theorem decode_nil : decode [] = 0 := rfl

@[simp] theorem decode_cons (byte : UInt8) (rest : List UInt8) :
    decode (byte :: rest) = byte.toNat + 256 * decode rest := rfl

@[simp] theorem length_encode (width n : Nat) : (encode width n).length = width := by
  induction width generalizing n with
  | zero => rfl
  | succ width ih => simp [encode, ih]

theorem capacity_pos (width : Nat) : 0 < capacity width := by
  induction width with
  | zero => decide
  | succ width ih =>
    rw [capacity]
    omega

theorem decode_lt (bytes : List UInt8) : decode bytes < capacity bytes.length := by
  induction bytes with
  | nil => simp [capacity]
  | cons byte rest ih =>
    have := byte.toNat_lt
    simp only [decode_cons, List.length_cons, capacity]
    omega

theorem decode_encode (width n : Nat) : decode (encode width n) = n % capacity width := by
  induction width generalizing n with
  | zero => simp [encode, capacity, Nat.mod_one]
  | succ width ih =>
    simp only [encode, decode_cons, ih, Nat.toUInt8_eq, UInt8.toNat_ofNat']
    rw [capacity, Nat.mod_mul]

theorem encode_decode (bytes : List UInt8) : encode bytes.length (decode bytes) = bytes := by
  induction bytes with
  | nil => rfl
  | cons byte rest ih =>
    have h := byte.toNat_lt
    have hq : (byte.toNat + 256 * decode rest) / 256 = decode rest := by omega
    have hb : (byte.toNat + 256 * decode rest).toUInt8 = byte := by
      apply UInt8.toNat_inj.mp
      simp only [Nat.toUInt8_eq, UInt8.toNat_ofNat']
      omega
    simp only [List.length_cons, encode, decode_cons, hq, hb, ih]

end NativeContracts.LittleEndian
