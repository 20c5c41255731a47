import NativeContracts.LittleEndian

/-! Signed integers as little-endian bytes in two's complement. `encode` gives
the fewest bytes that keep the sign, so that zero takes one byte; `decode` reads
any number of bytes, and none at all as zero. -/

namespace NativeContracts.TwosComplement

def lowByte (n : Int) : UInt8 := (n % 256).toNat.toUInt8

def encode (n : Int) : List UInt8 :=
  if -128 ≤ n ∧ n < 128 then [lowByte n] else lowByte n :: encode (n / 256)
termination_by n.natAbs
decreasing_by omega

/-- A byte from 128 up stands for a negative number. -/
def signedByte (byte : UInt8) : Int :=
  if byte < 128 then byte.toNat else byte.toNat - 256

def decode : List UInt8 → Int
  | [] => 0
  | [top] => signedByte top
  | byte :: rest => byte.toNat + 256 * decode rest

/-- How many bytes the sign and the value of `n` need. -/
def width (n : Int) : Nat := (encode n).length

theorem encode_ne_nil (n : Int) : encode n ≠ [] := by
  rw [encode]; split <;> simp

theorem toNat_lowByte (n : Int) : (lowByte n).toNat = (n % 256).toNat := by
  simp only [lowByte, Nat.toUInt8_eq, UInt8.toNat_ofNat']
  omega

theorem signedByte_lowByte {n : Int} (h : -128 ≤ n ∧ n < 128) : signedByte (lowByte n) = n := by
  have := toNat_lowByte n
  unfold signedByte
  split <;> rename_i hb <;> simp only [UInt8.lt_iff_toNat_lt] at hb <;>
    simp only [this, UInt8.reduceToNat] at hb ⊢ <;> omega

theorem decode_cons {rest : List UInt8} (byte : UInt8) (h : rest ≠ []) :
    decode (byte :: rest) = byte.toNat + 256 * decode rest := by
  cases rest with
  | nil => contradiction
  | cons => rfl

theorem decode_encode (n : Int) : decode (encode n) = n := by
  fun_induction encode n with
  | case1 n h => exact signedByte_lowByte h
  | case2 n _ ih =>
    rw [decode_cons _ (encode_ne_nil _), ih, toNat_lowByte]
    omega

theorem width_eq (n : Int) : width n = if -128 ≤ n ∧ n < 128 then 1 else width (n / 256) + 1 := by
  rw [width, encode]
  split <;> rfl

/-- The numbers that so many bytes hold with their sign. -/
theorem width_le_iff (n : Int) (count : Nat) :
    width n ≤ count + 1 ↔
      -(128 * LittleEndian.capacity count : Nat) ≤ n ∧
        n < (128 * LittleEndian.capacity count : Nat) := by
  induction count generalizing n with
  | zero =>
    rw [width_eq]
    split
    · next h => simpa [LittleEndian.capacity] using h
    · next h =>
      have hpositive : 0 < width (n / 256) := List.length_pos_iff.mpr (encode_ne_nil _)
      simp only [LittleEndian.capacity]
      omega
  | succ count ih =>
    have hpositive := LittleEndian.capacity_pos count
    have hquotient := ih (n / 256)
    rw [width_eq]
    simp only [LittleEndian.capacity]
    split <;> omega

theorem width_le_of_le {a b : Int} {count : Nat} (hzero : 0 ≤ a) (hle : a ≤ b)
    (h : width b ≤ count + 1) : width a ≤ count + 1 := by
  rw [width_le_iff] at h ⊢
  omega

theorem signedByte_bounds (byte : UInt8) : -128 ≤ signedByte byte ∧ signedByte byte < 128 := by
  have h := byte.toNat_lt
  unfold signedByte
  split <;> rename_i hb <;> simp only [UInt8.lt_iff_toNat_lt, UInt8.reduceToNat] at hb <;> omega

/-- No bytes that read as a number are fewer than its own. -/
theorem length_encode_decode_le {bytes : List UInt8} (h : bytes ≠ []) :
    (encode (decode bytes)).length ≤ bytes.length := by
  induction bytes with
  | nil => contradiction
  | cons byte rest ih =>
    rw [encode]
    split
    · simp
    · next hwide =>
      by_cases hrest : rest = []
      · subst hrest
        exact absurd (signedByte_bounds byte) hwide
      · have hbyte := byte.toNat_lt
        have hquotient : decode (byte :: rest) / 256 = decode rest := by
          rw [decode_cons byte hrest]
          omega
        rw [hquotient]
        exact Nat.succ_le_succ (ih hrest)

end NativeContracts.TwosComplement
