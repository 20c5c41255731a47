import NativeContracts.Proofs.Accounts
import NativeContracts.Proofs.Normal

/-! Items read in more than one way. What reads as an integer reads as a truth value, which
says whether the integer is zero, and as bytes, which read as the same integer and the same
truth value again. Of all bytes that read as an integer its own are the fewest, and no others
are as few. An integer of any width has a truth value and bytes, and reads as an integer
unless its bytes are more than conversions read. -/

namespace NativeContracts

/-! ## What bytes stand for -/

namespace TwosComplement

variable {bytes first second : List UInt8}

theorem lowByte_decode_cons (byte : UInt8) (rest : List UInt8) :
    lowByte (decode (byte :: rest)) = byte := by
  rcases rest with _ | ⟨next, rest⟩
  · rw [decode, signedByte_eq, lowByte_add]
  · rw [decode_cons byte (List.cons_ne_nil _ _), lowByte_add]

/-- So many bytes tell integers apart. -/
theorem decode_injective_of_length (hlength : first.length = second.length)
    (h : decode first = decode second) : first = second := by
  induction first generalizing second with
  | nil => exact (List.length_eq_zero_iff.mp hlength.symm).symm
  | cons byte rest ih =>
    rcases second with _ | ⟨other, others⟩
    · cases hlength
    · have hbyte : byte = other := by
        rw [← lowByte_decode_cons byte rest, h, lowByte_decode_cons]
      have hrest : rest.length = others.length := Nat.succ.inj hlength
      subst hbyte
      by_cases hempty : rest = []
      · subst hempty
        rw [List.length_eq_zero_iff.mp hrest.symm]
      · have hothers : others ≠ [] := by
          rintro rfl
          exact hempty (List.length_eq_zero_iff.mp hrest)
        rw [decode_cons byte hempty, decode_cons byte hothers] at h
        rw [ih hrest (by omega)]

theorem decode_replicate_zero (count : Nat) : decode (List.replicate count 0) = 0 := by
  induction count with
  | zero => rfl
  | succ count ih =>
    rcases count with _ | count
    · rfl
    · rw [List.replicate_succ, decode_cons 0 (by simp [List.replicate_succ]), ih]
      rfl

theorem decode_eq_zero_iff : decode bytes = 0 ↔ ∀ byte ∈ bytes, byte = 0 := by
  have hzeros := decode_replicate_zero bytes.length
  constructor
  · intro h
    have hbytes : bytes = List.replicate bytes.length 0 :=
      decode_injective_of_length (by simp) (h.trans hzeros.symm)
    exact (List.eq_replicate_iff.mp hbytes).2
  · intro h
    rw [List.eq_replicate_iff.mpr ⟨rfl, h⟩]
    exact hzeros

end TwosComplement

open TwosComplement

namespace Item

variable {item : Item} {n : Int} {bytes : List UInt8}

/-! ## Bytes and integers as items -/

theorem toInt_byteString_eq_ok_iff :
    (byteString bytes).toInt = .ok n ↔
      bytes.length ≤ integerWidth ∧ TwosComplement.decode bytes = n := by
  simp only [toInt]
  split
  · next hwide => simp [Nat.not_le_of_lt hwide]
  · next hfits => simp [Nat.le_of_not_lt hfits]

/-- A byte that is not zero is what makes an integer that is not zero. -/
theorem toBool_byteString (h : bytes.length ≤ integerWidth) :
    (byteString bytes).toBool = .ok (decide (TwosComplement.decode bytes ≠ 0)) := by
  rw [toBool, if_neg (Nat.not_lt_of_le h), Except.ok.injEq, Bool.eq_iff_iff]
  simp [decode_eq_zero_iff]

/-- An integer is too wide exactly if its bytes are too many. Zero has none of them. -/
theorem toInt_integer_eq (n : Int) :
    (integer n).toInt =
      if integerWidth < (integerBytes n).length then
        .error (.invalidType (.tooWideForInteger (integerBytes n).length))
      else .ok n := by
  by_cases hzero : n = 0
  · subst hzero
    decide +kernel
  · rw [integerBytes, if_neg hzero]
    rfl

theorem integerBytes_eq_nil_iff : integerBytes n = [] ↔ n = 0 := by
  rw [integerBytes]
  split
  · next hzero => simp [hzero]
  · next hnonzero => simp [hnonzero, encode_ne_nil]

/-! ## The shortest bytes -/

/-- The bytes read as the integer, and all others that do are more. -/
structure ShortestFor (n : Int) (bytes : List UInt8) : Prop where
  reads : (byteString bytes).toInt = .ok n
  shorter : ∀ other, (byteString other).toInt = .ok n → other ≠ bytes →
    bytes.length < other.length

theorem shortestFor_integerBytes (h : (integerBytes n).length ≤ integerWidth) :
    ShortestFor n (integerBytes n) := by
  refine ⟨toInt_byteString_eq_ok_iff.mpr ⟨h, decode_integerBytes n⟩, fun other hother hne => ?_⟩
  obtain ⟨-, rfl⟩ := toInt_byteString_eq_ok_iff.mp hother
  refine Nat.lt_of_le_of_ne (length_integerBytes_decode_le other) fun hlength => hne ?_
  exact decode_injective_of_length hlength.symm (decode_integerBytes _).symm

/-! ## Readings of one item -/

/-- What reads as an integer reads as bytes of it that conversions read. -/
theorem exists_toBytes_of_toInt (h : item.toInt = .ok n) :
    ∃ bytes, item.toBytes = .ok bytes ∧
      bytes.length ≤ integerWidth ∧ TwosComplement.decode bytes = n := by
  cases item with
  | boolean value =>
    cases h
    exact ⟨_, rfl, by decide +revert, by cases value <;> rfl⟩
  | integer value =>
    rw [toInt_integer_eq] at h
    split at h
    · cases h
    · next hfits =>
      cases h
      exact ⟨_, rfl, Nat.le_of_not_lt hfits, decode_integerBytes _⟩
  | byteString bytes => exact ⟨bytes, rfl, toInt_byteString_eq_ok_iff.mp h⟩
  | null | buffer | array | struct => cases h

theorem toBool_of_toInt (h : item.toInt = .ok n) : item.toBool = .ok (decide (n ≠ 0)) := by
  cases item with
  | boolean value =>
    cases h
    cases value <;> rfl
  | integer value =>
    rw [toInt_integer_eq] at h
    split at h
    · cases h
    · cases h
      rfl
  | byteString bytes =>
    obtain ⟨hlength, rfl⟩ := toInt_byteString_eq_ok_iff.mp h
    exact toBool_byteString hlength
  | null | buffer | array | struct => cases h

/-- All readings of an item that reads as an integer agree with it, and the bytes of the integer
are the shortest that do. An integer of any width has a truth value and bytes, and the one case
in which it does not read as an integer is that its bytes are too many. -/
theorem readings_agree :
    (∀ (item : Item) (n : Int), item.toInt = .ok n →
      (-2 ^ 255 ≤ n ∧ n < 2 ^ 255) ∧
      item.toBool = .ok (decide (n ≠ 0)) ∧
      ∃ bytes own, item.toBytes = .ok bytes ∧ (integer n).toBytes = .ok own ∧
        (byteString bytes).toInt = .ok n ∧ (byteString bytes).toBool = item.toBool ∧
        ShortestFor n own ∧ (own = [] ↔ n = 0) ∧
        own.length ≤ 32 ∧ own.length ≤ bytes.length) ∧
    ∀ n : Int, (integer n).toBool = .ok (decide (n ≠ 0)) ∧
      ∃ own, (integer n).toBytes = .ok own ∧
        ((∃ fault, (integer n).toInt = .error fault) ↔ 32 < own.length) := by
  refine ⟨fun item n h => ?_, fun n => ⟨rfl, integerBytes n, rfl, ?_⟩⟩
  · obtain ⟨bytes, hbytes, hlength, rfl⟩ := exists_toBytes_of_toInt h
    have hown := length_integerBytes_decode_le bytes
    refine ⟨width_le_integerWidth_iff_bounds.mp (width_le_of_toInt h), toBool_of_toInt h, bytes, _,
      hbytes, rfl, toInt_byteString_eq_ok_iff.mpr ⟨hlength, rfl⟩, ?_, ?_, integerBytes_eq_nil_iff,
      Nat.le_trans hown hlength, hown⟩
    · rw [toBool_of_toInt h, toBool_byteString hlength]
    · exact shortestFor_integerBytes (Nat.le_trans hown hlength)
  · rw [toInt_integer_eq]
    show _ ↔ integerWidth < (integerBytes n).length
    split
    · next hwide => exact iff_of_true ⟨_, rfl⟩ hwide
    · next hfits => exact iff_of_false nofun hfits

/-- A byte string that pads 128 with a sign byte it does not need. -/
def extended : Item := .byteString [0x80, 0x00, 0x00]

/-- The extended bytes read as 128, whose own bytes are two. -/
theorem readings_agree_extended :
    extended.toInt = .ok 128 ∧ extended.toBool = .ok true ∧
      ∃ own, (integer 128).toBytes = .ok own ∧ ShortestFor 128 own ∧ own.length ≤ 3 := by
  have hextended : extended.toInt = .ok 128 := by decide +kernel
  obtain ⟨-, hbool, bytes, own, hbytes, hown, -, -, hshortest, -, -, hlength⟩ :=
    readings_agree.1 extended 128 hextended
  cases hbytes
  exact ⟨hextended, hbool, own, hown, hshortest, hlength⟩

end Item

end NativeContracts
