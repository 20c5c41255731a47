import NativeContracts.Proofs.Traversal
import NativeContracts.VarInt

/-! What reading a length accepts. `Form` lists the byte strings that stand for a
length, the shortest one among them; a reader takes one of them off the front of its
bytes, or fails. -/

namespace NativeContracts

namespace VarInt

/-- The forms of a length: its own byte, or a byte that says how many bytes hold it. -/
inductive Form : Nat → List UInt8 → Prop where
  | byte (first : UInt8) (h : first < 0xFD) : Form first.toNat [first]
  | two (digits : List UInt8) (h : digits.length = 2) :
      Form (LittleEndian.decode digits) (0xFD :: digits)
  | four (digits : List UInt8) (h : digits.length = 4) :
      Form (LittleEndian.decode digits) (0xFE :: digits)
  | eight (digits : List UInt8) (h : digits.length = 8) :
      Form (LittleEndian.decode digits) (0xFF :: digits)

variable {n max count : Nat} {first : UInt8} {front rest tail bytes : List UInt8}

/-- What is written is one of the forms. -/
theorem form_encode (h : n < UInt64.size) : Form n (encode n) := by
  have hdigits : ∀ width, n < LittleEndian.capacity width →
      LittleEndian.decode (LittleEndian.encode width n) = n := by
    intro width hwidth
    rw [LittleEndian.decode_encode, Nat.mod_eq_of_lt hwidth]
  unfold encode
  split
  · next hn =>
    have hbyte : n.toUInt8.toNat = n := by
      rw [Nat.toUInt8_eq, UInt8.toNat_ofNat']
      omega
    have hform := Form.byte n.toUInt8 (by rw [UInt8.lt_iff_toNat_lt, hbyte]; exact hn)
    rwa [hbyte] at hform
  · split
    · have hform := Form.two (LittleEndian.encode 2 n) (LittleEndian.length_encode _ _)
      rwa [hdigits 2 (show n < 65536 by omega)] at hform
    · split
      · have hform := Form.four (LittleEndian.encode 4 n) (LittleEndian.length_encode _ _)
        rwa [hdigits 4 (show n < 4294967296 by omega)] at hform
      · have hform := Form.eight (LittleEndian.encode 8 n) (LittleEndian.length_encode _ _)
        rwa [hdigits 8 h] at hform

theorem splitBytes_eq_ok_iff :
    splitBytes count bytes = .ok (front, rest) ↔ front.length = count ∧ bytes = front ++ rest := by
  rw [splitBytes_eq]
  constructor
  · intro h
    split at h
    · next hle =>
      cases h
      exact ⟨List.length_take_of_le hle, (List.take_append_drop count bytes).symm⟩
    · cases h
  · intro h
    obtain ⟨rfl, rfl⟩ := h
    rw [if_pos (by simp)]
    simp

/-- A first byte that is the length itself. -/
theorem read_byte_eq_ok_iff (hfirst : extraBytes first = 0) :
    read max (first :: tail) = .ok (n, rest) ↔ n = first.toNat ∧ n ≤ max ∧ tail = rest := by
  simp only [read, readByte, hfirst, bind, Except.bind, pure, Except.pure]
  split
  · next h =>
    simp only [throw, throwThe, MonadExceptOf.throw, reduceCtorEq, false_iff]
    omega
  · next h =>
    simp only [Except.ok.injEq, Prod.mk.injEq]
    constructor
    · intro h
      obtain ⟨rfl, rfl⟩ := h
      exact ⟨rfl, Nat.le_of_not_lt h, rfl⟩
    · intro h
      obtain ⟨rfl, -, rfl⟩ := h
      exact ⟨rfl, rfl⟩

/-- A first byte that is followed by the length. -/
theorem read_digits_eq_ok_iff (hfirst : extraBytes first = count + 1) :
    read max (first :: tail) = .ok (n, rest) ↔
      ∃ digits, digits.length = count + 1 ∧ n = LittleEndian.decode digits ∧ n ≤ max ∧
        tail = digits ++ rest := by
  have hread : read max (first :: tail) =
      splitBytes (count + 1) tail >>= fun found =>
        if max < LittleEndian.decode found.1 then
          .error (.encoding (.lengthTooLarge (LittleEndian.decode found.1) max))
        else .ok (LittleEndian.decode found.1, found.2) := by
    simp only [read, readByte, bind, Except.bind, pure, Except.pure, hfirst]
    rcases splitBytes (count + 1) tail with fault | found
    · rfl
    · simp only
      split <;> rfl
  rw [hread, bind_eq_ok_iff]
  constructor
  · intro h
    obtain ⟨⟨digits, left⟩, hsplit, h⟩ := h
    obtain ⟨hlength, rfl⟩ := splitBytes_eq_ok_iff.mp hsplit
    split at h
    · cases h
    · next hle =>
      cases h
      exact ⟨digits, hlength, rfl, Nat.le_of_not_lt hle, rfl⟩
  · intro h
    obtain ⟨digits, hlength, rfl, hle, rfl⟩ := h
    refine ⟨(digits, rest), splitBytes_eq_ok_iff.mpr ⟨hlength, rfl⟩, ?_⟩
    exact if_neg (Nat.not_lt_of_le hle)

theorem extraBytes_of_lt (h : first < 0xFD) : extraBytes first = 0 := by
  have hlt := UInt8.lt_iff_toNat_lt.mp h
  rw [extraBytes, if_neg, if_neg, if_neg] <;> rintro rfl <;> exact absurd hlt (by decide)

theorem first_cases (first : UInt8) :
    first < 0xFD ∨ first = 0xFD ∨ first = 0xFE ∨ first = 0xFF := by
  have h := first.toNat_lt
  simp only [UInt8.lt_iff_toNat_lt, ← UInt8.toNat_inj, UInt8.reduceToNat]
  omega

/-- Reading a length takes one of its forms off the front. -/
theorem read_eq_ok_iff :
    read max bytes = .ok (n, rest) ↔ ∃ form, Form n form ∧ n ≤ max ∧ bytes = form ++ rest := by
  constructor
  · intro h
    rcases bytes with _ | ⟨first, tail⟩
    · cases h
    · rcases first_cases first with hfirst | rfl | rfl | rfl
      · obtain ⟨rfl, hle, rfl⟩ := (read_byte_eq_ok_iff (extraBytes_of_lt hfirst)).mp h
        exact ⟨_, .byte first hfirst, hle, rfl⟩
      · obtain ⟨digits, hlength, rfl, hle, rfl⟩ := (read_digits_eq_ok_iff rfl).mp h
        exact ⟨_, .two digits hlength, hle, rfl⟩
      · obtain ⟨digits, hlength, rfl, hle, rfl⟩ := (read_digits_eq_ok_iff rfl).mp h
        exact ⟨_, .four digits hlength, hle, rfl⟩
      · obtain ⟨digits, hlength, rfl, hle, rfl⟩ := (read_digits_eq_ok_iff rfl).mp h
        exact ⟨_, .eight digits hlength, hle, rfl⟩
  · intro h
    obtain ⟨form, hform, hle, rfl⟩ := h
    cases hform with
    | byte first hfirst =>
      exact (read_byte_eq_ok_iff (extraBytes_of_lt hfirst)).mpr ⟨rfl, hle, rfl⟩
    | two digits hlength | four digits hlength | eight digits hlength =>
      exact (read_digits_eq_ok_iff rfl).mpr ⟨digits, hlength, rfl, hle, rfl⟩

theorem readBytes_eq_ok_iff :
    readBytes max bytes = .ok (front, rest) ↔
      ∃ form, Form front.length form ∧ front.length ≤ max ∧ bytes = form ++ (front ++ rest) := by
  rw [readBytes, bind_eq_ok_iff]
  constructor
  · intro h
    obtain ⟨⟨length, left⟩, hread, hsplit⟩ := h
    obtain ⟨form, hform, hle, rfl⟩ := read_eq_ok_iff.mp hread
    obtain ⟨rfl, rfl⟩ := splitBytes_eq_ok_iff.mp hsplit
    exact ⟨form, hform, hle, rfl⟩
  · intro h
    obtain ⟨form, hform, hle, rfl⟩ := h
    exact ⟨(front.length, front ++ rest), read_eq_ok_iff.mpr ⟨form, hform, hle, rfl⟩,
      splitBytes_eq_ok_iff.mpr ⟨rfl, rfl⟩⟩

end VarInt

end NativeContracts
