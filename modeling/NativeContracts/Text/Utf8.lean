/-! UTF-8 between texts and lists of bytes. Every text has its bytes, and bytes
that follow the encoding's rules to the end have exactly one text. -/

namespace NativeContracts.Utf8

def encode (s : String) : List UInt8 := s.toUTF8.toList

def decode? (bytes : List UInt8) : Option String := String.fromUTF8? ⟨bytes.toArray⟩

theorem toList_loop (bytes : ByteArray) (i : Nat) (done : List UInt8) :
    ByteArray.toList.loop bytes i done = done.reverse ++ bytes.data.toList.drop i := by
  fun_induction ByteArray.toList.loop bytes i done with
  | case1 i done h ih =>
    have hi : i < bytes.data.toList.length := h
    rw [ih, List.drop_eq_getElem_cons hi]
    simp [ByteArray.get!, getElem!_pos bytes.data i h]
  | case2 i done h =>
    have hi : bytes.data.toList.length ≤ i := Nat.le_of_not_lt h
    simp [List.drop_eq_nil_of_le hi]

theorem encode_eq (s : String) : encode s = s.toByteArray.data.toList := by
  simp [encode, ByteArray.toList, toList_loop]

theorem encode_ofList (chars : List Char) :
    encode (.ofList chars) = chars.flatMap String.utf8EncodeChar := by
  rw [encode_eq]
  simp only [String.toByteArray_ofList, List.utf8Encode, List.data_toByteArray]

theorem decode?_eq_some_iff {bytes : List UInt8} {s : String} :
    decode? bytes = some s ↔ bytes = encode s := by
  rw [decode?, String.fromUTF8?, encode_eq]
  constructor
  · intro h
    split at h
    · cases h
      rfl
    · cases h
  · rintro rfl
    rw [dif_pos s.isValidUTF8]
    rfl

@[simp] theorem decode?_encode (s : String) : decode? (encode s) = some s :=
  decode?_eq_some_iff.mpr rfl

end NativeContracts.Utf8
