import NativeContracts.Genesis
import NativeContracts.Proofs.Lengths

/-! The addresses that texts spell. A text spells an address if it has forty digits behind its
marks and nothing else, and written back in lower case the address has the digits that were
read. Any other text is refused for one reason: an odd length comes before a byte that is no
digit, and the first such byte before a wrong number of digits. Lengths and positions count
bytes, of which a character can have several. -/

namespace NativeContracts

/-! ## Digits -/

namespace Hex

/-- The digits, of either case. -/
def IsDigit (c : Char) : Prop :=
  '0'.toNat ≤ c.toNat ∧ c.toNat ≤ '9'.toNat ∨ 'a'.toNat ≤ c.toNat ∧ c.toNat ≤ 'f'.toNat ∨
    'A'.toNat ≤ c.toNat ∧ c.toNat ≤ 'F'.toNat

instance : DecidablePred IsDigit := fun _ => inferInstanceAs (Decidable (_ ∨ _))

/-- A byte of a text that is a digit. -/
abbrev IsDigitByte (byte : UInt8) : Prop := IsDigit (Char.ofUInt8 byte)

variable {byte high low v : UInt8} {text front back bytes done : List UInt8} {fault : Fault}

/-- A byte is one of 256. -/
theorem forall_byte {p : UInt8 → Prop} (h : ∀ n : Fin 256, p (.ofFin n)) (byte : UInt8) : p byte :=
  h byte.toFin

theorem value?_eq_none_iff : value? byte = none ↔ ¬IsDigitByte byte :=
  forall_byte (p := fun byte => value? byte = none ↔ ¬IsDigitByte byte) (by decide +kernel) byte

/-- A digit is written back in lower case. -/
theorem digit_of_value? (h : value? byte = some v) :
    v < 16 ∧ digit v = (Char.ofUInt8 byte).toLower := by
  have hall : ∀ byte : UInt8, (value? byte).all fun v =>
      v < 16 ∧ digit v = (Char.ofUInt8 byte).toLower :=
    forall_byte (by decide +kernel)
  simpa [h] using hall byte

theorem encodeByte_join (hhigh : high < 16) (hlow : low < 16) :
    encodeByte (16 * high + low) = [digit high, digit low] := by
  simp only [UInt8.lt_iff_toNat_lt, UInt8.toNat_ofNat, Nat.reducePow, Nat.reduceMod] at hhigh hlow
  have hjoin : (16 * high + low).toNat = 16 * high.toNat + low.toNat := by
    simp only [UInt8.toNat_add, UInt8.toNat_mul, UInt8.toNat_ofNat, Nat.reducePow, Nat.reduceMod]
    omega
  have hdiv : (16 * high + low) / 16 = high := by
    simp only [← UInt8.toNat_inj, UInt8.toNat_div, hjoin, UInt8.toNat_ofNat, Nat.reducePow,
      Nat.reduceMod]
    omega
  have hmod : (16 * high + low) % 16 = low := by
    simp only [← UInt8.toNat_inj, UInt8.toNat_mod, hjoin, UInt8.toNat_ofNat, Nat.reducePow,
      Nat.reduceMod]
    omega
  rw [encodeByte, hdiv, hmod]

theorem length_flatMap_encodeByte (bytes : List UInt8) :
    (bytes.flatMap encodeByte).length = 2 * bytes.length := by
  induction bytes with
  | nil => rfl
  | cons byte bytes ih =>
    rw [List.flatMap_cons, List.length_append, ih, List.length_cons, encodeByte, List.length_cons,
      List.length_singleton]
    omega

theorem number?_encodeByte (byte : UInt8) :
    number? 2 0 (encodeByte byte) = some (byte.toNat, []) :=
  forall_byte (p := fun byte => number? 2 0 (encodeByte byte) = some (byte.toNat, []))
    (by decide +kernel) byte

/-- No two lists of bytes have the same digits. -/
theorem flatMap_encodeByte_inj {others : List UInt8}
    (h : bytes.flatMap encodeByte = others.flatMap encodeByte) : bytes = others := by
  induction bytes generalizing others with
  | nil =>
    rcases others with _ | ⟨other, others⟩
    · rfl
    · cases h
  | cons byte bytes ih =>
    rcases others with _ | ⟨other, others⟩
    · cases h
    · rw [List.flatMap_cons, List.flatMap_cons] at h
      obtain ⟨hfirst, hrest⟩ := List.append_inj h rfl
      have hnumber := congrArg (number? 2 0) hfirst
      rw [number?_encodeByte, number?_encodeByte, Option.some.injEq, Prod.mk.injEq,
        UInt8.toNat_inj] at hnumber
      rw [hnumber.1, ih hrest]

/-! ## Digits in pairs -/

/-- What is wrong with a text that is not made of digits in pairs. -/
inductive Flawed (text : List UInt8) : Fault → Prop where
  | oddLength (hodd : text.length % 2 = 1) : Flawed text .oddLength
  | invalidDigit {front back : List UInt8} {byte : UInt8} (hsplit : text = front ++ byte :: back)
      (heven : text.length % 2 = 0) (hfront : ∀ other ∈ front, IsDigitByte other)
      (hbyte : ¬IsDigitByte byte) : Flawed text (.invalidDigit byte front.length)

theorem decodePairs_of_digits (heven : text.length % 2 = 0)
    (hdigits : ∀ byte ∈ text, IsDigitByte byte) (position : Nat) (done : List UInt8) :
    ∃ bytes, decodePairs position done text = .ok (done.reverse ++ bytes) ∧
      bytes.flatMap encodeByte = text.map fun byte => (Char.ofUInt8 byte).toLower := by
  fun_induction decodePairs position done text with
  | case1 position done high low rest hnone =>
    exact absurd (hdigits high (by simp)) (value?_eq_none_iff.mp hnone)
  | case2 position done high low rest h hnone =>
    exact absurd (hdigits low (by simp)) (value?_eq_none_iff.mp hnone)
  | case3 position done high low rest h l hlow hhigh ih =>
    rw [List.length_cons, List.length_cons] at heven
    obtain ⟨bytes, hdecode, hencode⟩ := ih (by omega)
      fun byte hmem => hdigits byte (List.mem_cons_of_mem _ (List.mem_cons_of_mem _ hmem))
    obtain ⟨hh, hhighDigit⟩ := digit_of_value? hhigh
    obtain ⟨hl, hlowDigit⟩ := digit_of_value? hlow
    refine ⟨(16 * h + l) :: bytes, by simpa using hdecode, ?_⟩
    rw [List.flatMap_cons, encodeByte_join hh hl, hencode, hhighDigit, hlowDigit]
    rfl
  | case4 text position done hshort =>
    rcases text with _ | ⟨first, _ | ⟨second, rest⟩⟩
    · exact ⟨[], by simp, rfl⟩
    · simp at heven
    · exact absurd rfl (hshort first second rest)

/-- The pairs in front of the first byte that is no digit are read, and the byte is found in
either half of its own. -/
theorem decodePairs_of_first (heven : text.length % 2 = 0) (hsplit : text = front ++ byte :: back)
    (hfront : ∀ other ∈ front, IsDigitByte other) (hbyte : ¬IsDigitByte byte) (position : Nat)
    (done : List UInt8) :
    decodePairs position done text = .error (.invalidDigit byte (position + front.length)) := by
  have hvalue := value?_eq_none_iff.mpr hbyte
  -- Each pair that is read takes two bytes off the front, so that the place carries over.
  fun_induction decodePairs position done text generalizing front with
  | case1 position done high low rest hnone =>
    rcases front with _ | ⟨first, front⟩
    · cases hsplit
      rfl
    · obtain ⟨rfl, -⟩ := List.cons_eq_cons.mp hsplit
      exact absurd (hfront high List.mem_cons_self) (value?_eq_none_iff.mp hnone)
  | case2 position done high low rest h hnone hhigh =>
    rcases front with _ | ⟨first, _ | ⟨second, front⟩⟩
    · cases hsplit
      rw [hvalue] at hhigh
      cases hhigh
    · cases hsplit
      rfl
    · cases hsplit
      exact absurd (hfront low (by simp)) (value?_eq_none_iff.mp hnone)
  | case3 position done high low rest h l hlow hhigh ih =>
    rcases front with _ | ⟨first, _ | ⟨second, front⟩⟩
    · cases hsplit
      rw [hvalue] at hhigh
      cases hhigh
    · cases hsplit
      rw [hvalue] at hlow
      cases hlow
    · cases hsplit
      simp only [List.length_cons] at heven
      rw [ih (by omega) rfl fun other hmem => hfront other (by simp [hmem])]
      simp only [List.length_cons, Nat.add_assoc, Nat.add_comm 2]
  | case4 text position done hshort =>
    subst hsplit
    rcases front with _ | ⟨first, _ | ⟨second, front⟩⟩
    · rcases back with _ | ⟨second, back⟩
      · simp at heven
      · exact absurd rfl (hshort byte second back)
    · exact absurd rfl (hshort first byte back)
    · exact absurd rfl (hshort first second (front ++ byte :: back))

theorem decode_of_flawed (h : Flawed text fault) : decode text = .error fault := by
  cases h with
  | oddLength hodd => exact if_pos hodd
  | @invalidDigit front back byte hsplit heven hfront hbyte =>
    rw [decode, if_neg (by omega), decodePairs_of_first heven hsplit hfront hbyte, Nat.zero_add]

theorem decode_of_digits (heven : text.length % 2 = 0)
    (hdigits : ∀ byte ∈ text, IsDigitByte byte) :
    ∃ bytes, decode text = .ok bytes ∧
      bytes.flatMap encodeByte = text.map fun byte => (Char.ofUInt8 byte).toLower := by
  obtain ⟨bytes, hdecode, hencode⟩ := decodePairs_of_digits heven hdigits 0 []
  refine ⟨bytes, ?_, hencode⟩
  rw [decode, if_neg (by omega), hdecode]
  rfl

/-- A text without a flaw is made of digits in pairs. -/
theorem flawed_or_digits (text : List UInt8) :
    (∃ fault, Flawed text fault) ∨
      text.length % 2 = 0 ∧ ∀ byte ∈ text, IsDigitByte byte := by
  rcases Nat.mod_two_eq_zero_or_one text.length with heven | hodd
  · rcases forall_or_exists_first IsDigitByte text with hdigits | ⟨_, _, _, hsplit, hfront, hbyte⟩
    · exact .inr ⟨heven, hdigits⟩
    · exact .inl ⟨_, .invalidDigit hsplit heven hfront hbyte⟩
  · exact .inl ⟨_, .oddLength hodd⟩

/-! ## Characters and their bytes -/

variable {c : Char} {chars : List Char}

theorem IsDigit.toNat_lt (h : IsDigit c) : c.toNat < 128 := by
  rcases h with ⟨-, h⟩ | ⟨-, h⟩ | ⟨-, h⟩
  · exact Nat.lt_of_le_of_lt h (by decide)
  · exact Nat.lt_of_le_of_lt h (by decide)
  · exact Nat.lt_of_le_of_lt h (by decide)

/-- A character of the ASCII range is its own byte. -/
theorem utf8EncodeChar_of_lt (h : c.toNat < 128) :
    ∃ byte, String.utf8EncodeChar c = [byte] ∧ Char.ofUInt8 byte = c := by
  have hval : c.val.toNat < 128 := h
  have hsize : c.utf8Size = 1 := by
    rw [Char.utf8Size_eq_one_iff, UInt32.le_iff_toNat_le]
    exact Nat.le_of_lt_succ hval
  refine ⟨c.val.toUInt8, String.utf8EncodeChar_eq_singleton hsize, Char.ext ?_⟩
  change c.val.toUInt8.toUInt32 = c.val
  rw [← UInt32.toNat_inj, UInt8.toNat_toUInt32, UInt32.toNat_toUInt8]
  exact Nat.mod_eq_of_lt (by omega)

/-- The last byte of any other character is no digit. -/
theorem exists_no_digit_of_le (h : 128 ≤ c.toNat) :
    ∃ byte ∈ String.utf8EncodeChar c, ¬IsDigitByte byte := by
  have hval : ¬c.val.toNat ≤ 127 := Nat.not_le.mpr h
  -- However many bytes there are, the last one has the lowest six bits.
  refine ⟨UInt8.ofNat (c.val.toNat % 64 + 128), ?_, fun hdigit => ?_⟩
  · rw [String.utf8EncodeChar, if_neg hval]
    split
    · simp
    · split <;> simp
  · have hlt := hdigit.toNat_lt
    change (UInt8.ofNat (c.val.toNat % 64 + 128)).toUInt32.toNat < 128 at hlt
    rw [UInt8.toNat_toUInt32, UInt8.toNat_ofNat'] at hlt
    omega

/-- Digits are their own bytes. -/
theorem map_utf8_of_digits (h : ∀ c ∈ chars, IsDigit c) :
    (Utf8.encode (.ofList chars)).map Char.ofUInt8 = chars := by
  rw [Utf8.encode_ofList]
  induction chars with
  | nil => rfl
  | cons c chars ih =>
    obtain ⟨hc, hchars⟩ := List.forall_mem_cons.mp h
    obtain ⟨byte, hbytes, hbyte⟩ := utf8EncodeChar_of_lt hc.toNat_lt
    rw [List.flatMap_cons, List.map_append, ih hchars, hbytes, List.map_singleton, hbyte]
    rfl

theorem length_utf8_of_digits (h : ∀ c ∈ chars, IsDigit c) :
    (Utf8.encode (.ofList chars)).length = chars.length := by
  have hlength := congrArg List.length (map_utf8_of_digits h)
  rwa [List.length_map] at hlength

theorem forall_digit_iff :
    (∀ byte ∈ Utf8.encode (.ofList chars), IsDigitByte byte) ↔ ∀ c ∈ chars, IsDigit c := by
  constructor
  · intro h c hmem
    rw [Utf8.encode_ofList] at h
    have hbytes : ∀ byte ∈ String.utf8EncodeChar c, IsDigitByte byte := fun byte hbyte =>
      h byte (List.mem_flatMap.mpr ⟨c, hmem, hbyte⟩)
    rcases Nat.lt_or_ge c.toNat 128 with hlt | hle
    · obtain ⟨byte, hsingle, rfl⟩ := utf8EncodeChar_of_lt hlt
      exact hbytes byte (by rw [hsingle]; exact List.mem_singleton_self byte)
    · obtain ⟨byte, hbyte, hnone⟩ := exists_no_digit_of_le hle
      exact absurd (hbytes byte hbyte) hnone
  · intro h byte hmem
    have hchar := List.mem_map_of_mem (f := Char.ofUInt8) hmem
    rw [map_utf8_of_digits h] at hchar
    exact h _ hchar

end Hex

/-! ## Marks -/

/-- What a text has behind its marks, all of them taken off. -/
def Bare (text : String) (rest : List Char) : Prop :=
  (∃ marks, text.toList = (List.replicate marks ['0', 'x']).flatten ++ rest) ∧
    ¬['0', 'x'] <+: rest

theorem bare_stripMarks (text : String) : Bare text (stripMarks text.toList) := by
  unfold Bare
  generalize text.toList = chars
  fun_induction stripMarks chars with
  | case1 rest ih =>
    obtain ⟨⟨marks, hmarks⟩, hbare⟩ := ih
    exact ⟨⟨marks + 1, congrArg (['0', 'x'] ++ ·) hmarks⟩, hbare⟩
  | case2 chars hmark =>
    refine ⟨⟨0, rfl⟩, ?_⟩
    rintro ⟨rest, rfl⟩
    exact hmark rest rfl

theorem Bare.stripMarks_eq {text : String} {rest : List Char} (h : Bare text rest) :
    stripMarks text.toList = rest := by
  obtain ⟨⟨marks, hmarks⟩, hbare⟩ := h
  rw [hmarks]
  clear hmarks
  induction marks with
  | zero =>
    change stripMarks rest = rest
    unfold stripMarks
    split
    · exact absurd ⟨_, rfl⟩ hbare
    · rfl
  | succ marks ih => exact ih

/-! ## Addresses -/

variable {text : String} {address : List UInt8} {error : Error}

/-- Forty digits, behind any number of marks. -/
def IsAddress (text : String) : Prop :=
  ∃ digits, Bare text digits ∧ digits.length = 2 * addressSize ∧ ∀ c ∈ digits, Hex.IsDigit c

theorem isAddress_iff : IsAddress text ↔
    (stripMarks text.toList).length = 2 * addressSize ∧
      ∀ c ∈ stripMarks text.toList, Hex.IsDigit c := by
  constructor
  · rintro ⟨digits, hrest, h⟩
    rwa [hrest.stripMarks_eq]
  · intro h
    exact ⟨_, bare_stripMarks text, h⟩

instance : DecidablePred IsAddress := fun text =>
  decidable_of_iff ((stripMarks text.toList).length = 2 * addressSize ∧
      (stripMarks text.toList).all (Hex.IsDigit ·) = true)
    (by simp only [isAddress_iff, List.all_eq_true, decide_eq_true_eq])

/-- The address that a text spells, which has its digits in lower case. -/
def Spells (text : String) (address : List UInt8) : Prop :=
  address.length = addressSize ∧
    ∃ digits, Bare text digits ∧ digits.length = 2 * addressSize ∧
      (∀ c ∈ digits, Hex.IsDigit c) ∧
      Hex.encode address = .ofList (digits.map Char.toLower)

/-- What is said of a text that spells no address. -/
inductive Misspelled (text : String) : Error → Prop where
  | flawed {rest : List Char} {fault : Hex.Fault} (hrest : Bare text rest)
      (hflawed : Hex.Flawed (Utf8.encode (.ofList rest)) fault) :
      Misspelled text (.refused (.badHex text fault))
  | length {digits : List Char} (hrest : Bare text digits)
      (hdigits : ∀ c ∈ digits, Hex.IsDigit c) (heven : digits.length % 2 = 0)
      (hlength : digits.length ≠ 2 * addressSize) :
      Misspelled text (.refused (.accountLength (digits.length / 2)))

/-- Digits in pairs have bytes, half as many, and then it is their number that counts. -/
theorem decodeAddress_of_digits {digits : List Char} (hrest : Bare text digits)
    (hdigits : ∀ c ∈ digits, Hex.IsDigit c) (heven : digits.length % 2 = 0) :
    ∃ address, digits.length = 2 * address.length ∧
      Hex.encode address = .ofList (digits.map Char.toLower) ∧
      decodeAddress text = (do checkAddress address; return address) := by
  obtain ⟨address, hdecode, hencode⟩ :=
    Hex.decode_of_digits (by rwa [Hex.length_utf8_of_digits hdigits])
      (Hex.forall_digit_iff.mpr hdigits)
  have hlower : address.flatMap Hex.encodeByte = digits.map Char.toLower := by
    rw [hencode, ← Hex.map_utf8_of_digits hdigits, List.map_map, Hex.map_utf8_of_digits hdigits]
    rfl
  refine ⟨address, ?_, congrArg String.ofList hlower, ?_⟩
  · rw [← Hex.length_flatMap_encodeByte, hlower, List.length_map]
  · rw [decodeAddress, hrest.stripMarks_eq, hdecode]

theorem decodeAddress_of_misspelled (h : Misspelled text error) :
    decodeAddress text = .error error := by
  cases h with
  | flawed hrest hflawed =>
    rw [decodeAddress, hrest.stripMarks_eq, Hex.decode_of_flawed hflawed]
    rfl
  | @length digits hrest hdigits heven hlength =>
    obtain ⟨address, hsize, -, hdecode⟩ := decodeAddress_of_digits hrest hdigits heven
    have hwrong : address.length ≠ addressSize := fun hright => hlength (by rw [hsize, hright])
    rw [hdecode, checkAddress, if_pos hwrong, hsize, Nat.mul_div_cancel_left _ (by decide)]
    rfl

theorem exists_spells_of_isAddress (h : IsAddress text) :
    ∃ address, decodeAddress text = .ok address ∧ Spells text address := by
  obtain ⟨digits, hrest, hlength, hdigits⟩ := h
  obtain ⟨address, hsize, hencode, hdecode⟩ :=
    decodeAddress_of_digits hrest hdigits (by rw [hlength]; decide)
  have hright : address.length = addressSize := by omega
  refine ⟨address, ?_, hright, digits, hrest, hlength, hdigits, hencode⟩
  rw [hdecode, checkAddress, if_neg (Decidable.not_not.mpr hright)]
  rfl

theorem isAddress_or_misspelled (text : String) :
    IsAddress text ∨ ∃ error, Misspelled text error := by
  have hrest := bare_stripMarks text
  rcases Hex.flawed_or_digits (Utf8.encode (.ofList (stripMarks text.toList))) with
    ⟨fault, hflawed⟩ | ⟨heven, hbytes⟩
  · exact .inr ⟨_, .flawed hrest hflawed⟩
  · have hdigits := Hex.forall_digit_iff.mp hbytes
    rw [Hex.length_utf8_of_digits hdigits] at heven
    by_cases hlength : (stripMarks text.toList).length = 2 * addressSize
    · exact .inl (isAddress_iff.mpr ⟨hlength, hdigits⟩)
    · exact .inr ⟨_, .length hrest hdigits heven hlength⟩

theorem decodeAddress_eq_error_iff :
    decodeAddress text = .error error ↔ Misspelled text error := by
  refine ⟨fun hdecode => ?_, decodeAddress_of_misspelled⟩
  rcases isAddress_or_misspelled text with haddress | ⟨other, hother⟩
  · obtain ⟨address, hok, -⟩ := exists_spells_of_isAddress haddress
    rw [hok] at hdecode
    cases hdecode
  · rw [decodeAddress_of_misspelled hother] at hdecode
    cases hdecode
    exact hother

theorem exists_decodeAddress_iff :
    (∃ address, decodeAddress text = .ok address) ↔ IsAddress text := by
  constructor
  · rintro ⟨address, hdecode⟩
    rcases isAddress_or_misspelled text with haddress | ⟨error, herror⟩
    · exact haddress
    · rw [decodeAddress_of_misspelled herror] at hdecode
      cases hdecode
  · intro haddress
    obtain ⟨address, hdecode, -⟩ := exists_spells_of_isAddress haddress
    exact ⟨address, hdecode⟩

theorem Spells.isAddress (h : Spells text address) : IsAddress text := by
  obtain ⟨-, digits, hrest, hlength, hdigits, -⟩ := h
  exact ⟨digits, hrest, hlength, hdigits⟩

theorem Spells.unique {other : List UInt8} (h : Spells text address) (hother : Spells text other) :
    address = other := by
  obtain ⟨-, digits, hrest, -, -, hencode⟩ := h
  obtain ⟨-, others, hotherRest, -, -, hotherEncode⟩ := hother
  rw [← hotherRest.stripMarks_eq, hrest.stripMarks_eq, ← hencode] at hotherEncode
  exact Hex.flatMap_encodeByte_inj (String.ofList_injective hotherEncode).symm

theorem decodeAddress_eq_ok_iff : decodeAddress text = .ok address ↔ Spells text address := by
  constructor
  · intro hdecode
    obtain ⟨found, hfound, hspells⟩ :=
      exists_spells_of_isAddress (exists_decodeAddress_iff.mp ⟨address, hdecode⟩)
    rw [hdecode] at hfound
    cases hfound
    exact hspells
  · intro hspells
    obtain ⟨found, hfound, hother⟩ := exists_spells_of_isAddress hspells.isAddress
    rw [hfound, hspells.unique hother]

end NativeContracts
