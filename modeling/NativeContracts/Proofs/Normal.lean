import NativeContracts.Proofs.Acceptance
import NativeContracts.Proofs.RoundTrip

/-! Stored bytes written again. What is read from bytes is written in the one form that
wastes nothing, so it never takes more bytes than it was read from, and takes the same ones
exactly when no length in them has a shorter form and no integer a byte to spare. -/

namespace NativeContracts

/-! ## Lengths -/

namespace VarInt

variable {n more : Nat} {form : List UInt8}

theorem length_encode_eq (n : Nat) :
    (encode n).length =
      if n < 0xFD then 1 else if n ≤ 0xFFFF then 3 else if n ≤ 0xFFFFFFFF then 5 else 9 := by
  unfold encode
  split
  · rfl
  · split
    · rfl
    · split <;> rfl

theorem length_encode_mono (h : n ≤ more) : (encode n).length ≤ (encode more).length := by
  rw [length_encode_eq, length_encode_eq]
  grind

theorem Form.lt_size (h : Form n form) : n < UInt64.size := by
  cases h with
  | byte first _ => exact Nat.lt_trans first.toNat_lt (by decide)
  | two digits h | four digits h | eight digits h =>
    have hlt := LittleEndian.decode_lt digits
    rw [h] at hlt
    exact Nat.lt_of_lt_of_le hlt (by decide)

theorem decode_digits {digits : List UInt8} {width : Nat} (h : digits.length = width) :
    LittleEndian.decode digits < LittleEndian.capacity width ∧
      LittleEndian.encode width (LittleEndian.decode digits) = digits := by
  subst h
  exact ⟨LittleEndian.decode_lt digits, LittleEndian.encode_decode digits⟩

/-- A form is the one that is written, or a longer one. -/
theorem Form.eq_encode_or_lt (h : Form n form) :
    form = encode n ∨ (encode n).length < form.length := by
  cases h with
  | byte first h =>
    have hsmall : first.toNat < 0xFD := UInt8.lt_iff_toNat_lt.mp h
    left
    rw [encode, if_pos hsmall, Nat.toUInt8_eq, UInt8.ofNat_toNat]
  | two digits h =>
    obtain ⟨hlt, hdigits⟩ := decode_digits h
    simp only [LittleEndian.capacity] at hlt
    rw [length_encode_eq, encode, List.length_cons, h, hdigits]
    split
    · exact .inr (by decide)
    · exact .inl (if_pos (by omega)).symm
  | four digits h =>
    obtain ⟨hlt, hdigits⟩ := decode_digits h
    simp only [LittleEndian.capacity] at hlt
    rw [length_encode_eq, encode, List.length_cons, h, hdigits]
    split
    · exact .inr (by decide)
    · split
      · exact .inr (by decide)
      · exact .inl (if_pos (by omega)).symm
  | eight digits h =>
    obtain ⟨-, hdigits⟩ := decode_digits h
    rw [length_encode_eq, encode, List.length_cons, h, hdigits]
    split
    · exact .inr (by decide)
    · split
      · exact .inr (by decide)
      · split
        · exact .inr (by decide)
        · exact .inl rfl

theorem Form.length_encode_le (h : Form n form) : (encode n).length ≤ form.length := by
  rcases h.eq_encode_or_lt with rfl | hlt
  · exact Nat.le_refl _
  · exact Nat.le_of_lt hlt

/-- No form of the length is shorter. -/
def Shortest (n : Nat) (form : List UInt8) : Prop :=
  ∀ other, Form n other → form.length ≤ other.length

theorem Form.shortest_iff (h : Form n form) : Shortest n form ↔ form = encode n := by
  constructor
  · intro hshortest
    exact h.eq_encode_or_lt.resolve_right (Nat.not_lt_of_le (hshortest _ (form_encode h.lt_size)))
  · rintro rfl other hother
    exact hother.length_encode_le

end VarInt

/-! ## Sign bytes -/

namespace TwosComplement

variable {digits : List UInt8}

theorem lowByte_add (byte : UInt8) (n : Int) : lowByte (byte.toNat + 256 * n) = byte := by
  have hbyte := byte.toNat_lt
  rw [← UInt8.toNat_inj, toNat_lowByte]
  omega

theorem signedByte_eq (byte : UInt8) :
    signedByte byte = byte.toNat + 256 * if byte < 128 then 0 else -1 := by
  unfold signedByte
  split <;> omega

theorem encode_zero : encode 0 = [0x00] := by
  rw [encode]
  rfl

theorem encode_neg_one : encode (-1) = [0xFF] := by
  rw [encode]
  rfl

/-- Bytes none of which can go at the end are those that are written. -/
theorem encode_decode (hne : digits ≠ [])
    (h : ∀ front top, front ≠ [] → digits = front ++ [top] → decode front ≠ decode digits) :
    encode (decode digits) = digits := by
  induction digits with
  | nil => contradiction
  | cons byte rest ih =>
    by_cases hrest : rest = []
    · subst hrest
      rw [decode, encode, if_pos (signedByte_bounds byte), signedByte_eq, lowByte_add]
    · have hbyte := byte.toNat_lt
      have hdecode := decode_cons byte hrest
      have htail : encode (decode rest) = rest := by
        apply ih hrest
        rintro front top hfront rfl heq
        refine h (byte :: front) top (List.cons_ne_nil _ _) rfl ?_
        rw [decode_cons byte hfront, heq, hdecode]
      rw [encode]
      split
      · next hsmall =>
        -- So small a number would be told by the first byte alone.
        have halone : ∀ top, rest = [top] → decode [byte] ≠ decode (byte :: rest) :=
          fun top htop => h [byte] top (List.cons_ne_nil _ _) (by rw [htop]; rfl)
        rw [hdecode] at hsmall halone
        rw [decode, signedByte] at halone
        by_cases hhigh : byte < 128
        · have hlow : byte.toNat < 128 := UInt8.lt_iff_toNat_lt.mp hhigh
          have hzero : decode rest = 0 := by omega
          rw [hzero, encode_zero] at htail
          exact absurd (by rw [hzero, if_pos hhigh]; omega) (halone _ htail.symm)
        · have hlow : ¬byte.toNat < 128 := fun hlt => hhigh (UInt8.lt_iff_toNat_lt.mpr hlt)
          have hnegative : decode rest = -1 := by omega
          rw [hnegative, encode_neg_one] at htail
          exact absurd (by rw [hnegative, if_neg hhigh]; omega) (halone _ htail.symm)
      · have hquotient : ((byte.toNat : Int) + 256 * decode rest) / 256 = decode rest := by omega
        rw [hdecode, lowByte_add, hquotient, htail]

end TwosComplement

namespace Item

open VarInt

variable {digits : List UInt8}

/-- No byte of the integer can go at the end: the sign takes no more bytes than it needs, and
zero takes none. -/
def Minimal (digits : List UInt8) : Prop :=
  ∀ front top, digits = front ++ [top] → signedValue front ≠ signedValue digits

theorem minimal_iff : Minimal digits ↔ digits = integerBytes (signedValue digits) := by
  simp only [Minimal, ← decode_eq_signedValue]
  constructor
  · intro h
    rcases List.eq_nil_or_concat digits with rfl | ⟨front, top, hdigits⟩
    · rfl
    · have hencode := TwosComplement.encode_decode (by simp [hdigits])
        fun front top _ => h front top
      rw [integerBytes, if_neg, hencode]
      -- Zero would be a byte, which can go.
      intro hzero
      rw [hzero, TwosComplement.encode_zero] at hencode
      exact h [] 0x00 hencode.symm hzero.symm
  · rintro h front top rfl hfront
    have hlength := length_integerBytes_decode_le front
    rw [hfront, ← h, List.length_append] at hlength
    exact absurd hlength (Nat.not_succ_le_self _)

/-! ## The parts of stored bytes -/

/-- A length with the form it is given in, and the sign bytes of an integer. -/
inductive Part where
  | length (n : Nat) (form : List UInt8)
  | integer (digits : List UInt8)

def Part.Shortest : Part → Prop
  | length n form => VarInt.Shortest n form
  | integer digits => Minimal digits

mutual

/-- `Parts bytes item parts`: the lengths and the integers in `bytes`, which spell `item`, are
`parts`. -/
inductive Parts : List UInt8 → Item → List Part → Prop where
  | null : Parts [0x00] null []
  | no : Parts [0x20, 0x00] (boolean false) []
  | yes : Parts [0x20, 0x01] (boolean true) []
  | integer {form digits : List UInt8} (hform : Form digits.length form) :
      Parts (0x21 :: (form ++ digits)) (integer (signedValue digits))
        [.length digits.length form, .integer digits]
  | byteString {form content : List UInt8} (hform : Form content.length form) :
      Parts (0x28 :: (form ++ content)) (byteString content) [.length content.length form]
  | buffer {form content : List UInt8} (hform : Form content.length form) :
      Parts (0x30 :: (form ++ content)) (buffer content) [.length content.length form]
  | array {form bytes : List UInt8} {items : List Item} {parts : List Part}
      (hform : Form items.length form) (h : PartsOfAll bytes items parts) :
      Parts (0x40 :: (form ++ bytes)) (array items) (.length items.length form :: parts)
  | struct {form bytes : List UInt8} {items : List Item} {parts : List Part}
      (hform : Form items.length form) (h : PartsOfAll bytes items parts) :
      Parts (0x41 :: (form ++ bytes)) (struct items) (.length items.length form :: parts)

inductive PartsOfAll : List UInt8 → List Item → List Part → Prop where
  | nil : PartsOfAll [] [] []
  | cons {front bytes : List UInt8} {item : Item} {items : List Item} {first others : List Part}
      (hitem : Parts front item first) (hitems : PartsOfAll bytes items others) :
      PartsOfAll (front ++ bytes) (item :: items) (first ++ others)

end

mutual

theorem StoredAs.exists_parts {limits : Limits} {bytes : List UInt8} {item : Item}
    (h : StoredAs limits item bytes) : ∃ parts, Parts bytes item parts := by
  cases h with
  | null => exact ⟨_, .null⟩
  | boolean value =>
    cases value with
    | false => exact ⟨_, .no⟩
    | true => exact ⟨_, .yes⟩
  | integer h =>
    obtain ⟨hform, -⟩ := h
    rw [decode_eq_signedValue]
    exact ⟨_, .integer hform⟩
  | byteString h =>
    obtain ⟨hform, -⟩ := h
    exact ⟨_, .byteString hform⟩
  | buffer h =>
    obtain ⟨hform, -⟩ := h
    exact ⟨_, .buffer hform⟩
  | array hform h =>
    obtain ⟨parts, hparts⟩ := h.exists_partsOfAll
    exact ⟨_, .array hform hparts⟩
  | struct hform h =>
    obtain ⟨parts, hparts⟩ := h.exists_partsOfAll
    exact ⟨_, .struct hform hparts⟩

theorem AllStoredAs.exists_partsOfAll {limits : Limits} {bytes : List UInt8} {items : List Item}
    (h : AllStoredAs limits items bytes) : ∃ parts, PartsOfAll bytes items parts := by
  cases h with
  | nil => exact ⟨_, .nil⟩
  | cons hitem hitems =>
    obtain ⟨first, hfirst⟩ := hitem.exists_parts
    obtain ⟨others, hothers⟩ := hitems.exists_partsOfAll
    exact ⟨_, .cons hfirst hothers⟩

end

/-! ## What is written instead -/

/-- The written bytes are no longer than the given ones, and are the given ones exactly when
`parts` are the shortest. -/
structure Normal (written given : List UInt8) (parts : List Part) : Prop where
  length_le : written.length ≤ given.length
  eq_iff : written = given ↔ ∀ part ∈ parts, part.Shortest

namespace Normal

variable {front back front' back' form content : List UInt8} {first others : List Part} {n : Nat}

theorem literal (bytes : List UInt8) : Normal bytes bytes [] :=
  ⟨Nat.le_refl _, by simp⟩

/-- Pieces in a row are the same only one by one, since none of them grows. -/
theorem append (hfront : Normal front front' first) (hback : Normal back back' others) :
    Normal (front ++ back) (front' ++ back') (first ++ others) := by
  refine ⟨?_, ?_⟩
  · rw [List.length_append, List.length_append]
    exact Nat.add_le_add hfront.length_le hback.length_le
  · have hsplit : front ++ back = front' ++ back' ↔ front = front' ∧ back = back' := by
      constructor
      · intro h
        have hlength := congrArg List.length h
        have hfrontLe := hfront.length_le
        have hbackLe := hback.length_le
        rw [List.length_append, List.length_append] at hlength
        exact List.append_inj h (by omega)
      · rintro ⟨rfl, rfl⟩
        rfl
    rw [hsplit, hfront.eq_iff, hback.eq_iff]
    simp only [List.mem_append, or_imp, forall_and]

theorem cons (byte : UInt8) (h : Normal front front' first) :
    Normal (byte :: front) (byte :: front') first :=
  (literal [byte]).append h

theorem length (h : Form n form) : Normal (VarInt.encode n) form [.length n form] := by
  refine ⟨h.length_encode_le, ?_⟩
  rw [List.forall_mem_singleton, Part.Shortest, h.shortest_iff, eq_comm]

theorem payload (h : Form content.length form) :
    Normal (payload content) (form ++ content) [.length content.length form] :=
  (length h).append (literal content)

theorem integer {digits : List UInt8} (h : Form digits.length form) :
    Normal (Item.payload (integerBytes (signedValue digits))) (form ++ digits)
      [.length digits.length form, .integer digits] := by
  have hdigits : (integerBytes (signedValue digits)).length ≤ digits.length := by
    rw [← decode_eq_signedValue]
    exact length_integerBytes_decode_le digits
  have hform := Nat.le_trans (length_encode_mono hdigits) h.length_encode_le
  refine ⟨?_, ?_⟩
  · rw [Item.payload, List.length_append, List.length_append]
    exact Nat.add_le_add hform hdigits
  · by_cases hminimal : Minimal digits
    · rw [← minimal_iff.mp hminimal, (payload h).eq_iff]
      simp [Part.Shortest, hminimal]
    · -- The sign bytes differ, and none of the two parts grows to make up for it.
      refine iff_of_false (fun heq => hminimal ?_) fun hall => hminimal ?_
      · have hlength := congrArg List.length heq
        rw [Item.payload, List.length_append, List.length_append] at hlength
        exact minimal_iff.mpr (List.append_inj heq (by omega)).2.symm
      · exact hall (.integer digits) (by simp)

end Normal

mutual

theorem Parts.normal {bytes : List UInt8} {item : Item} {parts : List Part}
    (h : Parts bytes item parts) : Normal item.layout bytes parts := by
  cases h with
  | null | no | yes => exact .literal _
  | integer hform => exact (Normal.integer hform).cons 0x21
  | byteString hform => exact (Normal.payload hform).cons 0x28
  | buffer hform => exact (Normal.payload hform).cons 0x30
  | array hform h => exact ((Normal.length hform).append h.normal).cons 0x40
  | struct hform h => exact ((Normal.length hform).append h.normal).cons 0x41

theorem PartsOfAll.normal {bytes : List UInt8} {items : List Item} {parts : List Part}
    (h : PartsOfAll bytes items parts) : Normal (layouts items) bytes parts := by
  cases h with
  | nil => exact .literal []
  | cons hitem hitems => exact hitem.normal.append hitems.normal

end

/-! ## Writing what was read -/

variable {limits : Limits}

theorem framed_payload_of_framed {max : Nat} {content bytes : List UInt8}
    (h : Framed max content bytes) : Framed max content (payload content) := by
  obtain ⟨hform, hmax⟩ := h
  exact framed_payload hmax hform.lt_size

mutual

/-- What is stored at all is stored as its layout, and its integers fit. -/
theorem StoredAs.layout {limits : Limits} {bytes : List UInt8} {item : Item}
    (h : StoredAs limits item bytes) :
    StoredAs limits item item.layout ∧ IntegersFit limits item := by
  cases h with
  | null => exact ⟨.null, integersFit_null⟩
  | boolean value => exact ⟨.boolean value, integersFit_boolean value⟩
  | @integer digits bytes h =>
    obtain ⟨hform, hmax⟩ := h
    have hlength := length_integerBytes_decode_le digits
    have hstored : StoredAs limits (.integer _) _ := .integer
      (framed_payload (Nat.le_trans hlength hmax) (Nat.lt_of_le_of_lt hlength hform.lt_size))
    rw [decode_integerBytes] at hstored
    exact ⟨hstored, integersFit_integer.mpr (Nat.le_trans hlength hmax)⟩
  | byteString h => exact ⟨.byteString (framed_payload_of_framed h), integersFit_byteString _⟩
  | buffer h => exact ⟨.buffer (framed_payload_of_framed h), integersFit_buffer _⟩
  | array hform h =>
    obtain ⟨hstored, hfits⟩ := h.layouts
    exact ⟨.array (form_encode hform.lt_size) hstored, integersFit_array.mpr hfits⟩
  | struct hform h =>
    obtain ⟨hstored, hfits⟩ := h.layouts
    exact ⟨.struct (form_encode hform.lt_size) hstored, integersFit_struct.mpr hfits⟩

theorem AllStoredAs.layouts {limits : Limits} {bytes : List UInt8} {items : List Item}
    (h : AllStoredAs limits items bytes) :
    AllStoredAs limits items (layouts items) ∧ AllIntegersFit limits items := by
  cases h with
  | nil => exact ⟨.nil, allIntegersFit_nil⟩
  | cons hitem hitems =>
    obtain ⟨hfirst, hfirstFits⟩ := hitem.layout
    obtain ⟨hothers, hothersFit⟩ := hitems.layouts
    exact ⟨.cons hfirst hothers, allIntegersFit_cons.mpr ⟨hfirstFits, hothersFit⟩⟩

end

/-- A fault that says the output is too long. -/
def TooLarge (limits : Limits) (fault : Fault) : Prop :=
  ∃ size, limits.maxItemSize < size ∧ fault = .itemTooLarge size limits.maxItemSize

theorem measured_eq_error {out : Array UInt8} {fault : Fault}
    (h : measured limits out = .error fault) : TooLarge limits fault := by
  rw [measured] at h
  split at h
  · next hsize =>
    cases h
    exact ⟨_, hsize, rfl⟩
  · cases h

mutual

theorem write_eq_error {limits : Limits} {item : Item} {out : Array UInt8} {fault : Fault}
    (hfits : IntegersFit limits item) (h : item.write limits out = .error fault) :
    TooLarge limits fault := by
  cases item with
  | null | boolean value | byteString bytes | buffer bytes =>
    rw [write] at h
    exact measured_eq_error h
  | integer n =>
    rw [write, if_neg (Nat.not_lt_of_le (integersFit_integer.mp hfits))] at h
    exact measured_eq_error h
  | array items =>
    rw [write, bind_eq_error_iff] at h
    rcases h with hitems | ⟨out, -, hmeasured⟩
    · exact writeAll_eq_error (integersFit_array.mp hfits) hitems
    · exact measured_eq_error hmeasured
  | struct items =>
    rw [write, bind_eq_error_iff] at h
    rcases h with hitems | ⟨out, -, hmeasured⟩
    · exact writeAll_eq_error (integersFit_struct.mp hfits) hitems
    · exact measured_eq_error hmeasured

theorem writeAll_eq_error {limits : Limits} {items : List Item} {out : Array UInt8}
    {fault : Fault} (hfits : AllIntegersFit limits items)
    (h : writeAll limits items out = .error fault) : TooLarge limits fault := by
  cases items with
  | nil => cases h
  | cons item rest =>
    obtain ⟨hitem, hrest⟩ := allIntegersFit_cons.mp hfits
    rw [writeAll, bind_eq_error_iff] at h
    rcases h with hfirst | ⟨out, -, hothers⟩
    · exact write_eq_error hitem hfirst
    · exact writeAll_eq_error hrest hothers

end

theorem encode_eq_error {item : Item} {fault : Fault} (hfits : IntegersFit limits item)
    (h : item.encode limits = .error fault) : TooLarge limits fault := by
  rw [encode, bind_eq_error_iff] at h
  rcases h with hwrite | ⟨out, -, hout⟩
  · exact write_eq_error hfits hwrite
  · cases hout

/-- Bytes that were read are written again or are too long to be; they are written when they
were no longer than an item may be. What is written is no longer, reads back as the same
item, and is the same bytes exactly when these spent no byte in vain. -/
theorem encode_after_decode {bytes : List UInt8} {item : Item}
    (h : decode limits bytes = .ok item) :
    ((∃ written, item.encode limits = .ok written) ∨
        ∃ fault, item.encode limits = .error fault ∧ TooLarge limits fault) ∧
      (bytes.length ≤ limits.maxItemSize → ∃ written, item.encode limits = .ok written) ∧
      ∀ written, item.encode limits = .ok written →
        written.length ≤ bytes.length ∧ decode limits written = .ok item ∧
          (∃ parts, Parts bytes item parts) ∧
            ∀ parts, Parts bytes item parts →
              (written = bytes ↔ ∀ part ∈ parts, part.Shortest) := by
  obtain ⟨hstored, hcount⟩ := decode_eq_ok_iff.mp h
  obtain ⟨hlayout, hfits⟩ := hstored.layout
  obtain ⟨parts, hparts⟩ := hstored.exists_parts
  have hlength := hparts.normal.length_le
  refine ⟨?_, fun hsize => ?_, fun written hwritten => ?_⟩
  · rcases hencode : item.encode limits with fault | written
    · exact .inr ⟨fault, rfl, encode_eq_error hfits hencode⟩
    · exact .inl ⟨written, rfl⟩
  · exact ⟨item.layout, encode_eq_ok_iff.mpr ⟨hfits, Nat.le_trans hlength hsize, rfl⟩⟩
  · obtain ⟨-, -, rfl⟩ := encode_eq_ok_iff.mp hwritten
    exact ⟨hlength, decode_eq_ok_iff.mpr ⟨hlayout, hcount⟩, ⟨parts, hparts⟩,
      fun parts hparts => hparts.normal.eq_iff⟩

/-- A five with a sign byte to spare is written without it. -/
theorem encode_after_decode_spareByte :
    decode {} [0x21, 0x02, 0x05, 0x00] = .ok (.integer 5) ∧
      (integer 5).encode {} = .ok [0x21, 0x01, 0x05] ∧
      decode {} [0x21, 0x01, 0x05] = .ok (.integer 5) ∧
      ¬∀ part ∈ [Part.length 2 [0x02], .integer [0x05, 0x00]], part.Shortest := by
  have hread : decode {} [0x21, 0x02, 0x05, 0x00] = .ok (.integer 5) := rfl
  have hwritten : (integer 5).encode {} = .ok [0x21, 0x01, 0x05] :=
    encode_eq_ok_iff.mpr ⟨integersFit_integer.mpr (show _ ≤ 32 by decide +kernel),
      show _ ≤ 1048576 by decide +kernel, by decide +kernel⟩
  have hform : Form ([0x05, 0x00] : List UInt8).length [0x02] := .byte 0x02 (by decide)
  have hparts : Parts (0x21 :: ([0x02] ++ [0x05, 0x00])) (.integer 5) _ := .integer hform
  obtain ⟨-, -, hwrites⟩ := encode_after_decode hread
  obtain ⟨-, hagain, -, hsame⟩ := hwrites _ hwritten
  refine ⟨hread, hwritten, hagain, fun hall => ?_⟩
  exact absurd ((hsame _ hparts).mpr hall) (by decide)

end Item

end NativeContracts
