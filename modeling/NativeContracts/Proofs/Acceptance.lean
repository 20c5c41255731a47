import NativeContracts.Proofs.Grammar

/-! Which bytes are read back as an item. `Derives` spells the stored form out byte by
byte, and counts the items of a derivation. Reading succeeds on exactly the bytes that have
a derivation within the allowance, and fails on all others: no derivable bytes are the
front of others, so that bytes cut off or followed by more are refused. -/

namespace NativeContracts.Item

open VarInt

/-- The number that little-endian bytes stand for when the high bit of the last byte has
the weight of a sign; zero for no bytes. -/
def signedValue (digits : List UInt8) : Int :=
  LittleEndian.decode digits -
    if 128 ≤ digits.getLastD 0 then (LittleEndian.capacity digits.length : Int) else 0

mutual

/-- `Derives limits bytes item count`: all of `bytes` spell `item` in a derivation of `count`
items. -/
inductive Derives (limits : Limits) : List UInt8 → Item → Nat → Prop where
  | null : Derives limits [0x00] null 1
  | no : Derives limits [0x20, 0x00] (boolean false) 1
  | yes : Derives limits [0x20, 0x01] (boolean true) 1
  | integer {length digits : List UInt8} (hlength : Form digits.length length)
      (hmax : digits.length ≤ limits.maxIntegerSize) :
      Derives limits (0x21 :: (length ++ digits)) (integer (signedValue digits)) 1
  | byteString {length content : List UInt8} (hlength : Form content.length length)
      (hmax : content.length ≤ limits.maxItemSize) :
      Derives limits (0x28 :: (length ++ content)) (byteString content) 1
  | buffer {length content : List UInt8} (hlength : Form content.length length)
      (hmax : content.length ≤ limits.maxItemSize) :
      Derives limits (0x30 :: (length ++ content)) (buffer content) 1
  | array {number bytes : List UInt8} {items : List Item} {count : Nat}
      (hnumber : Form items.length number) (h : DerivesAll limits bytes items count) :
      Derives limits (0x40 :: (number ++ bytes)) (array items) (count + 1)
  | struct {number bytes : List UInt8} {items : List Item} {count : Nat}
      (hnumber : Form items.length number) (h : DerivesAll limits bytes items count) :
      Derives limits (0x41 :: (number ++ bytes)) (struct items) (count + 1)

inductive DerivesAll (limits : Limits) : List UInt8 → List Item → Nat → Prop where
  | nil : DerivesAll limits [] [] 0
  | cons {front bytes : List UInt8} {item : Item} {items : List Item} {first others : Nat}
      (hitem : Derives limits front item first) (hitems : DerivesAll limits bytes items others) :
      DerivesAll limits (front ++ bytes) (item :: items) (first + others)

end

/-! ## The two grammars agree -/

theorem decode_eq_signedValue (digits : List UInt8) :
    TwosComplement.decode digits = signedValue digits := by
  induction digits with
  | nil => rfl
  | cons byte rest ih =>
    rcases rest with _ | ⟨next, rest⟩
    · have hlow : byte < 128 ↔ ¬128 ≤ byte := by simp
      simp only [TwosComplement.decode, TwosComplement.signedByte, hlow, signedValue,
        LittleEndian.decode_cons, LittleEndian.decode_nil, List.getLastD_cons, List.getLastD_nil]
      by_cases hhigh : 128 ≤ byte
      · simp [hhigh, LittleEndian.capacity]
      · simp [hhigh]
    · rw [TwosComplement.decode_cons byte (List.cons_ne_nil next rest), ih, signedValue,
        signedValue]
      -- A byte in front shifts the value and the weight of the sign alike.
      have hcapacity : LittleEndian.capacity (byte :: next :: rest).length =
          256 * LittleEndian.capacity (next :: rest).length := rfl
      rw [hcapacity, LittleEndian.decode_cons byte]
      simp only [List.getLastD_cons]
      split <;> omega

variable {limits : Limits} {bytes front back : List UInt8} {item : Item} {items : List Item}
  {count : Nat}

mutual

theorem Derives.storedAs {limits : Limits} {bytes : List UInt8} {item : Item} {count : Nat}
    (h : Derives limits bytes item count) :
    StoredAs limits item bytes ∧ item.nodeCount = count := by
  cases h with
  | null => exact ⟨.null, rfl⟩
  | no => exact ⟨.boolean false, rfl⟩
  | yes => exact ⟨.boolean true, rfl⟩
  | integer hlength hmax =>
    rw [← decode_eq_signedValue]
    exact ⟨.integer (.mk hlength hmax), rfl⟩
  | byteString hlength hmax => exact ⟨.byteString (.mk hlength hmax), rfl⟩
  | buffer hlength hmax => exact ⟨.buffer (.mk hlength hmax), rfl⟩
  | array hnumber h =>
    obtain ⟨hitems, hcount⟩ := h.allStoredAs
    exact ⟨.array hnumber hitems, by rw [nodeCount, hcount]⟩
  | struct hnumber h =>
    obtain ⟨hitems, hcount⟩ := h.allStoredAs
    exact ⟨.struct hnumber hitems, by rw [nodeCount, hcount]⟩

theorem DerivesAll.allStoredAs {limits : Limits} {bytes : List UInt8} {items : List Item}
    {count : Nat} (h : DerivesAll limits bytes items count) :
    AllStoredAs limits items bytes ∧ nodeCounts items = count := by
  cases h with
  | nil => exact ⟨.nil, rfl⟩
  | cons hitem hitems =>
    obtain ⟨hstored, hfirst⟩ := hitem.storedAs
    obtain ⟨hall, hothers⟩ := hitems.allStoredAs
    exact ⟨.cons hstored hall, by rw [nodeCounts, hfirst, hothers]⟩

end

mutual

theorem StoredAs.derives {limits : Limits} {bytes : List UInt8} {item : Item}
    (h : StoredAs limits item bytes) : Derives limits bytes item item.nodeCount := by
  cases h with
  | null => exact .null
  | boolean value =>
    cases value with
    | false => exact .no
    | true => exact .yes
  | integer h =>
    obtain ⟨hlength, hmax⟩ := h
    rw [decode_eq_signedValue]
    exact .integer hlength hmax
  | byteString h =>
    obtain ⟨hlength, hmax⟩ := h
    exact .byteString hlength hmax
  | buffer h =>
    obtain ⟨hlength, hmax⟩ := h
    exact .buffer hlength hmax
  | array hnumber h => exact .array hnumber h.derivesAll
  | struct hnumber h => exact .struct hnumber h.derivesAll

theorem AllStoredAs.derivesAll {limits : Limits} {bytes : List UInt8} {items : List Item}
    (h : AllStoredAs limits items bytes) :
    DerivesAll limits bytes items (nodeCounts items) := by
  cases h with
  | nil => exact .nil
  | cons hitem hitems => exact .cons hitem.derives hitems.derivesAll

end

/-! ## What is read and what is refused -/

theorem exists_derives_iff {most : Nat} :
    (∃ count, Derives limits bytes item count ∧ count ≤ most) ↔
      StoredAs limits item bytes ∧ item.nodeCount ≤ most := by
  constructor
  · intro h
    obtain ⟨count, hderives, hcount⟩ := h
    obtain ⟨hstored, rfl⟩ := hderives.storedAs
    exact ⟨hstored, hcount⟩
  · intro h
    exact ⟨item.nodeCount, h.1.derives, h.2⟩

theorem decode_error_iff :
    (∃ fault, decode limits bytes = .error fault) ↔
      ∀ item count, Derives limits bytes item count → limits.maxStackSize < count := by
  constructor
  · intro h item count hderives
    obtain ⟨fault, hfault⟩ := h
    obtain ⟨hstored, rfl⟩ := hderives.storedAs
    refine Nat.lt_of_not_le fun hcount => ?_
    rw [decode_eq_ok_iff.mpr ⟨hstored, hcount⟩] at hfault
    cases hfault
  · intro h
    rcases hdecode : decode limits bytes with fault | item
    · exact ⟨fault, rfl⟩
    · obtain ⟨hstored, hcount⟩ := decode_eq_ok_iff.mp hdecode
      exact absurd hcount (Nat.not_le_of_lt (h item _ hstored.derives))

/-- Bytes that begin like derivable bytes and go on differently are not derivable. -/
theorem not_derives_of_append {other : Limits} {found : Item} {first : Nat}
    (h : Derives limits front item count) (hback : back ≠ []) :
    ¬Derives other (front ++ back) found first := by
  intro hother
  have hwhole : front ++ back = (front ++ back) ++ [] := by simp
  exact hback (h.storedAs.1.unique_append hother.storedAs.1 hwhole).2.symm

/-- Reading gives an item for exactly the bytes that derive it within the allowance. All
others are refused, and among them those that stop short of a derivation or go past it. -/
theorem decode_exact (limits : Limits) (bytes : List UInt8) :
    (∀ item, decode limits bytes = .ok item ↔
      ∃ count, Derives limits bytes item count ∧ count ≤ limits.maxStackSize) ∧
    ((∃ fault, decode limits bytes = .error fault) ↔
      ∀ item count, Derives limits bytes item count → limits.maxStackSize < count) ∧
    ∀ item count, Derives limits bytes item count →
      (∀ front back, front ++ back = bytes → back ≠ [] →
        ∃ fault, decode limits front = .error fault) ∧
      ∀ tail, tail ≠ [] → ∃ fault, decode limits (bytes ++ tail) = .error fault := by
  refine ⟨fun item => ?_, decode_error_iff, fun item count h => ⟨?_, ?_⟩⟩
  · rw [decode_eq_ok_iff, exists_derives_iff]
  · rintro front back rfl hback
    refine decode_error_iff.mpr fun found first hfound => ?_
    exact absurd h (not_derives_of_append hfound hback)
  · intro tail htail
    refine decode_error_iff.mpr fun found first hfound => ?_
    exact absurd hfound (not_derives_of_append h htail)

/-- A struct of one five, whose number, length and sign bytes are all longer than they need
to be. -/
def paddedFive : List UInt8 :=
  [0x41, 0xFD, 0x01, 0x00, 0x21, 0xFE, 0x02, 0x00, 0x00, 0x00, 0x05, 0x00]

theorem derives_paddedFive : Derives {} paddedFive (.struct [.integer 5]) 2 := by
  have hnumber : Form [integer 5].length [0xFD, 0x01, 0x00] := .two [0x01, 0x00] rfl
  have hlength : Form ([0x05, 0x00] : List UInt8).length [0xFE, 0x02, 0x00, 0x00, 0x00] :=
    .four [0x02, 0x00, 0x00, 0x00] rfl
  have hfive : Derives {} (0x21 :: ([0xFE, 0x02, 0x00, 0x00, 0x00] ++ [0x05, 0x00]))
      (integer 5) 1 := .integer hlength (show 2 ≤ 32 by decide)
  exact .struct hnumber (.cons hfive .nil)

theorem decode_exact_paddedFive :
    decode {} paddedFive = .ok (.struct [.integer 5]) ∧
      (∃ fault, decode {} (paddedFive.take 11) = .error fault) ∧
      ∃ fault, decode {} (paddedFive ++ [0x00]) = .error fault := by
  obtain ⟨haccepts, -, hrefuses⟩ := decode_exact {} paddedFive
  obtain ⟨hcut, htail⟩ := hrefuses _ _ derives_paddedFive
  exact ⟨(haccepts _).mpr ⟨2, derives_paddedFive, show 2 ≤ 2048 by decide⟩,
    hcut (paddedFive.take 11) [0x00] rfl (by decide), htail [0x00] (by decide)⟩

end NativeContracts.Item
