import NativeContracts.Item.Decode
import NativeContracts.Proofs.Lengths

/-! The grammar of stored items. `StoredAs` derives the byte strings that store an item
under limits: lengths may take any of their forms, and integers any sign bytes that fit.
Reading accepts what the grammar derives, as far as the allowance goes, and nothing else,
so that bytes store one item at most. -/

namespace NativeContracts.Item

open VarInt

/-- Bytes with one of the forms of their length, at most `max`, in front. -/
inductive Framed (max : Nat) : List UInt8 → List UInt8 → Prop where
  | mk {content form : List UInt8} (hform : Form content.length form)
      (hmax : content.length ≤ max) : Framed max content (form ++ content)

mutual

inductive StoredAs (limits : Limits) : Item → List UInt8 → Prop where
  | null : StoredAs limits null [Kind.any.marker]
  | boolean (value : Bool) :
      StoredAs limits (boolean value) [Kind.boolean.marker, if value then 1 else 0]
  | integer {digits bytes : List UInt8} (h : Framed limits.maxIntegerSize digits bytes) :
      StoredAs limits (integer (TwosComplement.decode digits)) (Kind.integer.marker :: bytes)
  | byteString {content bytes : List UInt8} (h : Framed limits.maxItemSize content bytes) :
      StoredAs limits (byteString content) (Kind.byteString.marker :: bytes)
  | buffer {content bytes : List UInt8} (h : Framed limits.maxItemSize content bytes) :
      StoredAs limits (buffer content) (Kind.buffer.marker :: bytes)
  | array {items : List Item} {form bytes : List UInt8} (hform : Form items.length form)
      (h : AllStoredAs limits items bytes) :
      StoredAs limits (array items) (Kind.array.marker :: (form ++ bytes))
  | struct {items : List Item} {form bytes : List UInt8} (hform : Form items.length form)
      (h : AllStoredAs limits items bytes) :
      StoredAs limits (struct items) (Kind.struct.marker :: (form ++ bytes))

inductive AllStoredAs (limits : Limits) : List Item → List UInt8 → Prop where
  | nil : AllStoredAs limits [] []
  | cons {item : Item} {items : List Item} {front bytes : List UInt8}
      (hitem : StoredAs limits item front) (hitems : AllStoredAs limits items bytes) :
      AllStoredAs limits (item :: items) (front ++ bytes)

end

theorem length_le_nodeCounts (items : List Item) : items.length ≤ nodeCounts items := by
  induction items with
  | nil => simp [nodeCounts]
  | cons item items ih =>
    have hitem := nodeCount_eq item
    simp only [List.length_cons, nodeCounts]
    omega

/-! ## Reading, marker by marker -/

variable {limits : Limits} {depth allowance max left count : Nat} {item : Item}
  {items done : List Item} {bytes content form rest : List UInt8}

theorem readBytes_framed_iff :
    readBytes max bytes = .ok (content, rest) ↔
      ∃ framed, Framed max content framed ∧ bytes = framed ++ rest := by
  rw [readBytes_eq_ok_iff]
  constructor
  · intro h
    obtain ⟨form, hform, hmax, rfl⟩ := h
    exact ⟨form ++ content, .mk hform hmax, (List.append_assoc _ _ _).symm⟩
  · intro h
    obtain ⟨_, ⟨hform, hmax⟩, rfl⟩ := h
    exact ⟨_, hform, hmax, List.append_assoc _ _ _⟩

theorem read_any : read limits (depth + 1) (allowance + 1) (Kind.any.marker :: bytes) =
    .ok (null, allowance, bytes) := rfl

theorem read_boolean (byte : UInt8) :
    read limits (depth + 1) (allowance + 1) (Kind.boolean.marker :: byte :: bytes) =
      if byte = 0 then .ok (boolean false, allowance, bytes)
      else if byte = 1 then .ok (boolean true, allowance, bytes)
      else .error (.encoding (.notBoolean byte)) := rfl

theorem read_integer : read limits (depth + 1) (allowance + 1) (Kind.integer.marker :: bytes) =
    readBytes limits.maxIntegerSize bytes >>= fun found =>
      .ok (integer (TwosComplement.decode found.1), allowance, found.2) := rfl

theorem read_byteString :
    read limits (depth + 1) (allowance + 1) (Kind.byteString.marker :: bytes) =
      readBytes limits.maxItemSize bytes >>= fun found =>
        .ok (byteString found.1, allowance, found.2) := rfl

theorem read_buffer : read limits (depth + 1) (allowance + 1) (Kind.buffer.marker :: bytes) =
    readBytes limits.maxItemSize bytes >>= fun found =>
      .ok (buffer found.1, allowance, found.2) := rfl

/-- Reads a number of items and the items. -/
def readItems (limits : Limits) (depth allowance : Nat) (bytes : List UInt8) :
    Except Fault (List Item × Nat × List UInt8) :=
  VarInt.read allowance bytes >>= fun found =>
    readMany (read limits depth) found.1 [] allowance found.2

theorem read_array : read limits (depth + 1) (allowance + 1) (Kind.array.marker :: bytes) =
    readItems limits depth allowance bytes >>= fun found =>
      .ok (array found.1, found.2.1, found.2.2) := by
  rw [readItems, bind_assoc]
  rfl

theorem read_struct : read limits (depth + 1) (allowance + 1) (Kind.struct.marker :: bytes) =
    readItems limits depth allowance bytes >>= fun found =>
      .ok (struct found.1, found.2.1, found.2.2) := by
  rw [readItems, bind_assoc]
  rfl

/-! ## What is read is derived -/

/-- `count` items read behind those in `done` are stored one after another. -/
theorem readMany_eq_ok {one : Nat → List UInt8 → Except Fault (Item × Nat × List UInt8)}
    (hone : ∀ allowance bytes item left rest, allowance ≤ depth →
      one allowance bytes = .ok (item, left, rest) →
        ∃ form, StoredAs limits item form ∧ left + item.nodeCount = allowance ∧
          bytes = form ++ rest) (hdepth : allowance ≤ depth)
    (h : readMany one count done allowance bytes = .ok (items, left, rest)) :
    ∃ found form, items = done.reverse ++ found ∧ found.length = count ∧
      AllStoredAs limits found form ∧ left + nodeCounts found = allowance ∧
        bytes = form ++ rest := by
  induction count generalizing done allowance bytes with
  | zero =>
    cases h
    exact ⟨[], [], by simp, rfl, .nil, rfl, rfl⟩
  | succ count ih =>
    obtain ⟨⟨item, after, behind⟩, hread, hmany⟩ := bind_eq_ok_iff.mp h
    obtain ⟨front, hitem, hafter, rfl⟩ := hone _ _ _ _ _ hdepth hread
    obtain ⟨found, form, rfl, hlength, hitems, hleft, rfl⟩ := ih (by omega) hmany
    refine ⟨item :: found, front ++ form, by simp, ?_, .cons hitem hitems, ?_, by simp⟩
    · rw [List.length_cons, hlength]
    · rw [nodeCounts]
      omega

theorem readItems_eq_ok (hread : ∀ allowance bytes item left rest, allowance ≤ depth →
      read limits depth allowance bytes = .ok (item, left, rest) →
        ∃ form, StoredAs limits item form ∧ left + item.nodeCount = allowance ∧
          bytes = form ++ rest) (hdepth : allowance ≤ depth)
    (h : readItems limits depth allowance bytes = .ok (items, left, rest)) :
    ∃ form tail, Form items.length form ∧ AllStoredAs limits items tail ∧
      left + nodeCounts items = allowance ∧ bytes = form ++ tail ++ rest := by
  obtain ⟨⟨count, behind⟩, hcount, hmany⟩ := bind_eq_ok_iff.mp h
  obtain ⟨form, hform, -, rfl⟩ := VarInt.read_eq_ok_iff.mp hcount
  obtain ⟨found, tail, rfl, rfl, hitems, hleft, rfl⟩ := readMany_eq_ok hread hdepth hmany
  exact ⟨form, tail, hform, hitems, hleft, by simp⟩

theorem storedAs_of_read (hdepth : allowance ≤ depth)
    (h : read limits depth allowance bytes = .ok (item, left, rest)) :
    ∃ form, StoredAs limits item form ∧ left + item.nodeCount = allowance ∧
      bytes = form ++ rest := by
  induction depth generalizing allowance bytes item left rest with
  | zero => cases h
  | succ depth ih =>
    rcases allowance with _ | allowance
    · cases h
    rcases bytes with _ | ⟨marker, bytes⟩
    · cases h
    have hdepth : allowance ≤ depth := by omega
    have hread := fun allowance bytes item left rest => @ih allowance left item bytes rest
    rcases hkind : Kind.ofMarker? marker with _ | kind
    · simp only [read, readByte, bind, Except.bind, hkind] at h
      cases h
    obtain rfl := Kind.ofMarker?_eq_some_iff.mp hkind
    cases kind with
    | any =>
      cases read_any.symm.trans h
      exact ⟨_, .null, rfl, rfl⟩
    | boolean =>
      rcases bytes with _ | ⟨byte, bytes⟩
      · cases h
      rw [read_boolean] at h
      split at h
      · next hbyte =>
        cases h
        exact ⟨_, .boolean false, rfl, by simp [hbyte]⟩
      · split at h
        · next hbyte =>
          cases h
          exact ⟨_, .boolean true, rfl, by simp [hbyte]⟩
        · cases h
    | integer =>
      rw [read_integer] at h
      obtain ⟨⟨digits, behind⟩, hdigits, hresult⟩ := bind_eq_ok_iff.mp h
      obtain ⟨framed, hframed, rfl⟩ := readBytes_framed_iff.mp hdigits
      cases hresult
      exact ⟨_, .integer hframed, rfl, rfl⟩
    | byteString =>
      rw [read_byteString] at h
      obtain ⟨⟨content, behind⟩, hcontent, hresult⟩ := bind_eq_ok_iff.mp h
      obtain ⟨framed, hframed, rfl⟩ := readBytes_framed_iff.mp hcontent
      cases hresult
      exact ⟨_, .byteString hframed, rfl, rfl⟩
    | buffer =>
      rw [read_buffer] at h
      obtain ⟨⟨content, behind⟩, hcontent, hresult⟩ := bind_eq_ok_iff.mp h
      obtain ⟨framed, hframed, rfl⟩ := readBytes_framed_iff.mp hcontent
      cases hresult
      exact ⟨_, .buffer hframed, rfl, rfl⟩
    | array =>
      rw [read_array] at h
      obtain ⟨⟨items, after, behind⟩, hitems, hresult⟩ := bind_eq_ok_iff.mp h
      obtain ⟨form, tail, hform, hall, hleft, rfl⟩ := readItems_eq_ok hread hdepth hitems
      cases hresult
      exact ⟨_, .array hform hall, by simp only [nodeCount]; omega, rfl⟩
    | struct =>
      rw [read_struct] at h
      obtain ⟨⟨items, after, behind⟩, hitems, hresult⟩ := bind_eq_ok_iff.mp h
      obtain ⟨form, tail, hform, hall, hleft, rfl⟩ := readItems_eq_ok hread hdepth hitems
      cases hresult
      exact ⟨_, .struct hform hall, by simp only [nodeCount]; omega, rfl⟩

/-! ## What is derived is read -/

theorem readItems_of_readMany (hform : Form items.length form) (hcount : items.length ≤ allowance)
    (h : readMany (read limits depth) items.length [] allowance bytes = .ok (items, left, rest)) :
    readItems limits depth allowance (form ++ bytes) = .ok (items, left, rest) :=
  bind_eq_ok_iff.mpr
    ⟨(items.length, bytes), VarInt.read_eq_ok_iff.mpr ⟨form, hform, hcount, rfl⟩, h⟩

mutual

theorem read_of_storedAs {limits : Limits} {item : Item} {form : List UInt8} {depth allowance : Nat}
    (h : StoredAs limits item form) (hdepth : allowance ≤ depth)
    (hallowance : item.nodeCount ≤ allowance) (rest : List UInt8) :
    read limits depth allowance (form ++ rest) =
      .ok (item, allowance - item.nodeCount, rest) := by
  have hpositive := nodeCount_eq item
  obtain ⟨allowance, rfl⟩ := Nat.exists_eq_add_of_le' (show 1 ≤ allowance by omega)
  obtain ⟨depth, rfl⟩ := Nat.exists_eq_add_of_le' (show 1 ≤ depth by omega)
  cases h with
  | null => rfl
  | boolean value => cases value <;> rfl
  | integer h =>
    rw [List.cons_append, read_integer, readBytes_framed_iff.mpr ⟨_, h, rfl⟩]
    rfl
  | byteString h =>
    rw [List.cons_append, read_byteString, readBytes_framed_iff.mpr ⟨_, h, rfl⟩]
    rfl
  | buffer h =>
    rw [List.cons_append, read_buffer, readBytes_framed_iff.mpr ⟨_, h, rfl⟩]
    rfl
  | @array items _ _ hform h =>
    have hcount := length_le_nodeCounts items
    rw [nodeCount] at hallowance ⊢
    have hmany := readMany_of_allStoredAs h (show allowance ≤ depth by omega) (by omega) [] rest
    rw [List.cons_append, List.append_assoc, read_array,
      readItems_of_readMany hform (by omega) hmany, Nat.add_sub_add_right]
    rfl
  | @struct items _ _ hform h =>
    have hcount := length_le_nodeCounts items
    rw [nodeCount] at hallowance ⊢
    have hmany := readMany_of_allStoredAs h (show allowance ≤ depth by omega) (by omega) [] rest
    rw [List.cons_append, List.append_assoc, read_struct,
      readItems_of_readMany hform (by omega) hmany, Nat.add_sub_add_right]
    rfl

theorem readMany_of_allStoredAs {limits : Limits} {items : List Item} {form : List UInt8}
    {depth allowance : Nat} (h : AllStoredAs limits items form) (hdepth : allowance ≤ depth)
    (hallowance : nodeCounts items ≤ allowance) (done : List Item) (rest : List UInt8) :
    readMany (read limits depth) items.length done allowance (form ++ rest) =
      .ok (done.reverse ++ items, allowance - nodeCounts items, rest) := by
  cases h with
  | nil => simp [readMany, nodeCounts]
  | @cons item items front bytes hitem hitems =>
    rw [nodeCounts] at hallowance
    have hread := read_of_storedAs hitem hdepth (by omega) (bytes ++ rest)
    have hmany := readMany_of_allStoredAs hitems
      (show allowance - item.nodeCount ≤ depth by omega) (by omega) (item :: done) rest
    rw [List.reverse_cons, List.append_assoc] at hmany
    rw [List.append_assoc, List.length_cons, readMany, hread, nodeCounts, Nat.sub_add_eq]
    exact hmany

end

theorem read_eq_ok_iff (hdepth : allowance ≤ depth) :
    read limits depth allowance bytes = .ok (item, left, rest) ↔
      ∃ form, StoredAs limits item form ∧ left + item.nodeCount = allowance ∧
        bytes = form ++ rest := by
  constructor
  · exact storedAs_of_read hdepth
  · intro h
    obtain ⟨form, hform, rfl, rfl⟩ := h
    rw [read_of_storedAs hform hdepth (by omega), Nat.add_sub_cancel]

theorem decode_eq_ok_iff :
    decode limits bytes = .ok item ↔
      StoredAs limits item bytes ∧ item.nodeCount ≤ limits.maxStackSize := by
  rw [decode, bind_eq_ok_iff]
  constructor
  · intro h
    obtain ⟨⟨found, left, rest⟩, hread, hfound⟩ := h
    obtain ⟨form, hform, hleft, rfl⟩ := (read_eq_ok_iff (Nat.le_refl _)).mp hread
    rcases rest with _ | ⟨byte, rest⟩
    · cases hfound
      rw [List.append_nil]
      exact ⟨hform, by omega⟩
    · cases hfound
  · intro h
    obtain ⟨hform, hcount⟩ := h
    refine ⟨(item, limits.maxStackSize - item.nodeCount, []), ?_, rfl⟩
    refine (read_eq_ok_iff (Nat.le_refl _)).mpr ⟨bytes, hform, Nat.sub_add_cancel hcount, ?_⟩
    exact (List.append_nil bytes).symm

/-! ## One item for given bytes -/

theorem Framed.mono {wide : Nat} (h : Framed max content bytes) (hmax : max ≤ wide) :
    Framed wide content bytes := by
  obtain ⟨hform, hcontent⟩ := h
  exact .mk hform (Nat.le_trans hcontent hmax)

mutual

theorem storedAs_mono {limits wider : Limits} {item : Item} {bytes : List UInt8}
    (hinteger : limits.maxIntegerSize ≤ wider.maxIntegerSize)
    (hsize : limits.maxItemSize ≤ wider.maxItemSize) (h : StoredAs limits item bytes) :
    StoredAs wider item bytes := by
  cases h with
  | null => exact .null
  | boolean value => exact .boolean value
  | integer h => exact .integer (h.mono hinteger)
  | byteString h => exact .byteString (h.mono hsize)
  | buffer h => exact .buffer (h.mono hsize)
  | array hform h => exact .array hform (allStoredAs_mono hinteger hsize h)
  | struct hform h => exact .struct hform (allStoredAs_mono hinteger hsize h)

theorem allStoredAs_mono {limits wider : Limits} {items : List Item} {bytes : List UInt8}
    (hinteger : limits.maxIntegerSize ≤ wider.maxIntegerSize)
    (hsize : limits.maxItemSize ≤ wider.maxItemSize) (h : AllStoredAs limits items bytes) :
    AllStoredAs wider items bytes := by
  cases h with
  | nil => exact .nil
  | cons hitem hitems =>
    exact .cons (storedAs_mono hinteger hsize hitem) (allStoredAs_mono hinteger hsize hitems)

end

/-- Two items stored at the front of the same bytes, under whatever limits, are one item, and
take the same front. -/
theorem StoredAs.unique_append {other : Limits} {found : Item} {front back : List UInt8}
    (h : StoredAs limits item front) (hother : StoredAs other found form)
    (heq : front ++ back = form ++ rest) : found = item ∧ rest = back := by
  -- Limits that allow both derivations, and allowance for both items.
  let wide : Limits := {
    maxItemSize := limits.maxItemSize + other.maxItemSize
    maxIntegerSize := limits.maxIntegerSize + other.maxIntegerSize }
  let most := item.nodeCount + found.nodeCount
  have hitem : StoredAs wide item front :=
    storedAs_mono (Nat.le_add_right _ _) (Nat.le_add_right _ _) h
  have hfound : StoredAs wide found form :=
    storedAs_mono (Nat.le_add_left _ _) (Nat.le_add_left _ _) hother
  have hread := read_of_storedAs hitem (Nat.le_refl most) (Nat.le_add_right _ _) back
  have hreadOther := read_of_storedAs hfound (Nat.le_refl most) (Nat.le_add_left _ _) rest
  rw [heq, hreadOther, Except.ok.injEq, Prod.mk.injEq, Prod.mk.injEq] at hread
  exact ⟨hread.1, hread.2.2⟩

/-- Bytes store one item at most, under whatever limits. -/
theorem StoredAs.unique {other : Limits} {found : Item} (h : StoredAs limits item bytes)
    (hother : StoredAs other found bytes) : found = item :=
  (h.unique_append hother (rfl : bytes ++ [] = bytes ++ [])).1

end NativeContracts.Item
