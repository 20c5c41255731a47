import NativeContracts.Item.Encode
import NativeContracts.Proofs.Grammar

/-! What the stored form of an item keeps. An item has a stored form under limits when
all its integers fit and its layout does; the form is the layout then, and reading it
under the same limits gives the item back, unless it has more nodes than may be alive. -/

namespace NativeContracts.Item

open VarInt

mutual

/-- The item and all items inside it, at any depth. -/
def nodes : Item → List Item
  | array items => array items :: nodesOf items
  | struct items => struct items :: nodesOf items
  | item => [item]

def nodesOf : List Item → List Item
  | [] => []
  | item :: rest => nodes item ++ nodesOf rest

end

/-- The sign bytes of every integer inside stay within the limit. -/
def IntegersFit (limits : Limits) (item : Item) : Prop :=
  ∀ n, integer n ∈ item.nodes → (integerBytes n).length ≤ limits.maxIntegerSize

def AllIntegersFit (limits : Limits) (items : List Item) : Prop :=
  ∀ n, integer n ∈ nodesOf items → (integerBytes n).length ≤ limits.maxIntegerSize

variable {limits : Limits} {item : Item} {items : List Item} {n : Int} {out after : Array UInt8}

@[simp] theorem integersFit_null : IntegersFit limits null := by simp [IntegersFit, nodes]

@[simp] theorem integersFit_boolean (value : Bool) : IntegersFit limits (boolean value) := by
  simp [IntegersFit, nodes]

@[simp] theorem integersFit_byteString (bytes : List UInt8) :
    IntegersFit limits (byteString bytes) := by
  simp [IntegersFit, nodes]

@[simp] theorem integersFit_buffer (bytes : List UInt8) : IntegersFit limits (buffer bytes) := by
  simp [IntegersFit, nodes]

@[simp] theorem integersFit_integer :
    IntegersFit limits (integer n) ↔ (integerBytes n).length ≤ limits.maxIntegerSize := by
  simp [IntegersFit, nodes]

@[simp] theorem integersFit_array :
    IntegersFit limits (array items) ↔ AllIntegersFit limits items := by
  simp [IntegersFit, AllIntegersFit, nodes]

@[simp] theorem integersFit_struct :
    IntegersFit limits (struct items) ↔ AllIntegersFit limits items := by
  simp [IntegersFit, AllIntegersFit, nodes]

@[simp] theorem allIntegersFit_nil : AllIntegersFit limits [] := by
  simp [AllIntegersFit, nodesOf]

@[simp] theorem allIntegersFit_cons :
    AllIntegersFit limits (item :: items) ↔
      IntegersFit limits item ∧ AllIntegersFit limits items := by
  simp only [AllIntegersFit, IntegersFit, nodesOf, List.mem_append]
  exact ⟨fun h => ⟨fun n hn => h n (.inl hn), fun n hn => h n (.inr hn)⟩,
    fun h n hn => hn.elim (h.1 n) (h.2 n)⟩

/-! ## Writing -/

theorem measured_eq_ok_iff :
    measured limits out = .ok after ↔
      after.size ≤ limits.maxItemSize ∧ after.toList = out.toList := by
  rw [Array.toList_inj, measured]
  constructor
  · intro h
    split at h
    · cases h
    · next hsize =>
      cases h
      exact ⟨Nat.le_of_not_lt hsize, rfl⟩
  · intro h
    obtain ⟨hsize, rfl⟩ := h
    exact if_neg (Nat.not_lt_of_le hsize)

mutual

theorem write_eq_ok_iff (limits : Limits) (item : Item) (out after : Array UInt8) :
    item.write limits out = .ok after ↔
      IntegersFit limits item ∧ after.size ≤ limits.maxItemSize ∧
        after.toList = out.toList ++ item.layout := by
  cases item with
  | null | boolean value | byteString bytes | buffer bytes =>
    rw [write, measured_eq_ok_iff]
    simp [layout]
  | integer n =>
    rw [write, integersFit_integer]
    split
    · next hwide => simp [Nat.not_le_of_lt hwide]
    · next hfits =>
      rw [measured_eq_ok_iff]
      simp [layout, Nat.le_of_not_lt hfits]
  | array items | struct items =>
    simp only [write, bind_eq_ok_iff, writeAll_eq_ok_iff, measured_eq_ok_iff, integersFit_array,
      integersFit_struct, layout, Array.toList_inj]
    constructor
    · intro h
      obtain ⟨_, ⟨hfits, -, hwritten⟩, hsize, rfl⟩ := h
      refine ⟨hfits, hsize, ?_⟩
      simpa using hwritten
    · intro h
      obtain ⟨hfits, hsize, hwritten⟩ := h
      refine ⟨after, ⟨hfits, .inr hsize, ?_⟩, hsize, rfl⟩
      simpa using hwritten

theorem writeAll_eq_ok_iff (limits : Limits) (items : List Item) (out after : Array UInt8) :
    writeAll limits items out = .ok after ↔
      AllIntegersFit limits items ∧ (items = [] ∨ after.size ≤ limits.maxItemSize) ∧
        after.toList = out.toList ++ layouts items := by
  cases items with
  | nil => simp [writeAll, layouts, eq_comm]
  | cons item rest =>
    simp only [writeAll, bind_eq_ok_iff, write_eq_ok_iff limits item,
      writeAll_eq_ok_iff limits rest, allIntegersFit_cons, layouts]
    constructor
    · intro h
      obtain ⟨middle, ⟨hitem, hmiddle, hout⟩, hrest, hsize, hafter⟩ := h
      refine ⟨⟨hitem, hrest⟩, .inr ?_, by rw [hafter, hout, List.append_assoc]⟩
      rcases hsize with rfl | hsize
      · rw [layouts, List.append_nil, Array.toList_inj] at hafter
        rwa [hafter]
      · exact hsize
    · intro h
      obtain ⟨⟨hitem, hrest⟩, hsize, hafter⟩ := h
      replace hsize := hsize.resolve_left (List.cons_ne_nil _ _)
      have hlength := congrArg List.length hafter
      simp only [List.length_append, Array.length_toList] at hlength
      -- What stands after the first item is a part of the whole, so it is short enough too.
      refine ⟨(out.toList ++ item.layout).toArray, ⟨hitem, ?_, rfl⟩, hrest, .inr hsize, ?_⟩
      · simp only [List.size_toArray, List.length_append, Array.length_toList]
        omega
      · rw [hafter, List.append_assoc]

end

theorem encode_eq_ok_iff {bytes : List UInt8} :
    item.encode limits = .ok bytes ↔
      IntegersFit limits item ∧ item.layout.length ≤ limits.maxItemSize ∧
        bytes = item.layout := by
  rw [encode, bind_eq_ok_iff]
  constructor
  · intro h
    obtain ⟨out, hwrite, h⟩ := h
    cases h
    obtain ⟨hfits, hsize, hout⟩ := (write_eq_ok_iff limits item _ _).mp hwrite
    rw [← Array.length_toList, hout] at hsize
    exact ⟨hfits, hsize, hout⟩
  · intro h
    obtain ⟨hfits, hsize, rfl⟩ := h
    exact ⟨item.layout.toArray, (write_eq_ok_iff limits item _ _).mpr ⟨hfits, hsize, rfl⟩, rfl⟩

/-! ## Reading what was written -/

theorem layout_ne_nil (item : Item) : item.layout ≠ [] := by
  cases item <;> simp [layout]

theorem length_le_layouts (items : List Item) : items.length ≤ (layouts items).length := by
  induction items with
  | nil => simp
  | cons item items ih =>
    have hitem := List.length_pos_iff.mpr item.layout_ne_nil
    rw [layouts, List.length_append, List.length_cons]
    omega

theorem framed_payload {max : Nat} {content : List UInt8} (hmax : content.length ≤ max)
    (hword : content.length < UInt64.size) : Framed max content (payload content) :=
  .mk (form_encode hword) hmax

mutual

/-- The layout is one of the forms that the grammar derives. -/
theorem storedAs_layout {limits : Limits} (hword : limits.maxItemSize < UInt64.size) (item : Item)
    (hfits : IntegersFit limits item) (hsize : item.layout.length ≤ limits.maxItemSize) :
    StoredAs limits item item.layout := by
  cases item with
  | null => exact .null
  | boolean value => exact .boolean value
  | integer n =>
    rw [layout, payload] at hsize
    simp only [List.length_cons, List.length_append] at hsize
    have hstored := StoredAs.integer (framed_payload (integersFit_integer.mp hfits) (by omega))
    rwa [decode_integerBytes] at hstored
  | byteString bytes =>
    rw [layout, payload] at hsize
    simp only [List.length_cons, List.length_append] at hsize
    exact .byteString (framed_payload (by omega) (by omega))
  | buffer bytes =>
    rw [layout, payload] at hsize
    simp only [List.length_cons, List.length_append] at hsize
    exact .buffer (framed_payload (by omega) (by omega))
  | array items =>
    rw [layout] at hsize
    simp only [List.length_cons, List.length_append] at hsize
    have hcount := length_le_layouts items
    exact .array (form_encode (by omega))
      (allStoredAs_layouts hword items (integersFit_array.mp hfits) (by omega))
  | struct items =>
    rw [layout] at hsize
    simp only [List.length_cons, List.length_append] at hsize
    have hcount := length_le_layouts items
    exact .struct (form_encode (by omega))
      (allStoredAs_layouts hword items (integersFit_struct.mp hfits) (by omega))

theorem allStoredAs_layouts {limits : Limits} (hword : limits.maxItemSize < UInt64.size)
    (items : List Item) (hfits : AllIntegersFit limits items)
    (hsize : (layouts items).length ≤ limits.maxItemSize) :
    AllStoredAs limits items (layouts items) := by
  cases items with
  | nil => exact .nil
  | cons item rest =>
    obtain ⟨hitem, hrest⟩ := allIntegersFit_cons.mp hfits
    rw [layouts, List.length_append] at hsize
    exact .cons (storedAs_layout hword item hitem (by omega))
      (allStoredAs_layouts hword rest hrest (by omega))

end

/-- Exactly the items whose integers and layout fit have a stored form. It reads back as
the item if the item's weight is within the stack size, and not at all otherwise. Limits
are 64-bit words. -/
theorem encode_round_trip (limits : Limits) (item : Item)
    (hword : limits.maxItemSize < UInt64.size) :
    (∀ bytes, item.encode limits = .ok bytes ↔
      (∀ n, integer n ∈ item.nodes → (integerBytes n).length ≤ limits.maxIntegerSize) ∧
        item.layout.length ≤ limits.maxItemSize ∧ bytes = item.layout) ∧
    ∀ bytes, item.encode limits = .ok bytes →
      (item.weight ≤ limits.maxStackSize → decode limits bytes = .ok item) ∧
        (limits.maxStackSize < item.weight → ∃ fault, decode limits bytes = .error fault) := by
  refine ⟨fun bytes => encode_eq_ok_iff, fun bytes h => ?_⟩
  obtain ⟨hfits, hsize, rfl⟩ := encode_eq_ok_iff.mp h
  have hstored := storedAs_layout hword item hfits hsize
  rw [weight_eq_nodeCount]
  constructor
  · intro hweight
    exact decode_eq_ok_iff.mpr ⟨hstored, hweight⟩
  · intro hweight
    rcases hdecode : decode limits item.layout with fault | found
    · exact ⟨fault, rfl⟩
    · -- What is read instead would be the item itself, which has too many nodes.
      obtain ⟨hfound, hcount⟩ := decode_eq_ok_iff.mp hdecode
      rw [hstored.unique hfound] at hcount
      exact absurd hcount (Nat.not_le_of_lt hweight)

/-- The bytes of each kind of item; zero has none of its own. -/
example : [null, boolean true, integer 1, integer 0, byteString [0, 0, 0, 0, 0], buffer [7],
      array [null], struct [integer 1]].map layout =
    [[0x00], [0x20, 1], [0x21, 1, 1], [0x21, 0], [0x28, 5, 0, 0, 0, 0, 0], [0x30, 1, 7],
      [0x40, 1, 0x00], [0x41, 1, 0x21, 1, 1]] := by
  decide +kernel

/-- Four nodes, so that a stack of four holds it and a stack of three does not. -/
def fourNodes : Item := .struct [.integer (-300), .array [.buffer [1, 2]]]

theorem encode_round_trip_fourNodes :
    ({} : Limits).maxItemSize < UInt64.size ∧
      (∀ size, fourNodes.encode { maxStackSize := size } = .ok fourNodes.layout) ∧
      decode { maxStackSize := 4 } fourNodes.layout = .ok fourNodes ∧
      ∃ fault, decode { maxStackSize := 3 } fourNodes.layout = .error fault := by
  have hround := fun size =>
    encode_round_trip { maxStackSize := size } fourNodes (show 1048576 < UInt64.size by decide)
  have hencode : ∀ size, fourNodes.encode { maxStackSize := size } = .ok fourNodes.layout := by
    intro size
    refine ((hround size).1 _).mpr ⟨?_, show _ ≤ 1048576 by decide +kernel, rfl⟩
    intro n hn
    obtain rfl : n = -300 := by simpa [fourNodes, nodes, nodesOf] using hn
    show _ ≤ 32
    decide +kernel
  have hweight : fourNodes.weight = 4 := by decide +kernel
  refine ⟨by decide, hencode, ?_, ?_⟩
  · exact ((hround 4).2 _ (hencode 4)).1 (Nat.le_of_eq hweight)
  · exact ((hround 3).2 _ (hencode 3)).2 (Nat.lt_of_lt_of_eq (by decide) hweight.symm)

end NativeContracts.Item
