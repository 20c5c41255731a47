import NativeContracts.Proofs.RoundTrip

/-! What limits have no say in. They decide whether an item is written and whether bytes are
read, and not what comes of it: wider limits write and read all that narrower ones do, with
the same result, and limits that do not compare agree wherever both give one. No bytes of an
item are the front of the bytes of another, so that stored items can stand one after another. -/

namespace NativeContracts

/-- Each bound that stored items are held to is at least as large in `wider`. -/
structure Limits.Within (limits wider : Limits) : Prop where
  stackSize : limits.maxStackSize ≤ wider.maxStackSize
  itemSize : limits.maxItemSize ≤ wider.maxItemSize
  integerSize : limits.maxIntegerSize ≤ wider.maxIntegerSize

namespace Item

variable {limits wider other : Limits} {item found : Item} {bytes more : List UInt8}

/-! ## Wider limits -/

theorem IntegersFit.mono (h : IntegersFit limits item)
    (hinteger : limits.maxIntegerSize ≤ wider.maxIntegerSize) : IntegersFit wider item :=
  fun n hn => Nat.le_trans (h n hn) hinteger

theorem encode_mono (hwithin : limits.Within wider) (h : item.encode limits = .ok bytes) :
    item.encode wider = .ok bytes := by
  obtain ⟨hfits, hsize, rfl⟩ := encode_eq_ok_iff.mp h
  refine encode_eq_ok_iff.mpr ⟨hfits.mono hwithin.integerSize, ?_, rfl⟩
  exact Nat.le_trans hsize hwithin.itemSize

theorem decode_mono (hwithin : limits.Within wider) (h : decode limits bytes = .ok item) :
    decode wider bytes = .ok item := by
  obtain ⟨hstored, hcount⟩ := decode_eq_ok_iff.mp h
  refine decode_eq_ok_iff.mpr ⟨?_, Nat.le_trans hcount hwithin.stackSize⟩
  exact storedAs_mono hwithin.integerSize hwithin.itemSize hstored

/-! ## Any two limits -/

theorem encode_unique (h : item.encode limits = .ok bytes) (hother : item.encode other = .ok more) :
    bytes = more := by
  obtain ⟨-, -, rfl⟩ := encode_eq_ok_iff.mp h
  obtain ⟨-, -, rfl⟩ := encode_eq_ok_iff.mp hother
  rfl

theorem decode_unique (h : decode limits bytes = .ok item)
    (hother : decode other bytes = .ok found) : item = found :=
  (decode_eq_ok_iff.mp hother).1.unique (decode_eq_ok_iff.mp h).1

/-- The bytes are what is written for the item, or they are read as it. -/
inductive StandFor (limits : Limits) (bytes : List UInt8) (item : Item) : Prop where
  | written (h : item.encode limits = .ok bytes)
  | read (h : decode limits bytes = .ok item)

theorem StandFor.storedAs (hword : limits.maxItemSize < UInt64.size)
    (h : StandFor limits bytes item) : StoredAs limits item bytes := by
  cases h with
  | written h =>
    obtain ⟨hfits, hsize, rfl⟩ := encode_eq_ok_iff.mp h
    exact storedAs_layout hword item hfits hsize
  | read h => exact (decode_eq_ok_iff.mp h).1

theorem StoredAs.eq_of_begins (h : StoredAs limits item bytes) (hother : StoredAs other found more)
    (hbegins : bytes <+: more) : bytes = more ∧ item = found := by
  obtain ⟨back, rfl⟩ := hbegins
  have hwhole : bytes ++ back = (bytes ++ back) ++ [] := by simp
  obtain ⟨hfound, hback⟩ := h.unique_append hother hwhole
  exact ⟨by simp [← hback], hfound.symm⟩

/-- Under wider limits an item has the same form and bytes have the same item. Any two limits
agree on both where both have one, and if the bytes of one item begin the bytes of another, the
two are the same. Limits are 64-bit words. -/
theorem form_independent_of_limits :
    (∀ limits wider : Limits, limits.Within wider →
      (∀ item bytes, encode limits item = .ok bytes → encode wider item = .ok bytes) ∧
      ∀ bytes item, decode limits bytes = .ok item → decode wider bytes = .ok item) ∧
    (∀ (limits other : Limits) (item : Item) (bytes more : List UInt8),
      item.encode limits = .ok bytes → item.encode other = .ok more → bytes = more) ∧
    (∀ (limits other : Limits) (bytes : List UInt8) (item found : Item),
      decode limits bytes = .ok item → decode other bytes = .ok found → item = found) ∧
    ∀ limits other : Limits, limits.maxItemSize < UInt64.size → other.maxItemSize < UInt64.size →
      ∀ bytes more item found, StandFor limits bytes item → StandFor other more found →
        bytes <+: more → bytes = more ∧ item = found := by
  refine ⟨fun limits wider hwithin => ⟨fun item bytes => encode_mono hwithin,
    fun bytes item => decode_mono hwithin⟩, fun _ _ _ _ _ => encode_unique,
    fun _ _ _ _ _ => decode_unique, ?_⟩
  intro limits other hword hwordOther bytes more item found h hother hbegins
  exact (h.storedAs hword).eq_of_begins (hother.storedAs hwordOther) hbegins

/-- Room for a single item of three bytes. -/
def narrow : Limits := { maxStackSize := 1, maxItemSize := 3, maxIntegerSize := 1 }

/-- A five is written and read under narrow limits as under the default ones, and not read from
its bytes with one more behind them. -/
theorem form_independent_of_limits_narrow :
    (integer 5).encode {} = .ok [0x21, 0x01, 0x05] ∧
      decode {} [0x21, 0x01, 0x05] = .ok (.integer 5) ∧
      ∀ found, decode {} [0x21, 0x01, 0x05, 0x00] ≠ .ok found := by
  obtain ⟨hwider, -, -, hfront⟩ := form_independent_of_limits
  have hwithin : narrow.Within {} :=
    ⟨show 1 ≤ 2048 by decide, show 3 ≤ 1048576 by decide, show 1 ≤ 32 by decide⟩
  have hwritten : (integer 5).encode narrow = .ok [0x21, 0x01, 0x05] :=
    encode_eq_ok_iff.mpr ⟨integersFit_integer.mpr (show _ ≤ 1 by decide +kernel),
      show _ ≤ 3 by decide +kernel, by decide +kernel⟩
  have hread : decode narrow [0x21, 0x01, 0x05] = .ok (.integer 5) := rfl
  obtain ⟨hencode, hdecode⟩ := hwider narrow {} hwithin
  refine ⟨hencode _ _ hwritten, hdecode _ _ hread, fun found hlonger => ?_⟩
  obtain ⟨hsame, -⟩ := hfront narrow {} (by decide) (by decide) _ _ _ _ (.written hwritten)
    (.read hlonger) ⟨[0x00], rfl⟩
  exact absurd hsame (by decide)

end Item

end NativeContracts
