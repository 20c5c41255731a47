import Mathlib.Algebra.Order.Ring.Int
import NativeContracts.Proofs.Records
import NativeContracts.Proofs.Run

/-! Accounts through their records. Four bounds decide whether an account can be written: the
width of a balance, the budget, and the limits of integers and of items. What was written
reads back under limits of its own, which may be others. Bytes that read as an account hold a
struct of one field that converts to its balance; all others are refused, for what they store
or for storing nothing. -/

namespace NativeContracts

open TwosComplement

/-! ## The width of a balance -/

/-- What so many bytes hold with their sign. -/
theorem TwosComplement.width_le_integerWidth_iff_bounds {n : Int} :
    width n ≤ integerWidth ↔ -2 ^ 255 ≤ n ∧ n < 2 ^ 255 := by
  have hbounds : width n ≤ integerWidth ↔ _ := width_le_iff n 31
  have hcapacity : 128 * LittleEndian.capacity 31 = 2 ^ 255 := by decide +kernel
  rw [hbounds, hcapacity]
  push_cast
  exact Iff.rfl

theorem TwosComplement.width_decode_le {bytes : List UInt8} (h : bytes.length ≤ integerWidth) :
    width (decode bytes) ≤ integerWidth := by
  by_cases hbytes : bytes = []
  · subst hbytes
    decide +kernel
  · exact Nat.le_trans (length_encode_decode_le hbytes) h

/-- No conversion gives an integer that is wider than conversions read. -/
theorem Item.width_le_of_toInt {item : Item} {n : Int} (h : item.toInt = .ok n) :
    width n ≤ integerWidth := by
  cases item with
  | boolean value =>
    cases h
    cases value <;> decide +kernel
  | integer value =>
    simp only [toInt] at h
    split at h
    · cases h
    · next hwidth =>
      cases h
      exact Nat.le_of_not_lt hwidth
  | byteString bytes =>
    simp only [toInt] at h
    split at h
    · cases h
    · next hlength =>
      cases h
      exact width_decode_le (Nat.le_of_not_lt hlength)
  | null | buffer | array | struct => cases h

namespace Account

variable {account : Account} {budget : Budget} {limits other : Limits} {record : Record}
  {item : Item} {error : Error}

/-! ## Writing -/

/-- What it takes to write an account: a balance of at most 32 bytes with its sign, room for two
references in the budget, and limits that allow the balance's bytes and four more. -/
structure Fits (account : Account) (budget : Budget) (limits : Limits) : Prop where
  balance : -2 ^ 255 ≤ account.balance ∧ account.balance < 2 ^ 255
  budget : budget.count + 2 ≤ budget.limit
  integer : (Item.integerBytes account.balance).length ≤ limits.maxIntegerSize
  item : 4 + (Item.integerBytes account.balance).length ≤ limits.maxItemSize

theorem Fits.width (h : account.Fits budget limits) : width account.balance ≤ integerWidth :=
  width_le_integerWidth_iff_bounds.mpr h.balance

theorem Fits.toRecord (h : account.Fits budget limits) :
    account.toRecord budget limits = .ok (.ofBalance account.balance) := by
  refine toRecord_eq_ok_iff.mpr ⟨h.width, ?_, h.integer, ?_, rfl⟩
  · exact Nat.le_trans (Nat.min_le_left _ _) h.budget
  · rw [length_ofBalance h.width]
    exact h.item

/-- A limit below the largest count leaves no room for the count that is taken in place of
those past it. -/
theorem toRecord_eq_ok_iff_fits (hlimit : budget.limit < Budget.largestCount) :
    account.toRecord budget limits = .ok record ↔
      account.Fits budget limits ∧ record = .ofBalance account.balance := by
  constructor
  · intro h
    obtain ⟨hwidth, hbudget, hinteger, hitem, rfl⟩ := toRecord_eq_ok_iff.mp h
    rw [length_ofBalance hwidth] at hitem
    exact ⟨⟨width_le_integerWidth_iff_bounds.mp hwidth, by omega, hinteger, hitem⟩, rfl⟩
  · intro h
    obtain ⟨hfits, rfl⟩ := h
    exact hfits.toRecord

/-! ## Reading -/

/-- Limits under which the record of an account is read: its two items, and its balance. -/
structure Legible (account : Account) (limits : Limits) : Prop where
  stack : 2 ≤ limits.maxStackSize
  integer : (Item.integerBytes account.balance).length ≤ limits.maxIntegerSize

theorem Legible.ofRecord_of_toRecord (h : account.Legible other)
    (hrecord : account.toRecord budget limits = .ok record) :
    ofRecord other record = .ok account := by
  obtain ⟨hwidth, -, -, -, rfl⟩ := toRecord_eq_ok_iff.mp hrecord
  exact ofRecord_ofBalance_of_le h.stack h.integer hwidth

/-- The items that are accounts. -/
theorem ofItem_eq_ok_iff :
    ofItem item = .ok account ↔
      ∃ field, item = .struct [field] ∧ field.toInt = .ok account.balance := by
  constructor
  · intro h
    unfold ofItem at h
    split at h
    · cases h
    · next field hfields =>
      refine ⟨field, ?_, ?_⟩
      · cases item <;> cases hfields
        rfl
      · split at h
        · cases h
        · next balance hbalance =>
          cases h
          exact hbalance
    · cases h
  · intro h
    obtain ⟨field, rfl, hbalance⟩ := h
    simp only [ofItem, Item.toFields, hbalance]

theorem ofRecord_eq_ok_iff :
    ofRecord limits record = .ok account ↔
      ∃ field, Item.decode limits record.bytes = .ok (.struct [field]) ∧
        field.toInt = .ok account.balance := by
  unfold ofRecord
  rcases Item.decode limits record.bytes with fault | item
  · simp
  · simp only [ofItem_eq_ok_iff, Except.ok.injEq]

/-- What is read as a balance can be written as one. -/
theorem width_le_of_ofRecord (h : ofRecord limits record = .ok account) :
    width account.balance ≤ integerWidth := by
  obtain ⟨field, -, hbalance⟩ := ofRecord_eq_ok_iff.mp h
  exact Item.width_le_of_toInt hbalance

/-- An item that is no account is malformed. -/
theorem eq_malformed_of_ofItem (h : ofItem item = .error error) :
    ∃ cause, error = .malformed cause := by
  unfold ofItem at h
  split at h
  · cases h
    exact ⟨_, rfl⟩
  · split at h
    · cases h
      exact ⟨_, rfl⟩
    · cases h
  · cases h
    exact ⟨_, rfl⟩

/-- Bytes that are no account are refused for storing no item, or for the item they store. -/
theorem ofRecord_error_cases (h : ofRecord limits record = .error error) :
    (∃ fault, Item.decode limits record.bytes = .error fault ∧
        error = .store (.unreadable fault)) ∨
      ∃ item cause, Item.decode limits record.bytes = .ok item ∧ error = .malformed cause := by
  unfold ofRecord at h
  rcases hdecode : Item.decode limits record.bytes with fault | item <;> rw [hdecode] at h
  · cases h
    exact .inl ⟨fault, rfl, rfl⟩
  · obtain ⟨cause, rfl⟩ := eq_malformed_of_ofItem h
    exact .inr ⟨item, cause, rfl, rfl⟩

/-! ## There and back -/

/-- Whatever comes of it, writing an account charges nothing. -/
theorem budget_putAccount (key : Key) (account : Account) (machine : Machine) :
    ((Run.putAccount key account).exec machine).2.budget = machine.budget := by
  rw [Run.exec_putAccount]
  split
  · rfl
  · rw [Run.exec_put]
    split <;> rfl

/-- An account is written exactly if it fits, at no charge, and reads back under all limits under
which it is legible. What reads as an account is a struct of one field that converts to its
balance, which can be written again and reads the same. All other bytes are refused, either for
storing no item or for storing one that is no account. -/
theorem written_and_read :
    (∀ (account : Account) (budget : Budget) (limits : Limits), budget.limit < UInt64.size - 1 →
      ((∃ record, account.toRecord budget limits = .ok record) ↔ account.Fits budget limits) ∧
      ∀ record other, account.toRecord budget limits = .ok record → account.Legible other →
        ofRecord other record = .ok account) ∧
    (∀ key (account : Account) (machine : Machine),
      ((Run.putAccount key account).exec machine).2.budget = machine.budget) ∧
    ∀ limits record,
      (∀ account, ofRecord limits record = .ok account ↔
        ∃ field, Item.decode limits record.bytes = .ok (.struct [field]) ∧
          field.toInt = .ok account.balance) ∧
      (∀ account, ofRecord limits record = .ok account →
        (-2 ^ 255 ≤ account.balance ∧ account.balance < 2 ^ 255) ∧
        ∀ budget wide other, account.Fits budget wide → account.Legible other →
          ∃ again, account.toRecord budget wide = .ok again ∧
            ofRecord other again = .ok account) ∧
      ∀ error, ofRecord limits record = .error error →
        (∃ fault, Item.decode limits record.bytes = .error fault ∧
            error = .store (.unreadable fault)) ∨
          ∃ item cause, Item.decode limits record.bytes = .ok item ∧ error = .malformed cause := by
  refine ⟨fun account budget limits hlimit => ⟨?_, ?_⟩, budget_putAccount,
    fun limits record => ⟨fun account => ofRecord_eq_ok_iff, ?_, fun error => ofRecord_error_cases⟩⟩
  · constructor
    · intro h
      obtain ⟨record, hrecord⟩ := h
      exact ((toRecord_eq_ok_iff_fits hlimit).mp hrecord).1
    · intro h
      exact ⟨_, h.toRecord⟩
  · intro record other hrecord hlegible
    exact hlegible.ofRecord_of_toRecord hrecord
  · intro account h
    refine ⟨width_le_integerWidth_iff_bounds.mp (width_le_of_ofRecord h), ?_⟩
    intro budget wide other hfits hlegible
    exact ⟨_, hfits.toRecord, hlegible.ofRecord_of_toRecord hfits.toRecord⟩

/-- Limits under which zero is the only balance that fits. -/
def narrow : Limits := { maxStackSize := 2, maxItemSize := 4, maxIntegerSize := 0 }

/-- Three hundred as the bytes of a string. -/
def spelled : Record := { bytes := [0x41, 1, 0x28, 2, 0x2C, 1] }

/-- Zero within the narrowest limits, and a balance that was not stored as an integer. -/
theorem written_and_read_narrow :
    (narrow.maxStackSize < UInt64.size - 1 ∧
      ∃ record, Account.toRecord ⟨0⟩ { limit := narrow.maxStackSize } narrow = .ok record ∧
        ofRecord narrow record = .ok ⟨0⟩) ∧
    ofRecord {} spelled = .ok ⟨300⟩ ∧
      ∃ again, Account.toRecord ⟨300⟩ { limit := 2 } {} = .ok again ∧
        ofRecord {} again = .ok ⟨300⟩ := by
  obtain ⟨hwrite, -, hread⟩ := written_and_read
  have hlimit : narrow.maxStackSize < UInt64.size - 1 := by decide
  obtain ⟨hfits, hback⟩ := hwrite ⟨0⟩ { limit := narrow.maxStackSize } narrow hlimit
  have hzero : Fits ⟨0⟩ { limit := narrow.maxStackSize } narrow :=
    ⟨by decide, by decide, by decide, by decide⟩
  obtain ⟨record, hrecord⟩ := hfits.mpr hzero
  have hspelled : ofRecord {} spelled = .ok ⟨300⟩ :=
    ((hread {} spelled).1 ⟨300⟩).mpr ⟨.byteString [0x2C, 1], by decide +kernel, by decide +kernel⟩
  have hagain := (hread {} spelled).2.1 ⟨300⟩ hspelled
  exact ⟨⟨hlimit, record, hrecord, hback record narrow hrecord ⟨by decide, by decide⟩⟩, hspelled,
    hagain.2 { limit := 2 } {} {} ⟨by decide, by decide, by decide +kernel, by decide +kernel⟩
      ⟨by decide, by decide +kernel⟩⟩

end Account

end NativeContracts
