import NativeContracts.Account
import NativeContracts.Proofs.RoundTrip
import NativeContracts.Store

/-! What is found in a store after a write, and what account records say. A write
changes the record at its key and no other. The record of a balance is the layout of
its struct; it reads back as that balance under limits that allow it, and as no other
balance under any limits. -/

namespace NativeContracts

namespace Store

variable {store : Store} {key other : Key} {record : Record} {entry : Key × Record}
  {entries : List (Key × Record)}

theorem find?_cons_self : find? entry.1 (entry :: entries) = some entry.2 := by
  rw [find?, List.find?_cons_of_pos (by simp)]
  rfl

theorem find?_cons_of_ne (h : entry.1 ≠ key) :
    find? key (entry :: entries) = find? key entries := by
  rw [find?, List.find?_cons_of_neg (by simpa using h)]
  rfl

theorem find?_insert :
    find? other (insert key record entries) =
      if other = key then some record else find? other entries := by
  have hself : ∀ rest, find? key ((key, record) :: rest) = some record := fun _ => find?_cons_self
  induction entries with
  | nil =>
    rw [insert]
    split
    · next h => rw [h, hself]
    · next h => exact find?_cons_of_ne (Ne.symm h)
  | cons entry rest ih =>
    rw [insert]
    by_cases h : other = key
    · subst h
      rw [if_pos rfl] at ih ⊢
      split
      · exact hself _
      · split
        · exact hself _
        · next hne => rw [find?_cons_of_ne (Ne.symm hne), ih]
    · rw [if_neg h] at ih ⊢
      split
      · exact find?_cons_of_ne (Ne.symm h)
      · split
        · next heq =>
          rw [find?_cons_of_ne (Ne.symm h), find?_cons_of_ne (by rw [← heq]; exact Ne.symm h)]
        · by_cases hentry : entry.1 = other
          · rw [← hentry, find?_cons_self, find?_cons_self]
          · rw [find?_cons_of_ne hentry, find?_cons_of_ne hentry, ih]

theorem get?_set : (store.set key record).get? other =
    if other = key then some record else store.get? other := find?_insert

@[simp] theorem get?_set_self : (store.set key record).get? key = some record := by
  rw [get?_set, if_pos rfl]

theorem get?_set_of_ne (h : other ≠ key) :
    (store.set key record).get? other = store.get? other := by
  rw [get?_set, if_neg h]

theorem find?_eq_some_iff (hsorted : entries.Pairwise (fun a b => a.1 < b.1)) :
    find? key entries = some record ↔ (key, record) ∈ entries := by
  induction entries with
  | nil => simp [find?]
  | cons entry rest ih =>
    obtain ⟨hfirst, hrest⟩ := List.pairwise_cons.mp hsorted
    by_cases h : entry.1 = key
    · subst h
      -- The keys behind the first one are greater, so the key does not occur again.
      have hbehind : (entry.1, record) ∉ rest := fun hmem =>
        Key.lt_irrefl entry.1 (hfirst (entry.1, record) hmem)
      rw [find?_cons_self, Option.some.injEq, List.mem_cons, or_iff_left hbehind]
      refine ⟨fun hrecord => ?_, fun hentry => ?_⟩
      · rw [← hrecord]
      · rw [← hentry]
    · rw [find?_cons_of_ne h, ih hrest, List.mem_cons]
      refine ⟨.inr, fun hmem => hmem.resolve_left fun hentry => h ?_⟩
      rw [← hentry]

theorem find?_eq_none_of_lt (h : ∀ entry ∈ entries, key < entry.1) : find? key entries = none := by
  have hnone : entries.find? (·.1 = key) = none := by
    refine List.find?_eq_none.mpr fun entry hmem hkey => Key.lt_irrefl key ?_
    have hlt := h entry hmem
    rwa [of_decide_eq_true hkey] at hlt
  rw [find?, hnone]
  rfl

/-- In a sorted list no key is found that comes before the first one. -/
theorem find?_cons_eq_none_of_lt (hsorted : (entry :: entries).Pairwise (fun a b => a.1 < b.1))
    (h : key < entry.1) : find? key (entry :: entries) = none := by
  refine find?_eq_none_of_lt fun other hmem => ?_
  rcases List.mem_cons.mp hmem with rfl | hmem
  · exact h
  · exact Key.lt_trans h ((List.pairwise_cons.mp hsorted).1 other hmem)

theorem get?_eq_some_iff : store.get? key = some record ↔ (key, record) ∈ store.entries :=
  find?_eq_some_iff store.sorted

/-- Stores are told apart by what is found in them. -/
theorem ext_get? {a b : Store} (h : ∀ key, a.get? key = b.get? key) : a = b := by
  have hmem : ∀ entry, entry ∈ a.entries ↔ entry ∈ b.entries := by
    intro entry
    exact get?_eq_some_iff.symm.trans (by rw [h, get?_eq_some_iff])
  have hnodup : ∀ store : Store, store.entries.Nodup := by
    intro store
    refine store.sorted.imp fun hlt heq => ?_
    rw [heq] at hlt
    exact Key.lt_irrefl _ hlt
  have hperm := (List.perm_ext_iff_of_nodup (hnodup a) (hnodup b)).mpr hmem
  have hentries : a.entries = b.entries := by
    refine hperm.eq_of_pairwise (fun x y _ _ hxy hyx => ?_) a.sorted b.sorted
    exact absurd (Key.lt_trans hxy hyx) (Key.lt_irrefl _)
  obtain ⟨entries, sorted⟩ := a
  obtain ⟨others, hothers⟩ := b
  subst hentries
  rfl

theorem contains_set_iff :
    (store.set key record).contains other = true ↔ other = key ∨ store.contains other = true := by
  rw [contains, get?_set]
  split
  · next heq => simp [heq]
  · next hne => simp [hne, contains]

theorem contains_set (h : store.contains other = true) :
    (store.set key record).contains other = true := contains_set_iff.mpr (.inr h)

theorem find?_filter_ne :
    find? other (entries.filter (·.1 ≠ key)) =
      if other = key then none else find? other entries := by
  induction entries with
  | nil => simp [find?]
  | cons entry rest ih =>
    by_cases hentry : entry.1 = key
    · rw [List.filter_cons_of_neg (by simpa using hentry), ih]
      split
      · rfl
      · next hother => rw [find?_cons_of_ne (by rw [hentry]; exact Ne.symm hother)]
    · rw [List.filter_cons_of_pos (by simpa using hentry)]
      by_cases hother : entry.1 = other
      · rw [← hother, find?_cons_self, find?_cons_self, if_neg hentry]
      · rw [find?_cons_of_ne hother, find?_cons_of_ne hother, ih]

theorem get?_erase : (store.erase key).get? other =
    if other = key then none else store.get? other := find?_filter_ne

theorem get?_erase_of_ne (h : other ≠ key) : (store.erase key).get? other = store.get? other := by
  rw [get?_erase, if_neg h]

/-! ### Sizes -/

theorem length_insert (hsorted : entries.Pairwise (fun a b => a.1 < b.1)) :
    (insert key record entries).length =
      entries.length + if (find? key entries).isSome then 0 else 1 := by
  induction entries with
  | nil => simp [insert, find?]
  | cons entry rest ih =>
    rw [insert]
    split
    · next hlt => simp [find?_cons_eq_none_of_lt hsorted hlt]
    · split
      · next heq => simp [heq, find?_cons_self]
      · next hne =>
        rw [find?_cons_of_ne (Ne.symm hne), List.length_cons, List.length_cons, ih hsorted.of_cons]
        omega

theorem length_filter_ne (hsorted : entries.Pairwise (fun a b => a.1 < b.1)) :
    (entries.filter (·.1 ≠ key)).length + (if (find? key entries).isSome then 1 else 0) =
      entries.length := by
  induction entries with
  | nil => simp [find?]
  | cons entry rest ih =>
    obtain ⟨hfirst, hrest⟩ := List.pairwise_cons.mp hsorted
    by_cases hentry : entry.1 = key
    · subst hentry
      have hbehind : rest.filter (·.1 ≠ entry.1) = rest := by
        refine List.filter_eq_self.mpr fun other hmem => decide_eq_true fun heq => ?_
        exact Key.lt_irrefl entry.1 (heq ▸ hfirst other hmem)
      rw [List.filter_cons_of_neg (by simp), hbehind, find?_cons_self]
      rfl
    · rw [List.filter_cons_of_pos (by simpa using hentry), find?_cons_of_ne hentry,
        List.length_cons, List.length_cons, ← ih hrest]
      omega

/-- A write adds a record, unless there is one at the key. -/
theorem size_set (store : Store) (key : Key) (record : Record) :
    (store.set key record).size = store.size + if store.contains key then 0 else 1 :=
  length_insert store.sorted

/-- A removal takes a record away, if there is one at the key. -/
theorem size_erase (store : Store) (key : Key) :
    (store.erase key).size + (if store.contains key then 1 else 0) = store.size :=
  length_filter_ne store.sorted

/-- What a store without records of an owner has at the owner's keys. -/
theorem get?_eq_none_of_owner {owner : Int32}
    (h : ∀ key record, store.get? key = some record → key.owner ≠ owner)
    (howner : key.owner = owner) : store.get? key = none :=
  Option.eq_none_iff_forall_ne_some.mpr fun record hget => h key record hget howner

/-- A record that is not constant gives way. -/
theorem put_eq_ok (h : ∀ old, store.get? key = some old → old.isConstant = false) :
    store.put key record = .ok (store.set key record) := by
  unfold put
  split
  · next bytes hold => cases h _ hold
  · rfl

theorem remove_eq_ok (h : ∀ old, store.get? key = some old → old.isConstant = false) :
    store.remove key = .ok (store.erase key) := by
  unfold remove
  split
  · next bytes hold => cases h _ hold
  · rfl

theorem put_eq_error {old : Record} (hold : store.get? key = some old)
    (hconstant : old.isConstant = true) (record : Record) :
    store.put key record = .error (.store (.constantChanged key)) := by
  obtain ⟨bytes, isConstant⟩ := old
  obtain rfl : isConstant = true := hconstant
  rw [put, hold]

theorem remove_eq_error {old : Record} (hold : store.get? key = some old)
    (hconstant : old.isConstant = true) :
    store.remove key = .error (.store (.constantRemoved key)) := by
  obtain ⟨bytes, isConstant⟩ := old
  obtain rfl : isConstant = true := hconstant
  rw [remove, hold]

theorem put_cases (store : Store) (key : Key) (record : Record) :
    store.put key record = .ok (store.set key record) ∨
      ∃ error, store.put key record = .error error := by
  unfold put
  split
  · exact .inr ⟨_, rfl⟩
  · exact .inl rfl

theorem remove_cases (store : Store) (key : Key) :
    store.remove key = .ok (store.erase key) ∨ ∃ error, store.remove key = .error error := by
  unfold remove
  split
  · exact .inr ⟨_, rfl⟩
  · exact .inl rfl

end Store

/-! ## Account records -/

theorem Record.toInt_ofInt (n : Int) : (Record.ofInt n).toInt = n := TwosComplement.decode_encode n

/-- The stored form of the account with this balance. -/
def Record.ofBalance (balance : Int) : Record :=
  { bytes := (Item.struct [.integer balance]).layout }

namespace Account

variable {account : Account} {budget : Budget} {limits : Limits} {record : Record} {item : Item}
  {balance : Int}

theorem weights_balance (balance : Int) : Item.weights [.integer balance] = 1 := by
  simp [Item.weight_eq_nodeCount, Item.nodeCount]

theorem toItem_eq_ok_iff :
    account.toItem budget = .ok item ↔
      TwosComplement.width account.balance ≤ integerWidth ∧
        min (budget.count + 2) Budget.largestCount ≤ budget.limit ∧
        item = .struct [.integer account.balance] := by
  simp only [toItem, Budget.makeStruct, Budget.check, weights_balance]
  by_cases hwidth : integerWidth < TwosComplement.width account.balance
  · simp only [hwidth, if_true, Nat.not_le_of_lt hwidth, false_and, iff_false]
    intro h
    cases h
  · simp only [hwidth, if_false, Nat.le_of_not_lt hwidth, true_and]
    by_cases hbudget : budget.limit < min (budget.count + 2) Budget.largestCount
    · simp only [hbudget, if_true, Nat.not_le_of_lt hbudget, false_and, iff_false]
      intro h
      cases h
    · simp only [hbudget, if_false, Nat.le_of_not_lt hbudget, true_and]
      constructor
      · intro h
        cases h
        rfl
      · rintro rfl
        rfl

/-- An account has a record as long as every limit allows it. -/
theorem toRecord_eq_ok_iff :
    account.toRecord budget limits = .ok record ↔
      TwosComplement.width account.balance ≤ integerWidth ∧
        min (budget.count + 2) Budget.largestCount ≤ budget.limit ∧
        (Item.integerBytes account.balance).length ≤ limits.maxIntegerSize ∧
        (Record.ofBalance account.balance).bytes.length ≤ limits.maxItemSize ∧
        record = .ofBalance account.balance := by
  have hencode : ∀ bytes, (Item.struct [.integer account.balance]).encode limits = .ok bytes ↔
      (Item.integerBytes account.balance).length ≤ limits.maxIntegerSize ∧
        (Record.ofBalance account.balance).bytes.length ≤ limits.maxItemSize ∧
        bytes = (Record.ofBalance account.balance).bytes := by
    intro bytes
    simp only [Item.encode_eq_ok_iff, Item.integersFit_struct, Item.allIntegersFit_cons,
      Item.integersFit_integer, Item.allIntegersFit_nil, and_true, Record.ofBalance]
  rw [toRecord, bind_eq_ok_iff]
  constructor
  · intro h
    obtain ⟨item, hitem, hrecord⟩ := h
    obtain ⟨hwidth, hbudget, rfl⟩ := toItem_eq_ok_iff.mp hitem
    rcases hbytes : (Item.struct [.integer account.balance]).encode limits with fault | bytes <;>
      rw [hbytes] at hrecord <;> cases hrecord
    obtain ⟨hfits, hsize, rfl⟩ := (hencode bytes).mp hbytes
    exact ⟨hwidth, hbudget, hfits, hsize, rfl⟩
  · intro h
    obtain ⟨hwidth, hbudget, hfits, hsize, rfl⟩ := h
    refine ⟨_, toItem_eq_ok_iff.mpr ⟨hwidth, hbudget, rfl⟩, ?_⟩
    rw [(hencode _).mpr ⟨hfits, hsize, rfl⟩]
    rfl

theorem length_integerBytes_le (n : Int) :
    (Item.integerBytes n).length ≤ TwosComplement.width n := by
  unfold Item.integerBytes
  split
  · exact Nat.zero_le _
  · exact Nat.le_refl _

/-- A marker and a number for the struct, a marker and a length for the balance. -/
theorem length_ofBalance (h : TwosComplement.width balance ≤ integerWidth) :
    (Record.ofBalance balance).bytes.length = 4 + (Item.integerBytes balance).length := by
  have hbytes : (Item.integerBytes balance).length ≤ 32 :=
    Nat.le_trans (length_integerBytes_le balance) h
  have hnumber : (VarInt.encode (0 + 1)).length = 1 := rfl
  have hlength : (VarInt.encode (Item.integerBytes balance).length).length = 1 := by
    rw [VarInt.encode, if_pos (by omega)]
    rfl
  simp only [Record.ofBalance, Item.layout, Item.layouts, Item.payload, List.length_cons,
    List.length_append, List.length_nil, hnumber, hlength]
  omega

theorem encode_ofBalance (h : TwosComplement.width balance ≤ integerWidth) :
    Item.encode {} (.struct [.integer balance]) = .ok (Record.ofBalance balance).bytes := by
  have hbytes : (Item.integerBytes balance).length ≤ 32 :=
    Nat.le_trans (length_integerBytes_le balance) h
  have hlength := length_ofBalance h
  rw [Item.encode_eq_ok_iff, Item.integersFit_struct, Item.allIntegersFit_cons,
    Item.integersFit_integer]
  refine ⟨⟨hbytes, Item.allIntegersFit_nil⟩, ?_, rfl⟩
  show (Record.ofBalance balance).bytes.length ≤ 1048576
  omega

theorem storedAs_ofBalance (h : (Item.integerBytes balance).length ≤ limits.maxIntegerSize)
    (hwidth : TwosComplement.width balance ≤ integerWidth) :
    Item.StoredAs limits (.struct [.integer balance]) (Record.ofBalance balance).bytes := by
  have hbytes : (Item.integerBytes balance).length ≤ 32 :=
    Nat.le_trans (length_integerBytes_le balance) hwidth
  have hword : (Item.integerBytes balance).length < UInt64.size :=
    Nat.lt_of_le_of_lt hbytes (by decide)
  have hfield := Item.StoredAs.integer (Item.framed_payload h hword)
  rw [Item.decode_integerBytes] at hfield
  exact .struct (VarInt.form_encode (show 1 < UInt64.size by decide)) (.cons hfield .nil)

theorem ofItem_eq_ok (h : TwosComplement.width balance ≤ integerWidth) :
    ofItem (.struct [.integer balance]) = .ok ⟨balance⟩ := by
  simp only [ofItem, Item.toFields, Item.toInt, Nat.not_lt_of_le h, if_false]

/-- Limits that allow the two items of a record and the balance in it. -/
theorem ofRecord_ofBalance_of_le (hstack : 2 ≤ limits.maxStackSize)
    (hfits : (Item.integerBytes balance).length ≤ limits.maxIntegerSize)
    (h : TwosComplement.width balance ≤ integerWidth) :
    ofRecord limits (.ofBalance balance) = .ok ⟨balance⟩ := by
  have hdecode :
      Item.decode limits (Record.ofBalance balance).bytes = .ok (.struct [.integer balance]) :=
    Item.decode_eq_ok_iff.mpr ⟨storedAs_ofBalance hfits h, hstack⟩
  rw [ofRecord, hdecode]
  exact ofItem_eq_ok h

/-- The limits that an execution has by default allow every account. -/
theorem ofRecord_ofBalance (h : TwosComplement.width balance ≤ integerWidth) :
    ofRecord {} (.ofBalance balance) = .ok ⟨balance⟩ :=
  ofRecord_ofBalance_of_le (show 2 ≤ 2048 by decide)
    (Nat.le_trans (length_integerBytes_le balance) h) h

/-- Other limits may forbid the record, but they do not make it another balance. -/
theorem ofRecord_ofBalance_cases (limits : Limits)
    (h : TwosComplement.width balance ≤ integerWidth) :
    ofRecord limits (.ofBalance balance) = .ok ⟨balance⟩ ∨
      ∃ error, ofRecord limits (.ofBalance balance) = .error error := by
  unfold ofRecord
  rcases hdecode : Item.decode limits (Record.ofBalance balance).bytes with fault | item
  · exact .inr ⟨_, rfl⟩
  · left
    have hitem := (Item.decode_eq_ok_iff.mp hdecode).1
    have hstored : Item.StoredAs {} (.struct [.integer balance]) (Record.ofBalance balance).bytes :=
      storedAs_ofBalance (Nat.le_trans (length_integerBytes_le balance) h) h
    rw [hstored.unique hitem]
    exact ofItem_eq_ok h

/-! ### Errors -/

theorem toRecord_ne_violation (cause : Violation) :
    account.toRecord budget limits ≠ .error (.violation cause) := by
  have hitem : account.toItem budget ≠ .error (.violation cause) := by
    simp only [toItem]
    split
    · intro h
      cases h
    · rcases budget.makeStruct [.integer account.balance] with fault | item <;> intro h <;> cases h
  intro h
  rcases bind_eq_error_iff.mp h with h | ⟨item, -, h⟩
  · exact hitem h
  · split at h <;> cases h

theorem ofRecord_ne_violation (cause : Violation) :
    ofRecord limits record ≠ .error (.violation cause) := by
  unfold ofRecord
  split
  · simp
  · unfold ofItem
    split
    · simp
    · split <;> simp
    · simp

end Account

end NativeContracts
