import NativeContracts.Ledger
import NativeContracts.Proofs.Records
import NativeContracts.Proofs.Run

/-! What a ledger writes, and what its operations do to a store that holds nothing else
of the ledger's owner. Such a store has one record of the supply and one for each
account, each in one form. An operation either fails and leaves the store alone, or it
replaces the records it is about; only a burn can fail between its two records. -/

namespace NativeContracts

open Run TwosComplement

/-- The balance that a record gives under the default limits. -/
def Record.balance (record : Record) : Int :=
  match Account.ofRecord {} record with
  | .ok account => account.balance
  | .error _ => 0

theorem Record.balance_ofBalance {balance : Int} (h : width balance ≤ integerWidth) :
    (Record.ofBalance balance).balance = balance := by
  rw [Record.balance, Account.ofRecord_ofBalance h]

def Machine.withRecord (machine : Machine) (key : Key) (record : Record) : Machine :=
  { machine with store := machine.store.set key record }

theorem Run.exec_put_cases (key : Key) (record : Record) (machine : Machine) :
    (put key record).exec machine = (.ok (), machine.withRecord key record) ∨
      ∃ error, (put key record).exec machine = (.error error, machine) := by
  rw [exec_put]
  rcases Store.put_cases machine.store key record with hput | ⟨error, hput⟩ <;> rw [hput]
  · exact .inl rfl
  · exact .inr ⟨error, rfl⟩

namespace Ledger

/-- The records of a ledger, the supply's and the accounts'. No number in them is negative,
and none is wider than an integer conversion reads. -/
inductive Written (ledger : Ledger) : Key → Record → Prop where
  | supply (supply : Int) (hsupply : 0 ≤ supply) (hwidth : width supply ≤ integerWidth) :
      Written ledger ledger.supplyKey (.ofInt supply)
  | account (address : List UInt8) (balance : Int) (hbalance : 0 ≤ balance)
      (hwidth : width balance ≤ integerWidth) :
      Written ledger (ledger.accountKey address) (.ofBalance balance)

/-- The owner's records are all the ledger's. -/
def Canonical (ledger : Ledger) (store : Store) : Prop :=
  ∀ key record, store.get? key = some record → key.owner = ledger.owner → ledger.Written key record

/-- The supply that a store has on record. -/
def supplyIn (ledger : Ledger) (store : Store) : Int :=
  match store.get? ledger.supplyKey with
  | some record => record.toInt
  | none => 0

/-- The balance that a store has on record for an address. -/
def balanceIn (ledger : Ledger) (store : Store) (address : List UInt8) : Int :=
  match store.get? (ledger.accountKey address) with
  | some record => record.balance
  | none => 0

variable {ledger : Ledger} {machine : Machine} {store : Store} {address : List UInt8}
  {amount : Int} {key : Key} {record : Record}

theorem supply_eq (ledger : Ledger) (machine : Machine) :
    ledger.supply machine = ledger.supplyIn machine.store := rfl

/-! ## Keys -/

theorem accountKey_ne_supplyKey (ledger : Ledger) (address : List UInt8) :
    ledger.accountKey address ≠ ledger.supplyKey := by
  simp [accountKey, supplyKey, Key.tagged]

theorem accountKey_injective (ledger : Ledger) {address other : List UInt8}
    (h : ledger.accountKey address = ledger.accountKey other) : address = other := by
  simpa [accountKey, Key.tagged] using h

theorem Written.not_constant (h : ledger.Written key record) : record.isConstant = false := by
  cases h <;> rfl

theorem Written.eq_ofInt (h : ledger.Written ledger.supplyKey record) :
    ∃ supply, 0 ≤ supply ∧ width supply ≤ integerWidth ∧ record = .ofInt supply := by
  generalize hkey : ledger.supplyKey = key at h
  cases h with
  | supply supply hsupply hwidth => exact ⟨supply, hsupply, hwidth, rfl⟩
  | account address balance => exact absurd hkey.symm (ledger.accountKey_ne_supplyKey address)

theorem Written.eq_ofBalance (h : ledger.Written (ledger.accountKey address) record) :
    ∃ balance, 0 ≤ balance ∧ width balance ≤ integerWidth ∧ record = .ofBalance balance := by
  generalize hkey : ledger.accountKey address = key at h
  cases h with
  | supply supply => exact absurd hkey (ledger.accountKey_ne_supplyKey address)
  | account address balance hbalance hwidth => exact ⟨balance, hbalance, hwidth, rfl⟩

/-! ## Reading -/

theorem Canonical.supply_bounds (h : ledger.Canonical store) :
    0 ≤ ledger.supplyIn store ∧ width (ledger.supplyIn store) ≤ integerWidth := by
  unfold supplyIn
  rcases hrecord : store.get? ledger.supplyKey with _ | record
  · exact ⟨Int.le_refl 0, by decide +kernel⟩
  · obtain ⟨supply, hsupply, hwidth, rfl⟩ := (h _ _ hrecord rfl).eq_ofInt
    simp only [Record.toInt_ofInt]
    exact ⟨hsupply, hwidth⟩

theorem Canonical.balance_bounds (h : ledger.Canonical store) (address : List UInt8) :
    0 ≤ ledger.balanceIn store address ∧
      width (ledger.balanceIn store address) ≤ integerWidth := by
  unfold balanceIn
  rcases hrecord : store.get? (ledger.accountKey address) with _ | record
  · exact ⟨Int.le_refl 0, by decide +kernel⟩
  · obtain ⟨balance, hbalance, hwidth, rfl⟩ := (h _ _ hrecord rfl).eq_ofBalance
    simp only [Record.balance_ofBalance hwidth]
    exact ⟨hbalance, hwidth⟩

/-- What is left of a balance that covers the amount is no wider than the balance. -/
theorem Canonical.width_balance_sub (h : ledger.Canonical store) (hamount : 0 ≤ amount)
    (hle : amount ≤ ledger.balanceIn store address) :
    width (ledger.balanceIn store address - amount) ≤ integerWidth :=
  width_le_of_le (Int.sub_nonneg_of_le hle) (Int.sub_le_self _ hamount) (h.balance_bounds address).2

theorem Canonical.width_supply_sub (h : ledger.Canonical store) (hamount : 0 ≤ amount)
    (hle : amount ≤ ledger.supplyIn store) :
    width (ledger.supplyIn store - amount) ≤ integerWidth :=
  width_le_of_le (Int.sub_nonneg_of_le hle) (Int.sub_le_self _ hamount) h.supply_bounds.2

/-- A machine reads the balance on record, or its limits forbid that. -/
theorem Canonical.balance_cases (h : ledger.Canonical machine.store) (address : List UInt8) :
    ledger.balance address machine = .ok (ledger.balanceIn machine.store address) ∨
      ∃ error, ledger.balance address machine = .error error := by
  unfold balance balanceIn Machine.account?
  rcases hrecord : machine.store.get? (ledger.accountKey address) with _ | record
  · exact .inl rfl
  · obtain ⟨balance, hbalance, hwidth, rfl⟩ := (h _ _ hrecord rfl).eq_ofBalance
    rcases Account.ofRecord_ofBalance_cases machine.limits hwidth with hread | ⟨error, hread⟩
    · left
      simp only [hread, Record.balance_ofBalance hwidth]
      rfl
    · right
      simp only [hread]
      exact ⟨error, rfl⟩

/-! ## Writing -/

theorem Canonical.set (h : ledger.Canonical store) (hwritten : ledger.Written key record) :
    ledger.Canonical (store.set key record) := by
  intro other found hfound howner
  rw [Store.get?_set] at hfound
  split at hfound
  · next hkey =>
    cases hfound
    rwa [hkey]
  · exact h other found hfound howner

/-- The store with a debit on record. -/
theorem Canonical.debited (h : ledger.Canonical store) (hamount : 0 ≤ amount)
    (hle : amount ≤ ledger.balanceIn store address) :
    ledger.Canonical (store.set (ledger.accountKey address)
      (.ofBalance (ledger.balanceIn store address - amount))) :=
  h.set (.account address _ (Int.sub_nonneg_of_le hle) (h.width_balance_sub hamount hle))

theorem exec_put_written (h : ledger.Canonical machine.store) (howner : key.owner = ledger.owner)
    (record : Record) :
    (Run.put key record).exec machine = (.ok (), machine.withRecord key record) := by
  rw [exec_put, Store.put_eq_ok fun old hold => (h key old hold howner).not_constant]
  rfl

theorem exec_setSupply (h : ledger.Canonical machine.store) (value : Int) :
    (ledger.setSupply value).exec machine =
      (.ok (), machine.withRecord ledger.supplyKey (.ofInt value)) :=
  exec_put_written h rfl _

theorem putAccount_cases (h : ledger.Canonical machine.store) (address : List UInt8)
    (balance : Int) :
    (∃ error, (Run.putAccount (ledger.accountKey address) ⟨balance⟩).exec machine =
        (.error error, machine)) ∨
      width balance ≤ integerWidth ∧
        (Run.putAccount (ledger.accountKey address) ⟨balance⟩).exec machine =
          (.ok (), machine.withRecord (ledger.accountKey address) (.ofBalance balance)) := by
  rw [exec_putAccount]
  rcases hrecord : Account.toRecord ⟨balance⟩ machine.budget machine.limits with error | record
  · exact .inl ⟨error, rfl⟩
  · obtain ⟨hwidth, -, -, -, rfl⟩ := Account.toRecord_eq_ok_iff.mp hrecord
    exact .inr ⟨hwidth, exec_put_written h rfl _⟩

/-! ## Operations, step by step -/

theorem exec_credit (ledger : Ledger) (address : List UInt8) (amount : Int) (machine : Machine) :
    (ledger.credit address amount).exec machine =
      match checkAmount amount with
      | .error error => (.error error, machine)
      | .ok () =>
        match ledger.balance address machine with
        | .error error => (.error error, machine)
        | .ok balance =>
          match checkWidth .balance (balance + amount) with
          | .error error => (.error error, machine)
          | .ok () =>
            (Run.putAccount (ledger.accountKey address) ⟨balance + amount⟩).exec machine := by
  simp only [credit, exec_bind, exec_lift, exec_get]
  rcases checkAmount amount with error | _
  · rfl
  · dsimp only
    rcases ledger.balance address machine with error | balance
    · rfl
    · dsimp only
      rcases checkWidth .balance (balance + amount) with error | _ <;> rfl

theorem exec_debit (ledger : Ledger) (address : List UInt8) (amount : Int) (machine : Machine) :
    (ledger.debit address amount).exec machine =
      match checkAmount amount with
      | .error error => (.error error, machine)
      | .ok () =>
        match ledger.balance address machine with
        | .error error => (.error error, machine)
        | .ok balance =>
          if balance < amount then
            (.error (.violation (.insufficientBalance balance amount)), machine)
          else if amount = 0 ∧ ¬machine.store.contains (ledger.accountKey address) then
            (.ok (), machine)
          else (Run.putAccount (ledger.accountKey address) ⟨balance - amount⟩).exec machine := by
  simp only [debit, exec_bind, exec_lift, exec_get]
  rcases checkAmount amount with error | _
  · rfl
  · dsimp only
    rcases ledger.balance address machine with error | balance
    · rfl
    · dsimp only
      by_cases hlack : balance < amount
      · simp only [hlack, if_true, exec_bind, exec_throw]
      · simp only [hlack, if_false, exec_bind, exec_get]
        split <;> rfl

theorem exec_mint (ledger : Ledger) (address : List UInt8) (amount : Int) (machine : Machine) :
    (ledger.mint address amount).exec machine =
      match checkAmount amount with
      | .error error => (.error error, machine)
      | .ok () =>
        match checkWidth .supply (ledger.supply machine + amount) with
        | .error error => (.error error, machine)
        | .ok () =>
          (ledger.credit address amount >>= fun _ =>
            ledger.setSupply (ledger.supply machine + amount)).exec machine := by
  simp only [mint, exec_bind, exec_lift, exec_get]
  rcases checkAmount amount with error | _
  · rfl
  · dsimp only
    rcases checkWidth .supply (ledger.supply machine + amount) with error | _ <;> rfl

theorem exec_burn (ledger : Ledger) (address : List UInt8) (amount : Int) (machine : Machine) :
    (ledger.burn address amount).exec machine =
      match (ledger.debit address amount).exec machine with
      | (.error error, after) => (.error error, after)
      | (.ok (), after) =>
        if ledger.supply after < amount then
          (.error (.violation (.negativeSupply (ledger.supply after - amount))), after)
        else (ledger.setSupply (ledger.supply after - amount)).exec after := by
  simp only [burn, exec_bind, exec_get]
  rcases (ledger.debit address amount).exec machine with ⟨error | _, after⟩
  · rfl
  · dsimp only
    have hnegative : ledger.supply after - amount < 0 ↔ ledger.supply after < amount := by omega
    simp only [hnegative]
    split
    · rfl
    · rfl

/-! ## Operations, from their outcome -/

theorem checkAmount_eq_ok_iff : checkAmount amount = .ok () ↔ 0 ≤ amount := by
  unfold checkAmount
  split
  · next h => simp [Int.not_le.mpr h]
  · next h => simp [Int.not_lt.mp h]

theorem checkWidth_eq_ok_iff {kind : Amount} {value : Int} :
    checkWidth kind value = .ok () ↔ width value ≤ integerWidth := by
  unfold checkWidth
  by_cases h : integerWidth < width value
  · simp [h, Nat.not_le_of_lt h]
  · simp [h, Nat.le_of_not_lt h]

theorem credit_cases (h : ledger.Canonical machine.store) (address : List UInt8) (amount : Int) :
    (∃ error, (ledger.credit address amount).exec machine = (.error error, machine)) ∨
      0 ≤ amount ∧ width (ledger.balanceIn machine.store address + amount) ≤ integerWidth ∧
        (ledger.credit address amount).exec machine =
          (.ok (), machine.withRecord (ledger.accountKey address)
            (.ofBalance (ledger.balanceIn machine.store address + amount))) := by
  rw [exec_credit]
  rcases hamount : checkAmount amount with error | _
  · exact .inl ⟨error, rfl⟩
  rcases h.balance_cases address with hread | ⟨error, hread⟩
  · rw [hread]
    dsimp only
    rcases hwidth : checkWidth .balance (ledger.balanceIn machine.store address + amount) with
      error | _
    · exact .inl ⟨error, rfl⟩
    · rcases putAccount_cases h address (ledger.balanceIn machine.store address + amount) with
        hput | ⟨-, hput⟩
      · exact .inl hput
      · exact .inr ⟨checkAmount_eq_ok_iff.mp hamount, checkWidth_eq_ok_iff.mp hwidth, hput⟩
  · rw [hread]
    exact .inl ⟨error, rfl⟩

theorem debit_cases (h : ledger.Canonical machine.store) (address : List UInt8) (amount : Int) :
    (∃ error, (ledger.debit address amount).exec machine = (.error error, machine)) ∨
      amount = 0 ∧ (ledger.debit address amount).exec machine = (.ok (), machine) ∨
      0 ≤ amount ∧ amount ≤ ledger.balanceIn machine.store address ∧
        (ledger.debit address amount).exec machine =
          (.ok (), machine.withRecord (ledger.accountKey address)
            (.ofBalance (ledger.balanceIn machine.store address - amount))) := by
  rw [exec_debit]
  rcases hamount : checkAmount amount with error | _
  · exact .inl ⟨error, rfl⟩
  rcases h.balance_cases address with hread | ⟨error, hread⟩
  · rw [hread]
    dsimp only
    split
    · exact .inl ⟨_, rfl⟩
    · next hlack =>
      split
      · next hnothing => exact .inr (.inl ⟨hnothing.1, rfl⟩)
      · rcases putAccount_cases h address (ledger.balanceIn machine.store address - amount) with
          hput | ⟨-, hput⟩
        · exact .inl hput
        · exact .inr (.inr ⟨checkAmount_eq_ok_iff.mp hamount, Int.not_lt.mp hlack, hput⟩)
  · rw [hread]
    exact .inl ⟨error, rfl⟩

/-- The store with both records of a change. -/
def posted (ledger : Ledger) (store : Store) (address : List UInt8) (amount : Int) : Store :=
  (store.set (ledger.accountKey address) (.ofBalance (ledger.balanceIn store address + amount))).set
    ledger.supplyKey (.ofInt (ledger.supplyIn store + amount))

theorem supplyIn_set_accountKey :
    ledger.supplyIn (store.set (ledger.accountKey address) record) = ledger.supplyIn store := by
  rw [supplyIn, Store.get?_set_of_ne (ledger.accountKey_ne_supplyKey address).symm]
  rfl

/-- A debit that wrote its record leaves the supply on record as it was. -/
theorem supply_withRecord_accountKey (ledger : Ledger) (machine : Machine) (address : List UInt8)
    (record : Record) :
    ledger.supply (machine.withRecord (ledger.accountKey address) record) =
      ledger.supplyIn machine.store := supplyIn_set_accountKey

theorem supplyIn_posted (ledger : Ledger) (store : Store) (address : List UInt8) (amount : Int) :
    ledger.supplyIn (ledger.posted store address amount) = ledger.supplyIn store + amount := by
  rw [supplyIn, posted, Store.get?_set_self]
  exact Record.toInt_ofInt _

theorem balanceIn_posted (hwidth : width (ledger.balanceIn store address + amount) ≤ integerWidth)
    (found : List UInt8) :
    ledger.balanceIn (ledger.posted store address amount) found =
      ledger.balanceIn store found + if address = found then amount else 0 := by
  rw [balanceIn, posted, Store.get?_set_of_ne (ledger.accountKey_ne_supplyKey found)]
  by_cases h : address = found
  · subst h
    rw [if_pos rfl, Store.get?_set_self]
    exact Record.balance_ofBalance hwidth
  · have hne : ledger.accountKey found ≠ ledger.accountKey address :=
      fun heq => h (ledger.accountKey_injective heq).symm
    rw [if_neg h, Int.add_zero, Store.get?_set_of_ne hne, balanceIn]

theorem mint_cases (h : ledger.Canonical machine.store) (address : List UInt8) (amount : Int) :
    (∃ error, (ledger.mint address amount).exec machine = (.error error, machine)) ∨
      0 ≤ amount ∧ width (ledger.balanceIn machine.store address + amount) ≤ integerWidth ∧
        width (ledger.supplyIn machine.store + amount) ≤ integerWidth ∧
        (ledger.mint address amount).exec machine =
          (.ok (), { machine with store := ledger.posted machine.store address amount }) := by
  rw [exec_mint, supply_eq]
  rcases hamount : checkAmount amount with error | _
  · exact .inl ⟨error, rfl⟩
  dsimp only
  rcases hwidth : checkWidth .supply (ledger.supplyIn machine.store + amount) with error | _
  · exact .inl ⟨error, rfl⟩
  dsimp only
  rcases credit_cases h address amount with ⟨error, hcredit⟩ | ⟨hpositive, hbalance, hcredit⟩
  · exact .inl ⟨error, exec_bind_error _ hcredit⟩
  · refine .inr ⟨hpositive, hbalance, checkWidth_eq_ok_iff.mp hwidth, ?_⟩
    have hsum : 0 ≤ ledger.balanceIn machine.store address + amount :=
      Int.add_nonneg (h.balance_bounds address).1 hpositive
    rw [exec_bind_ok _ hcredit, exec_setSupply (h.set (.account _ _ hsum hbalance))]
    rfl

theorem burn_cases (h : ledger.Canonical machine.store) (address : List UInt8) (amount : Int) :
    (∃ error, (ledger.burn address amount).exec machine = (.error error, machine)) ∨
      amount = 0 ∧ (ledger.burn address amount).exec machine =
        (.ok (), machine.withRecord ledger.supplyKey (.ofInt (ledger.supplyIn machine.store))) ∨
      0 ≤ amount ∧ amount ≤ ledger.balanceIn machine.store address ∧
        ledger.supplyIn machine.store < amount ∧
        (ledger.burn address amount).exec machine =
          (.error (.violation (.negativeSupply (ledger.supplyIn machine.store - amount))),
            machine.withRecord (ledger.accountKey address)
              (.ofBalance (ledger.balanceIn machine.store address - amount))) ∨
      0 ≤ amount ∧ amount ≤ ledger.balanceIn machine.store address ∧
        amount ≤ ledger.supplyIn machine.store ∧
        (ledger.burn address amount).exec machine =
          (.ok (), { machine with store := ledger.posted machine.store address (-amount) }) := by
  rw [exec_burn]
  rcases debit_cases h address amount with
    ⟨error, hdebit⟩ | ⟨rfl, hdebit⟩ | ⟨hpositive, hbalance, hdebit⟩
  · rw [hdebit]
    exact .inl ⟨error, rfl⟩
  · rw [hdebit]
    dsimp only
    rw [supply_eq, if_neg (Int.not_lt.mpr h.supply_bounds.1), exec_setSupply h, Int.sub_zero]
    exact .inr (.inl ⟨rfl, rfl⟩)
  · rw [hdebit]
    dsimp only
    rw [supply_withRecord_accountKey]
    split
    · next hlack => exact .inr (.inr (.inl ⟨hpositive, hbalance, hlack, rfl⟩))
    · next hlack =>
      refine .inr (.inr (.inr ⟨hpositive, hbalance, Int.not_lt.mp hlack, ?_⟩))
      rw [exec_setSupply (h.debited hpositive hbalance), posted, ← Int.sub_eq_add_neg,
        ← Int.sub_eq_add_neg]
      rfl

/-! ## The form of the records is kept -/

theorem Canonical.posted (h : ledger.Canonical store)
    (hbalance : 0 ≤ ledger.balanceIn store address + amount)
    (hwidth : width (ledger.balanceIn store address + amount) ≤ integerWidth)
    (hsupply : 0 ≤ ledger.supplyIn store + amount)
    (hsupplyWidth : width (ledger.supplyIn store + amount) ≤ integerWidth) :
    ledger.Canonical (ledger.posted store address amount) :=
  (h.set (.account address _ hbalance hwidth)).set (.supply _ hsupply hsupplyWidth)

/-! ## Records of other owners

Whatever a store holds, a ledger writes at its owner's keys only. -/

/-- Records of one owner can be written without losing the property. -/
def AllowsWrites (ledger : Ledger) (p : Machine → Prop) : Prop :=
  ∀ machine key record, key.owner = ledger.owner → p machine → p (machine.withRecord key record)

section

variable {p : Machine → Prop}

theorem keeps_put_of_allowsWrites (h : ledger.AllowsWrites p) (howner : key.owner = ledger.owner)
    (record : Record) : Keeps p (Run.put key record) := by
  intro machine hp
  rcases exec_put_cases key record machine with hput | ⟨error, hput⟩ <;> rw [hput]
  · exact h machine key record howner hp
  · exact hp

theorem keeps_credit (hput : ∀ record, Keeps p (Run.put (ledger.accountKey address) record))
    (amount : Int) : Keeps p (ledger.credit address amount) := by
  intro machine hp
  rw [exec_credit]
  split
  · exact hp
  · split
    · exact hp
    · split
      · exact hp
      · exact keeps_putAccount hput _ machine hp

theorem keeps_debit (hput : ∀ record, Keeps p (Run.put (ledger.accountKey address) record))
    (amount : Int) : Keeps p (ledger.debit address amount) := by
  intro machine hp
  rw [exec_debit]
  split
  · exact hp
  · split
    · exact hp
    · split
      · exact hp
      · split
        · exact hp
        · exact keeps_putAccount hput _ machine hp

theorem keeps_credit_of_allowsWrites (h : ledger.AllowsWrites p) (address : List UInt8)
    (amount : Int) : Keeps p (ledger.credit address amount) :=
  keeps_credit (keeps_put_of_allowsWrites h rfl) amount

theorem keeps_debit_of_allowsWrites (h : ledger.AllowsWrites p) (address : List UInt8)
    (amount : Int) : Keeps p (ledger.debit address amount) :=
  keeps_debit (keeps_put_of_allowsWrites h rfl) amount

theorem keeps_mint_of_allowsWrites (h : ledger.AllowsWrites p) (address : List UInt8)
    (amount : Int) : Keeps p (ledger.mint address amount) := by
  have hcredit := keeps_credit_of_allowsWrites h address amount
  intro machine hp
  rw [exec_mint]
  split
  · exact hp
  · split
    · exact hp
    · exact (hcredit.bind fun _ => keeps_put_of_allowsWrites h rfl _) machine hp

theorem keeps_burn_of_allowsWrites (h : ledger.AllowsWrites p) (address : List UInt8)
    (amount : Int) : Keeps p (ledger.burn address amount) := by
  intro machine hp
  have hafter := keeps_debit_of_allowsWrites h address amount machine hp
  rw [exec_burn]
  split
  · next hexec =>
    rw [hexec] at hafter
    exact hafter
  · next hexec =>
    rw [hexec] at hafter
    split
    · exact hafter
    · exact keeps_put_of_allowsWrites h rfl _ _ hafter

end

end Ledger

end NativeContracts
