import NativeContracts.Proofs.Minting

/-! What a credit, a debit and a mint come to, whatever else the store holds. With room for an
account's record each goes through under one condition on its amount, and rewrites the records
it is about. Whatever the room, one that fails leaves the machine as it was. -/

namespace NativeContracts

open Run TwosComplement

variable {machine : Machine}

/-- An execution's budget is the stack size of its limits, so one with two references to spare
and limits for whole integers and their accounts has room for a record. -/
theorem Machine.HasRoom.of_free (hlimit : machine.budget.limit = machine.limits.maxStackSize)
    (hfree : machine.budget.count + 2 ≤ machine.budget.limit)
    (hinteger : 32 ≤ machine.limits.maxIntegerSize) (hitem : 36 ≤ machine.limits.maxItemSize) :
    machine.HasRoom :=
  ⟨hfree, hlimit ▸ Nat.le_trans (Nat.le_add_left 2 _) hfree, hinteger, hitem⟩

/-- No constant record is in the way of a write. -/
def Store.Writable (store : Store) (key : Key) : Prop :=
  ∀ record, store.get? key = some record → record.isConstant = false

/-- A record at another key is not in the way. -/
theorem Store.Writable.set_of_ne {store : Store} {key other : Key} (h : store.Writable key)
    (hne : key ≠ other) (record : Record) : (store.set other record).Writable key := by
  intro old hold
  exact h old (Store.get?_set_of_ne hne ▸ hold)

namespace Run

variable {α : Type} {x : Run Unit} {condition : Prop}

/-- The run goes through exactly if the condition holds. It leaves `after` then, and otherwise
the machine as it was. -/
structure Decides (x : Run Unit) (machine : Machine) (condition : Prop) (after : Machine) :
    Prop where
  succeeds : condition → x.exec machine = (.ok (), after)
  fails : ¬condition → ∃ error, x.exec machine = (.error error, machine)

/-- A run that fails leaves the machine as it was. -/
def FailsCleanly (x : Run α) (machine : Machine) : Prop :=
  ∀ error after, x.exec machine = (.error error, after) → after = machine

theorem failsCleanly_put (key : Key) (record : Record) (machine : Machine) :
    (put key record).FailsCleanly machine := by
  intro error after h
  rcases exec_put_cases key record machine with hput | ⟨found, hput⟩ <;>
    cases hput.symm.trans h
  rfl

theorem failsCleanly_putAccount (key : Key) (account : Account) (machine : Machine) :
    (putAccount key account).FailsCleanly machine := by
  intro error after h
  rw [exec_putAccount] at h
  split at h
  · cases h
    rfl
  · exact failsCleanly_put key _ machine error after h

end Run

namespace Ledger

variable {ledger : Ledger} {address : List UInt8} {amount balance : Int}

/-! ## Success -/

theorem width_le_of_balance (h : ledger.balance address machine = .ok balance) :
    width balance ≤ integerWidth := by
  unfold Ledger.balance Machine.account? at h
  rcases hrecord : machine.store.get? (ledger.accountKey address) with _ | record <;>
    rw [hrecord] at h
  · cases h
    decide +kernel
  · rcases hread : Account.ofRecord machine.limits record with error | account
    · simp only [hread] at h
      cases h
    · simp only [hread] at h
      cases h
      exact Account.width_le_of_ofRecord hread

/-- What is on record for an account can be read back. -/
theorem balance_withRecord (hroom : machine.HasRoom) (hwidth : width balance ≤ integerWidth) :
    ledger.balance address
      (machine.withRecord (ledger.accountKey address) (.ofBalance balance)) = .ok balance := by
  have hbytes := Nat.le_trans (Account.length_integerBytes_le balance) hwidth
  have hread : Account.ofRecord machine.limits (.ofBalance balance) = .ok ⟨balance⟩ :=
    Account.ofRecord_ofBalance_of_le hroom.stack (Nat.le_trans hbytes hroom.integer) hwidth
  simp only [Ledger.balance, Machine.account?, Machine.withRecord, Store.get?_set_self, hread]
  rfl

theorem decides_credit (hroom : machine.HasRoom)
    (hkey : machine.store.Writable (ledger.accountKey address))
    (hbalance : ledger.balance address machine = .ok balance) (hpositive : 0 ≤ balance) :
    (ledger.credit address amount).Decides machine (0 ≤ amount ∧ balance + amount ≤ 2 ^ 255 - 1)
      (machine.withRecord (ledger.accountKey address) (.ofBalance (balance + amount))) where
  succeeds := by
    intro h
    have hwidth : width (balance + amount) ≤ integerWidth :=
      (width_le_integerWidth_iff (Int.add_nonneg hpositive h.1)).mpr h.2
    rw [exec_credit, checkAmount_eq_ok_iff.mpr h.1, hbalance]
    dsimp only
    rw [checkWidth_eq_ok_iff.mpr hwidth]
    exact exec_putAccount_ok hroom hkey hwidth
  fails := by
    intro h
    rw [exec_credit, hbalance]
    rcases hamount : checkAmount amount with error | _
    · exact ⟨error, rfl⟩
    dsimp only
    rcases hwidth : checkWidth .balance (balance + amount) with error | _
    · exact ⟨error, rfl⟩
    · have hnonneg := checkAmount_eq_ok_iff.mp hamount
      refine absurd ⟨hnonneg, ?_⟩ h
      exact (width_le_integerWidth_iff (Int.add_nonneg hpositive hnonneg)).mp
        (checkWidth_eq_ok_iff.mp hwidth)

theorem decides_debit (hroom : machine.HasRoom)
    (hkey : machine.store.Writable (ledger.accountKey address))
    (hbalance : ledger.balance address machine = .ok balance) :
    (ledger.debit address amount).Decides machine (0 ≤ amount ∧ amount ≤ balance)
      (if amount = 0 ∧ ¬machine.store.contains (ledger.accountKey address) then machine
        else machine.withRecord (ledger.accountKey address) (.ofBalance (balance - amount))) where
  succeeds := by
    intro h
    rw [exec_debit, checkAmount_eq_ok_iff.mpr h.1, hbalance]
    dsimp only
    rw [if_neg (Int.not_lt.mpr h.2)]
    split
    · rfl
    · refine exec_putAccount_ok hroom hkey ?_
      exact width_le_of_le (Int.sub_nonneg_of_le h.2) (Int.sub_le_self _ h.1)
        (width_le_of_balance hbalance)
  fails := by
    intro h
    rw [exec_debit, hbalance]
    rcases hamount : checkAmount amount with error | _
    · exact ⟨error, rfl⟩
    dsimp only
    split
    · exact ⟨_, rfl⟩
    · next hlack =>
      exact absurd ⟨checkAmount_eq_ok_iff.mp hamount, Int.not_lt.mp hlack⟩ h

theorem decides_mint (hroom : machine.HasRoom)
    (hkey : machine.store.Writable (ledger.accountKey address))
    (hsupplyKey : machine.store.Writable ledger.supplyKey)
    (hbalance : ledger.balance address machine = .ok balance) (hpositive : 0 ≤ balance)
    (hsupply : 0 ≤ ledger.supply machine) :
    (ledger.mint address amount).Decides machine
      (0 ≤ amount ∧ ledger.supply machine + amount ≤ 2 ^ 255 - 1 ∧
        balance + amount ≤ 2 ^ 255 - 1)
      ((machine.withRecord (ledger.accountKey address) (.ofBalance (balance + amount))).withRecord
        ledger.supplyKey (.ofInt (ledger.supply machine + amount))) := by
  have hcredit : (ledger.credit address amount).Decides machine
      (0 ≤ amount ∧ balance + amount ≤ 2 ^ 255 - 1)
      (machine.withRecord (ledger.accountKey address) (.ofBalance (balance + amount))) :=
    decides_credit hroom hkey hbalance hpositive
  have hwidth : 0 ≤ amount → (width (ledger.supply machine + amount) ≤ integerWidth ↔
      ledger.supply machine + amount ≤ 2 ^ 255 - 1) :=
    fun hamount => width_le_integerWidth_iff (Int.add_nonneg hsupply hamount)
  constructor
  · intro h
    obtain ⟨hamount, htotal, hsum⟩ := h
    rw [exec_mint, checkAmount_eq_ok_iff.mpr hamount]
    dsimp only
    rw [checkWidth_eq_ok_iff.mpr ((hwidth hamount).mpr htotal)]
    dsimp only
    rw [exec_bind_ok _ (hcredit.succeeds ⟨hamount, hsum⟩), setSupply, exec_put, Store.put_eq_ok]
    · rfl
    · exact hsupplyKey.set_of_ne (ledger.accountKey_ne_supplyKey address).symm _
  · intro h
    rw [exec_mint]
    rcases hamount : checkAmount amount with error | _
    · exact ⟨error, rfl⟩
    dsimp only
    rcases htotal : checkWidth .supply (ledger.supply machine + amount) with error | _
    · exact ⟨error, rfl⟩
    dsimp only
    have hnonneg := checkAmount_eq_ok_iff.mp hamount
    obtain ⟨error, hexec⟩ := hcredit.fails fun hsum => h
      ⟨hnonneg, (hwidth hnonneg).mp (checkWidth_eq_ok_iff.mp htotal), hsum.2⟩
    exact ⟨error, exec_bind_error _ hexec⟩

/-! ## Failure -/

theorem failsCleanly_credit (ledger : Ledger) (address : List UInt8) (amount : Int)
    (machine : Machine) : (ledger.credit address amount).FailsCleanly machine := by
  intro error after h
  rw [exec_credit] at h
  split at h
  · cases h
    rfl
  · split at h
    · cases h
      rfl
    · split at h
      · cases h
        rfl
      · exact failsCleanly_putAccount _ _ machine error after h

theorem failsCleanly_debit (ledger : Ledger) (address : List UInt8) (amount : Int)
    (machine : Machine) : (ledger.debit address amount).FailsCleanly machine := by
  intro error after h
  rw [exec_debit] at h
  split at h
  · cases h
    rfl
  · split at h
    · cases h
      rfl
    · split at h
      · cases h
        rfl
      · split at h
        · cases h
        · exact failsCleanly_putAccount _ _ machine error after h

/-- Writing an account takes nothing out of the supply's way. -/
theorem keeps_writable_credit (ledger : Ledger) (address : List UInt8) (amount : Int) :
    Keeps (fun machine => machine.store.Writable ledger.supplyKey)
      (ledger.credit address amount) := by
  refine keeps_credit (fun record machine h => ?_) amount
  rcases exec_put_cases (ledger.accountKey address) record machine with hput | ⟨error, hput⟩ <;>
    rw [hput]
  · exact h.set_of_ne (ledger.accountKey_ne_supplyKey address).symm record
  · exact h

theorem failsCleanly_mint (h : machine.store.Writable ledger.supplyKey) (address : List UInt8)
    (amount : Int) : (ledger.mint address amount).FailsCleanly machine := by
  intro error after hexec
  rw [exec_mint] at hexec
  split at hexec
  · cases hexec
    rfl
  · split at hexec
    · cases hexec
      rfl
    · have hafter := keeps_writable_credit ledger address amount machine h
      rw [exec_bind] at hexec
      split at hexec
      · next middle hcredit =>
        -- The supply can be written once the account is.
        rw [hcredit] at hafter
        rw [setSupply, exec_put, Store.put_eq_ok hafter] at hexec
        cases hexec
      · next found middle hcredit =>
        cases hexec
        exact failsCleanly_credit ledger address amount machine _ _ hcredit

/-! ## The three operations -/

theorem balance_withRecord_supplyKey (ledger : Ledger) (address : List UInt8) (machine : Machine)
    (record : Record) :
    ledger.balance address (machine.withRecord ledger.supplyKey record) =
      ledger.balance address machine := by
  simp only [Ledger.balance, Machine.account?, Machine.withRecord,
    Store.get?_set_of_ne (ledger.accountKey_ne_supplyKey address)]

theorem supply_withRecord (ledger : Ledger) (machine : Machine) (supply : Int) :
    ledger.supply (machine.withRecord ledger.supplyKey (.ofInt supply)) = supply := by
  simp only [Ledger.supply, Machine.withRecord, Store.get?_set_self, Record.toInt_ofInt]

/-- The run is decided by the condition, and the machine after a success reads these numbers. -/
structure Posts (ledger : Ledger) (address : List UInt8) (x : Run Unit) (machine : Machine)
    (condition : Prop) (after : Machine) (balance supply : Int) : Prop where
  decides : x.Decides machine condition after
  balance_eq : condition → ledger.balance address after = .ok balance
  supply_eq : condition → ledger.supply after = supply

variable {supply : Int}

theorem posts_credit (hroom : machine.HasRoom)
    (hkey : machine.store.Writable (ledger.accountKey address))
    (hbalance : ledger.balance address machine = .ok balance) (hpositive : 0 ≤ balance) :
    ledger.Posts address (ledger.credit address amount) machine
      (0 ≤ amount ∧ balance + amount ≤ 2 ^ 255 - 1)
      (machine.withRecord (ledger.accountKey address) (.ofBalance (balance + amount)))
      (balance + amount) (ledger.supply machine) where
  decides := decides_credit hroom hkey hbalance hpositive
  balance_eq h := by
    have hsum := Int.add_nonneg hpositive h.1
    exact balance_withRecord hroom ((width_le_integerWidth_iff hsum).mpr h.2)
  supply_eq _ := supply_withRecord_accountKey ledger machine address _

theorem posts_debit (hroom : machine.HasRoom)
    (hkey : machine.store.Writable (ledger.accountKey address))
    (hbalance : ledger.balance address machine = .ok balance) :
    ledger.Posts address (ledger.debit address amount) machine (0 ≤ amount ∧ amount ≤ balance)
      (if amount = 0 ∧ ¬machine.store.contains (ledger.accountKey address) then machine
        else machine.withRecord (ledger.accountKey address) (.ofBalance (balance - amount)))
      (balance - amount) (ledger.supply machine) where
  decides := decides_debit hroom hkey hbalance
  balance_eq h := by
    split
    · next hnothing => rw [hbalance, hnothing.1, Int.sub_zero]
    · exact balance_withRecord hroom (width_le_of_le (Int.sub_nonneg_of_le h.2)
        (Int.sub_le_self _ h.1) (width_le_of_balance hbalance))
  supply_eq _ := by
    split
    · rfl
    · exact supply_withRecord_accountKey ledger machine address _

theorem posts_mint (hroom : machine.HasRoom)
    (hkey : machine.store.Writable (ledger.accountKey address))
    (hsupplyKey : machine.store.Writable ledger.supplyKey)
    (hbalance : ledger.balance address machine = .ok balance) (hpositive : 0 ≤ balance)
    (hsupply : 0 ≤ ledger.supply machine) :
    ledger.Posts address (ledger.mint address amount) machine
      (0 ≤ amount ∧ ledger.supply machine + amount ≤ 2 ^ 255 - 1 ∧
        balance + amount ≤ 2 ^ 255 - 1)
      ((machine.withRecord (ledger.accountKey address) (.ofBalance (balance + amount))).withRecord
        ledger.supplyKey (.ofInt (ledger.supply machine + amount)))
      (balance + amount) (ledger.supply machine + amount) where
  decides := decides_mint hroom hkey hsupplyKey hbalance hpositive hsupply
  balance_eq h := by
    have hsum := Int.add_nonneg hpositive h.1
    rw [balance_withRecord_supplyKey]
    exact balance_withRecord hroom ((width_le_integerWidth_iff hsum).mpr h.2.2)
  supply_eq _ := supply_withRecord ledger _ _

/-- Where neither the account nor the supply is constant on record, and there is room for a
record, each operation is decided by its amount: a credit by the sign and the new balance, a
debit by the sign and the balance, a mint by the sign, the new supply and the new balance.
Whatever the room, one that fails leaves the machine as it was. -/
theorem decided_by_amount (ledger : Ledger) (address : List UInt8) (amount : Int)
    (machine : Machine) (hkey : machine.store.Writable (ledger.accountKey address))
    (hsupplyKey : machine.store.Writable ledger.supplyKey) :
    (∀ balance supply : Int, ledger.balance address machine = .ok balance →
      ledger.supply machine = supply → 0 ≤ balance → 0 ≤ supply →
      machine.budget.limit = machine.limits.maxStackSize →
      machine.budget.count + 2 ≤ machine.budget.limit →
      32 ≤ machine.limits.maxIntegerSize → 36 ≤ machine.limits.maxItemSize →
        ledger.Posts address (ledger.credit address amount) machine
          (0 ≤ amount ∧ balance + amount ≤ 2 ^ 255 - 1)
          (machine.withRecord (ledger.accountKey address) (.ofBalance (balance + amount)))
          (balance + amount) supply ∧
        ledger.Posts address (ledger.debit address amount) machine
          (0 ≤ amount ∧ amount ≤ balance)
          (if amount = 0 ∧ ¬machine.store.contains (ledger.accountKey address) then machine
            else machine.withRecord (ledger.accountKey address) (.ofBalance (balance - amount)))
          (balance - amount) supply ∧
        ledger.Posts address (ledger.mint address amount) machine
          (0 ≤ amount ∧ supply + amount ≤ 2 ^ 255 - 1 ∧ balance + amount ≤ 2 ^ 255 - 1)
          ((machine.withRecord (ledger.accountKey address)
            (.ofBalance (balance + amount))).withRecord ledger.supplyKey
              (.ofInt (supply + amount)))
          (balance + amount) (supply + amount)) ∧
    (ledger.credit address amount).FailsCleanly machine ∧
    (ledger.debit address amount).FailsCleanly machine ∧
    (ledger.mint address amount).FailsCleanly machine := by
  refine ⟨?_, failsCleanly_credit ledger address amount machine,
    failsCleanly_debit ledger address amount machine, failsCleanly_mint hsupplyKey address amount⟩
  rintro balance supply hbalance rfl hpositive hsupply hlimit hfree hinteger hitem
  have hroom : machine.HasRoom := .of_free hlimit hfree hinteger hitem
  exact ⟨posts_credit hroom hkey hbalance hpositive, posts_debit hroom hkey hbalance,
    posts_mint hroom hkey hsupplyKey hbalance hpositive hsupply⟩

/-- A ledger's records in forms that it does not write them in, and two references to spare. -/
def nearlyFull (machine : Machine) : Machine :=
  { (machine.withRecord ⟨5, [11]⟩ { bytes := [5, 0] }).withRecord ⟨5, [20, 7]⟩ Account.spelled with
    budget := { limit := 2048, count := 2046 } }

theorem writable_nearlyFull {key : Key} (record : Record)
    (hget : (nearlyFull (.start .system)).store.get? key = some record)
    (hconstant : record.isConstant = false) :
    (nearlyFull (.start .system)).store.Writable key := by
  intro old hold
  cases hget.symm.trans hold
  exact hconstant

/-- The largest credit to three hundred, and one more. -/
theorem decided_by_amount_nearlyFull :
    ((credit ⟨5⟩ [7] (2 ^ 255 - 301)).exec (nearlyFull (.start .system))).1 = .ok () ∧
      (∃ error, (credit ⟨5⟩ [7] (2 ^ 255 - 300)).exec (nearlyFull (.start .system)) =
        (.error error, nearlyFull (.start .system))) ∧
      Ledger.balance ⟨5⟩ [7] ((mint ⟨5⟩ [7] 10).exec (nearlyFull (.start .system))).2 = .ok 310 ∧
      Ledger.supply ⟨5⟩ ((mint ⟨5⟩ [7] 10).exec (nearlyFull (.start .system))).2 = 15 := by
  have hkey : (nearlyFull (.start .system)).store.Writable (accountKey ⟨5⟩ [7]) :=
    writable_nearlyFull Account.spelled (by decide) rfl
  have hsupplyKey : (nearlyFull (.start .system)).store.Writable (supplyKey ⟨5⟩) :=
    writable_nearlyFull { bytes := [5, 0] } (by decide) rfl
  have hposts := fun amount =>
    (decided_by_amount ⟨5⟩ [7] amount (nearlyFull (.start .system)) hkey hsupplyKey).1
      300 5 (by decide +kernel) (by decide +kernel) (by decide) (by decide) rfl (by decide)
      (by decide) (by decide)
  obtain ⟨hmost, -, -⟩ := hposts (2 ^ 255 - 301)
  obtain ⟨hmore, -, -⟩ := hposts (2 ^ 255 - 300)
  obtain ⟨-, -, hmint⟩ := hposts 10
  refine ⟨?_, hmore.decides.fails (by decide), ?_, ?_⟩
  · rw [hmost.decides.succeeds (by decide)]
  · rw [hmint.decides.succeeds (by decide)]
    exact hmint.balance_eq (by decide)
  · rw [hmint.decides.succeeds (by decide)]
    exact hmint.supply_eq (by decide)

end Ledger

end NativeContracts
