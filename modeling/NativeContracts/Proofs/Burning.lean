import NativeContracts.Proofs.Conservation
import NativeContracts.Proofs.Representation

/-! Burning, all or nothing. A burn that succeeds takes its amount from one balance and from the
supply, which both cover it. One that fails leaves the store as it was, unless a balance was
credited past the supply: then the debit goes through, and the burn fails after it. Minted
balances never get past the supply. -/

namespace NativeContracts.Ledger

open Run TwosComplement

variable {ledger : Ledger} {machine after debited : Machine} {store : Store}
  {address : List UInt8} {amount : Int} {error : Error}

/-! ## Runs of a ledger -/

inductive Operation where
  | credit (address : List UInt8) (amount : Int)
  | debit (address : List UInt8) (amount : Int)
  | mint (address : List UInt8) (amount : Int)
  | burn (address : List UInt8) (amount : Int)

def Operation.run (ledger : Ledger) : Operation → Run Unit
  | credit address amount => ledger.credit address amount
  | debit address amount => ledger.debit address amount
  | mint address amount => ledger.mint address amount
  | burn address amount => ledger.burn address amount

/-- The stores that operations of the ledger lead to from the empty one, failed ones included.
Each operation runs on any machine that has the store. -/
inductive Arises (ledger : Ledger) : Store → Prop where
  | empty : Arises ledger {}
  | step {machine : Machine} (h : Arises ledger machine.store) (operation : Operation) :
      Arises ledger ((operation.run ledger).exec machine).2.store

theorem Arises.canonical (h : ledger.Arises store) : ledger.Canonical store := by
  induction h with
  | empty => exact .start fun key record hget => by cases hget
  | step _ operation ih =>
    cases operation with
    | credit address amount => exact keeps_canonical_credit ledger ledger address amount _ ih
    | debit address amount => exact keeps_canonical_debit ledger ledger address amount _ ih
    | mint address amount => exact keeps_canonical_mint ledger ledger address amount _ ih
    | burn address amount => exact keeps_canonical_burn ledger ledger address amount _ ih

/-! ## One burn -/

/-- The balance covers the amount, but the supply does not. -/
def Uncovered (ledger : Ledger) (store : Store) (address : List UInt8) (amount : Int) : Prop :=
  ledger.supplyIn store < amount ∧ amount ≤ ledger.balanceIn store address

/-- What a burn of the amount does to the numbers on record. -/
structure Burned (ledger : Ledger) (before later : Store) (address : List UInt8) (amount : Int) :
    Prop where
  nonneg : 0 ≤ amount
  le_balance : amount ≤ ledger.balanceIn before address
  le_supply : amount ≤ ledger.supplyIn before
  supply_eq : ledger.supplyIn later = ledger.supplyIn before - amount
  balance_eq : ∀ other, ledger.balanceIn later other =
    ledger.balanceIn before other - if address = other then amount else 0

theorem balanceIn_set_supplyKey (ledger : Ledger) (store : Store) (record : Record)
    (address : List UInt8) :
    ledger.balanceIn (store.set ledger.supplyKey record) address =
      ledger.balanceIn store address := by
  rw [balanceIn, Store.get?_set_of_ne (ledger.accountKey_ne_supplyKey address), balanceIn]

/-- Burning nothing. -/
theorem Canonical.burned_zero (h : ledger.Canonical store) (address : List UInt8) :
    ledger.Burned store
      (store.set ledger.supplyKey (.ofInt (ledger.supplyIn store))) address 0 where
  nonneg := Int.le_refl 0
  le_balance := (h.balance_bounds address).1
  le_supply := h.supply_bounds.1
  supply_eq := by
    rw [Int.sub_zero, supplyIn, Store.get?_set_self]
    exact Record.toInt_ofInt _
  balance_eq other := by
    rw [balanceIn_set_supplyKey]
    simp

theorem Canonical.burned_posted (h : ledger.Canonical store) (hamount : 0 ≤ amount)
    (hbalance : amount ≤ ledger.balanceIn store address)
    (hsupply : amount ≤ ledger.supplyIn store) :
    ledger.Burned store (ledger.posted store address (-amount)) address amount where
  nonneg := hamount
  le_balance := hbalance
  le_supply := hsupply
  supply_eq := supplyIn_posted ledger store address (-amount)
  balance_eq other := by
    rw [balanceIn_posted (h.width_balance_sub hamount hbalance)]
    split <;> omega

theorem Canonical.burned_of_ok (h : ledger.Canonical machine.store)
    (hexec : (ledger.burn address amount).exec machine = (.ok (), after)) :
    ledger.Burned machine.store after.store address amount := by
  rcases burn_cases h address amount with
    ⟨error, hburn⟩ | ⟨rfl, hburn⟩ | ⟨-, -, -, hburn⟩ | ⟨hamount, hbalance, hsupply, hburn⟩
  · cases hburn.symm.trans hexec
  · cases hburn.symm.trans hexec
    exact h.burned_zero address
  · cases hburn.symm.trans hexec
  · cases hburn.symm.trans hexec
    exact h.burned_posted hamount hbalance hsupply

theorem Canonical.burn_error (h : ledger.Canonical machine.store)
    (hexec : (ledger.burn address amount).exec machine = (.error error, after)) :
    after = machine ∨ ledger.Uncovered machine.store address amount ∧
      (ledger.debit address amount).exec machine = (.ok (), after) := by
  have hcanonical := keeps_canonical_debit ledger ledger address amount machine h
  rw [exec_burn] at hexec
  rcases debit_cases h address amount with
    ⟨_, hdebit⟩ | ⟨rfl, hdebit⟩ | ⟨-, hbalance, hdebit⟩ <;>
    rw [hdebit] at hexec hcanonical <;> dsimp only at hexec
  · cases hexec
    exact .inl rfl
  · rw [supply_eq, if_neg (Int.not_lt.mpr h.supply_bounds.1), exec_setSupply h] at hexec
    cases hexec
  · rw [supply_withRecord_accountKey] at hexec
    split at hexec
    · next hlack =>
      cases hexec
      exact .inr ⟨⟨hlack, hbalance⟩, hdebit⟩
    · rw [exec_setSupply hcanonical] at hexec
      cases hexec

/-- With the debit done, an amount past the supply makes the burn fail. -/
theorem Canonical.exec_burn_of_uncovered (h : ledger.Canonical machine.store)
    (hlack : ledger.Uncovered machine.store address amount)
    (hdebit : (ledger.debit address amount).exec machine = (.ok (), debited)) :
    (ledger.burn address amount).exec machine =
        (.error (.violation (.negativeSupply (ledger.supplyIn machine.store - amount))), debited) ∧
      ledger.balanceIn debited.store address = ledger.balanceIn machine.store address - amount := by
  have hsupply := h.supply_bounds.1
  have hpositive : 0 < amount := Int.lt_of_le_of_lt hsupply hlack.1
  rcases debit_cases h address amount with ⟨_, hcase⟩ | ⟨hzero, -⟩ | ⟨-, hbalance, hcase⟩
  · cases hcase.symm.trans hdebit
  · omega
  · cases hcase.symm.trans hdebit
    constructor
    · rw [exec_burn, hdebit]
      dsimp only
      rw [supply_withRecord_accountKey, if_pos hlack.1]
    · rw [balanceIn, Machine.withRecord, Store.get?_set_self]
      exact Record.balance_ofBalance (h.width_balance_sub (Int.le_of_lt hpositive) hbalance)

/-- No balance that tokens mint and burn gets past the supply. -/
theorem Balanced.not_uncovered (h : ledger.Balanced store) :
    ¬ledger.Uncovered store address amount := by
  intro hlack
  have hcover := h.balanceIn_le address
  obtain ⟨hsupply, hbalance⟩ := hlack
  omega

/-- Where only tokens did anything, a burn that fails does nothing. -/
theorem burn_error_of_reachable (h : ledger.Reachable machine.store)
    (hexec : (ledger.burn address amount).exec machine = (.error error, after)) :
    after = machine := by
  have hbalanced := h.balanced
  exact (hbalanced.canonical.burn_error hexec).resolve_right fun hlack =>
    hbalanced.not_uncovered hlack.1

/-- A burn takes the amount from a balance and a supply that cover it, or it leaves the machine as
it is, unless the balance covers the amount and the supply does not. Then the debit decides: once
it is done, the burn fails and leaves the account short. It never comes to that where only tokens
did anything. -/
theorem burn_all_or_nothing_unless_uncovered (h : ledger.Arises machine.store)
    (address : List UInt8) (amount : Int) :
    (∀ after, (ledger.burn address amount).exec machine = (.ok (), after) →
      ledger.Burned machine.store after.store address amount) ∧
    (∀ error after, (ledger.burn address amount).exec machine = (.error error, after) →
      after = machine ∨ ledger.Uncovered machine.store address amount ∧
        (ledger.debit address amount).exec machine = (.ok (), after)) ∧
    (ledger.Uncovered machine.store address amount → ∀ debited,
      (ledger.debit address amount).exec machine = (.ok (), debited) →
        (ledger.burn address amount).exec machine =
            (.error (.violation (.negativeSupply (ledger.supplyIn machine.store - amount))),
              debited) ∧
          ledger.balanceIn debited.store address =
            ledger.balanceIn machine.store address - amount) ∧
    (ledger.Reachable machine.store → ∀ error after,
      (ledger.burn address amount).exec machine = (.error error, after) → after = machine) := by
  have hcanonical := h.canonical
  refine ⟨fun after hexec => hcanonical.burned_of_ok hexec,
    fun error after hexec => hcanonical.burn_error hexec, ?_,
    fun hreachable error after hexec => burn_error_of_reachable hreachable hexec⟩
  intro hlack debited hdebit
  exact hcanonical.exec_burn_of_uncovered hlack hdebit

/-- The machine that an operation of one ledger leaves. -/
def leftBy (operation : Operation) (machine : Machine) : Machine :=
  ((operation.run ⟨5⟩).exec machine).2

theorem arises_leftBy (operation : Operation) :
    Arises ⟨5⟩ (leftBy operation (.start .application)).store := by
  have hstart : Arises ⟨5⟩ (Machine.start .application).store := .empty
  exact hstart.step operation

/-- Of ten that are minted, four can be burned, and eleven cannot. -/
theorem burn_all_or_nothing_minted :
    Arises ⟨5⟩ (leftBy (.mint [7] 10) (.start .application)).store ∧
      Burned ⟨5⟩ (leftBy (.mint [7] 10) (.start .application)).store
        ((burn ⟨5⟩ [7] 4).exec (leftBy (.mint [7] 10) (.start .application))).2.store [7] 4 ∧
      ((burn ⟨5⟩ [7] 11).exec (leftBy (.mint [7] 10) (.start .application))).2 =
        leftBy (.mint [7] 10) (.start .application) := by
  have harises := arises_leftBy (.mint [7] 10)
  refine ⟨harises, ?_, ?_⟩
  · refine (burn_all_or_nothing_unless_uncovered harises [7] 4).1 _ (Prod.ext ?_ rfl)
    decide +kernel
  · have hbalance : balanceIn ⟨5⟩ (leftBy (.mint [7] 10) (.start .application)).store [7] = 10 := by
      decide +kernel
    have hfails : ((burn ⟨5⟩ [7] 11).exec (leftBy (.mint [7] 10) (.start .application))).1 =
        .error (.violation (.insufficientBalance 10 11)) := by decide +kernel
    have herror := (burn_all_or_nothing_unless_uncovered harises [7] 11).2.1 _ _
      (Prod.ext hfails rfl)
    refine herror.resolve_right fun hlack => ?_
    have hcovers := hlack.1.2
    rw [hbalance] at hcovers
    omega

/-- Ten credited without a supply: a burn of four fails, and four are gone. -/
theorem burn_credited_leaves_debit :
    Arises ⟨5⟩ (leftBy (.credit [7] 10) (.start .application)).store ∧
      ((burn ⟨5⟩ [7] 4).exec (leftBy (.credit [7] 10) (.start .application))).1 =
        .error (.violation (.negativeSupply (-4))) ∧
      balanceIn ⟨5⟩ (leftBy (.credit [7] 10) (.start .application)).store [7] = 10 ∧
      balanceIn ⟨5⟩ ((burn ⟨5⟩ [7] 4).exec
        (leftBy (.credit [7] 10) (.start .application))).2.store [7] = 6 := by
  refine ⟨arises_leftBy _, ?_, ?_, ?_⟩
  · decide +kernel
  · decide +kernel
  · decide +kernel

end NativeContracts.Ledger
