import NativeContracts.Machine

/-! The balances and the total supply of one token, kept as records of the token's
contract. Credits and debits change one balance; minting and burning change the
supply along with it. No amount is negative, and no balance or supply grows past
what an integer conversion reads. -/

namespace NativeContracts

structure Ledger where
  owner : Int32
  deriving DecidableEq

namespace Ledger

def supplyKey (ledger : Ledger) : Key := .tagged ledger.owner 11 []

def accountKey (ledger : Ledger) (address : List UInt8) : Key := .tagged ledger.owner 20 address

/-- The balance at an address, zero without a record. -/
def balance (ledger : Ledger) (address : List UInt8) (machine : Machine) : Except Error Int := do
  let account ← machine.account? (ledger.accountKey address)
  return (account.getD {}).balance

/-- The total supply, zero without a record. -/
def supply (ledger : Ledger) (machine : Machine) : Int :=
  match machine.store.get? ledger.supplyKey with
  | some record => record.toInt
  | none => 0

def isInitialized (ledger : Ledger) (machine : Machine) : Bool :=
  machine.store.contains ledger.supplyKey

def checkAmount (amount : Int) : Except Error Unit :=
  if amount < 0 then .error (.violation (.negativeAmount amount)) else .ok ()

def checkWidth (kind : Amount) (value : Int) : Except Error Unit :=
  let width := TwosComplement.width value
  if integerWidth < width then .error (.violation (.tooWide kind width)) else .ok ()

def setSupply (ledger : Ledger) (value : Int) : Run Unit :=
  Run.put ledger.supplyKey (.ofInt value)

/-- Adds to a balance, and makes the record if there is none. -/
def credit (ledger : Ledger) (address : List UInt8) (amount : Int) : Run Unit := do
  checkAmount amount
  let balance := (← ledger.balance address (← get)) + amount
  checkWidth .balance balance
  Run.putAccount (ledger.accountKey address) ⟨balance⟩

/-- Takes from a balance, which never goes below zero. Taking nothing from an address
without a record makes none. -/
def debit (ledger : Ledger) (address : List UInt8) (amount : Int) : Run Unit := do
  checkAmount amount
  let balance ← ledger.balance address (← get)
  if balance < amount then throw (.violation (.insufficientBalance balance amount))
  if amount = 0 ∧ ¬(← get).store.contains (ledger.accountKey address) then return
  Run.putAccount (ledger.accountKey address) ⟨balance - amount⟩

def mint (ledger : Ledger) (address : List UInt8) (amount : Int) : Run Unit := do
  checkAmount amount
  let supply := ledger.supply (← get) + amount
  checkWidth .supply supply
  ledger.credit address amount
  ledger.setSupply supply

def burn (ledger : Ledger) (address : List UInt8) (amount : Int) : Run Unit := do
  ledger.debit address amount
  let supply := ledger.supply (← get) - amount
  if supply < 0 then throw (.violation (.negativeSupply supply))
  ledger.setSupply supply

end Ledger

end NativeContracts
