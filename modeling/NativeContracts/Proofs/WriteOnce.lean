import Mathlib.Algebra.Order.Ring.Int
import NativeContracts.Proofs.Accounting
import NativeContracts.Proofs.Bookkeeping
import NativeContracts.Proofs.Tokens

/-! Constant records are written once. No operation of a machine and no procedure put together
from them, the operations of contracts among them, changes a constant record or takes it away;
writes at its key fail and leave the machine as it is. At any other key writes do to the store
what they do to a finite map. -/

namespace NativeContracts

open Run

variable {machine first later : Machine} {key : Key} {record : Record} {α : Type}

/-! ## Stores under the operations of a machine -/

/-- A property of the store is kept by all operations if it is kept by those that write. -/
theorem keptByOperations_store {q : Store → Prop}
    (hput : ∀ key record, Keeps (fun machine => q machine.store) (put key record))
    (hremove : ∀ key, Keeps (fun machine => q machine.store) (remove key)) :
    KeptByOperations fun machine => q machine.store where
  load script machine hq := by
    rw [exec_load]
    split
    · exact hq
    · exact hq
  unload machine hq := by
    rw [exec_unload]
    split
    · exact hq
    · exact hq
  push := Token.keeps_push_store
  pop := Token.keeps_pop_store
  clear machine hq := by
    rw [exec_clear]
    split
    · exact hq
    · exact hq
  pushResult item machine hq := by
    rw [exec_pushResult]
    split
    · exact hq
    · exact hq
  popResult machine hq := by
    rw [exec_popResult]
    split
    · exact hq
    · exact hq
  clearResults machine hq := hq
  put := hput
  remove := hremove

/-- A constant record stays, whatever is done to the store. -/
theorem keptByOperations_constant (hconstant : record.isConstant = true) :
    KeptByOperations fun machine => machine.store.get? key = some record := by
  refine keptByOperations_store (q := fun store => store.get? key = some record) ?_ ?_
  · intro other value machine hget
    rw [exec_put]
    by_cases hkey : other = key
    · rw [hkey, Store.put_eq_error hget hconstant]
      exact hget
    · rcases machine.store.put_cases other value with hput | ⟨error, hput⟩
      · rw [hput]
        exact (Store.get?_set_of_ne (Ne.symm hkey)).trans hget
      · rw [hput]
        exact hget
  · intro other machine hget
    rw [exec_remove]
    by_cases hkey : other = key
    · rw [hkey, Store.remove_eq_error hget hconstant]
      exact hget
    · rcases machine.store.remove_cases other with hremove | ⟨error, hremove⟩
      · rw [hremove]
        exact (Store.get?_erase_of_ne (Ne.symm hkey)).trans hget
      · rw [hremove]
        exact hget

/-! ## Operations of tokens are procedures -/

namespace Procedure

theorem get : Procedure (get : Run Machine) := by
  simpa using inspect id

theorem lift (x : Except Error α) : Procedure (liftM x : Run α) := by
  rcases x with error | a
  · exact failure error
  · exact value a

/-- A check that fails, or goes on. -/
theorem check {p : Prop} [Decidable p] (error : Error) {rest : Run α} (hrest : Procedure rest) :
    Procedure (if p then (throw error : Run PUnit) >>= fun _ => rest else rest) := by
  split
  · exact (failure error).bind fun _ => hrest
  · exact hrest

theorem forM {xs : List α} {f : α → Run PUnit} (hf : ∀ a, Procedure (f a)) :
    Procedure (xs.forM f) := by
  induction xs with
  | nil => exact value _
  | cons x xs ih => exact (hf x).bind fun _ => ih

end Procedure

namespace Ledger

theorem procedure_credit (ledger : Ledger) (address : List UInt8) (amount : Int) :
    Procedure (ledger.credit address amount) :=
  (Procedure.lift _).bind fun _ => Procedure.get.bind fun _ => (Procedure.lift _).bind fun _ =>
    (Procedure.lift _).bind fun _ => .putAccount _ _

theorem procedure_debit (ledger : Ledger) (address : List UInt8) (amount : Int) :
    Procedure (ledger.debit address amount) := by
  refine (Procedure.lift _).bind fun _ => Procedure.get.bind fun _ =>
    (Procedure.lift _).bind fun balance => .check _ (Procedure.get.bind fun machine => ?_)
  split
  · exact .value _
  · exact .putAccount _ _

theorem procedure_mint (ledger : Ledger) (address : List UInt8) (amount : Int) :
    Procedure (ledger.mint address amount) :=
  (Procedure.lift _).bind fun _ => Procedure.get.bind fun _ => (Procedure.lift _).bind fun _ =>
    (ledger.procedure_credit address amount).bind fun _ => .put _ _

theorem procedure_burn (ledger : Ledger) (address : List UInt8) (amount : Int) :
    Procedure (ledger.burn address amount) :=
  (ledger.procedure_debit address amount).bind fun _ => Procedure.get.bind fun _ =>
    .check _ (.put _ _)

end Ledger

namespace Token

theorem procedure_seed (token : Token) : Procedure token.seed :=
  Procedure.get.bind fun _ => .check _ ((Procedure.put _ _).bind fun _ =>
    .forM fun grant => token.ledger.procedure_mint grant.address grant.amount)

theorem procedure_persist (token : Token) : Procedure token.persist := by
  rcases token.persist_cases with hnone | ⟨address, haddress, hreward⟩
  · rw [persist_eq_pure hnone]
    exact .value _
  · rw [persist_eq_mint haddress hreward]
    exact token.ledger.procedure_mint _ _

theorem procedure_body (token : Token) {method : Method} (hmethod : method ∈ token.methods.methods)
    {run : List Item → Run Item} (hhandler : method.handler = .body run) (arguments : List Item) :
    Procedure (run arguments) := by
  simp only [methods, List.mem_cons, List.not_mem_nil, or_false] at hmethod
  rcases hmethod with rfl | rfl | rfl | rfl | rfl | rfl
  · cases hhandler
  · cases hhandler
    exact .value _
  · cases hhandler
    exact .value _
  · cases hhandler
    exact .value _
  · cases hhandler
    exact Procedure.get.bind fun _ => .value _
  · cases hhandler
    exact (Procedure.lift _).bind fun address => Procedure.get.bind fun machine =>
      (Procedure.lift _).bind fun _ => .value _

end Token

/-! ## Runs -/

namespace Machine

/-- `first.Leads later`: procedures, one after another, lead from one machine to the other, which
is seen at the end of a procedure or on its way. -/
inductive Leads (first : Machine) : Machine → Prop where
  | refl : Leads first first
  | step {α : Type} {machine seen : Machine} {x : Run α} (h : Leads first machine)
      (hx : Visits x machine seen) : Leads first seen

theorem Leads.keeps {p : Machine → Prop} (hp : KeptByOperations p) (h : first.Leads later)
    (hfirst : p first) : p later := by
  induction h with
  | refl => exact hfirst
  | step _ hx ih => exact hx.keeps hp ih

theorem leads_after (machine : Machine) (token : Token) (operation : Token.Operation) :
    machine.Leads (operation.after token machine) := by
  have hrun : ∀ {α : Type} {x : Run α}, Procedure x → machine.Leads (x.exec machine).2 :=
    fun hx => .step .refl (.final hx)
  have hpersist : Procedure token.contract.persist := token.procedure_persist
  cases operation with
  | setUp => exact hrun (.setUp token.procedure_seed)
  | mint address amount => exact hrun (token.ledger.procedure_mint address amount)
  | burn address amount => exact hrun (token.ledger.procedure_burn address amount)
  | onPersist => exact hrun (.onPersist hpersist)
  | invoke =>
    refine hrun (.invoke ?_ hpersist)
    intro method hmethod run hhandler arguments
    exact token.procedure_body hmethod hhandler arguments

/-! ## Writes -/

/-- No write at the key gets through, and the machine stays as it is. An account that has no
record fails before the store is looked at. -/
structure Refuses (machine : Machine) (key : Key) : Prop where
  put : ∀ record,
    (Run.put key record).exec machine = (.error (.store (.constantChanged key)), machine)
  remove : (Run.remove key).exec machine = (.error (.store (.constantRemoved key)), machine)
  putAccount : ∀ account, (Run.putAccount key account).exec machine =
    match account.toRecord machine.budget machine.limits with
    | .ok _ => (.error (.store (.constantChanged key)), machine)
    | .error error => (.error error, machine)

/-- Writes at the key are those of a finite map, whose size changes by the key that is new or
gone. -/
structure Updates (machine : Machine) (key : Key) : Prop where
  put : ∀ record, ∃ store, (Run.put key record).exec machine = (.ok (), { machine with store }) ∧
    store.get? = Function.update machine.store.get? key (some record) ∧
    store.size = machine.store.size + if machine.store.contains key then 0 else 1
  remove : ∃ store, (Run.remove key).exec machine = (.ok (), { machine with store }) ∧
    store.get? = Function.update machine.store.get? key none ∧
    store.size + (if machine.store.contains key then 1 else 0) = machine.store.size
  putAccount : ∀ account, (Run.putAccount key account).exec machine =
    match account.toRecord machine.budget machine.limits with
    | .ok record => (Run.put key record).exec machine
    | .error error => (.error error, machine)

theorem refuses_of_constant (hget : machine.store.get? key = some record)
    (hconstant : record.isConstant = true) : machine.Refuses key := by
  have hput : ∀ value,
      (Run.put key value).exec machine = (.error (.store (.constantChanged key)), machine) := by
    intro value
    rw [exec_put, Store.put_eq_error hget hconstant]
  refine ⟨hput, ?_, fun account => ?_⟩
  · rw [exec_remove, Store.remove_eq_error hget hconstant]
  · rw [exec_putAccount]
    rcases account.toRecord machine.budget machine.limits with error | value
    · rfl
    · exact hput value

theorem updates_of_not_constant
    (h : ∀ record, machine.store.get? key = some record → record.isConstant = false) :
    machine.Updates key := by
  refine ⟨fun value => ⟨machine.store.set key value, ?_, ?_, Store.size_set _ _ _⟩,
    ⟨machine.store.erase key, ?_, ?_, Store.size_erase _ _⟩, fun account => ?_⟩
  · rw [exec_put, Store.put_eq_ok h]
  · funext other
    rw [Store.get?_set, Function.update_apply]
  · rw [exec_remove, Store.remove_eq_ok h]
  · funext other
    rw [Store.get?_erase, Function.update_apply]
  · rw [exec_putAccount]
    rcases account.toRecord machine.budget machine.limits with error | value
    · rfl
    · rfl

/-- A constant record is there for good, whatever procedures run, and refuses every write. Where
there is none, the store is a finite map. -/
theorem constant_for_good (machine : Machine) (key : Key) :
    (∀ record, machine.store.get? key = some record → record.isConstant = true →
      ∀ later, machine.Leads later →
        later.store.get? key = some record ∧ later.Refuses key) ∧
    ((∀ record, machine.store.get? key = some record → record.isConstant = false) →
      machine.Updates key) := by
  constructor
  · intro record hget hconstant later hleads
    have hlater := hleads.keeps (keptByOperations_constant hconstant) hget
    exact ⟨hlater, refuses_of_constant hlater hconstant⟩
  · exact updates_of_not_constant

def payee : List UInt8 := List.replicate 20 7

/-- A token that pays one account for every block. -/
def paying : Token where
  service := "Paying"
  settings := {
    id := 5, name := "Paying", symbol := "P", decimals := 0, reward := 5
    rewardAddress := some payee }

/-- The account's record, marked constant. -/
def sealedRecord : Record := { Record.ofBalance 10 with isConstant := true }

def sealedKey : Key := paying.ledger.accountKey payee

/-- The machine with the record in its store. -/
def withSealed (machine : Machine) : Machine := machine.withRecord sealedKey sealedRecord

/-- The reward cannot be paid, and the record stays. -/
theorem constant_for_good_paying :
    (paying.contract.onPersist.exec (withSealed (.start .system))).1 =
        .error (.store (.constantChanged sealedKey)) ∧
      (Token.Operation.onPersist.after paying (withSealed (.start .system))).store.get? sealedKey =
        some sealedRecord := by
  have hget : (withSealed (.start .system)).store.get? sealedKey = some sealedRecord :=
    Store.get?_set_self
  obtain ⟨hstays, -⟩ := (constant_for_good (withSealed (.start .system)) sealedKey).1 sealedRecord
    hget rfl _ ((withSealed (.start .system)).leads_after paying .onPersist)
  refine ⟨?_, hstays⟩
  decide +kernel

/-- An account without a record fails for what it lacks, not for the constant record. -/
theorem putAccount_constant_not_store :
    (withSealed (.start .system)).store.get? sealedKey = some sealedRecord ∧
      sealedRecord.isConstant = true ∧
      ((Run.putAccount sealedKey ⟨2 ^ 255⟩).exec (withSealed (.start .system))).1 =
        .error (.malformed (.balanceTooWide 33)) ∧
      ∀ fault, ((Run.putAccount sealedKey ⟨2 ^ 255⟩).exec (withSealed (.start .system))).1 ≠
        .error (.store fault) := by
  have hexec : ((Run.putAccount sealedKey ⟨2 ^ 255⟩).exec (withSealed (.start .system))).1 =
      .error (.malformed (.balanceTooWide 33)) := by decide +kernel
  refine ⟨Store.get?_set_self, rfl, hexec, fun fault hfault => ?_⟩
  rw [hexec] at hfault
  cases hfault

end Machine

end NativeContracts
