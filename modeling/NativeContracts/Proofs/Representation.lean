import Mathlib.Algebra.Order.Ring.Int
import NativeContracts.Proofs.Accounts
import NativeContracts.Proofs.Bookkeeping
import NativeContracts.Proofs.Tokens

/-! The form of a ledger's records. From a store without records of the ledger's owner on,
whatever ledgers and tokens do, whether it succeeds or not and on whatever machines, the
owner has a supply record and account records only, each in its one form and within the
range of an integer conversion. Records once written stay, so that what an account holds
can always be read. -/

namespace NativeContracts.Ledger

open Run TwosComplement

variable {ledger other : Ledger} {machine : Machine} {first store later : Store}
  {address : List UInt8} {amount : Int} {key : Key} {record : Record}

/-! ## One operation -/

theorem Canonical.start (h : ∀ key record, store.get? key = some record →
    key.owner ≠ ledger.owner) : ledger.Canonical store :=
  fun key record hget howner => absurd howner (h key record hget)

theorem allowsWrites_canonical (h : other.owner ≠ ledger.owner) :
    other.AllowsWrites fun machine => ledger.Canonical machine.store := by
  intro machine key record hkey hcanonical found old hget howner
  have hne : found ≠ key := by
    rintro rfl
    exact h (hkey.symm.trans howner)
  exact hcanonical found old (Store.get?_set_of_ne hne ▸ hget) howner

theorem eq_or_owner_ne (ledger other : Ledger) : other = ledger ∨ other.owner ≠ ledger.owner := by
  by_cases h : other.owner = ledger.owner
  · left
    obtain ⟨owner⟩ := ledger
    exact congrArg Ledger.mk h
  · exact .inr h

theorem keeps_canonical_credit (ledger other : Ledger) (address : List UInt8) (amount : Int) :
    Keeps (fun machine => ledger.Canonical machine.store) (other.credit address amount) := by
  rcases ledger.eq_or_owner_ne other with rfl | hother
  · intro machine h
    have hbalance := h.balance_bounds address
    rcases credit_cases h address amount with ⟨error, hexec⟩ | ⟨hamount, hwidth, hexec⟩
    · rw [hexec]
      exact h
    · rw [hexec]
      exact h.set (.account address _ (by omega) hwidth)
  · exact keeps_credit_of_allowsWrites (allowsWrites_canonical hother) address amount

theorem keeps_canonical_debit (ledger other : Ledger) (address : List UInt8) (amount : Int) :
    Keeps (fun machine => ledger.Canonical machine.store) (other.debit address amount) := by
  rcases ledger.eq_or_owner_ne other with rfl | hother
  · intro machine h
    rcases debit_cases h address amount with ⟨error, hexec⟩ | ⟨-, hexec⟩ | ⟨hamount, hle, hexec⟩
    · rw [hexec]
      exact h
    · rw [hexec]
      exact h
    · rw [hexec]
      exact h.debited hamount hle
  · exact keeps_debit_of_allowsWrites (allowsWrites_canonical hother) address amount

theorem keeps_canonical_mint (ledger other : Ledger) (address : List UInt8) (amount : Int) :
    Keeps (fun machine => ledger.Canonical machine.store) (other.mint address amount) := by
  rcases ledger.eq_or_owner_ne other with rfl | hother
  · intro machine h
    have hbalance := h.balance_bounds address
    have hsupply := h.supply_bounds
    rcases mint_cases h address amount with ⟨error, hexec⟩ | ⟨hamount, hwidth, hsupplyWidth, hexec⟩
    · rw [hexec]
      exact h
    · rw [hexec]
      exact h.posted (by omega) hwidth (by omega) hsupplyWidth
  · exact keeps_mint_of_allowsWrites (allowsWrites_canonical hother) address amount

theorem keeps_canonical_burn (ledger other : Ledger) (address : List UInt8) (amount : Int) :
    Keeps (fun machine => ledger.Canonical machine.store) (other.burn address amount) := by
  rcases ledger.eq_or_owner_ne other with rfl | hother
  · intro machine h
    rcases burn_cases h address amount with
      ⟨error, hexec⟩ | ⟨-, hexec⟩ | ⟨hamount, hle, -, hexec⟩ | ⟨hamount, hle, hleSupply, hexec⟩
    · rw [hexec]
      exact h
    · rw [hexec]
      exact h.set (.supply _ h.supply_bounds.1 h.supply_bounds.2)
    · -- The debit is on record although the burn failed; it has the right form all the same.
      rw [hexec]
      exact h.debited hamount hle
    · rw [hexec]
      exact h.posted (Int.sub_nonneg_of_le hle) (h.width_balance_sub hamount hle)
        (Int.sub_nonneg_of_le hleSupply) (h.width_supply_sub hamount hleSupply)
  · exact keeps_burn_of_allowsWrites (allowsWrites_canonical hother) address amount

theorem Canonical.after (h : ledger.Canonical machine.store) (token : Token)
    (operation : Token.Operation) : ledger.Canonical (operation.after token machine).store := by
  refine operation.keeps ?_ (keeps_canonical_mint ledger _) (keeps_canonical_burn ledger _) h
  intro machine h _
  rcases ledger.eq_or_owner_ne token.ledger with heq | hother
  · rw [heq, exec_setSupply h]
    exact h.set (.supply 0 (Int.le_refl 0) (by decide +kernel))
  · exact keeps_put_of_allowsWrites (allowsWrites_canonical hother) rfl _ machine h

theorem allowsWrites_contains (ledger : Ledger) (key : Key) :
    ledger.AllowsWrites fun machine => machine.store.contains key = true :=
  fun _ _ _ _ h => Store.contains_set h

theorem contains_after (h : machine.store.contains key = true) (token : Token)
    (operation : Token.Operation) :
    (operation.after token machine).store.contains key = true := by
  have hwrites := token.ledger.allowsWrites_contains key
  exact operation.keeps (q := fun store => store.contains key = true)
    (fun machine h _ => keeps_put_of_allowsWrites hwrites rfl _ machine h)
    (keeps_mint_of_allowsWrites hwrites) (keeps_burn_of_allowsWrites hwrites) h

/-! ## Runs -/

/-- `Leads first last`: credits and debits of ledgers and operations of tokens lead from one
store to the other. Each runs on any machine that has the store. -/
inductive Leads (first : Store) : Store → Prop where
  | refl : Leads first first
  | credit {machine : Machine} (h : Leads first machine.store) (ledger : Ledger)
      (address : List UInt8) (amount : Int) :
      Leads first ((ledger.credit address amount).exec machine).2.store
  | debit {machine : Machine} (h : Leads first machine.store) (ledger : Ledger)
      (address : List UInt8) (amount : Int) :
      Leads first ((ledger.debit address amount).exec machine).2.store
  | operation {machine : Machine} (h : Leads first machine.store) (token : Token)
      (operation : Token.Operation) : Leads first (operation.after token machine).store

theorem Leads.canonical (h : Leads first store) (hfirst : ledger.Canonical first) :
    ledger.Canonical store := by
  induction h with
  | refl => exact hfirst
  | credit _ other address amount ih =>
    exact keeps_canonical_credit ledger other address amount _ ih
  | debit _ other address amount ih =>
    exact keeps_canonical_debit ledger other address amount _ ih
  | operation _ token operation ih => exact ih.after token operation

theorem Leads.contains (h : Leads first store) (hkey : first.contains key = true) :
    store.contains key = true := by
  induction h with
  | refl => exact hkey
  | credit _ other address amount ih =>
    exact keeps_credit_of_allowsWrites (other.allowsWrites_contains key) address amount _ ih
  | debit _ other address amount ih =>
    exact keeps_debit_of_allowsWrites (other.allowsWrites_contains key) address amount _ ih
  | operation _ token operation ih => exact contains_after ih token operation

/-! ## Reading the records -/

/-- What an integer conversion reads, as far as it is not negative. -/
theorem width_le_integerWidth_iff {n : Int} (h : 0 ≤ n) :
    width n ≤ integerWidth ↔ n ≤ 2 ^ 255 - 1 := by
  rw [width_le_integerWidth_iff_bounds]
  omega

theorem toInt_integer {n : Int} (h : width n ≤ integerWidth) : (Item.integer n).toInt = .ok n := by
  simp only [Item.toInt, Nat.not_lt_of_le h, if_false]

/-- A machine whose limits allow whole integers reads the balance on record. -/
theorem Canonical.balance_eq (h : ledger.Canonical machine.store)
    (hinteger : integerWidth ≤ machine.limits.maxIntegerSize)
    (hstack : 2 ≤ machine.limits.maxStackSize) (address : List UInt8) :
    ledger.balance address machine = .ok (ledger.balanceIn machine.store address) := by
  unfold balance balanceIn Machine.account?
  rcases hrecord : machine.store.get? (ledger.accountKey address) with _ | record
  · rfl
  · obtain ⟨balance, -, hwidth, rfl⟩ := (h _ _ hrecord rfl).eq_ofBalance
    have hfits := Nat.le_trans (Account.length_integerBytes_le balance) hwidth
    have hread := Account.ofRecord_ofBalance_of_le hstack (Nat.le_trans hfits hinteger) hwidth
    simp only [hread, Record.balance_ofBalance hwidth]
    rfl

/-- The form of an owner's records: a supply as its fewest bytes, or a balance as the stored
form of its account, either of them a number that is not negative and has at most 255 bits. -/
def HasForm (ledger : Ledger) (key : Key) (record : Record) : Prop :=
  record.isConstant = false ∧
    ((key = ⟨ledger.owner, [11]⟩ ∧ ∃ supply, 0 ≤ supply ∧ supply ≤ 2 ^ 255 - 1 ∧
        record.bytes = TwosComplement.encode supply ∧
        ∀ bytes, bytes ≠ [] → decode bytes = supply → record.bytes.length ≤ bytes.length) ∨
      ∃ address, key = ⟨ledger.owner, 20 :: address⟩ ∧ ∃ balance, 0 ≤ balance ∧
        balance ≤ 2 ^ 255 - 1 ∧ Item.encode {} (.struct [.integer balance]) = .ok record.bytes)

theorem Written.hasForm (h : ledger.Written key record) : ledger.HasForm key record := by
  refine ⟨h.not_constant, ?_⟩
  cases h with
  | supply supply hsupply hwidth =>
    refine .inl ⟨rfl, supply, hsupply, (width_le_integerWidth_iff hsupply).mp hwidth, rfl,
      fun bytes hne hbytes => ?_⟩
    rw [← hbytes]
    exact length_encode_decode_le hne
  | account address balance hbalance hwidth =>
    exact .inr ⟨address, rfl, balance, hbalance,
      (width_le_integerWidth_iff hbalance).mp hwidth, Account.encode_ofBalance hwidth⟩

/-- From a store without records of the owner on, all of the owner's records have their form,
no record is ever lost, and limits that allow whole integers allow to read them. -/
theorem stored_form_of_leads (hfirst : ∀ key record, first.get? key = some record →
      key.owner ≠ ledger.owner) (h : Leads first store) :
    (∀ key record, store.get? key = some record → key.owner = ledger.owner →
      ledger.HasForm key record) ∧
    (∀ later key, Leads store later → store.contains key = true → later.contains key = true) ∧
    ∀ machine : Machine, machine.store = store → 32 ≤ machine.limits.maxIntegerSize →
      2 ≤ machine.limits.maxStackSize →
      (∀ address, ∃ balance, ledger.balance address machine = .ok balance ∧
        (Item.integer balance).toInt = .ok balance) ∧
      (Item.integer (ledger.supply machine)).toInt = .ok (ledger.supply machine) := by
  have hcanonical := h.canonical (Canonical.start hfirst)
  refine ⟨fun key record hget howner => (hcanonical key record hget howner).hasForm,
    fun later key hlater => hlater.contains, ?_⟩
  rintro machine rfl hinteger hstack
  constructor
  · intro address
    exact ⟨_, hcanonical.balance_eq hinteger hstack address,
      toInt_integer (hcanonical.balance_bounds address).2⟩
  · exact toInt_integer hcanonical.supply_bounds.2

/-- A token that gives nothing to anyone. -/
def plain : Token where
  service := "Plain"
  settings := { id := 5, name := "Plain", symbol := "P", decimals := 0 }

/-- Ten credited without a supply. -/
def credited (machine : Machine) : Store := ((plain.ledger.credit [7] 10).exec machine).2.store

/-- A burn of four of them on another machine, which fails after its debit. -/
def creditThenBurn (machine : Machine) : Store :=
  (Token.Operation.after plain (.start .system (credited machine)) (.burn [7] 4)).store

theorem leads_creditThenBurn (machine : Machine) :
    Leads machine.store (creditThenBurn machine) := by
  have hstart : Leads machine.store machine.store := .refl
  have hcredited : Leads machine.store (Machine.start .system (credited machine)).store :=
    hstart.credit plain.ledger [7] 10
  exact hcredited.operation plain (.burn [7] 4)

theorem stored_form_creditThenBurn :
    Leads {} (creditThenBurn (.start .application)) ∧
      (creditThenBurn (.start .application)).get? ⟨5, [20, 7]⟩ =
        some { bytes := [0x41, 1, 0x21, 1, 6] } ∧
      plain.ledger.HasForm ⟨5, [20, 7]⟩ { bytes := [0x41, 1, 0x21, 1, 6] } ∧
      ∃ balance, plain.ledger.balance [7]
          (.start .system (creditThenBurn (.start .application))) = .ok balance ∧
        (Item.integer balance).toInt = .ok balance := by
  have hleads : Leads {} (creditThenBurn (.start .application)) :=
    leads_creditThenBurn (.start .application)
  have hnone : ∀ key record, Store.get? {} key = some record → key.owner ≠ plain.ledger.owner := by
    intro key record hget
    cases hget
  obtain ⟨hform, -, hread⟩ := stored_form_of_leads hnone hleads
  have hget : (creditThenBurn (.start .application)).get? ⟨5, [20, 7]⟩ =
      some { bytes := [0x41, 1, 0x21, 1, 6] } := by decide +kernel
  refine ⟨hleads, hget, hform _ _ hget rfl, ?_⟩
  exact (hread (.start .system (creditThenBurn (.start .application))) rfl
    (show 32 ≤ 32 by decide) (show 2 ≤ 2048 by decide)).1 [7]

end NativeContracts.Ledger
