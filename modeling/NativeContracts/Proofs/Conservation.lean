import Mathlib.Algebra.Order.BigOperators.Group.List
import Mathlib.Algebra.Order.Ring.Int
import Mathlib.Tactic.Ring
import NativeContracts.Proofs.Bookkeeping
import NativeContracts.Proofs.Tokens

/-! The supply of a token is what its accounts hold together. Supply and balances are
separate records, and operations write one after the other and can fail at any point;
from a store without records of the token on, the two agree after every operation, of
this token or of another, on whatever machines the operations run. -/

namespace NativeContracts

open Run TwosComplement

namespace Ledger

/-- The keys of account records, of any length. -/
def isAccountKey (ledger : Ledger) (key : Key) : Bool :=
  key.owner = ledger.owner ∧ key.bytes.head? = some 20

def accounts (ledger : Ledger) (store : Store) : List (Key × Record) :=
  store.entries.filter fun entry => ledger.isAccountKey entry.1

/-- What all account records hold together. -/
def holdings (ledger : Ledger) (store : Store) : Int :=
  ((ledger.accounts store).map fun entry => entry.2.balance).sum

variable {ledger : Ledger} {machine : Machine} {store : Store} {address : List UInt8}
  {amount : Int} {key : Key} {record : Record} {entries : List (Key × Record)}

theorem isAccountKey_iff : ledger.isAccountKey key = true ↔
    ∃ address, key = ledger.accountKey address := by
  obtain ⟨owner, bytes⟩ := key
  rcases bytes with _ | ⟨tag, address⟩
  · simp [isAccountKey, accountKey, Key.tagged]
  · simp [isAccountKey, accountKey, Key.tagged]

/-! ## Sums over records -/

/-- What one record adds: nothing, if it is no account. -/
def share (ledger : Ledger) (entry : Key × Record) : Int :=
  if ledger.isAccountKey entry.1 then entry.2.balance else 0

theorem holdings_eq (ledger : Ledger) (store : Store) :
    ledger.holdings store = (store.entries.map ledger.share).sum := by
  unfold holdings accounts
  induction store.entries with
  | nil => rfl
  | cons entry rest ih =>
    by_cases h : ledger.isAccountKey entry.1 = true
    · simp [share, h, ih]
    · simp [share, h, ih]

/-- A write takes away the share of the old record and adds that of the new one. -/
theorem sum_insert (f : Key × Record → Int) (hsorted : entries.Pairwise (fun a b => a.1 < b.1)) :
    ((Store.insert key record entries).map f).sum =
      (entries.map f).sum - ((Store.find? key entries).map fun old => f (key, old)).getD 0 +
        f (key, record) := by
  induction entries with
  | nil => simp [Store.insert, Store.find?]
  | cons entry rest ih =>
    rw [Store.insert]
    split
    · next hlt =>
      rw [Store.find?_cons_eq_none_of_lt hsorted hlt, List.map_cons, List.sum_cons,
        Option.map_none, Option.getD_none]
      ring
    · split
      · next heq =>
        rw [heq, Store.find?_cons_self, List.map_cons, List.map_cons, List.sum_cons,
          List.sum_cons, Option.map_some, Option.getD_some]
        ring
      · next hne =>
        rw [Store.find?_cons_of_ne (Ne.symm hne), List.map_cons, List.map_cons, List.sum_cons,
          List.sum_cons, ih hsorted.of_cons]
        ring

theorem holdings_set (ledger : Ledger) (store : Store) (key : Key) (record : Record) :
    ledger.holdings (store.set key record) =
      ledger.holdings store - ((store.get? key).map fun old => ledger.share (key, old)).getD 0 +
        ledger.share (key, record) := by
  rw [holdings_eq, holdings_eq]
  exact sum_insert ledger.share store.sorted

theorem holdings_set_of_not_account (h : ledger.isAccountKey key = false) (store : Store)
    (record : Record) : ledger.holdings (store.set key record) = ledger.holdings store := by
  rw [holdings_set]
  rcases store.get? key with _ | old
  · simp [share, h]
  · simp [share, h]

theorem holdings_set_accountKey (ledger : Ledger) (store : Store) (address : List UInt8)
    (record : Record) :
    ledger.holdings (store.set (ledger.accountKey address) record) =
      ledger.holdings store - ledger.balanceIn store address + record.balance := by
  have hkey : ledger.isAccountKey (ledger.accountKey address) = true :=
    isAccountKey_iff.mpr ⟨address, rfl⟩
  rw [holdings_set, balanceIn]
  rcases store.get? (ledger.accountKey address) with _ | old
  · simp [share, hkey]
  · simp [share, hkey]

/-! ## The books agree -/

/-- The ledger's records have their form, the supply is the sum of the balances, and there
are accounts only if there is a supply. -/
structure Balanced (ledger : Ledger) (store : Store) : Prop where
  canonical : ledger.Canonical store
  supply_eq : ledger.supplyIn store = ledger.holdings store
  opened : ∀ address record, store.get? (ledger.accountKey address) = some record →
    store.contains ledger.supplyKey = true

theorem Balanced.mem_accounts (h : ledger.Balanced store) {entry : Key × Record}
    (hentry : entry ∈ ledger.accounts store) :
    ∃ address balance, store.get? (ledger.accountKey address) = some entry.2 ∧ 0 ≤ balance ∧
      width balance ≤ integerWidth ∧ entry.2 = .ofBalance balance := by
  obtain ⟨key, record⟩ := entry
  obtain ⟨hmem, hkey⟩ := List.mem_filter.mp hentry
  obtain ⟨address, rfl⟩ := isAccountKey_iff.mp hkey
  have hget := Store.get?_eq_some_iff.mpr hmem
  obtain ⟨balance, hbalance, hwidth, rfl⟩ := (h.canonical _ _ hget rfl).eq_ofBalance
  exact ⟨address, balance, hget, hbalance, hwidth, rfl⟩

/-- One balance is no more than all of them. -/
theorem Balanced.balanceIn_le (h : ledger.Balanced store) (address : List UInt8) :
    ledger.balanceIn store address ≤ ledger.supplyIn store := by
  have hnonneg : ∀ n ∈ (ledger.accounts store).map fun entry => entry.2.balance, 0 ≤ n := by
    intro n hn
    obtain ⟨entry, hentry, rfl⟩ := List.mem_map.mp hn
    obtain ⟨_, balance, _, hbalance, hwidth, hrecord⟩ := h.mem_accounts hentry
    rw [hrecord, Record.balance_ofBalance hwidth]
    exact hbalance
  rw [h.supply_eq, holdings, balanceIn]
  rcases hget : store.get? (ledger.accountKey address) with _ | record
  · exact List.sum_nonneg hnonneg
  · have hentry : (ledger.accountKey address, record) ∈ ledger.accounts store :=
      List.mem_filter.mpr ⟨Store.get?_eq_some_iff.mp hget, isAccountKey_iff.mpr ⟨address, rfl⟩⟩
    exact List.single_le_sum hnonneg _ (List.mem_map.mpr ⟨_, hentry, rfl⟩)

/-- Nothing of the ledger is on record yet. -/
theorem Balanced.start (h : ∀ key record, store.get? key = some record →
    key.owner ≠ ledger.owner) : ledger.Balanced store := by
  have hnone : ∀ key, key.owner = ledger.owner → store.get? key = none :=
    fun key howner => Store.get?_eq_none_of_owner h howner
  have haccounts : ledger.accounts store = [] := by
    refine List.filter_eq_nil_iff.mpr fun entry hmem hkey => ?_
    obtain ⟨address, haddress⟩ := isAccountKey_iff.mp hkey
    refine h entry.1 entry.2 (Store.get?_eq_some_iff.mpr hmem) ?_
    rw [haddress]
    rfl
  refine ⟨fun key record hget howner => absurd howner (h key record hget), ?_, ?_⟩
  · rw [supplyIn, hnone _ rfl, holdings, haccounts]
    rfl
  · intro address record hget
    rw [hnone _ rfl] at hget
    cases hget

theorem not_isAccountKey_supplyKey (ledger : Ledger) :
    ledger.isAccountKey ledger.supplyKey = false := by
  simp [isAccountKey, supplyKey, Key.tagged]

/-- Both records of a change move by one amount. -/
theorem Balanced.posted (h : ledger.Balanced store)
    (hbalance : 0 ≤ ledger.balanceIn store address + amount)
    (hwidth : width (ledger.balanceIn store address + amount) ≤ integerWidth)
    (hsupply : 0 ≤ ledger.supplyIn store + amount)
    (hsupplyWidth : width (ledger.supplyIn store + amount) ≤ integerWidth) :
    ledger.Balanced (ledger.posted store address amount) where
  canonical := h.canonical.posted hbalance hwidth hsupply hsupplyWidth
  supply_eq := by
    rw [supplyIn_posted, Ledger.posted,
      holdings_set_of_not_account ledger.not_isAccountKey_supplyKey, holdings_set_accountKey,
      Record.balance_ofBalance hwidth, h.supply_eq]
    ring
  opened := by
    intro other record _
    rw [Store.contains, Ledger.posted, Store.get?_set_self]
    rfl

/-- The supply on record again, or for the first time. -/
theorem Balanced.set_supply (h : ledger.Balanced store) :
    ledger.Balanced (store.set ledger.supplyKey (.ofInt (ledger.supplyIn store))) where
  canonical := h.canonical.set (.supply _ h.canonical.supply_bounds.1 h.canonical.supply_bounds.2)
  supply_eq := by
    rw [holdings_set_of_not_account ledger.not_isAccountKey_supplyKey, ← h.supply_eq]
    conv_lhs => rw [supplyIn, Store.get?_set_self]
    exact Record.toInt_ofInt _
  opened := by
    intro other record _
    rw [Store.contains, Store.get?_set_self]
    rfl

/-- A record of another owner. -/
theorem Balanced.set_of_owner_ne (h : ledger.Balanced store) (howner : key.owner ≠ ledger.owner)
    (record : Record) : ledger.Balanced (store.set key record) := by
  have hget : ∀ other : Key, other.owner = ledger.owner →
      (store.set key record).get? other = store.get? other := by
    intro other hother
    apply Store.get?_set_of_ne
    rintro rfl
    exact howner hother
  have hkey : ledger.isAccountKey key = false := by
    simp [isAccountKey, howner]
  refine ⟨fun other found hfound hother => ?_, ?_, fun address found hfound => ?_⟩
  · rw [hget other hother] at hfound
    exact h.canonical other found hfound hother
  · rw [holdings_set_of_not_account hkey, supplyIn, hget _ rfl]
    exact h.supply_eq
  · rw [hget _ rfl] at hfound
    rw [Store.contains, hget _ rfl]
    exact h.opened address found hfound

/-! ## Every operation keeps the books -/

theorem keeps_balanced_mint (ledger : Ledger) (address : List UInt8) (amount : Int) :
    Keeps (fun machine => ledger.Balanced machine.store) (ledger.mint address amount) := by
  intro machine h
  rcases mint_cases h.canonical address amount with
    ⟨error, hexec⟩ | ⟨hamount, hwidth, hsupplyWidth, hexec⟩
  · rw [hexec]
    exact h
  · rw [hexec]
    have hbalance := (h.canonical.balance_bounds address).1
    have hsupply := h.canonical.supply_bounds.1
    exact h.posted (by omega) hwidth (by omega) hsupplyWidth

theorem keeps_balanced_burn (ledger : Ledger) (address : List UInt8) (amount : Int) :
    Keeps (fun machine => ledger.Balanced machine.store) (ledger.burn address amount) := by
  intro machine h
  rcases burn_cases h.canonical address amount with
    ⟨error, hexec⟩ | ⟨-, hexec⟩ | ⟨-, hle, hlack, -⟩ | ⟨hamount, hle, hleSupply, hexec⟩
  · rw [hexec]
    exact h
  · rw [hexec]
    exact h.set_supply
  · -- The supply covers every balance, so it covers the amount.
    have hcover := h.balanceIn_le address
    omega
  · rw [hexec]
    exact h.posted (Int.sub_nonneg_of_le hle) (h.canonical.width_balance_sub hamount hle)
      (Int.sub_nonneg_of_le hleSupply) (h.canonical.width_supply_sub hamount hleSupply)

theorem Balanced.after (h : ledger.Balanced machine.store) (token : Token)
    (operation : Token.Operation) : ledger.Balanced (operation.after token machine).store := by
  by_cases howner : token.ledger.owner = ledger.owner
  · obtain rfl : token.ledger = ledger := by
      obtain ⟨owner⟩ := ledger
      exact congrArg Ledger.mk howner
    refine operation.keeps ?_ (keeps_balanced_mint _) (keeps_balanced_burn _) h
    intro machine h hclosed
    rw [exec_setSupply h.canonical]
    have hzero : token.ledger.supplyIn machine.store = 0 := by
      rw [isInitialized, Store.contains, Option.isSome_eq_false_iff,
        Option.isNone_iff_eq_none] at hclosed
      rw [supplyIn, hclosed]
    have hset := h.set_supply
    rw [hzero] at hset
    exact hset
  · have hset : token.ledger.AllowsWrites fun machine => ledger.Balanced machine.store := by
      intro machine key record hkey h
      exact h.set_of_owner_ne (by rw [hkey]; exact howner) record
    exact operation.keeps (fun machine h _ => keeps_put_of_allowsWrites hset rfl _ machine h)
      (keeps_mint_of_allowsWrites hset) (keeps_burn_of_allowsWrites hset) h

/-- The stores that operations of tokens lead to, this ledger's or others', from one without
records of the ledger's owner. Each operation runs on any machine that has the store. -/
inductive Reachable (ledger : Ledger) : Store → Prop where
  | start {store : Store} (h : ∀ key record, store.get? key = some record →
      key.owner ≠ ledger.owner) : Reachable ledger store
  | step {machine : Machine} (h : Reachable ledger machine.store) (token : Token)
      (operation : Token.Operation) : Reachable ledger (operation.after token machine).store

theorem Reachable.balanced (h : ledger.Reachable store) : ledger.Balanced store := by
  induction h with
  | start h => exact .start h
  | step _ token operation ih => exact ih.after token operation

/-- After every operation, failed ones included, the supply is the sum of the balances.
Every account record is readable, and as no other balance under other limits. -/
theorem supply_eq_holdings_of_reachable (h : ledger.Reachable machine.store) :
    ledger.supply machine = ledger.holdings machine.store ∧
      (∀ entry ∈ ledger.accounts machine.store,
        0 ≤ entry.2.balance ∧ Account.ofRecord {} entry.2 = .ok ⟨entry.2.balance⟩ ∧
          ∀ limits account, Account.ofRecord limits entry.2 = .ok account →
            account.balance = entry.2.balance) ∧
      (ledger.accounts machine.store ≠ [] → ledger.isInitialized machine = true) := by
  have hbalanced := h.balanced
  refine ⟨hbalanced.supply_eq, ?_, ?_⟩
  · intro entry hentry
    obtain ⟨_, balance, _, hbalance, hwidth, hrecord⟩ := hbalanced.mem_accounts hentry
    rw [hrecord, Record.balance_ofBalance hwidth]
    refine ⟨hbalance, Account.ofRecord_ofBalance hwidth, ?_⟩
    intro limits account hread
    rcases Account.ofRecord_ofBalance_cases limits hwidth with hother | ⟨error, hother⟩
    · rw [hother] at hread
      cases hread
      rfl
    · rw [hother] at hread
      cases hread
  · intro hsome
    obtain ⟨entry, hentry⟩ := List.exists_mem_of_ne_nil _ hsome
    obtain ⟨address, _, hget, _⟩ := hbalanced.mem_accounts hentry
    exact hbalanced.opened address _ hget

def holder : List UInt8 := List.replicate 20 7

/-- A token that gives thirty to one account. -/
def thirty : Token where
  service := "Thirty"
  settings := {
    id := 5, name := "Thirty", symbol := "T", decimals := 0, distribution := [⟨holder, 30⟩] }

/-- The second machine takes over the store that the setup leaves, and burns ten. -/
def setUpThenBurn (first second : Machine) : Machine :=
  (Token.Operation.burn holder 10).after thirty
    { second with store := (Token.Operation.setUp.after thirty first).store }

theorem supply_eq_holdings_setUpThenBurn :
    thirty.ledger.Reachable (setUpThenBurn (.start .application) (.start .system)).store ∧
      thirty.ledger.supply (setUpThenBurn (.start .application) (.start .system)) = 20 ∧
      thirty.ledger.holdings (setUpThenBurn (.start .application) (.start .system)).store = 20 := by
  have hempty : thirty.ledger.Reachable (Machine.start .application).store := by
    refine .start fun key record hget => ?_
    cases hget
  have hhanded : thirty.ledger.Reachable ({ Machine.start .system with
        store := (Token.Operation.setUp.after thirty (.start .application)).store :
          Machine }).store :=
    hempty.step thirty .setUp
  have hreach : thirty.ledger.Reachable
      (setUpThenBurn (.start .application) (.start .system)).store :=
    hhanded.step thirty (.burn holder 10)
  have hsupply : thirty.ledger.supply
      (setUpThenBurn (.start .application) (.start .system)) = 20 := by decide +kernel
  refine ⟨hreach, hsupply, ?_⟩
  rw [← (supply_eq_holdings_of_reachable hreach).1, hsupply]

end Ledger

end NativeContracts
