import Mathlib.Algebra.Order.BigOperators.Group.List
import NativeContracts.Proofs.Accounts
import NativeContracts.Proofs.Representation

/-! Minting that goes through. On a machine with room for an account's record a mint fails
only over its amount or what it would make of the supply, so that a ledger shows what was
granted, account by account, and no more. A token's setup grants its distribution, and its
work for a block the reward. -/

namespace NativeContracts

open Run TwosComplement

/-! ## Room for a record -/

/-- The machine has two references to spare, and limits that allow every account's record. -/
structure Machine.HasRoom (machine : Machine) : Prop where
  budget : machine.budget.count + 2 ≤ machine.budget.limit
  stack : 2 ≤ machine.limits.maxStackSize
  integer : integerWidth ≤ machine.limits.maxIntegerSize
  item : 36 ≤ machine.limits.maxItemSize

theorem Machine.HasRoom.with_store {machine : Machine} (h : machine.HasRoom) (store : Store) :
    Machine.HasRoom { machine with store } :=
  ⟨h.budget, h.stack, h.integer, h.item⟩

/-- There is room for every balance that fits an integer. -/
theorem Machine.HasRoom.fits {machine : Machine} {account : Account} (h : machine.HasRoom)
    (hwidth : width account.balance ≤ integerWidth) :
    account.Fits machine.budget machine.limits := by
  have hbytes := Nat.le_trans (Account.length_integerBytes_le account.balance) hwidth
  exact ⟨width_le_integerWidth_iff_bounds.mp hwidth, h.budget, Nat.le_trans hbytes h.integer,
    Nat.le_trans (Nat.add_le_add_left hbytes 4) h.item⟩

namespace Ledger

variable {ledger : Ledger} {machine : Machine} {store : Store} {address : List UInt8}
  {amount balance : Int}

/-- With room for it, the record of an account goes wherever no constant record is. -/
theorem exec_putAccount_ok {key : Key} (hroom : machine.HasRoom)
    (hkey : ∀ old, machine.store.get? key = some old → old.isConstant = false)
    (hwidth : width balance ≤ integerWidth) :
    (Run.putAccount key ⟨balance⟩).exec machine =
      (.ok (), machine.withRecord key (.ofBalance balance)) := by
  rw [Run.exec_putAccount, (hroom.fits hwidth).toRecord]
  dsimp only
  rw [exec_put, Store.put_eq_ok hkey]
  rfl

theorem Canonical.exec_putAccount (h : ledger.Canonical machine.store) (hroom : machine.HasRoom)
    (hwidth : width balance ≤ integerWidth) :
    (Run.putAccount (ledger.accountKey address) ⟨balance⟩).exec machine =
      (.ok (), machine.withRecord (ledger.accountKey address) (.ofBalance balance)) :=
  exec_putAccount_ok hroom (fun old hold => (h _ old hold rfl).not_constant) hwidth

theorem Canonical.exec_credit (h : ledger.Canonical machine.store) (hroom : machine.HasRoom)
    (hamount : 0 ≤ amount)
    (hwidth : width (ledger.balanceIn machine.store address + amount) ≤ integerWidth) :
    (ledger.credit address amount).exec machine =
      (.ok (), machine.withRecord (ledger.accountKey address)
        (.ofBalance (ledger.balanceIn machine.store address + amount))) := by
  rw [Ledger.exec_credit, checkAmount_eq_ok_iff.mpr hamount,
    h.balance_eq hroom.integer hroom.stack address]
  dsimp only
  rw [checkWidth_eq_ok_iff.mpr hwidth]
  exact h.exec_putAccount hroom hwidth

theorem Canonical.exec_mint (h : ledger.Canonical machine.store) (hroom : machine.HasRoom)
    (hamount : 0 ≤ amount)
    (hwidth : width (ledger.balanceIn machine.store address + amount) ≤ integerWidth)
    (hsupply : width (ledger.supplyIn machine.store + amount) ≤ integerWidth) :
    (ledger.mint address amount).exec machine =
      (.ok (), { machine with store := ledger.posted machine.store address amount }) := by
  have hsum : 0 ≤ ledger.balanceIn machine.store address + amount :=
    Int.add_nonneg (h.balance_bounds address).1 hamount
  rw [Ledger.exec_mint, checkAmount_eq_ok_iff.mpr hamount, supply_eq,
    checkWidth_eq_ok_iff.mpr hsupply]
  dsimp only
  rw [exec_bind_ok _ (h.exec_credit hroom hamount hwidth),
    exec_setSupply (h.set (.account _ _ hsum hwidth))]
  rfl

end Ledger

/-! ## Grants -/

namespace Grant

variable {grants more : List Grant} {grant : Grant} {address : List UInt8}

/-- What the grants add up to. -/
def total (grants : List Grant) : Int := (grants.map (·.amount)).sum

/-- What they give to one address. -/
def share (grants : List Grant) (address : List UInt8) : Int :=
  total (grants.filter (·.address = address))

@[simp] theorem total_nil : total [] = 0 := rfl

@[simp] theorem total_cons : total (grant :: grants) = grant.amount + total grants := by
  simp [total]

@[simp] theorem total_append : total (grants ++ more) = total grants + total more := by
  simp [total]

@[simp] theorem share_nil : share [] address = 0 := rfl

@[simp] theorem share_append :
    share (grants ++ more) address = share grants address + share more address := by
  simp [share]

theorem share_singleton :
    share [grant] address = if grant.address = address then grant.amount else 0 := by
  rw [share, List.filter_singleton]
  split <;> simp_all

/-- None of the amounts is negative. -/
def Positive (grants : List Grant) : Prop := ∀ grant ∈ grants, 0 ≤ grant.amount

theorem total_nonneg (h : Positive grants) : 0 ≤ total grants := by
  refine List.sum_nonneg fun amount hamount => ?_
  obtain ⟨grant, hgrant, rfl⟩ := List.mem_map.mp hamount
  exact h grant hgrant

theorem share_le_total (h : Positive grants) (address : List UInt8) :
    share grants address ≤ total grants := by
  induction grants with
  | nil => exact Int.le_refl 0
  | cons grant grants ih =>
    obtain ⟨hgrant, hgrants⟩ := List.forall_mem_cons.mp h
    have hshare := ih hgrants
    rw [← List.singleton_append, share_append, share_singleton, List.singleton_append, total_cons]
    split <;> omega

end Grant

namespace Ledger

variable {ledger : Ledger} {machine : Machine} {store other : Store} {address : List UInt8}
  {amount : Int} {grants : List Grant}

/-- The owner's records show the grants: the supply is what they add up to, and an account is
on record exactly if something was granted to it, were it nothing. -/
structure Shows (ledger : Ledger) (grants : List Grant) (store : Store) : Prop where
  canonical : ledger.Canonical store
  supply_eq : ledger.supplyIn store = Grant.total grants
  balance_eq : ∀ address, ledger.balanceIn store address = Grant.share grants address
  contains_iff : ∀ key, key.owner = ledger.owner → (store.contains key = true ↔
    key = ledger.supplyKey ∨ ∃ grant ∈ grants, key = ledger.accountKey grant.address)

theorem Shows.congr (h : ledger.Shows grants store)
    (hsame : ∀ key, key.owner = ledger.owner → other.get? key = store.get? key) :
    ledger.Shows grants other where
  canonical := fun key record hget howner => h.canonical key record (hsame key howner ▸ hget) howner
  supply_eq := by
    rw [← h.supply_eq, supplyIn, supplyIn, hsame ledger.supplyKey rfl]
  balance_eq := fun address => by
    rw [← h.balance_eq address, balanceIn, balanceIn, hsame (ledger.accountKey address) rfl]
  contains_iff := fun key howner => by
    rw [Store.contains, hsame key howner]
    exact h.contains_iff key howner

/-- The supply goes on record first, with nothing granted yet. -/
theorem Shows.opened
    (hnone : ∀ key record, store.get? key = some record → key.owner ≠ ledger.owner) :
    ledger.Shows [] (store.set ledger.supplyKey (.ofInt 0)) where
  canonical := (Canonical.start hnone).set (.supply 0 (Int.le_refl 0) (by decide +kernel))
  supply_eq := by
    rw [supplyIn, Store.get?_set_self]
    exact Record.toInt_ofInt 0
  balance_eq := fun address => by
    rw [balanceIn, Store.get?_set_of_ne (ledger.accountKey_ne_supplyKey address),
      Store.get?_eq_none_of_owner hnone rfl]
    rfl
  contains_iff := fun key howner => by
    rw [Store.contains_set_iff, Store.contains, Store.get?_eq_none_of_owner hnone howner]
    simp

/-- Both records of a grant make it show. -/
theorem Shows.posted (h : ledger.Shows grants store)
    (hcanonical : ledger.Canonical (ledger.posted store address amount))
    (hwidth : width (ledger.balanceIn store address + amount) ≤ integerWidth) :
    ledger.Shows (grants ++ [⟨address, amount⟩]) (ledger.posted store address amount) where
  canonical := hcanonical
  supply_eq := by simp [supplyIn_posted, h.supply_eq]
  balance_eq := fun found => by
    rw [balanceIn_posted hwidth, h.balance_eq, Grant.share_append, Grant.share_singleton]
  contains_iff := fun key howner => by
    rw [Ledger.posted, Store.contains_set_iff, Store.contains_set_iff, h.contains_iff key howner]
    simp only [List.mem_append, List.mem_singleton, or_and_right, exists_or, exists_eq_left]
    constructor
    · rintro (hsupply | hkey | hold)
      · exact .inl hsupply
      · exact .inr (.inr hkey)
      · exact hold.imp_right .inl
    · rintro (hsupply | hold | hkey)
      · exact .inl hsupply
      · exact .inr (.inr (.inr hold))
      · exact .inr (.inl hkey)

/-- A mint within bounds goes through, and the grant shows. -/
theorem Shows.exec_mint (h : ledger.Shows grants machine.store) (hroom : machine.HasRoom)
    (hgrants : Grant.Positive grants) (hamount : 0 ≤ amount)
    (htotal : Grant.total grants + amount ≤ 2 ^ 255 - 1) (address : List UInt8) :
    (ledger.mint address amount).exec machine =
        (.ok (), { machine with store := ledger.posted machine.store address amount }) ∧
      ledger.Shows (grants ++ [⟨address, amount⟩])
        (ledger.posted machine.store address amount) := by
  have hcanonical := h.canonical
  have hsupply : 0 ≤ ledger.supplyIn machine.store + amount :=
    Int.add_nonneg hcanonical.supply_bounds.1 hamount
  have hsupplyWidth : width (ledger.supplyIn machine.store + amount) ≤ integerWidth :=
    (width_le_integerWidth_iff hsupply).mpr (by rw [h.supply_eq]; exact htotal)
  have hbalance : 0 ≤ ledger.balanceIn machine.store address + amount :=
    Int.add_nonneg (hcanonical.balance_bounds address).1 hamount
  -- No account has more than the supply, so the balance is within its bound too.
  have hwidth : width (ledger.balanceIn machine.store address + amount) ≤ integerWidth := by
    have hshare := Grant.share_le_total hgrants address
    refine (width_le_integerWidth_iff hbalance).mpr ?_
    rw [h.balance_eq]
    omega
  exact ⟨hcanonical.exec_mint hroom hamount hwidth hsupplyWidth,
    h.posted (hcanonical.posted hbalance hwidth hsupply hsupplyWidth) hwidth⟩

end Ledger

namespace Token

variable {token : Token} {machine : Machine} {grants more : List Grant}

/-- Mints within bounds go through one after another. -/
theorem exec_forM_mint (token : Token) (h : token.ledger.Shows grants machine.store)
    (hroom : machine.HasRoom) (hpositive : Grant.Positive (grants ++ more))
    (htotal : Grant.total (grants ++ more) ≤ 2 ^ 255 - 1) :
    ∃ store, (more.forM fun grant => token.ledger.mint grant.address grant.amount).exec machine =
        (.ok (), { machine with store }) ∧ token.ledger.Shows (grants ++ more) store := by
  induction more generalizing grants machine with
  | nil => exact ⟨machine.store, rfl, by simpa using h⟩
  | cons grant more ih =>
    have hsplit : grants ++ grant :: more = (grants ++ [grant]) ++ more := by simp
    rw [hsplit] at hpositive htotal ⊢
    obtain ⟨hsofar, hmore⟩ := List.forall_mem_append.mp hpositive
    obtain ⟨hgrants, hgrant⟩ := List.forall_mem_append.mp hsofar
    have hrest := Grant.total_nonneg hmore
    simp only [Grant.total_append, Grant.total_cons, Grant.total_nil] at htotal
    obtain ⟨hmint, hshows⟩ := h.exec_mint hroom hgrants (hgrant grant (List.mem_singleton_self _))
      (by omega) grant.address
    obtain ⟨store, hexec, hafter⟩ := ih hshows (hroom.with_store _) hpositive (by simp; omega)
    exact ⟨store, (exec_bind_ok _ hmint).trans hexec, hafter⟩

/-- Where the owner has no records, the setup grants any part of the distribution that stays
within bounds, and goes on from there. -/
theorem exec_seed_append (token : Token)
    (hnone : ∀ key record, machine.store.get? key = some record → key.owner ≠ token.settings.id)
    (hroom : machine.HasRoom) (hsplit : token.settings.distribution = grants ++ more)
    (hpositive : Grant.Positive grants) (htotal : Grant.total grants ≤ 2 ^ 255 - 1) :
    ∃ store, token.seed.exec machine =
        (more.forM fun grant => token.ledger.mint grant.address grant.amount).exec
          { machine with store } ∧ token.ledger.Shows grants store := by
  have hclosed : token.ledger.isInitialized machine = false := by
    rw [Ledger.isInitialized, Store.contains, Store.get?_eq_none_of_owner hnone rfl]
    rfl
  have hopened : token.ledger.Shows []
      (machine.withRecord token.ledger.supplyKey (.ofInt 0)).store := .opened hnone
  obtain ⟨store, hexec, hshows⟩ :=
    token.exec_forM_mint hopened (hroom.with_store _) hpositive htotal
  refine ⟨store, ?_, hshows⟩
  rw [exec_seed, hclosed, if_neg Bool.false_ne_true, hsplit,
    exec_bind_ok _ (Ledger.exec_setSupply (.start hnone) 0)]
  exact (congrArg (exec · _) List.forM_append).trans (exec_bind_ok _ hexec)

/-- Where the owner has no records, the setup grants the distribution. -/
theorem exec_setUp (token : Token)
    (hnone : ∀ key record, machine.store.get? key = some record → key.owner ≠ token.settings.id)
    (htrigger : machine.trigger = .application) (hroom : machine.HasRoom)
    (hpositive : Grant.Positive token.settings.distribution)
    (htotal : Grant.total token.settings.distribution ≤ 2 ^ 255 - 1) :
    ∃ store, token.contract.setUp.exec machine = (.ok true, { machine with store }) ∧
      token.ledger.Shows token.settings.distribution store := by
  obtain ⟨store, hseed, hshows⟩ :=
    token.exec_seed_append hnone hroom (List.append_nil _).symm hpositive htotal
  refine ⟨store, ?_, hshows⟩
  rw [Contract.exec_setUp, if_pos htrigger, contract_seed, exec_bind_ok _ hseed]
  rfl

/-- What the work for a block grants. -/
def blockGrants (token : Token) : List Grant :=
  match token.settings.rewardAddress with
  | none => []
  | some address => if token.settings.reward = 0 then [] else [⟨address, token.settings.reward⟩]

theorem persist_eq_forM (token : Token) :
    token.persist =
      token.blockGrants.forM fun grant => token.ledger.mint grant.address grant.amount := by
  unfold persist blockGrants
  rcases token.settings.rewardAddress with _ | address
  · rfl
  · by_cases hreward : token.settings.reward = 0
    · simp only [hreward, if_true]
      rfl
    · simp only [hreward, if_false]
      exact (bind_pure _).symm

theorem exec_onPersist (token : Token) (h : token.ledger.Shows grants machine.store)
    (htrigger : machine.trigger = .system) (hroom : machine.HasRoom)
    (hpositive : Grant.Positive (grants ++ token.blockGrants))
    (htotal : Grant.total (grants ++ token.blockGrants) ≤ 2 ^ 255 - 1) :
    ∃ store, token.contract.onPersist.exec machine =
        (.ok (.boolean true), { machine with store }) ∧
      token.ledger.Shows (grants ++ token.blockGrants) store := by
  obtain ⟨store, hexec, hshows⟩ := token.exec_forM_mint h hroom hpositive htotal
  rw [← persist_eq_forM] at hexec
  refine ⟨store, ?_, hshows⟩
  rw [Contract.exec_onPersist, if_pos htrigger, contract_persist, exec_bind_ok _ hexec]
  rfl

end Token

end NativeContracts
