import Mathlib.Data.List.Induction
import NativeContracts.Proofs.Isolation
import NativeContracts.Proofs.Posting

/-! The setup of a token, from no records of its own. If the distribution stays within the
bound of a supply, every entry is minted, and what comes of it does not depend on their order.
If not, the entry that would pass the bound makes the setup fail, and those before it stay
minted. -/

namespace NativeContracts

open Run TwosComplement Machine

variable {grants more : List Grant} {address : List UInt8} {bound amount : Int}

/-! ## Distributions -/

namespace Grant

theorem total_perm (h : grants.Perm more) : total grants = total more :=
  (h.map _).sum_eq

theorem share_perm (h : grants.Perm more) : share grants address = share more address :=
  total_perm (h.filter _)

theorem total_le_of_prefix (h : grants <+: more) (hpositive : Positive more) :
    total grants ≤ total more := by
  obtain ⟨rest, rfl⟩ := h
  obtain ⟨-, hrest⟩ := List.forall_mem_append.mp hpositive
  have hnonneg := total_nonneg hrest
  rw [total_append]
  omega

/-- Grants past a bound have a first one that gets past it. -/
theorem exists_first_past (hbound : 0 ≤ bound) (h : bound < total grants) :
    ∃ front grant rest, grants = front ++ grant :: rest ∧ total front ≤ bound ∧
      bound < total front + grant.amount := by
  induction grants using List.reverseRecOn with
  | nil => exact absurd h (Int.not_lt.mpr hbound)
  | append_singleton grants last ih =>
    by_cases hgrants : bound < total grants
    · obtain ⟨front, grant, rest, rfl, hfront, hpast⟩ := ih hgrants
      exact ⟨front, grant, rest ++ [last], by simp, hfront, hpast⟩
    · refine ⟨grants, last, [], rfl, Int.not_lt.mp hgrants, ?_⟩
      simpa using h

end Grant

theorem checkAddress_eq_ok_iff : checkAddress address = .ok () ↔ address.length = addressSize := by
  unfold checkAddress
  split
  · next h => simp [h]
  · next h => simpa using h

/-- Settings that make a token: whole addresses and amounts that are not negative. -/
theorem TokenSettings.check_eq_ok_iff {settings : TokenSettings} :
    settings.check = .ok () ↔
      (∀ address ∈ settings.distribution.map (·.address) ++ settings.rewardAddress.toList,
        address.length = addressSize) ∧
      ∀ amount ∈ settings.distribution.map (·.amount) ++ [settings.reward], 0 ≤ amount := by
  have hamount : ∀ amount : Int,
      (if amount < 0 then throw (.refused (.negativeAmount amount)) else pure () :
        Except Error Unit) = .ok () ↔ 0 ≤ amount := by
    intro amount
    split
    · next h =>
      refine iff_of_false (fun hok => ?_) (Int.not_le.mpr h)
      cases hok
    · next h => exact iff_of_true rfl (Int.not_lt.mp h)
  simp only [check, bind_eq_ok_iff, ← checkAddress_eq_ok_iff, ← hamount, ← forM_eq_ok_iff]
  constructor
  · intro h
    obtain ⟨_, haddresses, hamounts⟩ := h
    exact ⟨haddresses, hamounts⟩
  · intro h
    exact ⟨(), h⟩

theorem Token.make_eq_ok_iff {service : String} {settings : TokenSettings} {token : Token} :
    Token.make service settings = .ok token ↔
      settings.check = .ok () ∧ token = ⟨service, settings⟩ := by
  rw [make, bind_eq_ok_iff]
  constructor
  · intro h
    obtain ⟨_, hcheck, htoken⟩ := h
    cases htoken
    exact ⟨hcheck, rfl⟩
  · intro h
    obtain ⟨hcheck, rfl⟩ := h
    exact ⟨(), hcheck, rfl⟩

/-- The order of a distribution is no matter of its check. -/
theorem TokenSettings.check_perm {settings : TokenSettings} {distribution : List Grant}
    (hperm : distribution.Perm settings.distribution) (h : settings.check = .ok ()) :
    { settings with distribution }.check = .ok () := by
  obtain ⟨haddresses, hamounts⟩ := check_eq_ok_iff.mp h
  refine check_eq_ok_iff.mpr ⟨fun address hmem => haddresses address ?_,
    fun amount hmem => hamounts amount ?_⟩
  · exact ((hperm.map _).append_right _).mem_iff.mp hmem
  · exact ((hperm.map _).append_right _).mem_iff.mp hmem

/-! ## What the grants leave on record -/

namespace Ledger

variable {ledger : Ledger} {store other : Store} {machine after : Machine} {key : Key}

theorem Shows.get?_supplyKey (h : ledger.Shows grants store) :
    store.get? ledger.supplyKey = some (.ofInt (Grant.total grants)) := by
  have hcontains := (h.contains_iff ledger.supplyKey rfl).mpr (.inl rfl)
  obtain ⟨record, hrecord⟩ := Option.isSome_iff_exists.mp hcontains
  obtain ⟨supply, -, -, rfl⟩ := (h.canonical _ _ hrecord rfl).eq_ofInt
  have hsupply : supply = Grant.total grants := by
    simpa only [supplyIn, hrecord, Record.toInt_ofInt] using h.supply_eq
  rw [hrecord, hsupply]

theorem Shows.get?_accountKey (h : ledger.Shows grants store)
    (haddress : ∃ grant ∈ grants, grant.address = address) :
    store.get? (ledger.accountKey address) = some (.ofBalance (Grant.share grants address)) := by
  obtain ⟨grant, hgrant, rfl⟩ := haddress
  have hcontains := (h.contains_iff (ledger.accountKey grant.address) rfl).mpr
    (.inr ⟨grant, hgrant, rfl⟩)
  obtain ⟨record, hrecord⟩ := Option.isSome_iff_exists.mp hcontains
  obtain ⟨balance, -, hwidth, rfl⟩ := (h.canonical _ _ hrecord rfl).eq_ofBalance
  have hbalance : balance = Grant.share grants grant.address := by
    simpa only [balanceIn, hrecord, Record.balance_ofBalance hwidth] using
      h.balance_eq grant.address
  rw [hrecord, hbalance]

/-- What a store shows does not depend on the order of the grants, and it is all that the store
has of the owner. -/
theorem Shows.eq_of_perm (h : ledger.Shows grants store) (hother : ledger.Shows more other)
    (hperm : grants.Perm more)
    (hrest : ∀ key, key.owner ≠ ledger.owner → store.get? key = other.get? key) :
    store = other := by
  refine Store.ext_get? fun key => ?_
  by_cases howner : key.owner = ledger.owner
  · by_cases hcontains : store.contains key = true
    · rcases (h.contains_iff key howner).mp hcontains with rfl | ⟨grant, hgrant, rfl⟩
      · rw [h.get?_supplyKey, hother.get?_supplyKey, Grant.total_perm hperm]
      · rw [h.get?_accountKey ⟨grant, hgrant, rfl⟩,
          hother.get?_accountKey ⟨grant, hperm.mem_iff.mp hgrant, rfl⟩, Grant.share_perm hperm]
    · have hlacks : ¬other.contains key = true := by
        simpa only [hother.contains_iff key howner, h.contains_iff key howner, hperm.mem_iff]
          using hcontains
      simp only [Store.contains, Option.not_isSome_iff_eq_none] at hcontains hlacks
      rw [hcontains, hlacks]
  · exact hrest key howner

/-- From one machine to the other the grants went on record, and nothing else did: the supply is
what they add up to, an account has what they give it, and it has a record exactly if one of
them is for it. -/
structure Granted (ledger : Ledger) (grants : List Grant) (machine after : Machine) : Prop where
  supply_eq : ledger.supply after = Grant.total grants
  balance_eq : ∀ address, ledger.balance address after = .ok (Grant.share grants address)
  contains_iff : ∀ key, key.owner = ledger.owner → (after.store.contains key = true ↔
    key = ledger.supplyKey ∨ ∃ grant ∈ grants, key = ledger.accountKey grant.address)
  others_eq : ∀ key, key.owner ≠ ledger.owner → after.store.get? key = machine.store.get? key
  rest_eq : after = { machine with store := after.store }

theorem Shows.granted (h : ledger.Shows grants store) (hroom : machine.HasRoom)
    (hchanges : ChangesOnly ledger.owner machine { machine with store }) :
    ledger.Granted grants machine { machine with store } where
  supply_eq := h.supply_eq
  balance_eq address := by
    rw [← h.balance_eq address]
    exact h.canonical.balance_eq (hroom.with_store store).integer (hroom.with_store store).stack
      address
  contains_iff := h.contains_iff
  others_eq := hchanges.others_eq
  rest_eq := rfl

/-- A mint that would take the supply past its bound. -/
theorem exec_mint_of_past (hamount : 0 ≤ amount) (hsupply : 0 ≤ ledger.supply machine)
    (hpast : 2 ^ 255 - 1 < ledger.supply machine + amount) (address : List UInt8) :
    (ledger.mint address amount).exec machine =
      (.error (.violation (.tooWide .supply (width (ledger.supply machine + amount)))),
        machine) := by
  have hwide : ¬width (ledger.supply machine + amount) ≤ integerWidth := fun hwidth =>
    Int.not_le.mpr hpast
      ((width_le_integerWidth_iff (Int.add_nonneg hsupply hamount)).mp hwidth)
  rw [exec_mint, checkAmount_eq_ok_iff.mpr hamount]
  simp only [checkWidth, Nat.lt_of_not_le hwide, if_true]

end Ledger

/-! ## The setup -/

namespace Token

variable {token : Token} {machine after : Machine} {front rest : List Grant} {grant : Grant}

theorem changesOnly_setUp (token : Token) (machine : Machine) :
    ChangesOnly token.ledger.owner machine (token.contract.setUp.exec machine).2 :=
  token.confined_setUp.changesOnly machine machine (.refl _ machine)

/-- A distribution within the bound of a supply is granted, in any order. -/
theorem setUp_of_le (token : Token)
    (hnone : ∀ key record, machine.store.get? key = some record → key.owner ≠ token.settings.id)
    (htrigger : machine.trigger = .application) (hroom : machine.HasRoom)
    (hpositive : Grant.Positive token.settings.distribution)
    (htotal : Grant.total token.settings.distribution ≤ 2 ^ 255 - 1) :
    ∃ after, token.contract.setUp.exec machine = (.ok true, after) ∧
      token.ledger.Granted token.settings.distribution machine after ∧
      token.ledger.Shows token.settings.distribution after.store := by
  obtain ⟨store, hexec, hshows⟩ := token.exec_setUp hnone htrigger hroom hpositive htotal
  have hchanges := token.changesOnly_setUp machine
  rw [hexec] at hchanges
  exact ⟨_, hexec, hshows.granted hroom hchanges, hshows⟩

/-- Tokens that differ in the order of their distribution leave the same machine. -/
theorem setUp_perm (token other : Token) (hid : other.settings.id = token.settings.id)
    (hperm : other.settings.distribution.Perm token.settings.distribution)
    (hnone : ∀ key record, machine.store.get? key = some record → key.owner ≠ token.settings.id)
    (htrigger : machine.trigger = .application) (hroom : machine.HasRoom)
    (hpositive : Grant.Positive token.settings.distribution)
    (htotal : Grant.total token.settings.distribution ≤ 2 ^ 255 - 1) :
    other.contract.setUp.exec machine = token.contract.setUp.exec machine := by
  have hledger : other.ledger = token.ledger := congrArg Ledger.mk hid
  obtain ⟨after, hexec, hgranted, hshows⟩ :=
    token.setUp_of_le hnone htrigger hroom hpositive htotal
  obtain ⟨found, hfound, hgrantedOther, hshowsOther⟩ :=
    other.setUp_of_le (hid ▸ hnone) htrigger hroom
      (fun grant hmem => hpositive grant (hperm.mem_iff.mp hmem))
      (by rw [Grant.total_perm hperm]; exact htotal)
  rw [hledger] at hgrantedOther hshowsOther
  have hstore : found.store = after.store := by
    refine hshowsOther.eq_of_perm hshows hperm fun key howner => ?_
    rw [hgrantedOther.others_eq key howner, hgranted.others_eq key howner]
  rw [hexec, hfound, hgrantedOther.rest_eq, hstore, ← hgranted.rest_eq]

/-- The setup stopped at the first entry of the distribution that takes the sum of those so far
past the bound of a supply, and exactly those before it are granted. -/
structure Stops (token : Token) (machine after : Machine) (front : List Grant) (grant : Grant)
    (rest : List Grant) : Prop where
  split : token.settings.distribution = front ++ grant :: rest
  within : ∀ sofar, sofar <+: front → Grant.total sofar ≤ 2 ^ 255 - 1
  past : 2 ^ 255 - 1 < Grant.total (front ++ [grant])
  exec_eq : token.contract.setUp.exec machine =
    (.error (.violation (.tooWide .supply (width (Grant.total (front ++ [grant]))))), after)
  granted : token.ledger.Granted front machine after

theorem exists_stops (token : Token)
    (hnone : ∀ key record, machine.store.get? key = some record → key.owner ≠ token.settings.id)
    (htrigger : machine.trigger = .application) (hroom : machine.HasRoom)
    (hpositive : Grant.Positive token.settings.distribution)
    (htotal : 2 ^ 255 - 1 < Grant.total token.settings.distribution) :
    ∃ front grant rest after, token.Stops machine after front grant rest := by
  obtain ⟨front, grant, rest, hsplit, hfront, hpast⟩ :=
    Grant.exists_first_past (by decide) htotal
  rw [hsplit] at hpositive
  obtain ⟨hbefore, hbehind⟩ := List.forall_mem_append.mp hpositive
  have hgrant : 0 ≤ grant.amount := hbehind grant List.mem_cons_self
  have hsum : Grant.total (front ++ [grant]) = Grant.total front + grant.amount := by simp
  obtain ⟨store, hseed, hshows⟩ := token.exec_seed_append hnone hroom hsplit hbefore hfront
  have hsupply : token.ledger.supply { machine with store } = Grant.total front :=
    hshows.supply_eq
  have hmint := @Ledger.exec_mint_of_past grant.amount token.ledger { machine with store } hgrant
    (hsupply ▸ Grant.total_nonneg hbefore) (hsupply ▸ hpast) grant.address
  rw [hsupply, ← hsum] at hmint
  have hexec : token.contract.setUp.exec machine =
      (.error (.violation (.tooWide .supply (width (Grant.total (front ++ [grant]))))),
        { machine with store }) := by
    rw [Contract.exec_setUp, if_pos htrigger, contract_seed]
    exact exec_bind_error _ (hseed.trans (exec_bind_error _ hmint))
  have hchanges := token.changesOnly_setUp machine
  rw [hexec] at hchanges
  refine ⟨front, grant, rest, _, hsplit, fun sofar hsofar => ?_, hsum ▸ hpast, hexec,
    hshows.granted hroom hchanges⟩
  exact Int.le_trans (Grant.total_le_of_prefix hsofar hbefore) hfront

/-- On a machine with room and no records of the token, the setup goes through exactly if the
distribution adds up to a number within the bound of a supply. Then it is granted, and every
order of it leaves the same machine. Otherwise the setup fails at the first entry that gets
past the bound, and those before it are granted. -/
theorem setUp_by_total {service : String} {settings : TokenSettings}
    (htoken : Token.make service settings = .ok token)
    (htrigger : machine.trigger = .application)
    (hnone : ∀ key record, machine.store.get? key = some record → key.owner ≠ settings.id)
    (hlimit : machine.budget.limit = machine.limits.maxStackSize)
    (hfree : machine.budget.count + 2 ≤ machine.budget.limit)
    (hinteger : 32 ≤ machine.limits.maxIntegerSize) (hitem : 36 ≤ machine.limits.maxItemSize) :
    ((∃ after, token.contract.setUp.exec machine = (.ok true, after)) ↔
      Grant.total settings.distribution ≤ 2 ^ 255 - 1) ∧
    (∀ after, token.contract.setUp.exec machine = (.ok true, after) →
      token.ledger.Granted settings.distribution machine after ∧
      ∀ distribution : List Grant, distribution.Perm settings.distribution →
        ∃ other, Token.make service { settings with distribution } = .ok other ∧
          other.contract.setUp.exec machine = (.ok true, after)) ∧
    (2 ^ 255 - 1 < Grant.total settings.distribution →
      ∃ front grant rest after, token.Stops machine after front grant rest) := by
  obtain ⟨hcheck, rfl⟩ := make_eq_ok_iff.mp htoken
  have hroom : machine.HasRoom := .of_free hlimit hfree hinteger hitem
  have hpositive : Grant.Positive settings.distribution := fun grant hgrant =>
    (TokenSettings.check_eq_ok_iff.mp hcheck).2 grant.amount
      (List.mem_append_left _ (List.mem_map_of_mem hgrant))
  have hstops := exists_stops ⟨service, settings⟩ hnone htrigger hroom hpositive
  have hgranted := setUp_of_le ⟨service, settings⟩ hnone htrigger hroom hpositive
  have htotal : ∀ after, (contract ⟨service, settings⟩).setUp.exec machine = (.ok true, after) →
      Grant.total settings.distribution ≤ 2 ^ 255 - 1 := by
    intro after hexec
    refine Int.not_lt.mp fun h => ?_
    obtain ⟨front, grant, rest, found, hstop⟩ := hstops h
    cases hstop.exec_eq.symm.trans hexec
  refine ⟨⟨fun h => h.elim htotal, fun h => (hgranted h).imp fun _ h => h.1⟩, ?_, hstops⟩
  intro after hexec
  obtain ⟨found, hfound, hrecords, -⟩ := hgranted (htotal after hexec)
  cases hfound.symm.trans hexec
  refine ⟨hrecords, fun distribution hperm => ?_⟩
  exact ⟨_, make_eq_ok_iff.mpr ⟨TokenSettings.check_perm hperm hcheck, rfl⟩,
    (setUp_perm ⟨service, settings⟩ ⟨service, { settings with distribution }⟩ rfl hperm hnone
      htrigger hroom hpositive (htotal after hexec)).trans hexec⟩

/-- Settings for one distribution to two addresses. -/
def spread (distribution : List Grant) : TokenSettings :=
  { id := 5, name := "Spread", symbol := "S", decimals := 0, distribution }

def alice : List UInt8 := List.replicate 20 1

def bob : List UInt8 := List.replicate 20 2

/-- Two entries for one address and none of worth for the other, then an amount past the bound. -/
theorem setUp_by_total_spread :
    (∃ after, (contract ⟨"Spread", spread [⟨alice, 2⟩, ⟨bob, 0⟩, ⟨alice, 3⟩]⟩).setUp.exec
          (.start .application) = (.ok true, after) ∧
        Ledger.balance ⟨5⟩ alice after = .ok 5 ∧
        after.store.contains (Ledger.accountKey ⟨5⟩ bob) = true) ∧
      ∃ front grant rest after,
        Stops ⟨"Spread", spread [⟨alice, 2 ^ 255 - 1⟩, ⟨bob, 0⟩, ⟨bob, 1⟩]⟩ (.start .application)
          after front grant rest := by
  have hnone : ∀ key record, (Machine.start .application).store.get? key = some record →
      key.owner ≠ 5 := by
    intro key record hget
    cases hget
  have hsetUp := fun distribution htoken =>
    @setUp_by_total ⟨"Spread", spread distribution⟩ (.start .application) "Spread"
      (spread distribution) htoken rfl hnone rfl (by decide) (by decide) (by decide)
  obtain ⟨hiff, hgranted, -⟩ := hsetUp [⟨alice, 2⟩, ⟨bob, 0⟩, ⟨alice, 3⟩] (by decide +kernel)
  obtain ⟨-, -, hpast⟩ := hsetUp [⟨alice, 2 ^ 255 - 1⟩, ⟨bob, 0⟩, ⟨bob, 1⟩] (by decide +kernel)
  obtain ⟨after, hexec⟩ := hiff.mpr (by decide +kernel)
  obtain ⟨hrecords, -⟩ := hgranted after hexec
  refine ⟨⟨after, hexec, ?_, ?_⟩, hpast (by decide +kernel)⟩
  · rw [show (5 : Int) = Grant.share [⟨alice, 2⟩, ⟨bob, 0⟩, ⟨alice, 3⟩] alice by decide +kernel]
    exact hrecords.balance_eq alice
  · exact (hrecords.contains_iff _ rfl).mpr (.inr ⟨⟨bob, 0⟩, by decide, rfl⟩)

end Token

end NativeContracts
