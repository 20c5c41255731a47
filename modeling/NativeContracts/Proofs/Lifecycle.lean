import Mathlib.Algebra.Order.Ring.Nat
import Mathlib.Tactic.Ring
import NativeContracts.Proofs.Configuration
import NativeContracts.Proofs.Isolation

/-! The tokens of a configuration from their setup on. Each token is alone with its records,
so that one setup opens all of them and each block pays all rewards. After any number of
blocks, on whatever machines, supplies and balances are those that the configuration adds
up to, as long as no supply outgrows what a ledger holds, and nothing else is on record. -/

namespace NativeContracts

open Run

/-- A machine under the default limits with nothing on its stacks. -/
structure Machine.Idle (trigger : Trigger) (machine : Machine) : Prop where
  trigger_eq : machine.trigger = trigger
  limits_eq : machine.limits = {}
  budget_eq : machine.budget = { limit := ({} : Limits).maxStackSize }

theorem Machine.Idle.hasRoom {trigger : Trigger} {machine : Machine} (h : machine.Idle trigger) :
    machine.HasRoom := by
  constructor
  · rw [h.budget_eq]
    decide
  · rw [h.limits_eq]
    decide
  · rw [h.limits_eq]
    decide
  · rw [h.limits_eq]
    decide

theorem Machine.idle_start (trigger : Trigger) (store : Store) :
    (Machine.start trigger store).Idle trigger := ⟨rfl, rfl, rfl⟩

/-! ## What a token has granted -/

namespace Token

variable {token : Token} {blocks : Nat}

/-- The grants of a token until so many blocks after its setup. -/
def grantsAfter (token : Token) (blocks : Nat) : List Grant :=
  token.settings.distribution ++ (List.replicate blocks token.blockGrants).flatten

theorem grantsAfter_zero (token : Token) : token.grantsAfter 0 = token.settings.distribution :=
  List.append_nil _

theorem grantsAfter_succ (token : Token) (blocks : Nat) :
    token.grantsAfter (blocks + 1) = token.grantsAfter blocks ++ token.blockGrants := by
  simp [grantsAfter, List.replicate_succ', List.append_assoc]

end Token

namespace TokenSection

variable {asked : TokenSection} {token : Token} {address : List UInt8}

theorem Rewards.unique {other : List UInt8} (h : asked.Rewards address)
    (hother : asked.Rewards other) : address = other := by
  obtain ⟨account, haccount, haddress⟩ := h
  obtain ⟨found, hfound, hdecode⟩ := hother
  rw [haccount, Option.some.injEq] at hfound
  subst hfound
  rw [haddress, Except.ok.injEq] at hdecode
  exact hdecode

theorem Makes.total_blockGrants (h : asked.Makes token) (hvalid : asked.broken? = none) :
    Grant.total token.blockGrants = asked.reward.toNat := by
  rcases h.blockGrants_cases hvalid with ⟨hzero, hnone⟩ | ⟨-, address, -, hgrants⟩
  · rw [hnone, hzero]
    rfl
  · simp [hgrants]

theorem Makes.share_blockGrants (h : asked.Makes token) (hvalid : asked.broken? = none)
    (address : List UInt8) :
    Grant.share token.blockGrants address =
      if asked.Rewards address then asked.reward.toNat else 0 := by
  rcases h.blockGrants_cases hvalid with ⟨hzero, hnone⟩ | ⟨-, rewarded, hrewarded, hgrants⟩
  · rw [hnone, hzero]
    split <;> rfl
  · rw [hgrants, Grant.share_singleton]
    by_cases hsame : rewarded = address
    · rw [if_pos hsame, if_pos (hsame ▸ hrewarded)]
    · rw [if_neg hsame, if_neg fun hother => hsame (hrewarded.unique hother)]
      rfl

theorem Makes.positive_blockGrants (h : asked.Makes token) (hvalid : asked.broken? = none) :
    Grant.Positive token.blockGrants := by
  rcases h.blockGrants_cases hvalid with ⟨-, hnone⟩ | ⟨-, address, -, hgrants⟩
  · simp [hnone, Grant.Positive]
  · simp [hgrants, Grant.Positive]

theorem Makes.total_grantsAfter (h : asked.Makes token) (hvalid : asked.broken? = none)
    (blocks : Nat) :
    Grant.total (token.grantsAfter blocks) = asked.total + blocks * asked.reward.toNat := by
  induction blocks with
  | zero => rw [token.grantsAfter_zero, h.total_eq, Nat.cast_zero, Int.zero_mul, Int.add_zero]
  | succ blocks ih =>
    rw [token.grantsAfter_succ, Grant.total_append, ih, h.total_blockGrants hvalid]
    push_cast
    ring

theorem Makes.share_grantsAfter (h : asked.Makes token) (hvalid : asked.broken? = none)
    (blocks : Nat) (address : List UInt8) :
    Grant.share (token.grantsAfter blocks) address =
      asked.granted address + if asked.Rewards address then blocks * asked.reward.toNat else 0 := by
  induction blocks with
  | zero => simp [token.grantsAfter_zero, h.share_eq]
  | succ blocks ih =>
    rw [token.grantsAfter_succ, Grant.share_append, ih, h.share_blockGrants hvalid]
    split
    · push_cast
      ring
    · rfl

theorem Makes.positive_grantsAfter (h : asked.Makes token) (hvalid : asked.broken? = none)
    (blocks : Nat) : Grant.Positive (token.grantsAfter blocks) := by
  induction blocks with
  | zero => exact token.grantsAfter_zero ▸ h.positive
  | succ blocks ih =>
    rw [token.grantsAfter_succ]
    exact List.forall_mem_append.mpr ⟨ih, h.positive_blockGrants hvalid⟩

theorem Makes.mem_blockGrants_iff (h : asked.Makes token) (hvalid : asked.broken? = none)
    (address : List UInt8) :
    (∃ grant ∈ token.blockGrants, grant.address = address) ↔
      asked.reward ≠ 0 ∧ asked.Rewards address := by
  rcases h.blockGrants_cases hvalid with ⟨hzero, hnone⟩ | ⟨hreward, rewarded, hrewarded, hgrants⟩
  · simp [hnone, hzero]
  · rw [hgrants]
    simp only [List.mem_singleton, exists_eq_left]
    refine ⟨?_, fun hother => hrewarded.unique hother.2⟩
    rintro rfl
    exact ⟨hreward, hrewarded⟩

/-- An address has a grant if an entry is for it, or if it was rewarded. -/
theorem Makes.mem_grantsAfter_iff (h : asked.Makes token) (hvalid : asked.broken? = none)
    (blocks : Nat) (address : List UInt8) :
    (∃ grant ∈ token.grantsAfter blocks, grant.address = address) ↔
      (∃ entry ∈ asked.distribution, decodeAddress entry.account = .ok address) ∨
        0 < blocks ∧ asked.reward ≠ 0 ∧ asked.Rewards address := by
  induction blocks with
  | zero => simp [token.grantsAfter_zero, h.mem_distribution_iff]
  | succ blocks ih =>
    simp only [token.grantsAfter_succ, List.mem_append, or_and_right, exists_or, ih,
      h.mem_blockGrants_iff hvalid, Nat.succ_pos, true_and]
    by_cases hrewarded : asked.reward ≠ 0 ∧ asked.Rewards address
    · exact iff_of_true (.inr hrewarded) (.inr hrewarded)
    · simp only [hrewarded, and_false, or_false]

/-! ### What a store shows of them -/

section

variable {store : Store} {machine : Machine} {blocks : Nat}

theorem Makes.ledger_eq (h : asked.Makes token) : token.ledger = ⟨asked.id⟩ := by
  rw [Token.ledger, h.id_eq]

theorem Makes.supply_eq (h : asked.Makes token) (hvalid : asked.broken? = none)
    (hshows : token.ledger.Shows (token.grantsAfter blocks) machine.store) :
    (Ledger.mk asked.id).supply machine = asked.total + blocks * asked.reward.toNat := by
  rw [← h.ledger_eq, Ledger.supply_eq, hshows.supply_eq, h.total_grantsAfter hvalid]

theorem Makes.balance_eq (h : asked.Makes token) (hvalid : asked.broken? = none)
    (hshows : token.ledger.Shows (token.grantsAfter blocks) machine.store)
    (hinteger : integerWidth ≤ machine.limits.maxIntegerSize)
    (hstack : 2 ≤ machine.limits.maxStackSize) (address : List UInt8) :
    (Ledger.mk asked.id).balance address machine = .ok (asked.granted address +
      if asked.Rewards address then blocks * asked.reward.toNat else 0) := by
  rw [← h.ledger_eq, hshows.canonical.balance_eq hinteger hstack, hshows.balance_eq,
    h.share_grantsAfter hvalid]

theorem Makes.contains_iff (h : asked.Makes token) (hvalid : asked.broken? = none)
    (hshows : token.ledger.Shows (token.grantsAfter blocks) store) {key : Key}
    (howner : key.owner = asked.id) :
    store.contains key = true ↔
      key = ⟨asked.id, [11]⟩ ∨ ∃ address, key = ⟨asked.id, 20 :: address⟩ ∧
        ((∃ entry ∈ asked.distribution, decodeAddress entry.account = .ok address) ∨
          0 < blocks ∧ asked.reward ≠ 0 ∧ asked.Rewards address) := by
  have hkeys := hshows.contains_iff key
  rw [h.ledger_eq] at hkeys
  rw [hkeys howner]
  refine or_congr Iff.rfl ⟨?_, ?_⟩
  · rintro ⟨grant, hgrant, hkey⟩
    exact ⟨grant.address, hkey, (h.mem_grantsAfter_iff hvalid _ _).mp ⟨grant, hgrant, rfl⟩⟩
  · rintro ⟨address, hkey, haddress⟩
    obtain ⟨grant, hgrant, rfl⟩ := (h.mem_grantsAfter_iff hvalid _ _).mpr haddress
    exact ⟨grant, hgrant, hkey⟩

end

end TokenSection

/-! ## All tokens of a registry -/

namespace Registry

variable {registry : Registry} {tokens : List Token} {grants : Token → List Grant}
  {machine : Machine} {store : Store} {blocks : Nat}

/-- The store shows the grants of each token, and nobody else has a record. -/
structure ShowsAll (tokens : List Token) (grants : Token → List Grant) (store : Store) : Prop where
  shows : ∀ token ∈ tokens, token.ledger.Shows (grants token) store
  owned : ∀ key, store.contains key = true → key.owner ∈ tokens.map (·.settings.id)

/-- What each token does alone, all of them do one after another. -/
theorem exec_gather_showsAll {α β : Type} {act : Token → Run α} {combine : β → α → β} {total : β}
    (value : α) (hact : ∀ token : Token, Confined token.settings.id (act token))
    (hsame : combine total value = total) (hids : (tokens.map (·.settings.id)).Nodup)
    (howned : ∀ key, machine.store.contains key = true → key.owner ∈ tokens.map (·.settings.id))
    (halone : ∀ token ∈ tokens, ∃ store, (act token).exec machine =
      (.ok value, { machine with store }) ∧ token.ledger.Shows (grants token) store) :
    ∃ store, (gather combine act total tokens).exec machine = (.ok total, { machine with store }) ∧
      ShowsAll tokens grants store := by
  have hok : ∀ token ∈ tokens, ((act token).exec machine).1 = .ok value := by
    intro token htoken
    obtain ⟨store, hexec, -⟩ := halone token htoken
    rw [hexec]
  obtain ⟨store, hexec, hown, hnone⟩ := exec_gather hact hsame hids hok
  refine ⟨store, hexec, ⟨fun token htoken => ?_, fun key hkey => ?_⟩⟩
  · obtain ⟨alone, halone, hshows⟩ := halone token htoken
    refine hshows.congr fun key hkey => ?_
    rw [hown token htoken key hkey, halone]
  · by_contra hother
    rw [Store.contains, hnone key hother] at hkey
    exact hother (howned key hkey)

theorem exec_setUpAll (hregistry : registry.contracts.toList = tokens.map Token.contract)
    (hids : (tokens.map (·.settings.id)).Nodup) (hidle : machine.Idle .application)
    (hempty : machine.store = {})
    (hpositive : ∀ token ∈ tokens, Grant.Positive token.settings.distribution)
    (htotal : ∀ token ∈ tokens, Grant.total token.settings.distribution ≤ 2 ^ 255 - 1) :
    ∃ store, registry.setUpAll.exec machine = (.ok (), { machine with store }) ∧
      ShowsAll tokens (·.grantsAfter 0) store := by
  rw [setUpAll_eq hregistry]
  refine exec_gather_showsAll true Token.confined_setUp rfl hids (fun key hkey => ?_)
    fun token htoken => ?_
  · rw [hempty] at hkey
    cases hkey
  · rw [token.grantsAfter_zero]
    refine token.exec_setUp (fun key record hget => ?_) hidle.trigger_eq hidle.hasRoom
      (hpositive token htoken) (htotal token htoken)
    rw [hempty] at hget
    cases hget

theorem exec_onPersistAll (hregistry : registry.contracts.toList = tokens.map Token.contract)
    (hids : (tokens.map (·.settings.id)).Nodup) (hidle : machine.Idle .system)
    (h : ShowsAll tokens (·.grantsAfter blocks) machine.store)
    (hpositive : ∀ token ∈ tokens, Grant.Positive (token.grantsAfter (blocks + 1)))
    (htotal : ∀ token ∈ tokens, Grant.total (token.grantsAfter (blocks + 1)) ≤ 2 ^ 255 - 1) :
    ∃ store, registry.onPersistAll.exec machine = (.ok true, { machine with store }) ∧
      ShowsAll tokens (·.grantsAfter (blocks + 1)) store := by
  rw [onPersistAll_eq hregistry]
  refine exec_gather_showsAll true confined_worked rfl hids h.owned fun token htoken => ?_
  have hpositive := hpositive token htoken
  have htotal := htotal token htoken
  rw [token.grantsAfter_succ] at hpositive htotal
  obtain ⟨store, hexec, hshows⟩ :=
    token.exec_onPersist (h.shows token htoken) hidle.trigger_eq hidle.hasRoom hpositive htotal
  refine ⟨store, exec_bind_ok _ hexec, ?_⟩
  rwa [token.grantsAfter_succ]

/-- Blocks one after another, each on an idle machine that has the store so far, with what the
work for them gave back. -/
inductive Blocks (registry : Registry) (first : Store) : List (Except Error Bool) → Store → Prop
  | start : Blocks registry first [] first
  | block {outcomes : List (Except Error Bool)} {machine : Machine}
    (h : Blocks registry first outcomes machine.store) (hidle : machine.Idle .system) :
    Blocks registry first (outcomes ++ [(registry.onPersistAll.exec machine).1])
      (registry.onPersistAll.exec machine).2.store

/-- There is always a next block. -/
theorem exists_blocks (registry : Registry) (first : Store) (blocks : Nat) :
    ∃ outcomes store, outcomes.length = blocks ∧ registry.Blocks first outcomes store := by
  induction blocks with
  | zero => exact ⟨[], first, rfl, .start⟩
  | succ blocks ih =>
    obtain ⟨outcomes, store, hlength, hblocks⟩ := ih
    have hstore : registry.Blocks first outcomes (Machine.start .system store).store := hblocks
    exact ⟨_, _, by simp [hlength], hstore.block (Machine.idle_start .system store)⟩

/-- Every block pays, as long as no supply outgrows its bound. -/
theorem Blocks.showsAll {first : Store} {outcomes : List (Except Error Bool)}
    (h : registry.Blocks first outcomes store)
    (hregistry : registry.contracts.toList = tokens.map Token.contract)
    (hids : (tokens.map (·.settings.id)).Nodup) (hfirst : ShowsAll tokens (·.grantsAfter 0) first)
    (hpositive : ∀ token ∈ tokens, ∀ blocks, Grant.Positive (token.grantsAfter blocks))
    (htotal : ∀ token ∈ tokens, Grant.total (token.grantsAfter outcomes.length) ≤ 2 ^ 255 - 1) :
    (∀ outcome ∈ outcomes, outcome = .ok true) ∧
      ShowsAll tokens (·.grantsAfter outcomes.length) store := by
  induction h with
  | start => exact ⟨by simp, hfirst⟩
  | @block outcomes machine h hidle ih =>
    rw [List.length_append, List.length_singleton] at htotal ⊢
    -- A block takes nothing, so the supplies before it were no larger.
    have hless : ∀ token ∈ tokens,
        Grant.total (token.grantsAfter outcomes.length) ≤ 2 ^ 255 - 1 := by
      intro token htoken
      have hnext := htotal token htoken
      have hblock := hpositive token htoken (outcomes.length + 1)
      rw [token.grantsAfter_succ] at hnext hblock
      rw [Grant.total_append] at hnext
      have := Grant.total_nonneg (List.forall_mem_append.mp hblock).2
      omega
    obtain ⟨houtcomes, hshows⟩ := ih hless
    obtain ⟨later, hexec, hlater⟩ := exec_onPersistAll hregistry hids hidle hshows
      (fun token htoken => hpositive token htoken _) htotal
    rw [hexec]
    exact ⟨List.forall_mem_append.mpr ⟨houtcomes, by simp⟩, hlater⟩

end Registry

/-! ## From a configuration on -/

namespace Config

variable {config : Config} {registry : Registry} {machine : Machine}

/-- Amounts are words, so that fewer than 2 ^ 191 of them stay within the bound. -/
theorem total_le (hentries : (config.tokens.map (·.distribution.length)).sum < 2 ^ 191)
    {asked : TokenSection} (hasked : asked ∈ config.tokens) : asked.total ≤ 2 ^ 255 - 1 := by
  have hlength : asked.distribution.length < 2 ^ 191 :=
    (List.le_sum_of_mem (List.mem_map_of_mem hasked)).trans_lt hentries
  have htotal : asked.total ≤ asked.distribution.length * (2 ^ 64 - 1) := by
    have hword : ∀ amount ∈ asked.distribution.map (·.amount.toNat), amount ≤ 2 ^ 64 - 1 := by
      intro amount hamount
      obtain ⟨entry, -, rfl⟩ := List.mem_map.mp hamount
      have := entry.amount.toNat_lt
      omega
    simpa [TokenSection.total] using List.sum_le_card_nsmul _ _ hword
  omega

/-- What the registry of a configuration comes to. The setup of all its tokens goes through,
and so does each block on an idle machine, as long as no supply outgrows its bound. Then a
supply is what the entries of the section add up to and a reward for each block, an account
has what its own entries add up to and the rewards that are for it, and there are no other
records. -/
theorem balances_after_blocks (hvalid : config.broken? = none)
    (hregistry : Registry.ofConfig config = .ok registry)
    (hentries : (config.tokens.map (·.distribution.length)).sum < 2 ^ 191)
    (hidle : machine.Idle .application) (hempty : machine.store = {}) :
    (registry.setUpAll.exec machine).1 = .ok () ∧
    ∀ outcomes store, registry.Blocks (registry.setUpAll.exec machine).2.store outcomes store →
      (∀ asked ∈ config.tokens,
        asked.total + outcomes.length * asked.reward.toNat ≤ 2 ^ 255 - 1) →
      (∀ outcome ∈ outcomes, outcome = .ok true) ∧
      (∀ asked ∈ config.tokens, ∀ machine : Machine, machine.store = store →
        32 ≤ machine.limits.maxIntegerSize → 2 ≤ machine.limits.maxStackSize →
        (Ledger.mk asked.id).supply machine =
            asked.total + outcomes.length * asked.reward.toNat ∧
          ∀ address, (Ledger.mk asked.id).balance address machine = .ok (asked.granted address +
            if asked.Rewards address then outcomes.length * asked.reward.toNat else 0)) ∧
      ∀ key, store.contains key = true ↔ ∃ asked ∈ config.tokens,
        key = ⟨asked.id, [11]⟩ ∨ ∃ address, key = ⟨asked.id, 20 :: address⟩ ∧
          ((∃ entry ∈ asked.distribution, decodeAddress entry.account = .ok address) ∨
            0 < outcomes.length ∧ asked.reward ≠ 0 ∧ asked.Rewards address) := by
  obtain ⟨tokens, hlist, hids, hasked, hmade⟩ :=
    Registry.exists_tokens_of_ofConfig hvalid hregistry
  have hpositive : ∀ token ∈ tokens, ∀ blocks, Grant.Positive (token.grantsAfter blocks) := by
    intro token htoken
    obtain ⟨asked, -, hvalid, hmakes⟩ := hasked token htoken
    exact hmakes.positive_grantsAfter hvalid
  have hseedTotal : ∀ token ∈ tokens, Grant.total token.settings.distribution ≤ 2 ^ 255 - 1 := by
    intro token htoken
    obtain ⟨asked, hmem, -, hmakes⟩ := hasked token htoken
    have htotal := total_le hentries hmem
    rw [hmakes.total_eq]
    omega
  obtain ⟨seeded, hexec, hseeded⟩ := Registry.exec_setUpAll hlist hids hidle hempty
    (fun token htoken => token.grantsAfter_zero ▸ hpositive token htoken 0) hseedTotal
  rw [hexec]
  refine ⟨rfl, fun outcomes store hblocks htotal => ?_⟩
  have hblockTotal : ∀ token ∈ tokens,
      Grant.total (token.grantsAfter outcomes.length) ≤ 2 ^ 255 - 1 := by
    intro token htoken
    obtain ⟨asked, hmem, hvalid, hmakes⟩ := hasked token htoken
    have htotal := htotal asked hmem
    rw [hmakes.total_grantsAfter hvalid]
    omega
  obtain ⟨houtcomes, hshows⟩ := hblocks.showsAll hlist hids hseeded hpositive hblockTotal
  refine ⟨houtcomes, ?values, fun key => ⟨?recorded, ?listed⟩⟩
  case values =>
    rintro asked hmem machine rfl hinteger hstack
    obtain ⟨token, htoken, hvalid, hmakes⟩ := hmade asked hmem
    have hshows := hshows.shows token htoken
    exact ⟨hmakes.supply_eq hvalid hshows, hmakes.balance_eq hvalid hshows hinteger hstack⟩
  case recorded =>
    intro hkey
    obtain ⟨token, htoken, howner⟩ := List.mem_map.mp (hshows.owned key hkey)
    obtain ⟨asked, hmem, hvalid, hmakes⟩ := hasked token htoken
    rw [hmakes.id_eq] at howner
    exact ⟨asked, hmem,
      (hmakes.contains_iff hvalid (hshows.shows token htoken) howner.symm).mp hkey⟩
  case listed =>
    rintro ⟨asked, hmem, hkey⟩
    obtain ⟨token, htoken, hvalid, hmakes⟩ := hmade asked hmem
    have howner : key.owner = asked.id := by
      rcases hkey with rfl | ⟨address, rfl, -⟩
      · rfl
      · rfl
    exact (hmakes.contains_iff hvalid (hshows.shows token htoken) howner).mpr hkey

/-- One address in two spellings, each with an entry, and the first with the reward. -/
def rewarded : List UInt8 := List.replicate 19 0x00 ++ [0xAB]

def gas : TokenSection where
  distribution := [⟨"00000000000000000000000000000000000000ab", 30⟩,
    ⟨"0x0x00000000000000000000000000000000000000AB", 5⟩]
  reward := 2
  rewardAccount := some "00000000000000000000000000000000000000ab"

def gasOnly : Config := { tokens := [gas] }

theorem exists_ofConfig_gasOnly : ∃ registry, Registry.ofConfig gasOnly = .ok registry := by
  have hmade : (Token.ofSection gas).isOk = true := by decide +kernel
  rcases htoken : Token.ofSection gas with error | token
  · rw [htoken] at hmade
    cases hmade
  · obtain ⟨registry, hregistry⟩ := Registry.exists_ofContracts
      (show Registry.Distinct [token.contract] from ⟨by simp, by simp⟩)
    exact ⟨registry, Registry.ofConfig_eq_ok_iff.mpr ⟨[token], .cons htoken .nil, hregistry⟩⟩

theorem balances_after_blocks_gasOnly :
    ∃ registry, Registry.ofConfig gasOnly = .ok registry ∧
      ∃ outcomes store, outcomes.length = 2 ∧
        registry.Blocks (registry.setUpAll.exec (.start .application)).2.store outcomes store ∧
        (∀ outcome ∈ outcomes, outcome = .ok true) ∧
        (Ledger.mk (-2)).supply (.start .system store) = 39 ∧
        (Ledger.mk (-2)).balance rewarded (.start .system store) = .ok 39 ∧
        store.contains ⟨-2, 20 :: rewarded⟩ = true := by
  obtain ⟨registry, hregistry⟩ := exists_ofConfig_gasOnly
  obtain ⟨-, hblocks⟩ := balances_after_blocks (by decide +kernel) hregistry (by decide +kernel)
    (Machine.idle_start .application {}) rfl
  obtain ⟨outcomes, store, hlength, htwo⟩ :=
    registry.exists_blocks (registry.setUpAll.exec (.start .application)).2.store 2
  have hgas : gas ∈ gasOnly.tokens := List.mem_singleton_self gas
  obtain ⟨houtcomes, hvalues, hkeys⟩ := hblocks outcomes store htwo (by
    rw [hlength]
    decide +kernel)
  obtain ⟨hsupply, hbalance⟩ := hvalues gas hgas (.start .system store) rfl
    (show 32 ≤ 32 by decide) (show 2 ≤ 2048 by decide)
  have hbalance := hbalance rewarded
  rw [hlength] at hsupply hbalance
  refine ⟨registry, hregistry, outcomes, store, hlength, htwo, houtcomes,
    hsupply.trans (by decide +kernel), hbalance.trans (by decide +kernel), ?_⟩
  exact (hkeys _).mpr ⟨gas, hgas, .inr ⟨rewarded, rfl, .inl (by decide +kernel)⟩⟩

end Config

end NativeContracts
