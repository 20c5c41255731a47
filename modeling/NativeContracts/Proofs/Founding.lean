import NativeContracts.Proofs.Addresses
import NativeContracts.Proofs.Configuration
import NativeContracts.Proofs.Lookup
import NativeContracts.Proofs.Seeding

/-! The registry of a configuration. There is one exactly if all accounts of all sections are
addresses and no two sections share a service or an id, and then it has a token for each
section, in order. Otherwise the error is about the earliest section that does not go with those
before it: about its accounts in their order, then about its service, and last about its id. -/

namespace NativeContracts

/-! ## A section by itself -/

namespace TokenSection

variable {asked : TokenSection} {settings : TokenSettings} {token : Token} {error : Error}

/-- The texts of a section that have to be addresses, in the order in which they are read. -/
def accounts (asked : TokenSection) : List String :=
  asked.distribution.map (·.account) ++ asked.rewardAccount.toList

/-- The token has what the section says, with the addresses that its texts spell. -/
structure Gives (asked : TokenSection) (token : Token) : Prop where
  service_eq : token.service = asked.service
  id_eq : token.settings.id = asked.id
  name_eq : token.settings.name = asked.name
  symbol_eq : token.settings.symbol = asked.symbol
  decimals_eq : token.settings.decimals = asked.decimals
  distribution : List.Forall₂ (fun entry grant =>
    Spells entry.account grant.address ∧ grant.amount = entry.amount.toNat)
    asked.distribution token.settings.distribution
  reward_eq : token.settings.reward = asked.reward.toNat
  rewardAddress : Option.Rel Spells asked.rewardAccount token.settings.rewardAddress

/-- To read the texts is to read the section, up to what its settings have beside addresses. -/
theorem mapM_accounts (asked : TokenSection) :
    asked.accounts.mapM decodeAddress =
      (fun settings => settings.distribution.map (·.address) ++ settings.rewardAddress.toList) <$>
        TokenSettings.ofSection asked := by
  have hentries : ∀ entries : List Allotment,
      (entries.map (·.account)).mapM decodeAddress =
        List.map Grant.address <$> entries.mapM Grant.ofAllotment := by
    intro entries
    induction entries with
    | nil => rfl
    | cons entry entries ih =>
      rw [List.map_cons, List.mapM_cons, List.mapM_cons, ih, Grant.ofAllotment]
      rcases decodeAddress entry.account with _ | address
      · rfl
      · rcases entries.mapM Grant.ofAllotment with _ | grants <;> rfl
  rw [accounts, List.mapM_append, hentries, TokenSettings.ofSection]
  rcases asked.distribution.mapM Grant.ofAllotment with _ | grants
  · rfl
  · rcases asked.rewardAccount with _ | account
    · rfl
    · simp only [Option.toList_some, List.mapM_cons]
      rcases decodeAddress account with _ | address <;> rfl

/-- The settings of a section without its reward. -/
def unrewarded (asked : TokenSection) (grants : List Grant) : TokenSettings where
  id := asked.id
  name := asked.name
  symbol := asked.symbol
  decimals := asked.decimals
  distribution := grants

theorem settings_cases (h : TokenSettings.ofSection asked = .ok settings) :
    ∃ grants, asked.distribution.mapM Grant.ofAllotment = .ok grants ∧
      (asked.rewardAccount = none ∧ settings = asked.unrewarded grants ∨
        ∃ account address, asked.rewardAccount = some account ∧
          decodeAddress account = .ok address ∧
          settings = { asked.unrewarded grants with
            rewardAddress := some address, reward := asked.reward.toNat }) := by
  obtain ⟨grants, hgrants, hreward⟩ := bind_eq_ok_iff.mp h
  refine ⟨grants, hgrants, ?_⟩
  rcases haccount : asked.rewardAccount with _ | account
  · rw [haccount] at hreward
    cases hreward
    exact .inl ⟨rfl, rfl⟩
  · rw [haccount] at hreward
    obtain ⟨address, haddress, hresult⟩ := bind_eq_ok_iff.mp hreward
    cases hresult
    exact .inr ⟨account, address, rfl, haddress, rfl⟩

/-- What a section is read as passes the check of a token's settings. -/
theorem check_of_ofSection (h : TokenSettings.ofSection asked = .ok settings) :
    settings.check = .ok () := by
  have haccounts := asked.mapM_accounts
  rw [h] at haccounts
  refine TokenSettings.check_eq_ok_iff.mpr ⟨fun address hmem => ?_, ?_⟩
  · obtain ⟨account, -, haddress⟩ := exists_left_of_forall₂ (mapM_eq_ok_iff.mp haccounts) hmem
    exact (decodeAddress_eq_ok_iff.mp haddress).1
  · obtain ⟨grants, hgrants, hsettings⟩ := settings_cases h
    have hamounts : ∀ amount ∈ grants.map (·.amount), 0 ≤ amount :=
      List.forall_mem_map.mpr (positive_of_ofAllotment (mapM_eq_ok_iff.mp hgrants))
    refine List.forall_mem_append.mpr ⟨?_, List.forall_mem_singleton.mpr ?_⟩
    · rcases hsettings with ⟨-, rfl⟩ | ⟨_, _, -, -, rfl⟩ <;> exact hamounts
    · rcases hsettings with ⟨-, rfl⟩ | ⟨_, _, -, -, rfl⟩
      · exact Int.le_refl 0
      · exact Int.natCast_nonneg _

theorem ofSection_eq (asked : TokenSection) :
    Token.ofSection asked = Token.mk asked.service <$> TokenSettings.ofSection asked := by
  rcases hsettings : TokenSettings.ofSection asked with error | settings
  · rw [Token.ofSection, hsettings]
    rfl
  · rw [Token.ofSection, hsettings]
    exact Token.make_eq_ok_iff.mpr ⟨check_of_ofSection hsettings, rfl⟩

/-- A section is refused for the first of its texts that is no address. -/
theorem ofSection_eq_error_iff :
    Token.ofSection asked = .error error ↔ ∃ front account back,
      asked.accounts = front ++ account :: back ∧ (∀ other ∈ front, IsAddress other) ∧
        Misspelled account error := by
  have hsame : Token.ofSection asked = .error error ↔
      asked.accounts.mapM decodeAddress = .error error := by
    rw [ofSection_eq, mapM_accounts]
    rcases TokenSettings.ofSection asked with _ | settings <;> simp
  simp only [hsame, mapM_eq_error_iff, exists_decodeAddress_iff, decodeAddress_eq_error_iff]

theorem exists_ofSection (h : ∀ account ∈ asked.accounts, IsAddress account) :
    ∃ token, Token.ofSection asked = .ok token := by
  rcases htoken : Token.ofSection asked with error | token
  · obtain ⟨front, account, back, hsplit, -, hwrong⟩ := ofSection_eq_error_iff.mp htoken
    obtain ⟨address, haddress⟩ := exists_decodeAddress_iff.mpr (h account (by simp [hsplit]))
    rw [decodeAddress_of_misspelled hwrong] at haddress
    cases haddress
  · exact ⟨token, rfl⟩

theorem gives_of_ofSection (hvalid : asked.broken? = none) (h : Token.ofSection asked = .ok token) :
    asked.Gives token := by
  obtain ⟨settings, hsettings, hmake⟩ := bind_eq_ok_iff.mp h
  obtain ⟨-, rfl⟩ := Token.make_eq_ok_iff.mp hmake
  obtain ⟨grants, hgrants, hreward⟩ := settings_cases hsettings
  have hdistribution : List.Forall₂ (fun entry grant =>
      Spells entry.account grant.address ∧ grant.amount = entry.amount.toNat)
      asked.distribution grants :=
    (mapM_eq_ok_iff.mp hgrants).imp fun entry grant hgrant =>
      (ofAllotment_eq_ok_iff.mp hgrant).imp_left decodeAddress_eq_ok_iff.mp
  rcases hreward with ⟨hnone, rfl⟩ | ⟨account, address, haccount, haddress, rfl⟩
  · have hzero := reward_eq_zero hvalid hnone
    exact ⟨rfl, rfl, rfl, rfl, rfl, hdistribution, by rw [hzero]; rfl, hnone ▸ .none⟩
  · exact ⟨rfl, rfl, rfl, rfl, rfl, hdistribution, rfl,
      haccount ▸ .some (decodeAddress_eq_ok_iff.mp haddress)⟩

/-! ## A section among others -/

/-- How a section fails, behind sections that do not. -/
inductive Breaks (asked : TokenSection) (earlier : List TokenSection) : Error → Prop where
  | account {front back : List String} {account : String} {error : Error}
      (hsplit : asked.accounts = front ++ account :: back)
      (hfront : ∀ other ∈ front, IsAddress other) (hwrong : Misspelled account error) :
      Breaks asked earlier error
  | sameService {owner : TokenSection} (haccounts : ∀ account ∈ asked.accounts, IsAddress account)
      (howner : owner ∈ earlier) (hservice : Service.ofName owner.service = .ofName asked.service) :
      Breaks asked earlier
        (.collision (.sameService owner.service asked.service (.ofName asked.service)))
  | sameId {owner : TokenSection} (haccounts : ∀ account ∈ asked.accounts, IsAddress account)
      (hservice : ∀ other ∈ earlier, Service.ofName other.service ≠ .ofName asked.service)
      (howner : owner ∈ earlier) (hid : owner.id = asked.id) :
      Breaks asked earlier (.collision (.sameId owner.service asked.service asked.id))

/-- Sections that make a registry. -/
structure Sound (sections : List TokenSection) : Prop where
  accounts : ∀ asked ∈ sections, ∀ account ∈ asked.accounts, IsAddress account
  services : (sections.map fun asked => Service.ofName asked.service).Nodup
  ids : (sections.map (·.id)).Nodup

variable {sections front back earlier : List TokenSection}

theorem Sound.append_singleton (h : Sound earlier)
    (haccounts : ∀ account ∈ asked.accounts, IsAddress account)
    (hservice : ∀ other ∈ earlier, Service.ofName other.service ≠ .ofName asked.service)
    (hid : ∀ other ∈ earlier, other.id ≠ asked.id) : Sound (earlier ++ [asked]) where
  accounts := List.forall_mem_append.mpr ⟨h.accounts, List.forall_mem_singleton.mpr haccounts⟩
  services := by
    rw [List.map_append, List.map_singleton]
    refine h.services.append (List.nodup_singleton _) (List.disjoint_singleton.mpr ?_)
    simpa using hservice
  ids := by
    rw [List.map_append, List.map_singleton]
    refine h.ids.append (List.nodup_singleton _) (List.disjoint_singleton.mpr ?_)
    simpa using hid

/-- A section that goes with sound ones leaves them sound, and any other fails. -/
theorem Sound.sound_or_breaks (h : Sound earlier) (asked : TokenSection) :
    Sound (earlier ++ [asked]) ∨ ∃ error, asked.Breaks earlier error := by
  rcases forall_or_exists_first IsAddress asked.accounts with
    haccounts | ⟨before, account, behind, hsplit, hbefore, hwrong⟩
  · by_cases hservice : ∃ owner ∈ earlier, Service.ofName owner.service = .ofName asked.service
    · obtain ⟨owner, howner, hsame⟩ := hservice
      exact .inr ⟨_, .sameService haccounts howner hsame⟩
    · have hfree : ∀ other ∈ earlier, Service.ofName other.service ≠ .ofName asked.service := by
        simpa using hservice
      by_cases hid : ∃ owner ∈ earlier, owner.id = asked.id
      · obtain ⟨owner, howner, hsame⟩ := hid
        exact .inr ⟨_, .sameId haccounts hfree howner hsame⟩
      · exact .inl (h.append_singleton haccounts hfree (by simpa using hid))
  · obtain ⟨error, herror⟩ := (isAddress_or_misspelled account).resolve_left hwrong
    exact .inr ⟨error, .account hsplit hbefore herror⟩

/-- Among sections that are not sound one is the first to fail. -/
theorem sound_or_exists_breaks (sections : List TokenSection) :
    Sound sections ∨ ∃ front asked back error, sections = front ++ asked :: back ∧
      Sound front ∧ asked.Breaks front error := by
  -- A section is held against those before it, so that the last one comes off first.
  induction sections using List.reverseRecOn with
  | nil => exact .inl ⟨by simp, .nil, .nil⟩
  | append_singleton earlier last ih =>
    rcases ih with hsound | ⟨front, asked, back, error, rfl, hfront, hbreaks⟩
    · rcases hsound.sound_or_breaks last with hall | ⟨error, hbreaks⟩
      · exact .inl hall
      · exact .inr ⟨earlier, last, [], error, rfl, hsound, hbreaks⟩
    · exact .inr ⟨front, asked, back ++ [last], error, by simp, hfront, hbreaks⟩

end TokenSection

/-! ## The registry -/

namespace Registry

open TokenSection

variable {sections front back : List TokenSection} {asked : TokenSection} {tokens : List Token}
  {token : Token} {registry : Registry} {config : Config} {error : Error}

/-- The tokens that sections make, one each. -/
abbrev Made (sections : List TokenSection) (tokens : List Token) : Prop :=
  List.Forall₂ (fun asked token => Token.ofSection asked = .ok token) sections tokens

/-- A section shows what its contract is registered under. -/
theorem contract_of_ofSection (h : Token.ofSection asked = .ok token) :
    token.contract.name = asked.service ∧ token.contract.service = .ofName asked.service ∧
      token.contract.id = asked.id := by
  have hmakes := makes_of_ofSection h
  rw [← hmakes.service_eq, ← hmakes.id_eq]
  exact ⟨rfl, rfl, rfl⟩

theorem distinct_of_sound (h : Sound sections) (htokens : Made sections tokens) :
    Distinct (tokens.map Token.contract) where
  services := by
    have hservices : sections.map (fun asked => Service.ofName asked.service) =
        tokens.map (Contract.service ∘ Token.contract) :=
      map_eq_of_forall₂ htokens fun _ _ hmade => (contract_of_ofSection hmade).2.1.symm
    rw [List.map_map, ← hservices]
    exact h.services
  ids := by
    have hids : sections.map (·.id) = tokens.map (Contract.id ∘ Token.contract) :=
      map_eq_of_forall₂ htokens fun _ _ hmade => (contract_of_ofSection hmade).2.2.symm
    rw [List.map_map, ← hids]
    exact h.ids

theorem exists_ofConfig (h : Sound config.tokens) :
    ∃ registry, ofConfig config = .ok registry := by
  obtain ⟨tokens, hmade⟩ :=
    exists_mapM fun asked hasked => exists_ofSection (h.accounts asked hasked)
  have hmade : Made config.tokens tokens := mapM_eq_ok_iff.mp hmade
  obtain ⟨registry, hregistry⟩ := exists_ofContracts (distinct_of_sound h hmade)
  exact ⟨registry, ofConfig_eq_ok_iff.mpr ⟨tokens, hmade, hregistry⟩⟩

/-- A section that fails makes no token, or one that is refused among those before it. -/
theorem verdict_of_breaks (h : asked.Breaks front error) (htokens : Made front tokens) :
    Token.ofSection asked = .error error ∨ ∃ token, Token.ofSection asked = .ok token ∧
      Verdict (tokens.map Token.contract) token.contract (.error error) := by
  cases h with
  | account hsplit hbefore hwrong =>
    exact .inl (ofSection_eq_error_iff.mpr ⟨_, _, _, hsplit, hbefore, hwrong⟩)
  | sameService haccounts howner hsame =>
    obtain ⟨token, hmade⟩ := exists_ofSection haccounts
    obtain ⟨hname, hservice, -⟩ := contract_of_ofSection hmade
    obtain ⟨other, hother, hmadeOther⟩ := exists_right_of_forall₂ htokens howner
    obtain ⟨hotherName, hotherService, -⟩ := contract_of_ofSection hmadeOther
    refine .inr ⟨token, hmade, ?_⟩
    rw [← hotherName, ← hservice, ← hname]
    exact .sameService (List.mem_map_of_mem hother) (by rw [hotherService, hservice, hsame])
  | sameId haccounts hfree howner hsame =>
    obtain ⟨token, hmade⟩ := exists_ofSection haccounts
    obtain ⟨hname, hservice, hid⟩ := contract_of_ofSection hmade
    obtain ⟨other, hother, hmadeOther⟩ := exists_right_of_forall₂ htokens howner
    obtain ⟨hotherName, -, hotherId⟩ := contract_of_ofSection hmadeOther
    have hfreeService : ∀ contract ∈ tokens.map Token.contract,
        contract.service ≠ token.contract.service := by
      intro contract hcontract
      obtain ⟨third, hthird, rfl⟩ := List.mem_map.mp hcontract
      obtain ⟨earlier, hearlier, hmadeThird⟩ := exists_left_of_forall₂ htokens hthird
      rw [(contract_of_ofSection hmadeThird).2.1, hservice]
      exact hfree earlier hearlier
    refine .inr ⟨token, hmade, ?_⟩
    rw [← hotherName, ← hname, ← hid]
    exact .sameId hfreeService (List.mem_map_of_mem hother) (by rw [hotherId, hid, hsame])

theorem attempt_eq_error_iff {contract : Contract} :
    (registry.attempt contract).1 = .error error ↔ registry.register contract = .error error := by
  unfold attempt
  rcases registry.register contract with found | after <;> simp

/-- The first section to fail decides how its configuration does. -/
theorem ofConfig_of_breaks (hsplit : config.tokens = front ++ asked :: back) (hfront : Sound front)
    (h : asked.Breaks front error) : ofConfig config = .error error := by
  have hbefore : ∃ registry, ofConfig { config with tokens := front } = .ok registry :=
    exists_ofConfig hfront
  obtain ⟨registry, hregistry⟩ := hbefore
  obtain ⟨tokens, hmade, hcontracts⟩ := ofConfig_eq_ok_iff.mp hregistry
  obtain ⟨hindexed, hlist⟩ := Indexed.empty.foldlM_register hcontracts
  have hlist : registry.contracts.toList = tokens.map Token.contract := hlist
  have hfails : (do registry.register (← Token.ofSection asked).contract) = .error error := by
    rcases verdict_of_breaks h hmade with hnone | ⟨token, htoken, hverdict⟩
    · rw [hnone]
      rfl
    · rw [htoken]
      rw [← hlist] at hverdict
      exact attempt_eq_error_iff.mp
        ((hindexed.verdict_attempt token.contract).unique hindexed.distinct hverdict)
  -- The sections behind this one are not looked at.
  unfold ofConfig at hregistry ⊢
  rw [hsplit, List.foldlM_append]
  refine bind_eq_error_iff.mpr (.inr ⟨registry, hregistry, ?_⟩)
  rw [List.foldlM_cons]
  exact bind_eq_error_iff.mpr (.inl hfails)

/-- A configuration that is well formed has a registry exactly if its sections are sound. Then
its tokens are those of the sections, and otherwise the first section to fail gives the error. -/
theorem ofConfig_by_sections (hvalid : config.broken? = none) :
    ((∃ registry, ofConfig config = .ok registry) ↔ Sound config.tokens) ∧
    (∀ registry, ofConfig config = .ok registry →
      ∃ tokens : List Token, registry.contracts.toList = tokens.map Token.contract ∧
        List.Forall₂ Gives config.tokens tokens) ∧
    ∀ error, ofConfig config = .error error ↔
      ∃ front asked back, config.tokens = front ++ asked :: back ∧ Sound front ∧
        asked.Breaks front error := by
  refine ⟨⟨fun ⟨registry, hregistry⟩ => ?_, exists_ofConfig⟩, fun registry hregistry => ?_,
    fun error => ⟨fun herror => ?_, fun ⟨_, _, _, hsplit, hfront, hbreaks⟩ =>
      ofConfig_of_breaks hsplit hfront hbreaks⟩⟩
  · rcases sound_or_exists_breaks config.tokens with
      hsound | ⟨front, asked, back, error, hsplit, hfront, hbreaks⟩
    · exact hsound
    · rw [ofConfig_of_breaks hsplit hfront hbreaks] at hregistry
      cases hregistry
  · obtain ⟨tokens, hmade, hcontracts⟩ := ofConfig_eq_ok_iff.mp hregistry
    have hvalidEach : ∀ asked ∈ config.tokens, asked.broken? = none := fun asked hasked =>
      Config.section_valid hvalid hasked
    refine ⟨tokens, (contracts_of_ofContracts hcontracts).1, ?_⟩
    exact ((List.forall₂_and_left _ _).mpr ⟨hvalidEach, hmade⟩).imp fun asked token h =>
      gives_of_ofSection h.1 h.2
  · rcases sound_or_exists_breaks config.tokens with
      hsound | ⟨front, asked, back, found, hsplit, hfront, hbreaks⟩
    · obtain ⟨registry, hregistry⟩ := exists_ofConfig hsound
      rw [hregistry] at herror
      cases herror
    · rw [ofConfig_of_breaks hsplit hfront hbreaks] at herror
      cases herror
      exact ⟨front, asked, back, hsplit, hfront, hbreaks⟩

/-- A section whose texts spell one address, with marks and in capitals and without. -/
def spelledTwice : TokenSection where
  distribution := [⟨"0x0x00000000000000000000000000000000000000AB", 100⟩]
  reward := 5
  rewardAccount := some "00000000000000000000000000000000000000ab"

/-- A section with the service and the id of the other, and a text that is no address. -/
def repeated : TokenSection where
  distribution := [⟨"0x00000000000000000000000000000000000000ab", 1⟩, ⟨"0x0", 1⟩]

theorem sound_spelledTwice : Sound [spelledTwice] where
  accounts := List.forall_mem_singleton.mpr (by decide +kernel)
  services := List.nodup_singleton _
  ids := List.nodup_singleton _

/-- The text is named first, where the service and the id are taken as well. -/
theorem ofConfig_by_sections_spelledTwice :
    (∃ registry, ofConfig { tokens := [spelledTwice] } = .ok registry) ∧
      ofConfig { tokens := [spelledTwice, spelledTwice] } = .error (.collision (.sameService
        spelledTwice.service spelledTwice.service (.ofName spelledTwice.service))) ∧
      ofConfig { tokens := [spelledTwice, repeated, spelledTwice] } =
        .error (.refused (.badHex "0x0" .oddLength)) := by
  have hvalid : ∀ tokens ∈ [[spelledTwice], [spelledTwice, spelledTwice],
      [spelledTwice, repeated, spelledTwice]], (Config.mk {} tokens).broken? = none := by
    decide +kernel
  obtain ⟨hexists, -, -⟩ := ofConfig_by_sections (hvalid [spelledTwice] (by simp))
  obtain ⟨-, -, htwice⟩ := ofConfig_by_sections (hvalid [spelledTwice, spelledTwice] (by simp))
  obtain ⟨-, -, hbroken⟩ :=
    ofConfig_by_sections (hvalid [spelledTwice, repeated, spelledTwice] (by simp))
  refine ⟨hexists.mpr sound_spelledTwice, ?_, ?_⟩
  · refine (htwice _).mpr ⟨[spelledTwice], spelledTwice, [], rfl, sound_spelledTwice, ?_⟩
    exact .sameService (by decide +kernel) (List.mem_singleton_self _) rfl
  · refine (hbroken _).mpr
      ⟨[spelledTwice], repeated, [spelledTwice], rfl, sound_spelledTwice, ?_⟩
    have hwrong : Misspelled "0x0" (.refused (.badHex "0x0" .oddLength)) :=
      .flawed (bare_stripMarks "0x0") (.oddLength (by decide +kernel))
    have hsplit : repeated.accounts =
        ["0x00000000000000000000000000000000000000ab"] ++ "0x0" :: [] := rfl
    exact .account hsplit (by decide +kernel) hwrong

end Registry

end NativeContracts
