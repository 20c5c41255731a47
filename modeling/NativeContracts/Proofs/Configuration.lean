import Mathlib.Algebra.Order.Ring.Int
import NativeContracts.Genesis
import NativeContracts.Proofs.Minting
import NativeContracts.Proofs.Registration

/-! The tokens that a configuration asks for, as its registry has them. Each section has its
token, with the addresses that its texts decode to, so that what the token grants is read off
the section: a text may occur again, and other texts may stand for the same address. -/

namespace NativeContracts

/-! ## A section and its token -/

namespace TokenSection

variable {asked : TokenSection} {token : Token} {address : List UInt8}

/-- What the entries add up to. -/
def total (asked : TokenSection) : Nat := (asked.distribution.map (·.amount.toNat)).sum

/-- What the entries for one address add up to, however they spell it. -/
def granted (asked : TokenSection) (address : List UInt8) : Nat :=
  ((asked.distribution.filter fun entry => decodeAddress entry.account = .ok address).map
    (·.amount.toNat)).sum

/-- The reward goes to this address. -/
def Rewards (asked : TokenSection) (address : List UInt8) : Prop :=
  ∃ account, asked.rewardAccount = some account ∧ decodeAddress account = .ok address

instance (asked : TokenSection) (address : List UInt8) : Decidable (asked.Rewards address) :=
  decidable_of_iff (asked.rewardAccount.any fun account => decodeAddress account = .ok address)
    (by simp [Rewards, Option.any_eq_true])

/-- The token has what the section says, with addresses in place of texts. -/
structure Makes (asked : TokenSection) (token : Token) : Prop where
  service_eq : token.service = asked.service
  id_eq : token.settings.id = asked.id
  distribution_eq :
    List.Forall₂ (fun entry grant => Grant.ofAllotment entry = .ok grant) asked.distribution
      token.settings.distribution
  reward_eq : asked.rewardAccount = none ∧ token.settings.rewardAddress = none ∨
    ∃ account address, asked.rewardAccount = some account ∧
      decodeAddress account = .ok address ∧ token.settings.rewardAddress = some address ∧
        token.settings.reward = asked.reward.toNat

theorem makes_of_ofSection (h : Token.ofSection asked = .ok token) : asked.Makes token := by
  obtain ⟨settings, hsettings, hmake⟩ := bind_eq_ok_iff.mp h
  obtain ⟨-, -, htoken⟩ := bind_eq_ok_iff.mp hmake
  cases htoken
  obtain ⟨grants, hgrants, hreward⟩ := bind_eq_ok_iff.mp hsettings
  have hgrants := mapM_eq_ok_iff.mp hgrants
  rcases haccount : asked.rewardAccount with _ | account
  · rw [haccount] at hreward
    cases hreward
    exact ⟨rfl, rfl, hgrants, .inl ⟨haccount, rfl⟩⟩
  · rw [haccount] at hreward
    obtain ⟨address, haddress, hresult⟩ := bind_eq_ok_iff.mp hreward
    cases hresult
    exact ⟨rfl, rfl, hgrants, .inr ⟨account, address, haccount, haddress, rfl, rfl⟩⟩

/-! ## What the token grants -/

theorem ofAllotment_eq_ok_iff {entry : Allotment} {grant : Grant} :
    Grant.ofAllotment entry = .ok grant ↔
      decodeAddress entry.account = .ok grant.address ∧ grant.amount = entry.amount.toNat := by
  rw [Grant.ofAllotment, bind_eq_ok_iff]
  constructor
  · rintro ⟨address, haddress, hgrant⟩
    cases hgrant
    exact ⟨haddress, rfl⟩
  · rintro ⟨haddress, hamount⟩
    refine ⟨grant.address, haddress, ?_⟩
    rw [← hamount]
    rfl

theorem positive_of_ofAllotment {entries : List Allotment} {grants : List Grant}
    (h : List.Forall₂ (fun entry grant => Grant.ofAllotment entry = .ok grant) entries grants) :
    Grant.Positive grants := by
  intro grant hgrant
  obtain ⟨entry, -, hentry⟩ := exists_left_of_forall₂ h hgrant
  rw [(ofAllotment_eq_ok_iff.mp hentry).2]
  exact Int.natCast_nonneg _

theorem Makes.positive (h : asked.Makes token) : Grant.Positive token.settings.distribution :=
  positive_of_ofAllotment h.distribution_eq

theorem Makes.total_eq (h : asked.Makes token) :
    Grant.total token.settings.distribution = asked.total := by
  have hentries := h.distribution_eq
  rw [total]
  generalize asked.distribution = entries at hentries ⊢
  generalize token.settings.distribution = grants at hentries ⊢
  induction hentries with
  | nil => rfl
  | cons hfirst _ ih =>
    rw [Grant.total_cons, (ofAllotment_eq_ok_iff.mp hfirst).2, ih, List.map_cons, List.sum_cons]
    push_cast
    rfl

theorem Makes.share_eq (h : asked.Makes token) (address : List UInt8) :
    Grant.share token.settings.distribution address = asked.granted address := by
  have hentries := h.distribution_eq
  rw [granted]
  generalize asked.distribution = entries at hentries ⊢
  generalize token.settings.distribution = grants at hentries ⊢
  induction hentries with
  | nil => rfl
  | @cons entry grant entries grants hfirst _ ih =>
    obtain ⟨haddress, hamount⟩ := ofAllotment_eq_ok_iff.mp hfirst
    rw [← List.singleton_append, Grant.share_append, Grant.share_singleton, ih, List.filter_cons]
    simp only [haddress, Except.ok.injEq, decide_eq_true_eq]
    split
    · rw [hamount, List.map_cons, List.sum_cons]
      push_cast
      rfl
    · exact Int.zero_add _

theorem Makes.mem_distribution_iff (h : asked.Makes token) (address : List UInt8) :
    (∃ grant ∈ token.settings.distribution, grant.address = address) ↔
      ∃ entry ∈ asked.distribution, decodeAddress entry.account = .ok address := by
  constructor
  · rintro ⟨grant, hgrant, rfl⟩
    obtain ⟨entry, hentry, hgrants⟩ := exists_left_of_forall₂ h.distribution_eq hgrant
    exact ⟨entry, hentry, (ofAllotment_eq_ok_iff.mp hgrants).1⟩
  · rintro ⟨entry, hentry, haddress⟩
    obtain ⟨grant, hgrant, hgrants⟩ := exists_right_of_forall₂ h.distribution_eq hentry
    have hsame := (ofAllotment_eq_ok_iff.mp hgrants).1
    rw [haddress, Except.ok.injEq] at hsame
    exact ⟨grant, hgrant, hsame.symm⟩

/-- A reward that is not zero has an account, in a section that is well formed. -/
theorem reward_eq_zero (hvalid : asked.broken? = none) (hnone : asked.rewardAccount = none) :
    asked.reward = 0 := by
  by_contra hreward
  have hlacks : 0 < asked.reward ∧ asked.rewardAccount = none :=
    ⟨UInt64.pos_iff_ne_zero.mpr hreward, hnone⟩
  rw [broken?, if_pos hlacks] at hvalid
  split at hvalid <;> cases hvalid

/-- A section that is well formed makes a token that grants its reward, if there is one. -/
theorem Makes.blockGrants_cases (h : asked.Makes token) (hvalid : asked.broken? = none) :
    asked.reward = 0 ∧ token.blockGrants = [] ∨
      asked.reward ≠ 0 ∧ ∃ address, asked.Rewards address ∧
        token.blockGrants = [⟨address, asked.reward.toNat⟩] := by
  by_cases hreward : asked.reward = 0
  · left
    refine ⟨hreward, ?_⟩
    rcases h.reward_eq with ⟨-, hnone⟩ | ⟨account, address, -, -, haddress, hamount⟩
    · simp only [Token.blockGrants, hnone]
    · simp only [Token.blockGrants, haddress, hamount, hreward]
      rfl
  · right
    refine ⟨hreward, ?_⟩
    rcases h.reward_eq with ⟨hnone, -⟩ | ⟨account, address, haccount, hdecode, haddress, hamount⟩
    · exact absurd (reward_eq_zero hvalid hnone) hreward
    · refine ⟨address, ⟨account, haccount, hdecode⟩, ?_⟩
      have hnonzero : (asked.reward.toNat : Int) ≠ 0 := by
        simpa [← UInt64.toNat_inj] using hreward
      simp only [Token.blockGrants, haddress, hamount, if_neg hnonzero]

end TokenSection

/-! ## A configuration and its registry -/

variable {config : Config} {registry : Registry}

theorem Config.section_valid (hvalid : config.broken? = none) {asked : TokenSection}
    (hasked : asked ∈ config.tokens) : asked.broken? = none := by
  unfold broken? at hvalid
  split at hvalid
  · cases hvalid
  · split at hvalid
    · cases hvalid
    · exact List.findSome?_eq_none_iff.mp hvalid asked hasked

namespace Registry

/-- A registry of a configuration has the token of each section, in order, and nothing else. -/
theorem ofConfig_eq_ok_iff :
    ofConfig config = .ok registry ↔
      ∃ tokens, List.Forall₂ (fun asked token => Token.ofSection asked = .ok token)
          config.tokens tokens ∧
        ofContracts (tokens.map Token.contract) = .ok registry := by
  have hfrom : ∀ (sections : List TokenSection) (first : Registry),
      (sections.foldlM (fun registry asked => do
        registry.register (← Token.ofSection asked).contract) first) = .ok registry ↔
        ∃ tokens, List.Forall₂ (fun asked token => Token.ofSection asked = .ok token)
            sections tokens ∧
          (tokens.map Token.contract).foldlM register first = .ok registry := by
    intro sections
    induction sections with
    | nil => simp
    | cons asked sections ih =>
      intro first
      simp only [List.foldlM_cons, bind_eq_ok_iff, ih, List.forall₂_cons_left_iff]
      constructor
      · rintro ⟨middle, ⟨token, htoken, hregister⟩, tokens, htokens, hrest⟩
        refine ⟨token :: tokens, ⟨token, tokens, htoken, htokens, rfl⟩, ?_⟩
        rw [List.map_cons, List.foldlM_cons, bind_eq_ok_iff]
        exact ⟨middle, hregister, hrest⟩
      · rintro ⟨-, ⟨token, tokens, htoken, htokens, rfl⟩, hrest⟩
        rw [List.map_cons, List.foldlM_cons, bind_eq_ok_iff] at hrest
        obtain ⟨middle, hregister, hrest⟩ := hrest
        exact ⟨middle, ⟨token, htoken, hregister⟩, tokens, htokens, hrest⟩
  exact hfrom config.tokens {}

/-- The tokens of a well-formed configuration's registry, each made by a section of its own. -/
theorem exists_tokens_of_ofConfig (hvalid : config.broken? = none)
    (h : ofConfig config = .ok registry) :
    ∃ tokens : List Token, registry.contracts.toList = tokens.map Token.contract ∧
      (tokens.map (·.settings.id)).Nodup ∧
      (∀ token ∈ tokens, ∃ asked ∈ config.tokens, asked.broken? = none ∧ asked.Makes token) ∧
      ∀ asked ∈ config.tokens, ∃ token ∈ tokens, asked.broken? = none ∧ asked.Makes token := by
  obtain ⟨tokens, htokens, hcontracts⟩ := ofConfig_eq_ok_iff.mp h
  obtain ⟨hlist, hdistinct⟩ := contracts_of_ofContracts hcontracts
  have hids := hdistinct.ids
  rw [List.map_map] at hids
  refine ⟨tokens, hlist, hids, fun token htoken => ?_, fun asked hasked => ?_⟩
  · obtain ⟨asked, hasked, hmade⟩ := exists_left_of_forall₂ htokens htoken
    exact ⟨asked, hasked, Config.section_valid hvalid hasked, TokenSection.makes_of_ofSection hmade⟩
  · obtain ⟨token, htoken, hmade⟩ := exists_right_of_forall₂ htokens hasked
    exact ⟨token, htoken, Config.section_valid hvalid hasked, TokenSection.makes_of_ofSection hmade⟩

end Registry

end NativeContracts
