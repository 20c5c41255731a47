import NativeContracts.Proofs.Lengths
import NativeContracts.Registry

/-! What registering contracts leads to. The two indices of a registry give the position of
each contract and of nothing else, so that contracts can be registered together, in any
order, exactly if no two of them share a service or an id. -/

namespace NativeContracts.Registry

/-! ## An index -/

section

variable {κ : Type} [BEq κ] [Hashable κ]

/-- The index gives the position of each contract under what `field` reads off it. -/
def IndexedBy (index : Std.HashMap κ Nat) (contracts : Array Contract) (field : Contract → κ) :
    Prop :=
  ∀ k position, index[k]? = some position ↔
    ∃ contract, contracts[position]? = some contract ∧ field contract = k

variable {index : Std.HashMap κ Nat} {contracts : Array Contract} {field : Contract → κ}
  {contract : Contract}

/-- Each contract is found. -/
theorem IndexedBy.find_eq_some (h : IndexedBy index contracts field) (hmem : contract ∈ contracts) :
    index[field contract]?.bind (contracts[·]?) = some contract := by
  obtain ⟨position, hposition⟩ := Array.mem_iff_getElem?.mp hmem
  rw [(h _ position).mpr ⟨contract, hposition, rfl⟩, Option.bind_some, hposition]

theorem IndexedBy.find_eq_none_iff (h : IndexedBy index contracts field) (k : κ) :
    index[k]?.bind (contracts[·]?) = none ↔ ∀ contract ∈ contracts, field contract ≠ k := by
  constructor
  · rintro hnone contract hmem rfl
    rw [h.find_eq_some hmem] at hnone
    cases hnone
  · intro hfresh
    rcases hindex : index[k]? with _ | position
    · rfl
    · obtain ⟨contract, hposition, hfield⟩ := (h k position).mp hindex
      exact absurd hfield (hfresh contract (Array.mem_iff_getElem?.mpr ⟨position, hposition⟩))

/-- No two contracts have the same position. -/
theorem IndexedBy.nodup (h : IndexedBy index contracts field) :
    (contracts.toList.map field).Nodup := by
  rw [List.nodup_iff_pairwise_ne, List.pairwise_map, List.pairwise_iff_getElem]
  intro i j hi hj hlt hfield
  have hfirst := (h (field contracts.toList[j]) i).mpr ⟨_, by simp, hfield⟩
  have hsecond := (h (field contracts.toList[j]) j).mpr ⟨_, by simp, rfl⟩
  rw [hfirst, Option.some.injEq] at hsecond
  omega

variable [LawfulBEq κ]

theorem IndexedBy.empty (field : Contract → κ) : IndexedBy {} #[] field := by
  intro k position
  simp

theorem IndexedBy.push (h : IndexedBy index contracts field)
    (hfresh : ∀ other ∈ contracts, field other ≠ field contract) :
    IndexedBy (index.insert (field contract) contracts.size) (contracts.push contract) field := by
  intro k position
  rw [Std.HashMap.getElem?_insert, Array.getElem?_push]
  by_cases hk : field contract = k
  · rw [if_pos (beq_iff_eq.mpr hk), Option.some.injEq]
    constructor
    · rintro rfl
      exact ⟨contract, if_pos rfl, hk⟩
    · rintro ⟨other, hposition, hother⟩
      split at hposition
      · next hsize => exact hsize.symm
      · have hmem := Array.mem_iff_getElem?.mpr ⟨position, hposition⟩
        exact absurd (hother.trans hk.symm) (hfresh other hmem)
  · rw [if_neg (by simpa using hk), h k position]
    constructor
    · rintro ⟨other, hposition, hother⟩
      have hlt := (Array.getElem?_eq_some_iff.mp hposition).1
      exact ⟨other, by rw [if_neg (Nat.ne_of_lt hlt)]; exact hposition, hother⟩
    · rintro ⟨other, hposition, hother⟩
      split at hposition
      · cases hposition
        exact absurd hother hk
      · exact ⟨other, hposition, hother⟩

end

/-! ## Both indices -/

structure Indexed (registry : Registry) : Prop where
  services : IndexedBy registry.services registry.contracts Contract.service
  ids : IndexedBy registry.ids registry.contracts Contract.id

/-- The registry with one more contract. -/
def extended (registry : Registry) (contract : Contract) : Registry where
  contracts := registry.contracts.push contract
  services := registry.services.insert contract.service registry.contracts.size
  ids := registry.ids.insert contract.id registry.contracts.size

variable {registry after : Registry} {contract : Contract} {contracts : List Contract}

theorem Indexed.empty : Indexed {} := ⟨.empty _, .empty _⟩

theorem Indexed.register_eq_ok_iff (h : registry.Indexed) :
    registry.register contract = .ok after ↔
      (∀ other ∈ registry.contracts,
        other.service ≠ contract.service ∧ other.id ≠ contract.id) ∧
      after = registry.extended contract := by
  have hservice := h.services.find_eq_none_iff contract.service
  have hid := h.ids.find_eq_none_iff contract.id
  rw [register]
  rcases hfoundService : registry.findService? contract.service with _ | owner
  · rcases hfoundId : registry.findId? contract.id with _ | owner
    · have hfresh : ∀ other ∈ registry.contracts,
          other.service ≠ contract.service ∧ other.id ≠ contract.id :=
        fun other hmem => ⟨hservice.mp hfoundService other hmem, hid.mp hfoundId other hmem⟩
      simp only [Except.ok.injEq]
      exact ⟨fun hafter => ⟨hfresh, hafter.symm⟩, fun hafter => hafter.2.symm⟩
    · simp only [reduceCtorEq, false_iff, not_and]
      intro hfresh
      have hnone : registry.findId? contract.id = none :=
        hid.mpr fun other hmem => (hfresh other hmem).2
      rw [hnone] at hfoundId
      cases hfoundId
  · simp only [reduceCtorEq, false_iff, not_and]
    intro hfresh
    have hnone : registry.findService? contract.service = none :=
      hservice.mpr fun other hmem => (hfresh other hmem).1
    rw [hnone] at hfoundService
    cases hfoundService

theorem Indexed.extended (h : registry.Indexed) (hfresh : ∀ other ∈ registry.contracts,
    other.service ≠ contract.service ∧ other.id ≠ contract.id) :
    (registry.extended contract).Indexed :=
  ⟨h.services.push fun other hmem => (hfresh other hmem).1,
    h.ids.push fun other hmem => (hfresh other hmem).2⟩

/-! ## Several contracts -/

/-- The registry of the contracts, registered one after another. -/
def ofContracts (contracts : List Contract) : Except Error Registry := contracts.foldlM register {}

/-- No two of the contracts share a service or an id. -/
structure Distinct (contracts : List Contract) : Prop where
  services : (contracts.map Contract.service).Nodup
  ids : (contracts.map Contract.id).Nodup

theorem Distinct.perm {others : List Contract} (h : Distinct contracts)
    (hperm : contracts.Perm others) : Distinct others :=
  ⟨(hperm.map _).nodup_iff.mp h.services, (hperm.map _).nodup_iff.mp h.ids⟩

theorem Indexed.distinct (h : registry.Indexed) : Distinct registry.contracts.toList :=
  ⟨h.services.nodup, h.ids.nodup⟩

theorem Indexed.foldlM_register (h : registry.Indexed)
    (hafter : contracts.foldlM register registry = .ok after) :
    after.Indexed ∧ after.contracts.toList = registry.contracts.toList ++ contracts := by
  induction contracts generalizing registry with
  | nil =>
    cases hafter
    exact ⟨h, by simp⟩
  | cons contract contracts ih =>
    rw [List.foldlM_cons] at hafter
    obtain ⟨middle, hregister, hafter⟩ := bind_eq_ok_iff.mp hafter
    obtain ⟨hfresh, rfl⟩ := h.register_eq_ok_iff.mp hregister
    obtain ⟨hindexed, hcontracts⟩ := ih (h.extended hfresh) hafter
    refine ⟨hindexed, hcontracts.trans ?_⟩
    simp [Registry.extended]

theorem Indexed.exists_foldlM_register (h : registry.Indexed)
    (hdistinct : Distinct (registry.contracts.toList ++ contracts)) :
    ∃ after, contracts.foldlM register registry = .ok after := by
  induction contracts generalizing registry with
  | nil => exact ⟨registry, rfl⟩
  | cons contract contracts ih =>
    have hfresh : ∀ other ∈ registry.contracts,
        other.service ≠ contract.service ∧ other.id ≠ contract.id := by
      intro other hmem
      obtain ⟨hservices, hids⟩ := hdistinct
      rw [List.map_append, List.nodup_append] at hservices hids
      have hother := Array.mem_def.mp hmem
      exact ⟨hservices.2.2 _ (List.mem_map_of_mem hother) _ (by simp),
        hids.2.2 _ (List.mem_map_of_mem hother) _ (by simp)⟩
    obtain ⟨after, hafter⟩ := ih (h.extended hfresh) (by simpa [Registry.extended] using hdistinct)
    refine ⟨after, ?_⟩
    rw [List.foldlM_cons, h.register_eq_ok_iff.mpr ⟨hfresh, rfl⟩]
    exact hafter

theorem contracts_of_ofContracts (h : ofContracts contracts = .ok registry) :
    registry.contracts.toList = contracts ∧ Distinct contracts := by
  obtain ⟨hindexed, hcontracts⟩ := Indexed.empty.foldlM_register h
  have hlist : registry.contracts.toList = contracts := hcontracts
  exact ⟨hlist, hlist ▸ hindexed.distinct⟩

theorem exists_ofContracts (h : Distinct contracts) :
    ∃ registry, ofContracts contracts = .ok registry :=
  Indexed.empty.exists_foldlM_register h

end NativeContracts.Registry
