import Mathlib.Data.List.Nodup
import NativeContracts.Proofs.Registration

/-! What a registry finds. Whatever contracts are registered, in whatever order and some of
them refused, a look-up finds what a search through the accepted contracts finds, also where
names share a service. A contract is refused exactly if its service or its id is taken, and
the owner of the service is named before the owner of the id. -/

namespace NativeContracts.Registry

variable {registry after : Registry} {contract : Contract} {contracts : List Contract}

/-! ## Calls, refused ones included -/

/-- What a call of `register` answers, beside the registry that it leaves. -/
def attempt (registry : Registry) (contract : Contract) : Except Error Unit × Registry :=
  match registry.register contract with
  | .ok after => (.ok (), after)
  | .error error => (.error error, registry)

/-- The registries that calls of `register` lead to. The contracts of the calls that succeeded
are listed in the order of the calls. -/
inductive Registered : List Contract → Registry → Prop where
  | empty : Registered [] {}
  | accepted {contracts : List Contract} {registry after : Registry} {contract : Contract}
      (h : Registered contracts registry) (hattempt : registry.attempt contract = (.ok (), after)) :
      Registered (contracts ++ [contract]) after
  | refused {contracts : List Contract} {registry after : Registry} {contract : Contract}
      {error : Error} (h : Registered contracts registry)
      (hattempt : registry.attempt contract = (.error error, after)) : Registered contracts after

/-- How a contract fares among others. -/
inductive Verdict (contracts : List Contract) (contract : Contract) : Except Error Unit → Prop where
  | accepted (hservice : ∀ other ∈ contracts, other.service ≠ contract.service)
      (hid : ∀ other ∈ contracts, other.id ≠ contract.id) : Verdict contracts contract (.ok ())
  | sameService {owner : Contract} (howner : owner ∈ contracts)
      (hservice : owner.service = contract.service) :
      Verdict contracts contract
        (.error (.collision (.sameService owner.name contract.name contract.service)))
  | sameId {owner : Contract} (hservice : ∀ other ∈ contracts, other.service ≠ contract.service)
      (howner : owner ∈ contracts) (hid : owner.id = contract.id) :
      Verdict contracts contract
        (.error (.collision (.sameId owner.name contract.name contract.id)))

theorem attempt_eq_ok_iff :
    registry.attempt contract = (.ok (), after) ↔ registry.register contract = .ok after := by
  unfold attempt
  rcases registry.register contract with error | found <;> simp

theorem attempt_of_error {error : Error} (h : (registry.attempt contract).1 = .error error) :
    (registry.attempt contract).2 = registry := by
  unfold attempt at h ⊢
  rcases hregister : registry.register contract with found | found
  · rfl
  · rw [hregister] at h
    cases h

/-- Both indices are right, and they are about the accepted contracts. -/
theorem Registered.indexed (h : Registered contracts registry) :
    registry.Indexed ∧ registry.contracts.toList = contracts := by
  induction h with
  | empty => exact ⟨.empty, rfl⟩
  | accepted _ hattempt ih =>
    obtain ⟨hindexed, rfl⟩ := ih
    obtain ⟨hfresh, rfl⟩ := hindexed.register_eq_ok_iff.mp (attempt_eq_ok_iff.mp hattempt)
    exact ⟨hindexed.extended hfresh, by simp [extended]⟩
  | refused _ hattempt ih =>
    have hafter := attempt_of_error (congrArg Prod.fst hattempt)
    rw [hattempt] at hafter
    obtain rfl := hafter
    exact ih

/-! ## Searches -/

section

variable {κ : Type} [BEq κ] [Hashable κ] [DecidableEq κ] {index : Std.HashMap κ Nat}
  {field : Contract → κ}

/-- An index leads to the first contract that a search finds, and there is no other. -/
theorem IndexedBy.find_eq_search {contracts : Array Contract}
    (h : IndexedBy index contracts field) (k : κ) :
    index[k]?.bind (contracts[·]?) = contracts.toList.find? (field · = k) := by
  rcases hsearch : contracts.toList.find? (field · = k) with _ | found
  · rw [h.find_eq_none_iff]
    intro contract hmem
    simpa using List.find?_eq_none.mp hsearch contract (Array.mem_def.mp hmem)
  · have hfield : field found = k := by simpa using List.find?_some hsearch
    rw [← hfield]
    exact h.find_eq_some (Array.mem_def.mpr (List.mem_of_find?_eq_some hsearch))

theorem IndexedBy.contains_eq_any [LawfulBEq κ] {contracts : Array Contract}
    (h : IndexedBy index contracts field) (k : κ) :
    index.contains k = contracts.toList.any (field · = k) := by
  rw [Std.HashMap.contains_eq_isSome_getElem?, Bool.eq_iff_iff, Option.isSome_iff_exists]
  simp only [h k, List.any_eq_true, decide_eq_true_eq]
  constructor
  · rintro ⟨position, found, hposition, hfield⟩
    exact ⟨found, Array.mem_def.mp (Array.mem_of_getElem? hposition), hfield⟩
  · rintro ⟨found, hmem, hfield⟩
    obtain ⟨position, hposition⟩ := Array.mem_iff_getElem?.mp (Array.mem_def.mpr hmem)
    exact ⟨position, found, hposition, hfield⟩

end

theorem Indexed.findService?_eq (h : registry.Indexed) (service : Service) :
    registry.findService? service = registry.contracts.toList.find? (·.service = service) :=
  h.services.find_eq_search service

theorem Indexed.findId?_eq (h : registry.Indexed) (id : Int32) :
    registry.findId? id = registry.contracts.toList.find? (·.id = id) :=
  h.ids.find_eq_search id

theorem Indexed.isNative_eq (h : registry.Indexed) (service : Service) :
    registry.isNative service = registry.contracts.toList.any (·.service = service) :=
  h.services.contains_eq_any service

/-- A name leads to its service, and from there to the one contract that can have the name.
The contract found may have another name, and then no contract has this one. -/
theorem Indexed.findNamed?_eq (h : registry.Indexed) {hash : String → Service}
    (hhash : ∀ contract ∈ registry.contracts.toList, contract.service = hash contract.name)
    (name : String) :
    registry.findNamed? (hash name) name = registry.contracts.toList.find? (·.name = name) := by
  rw [findNamed?, h.findService?_eq]
  rcases hsearch : registry.contracts.toList.find? (·.name = name) with _ | named
  · rw [hsearch, Option.filter_eq_none_iff]
    intro found hfound
    exact List.find?_eq_none.mp hsearch found (List.mem_of_find?_eq_some hfound)
  · have hmem := List.mem_of_find?_eq_some hsearch
    have hname : named.name = name := by simpa using List.find?_some hsearch
    have hservice : named.service = hash name := by rw [hhash named hmem, hname]
    have hfound := h.services.find_eq_some (Array.mem_def.mpr hmem)
    rw [h.services.find_eq_search, hservice] at hfound
    rw [hfound, hsearch, Option.filter_some, if_pos (by simpa using hname)]

/-! ## Verdicts -/

theorem Indexed.verdict_attempt (h : registry.Indexed) (contract : Contract) :
    Verdict registry.contracts.toList contract (registry.attempt contract).1 := by
  unfold attempt register
  rcases hservice : registry.findService? contract.service with _ | owner
  · have hfreeService : ∀ other ∈ registry.contracts.toList, other.service ≠ contract.service := by
      intro other hmem
      exact (h.services.find_eq_none_iff _).mp hservice other (Array.mem_def.mpr hmem)
    rcases hid : registry.findId? contract.id with _ | owner
    · refine .accepted hfreeService fun other hmem => ?_
      exact (h.ids.find_eq_none_iff _).mp hid other (Array.mem_def.mpr hmem)
    · rw [h.findId?_eq] at hid
      have hsame : owner.id = contract.id := by simpa using List.find?_some hid
      exact .sameId hfreeService (List.mem_of_find?_eq_some hid) hsame
  · rw [h.findService?_eq] at hservice
    have hsame : owner.service = contract.service := by simpa using List.find?_some hservice
    exact .sameService (List.mem_of_find?_eq_some hservice) hsame

/-- Services and ids have one owner each, so that nothing else could be answered. -/
theorem Verdict.unique {first second : Except Error Unit} (hdistinct : Distinct contracts)
    (h : Verdict contracts contract first) (h' : Verdict contracts contract second) :
    first = second := by
  cases h with
  | accepted hservice hid =>
    cases h' with
    | accepted => rfl
    | sameService howner htaken => exact absurd htaken (hservice _ howner)
    | sameId _ howner htaken => exact absurd htaken (hid _ howner)
  | @sameService owner howner htaken =>
    cases h' with
    | accepted hservice => exact absurd htaken (hservice _ howner)
    | sameService hother hservice =>
      rw [List.inj_on_of_nodup_map hdistinct.services howner hother (htaken.trans hservice.symm)]
    | sameId hservice => exact absurd htaken (hservice _ howner)
  | @sameId owner hservice howner htaken =>
    cases h' with
    | accepted _ hid => exact absurd htaken (hid _ howner)
    | sameService hother hotherService => exact absurd hotherService (hservice _ hother)
    | sameId _ hother hid =>
      rw [List.inj_on_of_nodup_map hdistinct.ids howner hother (htaken.trans hid.symm)]

/-- The contracts of a registry are those accepted, no two with one service or one id, and all
look-ups search them. -/
theorem find_eq_search_of_registered (h : Registered contracts registry) :
    registry.contracts.toList = contracts ∧
      (contracts.map Contract.service).Nodup ∧ (contracts.map Contract.id).Nodup ∧
      (∀ service, registry.findService? service = contracts.find? (·.service = service)) ∧
      (∀ id, registry.findId? id = contracts.find? (·.id = id)) ∧
      (∀ service, registry.isNative service = contracts.any (·.service = service)) ∧
      (∀ hash : String → Service, (∀ contract ∈ contracts, contract.service = hash contract.name) →
        ∀ name, registry.findNamed? (hash name) name = contracts.find? (·.name = name)) ∧
      ((∀ contract ∈ contracts, contract.service = .ofName contract.name) →
        ∀ name, registry.findName? name = contracts.find? (·.name = name)) ∧
      ∀ contract,
        (∀ outcome, (registry.attempt contract).1 = outcome ↔ Verdict contracts contract outcome) ∧
        ∀ error, (registry.attempt contract).1 = .error error →
          (registry.attempt contract).2 = registry := by
  obtain ⟨hindexed, rfl⟩ := h.indexed
  have hdistinct := hindexed.distinct
  refine ⟨rfl, hdistinct.services, hdistinct.ids, hindexed.findService?_eq, hindexed.findId?_eq,
    hindexed.isNative_eq, fun hash hhash => hindexed.findNamed?_eq hhash,
    fun hhash => hindexed.findNamed?_eq hhash, fun contract => ⟨fun outcome => ?_, fun error => ?_⟩⟩
  · have hverdict := hindexed.verdict_attempt contract
    exact ⟨fun houtcome => houtcome ▸ hverdict, fun houtcome => hverdict.unique hdistinct houtcome⟩
  · exact attempt_of_error

/-- A service that all names of one length share. -/
def byLength (name : String) : Service := ⟨name.length.toUInt32⟩

/-- A contract at the service of its name's length. -/
def plain (name : String) (id : Int32) : Contract :=
  { Contract.named name id with service := byLength name }

theorem registered_pair {first second : Contract} (hservice : first.service ≠ second.service)
    (hid : first.id ≠ second.id) :
    Registered [first, second] ((extended {} first).extended second) := by
  have hfirst : Registered [first] (extended {} first) :=
    .accepted .empty (attempt_eq_ok_iff.mpr (Indexed.empty.register_eq_ok_iff.mpr ⟨by simp, rfl⟩))
  refine .accepted hfirst
    (attempt_eq_ok_iff.mpr (hfirst.indexed.1.register_eq_ok_iff.mpr ⟨?_, rfl⟩))
  intro other hmem
  rw [Array.mem_def, hfirst.indexed.2, List.mem_singleton] at hmem
  subst hmem
  exact ⟨hservice, hid⟩

/-- The registry of two names of different lengths. -/
def goldAndSilver : Registry := (extended {} (plain "Gold" 1)).extended (plain "Silver" 2)

theorem registered_goldAndSilver :
    Registered [plain "Gold" 1, plain "Silver" 2] goldAndSilver :=
  registered_pair (by decide +kernel) (by decide)

/-- The name "Lead" has the service of "Gold", and is not found there. -/
theorem find_eq_search_goldAndSilver :
    Registered [plain "Gold" 1, plain "Silver" 2] goldAndSilver ∧
      goldAndSilver.isNative (byLength "Lead") = true ∧
      (goldAndSilver.findNamed? (byLength "Lead") "Lead").isNone ∧
      (goldAndSilver.attempt (plain "Lead" 2)).1 =
        .error (.collision (.sameService "Gold" "Lead" ⟨4⟩)) := by
  obtain ⟨-, -, -, -, -, hnative, hnamed, -, hattempt⟩ :=
    find_eq_search_of_registered registered_goldAndSilver
  refine ⟨registered_goldAndSilver, ?_, ?_, ?_⟩
  · rw [hnative]
    decide +kernel
  · rw [hnamed byLength (by decide +kernel)]
    decide +kernel
  · -- The id of the contract is taken as well, by the other one.
    have hgold : plain "Gold" 1 ∈ [plain "Gold" 1, plain "Silver" 2] := by simp
    rw [(hattempt (plain "Lead" 2)).1]
    exact .sameService hgold (by decide +kernel)

end NativeContracts.Registry
