import NativeContracts.Proofs.Dispatch
import NativeContracts.Proofs.Lookup

/-! How a registry routes calls. The index leads to the contract that the current call addresses,
and so does going through all contracts in turn and asking each of them: at most one is addressed,
and the others leave the machine as it is. -/

namespace NativeContracts

open Run

variable {machine after : Machine} {contract : Contract} {contracts : List Contract}
  {registry : Registry}

namespace Machine

/-- The declared call is the contract's. -/
def Addresses (machine : Machine) (contract : Contract) : Prop :=
  machine.declaredCall? = some contract.service

instance (machine : Machine) (contract : Contract) : Decidable (machine.Addresses contract) :=
  inferInstanceAs (Decidable (_ = _))

theorem Addresses.service_eq {other : Contract} (h : machine.Addresses contract)
    (hother : machine.Addresses other) : contract.service = other.service :=
  Option.some.inj (h.symm.trans hother)

end Machine

namespace Contract

theorem exec_invoke_of_not_addresses (h : ¬machine.Addresses contract) :
    contract.invoke.exec machine = (.ok false, machine) := by
  have hcall : machine.declaredCall? ≠ some contract.service := h
  rw [invoke, exec_get_bind, if_pos hcall]
  rfl

/-- A contract that turns a call away leaves the script as it was, and so the call. -/
theorem declaredCall?_of_invoke (h : contract.invoke.exec machine = (.ok false, after)) :
    after.declaredCall? = machine.declaredCall? := by
  obtain ⟨outcome, left, hanswers⟩ := contract.exists_answers machine
  cases hanswers.exec_invoke.symm.trans h
  cases hanswers with
  | uncalled => rfl
  | @taken frame rest operation arguments items _ _ hcall hitems hresponds =>
    cases hresponds with
    | unnamed helements hname =>
      rw [Machine.declaredCall?, Machine.declaredCall?, hcall.1]
      rfl

end Contract

namespace Registry

theorem exec_invoke (registry : Registry) (machine : Machine) :
    registry.invoke.exec machine =
      match machine.declaredCall?.bind registry.findService? with
      | some contract => contract.invoke.exec machine
      | none => (.ok false, machine) := by
  rw [invoke, exec_get_bind]
  rcases machine.declaredCall?.bind registry.findService? with _ | contract
  · rfl
  · rfl

/-- Has the contracts answer in turn, until one of them does. -/
def askEach : List Contract → Run Bool
  | [] => return false
  | contract :: rest => do
    if ← contract.invoke then return true
    askEach rest

/-- What the first contract that is addressed does. -/
def firstAddressed (contracts : List Contract) (machine : Machine) : Except Error Bool × Machine :=
  match contracts.find? fun contract => machine.Addresses contract with
  | some contract => contract.invoke.exec machine
  | none => (.ok false, machine)

theorem firstAddressed_cons_of_addresses (h : machine.Addresses contract) :
    firstAddressed (contract :: contracts) machine = contract.invoke.exec machine := by
  rw [firstAddressed, List.find?_cons_of_pos (by simpa using h)]

theorem firstAddressed_cons_of_not_addresses (h : ¬machine.Addresses contract) :
    firstAddressed (contract :: contracts) machine = firstAddressed contracts machine := by
  rw [firstAddressed, List.find?_cons_of_neg (by simpa using h)]
  rfl

theorem firstAddressed_eq (h : ∀ contract ∈ contracts, ¬machine.Addresses contract) :
    firstAddressed contracts machine = (.ok false, machine) := by
  have hnone : contracts.find? (fun contract => machine.Addresses contract) = none :=
    List.find?_eq_none.mpr fun contract hmem => by simpa using h contract hmem
  rw [firstAddressed, hnone]

/-- The contract that a declared call is for, found by its service. -/
theorem find?_addresses (contracts : List Contract) (machine : Machine) :
    contracts.find? (fun contract => machine.Addresses contract) =
      machine.declaredCall?.bind fun service => contracts.find? (·.service = service) := by
  rcases hcall : machine.declaredCall? with _ | service
  · rw [Option.bind_none, List.find?_eq_none]
    intro contract _
    simp [Machine.Addresses, hcall]
  · rw [Option.bind_some]
    congr 1
    funext contract
    simp [Machine.Addresses, hcall, eq_comm]

theorem Indexed.exec_invoke (h : registry.Indexed) (machine : Machine) :
    registry.invoke.exec machine = firstAddressed registry.contracts.toList machine := by
  rw [Registry.exec_invoke, firstAddressed, find?_addresses, funext h.findService?_eq]

/-- Once the contract that is addressed has turned a call away, all others do so too. -/
theorem exec_askEach (hservices : (contracts.map Contract.service).Nodup) (machine : Machine) :
    (askEach contracts).exec machine = firstAddressed contracts machine := by
  induction contracts generalizing machine with
  | nil => rfl
  | cons contract rest ih =>
    rw [List.map_cons, List.nodup_cons] at hservices
    by_cases haddresses : machine.Addresses contract
    · rw [firstAddressed_cons_of_addresses haddresses, askEach, exec_bind]
      rcases hexec : contract.invoke.exec machine with ⟨error | _ | _, after⟩
      · rfl
      · have hrest : ∀ other ∈ rest, ¬after.Addresses other := by
          intro other hmem hother
          rw [Machine.Addresses, Contract.declaredCall?_of_invoke hexec] at hother
          have hservice : contract.service = other.service := haddresses.service_eq hother
          exact hservices.1 (hservice ▸ List.mem_map_of_mem hmem)
        exact (ih hservices.2 after).trans (firstAddressed_eq hrest)
      · rfl
    · rw [firstAddressed_cons_of_not_addresses haddresses, askEach,
        exec_bind_ok _ (Contract.exec_invoke_of_not_addresses haddresses)]
      exact ih hservices.2 machine

theorem length_filter_addresses_le (hservices : (contracts.map Contract.service).Nodup)
    (machine : Machine) :
    (contracts.filter fun contract => machine.Addresses contract).length ≤ 1 := by
  induction contracts with
  | nil => exact Nat.zero_le 1
  | cons contract rest ih =>
    rw [List.map_cons, List.nodup_cons] at hservices
    by_cases haddresses : machine.Addresses contract
    · have hrest : rest.filter (fun other => machine.Addresses other) = [] := by
        refine List.filter_eq_nil_iff.mpr fun other hmem hother => ?_
        have hservice := haddresses.service_eq (of_decide_eq_true hother)
        exact hservices.1 (hservice ▸ List.mem_map_of_mem hmem)
      rw [List.filter_cons_of_pos (by simpa using haddresses), hrest]
      exact Nat.le_refl 1
    · rw [List.filter_cons_of_neg (by simpa using haddresses)]
      exact ih hservices.2

theorem addresses_of_load (h : (load contract.script).exec machine = (.ok (), after)) :
    after.Addresses contract := by
  rw [exec_load] at h
  split at h
  · cases h
  · cases h
    exact Script.declaredCall?_calling contract.service

/-- Routing a call is asking every contract, in the order of registration. At most one contract
is addressed, only that one can answer, and its own script addresses it. -/
theorem invoke_eq_askEach_of_registered (h : Registered contracts registry) (machine : Machine) :
    registry.invoke.exec machine =
        (match contracts.find? fun contract => machine.Addresses contract with
        | some contract => contract.invoke.exec machine
        | none => (.ok false, machine)) ∧
      registry.invoke.exec machine = (askEach contracts).exec machine ∧
      (contracts.filter fun contract => machine.Addresses contract).length ≤ 1 ∧
      (∀ contract ∈ contracts, ¬machine.Addresses contract →
        contract.invoke.exec machine = (.ok false, machine)) ∧
      ∀ contract ∈ contracts, ∀ loaded,
        (load contract.script).exec machine = (.ok (), loaded) →
          registry.invoke.exec loaded = contract.invoke.exec loaded ∧
            ∀ other ∈ contracts, other ≠ contract →
              other.invoke.exec loaded = (.ok false, loaded) := by
  obtain ⟨hindexed, rfl⟩ := h.indexed
  have hservices := hindexed.distinct.services
  have hinvoke := hindexed.exec_invoke
  refine ⟨hinvoke machine, ?_, length_filter_addresses_le hservices machine, ?_, ?_⟩
  · rw [hinvoke, exec_askEach hservices]
  · intro contract _ hother
    exact Contract.exec_invoke_of_not_addresses hother
  · intro contract hmem loaded hload
    have haddresses := addresses_of_load hload
    constructor
    · have hfound := hindexed.services.find_eq_some (Array.mem_def.mpr hmem)
      rw [Registry.exec_invoke, haddresses, Option.bind_some, findService?, hfound]
    · intro other hother hne
      refine Contract.exec_invoke_of_not_addresses fun hboth => hne ?_
      exact List.inj_on_of_nodup_map hservices hother hmem (hboth.service_eq haddresses)

/-- A contract whose one method answers with the contract's name before the arguments. -/
def greeting (name : String) (id : Int32) : Contract :=
  { plain name id with
    methods := {
      methods := [.onPersist,
        .reading "greet" 0 fun arguments => return .array (.ofText name :: arguments)]
      nodup := by simp [Method.onPersist, Method.onPersistName, Method.reading] } }

def greetings : Registry := (extended {} (greeting "Gold" 1)).extended (greeting "Silver" 2)

/-- A machine in a call of that method of one of them, with one argument. -/
def greeted (machine : Machine) : Machine :=
  { machine with
    frames := [⟨(greeting "Silver" 2).script, ⟨[.ofText "greet", .array [.integer 7]]⟩⟩]
    budget := { machine.budget with count := 3 } }

/-- The contract that was registered last answers by its own name, and the first one turns the
call away. -/
theorem invoke_eq_askEach_goldAndSilver :
    Registered [greeting "Gold" 1, greeting "Silver" 2] greetings ∧
      (∃ after,
        greetings.invoke.exec (greeted (.start .application)) = (.ok true, after) ∧
        (askEach [greeting "Gold" 1, greeting "Silver" 2]).exec (greeted (.start .application)) =
          (.ok true, after) ∧
        after.frames.map (·.stack.items) = [[.array [.ofText "Silver", .integer 7]]]) ∧
      (greeting "Gold" 1).invoke.exec (greeted (.start .application)) =
        (.ok false, greeted (.start .application)) := by
  have hregistered : Registered [greeting "Gold" 1, greeting "Silver" 2] greetings :=
    registered_pair (by decide +kernel) (by decide)
  obtain ⟨hfind, hask, -, hothers, -⟩ :=
    invoke_eq_askEach_of_registered hregistered (greeted (.start .application))
  have hanswer : (greeting "Silver" 2).invoke.exec (greeted (.start .application)) =
      (.ok true, _) := exec_eq_ok_of_toOption (by decide +kernel)
  have hroute : greetings.invoke.exec (greeted (.start .application)) = (.ok true, _) :=
    hfind.trans hanswer
  refine ⟨hregistered, ⟨_, hroute, hask.symm.trans hroute, ?_⟩, hothers _ (by simp) ?_⟩
  · decide +kernel
  · decide +kernel

end Registry

end NativeContracts
