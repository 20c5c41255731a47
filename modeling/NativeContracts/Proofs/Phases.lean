import NativeContracts.Proofs.Isolation
import NativeContracts.Proofs.Rewards
import NativeContracts.Proofs.Routing

/-! The trigger decides what can be written. Under verification nothing a registry of tokens
does changes the store; under application only setup does, and under system only the work
for a block, asked for directly, for all tokens in turn, or by a call that names it. That
work pays the token's reward, and nothing else. -/

namespace NativeContracts

open Run

variable {machine later : Machine} {token : Token} {tokens : List Token} {registry : Registry}

/-- Each token in turn was rewarded. -/
inductive AllRewarded : List Token → Machine → Machine → Prop where
  | nil (machine : Machine) : AllRewarded [] machine machine
  | cons {token : Token} {tokens : List Token} {before middle later : Machine}
      (h : token.Rewarded before middle) (hrest : AllRewarded tokens middle later) :
      AllRewarded (token :: tokens) before later

namespace Contract

theorem keeps_eq_setUp (h : machine.trigger ≠ .application) (contract : Contract) :
    Keeps (fun found => found = machine) contract.setUp := by
  rintro _ rfl
  rw [exec_setUp, if_neg h]

theorem keeps_eq_onPersist (h : machine.trigger ≠ .system) (contract : Contract) :
    Keeps (fun found => found = machine) contract.onPersist := by
  rintro _ rfl
  rw [exec_onPersist, if_neg h]

end Contract

namespace Registry

theorem exec_setUpAll_of_ne (registry : Registry) (h : machine.trigger ≠ .application) :
    (registry.setUpAll.exec machine).2 = machine := by
  have hloop : Keeps (fun found => found = machine) registry.setUpAll :=
    Keeps.forM fun contract _ => (Contract.keeps_eq_setUp h contract).bind fun _ => keeps_pure _
  exact hloop machine rfl

theorem exec_onPersistAll_of_ne (registry : Registry) (h : machine.trigger ≠ .system) :
    (registry.onPersistAll.exec machine).2 = machine := by
  have hloop : Keeps (fun found => found = machine) registry.onPersistAll := by
    refine Keeps.foldlM (fun all contract _ => ?_) true
    refine (Contract.keeps_eq_onPersist h contract).bind fun item => ?_
    split
    · exact keeps_fail _
    · exact keeps_pure _
  exact hloop machine rfl

/-- What a registry of tokens finds is one of the tokens. -/
theorem exists_token_of_found {contract : Contract}
    (hregistry : registry.contracts.toList = tokens.map Token.contract)
    (h : machine.declaredCall?.bind registry.findService? = some contract) :
    ∃ token ∈ tokens, token.contract = contract := by
  obtain ⟨service, -, hfound⟩ := Option.bind_eq_some_iff.mp h
  obtain ⟨position, -, hposition⟩ := Option.bind_eq_some_iff.mp hfound
  have hmem : contract ∈ registry.contracts.toList :=
    Array.mem_def.mp (Array.mem_of_getElem? hposition)
  rw [hregistry] at hmem
  exact List.mem_map.mp hmem

theorem allRewarded_of_gather {combine : Bool → Bool → Bool} {total result : Bool}
    (h : (gather combine (fun token => worked token.contract) total tokens).exec machine =
      (.ok result, later))
    (htrigger : machine.trigger = .system)
    (hlimit : machine.budget.limit = machine.limits.maxStackSize) :
    AllRewarded tokens machine later := by
  induction tokens generalizing total machine with
  | nil =>
    cases h
    exact .nil _
  | cons token tokens ih =>
    obtain ⟨ran, middle, hworked, h⟩ := gather_cons_eq_ok_iff.mp h
    obtain ⟨item, left, hexec, hitem⟩ := exec_bind_eq_ok_iff.mp hworked
    have hleft : left = middle := by
      split at hitem <;> cases hitem
      rfl
    subst hleft
    have honly := token.confined_onPersist.changesOnly machine machine (.refl _ machine)
    rw [hexec] at honly
    have hrest : left = { machine with store := left.store } := honly.rest_eq
    refine .cons (Token.rewarded_of_onPersist hexec htrigger hlimit) (ih h ?_ ?_)
    · rw [hrest]
      exact htrigger
    · rw [hrest]
      exact hlimit

/-- What can be done with the tokens of a registry, and with the registry as a whole. -/
inductive Operation where
  | setUp (token : Token)
  | setUpAll
  | onPersist (token : Token)
  | onPersistAll
  | invoke (token : Token)
  | route
  | testCall (token : Token) (method : String) (arguments : List Item)
  | balance (token : Token) (address : List UInt8)
  | supply (token : Token)

/-- The machine that an operation leaves behind, whether it failed or not. -/
def Operation.after (registry : Registry) (machine : Machine) : Operation → Machine
  | setUp token => (token.contract.setUp.exec machine).2
  | setUpAll => (registry.setUpAll.exec machine).2
  | onPersist token => (token.contract.onPersist.exec machine).2
  | onPersistAll => (registry.onPersistAll.exec machine).2
  | invoke token => (token.contract.invoke.exec machine).2
  | route => (registry.invoke.exec machine).2
  | testCall token method arguments =>
    (exec (liftM (token.contract.testCall method arguments)) machine).2
  | balance token address => (exec (get >>= fun m => token.ledger.balance address m) machine).2
  | supply token => (exec (get >>= fun m => pure (token.ledger.supply m)) machine).2

/-- The operations that may change the store of a machine: setup under the application trigger,
and the work for a block under the system trigger, which a call has to ask for by name. -/
inductive MayWrite (registry : Registry) (machine : Machine) : Operation → Prop where
  | setUp (token : Token) (h : machine.trigger = .application) :
      MayWrite registry machine (.setUp token)
  | setUpAll (h : machine.trigger = .application) : MayWrite registry machine .setUpAll
  | onPersist (token : Token) (h : machine.trigger = .system) :
      MayWrite registry machine (.onPersist token)
  | onPersistAll (h : machine.trigger = .system) : MayWrite registry machine .onPersistAll
  | invoke (token : Token) (h : machine.trigger = .system)
      (hasks : token.contract.AsksOnPersist machine) : MayWrite registry machine (.invoke token)
  | route (contract : Contract) (h : machine.trigger = .system)
      (hfound : machine.declaredCall?.bind registry.findService? = some contract)
      (hasks : contract.AsksOnPersist machine) : MayWrite registry machine .route

theorem Operation.store_eq_or_mayWrite
    (hregistry : registry.contracts.toList = tokens.map Token.contract) (machine : Machine)
    (operation : Operation) :
    (operation.after registry machine).store = machine.store ∨
      MayWrite registry machine operation := by
  cases operation with
  | setUp token =>
    by_cases h : machine.trigger = .application
    · exact .inr (.setUp token h)
    · left
      rw [after, Contract.exec_setUp, if_neg h]
  | setUpAll =>
    by_cases h : machine.trigger = .application
    · exact .inr (.setUpAll h)
    · left
      rw [after, registry.exec_setUpAll_of_ne h]
  | onPersist token =>
    by_cases h : machine.trigger = .system
    · exact .inr (.onPersist token h)
    · left
      rw [after, Contract.exec_onPersist, if_neg h]
  | onPersistAll =>
    by_cases h : machine.trigger = .system
    · exact .inr (.onPersistAll h)
    · left
      rw [after, registry.exec_onPersistAll_of_ne h]
  | invoke token => exact (token.store_eq_or_asks machine).imp_right fun h => .invoke token h.1 h.2
  | route =>
    rw [after, Registry.exec_invoke]
    rcases hfound : machine.declaredCall?.bind registry.findService? with _ | contract
    · exact .inl rfl
    · obtain ⟨token, -, rfl⟩ := exists_token_of_found hregistry hfound
      exact (token.store_eq_or_asks machine).imp_right fun h => .route _ h.1 hfound h.2
  | testCall token method arguments => exact .inl rfl
  | balance token address => exact .inl rfl
  | supply token => exact .inl rfl

/-- What the operation pays on a machine under the system trigger, if it succeeds. -/
def Operation.Pays (registry : Registry) (tokens : List Token) (machine : Machine) :
    Operation → Prop
  | onPersist token => ∀ item later, token.contract.onPersist.exec machine = (.ok item, later) →
      token.Rewarded machine later
  | onPersistAll => ∀ ran later, registry.onPersistAll.exec machine = (.ok ran, later) →
      AllRewarded tokens machine later
  | invoke token => ∀ later, token.contract.AsksOnPersist machine →
      token.contract.invoke.exec machine = (.ok true, later) → token.Rewarded machine later
  | route => ∀ later, registry.invoke.exec machine = (.ok true, later) →
      ∃ token ∈ tokens, machine.declaredCall?.bind registry.findService? = some token.contract ∧
        (token.contract.AsksOnPersist machine → token.Rewarded machine later)
  | _ => True

theorem Operation.pays (hregistry : registry.contracts.toList = tokens.map Token.contract)
    (htrigger : machine.trigger = .system)
    (hlimit : machine.budget.limit = machine.limits.maxStackSize) (operation : Operation) :
    operation.Pays registry tokens machine := by
  cases operation with
  | onPersist token => exact fun item later h => Token.rewarded_of_onPersist h htrigger hlimit
  | onPersistAll =>
    intro ran later h
    rw [onPersistAll_eq hregistry] at h
    exact allRewarded_of_gather h htrigger hlimit
  | invoke token =>
    exact fun later hasks h => Token.rewarded_of_invoke htrigger hlimit hasks h
  | route =>
    intro later h
    rw [Registry.exec_invoke] at h
    rcases hfound : machine.declaredCall?.bind registry.findService? with _ | contract <;>
      rw [hfound] at h
    · cases h
    · obtain ⟨token, hmem, rfl⟩ := exists_token_of_found hregistry hfound
      exact ⟨token, hmem, rfl, fun hasks => Token.rewarded_of_invoke htrigger hlimit hasks h⟩
  | setUp | setUpAll | testCall | balance | supply => trivial

/-! ## Runs -/

/-- Operations one after another under one trigger, from one store to another. Each runs on
any machine that has the store it finds and the budget of its limits. -/
inductive History (registry : Registry) (trigger : Trigger) :
    Store → List (Machine × Operation) → Store → Prop where
  | nil (store : Store) : History registry trigger store [] store
  | cons {machine : Machine} {operation : Operation} {steps : List (Machine × Operation)}
      {last : Store} (htrigger : machine.trigger = trigger)
      (hlimit : machine.budget.limit = machine.limits.maxStackSize)
      (h : History registry trigger (operation.after registry machine).store steps last) :
      History registry trigger machine.store ((machine, operation) :: steps) last

variable {trigger : Trigger} {first last : Store} {steps : List (Machine × Operation)}

theorem History.forall_mem {P : Machine × Operation → Prop}
    (h : History registry trigger first steps last)
    (hstep : ∀ machine operation, machine.trigger = trigger →
      machine.budget.limit = machine.limits.maxStackSize → P (machine, operation)) :
    ∀ step ∈ steps, P step := by
  induction h with
  | nil => simp
  | cons htrigger hlimit _ ih =>
    intro step hmem
    rcases List.mem_cons.mp hmem with rfl | hmem
    · exact hstep _ _ htrigger hlimit
    · exact ih step hmem

theorem History.eq_of_not_mayWrite
    (hregistry : registry.contracts.toList = tokens.map Token.contract)
    (h : History registry trigger first steps last)
    (hnone : ∀ step ∈ steps, ¬MayWrite registry step.1 step.2) : last = first := by
  induction h with
  | nil => rfl
  | @cons machine operation steps last htrigger hlimit _ ih =>
    rcases operation.store_eq_or_mayWrite hregistry machine with hstore | hwrite
    · rw [← hstore]
      exact ih fun step hmem => hnone step (List.mem_cons_of_mem _ hmem)
    · exact absurd hwrite (hnone _ (List.mem_cons_self))

theorem MayWrite.trigger_ne_verification {operation : Operation}
    (h : MayWrite registry machine operation) : machine.trigger ≠ .verification := by
  intro hverification
  cases h with
  | setUp _ h | setUpAll h | onPersist _ h | onPersistAll h | invoke _ h | route _ h =>
    rw [h] at hverification
    cases hverification

/-- Only the operations that the trigger allows to write change the store, so that under
verification it stays what it was. What succeeds under the system trigger pays the reward of
each token that did the work for a block. Methods that are marked safe change nothing. -/
theorem History.writes_by_trigger
    (hregistry : registry.contracts.toList = tokens.map Token.contract)
    (h : History registry trigger first steps last) :
    (∀ step ∈ steps, (step.2.after registry step.1).store ≠ step.1.store →
      MayWrite registry step.1 step.2) ∧
    ((∀ step ∈ steps, ¬MayWrite registry step.1 step.2) → last = first) ∧
    (trigger = .verification → last = first) ∧
    (trigger = .system → ∀ step ∈ steps, step.2.Pays registry tokens step.1) ∧
    ∀ token : Token, ∀ method ∈ token.contract.methods.methods, method.safe = true →
      ∀ arguments machine,
        ((token.contract.handle method arguments).exec machine).2.store = machine.store := by
  refine ⟨?_, h.eq_of_not_mayWrite hregistry, ?_, ?_, ?_⟩
  · intro step _ hchanged
    exact (step.2.store_eq_or_mayWrite hregistry step.1).resolve_left hchanged
  · rintro rfl
    have hnone := h.forall_mem (P := fun step => ¬MayWrite registry step.1 step.2)
      fun machine operation htrigger _ hwrite => hwrite.trigger_ne_verification htrigger
    exact h.eq_of_not_mayWrite hregistry hnone
  · rintro rfl
    exact h.forall_mem fun machine operation htrigger hlimit =>
      operation.pays hregistry htrigger hlimit
  · intro token method hmethod hsafe arguments machine
    rw [Token.exec_handle_of_safe hmethod hsafe]

/-- A token that pays three for every block. -/
def paying : Token where
  service := "Paying"
  settings := {
    id := 5, name := "Paying", symbol := "P", decimals := 0, reward := 3,
    rewardAddress := some (List.replicate 20 7) }

def payingOnly : Registry := extended {} paying.contract

/-- A script that calls the token, with the name of its work for a block on the stack. -/
def call : Frame := ⟨paying.contract.script, ⟨[.ofText "onPersist", .array []]⟩⟩

/-- A machine in that call. -/
def asking (machine : Machine) : Machine :=
  { machine with frames := [call], budget := { machine.budget with count := 2 } }

/-- The machine after the call. -/
def asked (machine : Machine) : Machine := (paying.contract.invoke.exec (asking machine)).2

/-- The store after the work for a second block, asked for directly on another machine. -/
def twoBlocks (machine : Machine) : Store :=
  (paying.contract.onPersist.exec (.start .system (asked machine).store)).2.store

theorem calledFrom_asking (machine : Machine) :
    paying.contract.CalledFrom (asking machine) call [] :=
  ⟨rfl, Script.declaredCall?_eq_some_iff.mp (Script.declaredCall?_calling _)⟩

theorem exec_invoke_asking (machine : Machine) :
    payingOnly.invoke.exec (asking machine) = paying.contract.invoke.exec (asking machine) := by
  have hindexed : payingOnly.Indexed := Indexed.empty.extended (by simp)
  have hfound : payingOnly.findService? paying.contract.service = some paying.contract :=
    hindexed.services.find_eq_some (by simp [payingOnly, extended])
  have hdeclared : (asking machine).declaredCall? = some paying.contract.service :=
    Script.declaredCall?_calling _
  rw [Registry.exec_invoke, hdeclared, Option.bind_some, hfound]

theorem history_twoBlocks (machine : Machine) (htrigger : machine.trigger = .system)
    (hlimit : machine.budget.limit = machine.limits.maxStackSize) :
    History payingOnly .system machine.store
      [(asking machine, .route), (.start .system (asked machine).store, .onPersist paying)]
      (twoBlocks machine) := by
  have hrouted : Operation.route.after payingOnly (asking machine) = asked machine := by
    rw [Operation.after, exec_invoke_asking, asked]
  have hsecond : History payingOnly .system (asked machine).store
      [(.start .system (asked machine).store, .onPersist paying)] (twoBlocks machine) :=
    .cons (show (Machine.start .system (asked machine).store).trigger = .system from rfl) rfl
      (.nil _)
  refine .cons (show (asking machine).trigger = .system from htrigger) hlimit ?_
  rw [hrouted]
  exact hsecond

theorem exec_route_asking :
    payingOnly.invoke.exec (asking (.start .system)) = (.ok true, asked (.start .system)) := by
  rw [exec_invoke_asking]
  exact exec_eq_ok_of_toOption (by decide +kernel)

theorem writes_by_trigger_twoBlocks :
    History payingOnly .system {}
        [(asking (.start .system), .route),
          (.start .system (asked (.start .system)).store, .onPersist paying)]
        (twoBlocks (.start .system)) ∧
      paying.Rewarded (asking (.start .system)) (asked (.start .system)) ∧
      paying.ledger.supply (.start .system (twoBlocks (.start .system))) = 6 := by
  have hregistry : payingOnly.contracts.toList = [paying].map Token.contract := rfl
  have hhistory : History payingOnly .system {} _ (twoBlocks (.start .system)) :=
    history_twoBlocks (.start .system) rfl rfl
  obtain ⟨-, -, -, hpays, -⟩ := hhistory.writes_by_trigger hregistry
  have hroute := hpays rfl (asking (.start .system), .route) (by simp)
  obtain ⟨token, hmem, -, hrewarded⟩ := hroute _ exec_route_asking
  obtain rfl : token = paying := by simpa using hmem
  exact ⟨hhistory, hrewarded (.intro (calledFrom_asking _) rfl rfl), by decide +kernel⟩

end Registry

end NativeContracts
