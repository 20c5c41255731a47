import NativeContracts.Proofs.SharedBudget

/-! Calls on trial. A trial loads the contract's own script on a machine of its own and puts the
call on its stack, so that the contract always takes the call to be its own. If there is room for
the call, the method that it names runs once, on a machine that holds nothing, and the result
that it gives is all that the machine holds in the end. -/

namespace NativeContracts

open Run

/-! ## Methods that leave stacks alone -/

/-- Whenever the run succeeds, loaded frames, results and what they are charged are as it found
them. The machines it starts on count what their stacks hold. -/
def Run.LeavesStacks {α : Type} (x : Run α) : Prop :=
  ∀ machine a after, Machine.Accounted machine.trigger machine.limits machine →
    exec x machine = (.ok a, after) →
      after.frames = machine.frames ∧ after.results = machine.results ∧
        after.budget = machine.budget

/-- A procedure charges for what it leaves on stacks and for nothing else. -/
theorem Procedure.leavesStacks {α : Type} {x : Run α} (hx : Procedure x)
    (h : ∀ machine a after, exec x machine = (.ok a, after) →
      after.frames = machine.frames ∧ after.results = machine.results) :
    LeavesStacks x := by
  intro machine a after haccounted hexec
  obtain ⟨hframes, hresults⟩ := h machine a after hexec
  have hafter := hx.keeps (keptByOperations_accounted _ _) machine haccounted
  rw [hexec] at hafter
  have hlimit : after.budget.limit = machine.budget.limit :=
    hafter.limit_eq.trans haccounted.limit_eq.symm
  have hcount : after.budget.count = machine.budget.count := by
    rw [hafter.count_eq, haccounted.count_eq, Machine.heldItems, Machine.heldItems, hframes,
      hresults]
  exact ⟨hframes, hresults, congrArg₂ Budget.mk hlimit hcount⟩

/-! ## A machine with one script -/

namespace Item

theorem weight_array (items : List Item) : (array items).weight = weights items + 1 :=
  weight_eq _

theorem weight_ofText (text : String) : (ofText text).weight = 1 :=
  weight_eq _

end Item

namespace Machine

/-- The machine with this script alone loaded, and with these items on its two stacks, which a
budget of the usual size was charged for. -/
def holding (machine : Machine) (script : Script) (items results : List Item) : Machine :=
  { machine with
    frames := [⟨script, ⟨items⟩⟩]
    results := ⟨results⟩
    budget := { limit := 2048, count := Item.weights (items ++ results) } }

variable {machine : Machine} {script : Script} {items results : List Item} {item : Item}

theorem exec_load_start (script : Script) :
    (load script).exec (.start .application) =
      (.ok (), (start .application).holding script [] []) := rfl

theorem exec_push_cases (machine : Machine) (script : Script) (items results : List Item)
    (item : Item) :
    item.weight + Item.weights (items ++ results) ≤ 2048 ∧
        (push item).exec (machine.holding script items results) =
          (.ok (), machine.holding script (item :: items) results) ∨
      2048 < item.weight + Item.weights (items ++ results) ∧
        ∃ requested, 2048 < requested ∧
          (push item).exec (machine.holding script items results) =
            (.error (.fault (.referenceLimitExceeded requested 2048)),
              machine.holding script items results) := by
  rw [exec_push]
  rcases Budget.charge_cases ⟨2048, Item.weights (items ++ results)⟩ item
      (show 2048 < UInt64.size by decide) with
    ⟨hfits, hcharge⟩ | ⟨hpast, fault, hcharge, requested, rfl, hsmall, hlarge⟩
  · left
    simp only [holding, Stack.push, hcharge, bind, Except.bind, pure, Except.pure]
    refine ⟨by simpa [Nat.add_comm] using hfits, ?_⟩
    rw [List.cons_append, Item.weights_cons, Nat.add_comm item.weight]
  · right
    simp only [holding, Stack.push, hcharge, bind, Except.bind]
    simp only [UInt64.size] at hpast hsmall hlarge
    exact ⟨by omega, requested, by omega, rfl⟩

theorem exec_pop_holding (machine : Machine) (script : Script) (items results : List Item)
    (item : Item) :
    pop.exec (machine.holding script (item :: items) results) =
      (.ok item, machine.holding script items results) := by
  rw [exec_pop]
  simp only [holding, Stack.pop, Budget.release, List.cons_append, Item.weights_cons,
    Nat.add_sub_cancel_left]

theorem exec_pushResult_holding (h : item.weight ≤ 2048) :
    (pushResult item).exec (machine.holding script [] []) =
      (.ok (), machine.holding script [] [item]) := by
  have hcharge : Budget.charge ⟨2048, 0⟩ item = .ok ⟨2048, 0 + item.weight⟩ := by
    rw [← Nat.zero_add item.weight] at h
    exact Budget.charge_eq_ok_iff.mpr ⟨Nat.le_min.mpr ⟨h, Nat.le_trans h (by decide)⟩, rfl⟩
  rw [exec_pushResult]
  simp only [holding, Stack.push, List.append_nil, Item.weights_nil, hcharge, bind, Except.bind,
    pure, Except.pure, Nat.zero_add]
  rfl

end Machine

namespace Contract

/-! ## The call -/

/-- The call of a method on the stack of the contract's own script. -/
def prepare (contract : Contract) (operation : String) (arguments : List Item) : Run Unit := do
  Run.load contract.script
  Run.push (.array arguments)
  Run.push (.ofText operation)

/-- Answers the call that was put on the stack, and moves its result. -/
def conclude (contract : Contract) : Run Unit := do
  if ← contract.invoke then
    let result ← Run.pop
    Run.pushResult result

/-- The machine with the contract's script alone loaded, and nothing on its stacks. -/
def scratch (contract : Contract) (machine : Machine) : Machine :=
  machine.holding contract.script [] []

variable {contract : Contract} {operation : String} {arguments items results : List Item}
  {machine after : Machine} {method : Method}

theorem trial_eq (contract : Contract) (operation : String) (arguments : List Item) :
    contract.trial operation arguments =
      contract.prepare operation arguments >>= fun _ => contract.conclude := by
  simp only [trial, prepare, conclude, bind_assoc]

/-- The machine with a call that is ready to be answered. -/
def ready (contract : Contract) (machine : Machine) (operation : String) (arguments : List Item) :
    Machine :=
  machine.holding contract.script [.ofText operation, .array arguments] []

theorem exec_prepare_cases (contract : Contract) (operation : String) (arguments : List Item) :
    Item.weights arguments + 2 ≤ 2048 ∧
        (contract.prepare operation arguments).exec (.start .application) =
          (.ok (), contract.ready (.start .application) operation arguments) ∨
      2048 < Item.weights arguments + 2 ∧ ∃ requested stopped, 2048 < requested ∧
        (contract.prepare operation arguments).exec (.start .application) =
          (.error (.fault (.referenceLimitExceeded requested 2048)), stopped) := by
  rw [prepare, exec_bind_ok _ (Machine.exec_load_start _)]
  rcases Machine.exec_push_cases (.start .application) contract.script [] [] (.array arguments) with
    ⟨-, harray⟩ | ⟨hpast, requested, hrequested, harray⟩
  · rw [exec_bind_ok _ harray]
    rcases Machine.exec_push_cases (.start .application) contract.script [.array arguments] []
      (.ofText operation) with ⟨hfits, hexec⟩ | ⟨hpast, requested, hrequested, hexec⟩
    · left
      simp only [List.append_nil, Item.weights_cons, Item.weights_nil, Item.weight_array,
        Item.weight_ofText] at hfits
      exact ⟨by omega, hexec⟩
    · right
      simp only [List.append_nil, Item.weights_cons, Item.weights_nil, Item.weight_array,
        Item.weight_ofText] at hpast
      exact ⟨by omega, requested, _, hrequested, hexec⟩
  · right
    simp only [List.append_nil, Item.weights_nil, Item.weight_array] at hpast
    exact ⟨by omega, requested, _, hrequested, exec_bind_error _ harray⟩

theorem calledFrom_holding (contract : Contract) (machine : Machine) (items results : List Item) :
    contract.CalledFrom (machine.holding contract.script items results)
      ⟨contract.script, ⟨items⟩⟩ [] :=
  ⟨rfl, Script.declaredCall?_eq_some_iff.mp (Script.declaredCall?_calling _)⟩

/-! ## The answer -/

theorem methodNamed?_ofText (contract : Contract) (operation : String) :
    contract.methodNamed? (.ofText operation) = contract.methods.get? operation := by
  have htext : (Item.ofText operation).toText = .ok operation :=
    Item.toText_eq_ok_iff.mpr rfl
  rw [methodNamed?, htext]
  rfl

/-- Both items of the call leave the stack, and nothing is held while the method runs. -/
theorem exec_invoke_ready (contract : Contract) (machine : Machine) (operation : String)
    (arguments : List Item) :
    contract.invoke.exec (contract.ready machine operation arguments) =
      (contract.respond (.ofText operation) (.array arguments)).exec
        (contract.scratch machine) := by
  rw [ready, exec_invoke_called (contract.calledFrom_holding _ _ _),
    exec_bind_ok _ (Machine.exec_pop_holding _ _ _ _ _),
    exec_bind_ok _ (Machine.exec_pop_holding _ _ _ _ _)]
  rfl

theorem exec_conclude_unnamed (h : contract.methods.get? operation = none) :
    contract.conclude.exec (contract.ready machine operation arguments) =
      (.ok (), contract.scratch machine) := by
  have hinvoke : contract.invoke.exec (contract.ready machine operation arguments) =
      (.ok false, contract.scratch machine) := by
    rw [exec_invoke_ready, respond]
    simp only [Item.toItems, methodNamed?_ofText, h, exec_pure]
  rw [conclude, exec_bind_ok _ hinvoke]
  rfl

theorem exec_invoke_named (h : contract.methods.get? operation = some method) :
    contract.invoke.exec (contract.ready machine operation arguments) =
      (contract.handle method arguments >>= fun result =>
        Run.push result >>= fun _ => pure true).exec (contract.scratch machine) := by
  rw [exec_invoke_ready, respond]
  simp only [Item.toItems, methodNamed?_ofText, h]

theorem exec_conclude_failed {error : Error} (h : contract.methods.get? operation = some method)
    (hexec : (contract.handle method arguments).exec (contract.scratch machine) =
      (.error error, after)) :
    contract.conclude.exec (contract.ready machine operation arguments) =
      (.error error, after) := by
  rw [conclude]
  refine exec_bind_error _ ?_
  rw [exec_invoke_named h]
  exact exec_bind_error _ hexec

theorem accounted_scratch (contract : Contract) :
    Machine.Accounted .application {} (contract.scratch (.start .application)) :=
  ⟨rfl, rfl, rfl, rfl, Nat.zero_le _, show 1 ≤ 1024 by decide⟩

/-- Of what a method leaves of the scratch machine only the store can differ. -/
theorem eq_holding_of_handle {result : Item} (hmethod : method ∈ contract.methods.methods)
    (htidy : ∀ method ∈ contract.methods.methods, ∀ run, method.handler = .body run →
      ∀ arguments, LeavesStacks (run arguments))
    (hexec : (contract.handle method arguments).exec (contract.scratch (.start .application)) =
      (.ok result, after)) :
    after = after.holding contract.script [] [] := by
  have hsame : after.frames = [⟨contract.script, ⟨[]⟩⟩] ∧ after.results = ⟨[]⟩ ∧
      after.budget = { limit := 2048, count := 0 } := by
    unfold handle at hexec
    split at hexec
    · -- It is not the trigger for the work of a block.
      have htrigger : (contract.scratch (.start .application)).trigger ≠ .system :=
        show Trigger.application ≠ .system by decide
      rw [exec_onPersist, if_neg htrigger] at hexec
      cases hexec
      exact ⟨rfl, rfl, rfl⟩
    · next run hhandler =>
      exact htidy method hmethod run hhandler arguments _ _ _ contract.accounted_scratch hexec
  obtain ⟨hframes, hresults, hbudget⟩ := hsame
  cases after
  cases hframes
  cases hresults
  cases hbudget
  rfl

theorem exec_conclude_answered {result : Item} (h : contract.methods.get? operation = some method)
    (hexec : (contract.handle method arguments).exec (contract.scratch machine) =
      (.ok result, after))
    (hafter : after = after.holding contract.script [] []) (hfits : result.weight ≤ 2048) :
    contract.conclude.exec (contract.ready machine operation arguments) =
      (.ok (), after.holding contract.script [] [result]) := by
  have hpush : (Run.push result).exec after =
      (.ok (), after.holding contract.script [result] []) := by
    rcases Machine.exec_push_cases after contract.script [] [] result with ⟨-, hpush⟩ | ⟨hpast, -⟩
    · rwa [← hafter] at hpush
    · exact absurd hpast (Nat.not_lt_of_le hfits)
  have hinvoke : contract.invoke.exec (contract.ready machine operation arguments) =
      (.ok true, after.holding contract.script [result] []) := by
    rw [exec_invoke_named h, exec_bind_ok _ hexec, exec_bind_ok _ hpush]
    rfl
  rw [conclude, exec_bind_ok _ hinvoke]
  show (Run.pop >>= fun result => Run.pushResult result).exec _ = _
  rw [exec_bind_ok _ (Machine.exec_pop_holding _ _ _ _ _), Machine.exec_pushResult_holding hfits]

theorem exec_conclude_refused {result : Item} (h : contract.methods.get? operation = some method)
    (hexec : (contract.handle method arguments).exec (contract.scratch machine) =
      (.ok result, after))
    (hafter : after = after.holding contract.script [] []) (hpast : 2048 < result.weight) :
    ∃ requested, contract.conclude.exec (contract.ready machine operation arguments) =
      (.error (.fault (.referenceLimitExceeded requested 2048)), after) := by
  rcases Machine.exec_push_cases after contract.script [] [] result with
    ⟨hfits, -⟩ | ⟨-, requested, -, hpush⟩
  · exact absurd hfits (Nat.not_le_of_lt hpast)
  · rw [← hafter] at hpush
    refine ⟨requested, ?_⟩
    rw [conclude]
    refine exec_bind_error _ ?_
    rw [exec_invoke_named h, exec_bind_ok _ hexec, exec_bind_error _ hpush]

/-! ## The machine left behind -/

/-- The outcome of a run with the machine it leaves, or its error alone. -/
theorem testCall_eq (contract : Contract) (operation : String) (arguments : List Item) :
    contract.testCall operation arguments =
      match (contract.prepare operation arguments >>= fun _ => contract.conclude).exec
        (.start .application) with
      | (.ok (), machine) => .ok machine
      | (.error error, _) => .error error := by
  rw [← trial_eq]
  rfl

theorem testCall_of_exec_conclude {outcome : Except Error Unit}
    (hfits : Item.weights arguments + 2 ≤ 2048)
    (h : contract.conclude.exec (contract.ready (.start .application) operation arguments) =
      (outcome, after)) :
    contract.testCall operation arguments = outcome.map fun _ => after := by
  rcases contract.exec_prepare_cases operation arguments with ⟨-, hprepare⟩ | ⟨hpast, -⟩
  · rw [testCall_eq, exec_bind_ok _ hprepare, h]
    cases outcome <;> rfl
  · exact absurd hpast (Nat.not_lt_of_le hfits)

/-- A call of arguments that do not fit with two more references is refused before any method
runs. Any other one is the contract's own to answer. Where the name is no method's, nothing is
held in the end. The method that has the name runs once, on the scratch machine: the error it
fails with is returned, and its result is the one item held in the end, if it fits. -/
theorem testCall_eq_run_on_scratch (contract : Contract) (operation : String)
    (arguments : List Item)
    (htidy : ∀ method ∈ contract.methods.methods, ∀ run, method.handler = .body run →
      ∀ arguments, LeavesStacks (run arguments)) :
    contract.trial operation arguments =
      (contract.prepare operation arguments >>= fun _ => contract.conclude) ∧
    (2048 < Item.weights arguments + 2 → ∃ requested stopped, 2048 < requested ∧
      (contract.prepare operation arguments).exec (.start .application) =
        (.error (.fault (.referenceLimitExceeded requested 2048)), stopped) ∧
      contract.testCall operation arguments =
        .error (.fault (.referenceLimitExceeded requested 2048))) ∧
    (Item.weights arguments + 2 ≤ 2048 →
      (∃ prepared frame rest,
        (contract.prepare operation arguments).exec (.start .application) = (.ok (), prepared) ∧
          contract.CalledFrom prepared frame rest) ∧
      ((∀ method ∈ contract.methods.methods, method.name ≠ operation) →
        contract.testCall operation arguments =
          .ok (contract.scratch (.start .application))) ∧
      ∀ method ∈ contract.methods.methods, method.name = operation →
        (∀ error after,
          (contract.handle method arguments).exec (contract.scratch (.start .application)) =
              (.error error, after) →
            contract.testCall operation arguments = .error error) ∧
        ∀ result after,
          (contract.handle method arguments).exec (contract.scratch (.start .application)) =
              (.ok result, after) →
            (result.weight ≤ 2048 → contract.testCall operation arguments = .ok { after with
              frames := [{ script := contract.script }]
              results := ⟨[result]⟩
              budget := { limit := 2048, count := result.weight } }) ∧
            (2048 < result.weight → ∃ requested, contract.testCall operation arguments =
              .error (.fault (.referenceLimitExceeded requested 2048)))) := by
  refine ⟨contract.trial_eq operation arguments, fun hpast => ?_, fun hfits => ⟨?_, ?_, ?_⟩⟩
  · rcases contract.exec_prepare_cases operation arguments with
      ⟨hfits, -⟩ | ⟨-, requested, stopped, hrequested, hprepare⟩
    · exact absurd hfits (Nat.not_le_of_lt hpast)
    · refine ⟨requested, stopped, hrequested, hprepare, ?_⟩
      rw [testCall_eq, exec_bind_error _ hprepare]
  · rcases contract.exec_prepare_cases operation arguments with ⟨-, hprepare⟩ | ⟨hpast, -⟩
    · exact ⟨_, _, _, hprepare, contract.calledFrom_holding _ _ _⟩
    · exact absurd hpast (Nat.not_lt_of_le hfits)
  · intro hnone
    exact testCall_of_exec_conclude hfits
      (exec_conclude_unnamed (MethodTable.get?_eq_none_iff.mpr hnone))
  · intro method hmethod hname
    have hfound := MethodTable.get?_eq_some_iff.mpr ⟨hmethod, hname⟩
    refine ⟨fun error after hexec => ?_, fun result after hexec => ?_⟩
    · exact testCall_of_exec_conclude hfits (exec_conclude_failed hfound hexec)
    · have hafter := eq_holding_of_handle hmethod htidy hexec
      refine ⟨fun hresult => ?_, fun hresult => ?_⟩
      · rw [testCall_of_exec_conclude hfits (exec_conclude_answered hfound hexec hafter hresult)]
        simp [Machine.holding, Except.map]
      · obtain ⟨requested, hconclude⟩ := exec_conclude_refused hfound hexec hafter hresult
        exact ⟨requested, testCall_of_exec_conclude hfits hconclude⟩

/-- Gives the arguments back, with an item on the stack on the way. -/
def echo (arguments : List Item) : Run Item :=
  push .null >>= fun _ => pop >>= fun _ => pure (.array arguments)

def echoing : Contract where
  name := "Echoing"
  id := 1
  service := ⟨7⟩
  methods := ⟨[.onPersist, .writing "echo" 0 echo], by decide⟩

theorem leavesStacks_echo (arguments : List Item) : LeavesStacks (echo arguments) := by
  refine Procedure.leavesStacks (.bind (.push _) fun _ => .bind .pop fun _ => .value _) ?_
  intro machine item after hexec
  obtain ⟨_, middle, hpush, hrest⟩ := exec_bind_eq_ok_iff.mp hexec
  obtain ⟨_, later, hpop, hvalue⟩ := exec_bind_eq_ok_iff.mp hrest
  cases hvalue
  rw [exec_push] at hpush
  split at hpush
  · cases hpush
  · next frame rest hframes =>
    split at hpush
    · cases hpush
    · next stack budget hstack =>
      obtain ⟨-, rfl⟩ := Stack.push_eq_ok hstack
      cases hpush
      cases hpop
      exact ⟨hframes.symm, rfl⟩

theorem leavesStacks_echoing : ∀ method ∈ echoing.methods.methods, ∀ run,
    method.handler = .body run → ∀ arguments, LeavesStacks (run arguments) := by
  intro method hmethod run hhandler arguments
  obtain rfl | rfl : method = .onPersist ∨ method = .writing "echo" 0 echo := by
    simpa [echoing] using hmethod
  · cases hhandler
  · cases hhandler
    exact leavesStacks_echo arguments

theorem exec_echo (arguments : List Item) :
    (echo arguments).exec (echoing.scratch (.start .application)) =
      (.ok (.array arguments), echoing.scratch (.start .application)) := by
  rcases Machine.exec_push_cases (.start .application) echoing.script [] [] .null with
    ⟨-, hpush⟩ | ⟨hpast, -⟩
  · exact (exec_bind_ok _ hpush).trans (exec_bind_ok _ (Machine.exec_pop_holding _ _ _ _ _))
  · exact absurd hpast (by decide +kernel)

/-- Two arguments come back as one item of weight three. A name without a method leaves nothing
behind, and a list of arguments can be one item too long. -/
theorem testCall_eq_run_on_scratch_echoing :
    (∃ machine, echoing.testCall "echo" [.null, .array []] = .ok machine ∧
        machine.results.items = [.array [.null, .array []]] ∧ machine.frames.length = 1 ∧
        machine.budget.count = 3) ∧
      echoing.testCall "reverb" [] = .ok (echoing.scratch (.start .application)) ∧
      ∃ requested, echoing.testCall "echo" (List.replicate 2047 .null) =
        .error (.fault (.referenceLimitExceeded requested 2048)) := by
  have htrial := fun operation arguments =>
    testCall_eq_run_on_scratch echoing operation arguments leavesStacks_echoing
  obtain ⟨-, -, hfits⟩ := htrial "echo" [.null, .array []]
  obtain ⟨-, -, hother⟩ := htrial "reverb" []
  obtain ⟨-, hpast, -⟩ := htrial "echo" (List.replicate 2047 .null)
  refine ⟨?_, ?_, ?_⟩
  · have hweight : Item.weight (.array [.null, .array []]) = 3 := by decide +kernel
    obtain ⟨-, -, hnamed⟩ := hfits (by decide +kernel)
    obtain ⟨-, hresult⟩ := hnamed (.writing "echo" 0 echo) (by simp [echoing]) rfl
    obtain ⟨hheld, -⟩ := hresult _ _ (exec_echo [.null, .array []])
    exact ⟨_, hheld (by rw [hweight]; decide), rfl, rfl, hweight⟩
  · obtain ⟨-, hunnamed, -⟩ := hother (by decide)
    exact hunnamed (by decide)
  · have hweights : Item.weights (List.replicate 2047 .null) = 2047 := by
      rw [Item.weights_eq_nodeCounts]
      decide +kernel
    obtain ⟨requested, -, -, -, hrefused⟩ := hpast (by rw [hweights]; decide)
    exact ⟨requested, hrefused⟩

end Contract

end NativeContracts
