import NativeContracts.Proofs.Dispatch

/-! The references that a machine counts. At any time the count is the weight of all
items on its stacks, and never past the limit: pushes charge what pops, clears and
unloaded frames give back, contracts may load and unload frames in the middle of a
call, and a step that fails gives back what it took. -/

namespace NativeContracts

namespace Budget

theorem charge_eq_ok_iff {budget charged : Budget} {item : Item} :
    budget.charge item = .ok charged ↔
      budget.count + item.weight ≤ min budget.limit largestCount ∧
        charged = { budget with count := budget.count + item.weight } := by
  rw [charge, Nat.le_min]
  split
  · next h => simp [h, eq_comm]
  · next h => simp [h]

end Budget

namespace Stack

theorem push_eq_ok {stack pushed : Stack} {item : Item} {budget charged : Budget}
    (h : stack.push item budget = .ok (pushed, charged)) :
    budget.charge item = .ok charged ∧ pushed = ⟨item :: stack.items⟩ := by
  rw [push] at h
  rcases hcharge : budget.charge item with fault | found <;> rw [hcharge] at h <;> cases h
  exact ⟨rfl, rfl⟩

theorem pop_eq_ok {stack popped : Stack} {item : Item} {budget released : Budget}
    (h : stack.pop budget = .ok (item, popped, released)) :
    stack.items = item :: popped.items ∧ released = budget.release item := by
  rw [pop] at h
  rcases hitems : stack.items with _ | ⟨top, rest⟩ <;> rw [hitems] at h <;> cases h
  exact ⟨rfl, rfl⟩

/-- Giving back the items of a stack one by one gives back their weight. -/
theorem released_eq (stack : Stack) (budget : Budget) :
    stack.released budget = { budget with count := budget.count - Item.weights stack.items } := by
  rw [released]
  induction stack.items generalizing budget with
  | nil => rfl
  | cons item items ih =>
    rw [List.foldl_cons, ih, Budget.release, Item.weights_cons, Nat.sub_sub]

end Stack

namespace Machine

/-- The invariant of a machine that began under `trigger` and `limits`. -/
structure Accounted (trigger : Trigger) (limits : Limits) (machine : Machine) : Prop where
  trigger_eq : machine.trigger = trigger
  limits_eq : machine.limits = limits
  limit_eq : machine.budget.limit = limits.maxStackSize
  count_eq : machine.budget.count = Item.weights machine.heldItems
  count_le : machine.budget.count ≤ limits.maxStackSize
  depth_le : machine.frames.length ≤ limits.maxInvocationDepth

variable {trigger : Trigger} {limits : Limits} {machine : Machine} {frame : Frame}
  {rest : List Frame}

theorem heldItems_cons (h : machine.frames = frame :: rest) :
    machine.heldItems =
      frame.stack.items ++ (rest.flatMap (·.stack.items) ++ machine.results.items) := by
  rw [heldItems, h, List.flatMap_cons, List.append_assoc]

namespace Accounted

theorem start (trigger : Trigger) (store : Store) (limits : Limits) :
    Accounted trigger limits (.start trigger store limits) where
  trigger_eq := rfl
  limits_eq := rfl
  limit_eq := rfl
  count_eq := rfl
  count_le := Nat.zero_le _
  depth_le := Nat.zero_le _

/-- An item more is held, and it was charged. -/
theorem charge {item : Item} {budget : Budget} {frames : List Frame} {results : Stack}
    (h : Accounted trigger limits machine) (hcharge : machine.budget.charge item = .ok budget)
    (hdepth : frames.length ≤ machine.frames.length)
    (hheld : Item.weights (heldItems { machine with budget, frames, results }) =
      item.weight + Item.weights machine.heldItems) :
    Accounted trigger limits { machine with budget, frames, results } := by
  obtain ⟨hfits, rfl⟩ := Budget.charge_eq_ok_iff.mp hcharge
  have hcount := h.count_eq
  have hlimit := h.limit_eq
  refine ⟨h.trigger_eq, h.limits_eq, h.limit_eq, ?_, ?_, Nat.le_trans hdepth h.depth_le⟩
  · rw [hheld, ← hcount, Nat.add_comm]
  · rw [Nat.le_min, hlimit] at hfits
    exact hfits.1

/-- Items of weight `weight` are no longer held, and they were given back. -/
theorem release {weight : Nat} {frames : List Frame} {results : Stack}
    (h : Accounted trigger limits machine) (hdepth : frames.length ≤ machine.frames.length)
    (hheld : Item.weights machine.heldItems =
      weight + Item.weights (frames.flatMap (·.stack.items) ++ results.items)) :
    Accounted trigger limits { machine with
      budget := { machine.budget with count := machine.budget.count - weight }
      frames
      results } := by
  have hcount := h.count_eq
  refine ⟨h.trigger_eq, h.limits_eq, h.limit_eq, ?_, ?_, Nat.le_trans hdepth h.depth_le⟩
  · rw [hheld] at hcount
    -- The subtraction is exact: what is given back was counted.
    simp only [hcount, Nat.add_sub_cancel_left]
    rfl
  · exact Nat.le_trans (Nat.sub_le _ _) h.count_le

theorem with_store (h : Accounted trigger limits machine) (store : Store) :
    Accounted trigger limits { machine with store } :=
  ⟨h.trigger_eq, h.limits_eq, h.limit_eq, h.count_eq, h.count_le, h.depth_le⟩

end Accounted

end Machine

namespace Run

open Machine

variable {trigger : Trigger} {limits : Limits}

theorem keeps_load (script : Script) : Keeps (Accounted trigger limits) (load script) := by
  intro machine h
  rw [exec_load]
  split
  · exact h
  · next hdepth =>
    refine ⟨h.trigger_eq, h.limits_eq, h.limit_eq, h.count_eq, h.count_le, ?_⟩
    rw [h.limits_eq] at hdepth
    exact Nat.lt_of_not_le hdepth

theorem keeps_unload : Keeps (Accounted trigger limits) unload := by
  intro machine h
  rw [exec_unload]
  rcases hframes : machine.frames with _ | ⟨frame, rest⟩
  · exact h
  · simp only [Stack.released_eq]
    apply h.release
    · simp [hframes]
    · rw [heldItems_cons hframes, Item.weights_append]

theorem keeps_push (item : Item) : Keeps (Accounted trigger limits) (push item) := by
  intro machine h
  rw [exec_push]
  rcases hframes : machine.frames with _ | ⟨frame, rest⟩
  · exact h
  · rcases hpush : frame.stack.push item machine.budget with fault | ⟨stack, budget⟩
    · simpa only [hpush] using h
    · simp only [hpush]
      obtain ⟨hcharge, rfl⟩ := Stack.push_eq_ok hpush
      apply h.charge hcharge
      · simp [hframes]
      · rw [heldItems_cons hframes, heldItems_cons rfl]
        simp

theorem keeps_pop : Keeps (Accounted trigger limits) pop := by
  intro machine h
  rw [exec_pop]
  rcases hframes : machine.frames with _ | ⟨frame, rest⟩
  · exact h
  · rcases hpop : frame.stack.pop machine.budget with fault | ⟨item, stack, budget⟩
    · simpa only [hpop] using h
    · simp only [hpop]
      obtain ⟨hitems, rfl⟩ := Stack.pop_eq_ok hpop
      apply h.release
      · simp [hframes]
      · rw [heldItems_cons hframes, hitems]
        simp

theorem keeps_clear : Keeps (Accounted trigger limits) clear := by
  intro machine h
  rw [exec_clear]
  rcases hframes : machine.frames with _ | ⟨frame, rest⟩
  · exact h
  · simp only [Stack.released_eq]
    apply h.release
    · simp [hframes]
    · rw [heldItems_cons hframes, Item.weights_append]
      simp

theorem keeps_pushResult (item : Item) : Keeps (Accounted trigger limits) (pushResult item) := by
  intro machine h
  rw [exec_pushResult]
  rcases hpush : machine.results.push item machine.budget with fault | ⟨results, budget⟩
  · exact h
  · obtain ⟨hcharge, rfl⟩ := Stack.push_eq_ok hpush
    apply h.charge hcharge (Nat.le_refl _)
    simp only [heldItems, Item.weights_append, Item.weights_cons]
    omega

theorem keeps_popResult : Keeps (Accounted trigger limits) popResult := by
  intro machine h
  rw [exec_popResult]
  rcases hpop : machine.results.pop machine.budget with fault | ⟨item, results, budget⟩
  · exact h
  · obtain ⟨hitems, rfl⟩ := Stack.pop_eq_ok hpop
    apply h.release (Nat.le_refl _)
    simp only [heldItems, hitems, Item.weights_append, Item.weights_cons]
    omega

theorem keeps_clearResults : Keeps (Accounted trigger limits) clearResults := by
  intro machine h
  rw [clearResults, exec_modify, Stack.released_eq]
  apply h.release (Nat.le_refl _)
  simp only [heldItems, Item.weights_append, Item.weights_nil]
  omega

theorem keeps_put (key : Key) (record : Record) :
    Keeps (Accounted trigger limits) (put key record) := by
  intro machine h
  rw [exec_put]
  rcases machine.store.put key record with error | store
  · exact h
  · exact h.with_store store

theorem keeps_remove (key : Key) : Keeps (Accounted trigger limits) (remove key) := by
  intro machine h
  rw [exec_remove]
  rcases machine.store.remove key with error | store
  · exact h
  · exact h.with_store store

end Run

open Run Machine

/-- The computations put together from operations of a machine, one after another. They
may look at the machine, go on after a failure, and fail at any point. -/
inductive Procedure : ∀ {α : Type}, Run α → Prop where
  | value {α : Type} (a : α) : Procedure (pure a)
  | failure {α : Type} (error : Error) : Procedure (throw error : Run α)
  | inspect {α : Type} (f : Machine → α) : Procedure (f <$> get)
  | load (script : Script) : Procedure (load script)
  | unload : Procedure unload
  | push (item : Item) : Procedure (push item)
  | pop : Procedure pop
  | peek (depth : UInt64) : Procedure (peek depth)
  | clear : Procedure clear
  | pushResult (item : Item) : Procedure (pushResult item)
  | popResult : Procedure popResult
  | clearResults : Procedure clearResults
  | put (key : Key) (record : Record) : Procedure (put key record)
  | remove (key : Key) : Procedure (remove key)
  | putAccount (key : Key) (account : Account) : Procedure (putAccount key account)
  | setUp {contract : Contract} (hseed : Procedure contract.seed) : Procedure contract.setUp
  | onPersist {contract : Contract} (hpersist : Procedure contract.persist) :
      Procedure contract.onPersist
  | invoke {contract : Contract}
      (hbodies : ∀ method ∈ contract.methods.methods, ∀ run, method.handler = .body run →
        ∀ arguments, Procedure (run arguments))
      (hpersist : Procedure contract.persist) : Procedure contract.invoke
  | bind {α β : Type} {x : Run α} {f : α → Run β} (hx : Procedure x)
      (hf : ∀ a, Procedure (f a)) : Procedure (x >>= f)
  | attempt {α : Type} {x : Run α} (hx : Procedure x) : Procedure (attempt x)

/-- `Visits x machine seen` says that `x`, run on `machine`, passes through `seen`: at its end,
or at the end of a procedure inside, at any depth. -/
inductive Visits : ∀ {α : Type}, Run α → Machine → Machine → Prop where
  | final {α : Type} {x : Run α} {machine : Machine} (hx : Procedure x) :
      Visits x machine (x.exec machine).2
  | first {α β : Type} {x : Run α} {f : α → Run β} {machine seen : Machine}
      (h : Visits x machine seen) : Visits (x >>= f) machine seen
  | second {α β : Type} {x : Run α} {f : α → Run β} {machine after seen : Machine} {a : α}
      (hx : Procedure x) (hexec : x.exec machine = (.ok a, after))
      (h : Visits (f a) after seen) : Visits (x >>= f) machine seen
  | attempt {α : Type} {x : Run α} {machine seen : Machine} (h : Visits x machine seen) :
      Visits (attempt x) machine seen
  | setUp {contract : Contract} {machine seen : Machine} (htrigger : machine.trigger = .application)
      (h : Visits contract.seed machine seen) : Visits contract.setUp machine seen
  | onPersist {contract : Contract} {machine seen : Machine} (htrigger : machine.trigger = .system)
      (h : Visits contract.persist machine seen) : Visits contract.onPersist machine seen
  | invoke {contract : Contract} {machine seen : Machine} {frame : Frame} {rest : List Frame}
      (hcall : contract.CalledFrom machine frame rest)
      (h : Visits (Run.pop >>= fun operation => Run.pop >>= contract.respond operation)
        machine seen) : Visits contract.invoke machine seen

variable {trigger : Trigger} {store : Store} {limits : Limits} {machine seen : Machine} {α : Type}
  {x : Run α}

/-- Each single operation of a machine keeps the property. -/
structure KeptByOperations (p : Machine → Prop) : Prop where
  load : ∀ script, Keeps p (load script)
  unload : Keeps p unload
  push : ∀ item, Keeps p (push item)
  pop : Keeps p pop
  clear : Keeps p clear
  pushResult : ∀ item, Keeps p (pushResult item)
  popResult : Keeps p popResult
  clearResults : Keeps p clearResults
  put : ∀ key record, Keeps p (put key record)
  remove : ∀ key, Keeps p (remove key)

variable {p : Machine → Prop}

/-- What the operations keep, a procedure keeps, however it ends. -/
theorem Procedure.keeps (hp : KeptByOperations p) (h : Procedure x) : Keeps p x := by
  induction h with
  | value a => exact keeps_pure a
  | failure error => exact keeps_throw error
  | inspect f => exact keeps_of_exec_eq fun _ => rfl
  | load script => exact hp.load script
  | unload => exact hp.unload
  | push item => exact hp.push item
  | pop => exact hp.pop
  | peek depth => exact keeps_of_exec_eq (exec_peek depth)
  | clear => exact hp.clear
  | pushResult item => exact hp.pushResult item
  | popResult => exact hp.popResult
  | clearResults => exact hp.clearResults
  | put key record => exact hp.put key record
  | remove key => exact hp.remove key
  | putAccount key account => exact keeps_putAccount (hp.put key) account
  | setUp _ hseed => exact Contract.keeps_setUp hseed
  | onPersist _ hpersist => exact Contract.keeps_onPersist hpersist
  | invoke _ _ hbodies hpersist => exact Contract.keeps_invoke hp.pop hp.push hbodies hpersist
  | bind _ _ hx hf => exact hx.bind hf
  | attempt _ hx => exact hx.attempt

/-- And it has the property on its way. -/
theorem Visits.keeps (hp : KeptByOperations p) (h : Visits x machine seen) (hm : p machine) :
    p seen := by
  induction h with
  | final hx => exact hx.keeps hp _ hm
  | first _ ih => exact ih hm
  | second hx hexec _ ih =>
    have hafter := hx.keeps hp _ hm
    rw [hexec] at hafter
    exact ih hafter
  | attempt _ ih => exact ih hm
  | setUp _ _ ih => exact ih hm
  | onPersist _ _ ih => exact ih hm
  | invoke _ _ ih => exact ih hm

theorem keptByOperations_accounted (trigger : Trigger) (limits : Limits) :
    KeptByOperations (Accounted trigger limits) where
  load := keeps_load
  unload := keeps_unload
  push := keeps_push
  pop := keeps_pop
  clear := keeps_clear
  pushResult := keeps_pushResult
  popResult := keeps_popResult
  clearResults := keeps_clearResults
  put := keeps_put
  remove := keeps_remove

namespace Machine

/-- The machines seen while procedures run, one after another, from a new machine on. -/
inductive Reachable (trigger : Trigger) (store : Store) (limits : Limits) : Machine → Prop where
  | start : Reachable trigger store limits (.start trigger store limits)
  | step {α : Type} {machine seen : Machine} {x : Run α}
      (h : Reachable trigger store limits machine) (hx : Visits x machine seen) :
      Reachable trigger store limits seen

theorem Reachable.accounted (h : Reachable trigger store limits machine) :
    Accounted trigger limits machine := by
  induction h with
  | start => exact .start trigger store limits
  | step _ hx ih => exact hx.keeps (keptByOperations_accounted trigger limits) ih

/-- After every operation of a run, failed ones included, the count is the weight of what the
stacks hold. -/
theorem count_eq_held_of_reachable (h : Reachable trigger store limits machine) :
    machine.budget.count = Item.weights machine.heldItems ∧
      machine.budget.count ≤ limits.maxStackSize ∧
      machine.frames.length ≤ limits.maxInvocationDepth ∧
      machine.trigger = trigger ∧
      (machine.frames = [] → machine.results.items = [] → machine.budget.count = 0) := by
  have hinv := h.accounted
  refine ⟨hinv.count_eq, hinv.count_le, hinv.depth_le, hinv.trigger_eq, ?_⟩
  intro hframes hresults
  rw [hinv.count_eq, heldItems, hframes, hresults]
  rfl

/-- Its method loads a frame, so that the result lands on that frame's stack. -/
def nesting : Contract where
  name := "Nesting"
  id := 1
  service := ⟨7⟩
  methods := ⟨[.onPersist, .writing "nest" 0 fun _ => load ⟨[]⟩ >>= fun _ => pure (.array [.null])],
    by decide⟩

def nestingCall : Run Bool :=
  load nesting.script >>= fun _ => push (.array []) >>= fun _ => push (.ofText "nest") >>= fun _ =>
    nesting.invoke

theorem procedure_nestingCall : Procedure nestingCall := by
  refine .bind (.load _) fun _ => .bind (.push _) fun _ => .bind (.push _) fun _ => .invoke ?_ ?_
  · intro method hmem run hhandler arguments
    obtain rfl | rfl : method = .onPersist ∨ method = .writing "nest" 0 _ := by
      simpa [nesting] using hmem
    · cases hhandler
    · cases hhandler
      exact .bind (.load _) fun _ => .value _
  · exact .value _

theorem count_eq_held_nestingCall :
    Reachable .application {} {} (nestingCall.exec (.start .application)).2 ∧
      (nestingCall.exec (.start .application)).2.frames.length = 2 ∧
      (nestingCall.exec (.start .application)).2.budget.count = 2 ∧
      Item.weights (nestingCall.exec (.start .application)).2.heldItems = 2 := by
  have hreach : Reachable .application {} {} (nestingCall.exec (.start .application)).2 :=
    .step .start (.final procedure_nestingCall)
  have hcount : (nestingCall.exec (.start .application)).2.budget.count = 2 := by decide +kernel
  refine ⟨hreach, by decide +kernel, hcount, ?_⟩
  rw [← (count_eq_held_of_reachable hreach).1, hcount]

end Machine

end NativeContracts
