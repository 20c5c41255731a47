import Mathlib.Data.List.Nodup
import NativeContracts.Contract
import NativeContracts.Proofs.Run

/-! How a contract answers a call. `Answers` lists the ways in which a call can end,
each with what it requires of the machine and with the machine it leaves; `invoke`
ends in exactly these ways, whatever the machine holds and whatever the contract's
methods do. -/

namespace NativeContracts

open Run

theorem MethodTable.get?_eq_some_iff {table : MethodTable} {name : String} {method : Method} :
    table.get? name = some method ↔ method ∈ table.methods ∧ method.name = name := by
  constructor
  · intro h
    exact ⟨List.mem_of_find?_eq_some h, by simpa using List.find?_some h⟩
  · intro h
    obtain ⟨hmem, rfl⟩ := h
    rcases hfound : table.get? method.name with _ | found
    · simpa using List.find?_eq_none.mp hfound method hmem
    · -- Names are unique, so what is found by the method's name is the method.
      have hname : found.name = method.name := by simpa using List.find?_some hfound
      rw [List.inj_on_of_nodup_map table.nodup (List.mem_of_find?_eq_some hfound) hmem hname]

theorem MethodTable.get?_eq_none_iff {table : MethodTable} {name : String} :
    table.get? name = none ↔ ∀ method ∈ table.methods, method.name ≠ name := by
  simp [get?]

namespace Item

theorem toText_eq_ok_iff {item : Item} {text : String} :
    item.toText = .ok text ↔ item.toBytes = .ok (Utf8.encode text) := by
  unfold toText
  rcases item.toBytes with fault | bytes
  · simp [bind, Except.bind]
  · rw [Except.ok.injEq, ← Utf8.decode?_eq_some_iff]
    rcases h : Utf8.decode? bytes with _ | found <;> simp [bind, Except.bind, h, pure, Except.pure]

theorem toItems_eq_ok_iff {item : Item} {items : List Item} :
    item.toItems = .ok items ↔ item = .array items ∨ item = .struct items := by
  cases item <;> simp [toItems]

theorem toItems_eq_error {item : Item} (harray : ∀ items, item ≠ .array items)
    (hstruct : ∀ items, item ≠ .struct items) :
    item.toItems = .error (.invalidType (.notCompound item.kind)) := by
  cases item with
  | array items => exact absurd rfl (harray items)
  | struct items => exact absurd rfl (hstruct items)
  | _ => rfl

end Item

/-- The machine after `taken` left the current stack, with `items` still on it. -/
def Machine.without (machine : Machine) (frame : Frame) (rest : List Frame)
    (taken items : List Item) : Machine :=
  { machine with
    frames := { frame with stack := ⟨items⟩ } :: rest
    budget := taken.foldl Budget.release machine.budget }

namespace Contract

/-- The current frame's script begins with the system call to the contract's service. -/
def CalledFrom (contract : Contract) (machine : Machine) (frame : Frame) (rest : List Frame) :
    Prop :=
  machine.frames = frame :: rest ∧
    Instruction.syscall.code :: contract.service.operand <+: frame.script.bytes

theorem CalledFrom.unique {contract : Contract} {machine : Machine} {frame other : Frame}
    {rest others : List Frame} (h : contract.CalledFrom machine frame rest)
    (hother : contract.CalledFrom machine other others) : frame = other ∧ rest = others :=
  List.cons.inj (h.1.symm.trans hother.1)

/-- The bytes of `operation` spell the name of `method`, one of the contract's. -/
def Named (contract : Contract) (operation : Item) (method : Method) : Prop :=
  method ∈ contract.methods.methods ∧ operation.toBytes = .ok (Utf8.encode method.name)

/-- The three ways in which an item names no method. -/
inductive Unnamed (contract : Contract) (operation : Item) : Prop where
  | noBytes (fault : Fault) (h : operation.toBytes = .error fault)
  | noText (bytes : List UInt8) (h : operation.toBytes = .ok bytes)
      (htext : ∀ text, bytes ≠ Utf8.encode text)
  | noMethod (text : String) (h : operation.toBytes = .ok (Utf8.encode text))
      (hmethods : ∀ method ∈ contract.methods.methods, method.name ≠ text)

/-- The one run that the named method makes of the elements. -/
inductive Runs (contract : Contract) (operation : Item) (elements : List Item)
    (machine : Machine) (outcome : Except Error Item) (after : Machine) : Prop where
  | onPersist (method : Method) (hname : contract.Named operation method)
      (hhandler : method.handler = .onPersist)
      (h : contract.onPersist.exec machine = (outcome, after))
  | body (method : Method) (hname : contract.Named operation method)
      (run : List Item → Run Item) (hhandler : method.handler = .body run)
      (h : (run elements).exec machine = (outcome, after))

/-- What follows once both items have left the stack. -/
inductive Responds (contract : Contract) (operation arguments : Item) (machine : Machine) :
    Except Error Bool → Machine → Prop where
  | noElements (harray : ∀ elements, arguments ≠ .array elements)
      (hstruct : ∀ elements, arguments ≠ .struct elements) :
      Responds contract operation arguments machine
        (.error (.fault (.invalidType (.notCompound arguments.kind)))) machine
  | unnamed {elements : List Item}
      (helements : arguments = .array elements ∨ arguments = .struct elements)
      (hname : contract.Unnamed operation) :
      Responds contract operation arguments machine (.ok false) machine
  | failed {elements : List Item} {error : Error} {after : Machine}
      (helements : arguments = .array elements ∨ arguments = .struct elements)
      (hrun : contract.Runs operation elements machine (.error error) after) :
      Responds contract operation arguments machine (.error error) after
  | unloaded {elements : List Item} {result : Item} {after : Machine}
      (helements : arguments = .array elements ∨ arguments = .struct elements)
      (hrun : contract.Runs operation elements machine (.ok result) after)
      (hframes : after.frames = []) :
      Responds contract operation arguments machine
        (.error (.fault (.invalidOperation .noContext))) after
  | refused {elements : List Item} {result : Item} {after : Machine} {frame : Frame}
      {rest : List Frame} {fault : Fault}
      (helements : arguments = .array elements ∨ arguments = .struct elements)
      (hrun : contract.Runs operation elements machine (.ok result) after)
      (hframes : after.frames = frame :: rest)
      (hcharge : after.budget.charge result = .error fault) :
      Responds contract operation arguments machine (.error (.fault fault)) after
  | answered {elements : List Item} {result : Item} {after : Machine} {frame : Frame}
      {rest : List Frame} {budget : Budget}
      (helements : arguments = .array elements ∨ arguments = .struct elements)
      (hrun : contract.Runs operation elements machine (.ok result) after)
      (hframes : after.frames = frame :: rest) (hcharge : after.budget.charge result = .ok budget) :
      Responds contract operation arguments machine (.ok true)
        { after with
          frames := { frame with stack := ⟨result :: frame.stack.items⟩ } :: rest, budget }

/-- The ways in which a call can end. -/
inductive Answers (contract : Contract) (machine : Machine) :
    Except Error Bool → Machine → Prop where
  | uncalled (h : ∀ frame rest, ¬contract.CalledFrom machine frame rest) :
      Answers contract machine (.ok false) machine
  | noOperation {frame : Frame} {rest : List Frame}
      (hcall : contract.CalledFrom machine frame rest) (hitems : frame.stack.items = []) :
      Answers contract machine (.error (.fault (.stackUnderflow 1 0))) machine
  | noArguments {frame : Frame} {rest : List Frame} {operation : Item}
      (hcall : contract.CalledFrom machine frame rest)
      (hitems : frame.stack.items = [operation]) :
      Answers contract machine (.error (.fault (.stackUnderflow 1 0)))
        (machine.without frame rest [operation] [])
  | taken {frame : Frame} {rest : List Frame} {operation arguments : Item} {items : List Item}
      {outcome : Except Error Bool} {after : Machine}
      (hcall : contract.CalledFrom machine frame rest)
      (hitems : frame.stack.items = operation :: arguments :: items)
      (h : contract.Responds operation arguments
        (machine.without frame rest [operation, arguments] items) outcome after) :
      Answers contract machine outcome after

variable {contract : Contract} {machine after : Machine} {frame : Frame} {rest : List Frame}
  {operation arguments : Item} {elements items : List Item}

theorem methodNamed?_eq_some_iff {method : Method} :
    contract.methodNamed? operation = some method ↔ contract.Named operation method := by
  simp only [methodNamed?, Option.bind_eq_some_iff, MethodTable.get?_eq_some_iff, Named]
  constructor
  · intro h
    obtain ⟨text, htext, hmem, rfl⟩ := h
    rcases hresult : operation.toText with _ | found <;> rw [hresult] at htext
    · cases htext
    · cases htext
      exact ⟨hmem, Item.toText_eq_ok_iff.mp hresult⟩
  · intro h
    obtain ⟨hmem, hname⟩ := h
    exact ⟨method.name, by rw [Item.toText_eq_ok_iff.mpr hname]; rfl, hmem, rfl⟩

theorem unnamed_or_named (contract : Contract) (operation : Item) :
    contract.Unnamed operation ∨ ∃ method, contract.Named operation method := by
  rcases hbytes : operation.toBytes with fault | bytes
  · exact .inl (.noBytes fault hbytes)
  · rcases htext : Utf8.decode? bytes with _ | text
    · refine .inl (.noText bytes hbytes fun text h => ?_)
      rw [Utf8.decode?_eq_some_iff.mpr h] at htext
      cases htext
    · rw [Utf8.decode?_eq_some_iff.mp htext] at hbytes
      rcases hmethod : contract.methods.get? text with _ | method
      · exact .inl (.noMethod text hbytes (MethodTable.get?_eq_none_iff.mp hmethod))
      · obtain ⟨hmem, rfl⟩ := MethodTable.get?_eq_some_iff.mp hmethod
        exact .inr ⟨method, hmem, hbytes⟩

theorem Unnamed.not_named (h : contract.Unnamed operation) (method : Method) :
    ¬contract.Named operation method := by
  intro h
  obtain ⟨hmem, hname⟩ := h
  cases h with
  | noBytes fault h => rw [h] at hname; cases hname
  | noText bytes h htext =>
    rw [h, Except.ok.injEq] at hname
    exact htext _ hname
  | noMethod text h hmethods =>
    rw [h, Except.ok.injEq] at hname
    have htext := Utf8.decode?_eq_some_iff.mpr hname
    rw [Utf8.decode?_encode, Option.some.injEq] at htext
    exact hmethods method hmem htext.symm

theorem methodNamed?_eq_none (h : contract.Unnamed operation) :
    contract.methodNamed? operation = none := by
  rcases hmethod : contract.methodNamed? operation with _ | method
  · rfl
  · exact absurd (methodNamed?_eq_some_iff.mp hmethod) (h.not_named method)

/-- The part of `invoke` that follows once both items have left the stack. -/
def respond (contract : Contract) (operation arguments : Item) : Run Bool :=
  match arguments.toItems with
  | .error fault => Run.fail fault
  | .ok elements =>
    match contract.methodNamed? operation with
    | none => return false
    | some method => do
      let result ← contract.handle method elements
      Run.push result
      return true

theorem exec_invoke_uncalled (h : ∀ frame rest, ¬contract.CalledFrom machine frame rest) :
    contract.invoke.exec machine = (.ok false, machine) := by
  have hcall : machine.declaredCall? ≠ some contract.service := by
    intro hcall
    obtain ⟨frame, hframe, hdeclared⟩ := Option.bind_eq_some_iff.mp hcall
    obtain ⟨rest, hframes⟩ := List.head?_eq_some_iff.mp hframe
    exact h frame rest ⟨hframes, Script.declaredCall?_eq_some_iff.mp hdeclared⟩
  rw [invoke, exec_get_bind, if_pos hcall]
  rfl

theorem exec_invoke_called (h : contract.CalledFrom machine frame rest) :
    contract.invoke.exec machine =
      (Run.pop >>= fun operation => Run.pop >>= contract.respond operation).exec machine := by
  have hcall : machine.declaredCall? = some contract.service := by
    rw [Machine.declaredCall?, h.1]
    exact Script.declaredCall?_eq_some_iff.mpr h.2
  rw [invoke, exec_get_bind, if_neg (not_not_intro hcall)]
  rfl

theorem Runs.exec_handle {outcome : Except Error Item}
    (h : contract.Runs operation elements machine outcome after) :
    ∃ method, contract.methodNamed? operation = some method ∧
      (contract.handle method elements).exec machine = (outcome, after) := by
  cases h with
  | onPersist method hname hhandler h =>
    exact ⟨method, methodNamed?_eq_some_iff.mpr hname, by rw [handle, hhandler]; exact h⟩
  | body method hname run hhandler h =>
    exact ⟨method, methodNamed?_eq_some_iff.mpr hname, by rw [handle, hhandler]; exact h⟩

theorem runs_of_exec_handle {method : Method} {outcome : Except Error Item}
    (hname : contract.Named operation method)
    (h : (contract.handle method elements).exec machine = (outcome, after)) :
    contract.Runs operation elements machine outcome after := by
  rcases hhandler : method.handler with _ | run <;> rw [handle, hhandler] at h
  · exact .onPersist method hname hhandler h
  · exact .body method hname run hhandler h

theorem exec_respond_failed {error : Error} (hitems : arguments.toItems = .ok elements)
    (h : contract.Runs operation elements machine (.error error) after) :
    (contract.respond operation arguments).exec machine = (.error error, after) := by
  obtain ⟨method, hmethod, hhandle⟩ := h.exec_handle
  simp only [respond, hitems, hmethod]
  exact exec_bind_error _ hhandle

theorem exec_respond_returned {result : Item} (hitems : arguments.toItems = .ok elements)
    (h : contract.Runs operation elements machine (.ok result) after) :
    (contract.respond operation arguments).exec machine =
      (Run.push result >>= fun _ => return true).exec after := by
  obtain ⟨method, hmethod, hhandle⟩ := h.exec_handle
  simp only [respond, hitems, hmethod]
  exact exec_bind_ok _ hhandle

/-- Each way of responding is what happens. -/
theorem Responds.exec_respond {outcome : Except Error Bool}
    (h : contract.Responds operation arguments machine outcome after) :
    (contract.respond operation arguments).exec machine = (outcome, after) := by
  cases h with
  | noElements harray hstruct =>
    rw [respond, Item.toItems_eq_error harray hstruct]
    rfl
  | unnamed helements hname =>
    rw [respond, Item.toItems_eq_ok_iff.mpr helements]
    simp only [methodNamed?_eq_none hname, exec_pure]
  | failed helements hrun =>
    exact exec_respond_failed (Item.toItems_eq_ok_iff.mpr helements) hrun
  | unloaded helements hrun hframes =>
    rw [exec_respond_returned (Item.toItems_eq_ok_iff.mpr helements) hrun, exec_bind, exec_push,
      hframes]
  | refused helements hrun hframes hcharge =>
    rw [exec_respond_returned (Item.toItems_eq_ok_iff.mpr helements) hrun, exec_bind, exec_push,
      hframes]
    simp only [Stack.push, hcharge, bind, Except.bind]
  | answered helements hrun hframes hcharge =>
    rw [exec_respond_returned (Item.toItems_eq_ok_iff.mpr helements) hrun, exec_bind, exec_push,
      hframes]
    simp only [Stack.push, hcharge, bind, Except.bind, pure, Except.pure]
    rfl

/-- There is always a way to respond. -/
theorem exists_responds (contract : Contract) (operation arguments : Item) (machine : Machine) :
    ∃ outcome after, contract.Responds operation arguments machine outcome after := by
  rcases hitems : arguments.toItems with fault | elements
  · refine ⟨_, _, .noElements (fun elements h => ?_) fun elements h => ?_⟩ <;> rw [h] at hitems <;>
      cases hitems
  · have helements := Item.toItems_eq_ok_iff.mp hitems
    rcases contract.unnamed_or_named operation with hname | ⟨method, hname⟩
    · exact ⟨_, _, .unnamed helements hname⟩
    · rcases hexec : (contract.handle method elements).exec machine with ⟨error | result, after⟩ <;>
        have hrun := runs_of_exec_handle hname hexec
      · exact ⟨_, _, .failed helements hrun⟩
      · rcases hframes : after.frames with _ | ⟨frame, rest⟩
        · exact ⟨_, _, .unloaded helements hrun hframes⟩
        · rcases hcharge : after.budget.charge result with fault | budget
          · exact ⟨_, _, .refused helements hrun hframes hcharge⟩
          · exact ⟨_, _, .answered helements hrun hframes hcharge⟩

/-- Each way in which a call can end is how `invoke` ends. -/
theorem Answers.exec_invoke {outcome : Except Error Bool}
    (h : contract.Answers machine outcome after) :
    contract.invoke.exec machine = (outcome, after) := by
  cases h with
  | uncalled h => exact exec_invoke_uncalled h
  | noOperation hcall hitems =>
    rw [exec_invoke_called hcall, exec_bind, exec_pop, hcall.1]
    simp only [Stack.pop, hitems]
  | noArguments hcall hitems =>
    rw [exec_invoke_called hcall, exec_bind, exec_pop, hcall.1]
    simp only [Stack.pop, hitems]
    rfl
  | taken hcall hitems h =>
    rw [exec_invoke_called hcall, exec_bind, exec_pop, hcall.1]
    simp only [Stack.pop, hitems]
    exact h.exec_respond

theorem exists_answers (contract : Contract) (machine : Machine) :
    ∃ outcome after, contract.Answers machine outcome after := by
  by_cases hcall : ∃ frame rest, contract.CalledFrom machine frame rest
  · obtain ⟨frame, rest, hcall⟩ := hcall
    rcases hitems : frame.stack.items with _ | ⟨operation, _ | ⟨arguments, items⟩⟩
    · exact ⟨_, _, .noOperation hcall hitems⟩
    · exact ⟨_, _, .noArguments hcall hitems⟩
    · obtain ⟨outcome, after, h⟩ := contract.exists_responds operation arguments
        (machine.without frame rest [operation, arguments] items)
      exact ⟨outcome, after, .taken hcall hitems h⟩
  · exact ⟨_, _, .uncalled fun frame rest h => hcall ⟨frame, rest, h⟩⟩

theorem exec_setUp (contract : Contract) (machine : Machine) :
    contract.setUp.exec machine =
      if machine.trigger = .application then
        (contract.seed >>= fun _ => return true).exec machine
      else (.error (.wrongTrigger "initialize" .application machine.trigger), machine) := by
  rw [setUp, exec_get_bind]
  by_cases h : machine.trigger = .application
  · rw [if_pos h]
    simp only [h, ne_eq, not_true_eq_false, if_false]
  · rw [if_neg h]
    simp only [ne_eq, h, not_false_eq_true, if_true]
    rfl

theorem exec_onPersist (contract : Contract) (machine : Machine) :
    contract.onPersist.exec machine =
      if machine.trigger = .system then
        (contract.persist >>= fun _ => return .boolean true).exec machine
      else (.ok (.boolean false), machine) := by
  rw [onPersist, exec_get_bind]
  by_cases h : machine.trigger = .system
  · rw [if_pos h]
    simp only [h, ne_eq, not_true_eq_false, if_false]
  · rw [if_neg h]
    simp only [ne_eq, h, not_false_eq_true, if_true]
    rfl

/-! ## What every part keeps -/

variable {p : Machine → Prop}

theorem keeps_setUp (hseed : Keeps p contract.seed) : Keeps p contract.setUp := by
  intro machine hp
  rw [exec_setUp]
  split
  · exact (hseed.bind fun _ => keeps_pure _) machine hp
  · exact hp

theorem keeps_onPersist (hpersist : Keeps p contract.persist) : Keeps p contract.onPersist := by
  intro machine hp
  rw [exec_onPersist]
  split
  · exact (hpersist.bind fun _ => keeps_pure _) machine hp
  · exact hp

theorem keeps_handle {method : Method} (hmethod : method ∈ contract.methods.methods)
    (hbodies : ∀ method ∈ contract.methods.methods, ∀ run, method.handler = .body run →
      ∀ arguments, Keeps p (run arguments))
    (hpersist : Keeps p contract.persist) (elements : List Item) :
    Keeps p (contract.handle method elements) := by
  unfold handle
  split
  · exact keeps_onPersist hpersist
  · next run hhandler => exact hbodies method hmethod run hhandler elements

theorem keeps_invoke (hpop : Keeps p Run.pop) (hpush : ∀ item, Keeps p (Run.push item))
    (hbodies : ∀ method ∈ contract.methods.methods, ∀ run, method.handler = .body run →
      ∀ arguments, Keeps p (run arguments))
    (hpersist : Keeps p contract.persist) : Keeps p contract.invoke := by
  intro machine hp
  by_cases hcall : ∃ frame rest, contract.CalledFrom machine frame rest
  · obtain ⟨frame, rest, hcall⟩ := hcall
    rw [exec_invoke_called hcall]
    refine (hpop.bind fun operation => hpop.bind fun arguments => ?_) machine hp
    unfold respond
    split
    · exact keeps_fail _
    · split
      · exact keeps_pure _
      · next method hmethod =>
        have hmem := (methodNamed?_eq_some_iff.mp hmethod).1
        exact (keeps_handle hmem hbodies hpersist _).bind fun result =>
          (hpush result).bind fun _ => keeps_pure _
  · rw [exec_invoke_uncalled fun frame rest h => hcall ⟨frame, rest, h⟩]
    exact hp

/-- On every machine, `invoke` ends in one of the listed ways and in no other. -/
theorem invoke_eq_iff_answers (contract : Contract) (machine after : Machine)
    (outcome : Except Error Bool) :
    contract.invoke.exec machine = (outcome, after) ↔ contract.Answers machine outcome after := by
  constructor
  · intro h
    obtain ⟨found, left, hfound⟩ := contract.exists_answers machine
    have heq := hfound.exec_invoke.symm.trans h
    cases heq
    exact hfound
  · exact Answers.exec_invoke

end Contract

end NativeContracts
