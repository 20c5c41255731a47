import NativeContracts.Machine

/-! What a run does to the machine it starts on: `exec` is the outcome beside the
machine left behind, which a failed run leaves too. The equations take a run apart
step by step. A property of machines that every step keeps, the whole run keeps. -/

namespace NativeContracts.Run

variable {α β : Type}

def exec (x : Run α) (machine : Machine) : Except Error α × Machine := x.run.run machine

/-! ## Steps -/

@[simp] theorem exec_pure (a : α) (machine : Machine) :
    exec (pure a) machine = (.ok a, machine) := rfl

@[simp] theorem exec_throw (error : Error) (machine : Machine) :
    exec (throw error : Run α) machine = (.error error, machine) := rfl

@[simp] theorem exec_fail (fault : Fault) (machine : Machine) :
    exec (fail fault : Run α) machine = (.error (.fault fault), machine) := rfl

@[simp] theorem exec_get (machine : Machine) : exec get machine = (.ok machine, machine) := rfl

@[simp] theorem exec_set (machine after : Machine) :
    exec (set after) machine = (.ok ⟨⟩, after) := rfl

@[simp] theorem exec_modify (f : Machine → Machine) (machine : Machine) :
    exec (modify f) machine = (.ok ⟨⟩, f machine) := rfl

@[simp] theorem exec_lift (x : Except Error α) (machine : Machine) :
    exec (liftM x) machine = (x, machine) := rfl

theorem exec_bind (x : Run α) (f : α → Run β) (machine : Machine) :
    exec (x >>= f) machine =
      match exec x machine with
      | (.ok a, after) => exec (f a) after
      | (.error error, after) => (.error error, after) := by
  simp only [exec, ExceptT.run_bind, StateT.run_bind]
  rcases x.run.run machine with ⟨_ | _, _⟩ <;> rfl

theorem exec_map (f : α → β) (x : Run α) (machine : Machine) :
    exec (f <$> x) machine = ((exec x machine).1.map f, (exec x machine).2) := by
  rw [map_eq_pure_bind, exec_bind]
  rcases exec x machine with ⟨_ | _, _⟩ <;> rfl

theorem exec_get_bind (f : Machine → Run β) (machine : Machine) :
    exec (get >>= f) machine = exec (f machine) machine := rfl

theorem exec_bind_ok {x : Run α} {machine after : Machine} {a : α} (f : α → Run β)
    (h : exec x machine = (.ok a, after)) : exec (x >>= f) machine = exec (f a) after := by
  rw [exec_bind, h]

theorem exec_bind_eq_ok_iff {x : Run α} {f : α → Run β} {machine after : Machine} {b : β} :
    exec (x >>= f) machine = (.ok b, after) ↔
      ∃ a middle, exec x machine = (.ok a, middle) ∧ exec (f a) middle = (.ok b, after) := by
  rw [exec_bind]
  rcases exec x machine with ⟨error | a, middle⟩
  · simp
  · constructor
    · intro h
      exact ⟨a, middle, rfl, h⟩
    · intro h
      obtain ⟨_, _, hx, hf⟩ := h
      cases hx
      exact hf

theorem exec_bind_error {x : Run α} {machine after : Machine} {error : Error} (f : α → Run β)
    (h : exec x machine = (.error error, after)) :
    exec (x >>= f) machine = (.error error, after) := by
  rw [exec_bind, h]

theorem exec_eq_ok_of_toOption {x : Run α} {machine : Machine} {a : α}
    (h : (exec x machine).1.toOption = some a) : exec x machine = (.ok a, (exec x machine).2) := by
  rcases hexec : exec x machine with ⟨error | b, after⟩
  · rw [hexec] at h
    cases h
  · rw [hexec] at h
    cases h
    rfl

/-! ## Operations -/

theorem exec_load (script : Script) (machine : Machine) :
    exec (load script) machine =
      if machine.limits.maxInvocationDepth ≤ machine.frames.length then
        (.error (.fault (.invalidOperation (.tooManyContexts machine.limits.maxInvocationDepth))),
          machine)
      else (.ok (), { machine with frames := { script } :: machine.frames }) := by
  rw [load, exec_get_bind]
  by_cases h : machine.limits.maxInvocationDepth ≤ machine.frames.length
  · rw [if_pos h, if_pos h]
    rfl
  · rw [if_neg h, if_neg h]
    rfl

theorem exec_unload (machine : Machine) :
    exec unload machine =
      match machine.frames with
      | [] => (.ok none, machine)
      | frame :: rest =>
        (.ok (some frame),
          { machine with frames := rest, budget := frame.stack.released machine.budget }) := by
  rw [unload, exec_get_bind]
  rcases machine.frames with _ | ⟨frame, rest⟩ <;> rfl

theorem exec_push (item : Item) (machine : Machine) :
    exec (push item) machine =
      match machine.frames with
      | [] => (.error (.fault (.invalidOperation .noContext)), machine)
      | frame :: rest =>
        match frame.stack.push item machine.budget with
        | .error fault => (.error (.fault fault), machine)
        | .ok (stack, budget) =>
          (.ok (), { machine with frames := { frame with stack } :: rest, budget }) := by
  simp only [push, current, exec_bind, exec_get]
  rcases machine.frames with _ | ⟨frame, rest⟩
  · rfl
  · rcases h : frame.stack.push item machine.budget with _ | ⟨stack, budget⟩ <;> simp [h]

theorem exec_pop (machine : Machine) :
    exec pop machine =
      match machine.frames with
      | [] => (.error (.fault (.invalidOperation .noContext)), machine)
      | frame :: rest =>
        match frame.stack.pop machine.budget with
        | .error fault => (.error (.fault fault), machine)
        | .ok (item, stack, budget) =>
          (.ok item, { machine with frames := { frame with stack } :: rest, budget }) := by
  simp only [pop, current, exec_bind, exec_get]
  rcases machine.frames with _ | ⟨frame, rest⟩
  · rfl
  · rcases h : frame.stack.pop machine.budget with _ | ⟨item, stack, budget⟩ <;>
      simp [h, exec_map, Except.map]

/-- Looking at a stack leaves the machine as it is. -/
theorem exec_peek (depth : UInt64) (machine : Machine) :
    (exec (peek depth) machine).2 = machine := by
  simp only [peek, current, exec_bind, exec_get]
  rcases machine.frames with _ | ⟨frame, rest⟩
  · rfl
  · rcases h : frame.stack.peek depth with (_ | _) | item <;> simp [h]

theorem exec_clear (machine : Machine) :
    exec clear machine =
      match machine.frames with
      | [] => (.error (.fault (.invalidOperation .noContext)), machine)
      | frame :: rest =>
        (.ok (), { machine with
          frames := { frame with stack := {} } :: rest
          budget := frame.stack.released machine.budget }) := by
  simp only [clear, current, exec_bind, exec_get]
  rcases machine.frames with _ | ⟨frame, rest⟩ <;> rfl

theorem exec_pushResult (item : Item) (machine : Machine) :
    exec (pushResult item) machine =
      match machine.results.push item machine.budget with
      | .error fault => (.error (.fault fault), machine)
      | .ok (results, budget) => (.ok (), { machine with results, budget }) := by
  rw [pushResult, exec_get_bind]
  rcases machine.results.push item machine.budget with _ | ⟨results, budget⟩ <;> rfl

theorem exec_popResult (machine : Machine) :
    exec popResult machine =
      match machine.results.pop machine.budget with
      | .error fault => (.error (.fault fault), machine)
      | .ok (item, results, budget) => (.ok item, { machine with results, budget }) := by
  rw [popResult, exec_get_bind]
  rcases machine.results.pop machine.budget with _ | ⟨item, results, budget⟩ <;> rfl

theorem exec_put (key : Key) (record : Record) (machine : Machine) :
    exec (put key record) machine =
      match machine.store.put key record with
      | .error error => (.error error, machine)
      | .ok store => (.ok (), { machine with store }) := by
  rw [put, exec_get_bind, exec_bind, exec_lift]
  rcases machine.store.put key record with _ | store <;> rfl

theorem exec_remove (key : Key) (machine : Machine) :
    exec (remove key) machine =
      match machine.store.remove key with
      | .error error => (.error error, machine)
      | .ok store => (.ok (), { machine with store }) := by
  rw [remove, exec_get_bind, exec_bind, exec_lift]
  rcases machine.store.remove key with _ | store <;> rfl

theorem exec_putAccount (key : Key) (account : Account) (machine : Machine) :
    exec (putAccount key account) machine =
      match account.toRecord machine.budget machine.limits with
      | .error error => (.error error, machine)
      | .ok record => exec (put key record) machine := by
  rw [putAccount, exec_get_bind, exec_bind, exec_lift]
  rcases account.toRecord machine.budget machine.limits with _ | record <;> rfl

/-! ## Properties that runs keep -/

/-- Whatever the outcome, the machine left behind has the property if the first one had it. -/
def Keeps (p : Machine → Prop) (x : Run α) : Prop :=
  ∀ machine, p machine → p (exec x machine).2

variable {p : Machine → Prop}

theorem keeps_of_exec_eq {x : Run α} (h : ∀ machine, (exec x machine).2 = machine) :
    Keeps p x := by
  intro machine hp
  rw [h]
  exact hp

theorem keeps_pure (a : α) : Keeps p (pure a) := keeps_of_exec_eq fun _ => rfl

theorem keeps_throw (error : Error) : Keeps p (throw error : Run α) := keeps_of_exec_eq fun _ => rfl

theorem keeps_fail (fault : Fault) : Keeps p (fail fault : Run α) := keeps_of_exec_eq fun _ => rfl

theorem keeps_get : Keeps p get := keeps_of_exec_eq fun _ => rfl

theorem keeps_lift (x : Except Error α) : Keeps p (liftM x) := keeps_of_exec_eq fun _ => rfl

theorem Keeps.bind {x : Run α} {f : α → Run β} (hx : Keeps p x) (hf : ∀ a, Keeps p (f a)) :
    Keeps p (x >>= f) := by
  intro machine hp
  have hafter := hx machine hp
  rw [exec_bind]
  rcases h : exec x machine with ⟨error | a, after⟩ <;> rw [h] at hafter
  · exact hafter
  · exact hf a after hafter

/-- Writing an account is nothing but writing its record. -/
theorem keeps_putAccount {key : Key} (hput : ∀ record, Keeps p (put key record))
    (account : Account) : Keeps p (putAccount key account) := by
  intro machine hp
  rw [exec_putAccount]
  rcases account.toRecord machine.budget machine.limits with error | record
  · exact hp
  · exact hput record machine hp

theorem Keeps.forM {xs : List α} {f : α → Run PUnit} (hf : ∀ a ∈ xs, Keeps p (f a)) :
    Keeps p (xs.forM f) := by
  induction xs with
  | nil => exact keeps_pure _
  | cons x xs ih =>
    exact (hf x (by simp)).bind fun _ => ih fun a ha => hf a (by simp [ha])

theorem Keeps.foldlM {xs : List α} {f : β → α → Run β} (hf : ∀ b, ∀ a ∈ xs, Keeps p (f b a))
    (b : β) : Keeps p (xs.foldlM f b) := by
  induction xs generalizing b with
  | nil => exact keeps_pure b
  | cons x xs ih =>
    rw [List.foldlM_cons]
    exact (hf b x (by simp)).bind fun b => ih (fun b a ha => hf b a (by simp [ha])) b

/-- Runs `x` and goes on with its outcome, whether it failed or not. To go on after `outOfRange`
is more than a contract can do, so what holds of all such runs holds of those that break off. -/
def attempt (x : Run α) : Run (Except Error α) := ExceptT.lift x.run

theorem exec_attempt (x : Run α) (machine : Machine) :
    exec (attempt x) machine = (.ok (exec x machine).1, (exec x machine).2) := rfl

theorem Keeps.attempt {x : Run α} (hx : Keeps p x) : Keeps p (attempt x) := by
  intro machine hp
  rw [exec_attempt]
  exact hx machine hp

/-! ## Errors that runs do not end in -/

/-- Whatever machine it starts on, the run does not fail with this error. -/
def Avoids (error : Error) (x : Run α) : Prop :=
  ∀ machine, (exec x machine).1 ≠ .error error

variable {error : Error}

theorem avoids_pure (a : α) : Avoids error (pure a) := by
  intro machine h
  cases h

theorem avoids_get : Avoids error get := by
  intro machine h
  cases h

theorem avoids_lift {x : Except Error α} (h : x ≠ .error error) : Avoids error (liftM x) :=
  fun _ => h

theorem Avoids.bind {x : Run α} {f : α → Run β} (hx : Avoids error x)
    (hf : ∀ a, Avoids error (f a)) : Avoids error (x >>= f) := by
  intro machine
  have hfirst := hx machine
  rw [exec_bind]
  rcases h : exec x machine with ⟨found | a, after⟩ <;> rw [h] at hfirst
  · simpa using hfirst
  · exact hf a after

theorem Avoids.forM {xs : List α} {f : α → Run PUnit} (hf : ∀ a, Avoids error (f a)) :
    Avoids error (xs.forM f) := by
  induction xs with
  | nil => exact avoids_pure _
  | cons x xs ih => exact (hf x).bind fun _ => ih

end NativeContracts.Run
