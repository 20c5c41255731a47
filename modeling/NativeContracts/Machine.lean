import NativeContracts.Account
import NativeContracts.Frame
import NativeContracts.Store

/-! A machine is one execution: its trigger and limits, the store it works on, the
loaded frames with the current one first, the stack of results, and the budget that
all its stacks share. A `Run` is a computation on a machine that may fail; what it
did before it failed stays done. -/

namespace NativeContracts

structure Machine where
  trigger : Trigger
  limits : Limits := {}
  store : Store := {}
  budget : Budget
  frames : List Frame := []
  results : Stack := {}

namespace Machine

/-- A machine with nothing loaded, whose budget is the limits' stack size. -/
def start (trigger : Trigger) (store : Store := {}) (limits : Limits := {}) : Machine :=
  { trigger, limits, store, budget := { limit := limits.maxStackSize } }

/-- The service that the current frame's script declares it calls. -/
def declaredCall? (machine : Machine) : Option Service :=
  machine.frames.head?.bind Frame.declaredCall?

/-- The account stored at `key`, if there is a record. -/
def account? (machine : Machine) (key : Key) : Except Error (Option Account) :=
  match machine.store.get? key with
  | none => .ok none
  | some record => some <$> Account.ofRecord machine.limits record

/-- The items that the machine's stacks hold, over all loaded frames and the results. -/
def heldItems (machine : Machine) : List Item :=
  machine.frames.flatMap (·.stack.items) ++ machine.results.items

end Machine

abbrev Run := ExceptT Error (StateM Machine)

namespace Run

def fail {α : Type} (fault : Fault) : Run α := throw (.fault fault)

def load (script : Script) : Run Unit := do
  let machine ← get
  if machine.limits.maxInvocationDepth ≤ machine.frames.length then
    fail (.invalidOperation (.tooManyContexts machine.limits.maxInvocationDepth))
  set { machine with frames := { script } :: machine.frames }

/-- Takes the current frame away, and gives back what its stack was charged for. -/
def unload : Run (Option Frame) := do
  let machine ← get
  match machine.frames with
  | [] => return none
  | frame :: rest =>
    set { machine with frames := rest, budget := frame.stack.released machine.budget }
    return some frame

def current : Run (Frame × List Frame) := do
  match (← get).frames with
  | [] => fail (.invalidOperation .noContext)
  | frame :: rest => return (frame, rest)

/-- Puts an item on the current frame's stack. -/
def push (item : Item) : Run Unit := do
  let (frame, rest) ← current
  match frame.stack.push item (← get).budget with
  | .error fault => fail fault
  | .ok (stack, budget) =>
    modify fun machine => { machine with frames := { frame with stack } :: rest, budget }

/-- Takes the top item off the current frame's stack. -/
def pop : Run Item := do
  let (frame, rest) ← current
  match frame.stack.pop (← get).budget with
  | .error fault => fail fault
  | .ok (item, stack, budget) =>
    modify fun machine => { machine with frames := { frame with stack } :: rest, budget }
    return item

def peek (depth : UInt64) : Run Item := do
  let (frame, _) ← current
  match frame.stack.peek depth with
  | .error (.fault fault) => fail fault
  | .error .outOfRange => throw .outOfRange
  | .ok item => return item

def clear : Run Unit := do
  let (frame, rest) ← current
  modify fun machine => { machine with
    frames := { frame with stack := {} } :: rest
    budget := frame.stack.released machine.budget }

def pushResult (item : Item) : Run Unit := do
  let machine ← get
  match machine.results.push item machine.budget with
  | .error fault => fail fault
  | .ok (results, budget) => set { machine with results, budget }

def popResult : Run Item := do
  let machine ← get
  match machine.results.pop machine.budget with
  | .error fault => fail fault
  | .ok (item, results, budget) =>
    set { machine with results, budget }
    return item

def clearResults : Run Unit :=
  modify fun machine => { machine with
    results := {}
    budget := machine.results.released machine.budget }

def put (key : Key) (record : Record) : Run Unit := do
  let machine ← get
  let store ← machine.store.put key record
  set { machine with store }

def remove (key : Key) : Run Unit := do
  let machine ← get
  let store ← machine.store.remove key
  set { machine with store }

def putAccount (key : Key) (account : Account) : Run Unit := do
  let machine ← get
  put key (← account.toRecord machine.budget machine.limits)

end Run

end NativeContracts
