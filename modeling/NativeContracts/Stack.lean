import NativeContracts.Budget

/-! Stacks of items. What a stack holds is charged to a budget that other stacks
may share, so every operation that changes a stack takes the budget and gives it
back; one that fails changes neither. -/

namespace NativeContracts

/-- The top comes first. -/
structure Stack where
  items : List Item := []
  deriving DecidableEq

namespace Stack

def push (stack : Stack) (item : Item) (budget : Budget) : Except Fault (Stack × Budget) := do
  let budget ← budget.charge item
  return (⟨item :: stack.items⟩, budget)

def pop (stack : Stack) (budget : Budget) : Except Fault (Item × Stack × Budget) :=
  match stack.items with
  | [] => .error (.stackUnderflow 1 0)
  | item :: rest => .ok (item, ⟨rest⟩, budget.release item)

/-- The item `depth` places below the top. A fault says how many items a stack would need
for it, which has to be a word. -/
def peek (stack : Stack) (depth : UInt64) : Checked Item :=
  match stack.items[depth.toNat]? with
  | some item => .ok item
  | none => do
    let requested ← Checked.word (depth.toNat + 1)
    .error (.fault (.stackUnderflow requested stack.items.length))

/-- The budget after all items of the stack are gone. -/
def released (stack : Stack) (budget : Budget) : Budget :=
  stack.items.foldl Budget.release budget

def length (stack : Stack) : Nat := stack.items.length

/-- The bottom comes first. -/
def toList (stack : Stack) : List Item := stack.items.reverse

end Stack

end NativeContracts
