import NativeContracts.Frame

/-! Stacks with numbers that share one budget. A number that was never used, or
whose stack was dropped, names an empty stack. Each operation that can fail leaves
the whole pool as it was when it does. A script works on a stack of the pool as a
frame. -/

namespace NativeContracts

structure StackPool where
  budget : Budget
  slots : List (Nat × Stack) := []
  deriving DecidableEq

namespace StackPool

def get (pool : StackPool) (name : Nat) : Stack := (pool.slots.lookup name).getD {}

/-- A number that no stack of the pool has. -/
def unused (pool : StackPool) : Nat := pool.slots.foldl (fun n entry => max n (entry.1 + 1)) 0

def frame (pool : StackPool) (script : Script) (name : Nat) : Frame := ⟨script, pool.get name⟩

def replace (name : Nat) (stack : Stack) : List (Nat × Stack) → List (Nat × Stack)
  | [] => [(name, stack)]
  | (other, old) :: rest =>
    if other = name then (name, stack) :: rest else (other, old) :: replace name stack rest

def push (pool : StackPool) (name : Nat) (item : Item) : Except Fault StackPool := do
  let (stack, budget) ← (pool.get name).push item pool.budget
  return ⟨budget, replace name stack pool.slots⟩

def pop (pool : StackPool) (name : Nat) : Except Fault (Item × StackPool) := do
  let (item, stack, budget) ← (pool.get name).pop pool.budget
  return (item, ⟨budget, replace name stack pool.slots⟩)

def peek (pool : StackPool) (name : Nat) (depth : UInt64) : Checked Item :=
  (pool.get name).peek depth

def clear (pool : StackPool) (name : Nat) : StackPool :=
  ⟨(pool.get name).released pool.budget, replace name {} pool.slots⟩

def drop (pool : StackPool) (name : Nat) : StackPool :=
  ⟨(pool.get name).released pool.budget, pool.slots.filter (·.1 ≠ name)⟩

/-- Charges an item that no stack holds. -/
def charge (pool : StackPool) (item : Item) : Except Fault StackPool := do
  return { pool with budget := ← pool.budget.charge item }

/-- Gives back the charge of an item that no stack holds. -/
def release (pool : StackPool) (item : Item) : StackPool :=
  { pool with budget := pool.budget.release item }

def dropAll (pool : StackPool) : Budget :=
  pool.slots.foldl (fun budget entry => entry.2.released budget) pool.budget

end StackPool

end NativeContracts
