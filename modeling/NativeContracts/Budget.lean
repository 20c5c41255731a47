import NativeContracts.Fault
import NativeContracts.Item

/-! The references alive in one execution, counted in a 64-bit word. A check that
would overflow the word uses the largest one instead; a charge that would overflow
it is refused, like one that goes past the limit; a release never goes below zero. -/

namespace NativeContracts

structure Budget where
  limit : Nat
  count : Nat := 0
  deriving DecidableEq

namespace Budget

def largestCount : Nat := UInt64.size - 1

/-- Whether `additional` references fit. Nothing is charged. -/
def check (budget : Budget) (additional : Nat) : Except Fault Unit :=
  let requested := min (budget.count + additional) largestCount
  if budget.limit < requested then .error (.referenceLimitExceeded requested budget.limit)
  else .ok ()

def charge (budget : Budget) (item : Item) : Except Fault Budget :=
  let total := budget.count + item.weight
  if total ≤ budget.limit ∧ total ≤ largestCount then .ok { budget with count := total }
  else .error (.referenceLimitExceeded (min total largestCount) budget.limit)

def release (budget : Budget) (item : Item) : Budget :=
  { budget with count := budget.count - item.weight }

/-- A struct of `items`, which fits in what is left of the budget. -/
def makeStruct (budget : Budget) (items : List Item) : Except Fault Item := do
  budget.check (1 + Item.weights items)
  return .struct items

end Budget

end NativeContracts
