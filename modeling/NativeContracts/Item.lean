import NativeContracts.Item.Kind

/-! Items are the values that stacks hold: trees whose inner nodes are arrays and
structs. The weight of an item is the number of its nodes, which is what a stack
pays for holding it; it is counted over a list of nodes still to visit, so that
depth costs no recursion. Equality of items is decided node by node. -/

namespace NativeContracts

inductive Item where
  | null
  | boolean (value : Bool)
  | integer (value : Int)
  | byteString (bytes : List UInt8)
  | buffer (bytes : List UInt8)
  | array (items : List Item)
  | struct (items : List Item)
  deriving Inhabited

namespace Item

def kind : Item → Kind
  | null => .any
  | boolean _ => .boolean
  | integer _ => .integer
  | byteString _ => .byteString
  | buffer _ => .buffer
  | array _ => .array
  | struct _ => .struct

/-- The items directly inside, which only compound items have. -/
def children : Item → List Item
  | array items | struct items => items
  | _ => []

mutual

def nodeCount : Item → Nat
  | array items | struct items => nodeCounts items + 1
  | _ => 1

def nodeCounts : List Item → Nat
  | [] => 0
  | item :: rest => nodeCount item + nodeCounts rest

end

theorem nodeCount_eq (item : Item) : item.nodeCount = nodeCounts item.children + 1 := by
  cases item <;> simp [nodeCount, children, nodeCounts]

@[simp] theorem nodeCounts_append (xs ys : List Item) :
    nodeCounts (xs ++ ys) = nodeCounts xs + nodeCounts ys := by
  induction xs with
  | nil => simp [nodeCounts]
  | cons x xs ih => simp [nodeCounts, ih, Nat.add_assoc]

/-- Adds one for each node reachable from `pending`. -/
def weigh (weight : Nat) (pending : List Item) : Nat :=
  match pending with
  | [] => weight
  | item :: rest => weigh (weight + 1) (item.children ++ rest)
termination_by nodeCounts pending
decreasing_by simp [nodeCounts, nodeCount_eq item]

def weight (item : Item) : Nat := weigh 0 [item]

/-- The references that items take together. -/
def weights : List Item → Nat
  | [] => 0
  | item :: rest => weight item + weights rest

@[simp] theorem weights_nil : weights [] = 0 := rfl

@[simp] theorem weights_cons (item : Item) (items : List Item) :
    weights (item :: items) = item.weight + weights items := rfl

@[simp] theorem weights_append (xs ys : List Item) :
    weights (xs ++ ys) = weights xs + weights ys := by
  induction xs with
  | nil => simp
  | cons x xs ih => simp [ih, Nat.add_assoc]

theorem weigh_eq (weight : Nat) (pending : List Item) :
    weigh weight pending = weight + nodeCounts pending := by
  fun_induction weigh weight pending with
  | case1 weight => simp [nodeCounts]
  | case2 weight item rest ih => simp [ih, nodeCounts, nodeCount_eq item]; omega

theorem weight_eq_nodeCount (item : Item) : item.weight = item.nodeCount := by
  simp [weight, weigh_eq, nodeCounts]

theorem weights_eq_nodeCounts (items : List Item) : weights items = nodeCounts items := by
  induction items with
  | nil => rfl
  | cons item items ih => rw [weights_cons, nodeCounts, ih, weight_eq_nodeCount]

/-- An item weighs one more than the items inside it. -/
theorem weight_eq (item : Item) : item.weight = weights item.children + 1 := by
  rw [weight_eq_nodeCount, nodeCount_eq, weights_eq_nodeCounts]

mutual

def same : Item → Item → Bool
  | null, null => true
  | boolean a, boolean b => a == b
  | integer a, integer b => a == b
  | byteString a, byteString b => a == b
  | buffer a, buffer b => a == b
  | array a, array b => sameAll a b
  | struct a, struct b => sameAll a b
  | _, _ => false

def sameAll : List Item → List Item → Bool
  | [], [] => true
  | a :: as, b :: bs => same a b && sameAll as bs
  | _, _ => false

end

mutual

theorem same_iff (a b : Item) : same a b = true ↔ a = b := by
  cases a <;> cases b <;> simp [same]
  case array.array as bs => exact sameAll_iff as bs
  case struct.struct as bs => exact sameAll_iff as bs

theorem sameAll_iff (as bs : List Item) : sameAll as bs = true ↔ as = bs := by
  match as, bs with
  | [], [] => simp [sameAll]
  | [], _ :: _ => simp [sameAll]
  | _ :: _, [] => simp [sameAll]
  | a :: as, b :: bs => simp [sameAll, same_iff a b, sameAll_iff as bs]

end

instance : DecidableEq Item := fun a b => decidable_of_iff (same a b = true) (same_iff a b)

end Item

end NativeContracts
