import NativeContracts.Proofs.RoundTrip

/-! Weighing an item. The items still to visit stand in a list; a visit counts one of them and
leaves the items inside it in its place. What was visited and what is left are always the nodes
of the whole tree, so each node is counted once and the walk comes to its end, whichever item it
takes next. The weight therefore says how many nodes there are, and nothing else about them. -/

namespace NativeContracts.Item

variable {item node other : Item} {items others visited : List Item}

/-! ## The nodes of a tree -/

theorem nodes_eq (item : Item) : item.nodes = item :: nodesOf item.children := by
  cases item <;> rfl

theorem nodesOf_eq_flatMap (items : List Item) : nodesOf items = items.flatMap nodes := by
  induction items with
  | nil => rfl
  | cons item rest ih => rw [nodesOf, ih, List.flatMap_cons]

@[simp] theorem nodesOf_append (items others : List Item) :
    nodesOf (items ++ others) = nodesOf items ++ nodesOf others := by
  simp only [nodesOf_eq_flatMap, List.flatMap_append]

theorem nodesOf_perm (h : items.Perm others) : (nodesOf items).Perm (nodesOf others) := by
  rw [nodesOf_eq_flatMap, nodesOf_eq_flatMap]
  exact h.flatMap_right nodes

mutual

theorem length_nodes (item : Item) : item.nodes.length = item.nodeCount := by
  cases item with
  | null | boolean _ | integer _ | byteString _ | buffer _ => rfl
  | array items | struct items => rw [nodes, nodeCount, List.length_cons, length_nodesOf items]

theorem length_nodesOf (items : List Item) : (nodesOf items).length = nodeCounts items := by
  cases items with
  | nil => rfl
  | cons item rest =>
    rw [nodesOf, nodeCounts, List.length_append, length_nodes item, length_nodesOf rest]

end

theorem weight_eq_length_nodes (item : Item) : item.weight = item.nodes.length := by
  rw [weight_eq_nodeCount, length_nodes]

theorem weigh_eq_length_nodesOf (weight : Nat) (pending : List Item) :
    weigh weight pending = weight + (nodesOf pending).length := by
  rw [weigh_eq, length_nodesOf]

/-! ## Visits in any order -/

/-- A count under way. -/
structure Walk where
  counted : Nat
  pending : List Item

/-- One of the pending items is visited, whichever it is, and the items inside it are pending
in its place. -/
inductive Walk.Turn : Walk → Item → Walk → Prop where
  | visit {counted : Nat} {pending rest now : List Item} {node : Item}
      (htaken : pending.Perm (node :: rest)) (hnow : now.Perm (node.children ++ rest)) :
      Turn ⟨counted, pending⟩ node ⟨counted + 1, now⟩

/-- The walks over an item, with the nodes visited so far. -/
inductive Walk.Reaches (item : Item) : List Item → Walk → Prop where
  | start : Reaches item [] ⟨0, [item]⟩
  | turn {visited : List Item} {walk next : Walk} {node : Item} (h : Reaches item visited walk)
      (hturn : walk.Turn node next) : Reaches item (visited ++ [node]) next

namespace Walk

variable {walk next : Walk}

/-- A visit moves a node from what is left to what was visited. -/
theorem Turn.nodes_perm (h : walk.Turn node next) :
    (nodesOf walk.pending).Perm (node :: nodesOf next.pending) := by
  obtain ⟨htaken, hnow⟩ := h
  have hleft := (nodesOf_perm hnow).symm
  refine (nodesOf_perm htaken).trans ?_
  rw [nodesOf, nodes_eq, List.cons_append]
  rw [nodesOf_append] at hleft
  exact hleft.cons _

theorem Turn.counted_eq (h : walk.Turn node next) : next.counted = walk.counted + 1 := by
  cases h
  rfl

/-- Every node is either visited or left, and once only. -/
theorem Reaches.nodes_perm (h : Reaches item visited walk) :
    (visited ++ nodesOf walk.pending).Perm item.nodes := by
  induction h with
  | start =>
    rw [List.nil_append, nodesOf, nodesOf, List.append_nil]
  | turn _ hturn ih =>
    rw [List.append_assoc, List.singleton_append]
    exact (hturn.nodes_perm.symm.append_left _).trans ih

theorem Reaches.counted_eq (h : Reaches item visited walk) : walk.counted = visited.length := by
  induction h with
  | start => rfl
  | turn _ hturn ih => rw [hturn.counted_eq, ih, List.length_append, List.length_singleton]

theorem Reaches.counted_add (h : Reaches item visited walk) :
    walk.counted + (nodesOf walk.pending).length = item.nodes.length := by
  rw [h.counted_eq, ← List.length_append, h.nodes_perm.length_eq]

theorem Reaches.pending_eq_nil_iff (h : Reaches item visited walk) :
    walk.pending = [] ↔ walk.counted = item.nodes.length := by
  have hcounted := h.counted_add
  have hleft := length_le_nodeCounts walk.pending
  rw [← length_nodesOf] at hleft
  constructor
  · intro hnil
    rw [hnil, nodesOf, List.length_nil, Nat.add_zero] at hcounted
    exact hcounted
  · intro hall
    exact List.eq_nil_of_length_eq_zero (by omega)

/-! ## The loop -/

/-- The item that was added last is visited, and the items inside it are added in order. -/
def next? (walk : Walk) : Option Walk :=
  walk.pending.getLast?.map fun node =>
    ⟨walk.counted + 1, walk.pending.dropLast ++ node.children⟩

theorem turn_of_next? (h : walk.next? = some next) : ∃ node, walk.Turn node next := by
  obtain ⟨counted, pending⟩ := walk
  obtain ⟨node, hlast, rfl⟩ := Option.map_eq_some_iff.mp h
  obtain ⟨rest, rfl⟩ := List.getLast?_eq_some_iff.mp hlast
  refine ⟨node, .visit (List.perm_append_singleton node rest) ?_⟩
  rw [List.dropLast_concat]
  exact List.perm_append_comm

theorem next?_eq_none_iff : walk.next? = none ↔ walk.pending = [] := by
  rw [next?, Option.map_eq_none_iff, List.getLast?_eq_none_iff]

theorem length_nodesOf_next? (h : walk.next? = some next) :
    (nodesOf walk.pending).length = (nodesOf next.pending).length + 1 := by
  obtain ⟨node, hturn⟩ := turn_of_next? h
  exact hturn.nodes_perm.length_eq

/-- Visits until nothing is pending. Every visit leaves a node less. -/
def finish (walk : Walk) : Walk :=
  match _h : walk.next? with
  | none => walk
  | some next => next.finish
termination_by (nodesOf walk.pending).length
decreasing_by exact Nat.lt_of_succ_le (Nat.le_of_eq (length_nodesOf_next? _h).symm)

theorem finish_eq (walk : Walk) :
    walk.finish = ⟨walk.counted + (nodesOf walk.pending).length, []⟩ := by
  fun_induction finish walk with
  | case1 walk h =>
    have hnil := next?_eq_none_iff.mp h
    obtain ⟨counted, pending⟩ := walk
    subst hnil
    rfl
  | case2 walk next h ih =>
    obtain ⟨node, hturn⟩ := turn_of_next? h
    rw [ih, hturn.counted_eq, length_nodesOf_next? h, Nat.add_assoc, Nat.add_comm 1]

end Walk

/-! ## Trees of one shape -/

mutual

/-- The items inside correspond to each other in some order, and so do those inside them. Kinds
and contents may differ. -/
inductive SameShape : Item → Item → Prop where
  | inside {item other : Item} (h : SameShapes item.children other.children) :
      SameShape item other

inductive SameShapes : List Item → List Item → Prop where
  | nil : SameShapes [] []
  | cons {item other : Item} {items others : List Item} (h : SameShape item other)
      (hrest : SameShapes items others) : SameShapes (item :: items) (other :: others)
  | swap (first second : Item) (rest : List Item) :
      SameShapes (first :: second :: rest) (second :: first :: rest)
  | trans {items others more : List Item} (h : SameShapes items others)
      (h' : SameShapes others more) : SameShapes items more

end

mutual

theorem SameShape.weight_eq {item other : Item} : SameShape item other → other.weight = item.weight
  | .inside h => by rw [Item.weight_eq, Item.weight_eq item, h.weights_eq]

theorem SameShapes.weights_eq {items others : List Item} :
    SameShapes items others → weights others = weights items
  | .nil => rfl
  | .cons h hrest => by rw [weights_cons, weights_cons, h.weight_eq, hrest.weights_eq]
  | .swap first second rest => by simp only [weights_cons, Nat.add_left_comm]
  | .trans h h' => h'.weights_eq.trans h.weights_eq

end

mutual

theorem SameShape.refl (item : Item) : SameShape item item := by
  cases item with
  | null | boolean _ | integer _ | byteString _ | buffer _ => exact .inside .nil
  | array items | struct items => exact .inside (SameShapes.refl items)

theorem SameShapes.refl (items : List Item) : SameShapes items items := by
  cases items with
  | nil => exact .nil
  | cons item rest => exact .cons (SameShape.refl item) (SameShapes.refl rest)

end

theorem SameShapes.of_perm (h : items.Perm others) : SameShapes items others := by
  induction h with
  | nil => exact .nil
  | cons item _ ih => exact .cons (.refl item) ih
  | swap first second rest => exact .swap second first rest
  | trans _ _ ih ih' => exact .trans ih ih'

/-- The weight of an item is the number of its nodes: one for itself, and what the items inside it
weigh. The loop that takes the last pending item comes to an end and has counted just so many.
Whichever item is taken, what was visited and what is left are the nodes of the item, so that
nothing is pending when all are counted, and not before. The order of the items inside does not
matter, at any depth, nor whether they stand in an array or in a struct. -/
theorem weight_counts_nodes (item : Item) :
    item.weight = item.nodes.length ∧
      item.weight = 1 + weights item.children ∧
      Walk.finish ⟨0, [item]⟩ = ⟨item.weight, []⟩ ∧
      (∀ visited walk, Walk.Reaches item visited walk →
        walk.counted = visited.length ∧
          (visited ++ nodesOf walk.pending).Perm item.nodes ∧
          walk.counted + (nodesOf walk.pending).length = item.weight ∧
          weigh walk.counted walk.pending = item.weight ∧
          walk.finish = ⟨item.weight, []⟩ ∧
          (walk.pending = [] ↔ walk.counted = item.weight) ∧
          (walk.pending ≠ [] → ∃ next, walk.next? = some next) ∧
          ∀ next, walk.next? = some next → ∃ node, Walk.Reaches item (visited ++ [node]) next) ∧
      (∀ others, item.children.Perm others →
        (array others).weight = item.weight ∧ (struct others).weight = item.weight) ∧
      ∀ other, SameShape item other → other.weight = item.weight := by
  have hweight := weight_eq_length_nodes item
  refine ⟨hweight, ?children, ?finish, ?walks, ?order, fun _ => SameShape.weight_eq⟩
  case children => rw [weight_eq, Nat.add_comm]
  case finish =>
    rw [Walk.finish_eq, hweight, Walk.Reaches.start.counted_add]
  case walks =>
    intro visited walk h
    have hcounted := h.counted_add
    rw [← hweight] at hcounted
    refine ⟨h.counted_eq, h.nodes_perm, hcounted, ?_, ?_, ?_, ?_, ?_⟩
    · rw [weigh_eq_length_nodesOf, hcounted]
    · rw [Walk.finish_eq, hcounted]
    · rw [hweight]
      exact h.pending_eq_nil_iff
    · intro hpending
      exact Option.ne_none_iff_exists'.mp fun hnone => hpending (Walk.next?_eq_none_iff.mp hnone)
    · intro next hnext
      obtain ⟨node, hturn⟩ := Walk.turn_of_next? hnext
      exact ⟨node, h.turn hturn⟩
  case order =>
    intro others hperm
    have hshape := SameShapes.of_perm hperm
    exact ⟨(SameShape.inside hshape).weight_eq, (SameShape.inside hshape).weight_eq⟩

/-- A struct with an array in it, five nodes in all. -/
def nested : Item := .struct [.integer 1, .array [.integer 2, .null]]

/-- After two visits the array is counted and its items are pending. -/
theorem weight_counts_nodes_nested :
    Walk.Reaches nested [nested, .array [.integer 2, .null]]
        ⟨2, [.integer 1, .integer 2, .null]⟩ ∧
      2 + (nodesOf [.integer 1, .integer 2, .null]).length = nested.weight ∧
      nested.weight = 5 ∧ Walk.finish ⟨0, [nested]⟩ = ⟨5, []⟩ ∧
      (array [.array [.integer 2, .null], .integer 1]).weight = 5 ∧
      (array [.struct [.null, .integer 2], .boolean true]).weight = 5 := by
  obtain ⟨hnodes, -, hfinish, hwalks, horder, hshape⟩ := weight_counts_nodes nested
  have hfive : nested.weight = 5 := hnodes
  have hfirst : Walk.Reaches nested [nested] ⟨1, [.integer 1, .array [.integer 2, .null]]⟩ :=
    Walk.Reaches.start.turn (.visit (.refl _) (.refl _))
  have hsecond : Walk.Reaches nested [nested, .array [.integer 2, .null]]
      ⟨2, [.integer 1, .integer 2, .null]⟩ :=
    hfirst.turn (.visit (.swap _ _ _)
      (List.perm_append_singleton (integer 1) [integer 2, null]).symm)
  rw [hfive] at hfinish horder hshape
  refine ⟨hsecond, (hwalks _ _ hsecond).2.2.1, hfive, hfinish, (horder _ (.swap _ _ _)).1, ?_⟩
  apply hshape
  refine .inside (.trans (.swap _ _ _) (.cons (.inside (.swap _ _ _)) (.cons (.inside .nil) .nil)))

end NativeContracts.Item
