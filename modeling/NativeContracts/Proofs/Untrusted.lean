import NativeContracts.Proofs.Reader
import NativeContracts.Proofs.RoundTrip
import NativeContracts.Stack

/-! Reading bytes that nobody vouches for. Every step of a run goes forward in the data, stays
in range and spends one of the allowance. The item at its end has no more nodes than there are
bytes, and its integers and payloads are within the limits. -/

namespace NativeContracts.Item

namespace Reader

variable {limits : Limits} {data : List UInt8} {position allowance steps : Nat}
  {state next : State}

/-! ## Every step stays in the data -/

/-- The states of a run, and after how many steps it comes to them. -/
inductive Reaches (limits : Limits) (data : List UInt8) : Nat → State → Prop where
  | start : Reaches limits data 0 (start limits)
  | advance {steps position allowance : Nat} {opened : List Opened} {next : State}
      (h : Reaches limits data steps ⟨position, allowance, .reading opened⟩)
      (hnext : advance limits data position allowance opened = .ok next) :
      Reaches limits data (steps + 1) next

theorem advance_position {opened : List Opened} (hend : position ≤ data.length)
    (h : advance limits data position allowance opened = .ok next) :
    position < next.position ∧ next.position ≤ data.length := by
  rcases allowance with _ | allowance
  · cases h
  rw [advance_succ] at h
  obtain ⟨found, hhead, h⟩ := bind_eq_ok_iff.mp h
  cases h
  exact (hhead ▸ agrees_takeHead hend).within

theorem advance_ne_outOfRange {opened : List Opened} (hend : position ≤ data.length) :
    advance limits data position allowance opened ≠ .error .outOfRange := by
  intro h
  rcases allowance with _ | allowance
  · cases h
  rw [advance_succ] at h
  rcases bind_eq_error_iff.mp h with hhead | ⟨found, -, h⟩
  · exact (agrees_takeHead hend).ne_outOfRange hhead
  · cases h

theorem Reaches.within (h : Reaches limits data steps state) :
    steps ≤ state.position ∧ state.position ≤ data.length ∧
      steps + state.allowance = limits.maxStackSize := by
  induction h with
  | start => exact ⟨Nat.le_refl _, Nat.zero_le _, Nat.zero_add _⟩
  | advance _ hnext ih =>
    simp only at ih
    obtain ⟨hsteps, hend, hallowance⟩ := ih
    obtain ⟨hposition, hbehind⟩ := advance_position hend hnext
    have hspent := advance_allowance hnext
    exact ⟨by omega, hbehind, by omega⟩

end Reader

/-! ## What is found is small -/

mutual

/-- Every node has a marker of its own. -/
theorem nodeCount_le_length {limits : Limits} {item : Item} {bytes : List UInt8}
    (h : StoredAs limits item bytes) : item.nodeCount ≤ bytes.length := by
  cases h with
  | null | boolean _ | integer _ | byteString _ | buffer _ => simp [nodeCount]
  | array _ h | struct _ h =>
    have hinside := nodeCounts_le_length h
    simp only [nodeCount, List.length_cons, List.length_append]
    omega

theorem nodeCounts_le_length {limits : Limits} {items : List Item} {bytes : List UInt8}
    (h : AllStoredAs limits items bytes) : nodeCounts items ≤ bytes.length := by
  cases h with
  | nil => exact Nat.zero_le _
  | cons hitem hitems =>
    rw [nodeCounts, List.length_append]
    exact Nat.add_le_add (nodeCount_le_length hitem) (nodeCounts_le_length hitems)

end

/-- Integers need no more bytes than the limits allow, and payloads have no more. -/
def Sized (limits : Limits) : Item → Prop
  | integer n => (integerBytes n).length ≤ limits.maxIntegerSize
  | byteString bytes | buffer bytes => bytes.length ≤ limits.maxItemSize
  | _ => True

theorem Framed.length_le {max : Nat} {content bytes : List UInt8} (h : Framed max content bytes) :
    content.length ≤ max := by
  obtain ⟨_, hmax⟩ := h
  exact hmax

mutual

theorem sized_of_storedAs {limits : Limits} {item node : Item} {bytes : List UInt8}
    (h : StoredAs limits item bytes) (hnode : node ∈ item.nodes) : node.Sized limits := by
  cases h with
  | null | boolean _ =>
    obtain rfl := List.mem_singleton.mp hnode
    trivial
  | integer h =>
    obtain rfl := List.mem_singleton.mp hnode
    exact Nat.le_trans (length_integerBytes_decode_le _) h.length_le
  | byteString h | buffer h =>
    obtain rfl := List.mem_singleton.mp hnode
    exact h.length_le
  | array _ h | struct _ h =>
    rcases List.mem_cons.mp hnode with rfl | hnode
    · trivial
    · exact sized_of_allStoredAs h hnode

theorem sized_of_allStoredAs {limits : Limits} {items : List Item} {node : Item}
    {bytes : List UInt8} (h : AllStoredAs limits items bytes) (hnode : node ∈ nodesOf items) :
    node.Sized limits := by
  cases h with
  | nil => cases hnode
  | cons hitem hitems =>
    rcases List.mem_append.mp hnode with hnode | hnode
    · exact sized_of_storedAs hitem hnode
    · exact sized_of_allStoredAs hitems hnode

end

open Reader

/-- However hostile the bytes are, each step of reading them goes on in the data, stays in
range and spends one of the allowance, so that there are no more steps than bytes and no more
than items allowed. What is found is no larger than the limits say and fits on a stack that
nothing else is charged to. Limits are 64-bit words. -/
theorem decode_in_range (limits : Limits) (data : List UInt8)
    (hword : limits.maxStackSize < UInt64.size) :
    run limits data (start limits) = (decode limits data).mapError .fault ∧
      (∀ steps position allowance phase,
        Reaches limits data steps ⟨position, allowance, phase⟩ →
          steps ≤ position ∧ position ≤ data.length ∧ steps + allowance = limits.maxStackSize ∧
            ∀ opened, phase = .reading opened →
              advance limits data position allowance opened ≠ .error .outOfRange ∧
                ∀ next, advance limits data position allowance opened = .ok next →
                  position < next.position) ∧
        ∀ item, decode limits data = .ok item →
          item.weight ≤ min limits.maxStackSize data.length ∧
            (∀ node ∈ item.nodes, node.Sized limits) ∧
              ∀ stack : Stack, stack.push item { limit := limits.maxStackSize } =
                .ok (⟨item :: stack.items⟩,
                  { limit := limits.maxStackSize, count := item.weight }) := by
  refine ⟨run_start, fun steps position allowance phase h => ?_, fun item h => ?_⟩
  · obtain ⟨hsteps, hend, hallowance⟩ := h.within
    refine ⟨hsteps, hend, hallowance, fun opened _ => ⟨advance_ne_outOfRange hend, ?_⟩⟩
    intro next hnext
    exact (advance_position hend hnext).1
  · obtain ⟨hstored, hcount⟩ := decode_eq_ok_iff.mp h
    have hlength := nodeCount_le_length hstored
    rw [← weight_eq_nodeCount] at hcount hlength
    refine ⟨Nat.le_min.mpr ⟨hcount, hlength⟩, fun node => sized_of_storedAs hstored, ?_⟩
    intro stack
    have hfits : item.weight ≤ limits.maxStackSize ∧ item.weight ≤ Budget.largestCount := by
      refine ⟨hcount, ?_⟩
      unfold Budget.largestCount
      omega
    simp [Stack.push, Budget.charge, hfits, bind, Except.bind, pure, Except.pure]

/-- An array that announces more items than there are bytes is refused by its number. -/
example : decode {} [0x40, 0xFF, 0xFF, 0xFF, 0xFF, 0xFF, 0xFF, 0xFF, 0xFF, 0xFF] =
    .error (.encoding (.lengthTooLarge 18446744073709551615 2047)) := rfl

/-- An array of a struct and one byte. Its number of items and its integer take more bytes
than they need. -/
def padded : List UInt8 := [0x40, 0xFD, 2, 0, 0x41, 1, 0x21, 3, 0xD4, 0xFE, 0xFF, 0x28, 1, 7]

/-- What `padded` stores. -/
def unpadded : Item := .array [.struct [.integer (-300)], .byteString [7]]

/-- Room for the nodes of `unpadded` and no more. -/
def tight : Limits := { maxStackSize := 4 }

theorem decode_in_range_padded :
    tight.maxStackSize < UInt64.size ∧
      run tight padded (start tight) = .ok unpadded ∧
      Reaches tight padded 1 ⟨4, 3, .reading [⟨.array, 1, []⟩]⟩ ∧
      (∃ next, advance tight padded 4 3 [⟨.array, 1, []⟩] = .ok next ∧ 4 < next.position) ∧
      unpadded.weight ≤ min 4 14 ∧ (∀ node ∈ unpadded.nodes, node.Sized tight) ∧
      ∃ budget, Stack.push {} unpadded { limit := 4 } = .ok (⟨[unpadded]⟩, budget) := by
  have hword : tight.maxStackSize < UInt64.size := by decide
  have hdecode : decode tight padded = .ok unpadded := rfl
  have hreaches : Reaches tight padded 1 ⟨4, 3, .reading [⟨.array, 1, []⟩]⟩ :=
    .advance .start rfl
  obtain ⟨hrun, hsteps, hfound⟩ := decode_in_range tight padded hword
  obtain ⟨hweight, hsized, hpush⟩ := hfound unpadded hdecode
  refine ⟨hword, hrun.trans (by rw [hdecode]; rfl), hreaches, ⟨_, rfl, ?_⟩, hweight, hsized,
    ⟨_, hpush {}⟩⟩
  exact ((hsteps 1 4 3 _ hreaches).2.2.2 _ rfl).2 _ rfl

end NativeContracts.Item
