import NativeContracts.Proofs.Accounting
import NativeContracts.StackPool

/-! Stacks that share a budget. Whatever is done to them in whatever order, the budget
counts the weight of what the stacks hold and of the charges that no stack holds, so that
each item is given back as it was charged: no release goes below zero, and the count is
zero once nothing is held. Frames are no other case, since each works on a stack of the pool. -/

namespace NativeContracts

/-! ## Weights -/

namespace Item

theorem weights_perm {items others : List Item} (h : items.Perm others) :
    weights items = weights others := by
  induction h with
  | nil => rfl
  | cons item _ ih => rw [weights_cons, weights_cons, ih]
  | swap first second items => simp only [weights_cons, Nat.add_left_comm]
  | trans _ _ ih ih' => rw [ih, ih']

theorem weights_erase {item : Item} {items : List Item} (h : item ∈ items) :
    weights items = item.weight + weights (items.erase item) :=
  weights_perm (List.perm_cons_erase h)

end Item

namespace Budget

variable {budget : Budget} {items : List Item}

/-- The budget counts enough for the items to be given back one after another: no count
goes below zero on the way. -/
def Covers (budget : Budget) (items : List Item) : Prop :=
  ∀ gone item rest, items = gone ++ item :: rest →
    item.weight ≤ (gone.foldl release budget).count

theorem count_foldl_release (budget : Budget) (items : List Item) :
    (items.foldl release budget).count = budget.count - Item.weights items := by
  have hreleased := Stack.released_eq ⟨items⟩ budget
  rw [Stack.released] at hreleased
  rw [hreleased]

theorem covers_of_weights_le (h : Item.weights items ≤ budget.count) : budget.Covers items := by
  rintro gone item rest rfl
  rw [Item.weights_append, Item.weights_cons] at h
  rw [count_foldl_release]
  omega

/-- How a charge is refused: with what would have been counted, as far as a word holds it. -/
def Refuses (budget : Budget) (item : Item) (fault : Fault) : Prop :=
  ∃ requested, fault = .referenceLimitExceeded requested budget.limit ∧
    (budget.count + item.weight < UInt64.size → requested = budget.count + item.weight) ∧
    (UInt64.size ≤ budget.count + item.weight → requested = UInt64.size - 1)

theorem charge_cases (budget : Budget) (item : Item) (hword : budget.limit < UInt64.size) :
    budget.count + item.weight ≤ budget.limit ∧
        budget.charge item = .ok { budget with count := budget.count + item.weight } ∨
      budget.limit < budget.count + item.weight ∧
        ∃ fault, budget.charge item = .error fault ∧ budget.Refuses item fault := by
  by_cases h : budget.count + item.weight ≤ budget.limit
  · left
    refine ⟨h, charge_eq_ok_iff.mpr ⟨Nat.le_min.mpr ⟨h, ?_⟩, rfl⟩⟩
    rw [largestCount]
    omega
  · right
    refine ⟨Nat.lt_of_not_le h, _, if_neg fun hfits => h hfits.1, _, rfl, ?_, ?_⟩
    · intro hsmall
      rw [largestCount]
      omega
    · intro hlarge
      rw [largestCount]
      omega

end Budget

namespace StackPool

variable {pool : StackPool} {slots : List (Nat × Stack)} {name other : Nat} {stack : Stack}
  {item : Item} {lent : List Item} {limit : Nat}

/-- What the stacks of the pool hold. -/
def heldItems (pool : StackPool) : List Item := pool.slots.flatMap fun slot => slot.2.items

/-! ## One stack among others -/

theorem mem_names_replace {n : Nat} :
    n ∈ (replace name stack slots).map (·.1) ↔ n = name ∨ n ∈ slots.map (·.1) := by
  induction slots with
  | nil => simp [replace]
  | cons slot slots ih =>
    rw [replace]
    split
    · next h => simp [h]
    · simp only [List.map_cons, List.mem_cons, ih]
      exact or_left_comm

theorem nodup_replace (h : (slots.map (·.1)).Nodup) :
    ((replace name stack slots).map (·.1)).Nodup := by
  induction slots with
  | nil => simp [replace]
  | cons slot slots ih =>
    obtain ⟨hfresh, hrest⟩ := List.nodup_cons.mp h
    rw [replace]
    split
    · next hname => exact List.nodup_cons.mpr ⟨hname ▸ hfresh, hrest⟩
    · next hname =>
      refine List.nodup_cons.mpr ⟨fun hmem => ?_, ih hrest⟩
      rcases mem_names_replace.mp hmem with heq | hold
      · exact hname heq
      · exact hfresh hold

theorem nodup_filter (h : (slots.map (·.1)).Nodup) (p : Nat × Stack → Bool) :
    ((slots.filter p).map (·.1)).Nodup :=
  h.sublist (List.filter_sublist.map _)

theorem lookup_replace_self : (replace name stack slots).lookup name = some stack := by
  induction slots with
  | nil => simp [replace]
  | cons slot slots ih =>
    rw [replace]
    split
    · exact List.lookup_cons_self
    · next hname => rwa [List.lookup_cons, beq_false_of_ne (Ne.symm hname)]

theorem lookup_replace_of_ne (h : other ≠ name) :
    (replace name stack slots).lookup other = slots.lookup other := by
  induction slots with
  | nil => simp [replace, h]
  | cons slot slots ih =>
    obtain ⟨label, old⟩ := slot
    rw [replace]
    split
    · next hname =>
      subst hname
      simp only [List.lookup_cons, beq_false_of_ne h]
    · simp only [List.lookup_cons, ih]

theorem lookup_eq_none (h : name ∉ slots.map (·.1)) : slots.lookup name = none := by
  rw [List.lookup_eq_none_iff]
  intro slot hslot
  exact bne_iff_ne.mpr fun heq => h (heq ▸ List.mem_map_of_mem hslot)

/-- What is held changes by the new stack less the one it takes the place of. -/
theorem weights_replace :
    Item.weights ((replace name stack slots).flatMap (·.2.items)) +
        Item.weights ((slots.lookup name).getD {}).items =
      Item.weights (slots.flatMap (·.2.items)) + Item.weights stack.items := by
  induction slots with
  | nil => simp [replace]
  | cons slot slots ih =>
    obtain ⟨label, old⟩ := slot
    rw [replace]
    split
    · next hname =>
      subst hname
      simp only [List.flatMap_cons, Item.weights_append, List.lookup_cons_self, Option.getD_some]
      omega
    · next hname =>
      simp only [List.flatMap_cons, Item.weights_append, List.lookup_cons,
        beq_false_of_ne (Ne.symm hname)]
      omega

theorem weights_filter (h : (slots.map (·.1)).Nodup) :
    Item.weights ((slots.filter (·.1 ≠ name)).flatMap (·.2.items)) +
        Item.weights ((slots.lookup name).getD {}).items =
      Item.weights (slots.flatMap (·.2.items)) := by
  induction slots with
  | nil => simp
  | cons slot slots ih =>
    obtain ⟨label, old⟩ := slot
    obtain ⟨hfresh, hrest⟩ := List.nodup_cons.mp h
    have hkeep := ih hrest
    by_cases hname : label = name
    · -- The other stacks have other names, so they all stay.
      subst hname
      rw [lookup_eq_none hfresh, Option.getD_none, Item.weights_nil] at hkeep
      rw [List.filter_cons_of_neg (by simp), List.lookup_cons_self, Option.getD_some]
      simp only [List.flatMap_cons, Item.weights_append]
      omega
    · rw [List.filter_cons_of_pos (by simpa using hname), List.lookup_cons,
        beq_false_of_ne (Ne.symm hname)]
      simp only [List.flatMap_cons, Item.weights_append]
      omega

/-! ## Operations -/

theorem push_eq (pool : StackPool) (name : Nat) (item : Item) :
    pool.push name item = (pool.budget.charge item).map fun budget =>
      ⟨budget, replace name ⟨item :: (pool.get name).items⟩ pool.slots⟩ := by
  rw [push, Stack.push]
  rcases pool.budget.charge item <;> rfl

theorem charge_eq (pool : StackPool) (item : Item) :
    pool.charge item = (pool.budget.charge item).map fun budget => { pool with budget } := by
  rw [charge]
  rcases pool.budget.charge item <;> rfl

theorem pop_cases (pool : StackPool) (name : Nat) :
    (pool.get name).items = [] ∧ pool.pop name = .error (.stackUnderflow 1 0) ∨
      ∃ item rest, (pool.get name).items = item :: rest ∧
        pool.pop name =
          .ok (item, ⟨pool.budget.release item, replace name ⟨rest⟩ pool.slots⟩) := by
  rw [pop, Stack.pop]
  rcases (pool.get name).items with _ | ⟨item, rest⟩
  · exact .inl ⟨rfl, rfl⟩
  · exact .inr ⟨item, rest, rfl, rfl⟩

/-- The stack `name` gives way to one with other items. -/
theorem weights_held (pool : StackPool) (name : Nat) (items : List Item) :
    Item.weights ((replace name ⟨items⟩ pool.slots).flatMap (·.2.items)) +
        Item.weights (pool.get name).items =
      Item.weights pool.heldItems + Item.weights items :=
  weights_replace

theorem get_push {pushed : StackPool} (h : pool.push name item = .ok pushed) :
    (pushed.get name).items = item :: (pool.get name).items ∧
      ∀ other, other ≠ name → pushed.get other = pool.get other := by
  rw [push_eq] at h
  rcases hcharge : pool.budget.charge item with fault | budget <;> rw [hcharge] at h <;> cases h
  refine ⟨?_, fun other hother => ?_⟩
  · rw [get, lookup_replace_self, Option.getD_some]
  · rw [get, lookup_replace_of_ne hother, get]

theorem weights_get_le (pool : StackPool) (name : Nat) :
    Item.weights (pool.get name).items ≤ Item.weights pool.heldItems := by
  have hheld := pool.weights_held name []
  rw [Item.weights_nil] at hheld
  omega

theorem dropAll_eq (pool : StackPool) :
    pool.dropAll = pool.heldItems.foldl Budget.release pool.budget := by
  rw [heldItems, List.foldl_flatMap]
  rfl

/-! ## Steps -/

/-- What can be done to the stacks of a pool and their budget. The stack of a frame is a
stack of the pool, so it has no steps of its own. -/
inductive Step where
  | create (name : Nat)
  | push (name : Nat) (item : Item)
  | pop (name : Nat)
  | peek (name : Nat) (depth : UInt64)
  | clear (name : Nat)
  | drop (name : Nat)
  | makeStruct (items : List Item)
  | check (additional : Nat)
  | charge (item : Item)
  | release (item : Item)

namespace Step

/-- The pool after the step; one that fails leaves it as it was. -/
def after (pool : StackPool) : Step → StackPool
  | create name => { pool with slots := replace name {} pool.slots }
  | push name item => (pool.push name item).toOption.getD pool
  | pop name => ((pool.pop name).toOption.map (·.2)).getD pool
  | clear name => pool.clear name
  | drop name => pool.drop name
  | charge item => (pool.charge item).toOption.getD pool
  | release item => pool.release item
  | peek _ _ | makeStruct _ | check _ => pool

/-- The items charged with no stack to hold them, after the step. -/
def lentAfter (pool : StackPool) (lent : List Item) : Step → List Item
  | charge item => if (pool.charge item).isOk then item :: lent else lent
  | release item => lent.erase item
  | create _ | push _ _ | pop _ | peek _ _ | clear _ | drop _ | makeStruct _ | check _ => lent

/-- A stack is created under a number of its own, and no charge is given back twice. -/
def Allowed (pool : StackPool) (lent : List Item) : Step → Prop
  | create name => name ∉ pool.slots.map (·.1)
  | release item => item ∈ lent
  | push _ _ | pop _ | peek _ _ | clear _ | drop _ | makeStruct _ | check _ | charge _ => True

instance (pool : StackPool) (lent : List Item) (step : Step) : Decidable (step.Allowed pool lent) :=
  match step with
  | create name => inferInstanceAs (Decidable (name ∉ pool.slots.map (·.1)))
  | release item => inferInstanceAs (Decidable (item ∈ lent))
  | push _ _ | pop _ | peek _ _ | clear _ | drop _ | makeStruct _ | check _ | charge _ =>
    .isTrue trivial

end Step

/-- The pools that steps in any order lead to, with the charges that are outstanding. -/
inductive Reached (limit : Nat) : StackPool → List Item → Prop
  | start : Reached limit { budget := { limit } } []
  | step {pool : StackPool} {lent : List Item} (step : Step) (h : Reached limit pool lent)
    (hallowed : step.Allowed pool lent) :
    Reached limit (step.after pool) (step.lentAfter pool lent)

/-- The invariant of the pools reached under a limit. -/
structure Accounted (limit : Nat) (pool : StackPool) (lent : List Item) : Prop where
  nodup : (pool.slots.map (·.1)).Nodup
  limit_eq : pool.budget.limit = limit
  count_eq : pool.budget.count = Item.weights pool.heldItems + Item.weights lent
  count_le : pool.budget.count ≤ limit

namespace Accounted

theorem start (limit : Nat) : Accounted limit { budget := { limit } } [] :=
  ⟨List.nodup_nil, rfl, rfl, Nat.zero_le _⟩

theorem create (h : Accounted limit pool lent) (hname : name ∉ pool.slots.map (·.1)) :
    Accounted limit ((Step.create name).after pool) lent := by
  refine ⟨nodup_replace h.nodup, h.limit_eq, ?_, h.count_le⟩
  have hheld := pool.weights_held name []
  rw [get, lookup_eq_none hname] at hheld
  exact h.count_eq.trans (congrArg (· + Item.weights lent) (Nat.add_right_cancel hheld).symm)

/-- An item more is held or lent, and it was charged. -/
theorem charge (h : Accounted limit pool lent) {budget : Budget} {now : List Item}
    (hcharge : pool.budget.charge item = .ok budget) (hnodup : (slots.map (·.1)).Nodup)
    (hheld : Item.weights (slots.flatMap (·.2.items)) + Item.weights now =
      item.weight + (Item.weights pool.heldItems + Item.weights lent)) :
    Accounted limit ⟨budget, slots⟩ now := by
  obtain ⟨hfits, rfl⟩ := Budget.charge_eq_ok_iff.mp hcharge
  refine ⟨hnodup, h.limit_eq, ?_, h.limit_eq ▸ (Nat.le_min.mp hfits).1⟩
  rw [heldItems, hheld, ← h.count_eq, Nat.add_comm]

/-- Items of weight `weight` are no longer held or lent, and they were given back. -/
theorem release (h : Accounted limit pool lent) {weight : Nat} {now : List Item}
    (hnodup : (slots.map (·.1)).Nodup)
    (hheld : Item.weights pool.heldItems + Item.weights lent =
      weight + (Item.weights (slots.flatMap (·.2.items)) + Item.weights now)) :
    Accounted limit ⟨{ pool.budget with count := pool.budget.count - weight }, slots⟩ now := by
  refine ⟨hnodup, h.limit_eq, ?_, Nat.le_trans (Nat.sub_le _ _) h.count_le⟩
  -- The subtraction is exact: what is given back was counted.
  rw [heldItems, h.count_eq, hheld, Nat.add_sub_cancel_left]

/-- Each step accounts for what it charges and what it gives back. -/
theorem after (h : Accounted limit pool lent) (step : Step) (hallowed : step.Allowed pool lent) :
    Accounted limit (step.after pool) (step.lentAfter pool lent) := by
  cases step with
  | create name => exact h.create hallowed
  | push name item =>
    rw [Step.after, Step.lentAfter, push_eq]
    rcases hcharge : pool.budget.charge item with fault | budget
    · exact h
    · apply h.charge hcharge (nodup_replace h.nodup)
      have hheld := pool.weights_held name (item :: (pool.get name).items)
      rw [Item.weights_cons] at hheld
      omega
  | pop name =>
    rw [Step.after, Step.lentAfter]
    rcases pool.pop_cases name with ⟨-, hpop⟩ | ⟨item, rest, hitems, hpop⟩ <;> rw [hpop]
    · exact h
    · apply h.release (nodup_replace h.nodup)
      have hheld := pool.weights_held name rest
      rw [hitems, Item.weights_cons] at hheld
      omega
  | clear name =>
    rw [Step.after, Step.lentAfter, clear, Stack.released_eq]
    apply h.release (nodup_replace h.nodup)
    have hheld := pool.weights_held name []
    rw [Item.weights_nil] at hheld
    omega
  | drop name =>
    rw [Step.after, Step.lentAfter, drop, Stack.released_eq]
    apply h.release (nodup_filter h.nodup _)
    have hheld : _ + Item.weights (pool.get name).items = Item.weights pool.heldItems :=
      weights_filter h.nodup
    omega
  | charge item =>
    rw [Step.after, Step.lentAfter, charge_eq]
    rcases hcharge : pool.budget.charge item with fault | budget
    · exact h
    · apply h.charge hcharge h.nodup
      rw [heldItems]
      exact Nat.add_left_comm ..
  | release item =>
    apply h.release h.nodup
    rw [Item.weights_erase hallowed, heldItems]
    exact Nat.add_left_comm ..
  | peek | makeStruct | check => exact h

end Accounted

theorem Reached.accounted (h : Reached limit pool lent) : Accounted limit pool lent := by
  induction h with
  | start => exact Accounted.start limit
  | step step _ hallowed ih => exact ih.after step hallowed

/-- A push either fits and is on top of its stack, or is refused and changes nothing. -/
theorem Accounted.push_cases (h : Accounted limit pool lent) (hword : limit < UInt64.size)
    (name : Nat) (item : Item) :
    pool.budget.count + item.weight ≤ limit ∧
        (∃ pushed, pool.push name item = .ok pushed ∧
          (pushed.get name).items = item :: (pool.get name).items ∧
          ∀ other, other ≠ name → pushed.get other = pool.get other) ∨
      limit < pool.budget.count + item.weight ∧
        ∃ fault, pool.push name item = .error fault ∧ pool.budget.Refuses item fault ∧
          (Step.push name item).after pool = pool := by
  have hpush := push_eq pool name item
  rw [← h.limit_eq]
  rcases pool.budget.charge_cases item (h.limit_eq ▸ hword) with
    ⟨hfits, hcharge⟩ | ⟨hover, fault, hcharge, hrefuses⟩ <;> rw [hcharge] at hpush
  · exact .inl ⟨hfits, _, hpush, get_push hpush⟩
  · refine .inr ⟨hover, fault, hpush, hrefuses, ?_⟩
    rw [Step.after, hpush]
    rfl

theorem Accounted.charge_cases (h : Accounted limit pool lent) (hword : limit < UInt64.size)
    (item : Item) :
    pool.budget.count + item.weight ≤ limit ∧
        (∃ charged, pool.charge item = .ok charged ∧ charged.slots = pool.slots) ∨
      limit < pool.budget.count + item.weight ∧
        ∃ fault, pool.charge item = .error fault ∧ pool.budget.Refuses item fault ∧
          (Step.charge item).after pool = pool := by
  have hpool := charge_eq pool item
  rw [← h.limit_eq]
  rcases pool.budget.charge_cases item (h.limit_eq ▸ hword) with
    ⟨hfits, hcharge⟩ | ⟨hover, fault, hcharge, hrefuses⟩ <;> rw [hcharge] at hpool
  · exact .inl ⟨hfits, _, hpool, rfl⟩
  · refine .inr ⟨hover, fault, hpool, hrefuses, ?_⟩
    rw [Step.after, hpool]
    rfl

/-- Stacks that share a budget, after any steps on them. The count is the weight of what
they hold and of the outstanding charges, and never past the limit. Pushes and charges go
through exactly when they fit and otherwise change nothing; no release goes below zero, and
nothing is left once all stacks are dropped and all charges given back. -/
theorem count_eq_held_of_reached (hword : limit < UInt64.size) (h : Reached limit pool lent) :
    pool.budget.limit = limit ∧
      pool.budget.count = Item.weights pool.heldItems + Item.weights lent ∧
      pool.budget.count ≤ limit ∧
      (∀ name item,
        pool.budget.count + item.weight ≤ limit ∧
            (∃ pushed, pool.push name item = .ok pushed ∧
              (pushed.get name).items = item :: (pool.get name).items ∧
              ∀ other, other ≠ name → pushed.get other = pool.get other) ∨
          limit < pool.budget.count + item.weight ∧
            ∃ fault, pool.push name item = .error fault ∧ pool.budget.Refuses item fault ∧
              (Step.push name item).after pool = pool) ∧
      (∀ item,
        pool.budget.count + item.weight ≤ limit ∧
            (∃ charged, pool.charge item = .ok charged ∧ charged.slots = pool.slots) ∨
          limit < pool.budget.count + item.weight ∧
            ∃ fault, pool.charge item = .error fault ∧ pool.budget.Refuses item fault ∧
              (Step.charge item).after pool = pool) ∧
      (∀ name items, items.Perm (pool.get name).items → pool.budget.Covers items) ∧
      (∀ item ∈ lent, item.weight ≤ pool.budget.count) ∧
      pool.budget.Covers (pool.heldItems ++ lent) ∧
      (lent.foldl Budget.release pool.dropAll).count = 0 := by
  have haccounted := h.accounted
  have hcount := haccounted.count_eq
  refine ⟨haccounted.limit_eq, hcount, haccounted.count_le, haccounted.push_cases hword,
    haccounted.charge_cases hword, ?held, ?loans, ?all, ?empty⟩
  case held =>
    intro name items hperm
    apply Budget.covers_of_weights_le
    rw [Item.weights_perm hperm, hcount]
    exact Nat.le_trans (pool.weights_get_le name) (Nat.le_add_right _ _)
  case loans =>
    intro item hitem
    rw [hcount, Item.weights_erase hitem]
    omega
  case all =>
    apply Budget.covers_of_weights_le
    exact Nat.le_of_eq (by rw [Item.weights_append, hcount])
  case empty =>
    rw [dropAll_eq, ← List.foldl_append, Budget.count_foldl_release, Item.weights_append, hcount]
    exact Nat.sub_self _

/-- Two stacks and a charge fill a budget of four, and the next push is refused. -/
theorem count_eq_held_twoStacks :
    ∃ pool lent, Reached 4 pool lent ∧ pool.budget.count = 4 ∧ lent = [.null] ∧
      pool.budget.count = Item.weights pool.heldItems + Item.weights lent ∧
      (∃ fault, pool.push 1 .null = .error fault ∧ pool.budget.Refuses .null fault) ∧
      (lent.foldl Budget.release pool.dropAll).count = 0 := by
  have hcreated : Reached 4 _ _ :=
    .step (.create 1) (.step (.create 0) .start (by decide)) (by decide)
  have hfull : Reached 4 _ _ := .step (.push 1 .null)
    (.step (.charge .null) (.step (.push 0 (.array [.null])) hcreated trivial) trivial) trivial
  obtain ⟨-, hcount, -, hpush, -, -, -, -, hempty⟩ := count_eq_held_of_reached (by decide) hfull
  refine ⟨_, _, hfull, by decide +kernel, by decide +kernel, hcount, ?_, hempty⟩
  rcases hpush 1 .null with ⟨hfits, -⟩ | ⟨-, fault, herror, hrefuses, -⟩
  · exact absurd hfits (by decide +kernel)
  · exact ⟨fault, herror, hrefuses⟩

end StackPool

end NativeContracts
