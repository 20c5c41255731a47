import Mathlib.Data.List.Induction
import NativeContracts.Proofs.Reader
import NativeContracts.Proofs.SharedBudget

/-! What a stack holds and how it is looked at. Whatever is done to the stacks of a pool, each
holds the items that were pushed on it and not taken since, in order. Since every item is charged
for, there are fewer of them than a word counts, and a look at any depth finds its place from the
bottom without leaving the words. Only the refusal at the largest depth does: it would say one
more than a word holds, so a look there breaks off and gives no answer at all. -/

namespace NativeContracts

/-! ## Looking by place -/

namespace Stack

open Item.Reader (subtract)

variable {stack : Stack} {depth : UInt64}

def itemAt (items : List Item) (place : Nat) : Checked Item :=
  match items[place]? with
  | some item => .ok item
  | none => .error .outOfRange

/-- The item `depth` places below the top, by its place from the bottom. Every number is checked
to be a word, and the place to be on the stack. -/
def look (stack : Stack) (depth : UInt64) : Checked Item := do
  let length ← Checked.word stack.length
  if length ≤ depth.toNat then
    let requested ← Checked.word (depth.toNat + 1)
    .error (.fault (.stackUnderflow requested length))
  else
    let last ← subtract length 1
    let place ← subtract last depth.toNat
    itemAt stack.toList place

theorem peek_of_le (h : stack.length ≤ depth.toNat) :
    stack.peek depth = Checked.word (depth.toNat + 1) >>= fun requested =>
      .error (.fault (.stackUnderflow requested stack.length)) := by
  rw [peek, List.getElem?_eq_none h]
  rfl

/-- A look within the stack finds the item with just so many above it. -/
theorem peek_of_lt (h : depth.toNat < stack.length) :
    ∃ below item above, stack.toList = below ++ item :: above ∧
      above.length = depth.toNat ∧ stack.peek depth = .ok item := by
  obtain ⟨items⟩ := stack
  replace h : depth.toNat < items.length := h
  have hsplit : items =
      items.take depth.toNat ++ items[depth.toNat] :: items.drop (depth.toNat + 1) := by
    rw [← List.drop_eq_getElem_cons h, List.take_append_drop]
  refine ⟨(items.drop (depth.toNat + 1)).reverse, items[depth.toNat],
    (items.take depth.toNat).reverse, ?_, ?_, ?_⟩
  · refine (congrArg List.reverse hsplit).trans ?_
    rw [List.reverse_append, List.reverse_cons, List.append_assoc, List.singleton_append]
  · rw [List.length_reverse, List.length_take]
    exact Nat.min_eq_left (Nat.le_of_lt h)
  · rw [peek, List.getElem?_eq_getElem h]

theorem look_of_lt (hlength : stack.length < UInt64.size) (h : depth.toNat < stack.length) :
    stack.look depth = stack.peek depth := by
  obtain ⟨below, item, above, hitems, habove, hpeek⟩ := peek_of_lt h
  have hplace : stack.length - 1 - depth.toNat = below.length := by
    rw [← habove, length, ← List.length_reverse, ← toList, hitems, List.length_append,
      List.length_cons]
    omega
  have hfound : itemAt stack.toList (stack.length - 1 - depth.toNat) = .ok item := by
    rw [itemAt, hplace, hitems, List.getElem?_append_right (Nat.le_refl _), Nat.sub_self,
      List.getElem?_cons_zero]
  have hlast : subtract stack.length 1 = .ok (stack.length - 1) := if_pos (by omega)
  have hindex : subtract (stack.length - 1) depth.toNat = .ok (stack.length - 1 - depth.toNat) :=
    if_pos (by omega)
  rw [look, Checked.word, if_pos hlength]
  refine (if_neg (Nat.not_le_of_lt h)).trans ?_
  rw [hlast, hpeek]
  exact (congrArg (· >>= itemAt stack.toList) hindex).trans hfound

/-- Checking every number changes nothing, since `peek` checks the one that can leave the words. -/
theorem look_eq_peek (hlength : stack.length < UInt64.size) (depth : UInt64) :
    stack.look depth = stack.peek depth := by
  rcases Nat.lt_or_ge depth.toNat stack.length with hwithin | hpast
  · exact look_of_lt hlength hwithin
  · rw [peek_of_le hpast, look, Checked.word, if_pos hlength]
    exact if_pos hpast

theorem peek_of_le_of_lt (h : stack.length ≤ depth.toNat) (hsum : depth.toNat + 1 < UInt64.size) :
    stack.peek depth = .error (.fault (.stackUnderflow (depth.toNat + 1) stack.length)) := by
  rw [peek_of_le h, Checked.word, if_pos hsum]
  rfl

/-- One more than the largest depth is no word, and no stack is so deep. -/
theorem peek_largest (hlength : stack.length < UInt64.size) (h : depth.toNat + 1 = UInt64.size) :
    stack.peek depth = .error .outOfRange := by
  have hpast : stack.length ≤ depth.toNat := by omega
  rw [peek_of_le hpast, h, Checked.word, if_neg (Nat.lt_irrefl _)]
  rfl

end Stack

namespace StackPool

variable {pool : StackPool} {slots : List (Nat × Stack)} {name other : Nat} {stack : Stack}
  {item : Item} {lent : List Item} {limit : Nat}

/-! ## Events on one stack -/

inductive Event where
  | pushed (item : Item)
  | popped
  | cleared
  deriving DecidableEq

namespace Event

def isPush : Event → Bool
  | pushed _ => true
  | popped | cleared => false

def isPop : Event → Bool
  | popped => true
  | pushed _ | cleared => false

def apply (contents : List Item) : Event → List Item
  | pushed item => contents ++ [item]
  | popped => contents.dropLast
  | cleared => []

end Event

def pushes (events : List Event) : Nat := events.countP (·.isPush)

def pops (events : List Event) : Nat := events.countP (·.isPop)

/-- The events take nothing away that was there before them: they clear nothing, and at no time
have they popped more than they pushed. -/
def Spare (later : List Event) : Prop :=
  .cleared ∉ later ∧ ∀ first, first <+: later → pops first ≤ pushes first

instance (later : List Event) : Decidable (Spare later) :=
  decidable_of_iff
    (.cleared ∉ later ∧ ∀ n ≤ later.length, pops (later.take n) ≤ pushes (later.take n)) <|
    and_congr_right fun _ => by
      constructor
      · intro h first hfirst
        rw [List.prefix_iff_eq_take.mp hfirst]
        exact h _ hfirst.length_le
      · intro h n _
        exact h _ (List.take_prefix n later)

/-- The items pushed and not taken since, the first one first. -/
def outstanding : List Event → List Item
  | [] => []
  | .pushed item :: later => if Spare later then item :: outstanding later else outstanding later
  | .popped :: later | .cleared :: later => outstanding later

theorem pushes_concat (events : List Event) (event : Event) :
    pushes (events ++ [event]) = pushes events + if event.isPush then 1 else 0 := by
  rw [pushes, List.countP_append, List.countP_singleton, pushes]

theorem pops_concat (events : List Event) (event : Event) :
    pops (events ++ [event]) = pops events + if event.isPop then 1 else 0 := by
  rw [pops, List.countP_append, List.countP_singleton, pops]

theorem Spare.pops_le {later : List Event} (h : Spare later) : pops later ≤ pushes later :=
  h.2 later (List.prefix_refl later)

theorem spare_concat {later : List Event} {event : Event} :
    Spare (later ++ [event]) ↔ Spare later ∧ event ≠ .cleared ∧
      pops (later ++ [event]) ≤ pushes (later ++ [event]) := by
  constructor
  · intro h
    refine ⟨⟨fun hmem => h.1 (List.mem_append_left _ hmem), fun first hfirst => ?_⟩, ?_, h.pops_le⟩
    · exact h.2 first (hfirst.trans (List.prefix_append _ _))
    · rintro rfl
      exact h.1 (List.mem_append_right _ (List.mem_singleton_self _))
  · rintro ⟨hlater, hevent, hcount⟩
    constructor
    · intro hmem
      rcases List.mem_append.mp hmem with hmem | hmem
      · exact hlater.1 hmem
      · exact hevent (List.mem_singleton.mp hmem).symm
    · intro first hfirst
      rcases List.prefix_concat_iff.mp hfirst with rfl | hfirst
      · exact hcount
      · exact hlater.2 first hfirst

theorem spare_concat_pushed {later : List Event} {item : Item} :
    Spare (later ++ [.pushed item]) ↔ Spare later := by
  rw [spare_concat, pushes_concat, pops_concat]
  refine ⟨fun h => h.1, fun h => ⟨h, nofun, ?_⟩⟩
  exact Nat.le_succ_of_le h.pops_le

theorem spare_concat_popped {later : List Event} :
    Spare (later ++ [.popped]) ↔ Spare later ∧ pops later < pushes later := by
  rw [spare_concat, pushes_concat, pops_concat]
  exact ⟨fun h => ⟨h.1, h.2.2⟩, fun h => ⟨h.1, nofun, h.2⟩⟩

theorem not_spare_concat_cleared (later : List Event) : ¬Spare (later ++ [.cleared]) := by
  rw [spare_concat]
  exact fun h => h.2.1 rfl

/-- What events make of the contents they begin with. -/
def replay (contents : List Item) (events : List Event) : List Item :=
  events.foldl Event.apply contents

theorem replay_concat (contents : List Item) (events : List Event) (event : Event) :
    replay contents (events ++ [event]) = event.apply (replay contents events) := by
  rw [replay, List.foldl_append]
  rfl

/-- Spare events leave on an empty stack what they pushed more than they popped. -/
theorem Spare.length_replay {later : List Event} (h : Spare later) :
    (replay [] later).length + pops later = pushes later := by
  induction later using List.reverseRecOn with
  | nil => rfl
  | append_singleton later event ih =>
    rw [replay_concat, pushes_concat, pops_concat]
    cases event with
    | pushed item =>
      have hlength := ih (spare_concat_pushed.mp h)
      rw [Event.apply, List.length_append, List.length_singleton]
      show _ + 1 + pops later = pushes later + 1
      omega
    | popped =>
      obtain ⟨hlater, hcount⟩ := spare_concat_popped.mp h
      have hlength := ih hlater
      rw [Event.apply, List.length_dropLast]
      show _ - 1 + (pops later + 1) = pushes later
      omega
    | cleared => exact absurd h (not_spare_concat_cleared later)

/-- Spare events leave what was there alone. -/
theorem Spare.replay_eq {later : List Event} (h : Spare later) (contents : List Item) :
    replay contents later = contents ++ replay [] later := by
  induction later using List.reverseRecOn with
  | nil => exact (List.append_nil contents).symm
  | append_singleton later event ih =>
    rw [replay_concat, replay_concat]
    cases event with
    | pushed item =>
      rw [ih (spare_concat_pushed.mp h)]
      exact List.append_assoc _ _ _
    | popped =>
      obtain ⟨hlater, hcount⟩ := spare_concat_popped.mp h
      have hlength := hlater.length_replay
      rw [ih hlater]
      refine List.dropLast_append_of_ne_nil fun hnil => ?_
      rw [hnil, List.length_nil] at hlength
      omega
    | cleared => exact absurd h (not_spare_concat_cleared later)

/-- Events that are not spare take an item that was there alone. -/
theorem replay_eq_of_not_spare {later : List Event} (h : ¬Spare later) (item : Item) :
    replay [item] later = replay [] later := by
  induction later using List.reverseRecOn with
  | nil => exact absurd (by decide) h
  | append_singleton later event ih =>
    rw [replay_concat, replay_concat]
    by_cases hlater : Spare later
    · cases event with
      | pushed other => exact absurd (spare_concat_pushed.mpr hlater) h
      | popped =>
        -- All that was pushed is popped, so this pop takes the item below.
        have hcount : ¬pops later < pushes later := fun hcount =>
          h (spare_concat_popped.mpr ⟨hlater, hcount⟩)
        have hlength := hlater.length_replay
        have hnil : replay [] later = [] := List.eq_nil_of_length_eq_zero (by omega)
        rw [hlater.replay_eq, hnil]
        rfl
      | cleared => rfl
    · rw [ih hlater]

theorem replay_eq_outstanding (events : List Event) : replay [] events = outstanding events := by
  induction events with
  | nil => rfl
  | cons event later ih =>
    cases event with
    | pushed item =>
      rw [outstanding, ← ih]
      split
      · next h => exact h.replay_eq [item]
      · next h => exact replay_eq_of_not_spare h item
    | popped | cleared => exact ih

/-- The first pop takes the second item and the next one the third; the fourth comes after. -/
example : outstanding [.pushed (.integer 1), .pushed (.integer 2), .popped, .pushed (.integer 3),
    .popped, .pushed (.integer 4)] = [.integer 1, .integer 4] := by
  decide

/-! ## What steps do to one stack -/

/-- What the step does to the stack `name`. A step that is refused does nothing, and so does a
step on another stack. -/
def Step.events (pool : StackPool) (name : Nat) : Step → List Event
  | push other item => if other = name ∧ (pool.push other item).isOk then [.pushed item] else []
  | pop other => if other = name ∧ (pool.pop other).isOk then [.popped] else []
  | create other | clear other | drop other => if other = name then [.cleared] else []
  | peek _ _ | makeStruct _ | check _ | charge _ | release _ => []

/-- The pools that steps lead to, as in `Reached`, with the events on the stack `name`. -/
inductive Recorded (limit name : Nat) : StackPool → List Item → List Event → Prop
  | start : Recorded limit name { budget := { limit } } [] []
  | step {pool : StackPool} {lent : List Item} {events : List Event} (step : Step)
      (h : Recorded limit name pool lent events) (hallowed : step.Allowed pool lent) :
      Recorded limit name (step.after pool) (step.lentAfter pool lent)
        (events ++ step.events pool name)

theorem Recorded.reached {events : List Event} (h : Recorded limit name pool lent events) :
    Reached limit pool lent := by
  induction h with
  | start => exact .start
  | step step _ hallowed ih => exact .step step ih hallowed

theorem Reached.exists_recorded (h : Reached limit pool lent) (name : Nat) :
    ∃ events, Recorded limit name pool lent events := by
  induction h with
  | start => exact ⟨_, .start⟩
  | step step _ hallowed ih =>
    obtain ⟨events, hrecorded⟩ := ih
    exact ⟨_, .step step hrecorded hallowed⟩

theorem get_replace (pool : StackPool) (budget : Budget) (name other : Nat) (stack : Stack) :
    (StackPool.mk budget (replace other stack pool.slots)).get name =
      if other = name then stack else pool.get name := by
  split
  · next h =>
    subst h
    rw [get, lookup_replace_self, Option.getD_some]
  · next h => rw [get, lookup_replace_of_ne (Ne.symm h), get]

theorem lookup_filter_ne (slots : List (Nat × Stack)) (name other : Nat) :
    (slots.filter (·.1 ≠ other)).lookup name =
      if other = name then none else slots.lookup name := by
  induction slots with
  | nil => simp
  | cons slot slots ih =>
    obtain ⟨label, old⟩ := slot
    by_cases hlabel : label = other
    · subst hlabel
      rw [List.filter_cons_of_neg (by simp), ih, List.lookup_cons]
      split
      · rfl
      · next hname => rw [beq_false_of_ne (Ne.symm hname)]
    · rw [List.filter_cons_of_pos (by simpa using hlabel), List.lookup_cons, ih, List.lookup_cons]
      by_cases hname : other = name
      · subst hname
        rw [beq_false_of_ne (Ne.symm hlabel), if_pos rfl]
      · rw [if_neg hname, if_neg hname]

theorem toList_push (items : List Item) (item : Item) :
    (Stack.mk (item :: items)).toList = (Stack.mk items).toList ++ [item] :=
  List.reverse_cons

/-- A step changes a stack by its events. -/
theorem Step.toList_after (step : Step) (pool : StackPool) (name : Nat) :
    ((step.after pool).get name).toList =
      replay (pool.get name).toList (step.events pool name) := by
  cases step with
  | push other item =>
    rw [after, events, push_eq]
    rcases pool.budget.charge item with fault | budget
    · rw [if_neg (by rintro ⟨-, h⟩; cases h)]
      rfl
    · refine (congrArg Stack.toList (get_replace pool budget name other _)).trans ?_
      by_cases h : other = name
      · subst h
        rw [if_pos rfl, if_pos ⟨rfl, rfl⟩]
        exact toList_push _ item
      · rw [if_neg h, if_neg fun hpushed => h hpushed.1]
        rfl
  | pop other =>
    rw [after, events]
    rcases pool.pop_cases other with ⟨-, hpop⟩ | ⟨item, rest, hitems, hpop⟩ <;> rw [hpop]
    · rw [if_neg (by rintro ⟨-, h⟩; cases h)]
      rfl
    · refine (congrArg Stack.toList (get_replace pool _ name other _)).trans ?_
      by_cases h : other = name
      · subst h
        rw [if_pos rfl, if_pos ⟨rfl, rfl⟩]
        have hcontents : (pool.get other).toList = (Stack.mk rest).toList ++ [item] := by
          rw [← toList_push, ← hitems]
        rw [hcontents]
        exact List.dropLast_concat.symm
      · rw [if_neg h, if_neg fun hpopped => h hpopped.1]
        rfl
  | create other | clear other =>
    rw [events]
    refine (congrArg Stack.toList (get_replace pool _ name other _)).trans ?_
    split <;> rfl
  | drop other =>
    rw [events]
    refine (congrArg (fun found => (Option.getD found {} : Stack).toList)
      (lookup_filter_ne pool.slots name other)).trans ?_
    split <;> rfl
  | charge item =>
    rw [after, events, charge_eq]
    rcases pool.budget.charge item <;> rfl
  | peek | makeStruct | check | release => rfl

theorem Recorded.toList_eq {events : List Event} (h : Recorded limit name pool lent events) :
    (pool.get name).toList = outstanding events := by
  rw [← replay_eq_outstanding]
  induction h with
  | start => rfl
  | step step _ _ ih => rw [Step.toList_after, ih, replay, replay, replay, List.foldl_append]

/-! ## Range -/

/-- Each item on a stack is charged for, so a word counts them. -/
theorem Reached.length_lt (h : Reached limit pool lent) (hword : limit < UInt64.size)
    (name : Nat) : (pool.get name).length < UInt64.size :=
  calc (pool.get name).length
      ≤ Item.nodeCounts (pool.get name).items := Item.length_le_nodeCounts _
    _ = Item.weights (pool.get name).items := (Item.weights_eq_nodeCounts _).symm
    _ ≤ Item.weights pool.heldItems := pool.weights_get_le name
    _ ≤ pool.budget.count := h.accounted.count_eq ▸ Nat.le_add_right _ _
    _ ≤ limit := h.accounted.count_le
    _ < UInt64.size := hword

theorem pop_of_empty (h : (pool.get name).toList = []) :
    pool.pop name = .error (.stackUnderflow 1 0) ∧ (Step.pop name).after pool = pool := by
  rcases pool.pop_cases name with ⟨-, hpop⟩ | ⟨item, rest, hitems, -⟩
  · rw [Step.after, hpop]
    exact ⟨rfl, rfl⟩
  · rw [Stack.toList, List.reverse_eq_nil_iff, hitems] at h
    cases h

theorem pop_of_concat {rest : List Item} (h : (pool.get name).toList = rest ++ [item]) :
    ∃ popped, pool.pop name = .ok (item, popped) ∧ (popped.get name).toList = rest ∧
      ∀ other, other ≠ name → popped.get other = pool.get other := by
  rw [Stack.toList, List.reverse_eq_iff, List.reverse_append] at h
  rcases pool.pop_cases name with ⟨hitems, -⟩ | ⟨top, below, hitems, hpop⟩
  · rw [hitems] at h
    cases h
  · rw [hitems] at h
    cases h
    refine ⟨_, hpop, ?_, fun other hother => ?_⟩
    · rw [get_replace, if_pos rfl]
      exact List.reverse_reverse rest
    · rw [get_replace, if_neg (Ne.symm hother)]

/-- A stack holds what was pushed on it and not taken since, in order. A look finds the item with
just so many above it, or says what was requested and how many there are; its place and these
numbers are words. At the largest depth alone one of them is not, and nothing is answered. A pop
takes the item that came last, or changes nothing. -/
theorem access_unless_largest_depth (hword : limit < UInt64.size) (h : Reached limit pool lent)
    (name : Nat) :
    (∃ events, Recorded limit name pool lent events) ∧
      (∀ events, Recorded limit name pool lent events →
        (pool.get name).toList = outstanding events) ∧
      (∀ depth : UInt64, depth.toNat < (pool.get name).length →
        ∃ below item above, (pool.get name).toList = below ++ item :: above ∧
          above.length = depth.toNat ∧ pool.peek name depth = .ok item) ∧
      (∀ depth : UInt64, (pool.get name).length ≤ depth.toNat →
        depth.toNat + 1 < UInt64.size →
          pool.peek name depth =
            .error (.fault (.stackUnderflow (depth.toNat + 1) (pool.get name).length))) ∧
      (∀ depth : UInt64, (pool.get name).look depth = pool.peek name depth) ∧
      (∀ depth : UInt64, depth.toNat + 1 = UInt64.size →
        pool.peek name depth = .error .outOfRange) ∧
      ((pool.get name).toList = [] →
        pool.pop name = .error (.stackUnderflow 1 0) ∧ (Step.pop name).after pool = pool) ∧
      ∀ rest item, (pool.get name).toList = rest ++ [item] →
        ∃ popped, pool.pop name = .ok (item, popped) ∧ (popped.get name).toList = rest ∧
          ∀ other, other ≠ name → popped.get other = pool.get other := by
  have hlength := h.length_lt hword name
  exact ⟨h.exists_recorded name, fun events hrecorded => hrecorded.toList_eq,
    fun depth hdepth => Stack.peek_of_lt hdepth,
    fun depth hdepth hsum => Stack.peek_of_le_of_lt hdepth hsum,
    fun depth => Stack.look_eq_peek hlength depth,
    fun depth hsum => Stack.peek_largest hlength hsum, pop_of_empty,
    fun rest item hcontents => pop_of_concat hcontents⟩

/-- A stack that is full after two pushes, so that a third is refused and leaves no event. -/
theorem exists_recorded_full :
    ∃ pool lent, Recorded 3 0 pool lent [.pushed .null, .pushed (.array [.null])] := by
  have hrun : Recorded 3 0 _ _ _ :=
    .step (.push 0 .null) (.step (.push 0 (.array [.null])) (.step (.push 0 .null) .start trivial)
      trivial) trivial
  refine ⟨_, _, Eq.subst (motive := Recorded 3 0 _ _) ?_ hrun⟩
  decide +kernel

/-- The array came last, so it is popped first, and what is below it is one place away. -/
theorem access_unless_largest_depth_full :
    ∃ pool lent, Reached 3 pool lent ∧ 3 < UInt64.size ∧
      (pool.get 0).toList = [.null, .array [.null]] ∧ pool.peek 0 1 = .ok .null ∧
      pool.peek 0 18446744073709551614 =
        .error (.fault (.stackUnderflow 18446744073709551615 2)) ∧
      pool.peek 0 18446744073709551615 = .error .outOfRange ∧
      ∃ popped, pool.pop 0 = .ok (.array [.null], popped) ∧ (popped.get 0).toList = [.null] := by
  obtain ⟨pool, lent, hrun⟩ := exists_recorded_full
  have hword : 3 < UInt64.size := by decide
  obtain ⟨-, hcontents, hwithin, hpast, -, hlargest, -, hpop⟩ :=
    access_unless_largest_depth hword hrun.reached 0
  have hheld : (pool.get 0).toList = [.null, .array [.null]] :=
    (hcontents _ hrun).trans (by decide +kernel)
  have hlength : (pool.get 0).length = 2 := by
    rw [Stack.length, ← List.length_reverse, ← Stack.toList, hheld]
    rfl
  rw [hlength] at hwithin hpast
  obtain ⟨below, item, above, hsplit, habove, hpeek⟩ := hwithin 1 (by decide)
  obtain ⟨popped, hpopped, hrest, -⟩ := hpop [.null] (.array [.null]) hheld
  have hitems : [] ++ [Item.null, .array [.null]] = below ++ item :: above :=
    hheld.symm.trans hsplit
  -- One item is above the one that is found, so nothing is below it.
  cases (List.append_inj' hitems (congrArg (· + 1) habove.symm)).2
  exact ⟨pool, lent, hrun.reached, hword, hheld, hpeek, hpast _ (by decide) (by decide),
    hlargest _ rfl, popped, hpopped, hrest⟩

/-- A look at a stack of one item gives no answer at the largest depth, not even how many items
were requested. -/
theorem peek_largest_not_underflow :
    ∃ pool lent, Reached 2048 pool lent ∧ (pool.get 0).toList = [.null] ∧
      pool.peek 0 18446744073709551615 = .error .outOfRange ∧
      ∀ requested available, pool.peek 0 18446744073709551615 ≠
        .error (.fault (.stackUnderflow requested available)) := by
  have hreached : Reached 2048 _ _ := .step (.push 0 .null) .start trivial
  have hpeek : ((Step.push 0 .null).after { budget := { limit := 2048 } }).peek 0
      18446744073709551615 = .error .outOfRange := by decide +kernel
  refine ⟨_, _, hreached, by decide +kernel, hpeek, fun requested available hfound => ?_⟩
  cases hpeek.symm.trans hfound

end StackPool

end NativeContracts
