import NativeContracts.Proofs.SharedBudget

/-! Structs built before they are pushed. Building one asks the budget for one reference and
for what its items weigh, each on its own, and charges nothing. Pushing it walks the whole
tree and charges what the walk counts. As long as the limit is below the largest word the two
are decided alike: what is refused is refused with one fault, and what was built can be pushed
next, for just the references that were asked for. -/

namespace NativeContracts

/-- The walk over a struct counts it and all that its items weigh. -/
theorem Item.weight_struct (items : List Item) : (struct items).weight = 1 + weights items := by
  rw [weight_eq, Nat.add_comm]
  rfl

namespace Budget

variable {budget : Budget} {items : List Item}

/-- A check stops its sum at the largest word, and a charge refuses a sum past it. Below that
word the limit decides both. -/
theorem check_eq_charge (hlimit : budget.limit < largestCount) (item : Item) :
    budget.check item.weight = (budget.charge item).map fun _ => () := by
  unfold check charge
  by_cases hfits : budget.count + item.weight ≤ budget.limit
  · have hword : budget.count + item.weight ≤ largestCount :=
      Nat.le_trans hfits (Nat.le_of_lt hlimit)
    have hrequested : ¬budget.limit < min (budget.count + item.weight) largestCount := by omega
    rw [if_neg hrequested, if_pos ⟨hfits, hword⟩]
    rfl
  · have hrequested : budget.limit < min (budget.count + item.weight) largestCount := by omega
    rw [if_pos hrequested, if_neg fun h => hfits h.1]
    rfl

theorem makeStruct_eq_charge (hlimit : budget.limit < largestCount) (items : List Item) :
    budget.makeStruct items = (budget.charge (.struct items)).map fun _ => .struct items := by
  rw [makeStruct, ← Item.weight_struct, check_eq_charge hlimit]
  rcases budget.charge (.struct items) <;> rfl

end Budget

namespace StackPool

variable {pool : StackPool} {items : List Item}

/-- Either the struct is built and a push of it goes through, or both give one fault. -/
theorem makeStruct_cases (hlimit : pool.budget.limit < UInt64.size - 1) (name : Nat)
    (items : List Item) :
    pool.budget.makeStruct items = .ok (.struct items) ∧
        (∃ pushed, pool.push name (.struct items) = .ok pushed ∧
          pushed.budget =
            { pool.budget with count := pool.budget.count + (1 + Item.weights items) }) ∨
      ∃ fault, pool.budget.makeStruct items = .error fault ∧
        pool.push name (.struct items) = .error fault ∧
        pool.budget.Refuses (.struct items) fault := by
  have hmake := Budget.makeStruct_eq_charge hlimit items
  have hpush := push_eq pool name (.struct items)
  rcases pool.budget.charge_cases (.struct items) (by omega) with
    ⟨-, hcharge⟩ | ⟨-, fault, hcharge, hrefuses⟩ <;> rw [hcharge] at hmake hpush
  · rw [Item.weight_struct] at hpush
    exact .inl ⟨hmake, _, hpush, rfl⟩
  · exact .inr ⟨fault, hmake, hpush, hrefuses⟩

/-- A struct is built if and only if it could be pushed, on any stack that shares the budget. If
not, both give the same fault, with what would have been counted. Building leaves everything as
it was, and what was built can be pushed: it comes on top of its stack, no other stack changes,
and the count is raised by the weight that the budget was asked for, which the walk over the
struct finds again and a word holds. -/
theorem built_iff_pushed (hlimit : pool.budget.limit < UInt64.size - 1)
    (hitems : Item.weights items < UInt64.size - 1) (name : Nat) :
    ((∃ built, pool.budget.makeStruct items = .ok built) ↔
        ∃ pushed, pool.push name (.struct items) = .ok pushed) ∧
      (∀ fault, pool.budget.makeStruct items = .error fault ↔
        pool.push name (.struct items) = .error fault) ∧
      (∀ fault, pool.budget.makeStruct items = .error fault →
        pool.budget.Refuses (.struct items) fault) ∧
      (Step.makeStruct items).after pool = pool ∧
      (Item.struct items).weight = 1 + Item.weights items ∧
      1 + Item.weights items < UInt64.size ∧
      ∀ built, pool.budget.makeStruct items = .ok built →
        built = .struct items ∧ ∃ pushed, pool.push name built = .ok pushed ∧
          (pushed.get name).items = built :: (pool.get name).items ∧
          (∀ other, other ≠ name → pushed.get other = pool.get other) ∧
          pushed.budget.limit = pool.budget.limit ∧
          pushed.budget.count = pool.budget.count + (1 + Item.weights items) := by
  have hweight := Item.weight_struct items
  have hword : 1 + Item.weights items < UInt64.size := by omega
  rcases makeStruct_cases hlimit name items with
    ⟨hmake, pushed, hpush, hbudget⟩ | ⟨fault, hmake, hpush, hrefuses⟩ <;> rw [hmake, hpush]
  · refine ⟨⟨fun _ => ⟨_, rfl⟩, fun _ => ⟨_, rfl⟩⟩, fun _ => ⟨nofun, nofun⟩, nofun, rfl, hweight,
      hword, ?_⟩
    rintro built ⟨⟩
    obtain ⟨htop, hothers⟩ := get_push hpush
    exact ⟨rfl, pushed, hpush, htop, hothers, by rw [hbudget], by rw [hbudget]⟩
  · refine ⟨⟨nofun, nofun⟩, fun found => ?_, ?_, rfl, hweight, hword, nofun⟩
    · rw [Except.error.injEq, Except.error.injEq]
    · rintro found ⟨⟩
      exact hrefuses

/-- At the largest word the two part: a full budget passes the check of a struct that a charge
then has no room for. -/
example :
    let full : Budget := { limit := UInt64.size - 1, count := UInt64.size - 1 }
    full.makeStruct [.null] = .ok (.struct [.null]) ∧
      full.charge (.struct [.null]) =
        .error (.referenceLimitExceeded (UInt64.size - 1) (UInt64.size - 1)) := by
  decide +kernel

/-- A stack that leaves one reference of its budget. -/
def nearlyFull : StackPool :=
  { budget := { limit := 4, count := 3 }, slots := [(0, ⟨[.array [.null, .null]]⟩)] }

/-- The last reference is enough for an empty struct, and not for one with an item. -/
theorem built_iff_pushed_nearlyFull :
    nearlyFull.budget.limit < UInt64.size - 1 ∧ Item.weights [.null] < UInt64.size - 1 ∧
      nearlyFull.push 0 (.struct [.null]) = .error (.referenceLimitExceeded 5 4) ∧
      ∃ pushed, nearlyFull.push 0 (.struct []) = .ok pushed ∧ pushed.budget.count = 4 := by
  have hlimit : nearlyFull.budget.limit < UInt64.size - 1 := by decide
  have hitems : Item.weights [.null] < UInt64.size - 1 := by decide +kernel
  have hempty : Item.weights [] < UInt64.size - 1 := by decide
  obtain ⟨-, hsame, -⟩ := built_iff_pushed hlimit hitems 0
  obtain ⟨-, -, -, -, -, -, hbuilt⟩ := built_iff_pushed hlimit hempty 0
  obtain ⟨-, pushed, hpush, -, -, -, hcount⟩ := hbuilt (.struct []) (by decide +kernel)
  exact ⟨hlimit, hitems, (hsame _).mp (by decide +kernel), pushed, hpush, hcount⟩

end StackPool

end NativeContracts
