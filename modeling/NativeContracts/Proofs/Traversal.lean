import Mathlib.Data.List.Forall2

/-! Traversals of lists that stop at the first failure. One succeeds if each element does, and
its failure is that of the first element that fails. Related lists agree in whatever related
elements have in common. -/

namespace NativeContracts

section

variable {ε α β : Type} {x : Except ε α} {f : α → Except ε β} {b : β} {error : ε}

theorem bind_eq_ok_iff : (x >>= f) = .ok b ↔ ∃ a, x = .ok a ∧ f a = .ok b := by
  rcases x with error | a
  · simp [bind, Except.bind]
  · simp [bind, Except.bind]

theorem bind_eq_error_iff :
    (x >>= f) = .error error ↔ x = .error error ∨ ∃ a, x = .ok a ∧ f a = .error error := by
  rcases x with found | a
  · simp [bind, Except.bind]
  · simp [bind, Except.bind]

end

/-! ## Related lists -/

section

variable {α β γ : Type} {R : α → β → Prop} {xs : List α} {ys : List β}

theorem exists_right_of_forall₂ (h : List.Forall₂ R xs ys) {x : α} (hx : x ∈ xs) :
    ∃ y ∈ ys, R x y := by
  induction h with
  | nil => cases hx
  | cons hfirst _ ih =>
    rcases List.mem_cons.mp hx with rfl | hx
    · exact ⟨_, List.mem_cons_self, hfirst⟩
    · obtain ⟨y, hy, hrel⟩ := ih hx
      exact ⟨y, List.mem_cons_of_mem _ hy, hrel⟩

theorem exists_left_of_forall₂ (h : List.Forall₂ R xs ys) {y : β} (hy : y ∈ ys) :
    ∃ x ∈ xs, R x y :=
  exists_right_of_forall₂ h.flip hy

theorem map_eq_of_forall₂ (h : List.Forall₂ R xs ys) {f : α → γ} {g : β → γ}
    (hfield : ∀ x y, R x y → f x = g y) : xs.map f = ys.map g := by
  rw [← List.forall₂_eq_eq_eq, List.forall₂_map_left_iff, List.forall₂_map_right_iff]
  exact h.imp hfield

end

/-! ## Success and the first failure -/

section

variable {ε α β : Type} {xs : List α} {ys : List β} {error : ε}

/-- Either all have a property, or there is a first that lacks it. -/
theorem forall_or_exists_first (p : α → Prop) (xs : List α) :
    (∀ x ∈ xs, p x) ∨ ∃ front x back, xs = front ++ x :: back ∧ (∀ y ∈ front, p y) ∧ ¬p x := by
  induction xs with
  | nil => exact .inl (List.forall_mem_nil _)
  | cons first xs ih =>
    by_cases hfirst : p first
    · rcases ih with hall | ⟨front, x, back, rfl, hfront, hx⟩
      · exact .inl (List.forall_mem_cons.mpr ⟨hfirst, hall⟩)
      · exact .inr ⟨first :: front, x, back, rfl, List.forall_mem_cons.mpr ⟨hfirst, hfront⟩, hx⟩
    · exact .inr ⟨[], first, xs, rfl, List.forall_mem_nil _, hfirst⟩

theorem forM_eq_ok_iff {f : α → Except ε Unit} :
    xs.forM f = .ok () ↔ ∀ x ∈ xs, f x = .ok () := by
  induction xs with
  | nil => simp [pure, Except.pure]
  | cons x xs ih =>
    have hcons : (x :: xs).forM f = (f x >>= fun _ => xs.forM f) := rfl
    rw [hcons, bind_eq_ok_iff, List.forall_mem_cons, ← ih]
    constructor
    · intro h
      obtain ⟨_, hx, hxs⟩ := h
      exact ⟨hx, hxs⟩
    · intro h
      exact ⟨(), h⟩

theorem mapM_eq_ok_iff {f : α → Except ε β} :
    xs.mapM f = .ok ys ↔ List.Forall₂ (fun x y => f x = .ok y) xs ys := by
  induction xs generalizing ys with
  | nil => cases ys <;> simp [pure, Except.pure]
  | cons x xs ih =>
    rw [List.mapM_cons, bind_eq_ok_iff, List.forall₂_cons_left_iff]
    simp only [bind_eq_ok_iff, ih, pure, Except.pure, Except.ok.injEq]
    constructor
    · rintro ⟨y, hfirst, rest, hrest, rfl⟩
      exact ⟨y, rest, hfirst, hrest, rfl⟩
    · rintro ⟨y, rest, hfirst, hrest, rfl⟩
      exact ⟨y, hfirst, rest, hrest, rfl⟩

/-- The first that fails, the others before it having results. -/
theorem mapM_eq_error_iff {f : α → Except ε β} :
    xs.mapM f = .error error ↔ ∃ front x back, xs = front ++ x :: back ∧
      (∀ y ∈ front, ∃ result, f y = .ok result) ∧ f x = .error error := by
  induction xs with
  | nil => simp [pure, Except.pure]
  | cons first xs ih =>
    rw [List.mapM_cons, bind_eq_error_iff]
    constructor
    · rintro (hfirst | ⟨result, hresult, hrest⟩)
      · exact ⟨[], first, xs, rfl, List.forall_mem_nil _, hfirst⟩
      · have hxs : xs.mapM f = .error error := by
          rcases bind_eq_error_iff.mp hrest with hxs | ⟨_, -, hpure⟩
          · exact hxs
          · cases hpure
        obtain ⟨front, x, back, rfl, hfront, hx⟩ := ih.mp hxs
        exact ⟨first :: front, x, back, rfl,
          List.forall_mem_cons.mpr ⟨⟨result, hresult⟩, hfront⟩, hx⟩
    · rintro ⟨_ | ⟨other, front⟩, x, back, hsplit, hfront, hx⟩
      · cases hsplit
        exact .inl hx
      · cases hsplit
        obtain ⟨⟨result, hresult⟩, hfront⟩ := List.forall_mem_cons.mp hfront
        refine .inr ⟨result, hresult, bind_eq_error_iff.mpr (.inl ?_)⟩
        exact ih.mpr ⟨front, x, back, rfl, hfront, hx⟩

theorem exists_mapM {f : α → Except ε β} (h : ∀ x ∈ xs, ∃ result, f x = .ok result) :
    ∃ results, xs.mapM f = .ok results := by
  rcases hresults : xs.mapM f with error | results
  · obtain ⟨front, x, back, rfl, -, herror⟩ := mapM_eq_error_iff.mp hresults
    obtain ⟨result, hresult⟩ := h x (by simp)
    rw [hresult] at herror
    cases herror
  · exact ⟨results, rfl⟩

end

end NativeContracts
