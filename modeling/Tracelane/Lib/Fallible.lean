import Mathlib.Data.List.Forall2

/- Peeling fallible computations apart. -/

namespace Except

variable {ε α β : Type} {f : α → Except ε β}

theorem bind_eq_ok_iff {x : Except ε α} {b : β} :
    (x >>= f) = .ok b ↔ ∃ a, x = .ok a ∧ f a = .ok b := by
  cases x with
  | error _ | ok _ => simp [bind, Except.bind]

theorem map_eq_ok_iff {x : Except ε α} {f : α → β} {b : β} :
    x.map f = .ok b ↔ ∃ a, x = .ok a ∧ f a = b := by
  cases x with
  | error _ | ok _ => simp [Except.map]

/- A loop that succeeds succeeds at every item. -/
theorem mapM_eq_ok_iff {xs : List α} {ys : List β} :
    xs.mapM f = .ok ys ↔ List.Forall₂ (fun x y => f x = .ok y) xs ys := by
  induction xs generalizing ys with
  | nil =>
    cases ys with
    | nil | cons _ _ => simp [pure, Except.pure]
  | cons x xs ih =>
    rw [List.mapM_cons, bind_eq_ok_iff]
    simp only [bind_eq_ok_iff, ih, pure, Except.pure, Except.ok.injEq, List.forall₂_cons_left_iff]
    constructor
    · rintro ⟨y, hY, rest, hRest, rfl⟩
      exact ⟨y, rest, hY, hRest, rfl⟩
    · rintro ⟨y, rest, hY, hRest, rfl⟩
      exact ⟨y, hY, rest, hRest, rfl⟩

end Except

/- A loop that succeeds at every item succeeds. -/
theorem Option.mapM_of_forall₂ {α β : Type} {f : α → Option β} {xs : List α} {ys : List β}
    (hRel : List.Forall₂ (fun x y => f x = some y) xs ys) :
    xs.mapM f = some ys := by
  induction hRel with
  | nil => rfl
  | cons hHead _ ih =>
    rw [List.mapM_cons, hHead, ih]
    rfl
