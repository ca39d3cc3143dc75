import Mathlib.Data.List.Basic

/-
  Walks that hand items to a stateful visitor, which may stop them, and that may fail on the way.

  A walk is determined by the list of what it would hand over: an item, or `none` where it fails.
-/

/- A visitor answers each item with whether to stop. -/
abbrev Visitor (σ α : Type) :=
  α → σ → σ × Bool

/- What a walk leaves: nothing, if it failed. -/
abbrev Visit (σ : Type) :=
  Option (σ × Bool)

namespace Visit

variable {σ α : Type}

/- Go on unless the walk failed or was stopped. -/
def orElse (r : Visit σ) (next : σ → Visit σ) : Visit σ :=
  match r with
  | none => none
  | some (s, true) => some (s, true)
  | some (s, false) => next s

@[simp] theorem orElse_go (s : σ) (next : σ → Visit σ) :
    orElse (some (s, false)) next = next s :=
  rfl

theorem orElse_assoc (r : Visit σ) (next last : σ → Visit σ) :
    orElse (orElse r next) last = orElse r (fun s => orElse (next s) last) := by
  rcases r with _ | ⟨s, _ | _⟩ <;> rfl

@[simp] theorem orElse_done (r : Visit σ) :
    orElse r (fun s => some (s, false)) = r := by
  rcases r with _ | ⟨s, _ | _⟩ <;> rfl

/- Hand the items of a list over. -/
def feed (f : Visitor σ α) : List (Option α) → σ → Visit σ
| [], s => some (s, false)
| none :: _, _ => none
| some a :: rest, s => orElse (some (f a s)) (feed f rest)

variable (f : Visitor σ α)

@[simp] theorem feed_nil (s : σ) :
    feed f [] s = some (s, false) :=
  rfl

theorem feed_append (xs ys : List (Option α)) (s : σ) :
    feed f (xs ++ ys) s = orElse (feed f xs s) (feed f ys) := by
  induction xs generalizing s with
  | nil => rfl
  | cons x xs ih =>
    cases x with
    | none => rfl
    | some a =>
      simp only [List.cons_append, feed]
      rw [orElse_assoc]
      exact congrArg _ (funext ih)

--
-- Recording
--

/- The visitor that keeps every item and never stops. -/
def record : Visitor (List α) α :=
  fun a seen => (seen ++ [a], false)

variable {xs : List (Option α)}

theorem feed_record (hGoes : none ∉ xs) (seen : List α) :
    feed record xs seen = some (seen ++ xs.filterMap id, false) := by
  induction xs generalizing seen with
  | nil => simp
  | cons x xs ih =>
    cases x with
    | none => simp at hGoes
    | some a =>
      have hRest : none ∉ xs := by
        intro hMem
        exact hGoes (List.mem_cons_of_mem _ hMem)
      simp [feed, record, ih hRest]

theorem feed_record_fails (hFails : none ∈ xs) (seen : List α) :
    feed record xs seen = none := by
  induction xs generalizing seen with
  | nil => simp at hFails
  | cons x xs ih =>
    cases x with
    | none => rfl
    | some a =>
      have hRest : none ∈ xs := by simpa using hFails
      simp [feed, record, ih hRest]

/- No visitor sees a failure in a list without one. -/
theorem feed_isSome (hGoes : none ∉ xs) (s : σ) :
    (feed f xs s).isSome := by
  induction xs generalizing s with
  | nil => rfl
  | cons x xs ih =>
    cases x with
    | none => simp at hGoes
    | some a =>
      have hRest : none ∉ xs := by
        intro hMem
        exact hGoes (List.mem_cons_of_mem _ hMem)
      rcases hStop : f a s with ⟨s', _ | _⟩
      · simpa [feed, hStop] using ih hRest s'
      · simp [feed, hStop, orElse]

end Visit
