import Mathlib.Data.List.Basic
import Mathlib.Logic.Function.Basic

/-
  Labelled runs: a state carried along a list of labels by a step relation.

  The same notion serves a transition system, whose labels are its events, and a chain of records,
  whose state is what the next record must continue.
-/

namespace Transition

open List Option

variable {σ τ α β γ : Type}

inductive Run (step : σ → α → σ → Prop) :
    σ → List α → σ → Prop
| nil (s : σ) : Run step s [] s
| cons {s u t : σ} {x : α} {xs : List α}
    (hStep : step s x u)
    (hRest : Run step u xs t) : Run step s (x :: xs) t

namespace Run

variable {step : σ → α → σ → Prop} {s t u : σ} {x : α} {xs ys : List α}

@[simp] theorem nil_iff :
    Run step s [] t ↔ s = t := by
  constructor
  · intro hRun
    cases hRun
    rfl
  · rintro rfl
    exact .nil s

theorem cons_iff :
    Run step s (x :: xs) t ↔ ∃ u, step s x u ∧ Run step u xs t := by
  constructor
  · intro hRun
    cases hRun with
    | cons hStep hRest => exact ⟨_, hStep, hRest⟩
  · rintro ⟨u, hStep, hRest⟩
    exact .cons hStep hRest

--
-- Composition
--

theorem append (hFirst : Run step s xs u) (hSecond : Run step u ys t) :
    Run step s (xs ++ ys) t := by
  induction hFirst with
  | nil => exact hSecond
  | cons hStep _ ih => exact .cons hStep (ih hSecond)

theorem append_iff :
    Run step s (xs ++ ys) t ↔ ∃ u, Run step s xs u ∧ Run step u ys t := by
  constructor
  · intro hRun
    induction xs generalizing s with
    | nil => exact ⟨s, .nil s, hRun⟩
    | cons x xs ih =>
      rcases cons_iff.mp hRun with ⟨v, hStep, hRest⟩
      rcases ih hRest with ⟨u, hFirst, hSecond⟩
      exact ⟨u, .cons hStep hFirst, hSecond⟩
  · rintro ⟨u, hFirst, hSecond⟩
    exact hFirst.append hSecond

variable {next : σ → α → Option σ}

/- Executing a step function is a run of it. -/
theorem of_foldlM (hFold : xs.foldlM next s = some t) :
    Run (fun s x t => next s x = some t) s xs t := by
  induction xs generalizing s with
  | nil =>
    simp only [foldlM_nil, Option.pure_def, Option.some.injEq] at hFold
    exact nil_iff.mpr hFold
  | cons x xs ih =>
    rw [foldlM_cons] at hFold
    rcases bind_eq_some_iff.mp hFold with ⟨u, hNext, hRest⟩
    exact .cons hNext (ih hRest)

--
-- Rules
--

/- What every step keeps, every run keeps. -/
theorem invariant {Inv : σ → Prop}
    (hKeeps : ∀ s x t, Inv s → step s x t → Inv t) (hRun : Run step s xs t) (hStart : Inv s) :
    Inv t := by
  induction hRun with
  | nil => exact hStart
  | cons hStep _ ih => exact ih (hKeeps _ _ _ hStart hStep)

/- What each step does to a view, a run does in order. -/
theorem foldl_view (view : σ → β) (act : β → α → β)
    (hStep : ∀ s x t, step s x t → view t = act (view s) x) (hRun : Run step s xs t) :
    view t = xs.foldl act (view s) := by
  induction hRun with
  | nil => rfl
  | @cons s u t x xs hFirst _ ih =>
    rw [ih, hStep s x u hFirst, foldl_cons]

/-
  Each label of a run is a step from the state its
  predecessor reached, the first from the initial state.
-/
theorem getElem?_step (hRun : Run step s xs t) {i : Nat} (hAt : xs[i]? = some x) :
    ∃ u v, step u x v ∧ (i = 0 → u = s) ∧ ∀ j, i = j + 1 → ∃ y w, xs[j]? = some y ∧ step w y u := by
  induction hRun generalizing i with
  | nil => simp at hAt
  | @cons s u t y xs hStep _ ih =>
    cases i with
    | zero =>
      simp only [getElem?_cons_zero, some.injEq] at hAt
      subst hAt
      exact ⟨s, u, hStep, fun _ => rfl, by simp⟩
    | succ i =>
      rw [getElem?_cons_succ] at hAt
      rcases ih hAt with ⟨v, w, hHere, hFirst, hBefore⟩
      refine ⟨v, w, hHere, by simp, ?_⟩
      intro j hj
      cases j with
      | zero =>
        have hZero : i = 0 := by omega
        exact ⟨y, s, by simp, hFirst hZero ▸ hStep⟩
      | succ j =>
        rcases hBefore j (by omega) with ⟨z, w', hAt', hStep'⟩
        exact ⟨z, w', by simpa using hAt', hStep'⟩

/- Weaken the step relation on the labels of the run. -/
theorem mono {step' : σ → α → σ → Prop} (hRun : Run step s xs t)
    (hWeaken : ∀ s t, ∀ x ∈ xs, step s x t → step' s x t) :
    Run step' s xs t := by
  induction hRun with
  | nil => exact .nil _
  | cons hStep _ ih =>
    refine .cons (hWeaken _ _ _ (by simp) hStep) (ih ?_)
    intro s t x hMem
    exact hWeaken s t x (mem_cons_of_mem _ hMem)

variable {allowed : σ → α → Bool}

/- Executing only the steps a check allows. -/
theorem of_foldlM_guard
    (hFold :
      xs.foldlM (fun s x => if allowed s x then next s x else none) s = some t) :
    Run (fun s x t => allowed s x ∧ next s x = some t) s xs t := by
  apply (of_foldlM hFold).mono
  intro s t x _ hStep
  split at hStep
  · rename_i hAllowed
    exact ⟨hAllowed, hStep⟩
  · cases hStep

/- A run found by executing, its end checked by evaluation. -/
theorem eval {P : σ → Prop} (hEnd : ∃ t ∈ xs.foldlM next s, P t) :
    ∃ t, Run (fun s x t => next s x = some t) s xs t ∧ P t := by
  rcases hEnd with ⟨t, hFold, hHolds⟩
  exact ⟨t, of_foldlM hFold, hHolds⟩

theorem eval_guard {P : σ → Prop}
    (hEnd : ∃ t ∈ xs.foldlM (fun s x => if allowed s x then next s x else none) s, P t) :
    ∃ t, Run (fun s x t => allowed s x ∧ next s x = some t) s xs t ∧ P t := by
  rcases hEnd with ⟨t, hFold, hHolds⟩
  exact ⟨t, of_foldlM_guard hFold, hHolds⟩

/- What follows of the end of a run that was found. -/
theorem exists_and {P Q : σ → Prop} (hFound : ∃ t, Run step s xs t ∧ P t)
    (hMore : ∀ t, Run step s xs t → P t → Q t) :
    ∃ t, Run step s xs t ∧ P t ∧ Q t := by
  rcases hFound with ⟨t, hRun, hHolds⟩
  exact ⟨t, hRun, hHolds, hMore t hRun hHolds⟩

/- Carry a run along a map of its labels. -/
theorem map {step' : σ → β → σ → Prop} (f : α → β)
    (hMap : ∀ s x t, step s x t → step' s (f x) t) (hRun : Run step s xs t) :
    Run step' s (xs.map f) t := by
  induction hRun with
  | nil => exact .nil _
  | cons hStep _ ih => exact .cons (hMap _ _ _ hStep) ih

/-
  Where the state after a step fixes the state before it and what is seen of the label, two runs of
  equal length to one state are seen alike.
-/
theorem backward_unique {step₁ step₂ : σ → α → σ → Prop} {see : α → γ} {s' : σ}
    (Inv₁ Inv₂ : σ → Prop) (hKeeps₁ : ∀ s x t, Inv₁ s → step₁ s x t → Inv₁ t)
    (hKeeps₂ : ∀ s x t, Inv₂ s → step₂ s x t → Inv₂ t)
    (hBack : ∀ a b x y u, Inv₁ a → Inv₂ b → step₁ a x u → step₂ b y u → a = b ∧ see x = see y)
    (hFirst : Run step₁ s xs t) (hSecond : Run step₂ s' ys t) (hInv₁ : Inv₁ s)
    (hInv₂ : Inv₂ s') (hLen : xs.length = ys.length) :
    s = s' ∧ xs.map see = ys.map see := by
  induction hFirst generalizing s' ys with
  | nil =>
    cases ys with
    | nil => exact ⟨(nil_iff.mp hSecond).symm, rfl⟩
    | cons y ys => simp at hLen
  | cons hStep _ ih =>
    cases ys with
    | nil => simp at hLen
    | cons y ys =>
      rcases cons_iff.mp hSecond with ⟨v, hStep', hRest'⟩
      rcases ih hRest' (hKeeps₁ _ _ _ hInv₁ hStep) (hKeeps₂ _ _ _ hInv₂ hStep')
        (by simpa using hLen) with ⟨hState, hSeen⟩
      subst hState
      rcases hBack _ _ _ _ _ hInv₁ hInv₂ hStep hStep' with ⟨hState, hSee⟩
      exact ⟨hState, by simp [hSee, hSeen]⟩

end Run

--
-- Parties
--

/-
  One of the parties a state keeps in a list: moving it on or
  dropping it leaves those before and after it alone.
-/
theorem exists_split {xs : List α} {i : Nat} {x : α} (hAt : xs[i]? = some x) :
    ∃ before after,
      xs = before ++ x :: after ∧
        xs.eraseIdx i = before ++ after ∧
        ∀ y, xs.set i y = before ++ y :: after := by
  induction xs generalizing i with
  | nil => simp at hAt
  | cons z zs ih =>
    cases i with
    | zero =>
      simp only [getElem?_cons_zero, some.injEq] at hAt
      subst hAt
      exact ⟨[], zs, rfl, rfl, fun _ => rfl⟩
    | succ i =>
      rw [getElem?_cons_succ] at hAt
      rcases ih hAt with ⟨before, after, hList, hErase, hSet⟩
      refine ⟨z :: before, after, ?_, ?_, fun y => ?_⟩
      · rw [hList, cons_append]
      · rw [eraseIdx_cons_succ, hErase, cons_append]
      · rw [set_cons_succ, hSet y, cons_append]

section StepAt

variable {κ : Type}

/- A property of every party. -/
def Everywhere (Inv : σ → Prop) (s : κ → σ) : Prop :=
  ∀ k, Inv (s k)

variable [DecidableEq κ]

/- A step of the party its label names. -/
def stepAt (next : κ → σ → α → Option σ) (s : κ → σ) (e : κ × α) : Option (κ → σ) :=
  (next e.1 (s e.1) e.2).map (Function.update s e.1)

/- What the step of a party keeps holds of all of them. -/
theorem stepAt_keeps {next : κ → σ → α → Option σ} {Inv : σ → Prop} {s t : κ → σ} {e : κ × α}
    (hStep : stepAt next s e = some t) (hInv : Everywhere Inv s)
    (hKeeps : ∀ u, next e.1 (s e.1) e.2 = some u → Inv u) :
    Everywhere Inv t := by
  rcases map_eq_some_iff.mp hStep with ⟨u, hNext, rfl⟩
  intro k
  by_cases hSame : k = e.1
  · rw [hSame, Function.update_self]
    exact hKeeps u hNext
  · rw [Function.update_of_ne hSame]
    exact hInv k

end StepAt

end Transition
