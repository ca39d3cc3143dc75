import Mathlib.Algebra.Order.BigOperators.Group.List
import Mathlib.Algebra.Order.Ring.Nat
import Tracelane.Lib.Run

/-
  What a list of parties holds of a common stock, in all and by owner, and how much of it small
  owners hold.

  A stock that only small owners may draw below a reserve is never short of the reserve by more than
  those owners hold. The two facts that carry this argument are how the holdings of the small owners
  change when one party grows and when one gives back.
-/

--
-- Totals
--

namespace Shares

open Transition List

variable {α τ : Type}

/- What all the parties hold. -/
def total (size : α → Nat) (xs : List α) : Nat :=
  (xs.map size).sum

theorem total_append (size : α → Nat) (xs : List α) (x : α) :
    total size (xs ++ [x]) = total size xs + size x := by
  simp [total]

theorem total_set (size : α → Nat) {xs : List α} {i : Nat} {x : α} (hAt : xs[i]? = some x) (y : α) :
    total size (xs.set i y) + size x = total size xs + size y := by
  rcases exists_split hAt with ⟨before, after, hList, _, hSet⟩
  rw [hSet, hList]
  simp only [total, map_append, map_cons, sum_append, sum_cons]
  omega

theorem total_add (f g : α → Nat) (xs : List α) :
    total (fun x => f x + g x) xs = total f xs + total g xs :=
  sum_map_add

theorem total_congr {f g : α → Nat} {xs : List α} (hSame : ∀ x ∈ xs, f x = g x) :
    total f xs = total g xs := by
  rw [total, map_congr_left hSame, total]

section Owners

variable [DecidableEq τ] (owner : α → τ) (size : α → Nat)

/- What the parties of one owner hold. -/
def held (xs : List α) (t : τ) : Nat :=
  total (fun x => if owner x = t then size x else 0) xs

theorem held_append (xs : List α) (x : α) (t : τ) :
    held owner size (xs ++ [x]) t =
      held owner size xs t + if owner x = t then size x else 0 :=
  total_append _ _ _

variable {xs : List α} {x y : α} {i : Nat}

theorem held_set (hAt : xs[i]? = some x) (hOwner : owner y = owner x) :
    held owner size (xs.set i y) (owner x) + size x = held owner size xs (owner x) + size y := by
  have hSet := total_set (fun z => if owner z = owner x then size z else 0) hAt y
  simpa [held, hOwner] using hSet

theorem held_set_ne {t : τ} (hAt : xs[i]? = some x) (hOwner : owner y = owner x)
    (hOther : t ≠ owner x) :
    held owner size (xs.set i y) t = held owner size xs t := by
  have hSet := total_set (fun z => if owner z = t then size z else 0) hAt y
  simpa [held, hOwner, hOther.symm] using hSet

--
-- Small Owners
--

variable (counts : τ → Bool) (allowance : Nat)

/- An owner that counts and holds no more than the allowance. -/
def isSmall (xs : List α) (t : τ) : Bool :=
  counts t && decide (held owner size xs t ≤ allowance)

/- What the small owners hold. -/
def small (xs : List α) : Nat :=
  total
    (fun x =>
      if isSmall owner size counts allowance xs (owner x)
      then size x else 0)
    xs

/- The same, without the parties of one owner. -/
def smallBut (t : τ) (xs : List α) : Nat :=
  total
    (fun x =>
      if owner x ≠ t ∧ isSmall owner size counts allowance xs (owner x) = true
      then size x else 0)
    xs

theorem small_eq (t : τ) (xs : List α) :
    small owner size counts allowance xs =
      smallBut owner size counts allowance t xs +
        if isSmall owner size counts allowance xs t
        then held owner size xs t else 0 := by
  by_cases hSmall : isSmall owner size counts allowance xs t
  · rw [if_pos hSmall, smallBut, held, ← total_add]
    apply total_congr
    intro x _
    by_cases hOwner : owner x = t
    · simp [hOwner, hSmall]
    · simp [hOwner]
  · rw [if_neg hSmall, Nat.add_zero]
    apply total_congr
    intro x _
    by_cases hOwner : owner x = t
    · simp [hOwner, hSmall]
    · simp [hOwner]

section

variable (hAt : xs[i]? = some x) (hOwner : owner y = owner x)
include hAt hOwner

theorem smallBut_set :
    smallBut owner size counts allowance (owner x) (xs.set i y) =
      smallBut owner size counts allowance (owner x) xs := by
  have hSet :=
    total_set
      (fun z =>
        if owner z ≠ owner x ∧ isSmall owner size counts allowance xs (owner z) = true
        then size z else 0) hAt y
  simp only [hOwner, ne_eq, not_true_eq_false, false_and, if_false, Nat.add_zero] at hSet
  rw [smallBut, smallBut, ← hSet]
  apply total_congr
  intro z _
  by_cases hOther : owner z = owner x
  · simp [hOther]
  · simp [isSmall, held_set_ne owner size hAt hOwner hOther]

/- Growth within the allowance adds to what the small hold. -/
theorem small_grow (hGrows : size x ≤ size y) (hCounts : counts (owner x) = true)
    (hWithin : held owner size (xs.set i y) (owner x) ≤ allowance) :
    small owner size counts allowance (xs.set i y) + size x =
      small owner size counts allowance xs + size y := by
  have hHeld := held_set owner size hAt hOwner
  rw [small_eq owner size counts allowance (owner x) (xs.set i y),
    small_eq owner size counts allowance (owner x) xs,
    smallBut_set owner size counts allowance hAt hOwner, if_pos, if_pos]
  · omega
  · simp only [isSmall, hCounts, Bool.true_and, decide_eq_true_eq]
    omega
  · simpa [isSmall, hCounts] using hWithin

/- Giving back takes no more from what the small hold than was given. -/
theorem small_release (hLess : size y ≤ size x) :
    small owner size counts allowance xs + size y ≤
      small owner size counts allowance (xs.set i y) + size x := by
  have hHeld := held_set owner size hAt hOwner
  rw [small_eq owner size counts allowance (owner x) (xs.set i y),
    small_eq owner size counts allowance (owner x) xs,
    smallBut_set owner size counts allowance hAt hOwner]
  by_cases hSmall : isSmall owner size counts allowance xs (owner x)
  · rw [if_pos hSmall, if_pos]
    · omega
    · simp only [isSmall, Bool.and_eq_true, decide_eq_true_eq] at hSmall ⊢
      exact ⟨hSmall.1, by omega⟩
  · rw [if_neg hSmall]
    omega

end

theorem small_append {x : α} (xs : List α) (hNothing : size x = 0) :
    small owner size counts allowance (xs ++ [x]) = small owner size counts allowance xs := by
  rw [small, total_append, hNothing, ite_self, Nat.add_zero]
  apply total_congr
  intro z _
  simp [isSmall, held_append, hNothing]

/- Only owners and sizes count. -/
theorem small_map (xs : List α) :
    small owner size counts allowance xs =
      small Prod.fst Prod.snd counts allowance (xs.map (fun x => (owner x, size x))) := by
  unfold small
  rw [total, total, map_map]
  refine congrArg sum (map_congr_left ?_)
  intro x _
  have hHeld :
      held Prod.fst Prod.snd (xs.map (fun x => (owner x, size x))) (owner x) =
        held owner size xs (owner x) := by
    rw [held, total, map_map]
    rfl
  rw [Function.comp, isSmall, isSmall, hHeld]

end Owners

end Shares
