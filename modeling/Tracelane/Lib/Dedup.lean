import Mathlib.Algebra.BigOperators.Group.List.Basic
import Mathlib.Algebra.Order.Ring.Int
import Mathlib.Data.List.Perm.Basic

/-
  Items that a store takes once each, told apart by a token.

  What is outstanding is what is held and whose token the store has not taken.  Taking a token moves
  its item out of what is outstanding, once.
-/

namespace Dedup

open List

variable {ι κ M : Type} [DecidableEq κ] [AddCommMonoid M] (token : ι → κ)
variable (w : ι → M)

/- What the items weigh whose token is not taken. -/
def outstanding (tokens : List κ) (xs : List ι) : M :=
  (xs.map (fun x => if token x ∈ tokens then 0 else w x)).sum

variable {token : ι → κ} {w : ι → M} {tokens : List κ} {x : ι} {xs ys : List ι}

@[simp] theorem outstanding_nil :
    outstanding token w tokens [] = 0 :=
  rfl

theorem outstanding_cons :
    outstanding token w tokens (x :: xs) =
      (if token x ∈ tokens then 0 else w x) +
        outstanding token w tokens xs := by
  simp only [outstanding, map_cons, sum_cons]

theorem outstanding_append :
    outstanding token w tokens (xs ++ ys) =
      outstanding token w tokens xs + outstanding token w tokens ys := by
  simp only [outstanding, map_append, sum_append]

theorem outstanding_perm (hPerm : xs.Perm ys) :
    outstanding token w tokens xs = outstanding token w tokens ys :=
  (hPerm.map _).sum_eq

/- A token no item carries changes nothing. -/
theorem outstanding_cons_token {k : κ} (hNone : k ∉ xs.map token) :
    outstanding token w (k :: tokens) xs = outstanding token w tokens xs := by
  unfold outstanding
  rw [map_congr_left]
  intro x hMem
  have hOther : token x ≠ k := by
    intro hSame
    apply hNone
    rw [← hSame]
    exact mem_map_of_mem hMem
  simp only [mem_cons, hOther, false_or]

/- Taking an item's token takes that item, and no other. -/
theorem outstanding_take (hDistinct : (xs.map token).Nodup) (hMem : x ∈ xs)
    (hNew : token x ∉ tokens) :
    outstanding token w tokens xs = w x + outstanding token w (token x :: tokens) xs := by
  induction xs with
  | nil => cases hMem
  | cons y ys ih =>
    rw [map_cons, nodup_cons] at hDistinct
    rw [outstanding_cons, outstanding_cons]
    rcases mem_cons.mp hMem with rfl | hLater
    · rw [outstanding_cons_token hDistinct.1, if_neg hNew, if_pos mem_cons_self, zero_add]
    · have hOther : token y ≠ token x := by
        intro hSame
        apply hDistinct.1
        rw [hSame]
        exact mem_map_of_mem hLater
      rw [ih hDistinct.2 hLater]
      simp only [mem_cons, hOther, false_or]
      exact add_left_comm _ _ _

end Dedup
