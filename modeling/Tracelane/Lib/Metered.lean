import Mathlib.Algebra.BigOperators.Group.List.Basic
import Mathlib.Algebra.Order.Ring.Int
import Tracelane.Lib.Run

/-
  Charges along a timed run.

  Each label happens at a time and charges something.  A level pays for the charges and grows with
  time at a bounded rate; then what a stretch of the run charges is bounded by the level it starts
  at and the time it takes.  A tally is moved by each label exactly, and by a run by their sum.
-/

open Transition List

/- A level that pays for every step of a system. -/
structure Metered {σ α : Type} (step : σ → α → σ → Prop) (time : α → Nat)
    (charge : α → ℤ) (level : σ → Nat → Nat) (rate : Nat) (Inv : σ → Prop) : Prop where
  keeps : ∀ s x t, Inv s → step s x t → Inv t
  pays : ∀ s x t, Inv s → step s x t → charge x + level t (time x) ≤ level s (time x)
  grows : ∀ s a b, a ≤ b → level s b ≤ level s a + rate * (b - a)

namespace Metered

variable {σ α : Type} {step : σ → α → σ → Prop} {time : α → Nat}
variable {charge : α → ℤ} {level : σ → Nat → Nat} {rate : Nat} {Inv : σ → Prop} {lo hi : Nat}

theorem rate_nonneg (rate : Nat) (hOrder : lo ≤ hi) :
    (0 : ℤ) ≤ rate * ((hi : ℤ) - lo) := by
  apply mul_nonneg
  · omega
  · omega

/- Up to a time, a run charges its level and that time. -/
theorem charged_le (hMetered : Metered step time charge level rate Inv)
    {s t : σ} {xs : List α} (hRun : Run step s xs t) (hInv : Inv s) (hOrder : lo ≤ hi)
    (hTimes : ∀ x ∈ xs, lo ≤ time x)
    (hSorted : xs.Pairwise (fun x y => time x ≤ time y)) :
    ((xs.filter (fun x => time x ≤ hi)).map charge).sum ≤ level s lo + rate * ((hi : ℤ) - lo) := by
  induction hRun generalizing lo with
  | nil s =>
    have hTime := rate_nonneg rate hOrder
    simp only [filter_nil, map_nil, sum_nil]
    omega
  | @cons s u t x xs hStep hRest ih =>
    rw [pairwise_cons] at hSorted
    by_cases hHere : time x ≤ hi
    · -- The rest of the run starts at the first label.
      have hLater := ih (hMetered.keeps s x u hInv hStep) hHere hSorted.1 hSorted.2
      have hPays := hMetered.pays s x u hInv hStep
      have hFirst := hTimes x (by simp)
      have hGrows := hMetered.grows s lo (time x) hFirst
      have hGrown : (level s (time x) : ℤ) ≤ level s lo + rate * ((time x : ℤ) - lo) := by
        have hCast : ((time x - lo : Nat) : ℤ) = time x - lo := by omega
        rw [← hCast]
        exact_mod_cast hGrows
      have hSplit : (rate : ℤ) * (hi - lo) = rate * (time x - lo) + rate * (hi - time x) := by
        rw [← mul_add]
        congr 1
        omega
      rw [filter_cons_of_pos (by simpa using hHere), map_cons, sum_cons]
      omega
    · have hNone : (x :: xs).filter (fun y => time y ≤ hi) = [] := by
        apply filter_eq_nil_iff.mpr
        intro y hMem
        rcases mem_cons.mp hMem with rfl | hLater
        · simpa using hHere
        · have hAfter := hSorted.1 y hLater
          simp only [decide_eq_true_eq]
          omega
      have hTime := rate_nonneg rate hOrder
      rw [hNone, map_nil, sum_nil]
      omega

/-
  Where the level has a top, an interval of a run charges at most the top and the interval's time.
-/
theorem charged_within_le (hMetered : Metered step time charge level rate Inv)
    {top : Nat} (hTop : ∀ s a, level s a ≤ top) {s t : σ} {xs : List α}
    (hRun : Run step s xs t) (hInv : Inv s) (hOrder : lo ≤ hi)
    (hSorted : xs.Pairwise (fun x y => time x ≤ time y)) :
    ((xs.filter (fun x => lo ≤ time x ∧ time x ≤ hi)).map charge).sum ≤
      top + rate * ((hi : ℤ) - lo) := by
  induction hRun with
  | nil s =>
    have hTime := rate_nonneg rate hOrder
    simp only [filter_nil, map_nil, sum_nil]
    omega
  | @cons s u t x xs hStep hRest ih =>
    rw [pairwise_cons] at hSorted
    by_cases hHere : lo ≤ time x
    · -- From the first label in the interval on, all are
      -- past its start.
      have hTimes : ∀ y ∈ x :: xs, lo ≤ time y := by
        intro y hMem
        rcases mem_cons.mp hMem with rfl | hLater
        · exact hHere
        · exact Nat.le_trans hHere (hSorted.1 y hLater)
      have hSame :
          (x :: xs).filter (fun y => lo ≤ time y ∧ time y ≤ hi) =
            (x :: xs).filter (fun y => time y ≤ hi) := by
        apply filter_congr
        intro y hMem
        simp [hTimes y hMem]
      have hCharged := charged_le hMetered (.cons hStep hRest) hInv hOrder hTimes
        (pairwise_cons.mpr hSorted)
      have hLevel := hTop s lo
      rw [hSame]
      omega
    · rw [filter_cons_of_neg (by simp [hHere])]
      exact ih (hMetered.keeps s x u hInv hStep) hSorted.2

end Metered

--
-- Tallies
--

/- A tally that every step moves by its label's weight. -/
theorem Transition.Run.tally {σ α M : Type} [AddCommMonoid M] {step : σ → α → σ → Prop}
    {Inv : σ → Prop} (count : σ → M) (weight : α → M) (hKeeps : ∀ s x t, Inv s → step s x t → Inv t)
    (hMoves : ∀ s x t, Inv s → step s x t → count t = count s + weight x)
    {s t : σ} {xs : List α} (hRun : Run step s xs t) (hInv : Inv s) :
    count t = count s + (xs.map weight).sum := by
  induction hRun with
  | nil s => rw [map_nil, sum_nil, add_zero]
  | @cons s u t x xs hStep hRest ih =>
    rw [ih (hKeeps s x u hInv hStep), hMoves s x u hInv hStep, map_cons, sum_cons, add_assoc]
