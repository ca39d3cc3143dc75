import Tracelane.Lib.KeyedFold
import Tracelane.Lib.Run

/-
  Chains of records that the first record in scope roots.

  A record out of scope is passed over.  The first one in scope gives the state that it and the
  records after it are checked against, one after another; every turn reports what it found wrong.
-/

/- How the records of one chain are checked.  Without an identity every record in scope is bad. -/
structure RootedChain (ρ σ ι ε : Type) where
  scope : ρ → Bool
  identity : Option ι
  bad : ρ → ε
  root : ι → ρ → σ
  check : ι → σ → ρ → σ × List ε

namespace RootedChain

open Transition List

variable {ρ σ ι ε : Type}

/- The state after one record, and what was wrong with it. -/
def turn (R : RootedChain ρ σ ι ε) (entry : Option σ) (row : ρ) : Option σ × List ε :=
  if R.scope row then
    match R.identity with
    | none => (entry, [R.bad row])
    | some i =>
        let next := R.check i (entry.getD (R.root i row)) row
        (some next.1, next.2)
  else
    (entry, [])

/- A record that is checked without a finding. -/
def Links (R : RootedChain ρ σ ι ε) (i : ι) (entry : σ) (row : ρ) (next : σ) : Prop :=
  R.check i entry row = (next, [])

variable (R : RootedChain ρ σ ι ε)

/- The turns once the chain is rooted. -/
theorem clean_some_iff {i : ι} (hId : R.identity = some i) (rows : List ρ) (entry : σ) :
    (∀ errors ∈ KeyedFold.solo R.turn (some entry) rows, errors = []) ↔
      ∃ final, Run (R.Links i) entry (rows.filter R.scope) final := by
  induction rows generalizing entry with
  | nil => simp [KeyedFold.solo]
  | cons row rows ih =>
    cases hScope : R.scope row with
    | false => simpa [KeyedFold.solo, turn, hScope] using ih entry
    | true =>
      simp only [KeyedFold.solo, turn, hScope, if_true, hId, Option.getD_some, forall_mem_cons, ih,
        filter_cons_of_pos hScope, Run.cons_iff]
      constructor
      · rintro ⟨hClean, final, hRun⟩
        exact ⟨final, _, Prod.ext rfl hClean, hRun⟩
      · rintro ⟨final, next, hLinks, hRun⟩
        unfold Links at hLinks
        rw [hLinks]
        exact ⟨rfl, final, hRun⟩

/- The records in scope link from the root the first gives. -/
def Clean (R : RootedChain ρ σ ι ε) (rows : List ρ) : Prop :=
  ∀ first ∈ (rows.filter R.scope).head?,
    ∃ i final, R.identity = some i ∧ Run (R.Links i) (R.root i first) (rows.filter R.scope) final

/- No turn finds anything exactly on a clean chain. -/
theorem clean_iff (rows : List ρ) :
    (∀ errors ∈ KeyedFold.solo R.turn none rows, errors = []) ↔ R.Clean rows := by
  unfold Clean
  induction rows with
  | nil => simp [KeyedFold.solo]
  | cons row rows ih =>
    cases hScope : R.scope row with
    | false => simpa [KeyedFold.solo, turn, hScope] using ih
    | true =>
      have hHead : ((row :: rows).filter R.scope).head? = some row := by
        rw [filter_cons_of_pos hScope, head?_cons]
      rw [hHead]
      simp only [Option.mem_some_iff, forall_eq']
      cases hId : R.identity with
      | none => simp [KeyedFold.solo, turn, hScope, hId]
      | some i =>
        -- The first record is checked against the root
        -- it gives.
        have hRooted :
            KeyedFold.solo R.turn none (row :: rows) =
              KeyedFold.solo R.turn (some (R.root i row)) (row :: rows) := by
          simp [KeyedFold.solo, turn, hScope, hId]
        rw [hRooted, R.clean_some_iff hId]
        simp

/- Whatever the interleaving, the chain of each key decides. -/
theorem run_clean_iff {κ : Type} [Ord κ] [Std.TransOrd κ] [Std.LawfulEqOrd κ] [DecidableEq κ]
    (key : ρ → κ) (R : κ → RootedChain ρ σ ι ε) (rows : List ρ) :
    (∀ errors ∈
        KeyedFold.run key (fun entry row => (R (key row)).turn entry row) ∅ rows,
        errors = []) ↔
      ∀ k, (R k).Clean (rows.filter (fun row => key row = k)) := by
  rw [KeyedFold.forall_mem_run_iff]
  refine forall_congr' (fun k => ?_)
  rw [← clean_iff, Std.TreeMap.getElem?_emptyc]
  have hOwn :=
    KeyedFold.solo_congr
      (fun row (hMem : row ∈ rows.filter (fun row => key row = k)) entry =>
        show (R (key row)).turn entry row =
            (R k).turn entry row by
          have hKey := (mem_filter.mp hMem).2
          rw [of_decide_eq_true hKey]) none
  rw [hOwn]

end RootedChain
