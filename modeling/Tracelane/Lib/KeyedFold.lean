import Mathlib.Algebra.Order.Ring.Int
import Mathlib.Data.List.Perm.Basic
import Mathlib.Data.List.Sort

/-
  Folds over a list whose items each read and write the state of their own key only.

  Whatever the interleaving, the state and the output of one key are those of a fold over that key's
  items alone.
-/

namespace KeyedFold

open List
open Std TreeMap

variable {α κ σ β : Type} [Ord κ] [TransOrd κ] [LawfulEqOrd κ] [DecidableEq κ]

--
-- States
--

/- Give every item its turn on the state of its key. -/
def table (key : α → κ) (step : Option σ → α → Option σ) (m : TreeMap κ σ)
    (xs : List α) : TreeMap κ σ :=
  xs.foldl (fun m x => m.alter (key x) (fun s => step s x)) m

variable (m : TreeMap κ σ)

theorem getElem?_alter_key (k k' : κ) (f : Option σ → Option σ) :
    (m.alter k f)[k']? = if k = k' then f m[k]? else m[k']? := by
  rw [getElem?_alter]
  simp only [Std.compare_eq_iff_eq]

variable (key : α → κ) (step : Option σ → α → Option σ)

/- A key's state is the fold of its own items. -/
theorem getElem?_table (xs : List α) (k : κ) :
    (table key step m xs)[k]? = (xs.filter (fun x => key x = k)).foldl step m[k]? := by
  induction xs generalizing m with
  | nil => rfl
  | cons x xs ih =>
    have hTail := ih (m.alter (key x) (fun s => step s x))
    rw [getElem?_alter_key] at hTail
    by_cases hKey : key x = k
    · subst hKey
      simpa [table] using hTail
    · simpa [table, hKey] using hTail

/- Keep the least value seen. -/
def keepMin {ν : Type} [Min ν] (f : α → ν) (least : Option ν) (x : α) : Option ν :=
  match least with
  | some m => some (min m (f x))
  | none => some (f x)

theorem foldl_keepMin {ν : Type} [Min ν] (f : α → ν) (xs : List α) :
    xs.foldl (keepMin f) none = (xs.map f).min? := by
  have hSome :
      ∀ (xs : List α) (m : ν), xs.foldl (keepMin f) (some m) = some ((xs.map f).foldl min m) := by
    intro xs
    induction xs with
    | nil =>
      intro m
      rfl
    | cons x xs ih =>
      intro m
      exact ih (min m (f x))
  cases xs with
  | nil => rfl
  | cons x xs =>
    rw [foldl_cons, map_cons, min?_cons']
    exact hSome xs (f x)

--
-- Outputs
--

/- The output of every item's turn, in order. -/
def run (key : α → κ) (step : Option σ → α → Option σ × β) :
    TreeMap κ σ → List α → List β
| _, [] => []
| m, x :: xs =>
    let turn := step m[key x]? x
    turn.2 :: run key step (m.alter (key x) (fun _ => turn.1)) xs

/- The same for the items of a single key. -/
def solo (step : Option σ → α → Option σ × β) :
    Option σ → List α → List β
| _, [] => []
| s, x :: xs => (step s x).2 :: solo step (step s x).1 xs

theorem solo_congr {step step' : Option σ → α → Option σ × β} {xs : List α}
    (hSame : ∀ x ∈ xs, ∀ s, step s x = step' s x) (s : Option σ) :
    solo step s xs = solo step' s xs := by
  induction xs generalizing s with
  | nil => rfl
  | cons x xs ih =>
    have hHead := hSame x (by simp) s
    have hTail : ∀ y ∈ xs, ∀ s, step s y = step' s y :=
      fun y hMem => hSame y (mem_cons_of_mem _ hMem)
    simp only [solo, hHead, ih hTail]

/- A property of all outputs holds exactly when it holds of every key's outputs on its own. -/
theorem forall_mem_run_iff (step : Option σ → α → Option σ × β) (P : β → Prop)
    (m : TreeMap κ σ) (xs : List α) :
    (∀ b ∈ run key step m xs, P b) ↔
      ∀ k, ∀ b ∈ solo step m[k]? (xs.filter (fun x => key x = k)), P b := by
  induction xs generalizing m with
  | nil => simp [run, solo]
  | cons x xs ih =>
    have hTail := ih (m.alter (key x) (fun _ => (step m[key x]? x).1))
    simp only [getElem?_alter_key] at hTail
    simp only [run, forall_mem_cons, hTail]
    constructor
    · rintro ⟨hHead, hRest⟩ k
      have hKeyed := hRest k
      by_cases hKey : key x = k
      · subst hKey
        simpa [solo, hHead] using hKeyed
      · simpa [hKey] using hKeyed
    · intro hAll
      have hOwn := hAll (key x)
      simp only [decide_true, filter_cons_of_pos, solo, forall_mem_cons] at hOwn
      refine ⟨hOwn.1, fun k => ?_⟩
      by_cases hKey : key x = k
      · subst hKey
        simpa using hOwn.2
      · simpa [hKey] using hAll k

--
-- Sums over the Keys
--

/- Counting item by item is counting key by key. -/
omit [Ord κ] [TransOrd κ] [LawfulEqOrd κ] in
theorem countP_eq_sum (p : α → Bool) (xs : List α) (ks : List κ)
    (hNodup : ks.Nodup) (hKeys : ∀ x ∈ xs, key x ∈ ks) :
    xs.countP p =
      (ks.map (fun k => (xs.filter (fun x => key x = k)).countP p)).sum := by
  induction ks generalizing xs with
  | nil =>
    have hNil : xs = [] := eq_nil_iff_forall_not_mem.mpr (fun x hX => by simpa using hKeys x hX)
    simp [hNil]
  | cons k ks ih =>
    rw [nodup_cons] at hNodup
    have hRest :=
      ih (xs.filter (fun x => key x ≠ k)) hNodup.2 (by
        intro x hX
        rw [mem_filter, decide_eq_true_eq] at hX
        simpa [hX.2] using hKeys x hX.1)
    have hOther :
        ∀ k' ∈ ks,
          (xs.filter (fun x => key x ≠ k)).filter (fun x => key x = k') =
            xs.filter (fun x => key x = k') := by
      intro k' hK'
      rw [filter_filter]
      refine filter_congr (fun x _ => ?_)
      by_cases hX : key x = k'
      · have hNe : k' ≠ k := fun hEq => hNodup.1 (hEq ▸ hK')
        simp [hX, hNe]
      · simp [hX]
    have hSplit := countP_eq_countP_filter_add xs p (fun x => key x = k)
    have hNot : xs.filter (fun x => !decide (key x = k)) = xs.filter (fun x => key x ≠ k) := by simp
    rw [hNot, hRest] at hSplit
    rw [hSplit, map_cons, sum_cons]
    congr 2
    refine map_congr_left (fun k' hK' => ?_)
    rw [hOther k' hK']

/- A sum over a table is a sum over any list of its keys. -/
omit [DecidableEq κ] in
theorem sum_toList (g : κ → σ → Nat) (ks : List κ)
    (hNodup : ks.Nodup) (hKeys : ∀ k v, m[k]? = some v → k ∈ ks) :
    (m.toList.map (fun entry => g entry.1 entry.2)).sum =
      (ks.map (fun k => (m[k]?.map (g k)).getD 0)).sum := by
  have hPresent :
      (ks.map (fun k => (m[k]?.map (g k)).getD 0)).sum =
        ((ks.filter (fun k => m[k]?.isSome)).map (fun k => (m[k]?.map (g k)).getD 0)).sum := by
    clear hNodup hKeys
    induction ks with
    | nil => rfl
    | cons k ks ih =>
      rw [map_cons, sum_cons, ih, filter_cons]
      cases hK : m[k]? with
      | none => simp
      | some v => simp [hK]
  have hPerm : (m.toList.map Prod.fst).Perm (ks.filter (fun k => m[k]?.isSome)) := by
    rw [perm_ext_iff_of_nodup]
    · intro k
      simp only [mem_map, Prod.exists, exists_eq_right, mem_toList_iff_getElem?_eq_some,
        mem_filter, Option.isSome_iff_exists, exists_and_right]
      constructor
      · rintro ⟨v, hV⟩
        exact ⟨hKeys k v hV, v, hV⟩
      · rintro ⟨_, hV⟩
        exact hV
    · rw [List.Nodup, pairwise_map]
      refine distinct_keys_toList.imp (fun hNe hEq => ?_)
      exact hNe (Std.compare_eq_iff_eq.mpr hEq)
    · exact hNodup.filter _
  have hValues :
      m.toList.map (fun entry => g entry.1 entry.2) =
        (m.toList.map Prod.fst).map (fun k => (m[k]?.map (g k)).getD 0) := by
    rw [map_map]
    refine map_congr_left (fun entry hEntry => ?_)
    rw [mem_toList_iff_getElem?_eq_some] at hEntry
    simp [hEntry]
  rw [hPresent, hValues]
  exact (hPerm.map _).sum_nat

/-
  Where each term of one sum is at most that of another, the
  sums are equal exactly when all terms are.
-/
omit [Ord κ] [TransOrd κ] [LawfulEqOrd κ] [DecidableEq κ] in
theorem sum_eq_sum_iff (f g : κ → Nat) (ks : List κ) (hLe : ∀ k, f k ≤ g k) :
    (ks.map f).sum = (ks.map g).sum ↔ ∀ k ∈ ks, f k = g k := by
  induction ks with
  | nil => simp
  | cons k ks ih =>
    have hHead := hLe k
    have hTail : (ks.map f).sum ≤ (ks.map g).sum := by
      clear ih
      induction ks with
      | nil => rfl
      | cons k ks ih =>
        have hNext := hLe k
        simp only [map_cons, sum_cons]
        omega
    simp only [map_cons, sum_cons, forall_mem_cons, ← ih]
    omega

/- A key's table holds nothing but its own state. -/
theorem getElem?_table_filter (xs : List α) (k k' : κ) :
    (table key step ∅ (xs.filter (fun x => key x = k)))[k']? =
      if k = k' then (table key step ∅ xs)[k]? else none := by
  rw [getElem?_table, getElem?_table, getElem?_emptyc, getElem?_emptyc, filter_filter]
  by_cases hKey : k = k'
  · subst hKey
    simp
  · have hNone : xs.filter (fun x => decide (key x = k') && decide (key x = k)) = [] := by
      simp only [filter_eq_nil_iff, Bool.and_eq_true, decide_eq_true_eq, not_and]
      intro x _ hX' hX
      exact hKey (hX.symm.trans hX')
    rw [hNone, if_neg hKey, foldl_nil]

theorem mem_keys_of_table {key : α → κ} {step : Option σ → α → Option σ} {xs : List α} {ks : List κ}
    (hKeys : ∀ x ∈ xs, key x ∈ ks) (k : κ) (v : σ) (hState : (table key step ∅ xs)[k]? = some v) :
    k ∈ ks := by
  by_contra hOut
  have hNone : xs.filter (fun x => key x = k) = [] := by
    simp only [filter_eq_nil_iff, decide_eq_true_eq]
    intro x hX hKey
    exact hOut (hKey ▸ hKeys x hX)
  rw [getElem?_table, hNone, getElem?_emptyc] at hState
  cases hState

/- A sum over a table is the sum of those of its keys. -/
theorem sum_toList_table (g : κ → σ → Nat)
    (xs : List α) (ks : List κ) (hNodup : ks.Nodup) (hKeys : ∀ x ∈ xs, key x ∈ ks) :
    ((table key step ∅ xs).toList.map (fun entry => g entry.1 entry.2)).sum =
      (ks.map (fun k =>
        ((table key step ∅
          (xs.filter (fun x => key x = k))).toList.map
          (fun entry => g entry.1 entry.2)).sum)).sum := by
  rw [sum_toList _ g ks hNodup (mem_keys_of_table hKeys)]
  refine congrArg sum (map_congr_left (fun k _ => ?_))
  rw [sum_toList _ g [k] (nodup_singleton k)]
  · simp [getElem?_table_filter]
  · exact mem_keys_of_table (by simp)

/- So is a test of all its entries. -/
theorem all_toList_table (p : κ → σ → Bool)
    (xs : List α) (ks : List κ) (hKeys : ∀ x ∈ xs, key x ∈ ks) :
    (table key step ∅ xs).toList.all (fun entry => p entry.1 entry.2) =
      ks.all (fun k =>
        (table key step ∅ (xs.filter (fun x => key x = k))).toList.all
          (fun entry => p entry.1 entry.2)) := by
  rw [Bool.eq_iff_iff]
  simp only [all_eq_true, Prod.forall, mem_toList_iff_getElem?_eq_some, getElem?_table_filter]
  constructor
  · intro hAll k _ k' v hState
    by_cases hKey : k = k'
    · subst hKey
      exact hAll k v (by simpa using hState)
    · simp [hKey] at hState
  · intro hAll k v hState
    exact hAll k (mem_keys_of_table hKeys k v hState) k v (by simpa using hState)

/- And a test of all items. -/
omit [Ord κ] [TransOrd κ] [LawfulEqOrd κ] in
theorem all_eq_all (p : α → Bool) (xs : List α) (ks : List κ) (hKeys : ∀ x ∈ xs, key x ∈ ks) :
    xs.all p =
      ks.all (fun k => (xs.filter (fun x => key x = k)).all p) := by
  rw [Bool.eq_iff_iff]
  simp only [all_eq_true, mem_filter, decide_eq_true_eq]
  constructor
  · intro hAll k _ x hX
    exact hAll x hX.1
  · intro hAll x hX
    exact hAll (key x) (hKeys x hX) x ⟨hX, rfl⟩

end KeyedFold
