import Mathlib.Order.Defs.LinearOrder
import Mathlib.Data.List.Sort

/-
  Tables with a primary key, kept in key order.

  `insert` drops a row whose key is taken, as SQL's `ON CONFLICT DO NOTHING` does; `replace` keeps
  the newer of the two.  A table is read in pages, each from past the last key of the one before.
-/

/- Rows in key order, no key twice. -/
structure KeyTable (α : Type) {κ : Type} [LinearOrder κ] (key : α → κ) where
  rows : List α
  sorted : rows.Pairwise (fun a b => key a < key b)

namespace KeyTable

open List

variable {α κ : Type} [LinearOrder κ] {key : α → κ}

instance : EmptyCollection (KeyTable α key) where
  emptyCollection := ⟨[], Pairwise.nil⟩

@[simp] theorem rows_empty :
    (∅ : KeyTable α key).rows = [] :=
  rfl

/- A key names one row. -/
theorem eq_of_key_eq (t : KeyTable α key) {x y : α} (hX : x ∈ t.rows)
    (hY : y ∈ t.rows) (hKey : key x = key y) :
    x = y := by
  rcases t with ⟨rows, hSorted⟩
  induction rows with
  | nil => cases hX
  | cons z zs ih =>
    have hCons := pairwise_cons.mp hSorted
    rcases mem_cons.mp hX with rfl | hXs
    · rcases mem_cons.mp hY with rfl | hYs
      · rfl
      · exact absurd hKey (ne_of_lt (hCons.1 y hYs))
    · rcases mem_cons.mp hY with rfl | hYs
      · exact absurd hKey.symm (ne_of_lt (hCons.1 x hXs))
      · exact ih hCons.2 hXs hYs

--
-- Placing a Row
--

/- Put a row at its place; on a conflict `pick` decides. -/
def place (key : α → κ) (pick : α → α → α) (x : α) : List α → List α
| [] => [x]
| y :: ys =>
    if key x < key y then x :: y :: ys
    else if key x = key y then pick y x :: ys
    else y :: place key pick x ys

section Place

variable
    {pick : α → α → α}
    (hPick : ∀ a b, key a = key b → key (pick a b) = key a)

include hPick

variable {xs : List α}

theorem lt_of_mem_place {k : κ} {x : α} (hX : k < key x) (hXs : ∀ y ∈ xs, k < key y) :
    ∀ y ∈ place key pick x xs, k < key y := by
  induction xs with
  | nil => simpa [place] using hX
  | cons y ys ih =>
    have hTail : ∀ z ∈ ys, k < key z := fun z hZ => hXs z (mem_cons_of_mem _ hZ)
    intro z hZ
    unfold place at hZ
    split at hZ
    · rcases mem_cons.mp hZ with rfl | hZ
      · exact hX
      · exact hXs z hZ
    · split_ifs at hZ with hSame
      · rcases mem_cons.mp hZ with rfl | hZ
        · rw [hPick y x hSame.symm]
          exact hXs y (by simp)
        · exact hTail z hZ
      · rcases mem_cons.mp hZ with rfl | hZ
        · exact hXs z (by simp)
        · exact ih hTail z hZ

theorem sorted_place (x : α) (hSorted : xs.Pairwise (fun a b => key a < key b)) :
    (place key pick x xs).Pairwise (fun a b => key a < key b) := by
  induction xs with
  | nil => exact pairwise_singleton _ _
  | cons y ys ih =>
    have hCons := pairwise_cons.mp hSorted
    unfold place
    split
    · rename_i hLt
      refine pairwise_cons.mpr ⟨?_, hSorted⟩
      intro z hZ
      rcases mem_cons.mp hZ with rfl | hZ
      · exact hLt
      · exact lt_trans hLt (hCons.1 z hZ)
    · rename_i hNotLt
      split
      · rename_i hSame
        refine pairwise_cons.mpr ⟨?_, hCons.2⟩
        intro z hZ
        rw [hPick y x hSame.symm]
        exact hCons.1 z hZ
      · rename_i hNe
        refine pairwise_cons.mpr ⟨?_, ih hCons.2⟩
        have hGt : key y < key x := lt_of_le_of_ne (not_lt.mp hNotLt) (Ne.symm hNe)
        exact lt_of_mem_place hPick hGt hCons.1

end Place

/- `INSERT … ON CONFLICT DO NOTHING`. -/
def insert (t : KeyTable α key) (x : α) : KeyTable α key where
  rows := place key (fun old _ => old) x t.rows
  sorted := sorted_place (fun _ _ _ => rfl) x t.sorted

/- The newer row of a key is kept. -/
def replace (newer : α → α → Bool) (t : KeyTable α key) (x : α) : KeyTable α key where
  rows :=
    place key (fun old new => if newer old new then new else old) x t.rows
  sorted := by
    refine sorted_place (fun a b hKey => ?_) x t.sorted
    split
    · exact hKey.symm
    · rfl

def insertAll (t : KeyTable α key) (xs : List α) : KeyTable α key :=
  xs.foldl insert t

def replaceAll (newer : α → α → Bool) (t : KeyTable α key) (xs : List α) : KeyTable α key :=
  xs.foldl (replace newer) t

--
-- Membership
--

variable {t : KeyTable α key}

variable {x y : α}

theorem mem_insert_iff :
    y ∈ (t.insert x).rows ↔ y ∈ t.rows ∨ (y = x ∧ ∀ z ∈ t.rows, key z ≠ key x) := by
  rcases t with ⟨rows, hSorted⟩
  unfold insert
  simp only
  induction rows with
  | nil => simp [place]
  | cons z zs ih =>
    have hCons := pairwise_cons.mp hSorted
    unfold place
    split
    · rename_i hLt
      have hFree : ∀ w ∈ z :: zs, key w ≠ key x := by
        intro w hW
        rcases mem_cons.mp hW with rfl | hW
        · exact ne_of_gt hLt
        · exact ne_of_gt (lt_trans hLt (hCons.1 w hW))
      rw [mem_cons]
      constructor
      · rintro (hX | hY)
        · exact .inr ⟨hX, hFree⟩
        · exact .inl hY
      · rintro (hY | hX)
        · exact .inr hY
        · exact .inl hX.1
    · split
      · rename_i hSame
        constructor
        · intro hY
          exact .inl hY
        · rintro (hY | hX)
          · exact hY
          · exact absurd hSame.symm (hX.2 z (by simp))
      · rename_i hNe
        rw [mem_cons, ih hCons.2, mem_cons, forall_mem_cons, or_assoc]
        simp [Ne.symm hNe]

variable {newer : α → α → Bool}

/- A row that no other row of its key differs from is added, whichever the newer is. -/
theorem mem_replace_iff (hSame : ∀ z ∈ t.rows, key z = key x → z = x) :
    y ∈ (t.replace newer x).rows ↔ y ∈ t.rows ∨ y = x := by
  rcases t with ⟨rows, hSorted⟩
  unfold replace
  simp only at hSame ⊢
  clear hSorted
  induction rows with
  | nil => simp [place]
  | cons z zs ih =>
    rw [forall_mem_cons] at hSame
    unfold place
    split
    · rw [mem_cons, or_comm]
    · split
      · rename_i hKey
        have hZ := hSame.1 hKey.symm
        subst hZ
        rw [ite_self, mem_cons]
        tauto
      · rw [mem_cons, ih hSame.2, mem_cons, or_assoc]

variable {xs : List α}

/- Copying rows of a table into a part of it adds them. -/
theorem mem_replaceAll_iff {s : KeyTable α key}
    (hTable : ∀ z ∈ t.rows, z ∈ s.rows) (hRows : ∀ x ∈ xs, x ∈ s.rows) :
    y ∈ (t.replaceAll newer xs).rows ↔ y ∈ t.rows ∨ y ∈ xs := by
  induction xs generalizing t with
  | nil => simp [replaceAll]
  | cons x xs ih =>
    rw [forall_mem_cons] at hRows
    have hReplace : ∀ z, z ∈ (t.replace newer x).rows ↔ z ∈ t.rows ∨ z = x :=
      fun z => mem_replace_iff (fun w hW hKey => s.eq_of_key_eq (hTable w hW) hRows.1 hKey)
    have hNext : ∀ z ∈ (t.replace newer x).rows, z ∈ s.rows := by
      intro z hZ
      rcases (hReplace z).mp hZ with hOld | rfl
      · exact hTable z hOld
      · exact hRows.1
    have hRest := ih hNext hRows.2
    unfold replaceAll at hRest ⊢
    rw [foldl_cons, hRest, hReplace y, mem_cons, or_assoc]

/- Rows past the last key go to the end. -/
theorem rows_insert_of_lt (hLast : ∀ y ∈ t.rows, key y < key x) :
    (t.insert x).rows = t.rows ++ [x] := by
  rcases t with ⟨rows, hSorted⟩
  unfold insert
  simp only at hLast ⊢
  clear hSorted
  induction rows with
  | nil => rfl
  | cons y ys ih =>
    have hLt := hLast y (by simp)
    have hTail : ∀ z ∈ ys, key z < key x := fun z hZ => hLast z (mem_cons_of_mem _ hZ)
    simp [place, not_lt_of_gt hLt, ne_of_gt hLt, ih hTail, cons_append]

/- A batch past the last key is appended. -/
theorem rows_insertAll_append (hSorted : (t.rows ++ xs).Pairwise (fun a b => key a < key b)) :
    (t.insertAll xs).rows = t.rows ++ xs := by
  induction xs generalizing t with
  | nil => simp [insertAll]
  | cons x xs ih =>
    have hInsert : (t.insert x).rows = t.rows ++ [x] := by
      refine rows_insert_of_lt (fun y hY => ?_)
      exact (pairwise_append.mp hSorted).2.2 y hY x (by simp)
    have hRest : ((t.insert x).insertAll xs).rows = (t.insert x).rows ++ xs := by
      apply ih
      rw [hInsert]
      simpa using hSorted
    rw [hInsert] at hRest
    simpa [insertAll] using hRest

/- What is past the last row of a page is what it left. -/
theorem filter_lt_eq_drop (hSorted : xs.Pairwise (fun a b => key a < key b)) {n : Nat}
    (hLast : (xs.take n).getLast? = some y) :
    xs.filter (fun x => key y < key x) = xs.drop n := by
  have hCut := take_append_drop n xs
  rw [← hCut, pairwise_append] at hSorted
  rcases hSorted with ⟨hPage, _, hCross⟩
  have hMem : y ∈ xs.take n := mem_of_getLast? hLast
  have hPast : (xs.take n).filter (fun x => key y < key x) = [] := by
    rw [filter_eq_nil_iff]
    intro x hX
    rcases getLast?_eq_some_iff.mp hLast with ⟨init, hInit⟩
    rw [hInit, pairwise_append] at hPage
    rw [hInit, mem_append, mem_singleton] at hX
    simp only [decide_eq_true_eq, not_lt]
    rcases hX with hX | rfl
    · exact le_of_lt (hPage.2.2 x hX y (by simp))
    · exact le_refl _
  have hKept : (xs.drop n).filter (fun x => key y < key x) = xs.drop n := by
    rw [filter_eq_self]
    intro x hX
    simpa using hCross y hMem x hX
  conv_lhs => rw [← hCut]
  rw [filter_append, hPast, hKept, nil_append]

end KeyTable
