import Mathlib.Data.List.Perm.Basic
import Mathlib.Data.List.Nodup

/-
  Dictionaries that keep the order their keys came in.

  Setting a key that is there keeps its place; a new key goes to the end.
-/

structure Dict (κ α : Type) where
  entries : List (κ × α)
  nodup : (entries.map Prod.fst).Nodup

namespace Dict

open List

variable {κ α β γ : Type} [DecidableEq κ]

instance : EmptyCollection (Dict κ α) where
  emptyCollection := ⟨[], nodup_nil⟩

def get? (d : Dict κ α) (k : κ) : Option α :=
  d.entries.lookup k

--
-- Set
--

def setEntry (k : κ) (v : α) : List (κ × α) → List (κ × α)
| [] => [(k, v)]
| e :: es => if e.1 = k then (k, v) :: es else e :: setEntry k v es

variable {k k' : κ} {v : α}

theorem lookup_cons_eq (e : κ × α) (es : List (κ × α)) :
    (e :: es).lookup k = if k = e.1 then some e.2 else es.lookup k := by
  rw [lookup_cons]
  by_cases hSame : k = e.1
  · rw [if_pos hSame, beq_iff_eq.mpr hSame]
  · rw [if_neg hSame, beq_eq_false_iff_ne.mpr hSame]

theorem mem_keys_setEntry_iff (es : List (κ × α)) :
    k' ∈ (setEntry k v es).map Prod.fst ↔ k' = k ∨ k' ∈ es.map Prod.fst := by
  induction es with
  | nil => simp [setEntry]
  | cons e es ih =>
    unfold setEntry
    split_ifs with hSame
    · simp [hSame]
    · rw [map_cons, mem_cons, ih, map_cons, mem_cons]
      tauto

theorem nodup_setEntry {es : List (κ × α)} (hNodup : (es.map Prod.fst).Nodup) :
    ((setEntry k v es).map Prod.fst).Nodup := by
  induction es with
  | nil => exact nodup_singleton k
  | cons e es ih =>
    rw [map_cons, nodup_cons] at hNodup
    unfold setEntry
    split
    · rename_i hSame
      rw [map_cons, nodup_cons, ← hSame]
      exact hNodup
    · rename_i hOther
      rw [map_cons, nodup_cons, mem_keys_setEntry_iff]
      refine ⟨?_, ih hNodup.2⟩
      rintro (hSame | hMem)
      · exact hOther hSame
      · exact hNodup.1 hMem

theorem lookup_setEntry (es : List (κ × α)) :
    (setEntry k v es).lookup k' =
      if k' = k then some v else es.lookup k' := by
  induction es with
  | nil => exact lookup_cons_eq (k, v) []
  | cons e es ih =>
    unfold setEntry
    split
    · rename_i hHere
      rw [lookup_cons_eq, lookup_cons_eq, hHere]
      split
      · rfl
      · rfl
    · rename_i hOther
      rw [lookup_cons_eq, lookup_cons_eq, ih]
      by_cases hSame : k' = e.1
      · rw [if_pos hSame, if_pos hSame, hSame, if_neg hOther]
      · rw [if_neg hSame, if_neg hSame]

def set (d : Dict κ α) (k : κ) (v : α) : Dict κ α where
  entries := setEntry k v d.entries
  nodup := nodup_setEntry d.nodup

variable (d : Dict κ α)

theorem get?_set :
    (d.set k v).get? k' = if k' = k then some v else d.get? k' :=
  lookup_setEntry d.entries

theorem mem_entries_iff :
    (k, v) ∈ d.entries ↔ d.get? k = some v := by
  rcases d with ⟨es, hNodup⟩
  unfold get?
  simp only
  induction es with
  | nil => simp
  | cons e es ih =>
    rw [map_cons, nodup_cons] at hNodup
    rw [mem_cons, lookup_cons_eq]
    by_cases hSame : k = e.1
    · rw [if_pos hSame]
      constructor
      · rintro (hHere | hMem)
        · rw [← hHere]
        · apply absurd _ hNodup.1
          rw [← hSame]
          exact mem_map_of_mem hMem
      · intro hHere
        left
        rw [← Option.some.inj hHere, hSame]
    · rw [if_neg hSame, ← ih hNodup.2]
      constructor
      · rintro (hHere | hMem)
        · exact absurd (congrArg Prod.fst hHere) hSame
        · exact hMem
      · exact Or.inr

--
-- Maps And Tallies
--

def mapValues (f : κ → α → β) (d : Dict κ α) : Dict κ β where
  entries := d.entries.map (fun e => (e.1, f e.1 e.2))
  nodup := by
    rw [map_map]
    exact d.nodup

theorem get?_mapValues (f : κ → α → β) (d : Dict κ α) :
    (d.mapValues f).get? k = (d.get? k).map (f k) := by
  unfold get? mapValues
  simp only
  induction d.entries with
  | nil => rfl
  | cons e es ih =>
    rw [map_cons, lookup_cons_eq, lookup_cons_eq]
    by_cases hSame : k = e.1
    · rw [if_pos hSame, if_pos hSame, hSame]
      rfl
    · rw [if_neg hSame, if_neg hSame]
      exact ih

/- Every item sets its key to what it makes of its value. -/
def tally (key : γ → κ) (step : Option α → γ → α) (d : Dict κ α) (xs : List γ) : Dict κ α :=
  xs.foldl (fun d x => d.set (key x) (step (d.get? (key x)) x)) d

/- A key's value is made of its own items. -/
theorem get?_tally (key : γ → κ) (step : Option α → γ → α) (d : Dict κ α) (xs : List γ) (k : κ) :
    (tally key step d xs).get? k =
      (xs.filter (fun x => key x = k)).foldl (fun s x => some (step s x)) (d.get? k) := by
  induction xs generalizing d with
  | nil => rfl
  | cons x xs ih =>
    have hTail := ih (d.set (key x) (step (d.get? (key x)) x))
    rw [get?_set] at hTail
    by_cases hKey : key x = k
    · subst hKey
      simpa [tally] using hTail
    · have hOther : ¬ k = key x := fun hSame => hKey hSame.symm
      simpa [tally, hKey, hOther] using hTail

/- The entries of a dictionary, in another order. -/
theorem perm_of_get? {es : List (κ × α)} (hNodup : es.Nodup)
    (hSame : ∀ k v, (k, v) ∈ es ↔ d.get? k = some v) :
    d.entries.Perm es := by
  rw [perm_ext_iff_of_nodup (Nodup.of_map _ d.nodup) hNodup]
  rintro ⟨k, v⟩
  rw [mem_entries_iff, hSame]

end Dict
