import Mathlib.Algebra.Order.Ring.Int
import Mathlib.Data.List.AList
import Mathlib.Algebra.Order.Group.Nat
import Mathlib.Algebra.Order.BigOperators.Group.List

/-
  Hash tables, as association lists with one value a key.

  A table is weighed by the sum of a weight of its entries, so that a counter kept beside a table
  can be compared with what the table holds.
-/

abbrev HashTable (κ α : Type) : Type :=
  AList (fun _ : κ => α)

namespace HashTable

open List

variable {κ α : Type}

/- Keep the entries a test accepts. -/
def retain (keep : κ → α → Bool) (t : HashTable κ α) : HashTable κ α where
  entries := t.entries.filter (fun e => keep e.1 e.2)
  nodupKeys := t.nodupKeys.sublist filter_sublist

/- Change every value in place. -/
def mapVal (f : α → α) (t : HashTable κ α) : HashTable κ α where
  entries := t.entries.map (fun e => ⟨e.1, f e.2⟩)
  nodupKeys := by
    have hKeys : (t.entries.map (fun e => (⟨e.1, f e.2⟩ : (_ : κ) × α))).keys = t.entries.keys := by
      simp [keys, Function.comp_def]
    rw [NodupKeys, hKeys]
    exact t.nodupKeys

/- The sum of a weight over the entries. -/
def weigh (w : κ → α → Nat) (t : HashTable κ α) : Nat :=
  (t.entries.map (fun e => w e.1 e.2)).sum

variable {keep : κ → α → Bool} {w : κ → α → Nat} {t : HashTable κ α} {k : κ}
variable {v : α}

/- What is kept and what is dropped weigh the table. -/
theorem weigh_retain (w : κ → α → Nat) (keep : κ → α → Bool) (t : HashTable κ α) :
    weigh w (retain keep t) + weigh w (retain (fun k v => !keep k v) t) = weigh w t := by
  simp only [weigh, retain]
  induction t.entries with
  | nil => rfl
  | cons e es ih =>
    simp only [filter_cons]
    cases keep e.1 e.2
    · simp only [Bool.false_eq_true, if_false, Bool.not_false, if_true, map_cons, sum_cons]
      omega
    · simp only [if_true, Bool.not_true, Bool.false_eq_true, if_false, map_cons, sum_cons]
      omega

/- Where nothing is dropped, what is dropped weighs nothing. -/
theorem weigh_dropped (hLen : (retain keep t).entries.length = t.entries.length) :
    weigh w (retain (fun k v => !keep k v) t) = 0 := by
  have hAll := length_filter_eq_length_iff.mp hLen
  have hNone : t.entries.filter (fun e => !keep e.1 e.2) = [] := by
    apply filter_eq_nil_iff.mpr
    intro e hMem
    simp [hAll e hMem]
  simp only [weigh, retain, hNone, map_nil, sum_nil]

theorem weigh_congr {w' : κ → α → Nat} (hSame : ∀ e ∈ t.entries, w e.1 e.2 = w' e.1 e.2) :
    weigh w t = weigh w' t := by
  unfold weigh
  rw [map_congr_left hSame]

theorem weigh_one :
    weigh (fun _ _ => 1) t = t.entries.length := by
  simp [weigh]

/- Positive weights sum to their number if each is one. -/
theorem weigh_eq_length_iff (w : κ → α → Nat) (hPos : ∀ e ∈ t.entries, 0 < w e.1 e.2) :
    weigh w t = t.entries.length ↔ ∀ e ∈ t.entries, w e.1 e.2 = 1 := by
  constructor
  · intro hSum e hMem
    by_contra hNot
    have hMore : 1 < w e.1 e.2 := by
      have hHere := hPos e hMem
      omega
    have hLess : weigh (fun _ _ => 1) t < weigh w t := sum_lt_sum _ _ hPos ⟨e, hMem, hMore⟩
    rw [weigh_one, hSum] at hLess
    exact lt_irrefl _ hLess
  · intro hOne
    rw [← weigh_one]
    exact weigh_congr hOne

theorem retain_comm (keep keep' : κ → α → Bool) (t : HashTable κ α) :
    retain keep (retain keep' t) = retain keep' (retain keep t) :=
  AList.ext (filter_comm ..)

theorem retain_idem :
    retain keep (retain keep t) = retain keep t :=
  AList.ext (by simp [retain])

variable [DecidableEq κ]

theorem mem_entries_iff :
    ⟨k, v⟩ ∈ t.entries ↔ t.lookup k = some v :=
  AList.mem_lookup_iff.symm

theorem lookup_retain :
    (retain keep t).lookup k = (t.lookup k).filter (keep k) := by
  apply Option.ext
  intro v
  rw [Option.filter_eq_some_iff, ← mem_entries_iff, ← mem_entries_iff]
  exact mem_filter

theorem lookup_mapVal (f : α → α) :
    (mapVal f t).lookup k = (t.lookup k).map f := by
  apply Option.ext
  intro v
  rw [Option.map_eq_some_iff, ← mem_entries_iff]
  simp only [mapVal, mem_map, Sigma.mk.injEq, ← mem_entries_iff]
  constructor
  · rintro ⟨⟨k', v'⟩, hMem, rfl, hV⟩
    exact ⟨v', hMem, eq_of_heq hV⟩
  · rintro ⟨v', hMem, hV⟩
    exact ⟨⟨k, v'⟩, hMem, rfl, heq_of_eq hV⟩

theorem retain_erase (keep : κ → α → Bool) (t : HashTable κ α) (k : κ) :
    retain keep (t.erase k) = (retain keep t).erase k := by
  have hEntries :
      ∀ es : List ((_ : κ) × α), es.NodupKeys →
        (es.kerase k).filter (fun e => keep e.1 e.2) =
          (es.filter (fun e => keep e.1 e.2)).kerase k := by
    intro es
    induction es with
    | nil =>
      intro _
      rfl
    | cons e es ih =>
      intro hDistinct
      rw [nodupKeys_cons] at hDistinct
      have hIh := ih hDistinct.2
      by_cases hSame : k = e.1
      · rw [kerase_cons_eq hSame, filter_cons]
        split
        · rw [kerase_cons_eq hSame]
        · rw [← hIh, kerase_of_notMem_keys]
          rw [hSame]
          exact hDistinct.1
      · rw [kerase_cons_ne hSame, filter_cons, filter_cons]
        split
        · rw [kerase_cons_ne hSame, hIh]
        · exact hIh
  exact AList.ext (hEntries t.entries t.nodupKeys)

theorem retain_insert :
    retain keep ((retain keep t).insert k v) = retain keep (t.insert k v) := by
  have hErase :
      (t.entries.filter (fun e => keep e.1 e.2)).kerase k =
        (t.entries.kerase k).filter (fun e => keep e.1 e.2) :=
    congrArg (fun t => t.entries) (retain_erase keep t k).symm
  apply AList.ext
  simp only [retain, AList.entries_insert, hErase, filter_cons, filter_filter, Bool.and_self]

/- A sum over the entries of one key is that of its value. -/
theorem sum_entries_of_key {M : Type} [AddCommMonoid M] (t : HashTable κ α) (k : κ) (f : α → M) :
    (t.entries.map (fun e => if e.1 = k then f e.2 else 0)).sum =
      (t.lookup k).elim 0 f := by
  have hSum :
      ∀ es : List ((_ : κ) × α), es.NodupKeys →
        (es.map (fun e => if e.1 = k then f e.2 else 0)).sum =
          (es.dlookup k).elim 0 f := by
    intro es
    induction es with
    | nil =>
      intro _
      rfl
    | cons e es ih =>
      intro hDistinct
      rw [nodupKeys_cons] at hDistinct
      rw [map_cons, sum_cons, ih hDistinct.2]
      rcases e with ⟨k', v⟩
      by_cases hSame : k' = k
      · subst hSame
        have hLater : es.dlookup k' = none := dlookup_eq_none.mpr hDistinct.1
        rw [dlookup_cons_eq, hLater, if_pos rfl]
        exact add_zero _
      · rw [dlookup_cons_ne _ _ (Ne.symm hSame), if_neg hSame, zero_add]
  exact hSum t.entries t.nodupKeys

/- The table weighs at least what an entry does. -/
theorem le_weigh (w : κ → α → Nat) (hLookup : t.lookup k = some v) :
    w k v ≤ weigh w t := by
  apply single_le_sum (fun _ _ => Nat.zero_le _)
  apply mem_map.mpr
  exact ⟨⟨k, v⟩, mem_entries_iff.mpr hLookup, rfl⟩

/- What holds of an entry and of the table holds of both. -/
theorem forall_lookup_insert {P : κ → α → Prop} (hHere : P k v)
    (hTable : ∀ k v, t.lookup k = some v → P k v) :
    ∀ k' v', (t.insert k v).lookup k' = some v' → P k' v' := by
  intro k' v' hLookup
  by_cases hSame : k' = k
  · subst hSame
    rw [AList.lookup_insert] at hLookup
    cases hLookup
    exact hHere
  · rw [AList.lookup_insert_ne hSame] at hLookup
    exact hTable k' v' hLookup

/- A new entry adds its weight, in place of an old one's. -/
theorem weigh_insert (w : κ → α → Nat) (t : HashTable κ α) (k : κ) (v : α) :
    weigh w (t.insert k v) + (t.lookup k).elim 0 (w k) = w k v + weigh w t := by
  cases hOld : t.lookup k with
  | none =>
    unfold weigh
    rw [AList.entries_insert_of_notMem (AList.lookup_eq_none.mp hOld)]
    exact sum_cons
  | some old =>
    have hKey : k ∈ t.entries.keys := by
      apply AList.lookup_isSome.mp
      rw [hOld]
      rfl
    rcases exists_of_kerase hKey with ⟨value, before, after, _, hEntries, hErase⟩
    have hValue : value = old := by
      have hMem : ⟨k, value⟩ ∈ t.entries := by
        rw [hEntries]
        simp
      have hSame := mem_entries_iff.mp hMem
      rw [hOld] at hSame
      exact (Option.some.inj hSame).symm
    unfold weigh
    rw [AList.entries_insert, hErase, hEntries, hValue]
    simp only [map_cons, map_append, sum_cons, sum_append, Option.elim_some]
    omega

--
-- Folds Over Distinct Keys
--

/-
  A loop over items, each of which touches only the entry of
  its own key, seen through the lookups of its state.
-/
section Touch

variable {σ γ : Type} (look : σ → κ → Option α) (key : γ → κ) {next : σ → γ → σ}
variable (touch : γ → Option α → Option α)

omit [DecidableEq κ] in
theorem look_foldl_of_notMem
    (hFrame : ∀ s c k, k ≠ key c → look (next s c) k = look s k) {cs : List γ}
    (hKey : k ∉ cs.map key) (s : σ) :
    look (cs.foldl next s) k = look s k := by
  induction cs generalizing s with
  | nil => rfl
  | cons c cs ih =>
    rw [map_cons, mem_cons, not_or] at hKey
    rw [foldl_cons, ih hKey.2, hFrame _ _ _ hKey.1]

omit [DecidableEq κ] in
/- Under distinct keys each item meets its entry untouched. -/
theorem look_foldl_of_mem (hFrame : ∀ s c k, k ≠ key c → look (next s c) k = look s k)
    (hTouch : ∀ s c, look (next s c) (key c) = touch c (look s (key c)))
    {cs : List γ} (hDistinct : (cs.map key).Nodup) {c : γ} (hMem : c ∈ cs) (s : σ) :
    look (cs.foldl next s) (key c) = touch c (look s (key c)) := by
  induction cs generalizing s with
  | nil => cases hMem
  | cons d cs ih =>
    rw [map_cons, nodup_cons] at hDistinct
    rw [foldl_cons]
    rcases mem_cons.mp hMem with rfl | hLater
    · rw [look_foldl_of_notMem look key hFrame hDistinct.1, hTouch]
    · have hOther : key c ≠ key d := by
        intro hSame
        apply hDistinct.1
        rw [← hSame]
        exact mem_map_of_mem hLater
      rw [ih hDistinct.2 hLater, hFrame _ _ _ hOther]

end Touch

end HashTable
