import Mathlib.Data.Finset.Card
import Tracelane.Lib.Run
import Tracelane.Gateway.Budgets

/-
  Charging a completed batch: a retrieval claims it, reads
  whether a spend span is recorded, and publishes one if not.
-/

namespace Tracelane.Gateway.Batches

open List Transition

abbrev Key := TenantId × String

def recordedBatchesMax : Nat := 100000

/- 45 days. -/
def recordedBatchTtl : Int := 45 * 86400

/- Whether the claim is the first. -/
def claimBatch (set : HashTable Key DateTime) (now : DateTime) (key : Key) :
    Bool × HashTable Key DateTime :=
  let set :=
    if recordedBatchesMax ≤ set.entries.length then
      let kept := set.retain (fun _ at' => now - recordedBatchTtl < at')
      if recordedBatchesMax ≤ kept.entries.length then ∅ else kept
    else set
  ((set.lookup key).isNone, set.insert key now)

/- `completed` has the batches returned as completed. -/
structure State where
  recorded : HashTable Key DateTime := ∅
  waiting : List Key := []
  published : List Key := []
  completed : List Key := []

/- A read that failed has counted nothing. -/
inductive Event where
| retrieve (now : DateTime) (tenant : TenantId) (status id : Option String)
| counted (i : Nat) (found : Option Nat)
| cancel (i : Nat)

/- The batch a retrieval is to charge. -/
def Event.batch : Event → Option Key
| .retrieve _ tenant status id =>
    if status = some "completed" then id.map (fun id => (tenant, id)) else none
| _ => none

def step (s : State) : Event → Option State
| .retrieve now tenant status id =>
    match (Event.retrieve now tenant status id).batch with
    | none => some s
    | some key =>
        let claim := claimBatch s.recorded now key
        if claim.1 then some { s with recorded := claim.2, waiting := key :: s.waiting }
        else some { s with recorded := claim.2, completed := key :: s.completed }
| .counted i found => do
    let key ← s.waiting[i]?
    let s := { s with waiting := s.waiting.eraseIdx i, completed := key :: s.completed }
    if found.any (0 < ·) then
      -- No span is counted that was not published.
      if key ∈ s.published then some s else none
    else some { s with published := key :: s.published }
| .cancel i => do
    let _ ← s.waiting[i]?
    some { s with waiting := s.waiting.eraseIdx i }

/- What was returned as completed is published once. -/
def Exact (s : State) : Prop :=
  ∀ key ∈ s.completed, s.published.count key = 1

/- A batch found claimed has been published. -/
def Settled (s : State) (e : Event) : Prop :=
  ∀ key ∈ e.batch, key ∈ s.recorded → key ∈ s.published

structure Inv (K : Finset Key) (s : State) : Prop where
  claimed : ∀ key ∈ s.waiting ++ s.published, key ∈ s.recorded
  once : (s.waiting ++ s.published).Nodup
  within : ∀ key ∈ s.recorded, key ∈ K

variable {K : Finset Key} {s t : State} {e : Event} {trace : List Event}

theorem Inv.exact_iff (hInv : Inv K s) : Exact s ↔ s.completed ⊆ s.published := by
  have hOnce := (nodup_append.mp hInv.once).2.1
  constructor
  · intro hExact key hKey
    exact one_le_count_iff.mp (hExact key hKey).ge
  · intro hSub key hKey
    exact count_eq_one_of_mem hOnce (hSub hKey)

theorem Inv.claimBatch_eq (hInv : Inv K s) (hRoom : K.card < recordedBatchesMax) (now : DateTime)
    (key : Key) :
    claimBatch s.recorded now key =
      ((s.recorded.lookup key).isNone, s.recorded.insert key now) := by
  have hKeys : s.recorded.keys.toFinset ⊆ K := fun key hKey =>
    hInv.within key (mem_toFinset.mp hKey)
  have hCard := Finset.card_le_card hKeys
  rw [toFinset_card_of_nodup s.recorded.keys_nodup, AList.keys, List.keys, length_map] at hCard
  simp [claimBatch, not_le.mpr (hCard.trans_lt hRoom)]

/- A waiting call is one claim of the invariant. -/
theorem Inv.waiting_at (hInv : Inv K s) {i : Nat} {key : Key} (hAt : s.waiting[i]? = some key) :
    (key :: (s.waiting.eraseIdx i ++ s.published)).Nodup ∧
      ∀ k ∈ key :: (s.waiting.eraseIdx i ++ s.published), k ∈ s.recorded := by
  obtain ⟨hLt, rfl⟩ := List.getElem?_eq_some_iff.mp hAt
  have hPerm := (getElem_cons_eraseIdx_perm hLt).append_right s.published
  exact ⟨hPerm.nodup_iff.mpr hInv.once, fun k hMem => hInv.claimed k (hPerm.subset hMem)⟩

theorem step_exact_iff (hRoom : K.card < recordedBatchesMax) (hInv : Inv K s)
    (hIn : ∀ key ∈ e.batch, key ∈ K) (hStep : step s e = some t) :
    Inv K t ∧ (Exact s → (Exact t ↔ Settled s e)) := by
  suffices hSub : Inv K t ∧ (s.completed ⊆ s.published →
      (t.completed ⊆ t.published ↔ Settled s e)) by
    rwa [hInv.exact_iff, hSub.1.exact_iff]
  cases e with
  | retrieve now tenant status id =>
    simp only [step] at hStep
    split at hStep
    · rename_i hNone
      cases hStep
      exact ⟨hInv, fun hSub => iff_of_true hSub (by simp [Settled, hNone])⟩
    · rename_i key hKey
      have hWithin : ∀ k ∈ s.recorded.insert key now, k ∈ K := by
        intro k hMem
        rcases (AList.mem_insert _).mp hMem with rfl | hOld
        · exact hIn _ hKey
        · exact hInv.within k hOld
      simp only [hInv.claimBatch_eq hRoom, Option.isNone_iff_eq_none, AList.lookup_eq_none] at hStep
      split_ifs at hStep with hSeen <;> cases hStep
      · -- A batch that was claimed is returned as it is.
        refine ⟨⟨fun k hMem => ?_, hInv.once, hWithin⟩, fun hSub => ?_⟩
        · exact (AList.mem_insert _).mpr (.inr (hInv.claimed k hMem))
        · simp [Settled, hKey, hSeen, hSub]
      · -- The first claim waits, and nothing is returned yet.
        have hOnce := nodup_cons.mpr ⟨fun hMem => hSeen (hInv.claimed key hMem), hInv.once⟩
        refine ⟨⟨?_, hOnce, hWithin⟩, fun hSub => iff_of_true hSub ?_⟩
        · exact forall_mem_cons.mpr ⟨by simp, fun k hMem =>
            (AList.mem_insert _).mpr (.inr (hInv.claimed k hMem))⟩
        · simp [Settled, hKey, hSeen]
  | counted i found =>
    simp only [step, Option.bind_eq_bind, Option.bind_eq_some_iff] at hStep
    obtain ⟨key, hKey, hStep⟩ := hStep
    obtain ⟨hOnce, hOld⟩ := hInv.waiting_at hKey
    split_ifs at hStep with hFound hPublished <;> cases hStep
    · -- A call that waits has published nothing.
      exact absurd (mem_append_right _ hPublished) (nodup_cons.mp hOnce).1
    · have hPerm := @perm_middle _ key (s.waiting.eraseIdx i) s.published
      refine ⟨⟨fun k hMem => hOld k (hPerm.subset hMem), hPerm.nodup_iff.mpr hOnce, hInv.within⟩,
        fun hSub => iff_of_true (cons_subset_cons key hSub) ?_⟩
      simp [Settled, Event.batch]
  | cancel i =>
    simp only [step, Option.bind_eq_bind, Option.bind_eq_some_iff] at hStep
    obtain ⟨key, hKey, hStep⟩ := hStep
    obtain ⟨hOnce, hOld⟩ := hInv.waiting_at hKey
    cases hStep
    refine ⟨⟨fun k hMem => hOld k (mem_cons_of_mem _ hMem), (nodup_cons.mp hOnce).2, hInv.within⟩,
      fun hSub => iff_of_true hSub ?_⟩
    simp [Settled, Event.batch]

theorem Inv.run_exact_iff (hRoom : K.card < recordedBatchesMax)
    (hIn : ∀ e ∈ trace, ∀ key ∈ e.batch, key ∈ K) (hInv : Inv K s) (hExact : Exact s) :
    Run (fun s e t => step s e = some t ∧ Exact t) s trace t ↔
      Run (fun s e t => step s e = some t ∧ Settled s e) s trace t := by
  induction trace generalizing s with
  | nil => simp only [Run.nil_iff]
  | cons e trace ih =>
    obtain ⟨hHere, hLater⟩ := forall_mem_cons.mp hIn
    simp only [Run.cons_iff, and_assoc]
    refine exists_congr fun u => and_congr_right fun hStep => ?_
    obtain ⟨hKept, hIff⟩ := step_exact_iff hRoom hInv hHere hStep
    rw [← hIff hExact]
    exact and_congr_right (ih hLater hKept)

theorem charged_once_iff
    (hRoom : (trace.filterMap Event.batch).toFinset.card < recordedBatchesMax) :
    Run (fun s e t => step s e = some t ∧ Exact t) {} trace t ↔
      Run (fun s e t => step s e = some t ∧ Settled s e) {} trace t := by
  refine Inv.run_exact_iff hRoom ?_ ⟨by simp, by simp, by simp⟩ (by simp [Exact])
  intro e hMem key hKey
  exact mem_toFinset.mpr (mem_filterMap.mpr ⟨e, hMem, hKey⟩)

def retrieval : Event := .retrieve 0 (.zero 16) (some "completed") (some "b")

/- The first caller leaves while the spans are counted. -/
theorem cancelled_uncharged :
    ∃ t, Run (fun s e t => step s e = some t) {} [retrieval, .cancel 0, retrieval] t ∧ ¬Exact t :=
  Run.eval (by unfold Exact; decide)

theorem charged_once_published :
    ∃ t,
      Run (fun s e t => step s e = some t ∧ Exact t) {} [retrieval, .counted 0 none, retrieval]
        t := by
  refine Exists.imp (fun t => (charged_once_iff (by decide)).mpr)
    ⟨_, .cons ⟨rfl, ?_⟩ (.cons ⟨rfl, ?_⟩ (.cons ⟨rfl, ?_⟩ (.nil _)))⟩
  all_goals (unfold Settled; decide)

end Tracelane.Gateway.Batches
