import Mathlib.Data.Finset.Card
import Tracelane.Lib.KeyedFold
import Tracelane.Audit.Types

/-
  The verifier's third pass, `count_anchor_coverage`: which rows lie in no anchor's batch.

  A row below its tenant's last anchored seq that no batch contains is a hole; a row above it is the
  tail.
-/

namespace Tracelane.Verifier

open Std List

--
-- Tables by Tenant
--

/- Append an item to its tenant's list. -/
def recordItem {α β : Type} (item : α → β) (items : Option (List β)) (x : α) : Option (List β) :=
  some (items.getD [] ++ [item x])

/- Pairs compare by start, then by end. -/
def RangeLe (r s : Nat × Nat) : Prop :=
  r.1 < s.1 ∨ (r.1 = s.1 ∧ r.2 ≤ s.2)

instance : DecidableRel RangeLe := by
  unfold RangeLe
  infer_instance

def anchorRanges (anchors : List AnchorRecord) :
    TreeMap String (List (Nat × Nat)) :=
  (KeyedFold.table (fun a : AnchorRecord => a.tenantId)
    (recordItem (fun a : AnchorRecord => (a.batchStartSeq, a.batchEndSeq))) ∅ anchors).map
    (fun _ ranges => ranges.insertionSort RangeLe)

/- The seqs of each tenant's rows from `since` on. -/
def seqsByTenant (since : Nat) (rows : List AuditRow) : TreeMap String (List Nat) :=
  KeyedFold.table (fun row : AuditRow => row.tenantId)
    (recordItem (fun row : AuditRow => row.seq)) ∅
    (rows.filter (fun row => row.seq ≥ since))

--
-- One Tenant
--

/- The counters, the closed gaps, and the open hole. -/
structure CoverState where
  uncovered : Nat := 0
  tail : Nat := 0
  gaps : List (Nat × Nat) := []
  hole : Option (Nat × Nat) := none

/- `dedup`: drop a seq that equals its successor. -/
def dedup : List Nat → List Nat
| a :: b :: rest =>
    if a = b then dedup (b :: rest) else a :: dedup (b :: rest)
| seqs => seqs

/- `sort_unstable` then `dedup`. -/
def sortDedup (seqs : List Nat) : List Nat :=
  dedup (seqs.insertionSort (· ≤ ·))

def covered (ranges : List (Nat × Nat)) (seq : Nat) : Bool :=
  ranges.any (fun r => r.1 ≤ seq && seq ≤ r.2)

/- The seq is below the tenant's last anchored one. -/
def belowWatermark (ranges : List (Nat × Nat)) (seq : Nat) : Bool :=
  match (ranges.map Prod.snd).max? with
  | some w => seq ≤ w
  | none => false

/- One seq's turn over a tenant's sorted seqs. -/
def coverSeq (ranges : List (Nat × Nat)) (st : CoverState) (seq : Nat) : CoverState :=
  if covered ranges seq then
    { st with gaps := st.gaps ++ st.hole.toList, hole := none }
  else if belowWatermark ranges seq then
    match st.hole with
    | some (lo, hi) =>
        if hi + 1 = seq then
          { st with
            uncovered := st.uncovered + 1
            hole := some (lo, seq) }
        else
          { st with
            uncovered := st.uncovered + 1
            gaps := st.gaps ++ [(lo, hi)]
            hole := some (seq, seq) }
    | none =>
        { st with
          uncovered := st.uncovered + 1
          hole := some (seq, seq) }
  else { st with tail := st.tail + 1 }

def coverageGap (tenant : String) (gap : Nat × Nat) : VerifyError where
  seq := some gap.1
  kind := "anchor_coverage_gap"
  detail := "tenant " ++ tenant ++ ": rows " ++
    toString gap.1 ++ ".." ++ toString gap.2 ++ " (" ++
    toString (gap.2 - gap.1 + 1) ++
    " rows) are inside no anchor batch although a later batch exists" ++
    " — unsigned and un-anchored, a hole below the anchor watermark"

/- The turns over one tenant's seqs. -/
def coverSeqs (ranges : List (Nat × Nat)) (seqs : List Nat) : CoverState :=
  (sortDedup seqs).foldl (coverSeq ranges) {}

/- The holes of a tenant, the one left open included. -/
def CoverState.holes (st : CoverState) : List (Nat × Nat) :=
  st.gaps ++ st.hole.toList

/- Count one tenant's seqs and name its holes. -/
def coverTenant (ranges : TreeMap String (List (Nat × Nat)))
    (report : VerifyReport) (entry : String × List Nat) : VerifyReport :=
  let st := coverSeqs ((ranges[entry.1]?).getD []) entry.2
  { report with
    rowsUncoveredByAnchors := report.rowsUncoveredByAnchors + st.uncovered
    rowsUnanchoredTail := report.rowsUnanchoredTail + st.tail
    errors := report.errors ++ st.holes.map (coverageGap entry.1) }

def countAnchorCoverage (rows : List AuditRow) (anchors : List AnchorRecord)
    (report : VerifyReport) : VerifyReport :=
  (seqsByTenant report.verifiedFromSeq rows).toList.foldl
    (coverTenant (anchorRanges anchors)) report

/- One tenant's coverage, looked up in the anchor table. -/
def coverageOf (anchors : List AnchorRecord) (entry : String × List Nat) : CoverState :=
  coverSeqs (((anchorRanges anchors)[entry.1]?).getD []) entry.2

/- What the coverage pass writes. -/
theorem countAnchorCoverage_report (rows : List AuditRow) (anchors : List AnchorRecord)
    (report : VerifyReport) :
    let entries := (seqsByTenant report.verifiedFromSeq rows).toList
    countAnchorCoverage rows anchors report =
      { report with
        rowsUncoveredByAnchors := report.rowsUncoveredByAnchors +
          (entries.map (fun entry => (coverageOf anchors entry).uncovered)).sum
        rowsUnanchoredTail := report.rowsUnanchoredTail +
          (entries.map (fun entry => (coverageOf anchors entry).tail)).sum
        errors := report.errors ++
          entries.flatMap (fun entry =>
            (coverageOf anchors entry).holes.map
              (coverageGap entry.1)) } := by
  intro entries
  change entries.foldl (coverTenant (anchorRanges anchors)) report = _
  clear_value entries
  induction entries generalizing report with
  | nil => simp
  | cons entry entries ih =>
    rw [foldl_cons, ih]
    simp [coverTenant, coverageOf, Nat.add_assoc]

--
-- Counts
--

variable (seqs : List Nat)

theorem mem_dedup (q : Nat) :
    q ∈ dedup seqs ↔ q ∈ seqs := by
  induction seqs using dedup.induct with
  | case1 b rest ih => simpa [dedup] using ih
  | case2 a b rest hNe ih => simp [dedup, hNe, ih]
  | case3 seqs hShort => simp [dedup]

theorem pairwise_dedup (hSorted : seqs.Pairwise (· ≤ ·)) :
    (dedup seqs).Pairwise (· < ·) := by
  induction seqs using dedup.induct with
  | case1 b rest ih => simpa [dedup] using ih (pairwise_cons.mp hSorted).2
  | case2 a b rest hNe ih =>
    rw [pairwise_cons] at hSorted
    simp only [dedup, hNe, if_false, pairwise_cons]
    refine ⟨?_, ih hSorted.2⟩
    intro q hQ
    rw [mem_dedup] at hQ
    have hLe := hSorted.1 b (by simp)
    rcases mem_cons.mp hQ with rfl | hRest
    · omega
    · have hNext := (pairwise_cons.mp hSorted.2).1 q hRest
      omega
  | case3 seqs hShort =>
    cases seqs with
    | nil => exact Pairwise.nil
    | cons a rest =>
      cases rest with
      | nil => exact pairwise_singleton _ _
      | cons b rest => exact absurd rfl (hShort a b rest)

theorem mem_sortDedup (q : Nat) :
    q ∈ sortDedup seqs ↔ q ∈ seqs := by
  rw [sortDedup, mem_dedup, mem_insertionSort]

theorem nodup_sortDedup :
    (sortDedup seqs).Nodup :=
  (pairwise_dedup _ (pairwise_insertionSort (· ≤ ·) seqs)).imp (fun hLt => Nat.ne_of_lt hLt)

/- An uncovered seq below, and above, the last anchored one. -/
def holeAt (ranges : List (Nat × Nat)) (seq : Nat) : Bool :=
  !covered ranges seq && belowWatermark ranges seq

def tailAt (ranges : List (Nat × Nat)) (seq : Nat) : Bool :=
  !covered ranges seq && !belowWatermark ranges seq

variable (ranges : List (Nat × Nat))

theorem foldl_coverSeq_counts (seqs : List Nat) (st : CoverState) :
    (seqs.foldl (coverSeq ranges) st).uncovered = st.uncovered + seqs.countP (holeAt ranges) ∧
      (seqs.foldl (coverSeq ranges) st).tail = st.tail + seqs.countP (tailAt ranges) := by
  induction seqs generalizing st with
  | nil => simp
  | cons q seqs ih =>
    rcases ih (coverSeq ranges st q) with ⟨hHoles, hTail⟩
    rw [foldl_cons, hHoles, hTail, countP_cons, countP_cons]
    unfold coverSeq
    cases hCovered : covered ranges q with
    | true => simp [holeAt, tailAt, hCovered]
    | false =>
      cases hBelow : belowWatermark ranges q with
      | false =>
        simp [holeAt, tailAt, hCovered, hBelow]
        omega
      | true =>
        simp only [Bool.false_eq_true, if_false, if_true, holeAt, tailAt, hCovered, hBelow,
          Bool.not_true, Bool.not_false, Bool.and_self, Bool.and_false]
        split
        · split <;> simp <;> omega
        · simp
          omega

/- The counters of one tenant's coverage. -/
theorem coverSeqs_counts (seqs : List Nat) :
    (coverSeqs ranges seqs).uncovered = (sortDedup seqs).countP (holeAt ranges) ∧
      (coverSeqs ranges seqs).tail = (sortDedup seqs).countP (tailAt ranges) := by
  simpa [coverSeqs] using foldl_coverSeq_counts ranges (sortDedup seqs) {}

/- The distinct seqs from `v` on that satisfy `p`. -/
def countFrom (p : Nat → Bool) (v : Nat) (seqs : List Nat) : Nat :=
  (sortDedup (seqs.filter (fun q => v ≤ q))).countP p

variable (p : Nat → Bool)

theorem countFrom_eq_card (v : Nat) (seqs : List Nat) :
    countFrom p v seqs = (seqs.toFinset.filter (fun q => v ≤ q ∧ p q = true)).card := by
  rw [countFrom, countP_eq_length_filter, ← toFinset_card_of_nodup ((nodup_sortDedup _).filter _)]
  congr 1
  ext q
  simp [mem_sortDedup, and_assoc]

/- Counting from later on counts no more. -/
theorem countFrom_anti {v w : Nat} (hLe : v ≤ w) (seqs : List Nat) :
    countFrom p w seqs ≤ countFrom p v seqs := by
  rw [countFrom_eq_card, countFrom_eq_card]
  refine Finset.card_le_card (fun q hQ => ?_)
  simp only [Finset.mem_filter] at hQ ⊢
  exact ⟨hQ.1, by omega, hQ.2.2⟩

/- It counts the same exactly when nothing lies between. -/
theorem countFrom_eq_iff {v w : Nat} (hLe : v ≤ w) (seqs : List Nat) :
    countFrom p w seqs = countFrom p v seqs ↔ ∀ q ∈ seqs, v ≤ q → q < w → p q = false := by
  have hSub :
      seqs.toFinset.filter (fun q => w ≤ q ∧ p q = true) ⊆
        seqs.toFinset.filter (fun q => v ≤ q ∧ p q = true) := by
    intro q hQ
    simp only [Finset.mem_filter] at hQ ⊢
    exact ⟨hQ.1, by omega, hQ.2.2⟩
  rw [countFrom_eq_card, countFrom_eq_card]
  constructor
  · intro hCard q hQ hLow hHigh
    have hSame := Finset.eq_of_subset_of_card_le hSub hCard.ge
    by_contra hP
    rw [Bool.not_eq_false] at hP
    have hIn : q ∈ seqs.toFinset.filter (fun q => v ≤ q ∧ p q = true) := by simp [hQ, hLow, hP]
    rw [← hSame] at hIn
    simp only [Finset.mem_filter] at hIn
    omega
  · intro hNone
    congr 1
    refine Finset.Subset.antisymm hSub (fun q hQ => ?_)
    simp only [Finset.mem_filter, mem_toFinset] at hQ ⊢
    refine ⟨hQ.1, ?_, hQ.2.2⟩
    by_contra hLow
    have hFalse := hNone q hQ.1 hQ.2.1 (by omega)
    rw [hFalse] at hQ
    exact absurd hQ.2.2 (by simp)

end Tracelane.Verifier
