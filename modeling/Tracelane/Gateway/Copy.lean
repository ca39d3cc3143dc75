import Tracelane.Gateway.Append

/-
  The derived copy of a tenant's ledger in ClickHouse, and `rebuild_copy_for_tenant`, which writes
  what the copy lacks.

  The copied rows are a `ReplacingMergeTree` keyed by seq with the event time as version, read with
  `FINAL`; the anchor records are a plain list.
-/

namespace Tracelane.Gateway

open List

--
-- Copy
--

structure Copy where
  rows : KeyTable AuditLogRow AuditLogRow.seq := ∅
  anchors : List AuditAnchorRecordRow := []

/- One insert into the copy. -/
inductive CopyWrite where
| rows (rows : List AuditLogRow)
| anchor (record : AuditAnchorRecordRow)
deriving DecidableEq

/- The later event time wins, and the later insert of two. -/
def newerVersion (old new : AuditLogRow) : Bool :=
  old.eventTime ≤ new.eventTime

def Copy.write (copy : Copy) : CopyWrite → Copy
| .rows rows =>
    { copy with rows := copy.rows.replaceAll newerVersion rows }
| .anchor record =>
    { copy with anchors := copy.anchors ++ [record] }

def readFullRowsAfter (copy : Copy) (tenantId : TenantId)
    (afterSeq limit : Nat) : List AuditLogRow :=
  (copy.rows.rows.filter (fun row => row.tenantId = tenantId ∧ afterSeq < row.seq)).take limit

def readFullRowsFrom (copy : Copy) (tenantId : TenantId) (fromSeq limit : Nat) : List AuditLogRow :=
  (copy.rows.rows.filter (fun row => row.tenantId = tenantId ∧ fromSeq ≤ row.seq)).take limit

def readChMaxSeq (copy : Copy) : Option Nat :=
  (copy.rows.rows.map AuditLogRow.seq).max?

def readLastAnchoredEnd (copy : Copy) : Option Nat :=
  (copy.anchors.map AuditAnchorRecordRow.batchEndSeq).max?

/- `saturating_add(1)` on a `u64`. -/
def saturatingSucc (n : Nat) : Nat :=
  min (n + 1) (u64Size - 1)

/-
  The paging loop: the pages it writes, in order, and how it
  ends.  Without fuel it is still running.
-/
def rebuildRows (ledger : Ledger) (page : Nat) :
    Nat → Nat → Option (List (List AuditLogRow) × Except String Unit)
| 0, _ => none
| fuel + 1, fromSeq =>
    match readRowsFrom ledger fromSeq page with
    | .error e => some ([], .error e)
    | .ok rows =>
        match rows.getLast? with
        | none => some ([], .ok ())
        | some last =>
            let next := saturatingSucc last.seq
            if next = fromSeq then some ([rows], .ok ())
            else
              (rebuildRows ledger page fuel next).map (fun rest => (rows :: rest.1, rest.2))

def rebuildStart (copy : Copy) : Nat :=
  match readChMaxSeq copy with
  | some hi => saturatingSucc hi
  | none => 0

/-
  The writes of a rebuild and how it ends: with the number of rows and records written.  The anchor
  records are one page, read after the last row is written.
-/
def rebuildCopyForTenant (fuel : Nat) (ledger : Ledger) (copy : Copy) (page : Nat) :
    Option (List CopyWrite × Except String Nat) :=
  (rebuildRows ledger page fuel (rebuildStart copy)).map
    (fun done =>
      let written := done.1.map CopyWrite.rows
      match done.2 with
      | .error e => (written, .error e)
      | .ok () =>
          match
            readAnchorRecordsAfter ledger (readLastAnchoredEnd copy) page with
          | .error e => (written, .error e)
          | .ok anchors =>
              (written ++ anchors.map CopyWrite.anchor,
                .ok (done.1.flatten.length + anchors.length)))

--
-- Paging
--

/- The rows from a seq on. -/
def Ledger.rowsFrom (ledger : Ledger) (fromSeq : Nat) : List AuditLogRow :=
  ledger.rows.rows.filter (fun row => fromSeq ≤ row.seq)

theorem Ledger.rowsFrom_sorted (ledger : Ledger) (fromSeq : Nat) :
    (ledger.rowsFrom fromSeq).Pairwise (fun a b => a.seq < b.seq) :=
  ledger.rows.sorted.filter _

variable {ledger : Ledger}

variable {fromSeq fuel : Nat} {last : AuditLogRow}

/- What a page leaves is what is past its last row. -/
theorem Ledger.rowsFrom_drop {n : Nat}
    (hLast : ((ledger.rowsFrom fromSeq).take n).getLast? = some last) :
    ledger.rowsFrom (last.seq + 1) = (ledger.rowsFrom fromSeq).drop n := by
  have hMem := mem_of_mem_take (mem_of_getLast? hLast)
  have hFrom : fromSeq ≤ last.seq := by simpa using (mem_filter.mp hMem).2
  have hDrop := KeyTable.filter_lt_eq_drop (ledger.rowsFrom_sorted fromSeq) hLast
  rw [← hDrop]
  unfold Ledger.rowsFrom
  rw [filter_filter]
  apply filter_congr
  intro row _
  simp only [← Bool.decide_and, decide_eq_decide]
  omega

/- A seq that does not fit ends the loop. -/
theorem rebuildRows_overflow (ledger : Ledger) (page : Nat)
    (hFuel : 0 < fuel) (hLarge : i64Size ≤ fromSeq) :
    ∃ e, rebuildRows ledger page fuel fromSeq = some ([], .error e) := by
  cases fuel with
  | zero => cases hFuel
  | succ fuel =>
    unfold rebuildRows
    cases hRead : readRowsFrom ledger fromSeq page with
    | error e => exact ⟨e, rfl⟩
    | ok rows =>
      have hFrom := (readRowsFrom_eq_ok hRead).1
      omega

/- A page with rows, and on from past its last. -/
theorem rebuildRows_page {page : Nat} {rows : List AuditLogRow}
    (hRead : readRowsFrom ledger fromSeq page = .ok rows) (hLast : rows.getLast? = some last)
    (hProgress : saturatingSucc last.seq ≠ fromSeq) :
    rebuildRows ledger page (fuel + 1) fromSeq =
      (rebuildRows ledger page fuel (saturatingSucc last.seq)).map
        (fun rest => (rows :: rest.1, rest.2)) := by
  conv_lhs => unfold rebuildRows
  simp only [hRead, hLast, if_neg hProgress]

/-
  With more fuel than rows to copy the loop ends, and when it
  ends well it has written exactly those rows.
-/
theorem rebuildRows_terminates (ledger : Ledger) (page : Nat)
    (hFuel : (ledger.rowsFrom fromSeq).length < fuel) :
    ∃ pages result,
      rebuildRows ledger page fuel fromSeq = some (pages, result) ∧
        (result = .ok () → fromSeq < i64Size ∧ pages.flatten = ledger.rowsFrom fromSeq) := by
  induction fuel generalizing fromSeq with
  | zero => cases hFuel
  | succ fuel ih =>
    cases hRead : readRowsFrom ledger fromSeq page with
    | error e =>
      refine ⟨[], .error e, ?_, by simp⟩
      simp only [rebuildRows, hRead]
    | ok rows =>
      rcases readRowsFrom_eq_ok hRead with ⟨hFrom, hTake⟩
      have hRows : rows = (ledger.rowsFrom fromSeq).take (clampLimit page) := hTake
      have hPos := clampLimit_pos page
      cases hLast : rows.getLast? with
      | none =>
        refine ⟨[], .ok (), ?_, fun _ => ⟨hFrom, ?_⟩⟩
        · simp only [rebuildRows, hRead, hLast]
        · rw [getLast?_eq_none_iff] at hLast
          rw [hLast] at hRows
          rw [flatten_nil]
          rcases take_eq_nil_iff.mp hRows.symm with hZero | hNil
          · omega
          · exact hNil.symm
      | some last =>
        have hPage : ((ledger.rowsFrom fromSeq).take (clampLimit page)).getLast? = some last := by
          rw [← hRows]
          exact hLast
        have hOld := mem_of_mem_take (mem_of_getLast? hPage)
        have hLen := length_pos_of_mem hOld
        have hLower : fromSeq ≤ last.seq := by simpa using (mem_filter.mp hOld).2
        have hUpper := last.seq_lt
        have hProgress : saturatingSucc last.seq ≠ fromSeq := by
          unfold saturatingSucc
          simp only [i64Size, u64Size] at hFrom ⊢
          omega
        rw [rebuildRows_page hRead hLast hProgress]
        by_cases hFits : last.seq + 1 < u64Size
        · have hNext : saturatingSucc last.seq = last.seq + 1 := by
            unfold saturatingSucc
            omega
          have hRest := Ledger.rowsFrom_drop hPage
          have hLess : (ledger.rowsFrom (last.seq + 1)).length < fuel := by
            rw [hRest, length_drop]
            omega
          rcases ih hLess with ⟨pages, result, hPages, hOk⟩
          refine ⟨rows :: pages, result, ?_, ?_⟩
          · rw [hNext, hPages]
            rfl
          · intro hResult
            refine ⟨hFrom, ?_⟩
            rw [flatten_cons, (hOk hResult).2, hRest, hRows, take_append_drop]
        · have hLarge : i64Size ≤ saturatingSucc last.seq := by
            unfold saturatingSucc
            simp only [i64Size, u64Size] at hFits ⊢
            omega
          rcases rebuildRows_overflow ledger page (show 0 < fuel by omega) hLarge
            with ⟨e, hError⟩
          refine ⟨[rows], .error e, ?_, by simp⟩
          rw [hError]
          rfl

--
-- Completeness
--

/- A copy that lacks some of a ledger's rows and records. -/
structure CopyOf (ledger : Ledger) extends Copy where
  rows_sub : ∀ row ∈ toCopy.rows.rows, row ∈ ledger.rows.rows
  anchors_sub : ∀ a ∈ toCopy.anchors, a ∈ ledger.anchors.rows

/- Nothing of the ledger is missing. -/
def Copy.Complete (copy : Copy) (ledger : Ledger) : Prop :=
  (∀ row ∈ ledger.rows.rows, row ∈ copy.rows.rows) ∧ ∀ a ∈ ledger.anchors.rows, a ∈ copy.anchors

/-
  The rows that are missing come after every row copied, and the records that are missing are on the
  first page of those that start past every batch copied.
-/
def OnlyTailMissing (ledger : Ledger) (copy : Copy) (page : Nat) : Prop :=
  (∀ row ∈ ledger.rows.rows, row ∉ copy.rows.rows →
      ∀ copied ∈ copy.rows.rows, copied.seq < row.seq) ∧
    ∀ a ∈ ledger.anchors.rows, a ∉ copy.anchors →
      a ∈ (ledger.anchors.rows.filter (fun a =>
        ∀ copied ∈ copy.anchors, copied.batchEndSeq < a.batchStartSeq)).take
        (clampLimit page)

variable (copy : Copy)

theorem foldl_write_rows (pages : List (List AuditLogRow)) :
    (pages.map CopyWrite.rows).foldl Copy.write copy =
      { copy with
        rows := copy.rows.replaceAll newerVersion pages.flatten } := by
  induction pages generalizing copy with
  | nil => rfl
  | cons rows pages ih =>
    rw [map_cons, foldl_cons, ih]
    simp only [Copy.write, KeyTable.replaceAll, flatten_cons, foldl_append]

theorem foldl_write_anchors (anchors : List AuditAnchorRecordRow) :
    (anchors.map CopyWrite.anchor).foldl Copy.write copy =
      { copy with anchors := copy.anchors ++ anchors } := by
  induction anchors generalizing copy with
  | nil => simp
  | cons a anchors ih =>
    rw [map_cons, foldl_cons, ih]
    simp [Copy.write]

/- The rows the rebuild reaches are past every row copied. -/
theorem rebuildStart_le_iff {copy : Copy} (hFits : rebuildStart copy < i64Size) (seq : Nat) :
    rebuildStart copy ≤ seq ↔ ∀ copied ∈ copy.rows.rows, copied.seq < seq := by
  unfold rebuildStart at hFits ⊢
  cases hMax : readChMaxSeq copy with
  | none =>
    have hNil : copy.rows.rows = [] := by
      unfold readChMaxSeq at hMax
      rw [max?_eq_none_iff, map_eq_nil_iff] at hMax
      exact hMax
    simp [hNil]
  | some hi =>
    rcases max?_eq_some_iff.mp hMax with ⟨hMem, hTop⟩
    rcases mem_map.mp hMem with ⟨top, hTopRow, rfl⟩
    rw [hMax] at hFits
    have hNext : saturatingSucc top.seq = top.seq + 1 := by
      unfold saturatingSucc at hFits ⊢
      simp only [i64Size, u64Size] at hFits ⊢
      omega
    simp only [hNext]
    constructor
    · intro hLe copied hCopied
      have hBelow := hTop copied.seq (mem_map_of_mem hCopied)
      omega
    · intro hAll
      exact hAll top hTopRow

/- The records the rebuild reads start past every batch. -/
theorem readLastAnchoredEnd_all (start : Nat) :
    (readLastAnchoredEnd copy).all (· < start) =
      decide (∀ copied ∈ copy.anchors, copied.batchEndSeq < start) := by
  unfold readLastAnchoredEnd
  cases hMax :
      (copy.anchors.map AuditAnchorRecordRow.batchEndSeq).max? with
  | none =>
    rw [max?_eq_none_iff, map_eq_nil_iff] at hMax
    simp [hMax]
  | some hi =>
    rcases max?_eq_some_iff.mp hMax with ⟨hMem, hTop⟩
    rcases mem_map.mp hMem with ⟨top, hTopRow, rfl⟩
    rw [Option.all_some, decide_eq_decide]
    constructor
    · intro hLt copied hCopied
      have hBelow := hTop copied.batchEndSeq (mem_map_of_mem hCopied)
      omega
    · intro hAll
      exact hAll top hTopRow

/- What the writes add completes the copy of a tail. -/
theorem complete_iff_onlyTailMissing (copy : CopyOf ledger) (page : Nat)
    (hStart : rebuildStart copy.toCopy < i64Size) :
    Copy.Complete
        { rows :=
            copy.rows.replaceAll newerVersion (ledger.rowsFrom (rebuildStart copy.toCopy))
          anchors :=
            copy.anchors ++
              (ledger.anchors.rows.filter (fun a =>
                ∀ copied ∈ copy.anchors, copied.batchEndSeq < a.batchStartSeq)).take
                (clampLimit page) }
        ledger ↔
      OnlyTailMissing ledger copy.toCopy page := by
  have hReached : ∀ row ∈ ledger.rowsFrom (rebuildStart copy.toCopy), row ∈ ledger.rows.rows :=
    fun row hRow => (mem_filter.mp hRow).1
  apply and_congr
  · apply forall₂_congr
    intro row hRow
    rw [KeyTable.mem_replaceAll_iff copy.rows_sub hReached, or_iff_not_imp_left]
    apply imp_congr_right
    intro _
    rw [← rebuildStart_le_iff hStart]
    unfold Ledger.rowsFrom
    simp [hRow]
  · apply forall₂_congr
    intro a _
    rw [mem_append, or_iff_not_imp_left]

/-
  The rebuild always ends.  When it ends well, the copy is
  complete exactly if only a tail was missing before.
-/
theorem rebuildCopyForTenant_complete_iff (ledger : Ledger) (copy : CopyOf ledger)
    (page extra : Nat) :
    ∃ writes result,
      rebuildCopyForTenant
            (ledger.rows.rows.length + 1 + extra) ledger
            copy.toCopy page =
          some (writes, result) ∧
        ∀ copied, result = .ok copied →
          ((writes.foldl Copy.write copy.toCopy).Complete ledger ↔
            OnlyTailMissing ledger copy.toCopy page) := by
  have hFuel :
      (ledger.rowsFrom (rebuildStart copy.toCopy)).length <
        ledger.rows.rows.length + 1 + extra := by
    have hLe : (ledger.rowsFrom (rebuildStart copy.toCopy)).length ≤ ledger.rows.rows.length :=
      length_filter_le _ _
    omega
  rcases rebuildRows_terminates ledger page hFuel with ⟨pages, ended, hPages, hEnded⟩
  unfold rebuildCopyForTenant
  rw [hPages]
  cases ended with
  | error e => exact ⟨_, _, rfl, by simp⟩
  | ok _ =>
    rcases hEnded rfl with ⟨hStart, hRows⟩
    cases hRead :
        readAnchorRecordsAfter ledger (readLastAnchoredEnd copy.toCopy) page with
    | error e =>
      exact ⟨pages.map CopyWrite.rows, .error e, rfl, by simp⟩
    | ok anchors =>
      refine ⟨pages.map CopyWrite.rows ++ anchors.map CopyWrite.anchor,
        .ok (pages.flatten.length + anchors.length), rfl, ?_⟩
      intro copied _
      have hAnchors := readAnchorRecordsAfter_eq_ok hRead
      simp only [readLastAnchoredEnd_all] at hAnchors
      rw [foldl_append, foldl_write_rows, foldl_write_anchors, hRows, hAnchors]
      exact complete_iff_onlyTailMissing copy page hStart

instance (copy : Copy) (ledger : Ledger) :
    Decidable (copy.Complete ledger) :=
  inferInstanceAs (Decidable (_ ∧ _))

def sampleRecord (batchStartSeq batchEndSeq : Nat) (start_lt : batchStartSeq < u64Size)
    (end_lt : batchEndSeq < u64Size) : AuditAnchorRecordRow where
  tenantId := sampleTenant
  batchStartSeq := batchStartSeq
  batchEndSeq := batchEndSeq
  merkleRoot := ""
  anchorState := "unanchored"
  ed25519Sig := "c2ln"
  ed25519Pubkey := "a2V5"
  anchoredAt := 2
  start_lt := start_lt
  end_lt := end_lt

/- Two rows, each with its record. -/
def sampleLedger : Ledger :=
  { (runAppends Sha256.digest
      [sampleCall 0, sampleCall 1]).ledgers sampleTenant with
    anchors :=
      (∅ : KeyTable AuditAnchorRecordRow AuditAnchorRecordRow.batchStartSeq).insertAll
        [sampleRecord 0 0 (by decide) (by decide),
          sampleRecord 1 1 (by decide) (by decide)] }

/- The copy writes of the first row and record failed. -/
def secondOnly : CopyOf sampleLedger where
  rows :=
    (∅ : KeyTable AuditLogRow AuditLogRow.seq).replaceAll
      newerVersion (sampleLedger.rows.rows.drop 1)
  anchors := sampleLedger.anchors.rows.drop 1
  rows_sub := by decide +kernel
  anchors_sub := by decide +kernel

/- The rebuild writes nothing, and both stay missing. -/
theorem secondOnly_not_complete :
    ∃ writes copied,
      rebuildCopyForTenant 3 sampleLedger secondOnly.toCopy 10000 = some (writes, .ok copied) ∧
        ¬ (writes.foldl Copy.write secondOnly.toCopy).Complete sampleLedger := by
  refine ⟨[], 0, ?_, ?_⟩
  · decide +kernel
  · decide +kernel

end Tracelane.Gateway
