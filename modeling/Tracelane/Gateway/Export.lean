import Tracelane.Gateway.Agreement
import Tracelane.Audit.Deserialize
import Tracelane.Audit.Ledger

/-
  The audit export: the rows of a time window, page by page, then the anchor records of the window,
  one JSON line each.

  A page that cannot be read ends the transfer abnormally; what was streamed by then is no pack.
-/

namespace Tracelane.Gateway

open List

--
-- Exported Records
--

variable (S : Verifier.Serde)

/- The proof of a stored bundle is any JSON value. -/
structure RekorExport where
  logUrl : String
  logIndex : String
  canonicalizedBody : String
  inclusionProof : Value
  checkpoint : Verifier.Checkpoint

structure AnchorExportRecord where
  tenantId : String
  batchStartSeq : Nat
  batchEndSeq : Nat
  merkleRoot : String
  anchorState : String
  ed25519 : Verifier.Ed25519Block
  rekor : Option RekorExport
  start_lt : batchStartSeq < u64Size
  end_lt : batchEndSeq < u64Size

/- A proof that is no JSON text is exported as `null`. -/
def anchorRecord (r : AuditAnchorRecordRow) : AnchorExportRecord where
  tenantId := tenantText r.tenantId
  batchStartSeq := r.batchStartSeq
  batchEndSeq := r.batchEndSeq
  merkleRoot := r.merkleRoot
  anchorState := r.anchorState
  ed25519 := ⟨r.ed25519Sig, r.ed25519Pubkey⟩
  rekor :=
    if r.anchorState = "anchored" ∧ ¬ r.rekorLogIndex.isEmpty then
      some
        { logUrl := r.rekorLogUrl
          logIndex := r.rekorLogIndex
          canonicalizedBody := r.canonicalizedBody
          inclusionProof :=
            match S.fromStr r.inclusionProof with
            | .ok v => v
            | .error _ => .null
          checkpoint := ⟨r.checkpointEnvelope⟩ }
    else none
  start_lt := r.start_lt
  end_lt := r.end_lt

/- The bundle as the verifier reads it. -/
def RekorExport.read (r : RekorExport) : Except String Verifier.RekorBlock :=
  (Verifier.deserializeProof r.inclusionProof).map (fun proof =>
    { logUrl := r.logUrl
      logIndex := r.logIndex
      canonicalizedBody := r.canonicalizedBody
      inclusionProof := proof
      checkpoint := r.checkpoint })

def readRekor :
    Option RekorExport → Except String (Option Verifier.RekorBlock)
| none => .ok none
| some r => r.read.map some

/-
  The record the verifier reads from the line of an exported
  one, if the proof has the verifier's form.
-/
def AnchorExportRecord.read (e : AnchorExportRecord) :
    Except String Verifier.AnchorRecord :=
  (readRekor e.rekor).map (fun rekor =>
    { tenantId := e.tenantId
      batchStartSeq := e.batchStartSeq
      batchEndSeq := e.batchEndSeq
      merkleRoot := e.merkleRoot
      anchorState := e.anchorState
      ed25519 := e.ed25519
      rekor := rekor
      start_lt := e.start_lt
      end_lt := e.end_lt })

/-
  `serde_json::to_string` of the exported records.  A row is wire-compatible with the verifier's.
-/
structure Wire where
  rowLine : Verifier.AuditRow → String
  anchorLine : AnchorExportRecord → String

--
-- Pages
--

def maxLimit : Nat := 50000

/- `anyhow::Error::context`. -/
def withContext (what err : String) : String :=
  what ++ ": " ++ err

/-
  One of the two page streams: what it yields, and how it ends.  Only an empty page is the end;
  without fuel it is still running.
-/
def exportPages {α : Type} (table : String) (key : α → Nat)
    (readPage : Option Nat → Except String (List α)) :
    Nat → Option Nat → Option (List α × Except String Unit)
| 0, _ => none
| fuel + 1, after =>
    match readPage after with
    | .error e =>
        some ([], .error (withContext (table ++ " page read failed") e))
    | .ok page =>
        match page.getLast? with
        | none => some ([], .ok ())
        | some last =>
            match after.filter (key last ≤ ·) with
            | some a =>
                some ([], .error
                  (withContext
                    (table ++ " page did not advance past the cursor")
                    s!"cursor {a}, page ends at {key last}"))
            | none =>
                (exportPages table key readPage fuel (some (key last))).map
                  (fun rest => (page ++ rest.1, rest.2))

def readRangePage (ledger : Ledger) (window : Window) (limit : Nat)
    (afterSeq : Option Nat) : Except String (List AuditLogRow) :=
  (readRowsInWindow ledger window afterSeq (max 1 (min limit maxLimit))).mapError
    (withContext "canonical audit_log_rows read failed")

def readAnchorPage (ledger : Ledger) (window : Window) (limit : Nat) (after : Option Nat) :
    Except String (List AuditAnchorRecordRow) :=
  (readAnchorRecordsInWindow ledger window after (max 1 (min limit maxLimit))).mapError
    (withContext "canonical audit_anchor_records read failed")

variable (microsToIso8601 : Int → String) (wire : Wire)

/-
  The uncapped export of a window: refused, or the lines of the body with how the transfer ends.  A
  failed row page skips the anchors.
-/
def exportHandler (fuel : Nat) (ledger : Ledger) (window : Window) :
    Option (Except String (List String × Except String Unit)) :=
  if window.untilTime < window.sinceTime then
    some (.error "since > until")
  else do
    let (rows, rowsEnd) ←
      exportPages "audit_log" AuditLogRow.seq (readRangePage ledger window maxLimit) fuel none
    let rowLines := rows.map (fun row => wire.rowLine (exportRow microsToIso8601 row))
    match rowsEnd with
    | .error e => some (.ok (rowLines, .error e))
    | .ok () =>
        let (anchors, anchorsEnd) ←
          exportPages "audit_anchor_records"
            AuditAnchorRecordRow.batchStartSeq
            (readAnchorPage ledger window maxLimit) fuel none
        let anchorLines := anchors.map (fun a => wire.anchorLine (anchorRecord S a))
        some (.ok (rowLines ++ anchorLines, anchorsEnd))

--
-- Complete Streams
--

/-
  With more fuel than rows left, a stream over a sorted table yields them all and ends well: what a
  page leaves is what is past its last row.
-/
theorem exportPages_complete {α : Type} (table : String) {key : α → Nat}
    {readPage : Option Nat → Except String (List α)} {xs : List α} {n : Nat}
    (hSorted : xs.Pairwise (fun x y => key x < key y))
    (hKeys : ∀ x ∈ xs, key x < i64Size) (hPos : 0 < n)
    (hRead :
      ∀ after : Option Nat, (∀ a ∈ after, a < i64Size) →
        readPage after = .ok ((xs.filter (fun x => after.all (· < key x))).take n))
    {fuel : Nat} (after : Option Nat)
    (hAfter : ∀ a ∈ after, a < i64Size)
    (hFuel : (xs.filter (fun x => after.all (· < key x))).length < fuel) :
    exportPages table key readPage fuel after =
      some (xs.filter (fun x => after.all (· < key x)), .ok ()) := by
  induction fuel generalizing after with
  | zero => cases hFuel
  | succ fuel ih =>
    unfold exportPages
    rw [hRead after hAfter]
    simp only
    cases hLast :
        ((xs.filter (fun x => after.all (· < key x))).take n).getLast? with
    | none =>
      rw [getLast?_eq_none_iff, take_eq_nil_iff] at hLast
      rcases hLast with hZero | hNil
      · omega
      · simp only [hNil]
    | some last =>
      have hMem := mem_of_mem_take (mem_of_getLast? hLast)
      rcases mem_filter.mp hMem with ⟨hIn, hPast⟩
      have hNone : after.filter (key last ≤ ·) = none := by
        cases after with
        | none => rfl
        | some a => simpa [Option.filter] using hPast
      -- The rest of the table is the rest of this page.
      have hRest :
          xs.filter (fun x => (some (key last)).all (· < key x)) =
            (xs.filter (fun x => after.all (· < key x))).drop n := by
        rw [← KeyTable.filter_lt_eq_drop (hSorted.filter _) hLast, filter_filter]
        apply filter_congr
        intro x _
        cases after with
        | none => simp
        | some a =>
          simp only [Option.all_some, decide_eq_true_eq] at hPast ⊢
          rw [← Bool.decide_and, decide_eq_decide]
          omega
      have hLen := length_pos_of_mem hMem
      have hNext :=
        ih (some (key last))
          (fun a hA => by
            rw [← Option.some.inj hA]
            exact hKeys last hIn)
          (by
            rw [hRest, length_drop]
            omega)
      simp only [hNone, hNext, Option.map_some, hRest, take_append_drop]

/- The stream over the part of a table that a test selects. -/
theorem exportPages_selected {α : Type} {key : α → Nat} (table : String) (t : KeyTable α key)
    (selected : α → Bool) {readPage : Option Nat → Except String (List α)} {n fuel : Nat}
    (hKeys : ∀ x ∈ t.rows, key x < i64Size) (hPos : 0 < n)
    (hRead :
      ∀ after : Option Nat, (∀ a ∈ after, a < i64Size) →
        readPage after =
          .ok ((t.rows.filter (fun x => selected x && after.all (· < key x))).take n))
    (hFuel : t.rows.length < fuel) :
    exportPages table key readPage fuel none = some (t.rows.filter selected, .ok ()) := by
  have hRest :
      ∀ after : Option Nat, (∀ a ∈ after, a < i64Size) →
        readPage after =
          .ok (((t.rows.filter selected).filter (fun x => after.all (· < key x))).take n) := by
    intro after hAfter
    rw [hRead after hAfter, filter_filter]
    simp only [Bool.and_comm]
  have hLen :
      ((t.rows.filter selected).filter (fun x =>
        (none : Option Nat).all (· < key x))).length < fuel := by
    simp only [Option.all_none, filter_true]
    exact Nat.lt_of_le_of_lt (length_filter_le _ _) hFuel
  have hPages :=
    exportPages_complete table (t.sorted.filter selected)
      (fun x hX => hKeys x (mem_of_mem_filter hX)) hPos hRest none (by simp) hLen
  simpa using hPages

/- The rows of a window, in the order of their seqs. -/
def Ledger.rowsIn (ledger : Ledger) (window : Window) : List AuditLogRow :=
  ledger.rows.rows.filter (fun row => window.has row.eventTime)

/- The records anchored in a window. -/
def Ledger.anchorsIn (ledger : Ledger) (window : Window) : List AuditAnchorRecordRow :=
  ledger.anchors.rows.filter (fun a => window.has a.anchoredAt)

theorem mapM_seqI64 {after : Option Nat} (hAfter : ∀ a ∈ after, a < i64Size) :
    after.mapM seqI64 = .ok after := by
  cases after with
  | none => rfl
  | some a =>
    have hFits := hAfter a rfl
    simp [seqI64, hFits]

/- The export of a window streams all its rows and all its records, and nothing else. -/
theorem exportHandler_complete {ledger : Ledger} {window : Window} {fuel : Nat}
    (hWindow : window.sinceTime ≤ window.untilTime)
    (hRows : ∀ row ∈ ledger.rows.rows, row.seq < i64Size)
    (hAnchors : ∀ a ∈ ledger.anchors.rows, a.batchStartSeq < i64Size)
    (hRowFuel : ledger.rows.rows.length < fuel) (hAnchorFuel : ledger.anchors.rows.length < fuel) :
    exportHandler S microsToIso8601 wire fuel ledger window =
      some (.ok
        ((ledger.rowsIn window).map (fun row => wire.rowLine (exportRow microsToIso8601 row)) ++
          (ledger.anchorsIn window).map (fun a => wire.anchorLine (anchorRecord S a)),
          .ok ())) := by
  have hRowPages :
      exportPages "audit_log" AuditLogRow.seq (readRangePage ledger window maxLimit) fuel none =
        some (ledger.rowsIn window, .ok ()) := by
    apply exportPages_selected "audit_log" ledger.rows _ hRows
      (clampLimit_pos (max 1 (min maxLimit maxLimit))) _ hRowFuel
    intro after hAfter
    unfold readRangePage readRowsInWindow
    rw [mapM_seqI64 hAfter]
    rfl
  have hAnchorPages :
      exportPages "audit_anchor_records"
          AuditAnchorRecordRow.batchStartSeq
          (readAnchorPage ledger window maxLimit) fuel none =
        some (ledger.anchorsIn window, .ok ()) := by
    apply exportPages_selected "audit_anchor_records" ledger.anchors _ hAnchors
      (clampLimit_pos (max 1 (min maxLimit maxLimit))) _ hAnchorFuel
    intro after hAfter
    unfold readAnchorPage readAnchorRecordsInWindow
    rw [mapM_seqI64 hAfter]
    rfl
  unfold exportHandler
  rw [if_neg (by omega), hRowPages]
  simp only [Option.bind_eq_bind, Option.bind_some]
  rw [hAnchorPages]
  rfl

/- Three rows, the last one past the window, and a record of the first two. -/
def exportedLedger : Ledger :=
  { (runAppends Sha256.digest [sampleCall 0, sampleCall 3, sampleCall 9]).ledgers sampleTenant with
    anchors := ⟨[⟨sampleTenant, 0, 1, "", "unanchored", "", "", "", "", "", "", "", "", 4,
      Nat.two_pow_pos _, Nat.one_lt_two_pow nofun⟩], pairwise_singleton _ _⟩ }

theorem sampleCalls_exported :
    exportHandler Verifier.jsonSerde (fun _ => "")
        ⟨Verifier.AuditRow.tenantId, AnchorExportRecord.anchorState⟩ 4 exportedLedger ⟨0, 5⟩ =
      some (.ok ([tenantText sampleTenant, tenantText sampleTenant, "unanchored"], .ok ())) := by
  have hRows :
      (∀ row ∈ exportedLedger.rows.rows, row.seq < i64Size) ∧
        exportedLedger.rows.rows.length < 4 := by
    decide +kernel
  refine (exportHandler_complete _ _ _ ?_ hRows.1 ?_ hRows.2 ?_).trans ?_
  · decide
  · simp [exportedLedger, i64Size]
  · decide
  · decide +kernel

end Tracelane.Gateway
