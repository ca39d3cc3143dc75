import Tracelane.Gateway.Append
import Tracelane.Audit.ChainSpec

/-
  What the gateway writes, the verifier accepts.

  Any run of append transactions leaves every tenant a sound ledger; the rows of a sound ledger,
  exported, replay without an error.
-/

namespace Tracelane.Gateway

open List
open Std
open Transition Verifier

--
-- Exported Rows
--

variable (C : Verifier.Crypto) (S : Verifier.Serde)

/- `micros_to_iso8601`, over the `chrono` crate. -/
variable (microsToIso8601 : Int → String)

def exportFormat : String := "v2.1"

/- The exported row, as the verifier reads it. -/
def exportRow (r : AuditLogRow) : Verifier.AuditRow where
  format := some exportFormat
  tenantId := tenantText r.tenantId
  seq := r.seq
  eventTime := microsToIso8601 r.eventTime
  eventType := r.eventType
  actor := r.actor
  payload := .string r.payload
  prevHash := r.prevHash
  rowHash := r.rowHash
  rekorEntryId := r.rekorEntryId
  seq_lt := r.seq_lt

theorem resolveFormat_exportRow (r : AuditLogRow) (default : Verifier.FormatVersion) :
    Verifier.resolveFormat (exportRow microsToIso8601 r) default = .v2_1 := by
  rfl

theorem hexDecode32_eq_ok_iff (s : String) (h : Hash) :
    Verifier.hexDecode32 s = .ok h ↔ hexDecode s = .ok h := by
  unfold hexDecode32 hexDecode
  split
  · simp
  · cases (hexPairs (utf8 s)).bind (ByteArr.ofBytes? 32) <;> simp

variable {entry next : Nat × Hash} {T : TenantId} {opts : Verifier.VerifyOptions}

/- A gateway link is a verifier link. -/
theorem links_rowLinks {row : AuditLogRow}
    (hLinks : Links C.sha256 T entry row next) (hFits : row.seq + 1 < u64Size) :
    Verifier.RowLinks C S opts T entry (exportRow microsToIso8601 row) next := by
  have hPrev : hexDecode32 row.prevHash = .ok entry.2 :=
    (hexDecode32_eq_ok_iff _ _).mpr hLinks.prevHash
  have hRow : hexDecode32 row.rowHash = .ok next.2 := (hexDecode32_eq_ok_iff _ _).mpr hLinks.rowHash
  have hNonempty : row.prevHash.isEmpty = false := by
    by_contra hEmpty
    have hNil : row.prevHash = "" := by simpa using hEmpty
    rw [hNil] at hPrev
    cases hPrev
  refine ⟨hLinks.seq, ?_, ⟨row.payload.str, ?_, ?_⟩, hRow, ?_⟩
  · rw [resolveFormat_exportRow]
    simp [prevHashOk, Verifier.FormatVersion.isV2Family, exportRow, hNonempty, hPrev]
  · rw [resolveFormat_exportRow]
    rfl
  · rw [resolveFormat_exportRow, hLinks.hash, rowHashV2_eq_verifier]
    rfl
  · rw [hLinks.nextSeq, Nat.mod_eq_of_lt]
    rw [← hLinks.seq]
    exact hFits

variable {rows : List AuditLogRow}

/- The rows of a chain export to a chain. -/
theorem run_rowLinks (hRun : Run (Links C.sha256 T) entry rows next)
    (hFits : ∀ row ∈ rows, row.seq + 1 < u64Size) :
    Run (Verifier.RowLinks C S opts T) entry (rows.map (exportRow microsToIso8601)) next := by
  have hMono :
      Run
        (fun entry row next =>
          Verifier.RowLinks C S opts T entry (exportRow microsToIso8601 row) next)
        entry rows next :=
    hRun.mono (fun _ _ row hRow hLinks =>
      links_rowLinks C S microsToIso8601 hLinks (hFits row hRow))
  exact hMono.map (exportRow microsToIso8601) (fun _ _ _ hLinks => hLinks)

--
-- Verification
--

/- The exported rows of one tenant are all its own. -/
theorem rowsOf_export (hTenant : ∀ row ∈ rows, row.tenantId = T) (tenant : String) :
    Verifier.rowsOf tenant (rows.map (exportRow microsToIso8601)) =
      if tenant = tenantText T then
        rows.map (exportRow microsToIso8601)
      else [] := by
  have hText : ∀ row ∈ rows.map (exportRow microsToIso8601), row.tenantId = tenantText T := by
    intro row hRow
    rcases mem_map.mp hRow with ⟨r, hR, rfl⟩
    simp only [exportRow, hTenant r hR]
  unfold rowsOf
  by_cases hSame : tenant = tenantText T
  · rw [if_pos hSame, filter_eq_self]
    intro row hRow
    simp [hText row hRow, hSame]
  · rw [if_neg hSame, filter_eq_nil_iff]
    intro row hRow
    simp [hText row hRow, Ne.symm hSame]

theorem run_links_tenant (hRun : Run (Links C.sha256 T) entry rows next) :
    ∀ row ∈ rows, row.tenantId = T := by
  induction hRun with
  | nil => simp
  | cons hLinks _ ih =>
    exact forall_mem_cons.mpr ⟨hLinks.tenant, ih⟩

/- A scope that starts every tenant at genesis starts there. -/
theorem latestStart_genesis (entries : List (String × Nat))
    (hSelect : ∀ entry ∈ entries, Verifier.selectStart ∅ entry.1 entry.2 = some 0) :
    Verifier.latestStart ∅ entries = 0 := by
  unfold latestStart
  induction entries with
  | nil => rfl
  | cons entry entries ih =>
    rw [forall_mem_cons] at hSelect
    simp only [filterMap_cons, hSelect.1, foldl_cons, Nat.max_self]
    exact ih hSelect.2

section Genesis

variable
    {T : TenantId}
    {rows : List AuditLogRow}
    {last : Hash}
    (hRun : Run (Links C.sha256 T) (0, genesisPrevHash C.sha256 T) rows (rows.length, last))
    (hFits : rows.length ≤ i64Size)

include hRun

/- The least exported seq is that of the genesis row. -/
theorem minSeq_export (tenant : String) :
    ((Verifier.rowsOf tenant
        (rows.map (exportRow microsToIso8601))).map
        Verifier.AuditRow.seq).min? =
      if tenant = tenantText T ∧ rows ≠ [] then some 0
      else none := by
  rw [rowsOf_export microsToIso8601 (run_links_tenant C hRun)]
  by_cases hSame : tenant = tenantText T
  · have hSeqs :
        (rows.map (exportRow microsToIso8601)).map Verifier.AuditRow.seq =
          range' 0 rows.length := by
      rw [map_map]
      exact (run_links_seqs C.sha256 hRun).1
    rw [if_pos hSame, hSeqs]
    cases rows with
    | nil => simp
    | cons row rows =>
      rw [if_pos ⟨hSame, cons_ne_nil _ _⟩, min?_eq_some_iff]
      simp
  · simp [hSame]

/- Every tenant with rows starts at its genesis. -/
theorem selectStart_export (entry : String × Nat)
    (hEntry : entry ∈ (Verifier.minSeqByTenant (rows.map (exportRow microsToIso8601))).toList) :
    Verifier.selectStart ∅ entry.1 entry.2 = some 0 := by
  rw [TreeMap.mem_toList_iff_getElem?_eq_some, getElem?_minSeqByTenant,
    minSeq_export C microsToIso8601 hRun] at hEntry
  split at hEntry
  · have hZero := Option.some.inj hEntry
    simp [selectStart, ← hZero]
  · cases hEntry

include hFits

variable (opts : Verifier.VerifyOptions)

/- The replay of the exported rows raises no error. -/
theorem replay_export :
    (Verifier.replay C S opts
      (Verifier.startByTenant ∅ (rows.map (exportRow microsToIso8601)))
      (rows.map (exportRow microsToIso8601))).all
      List.isEmpty = true := by
  have hSeqs : ∀ row ∈ rows, row.seq + 1 < u64Size := by
    intro row hRow
    have hMem : row.seq ∈ rows.map AuditLogRow.seq := mem_map_of_mem hRow
    rw [(run_links_seqs C.sha256 hRun).1, mem_range'_1] at hMem
    simp only [i64Size, u64Size] at hFits ⊢
    omega
  rw [replay_clean_iff]
  intro tenant s hStart first hFirst
  rw [startOf_startByTenant, minSeq_export C microsToIso8601 hRun] at hStart
  split_ifs at hStart with hOwn
  · rcases hOwn with ⟨rfl, _⟩
    have hZero : s = 0 := by simpa [selectStart] using hStart.symm
    subst hZero
    have hScope :
        inScope 0 (rowsOf (tenantText T) (rows.map (exportRow microsToIso8601))) =
          rows.map (exportRow microsToIso8601) := by
      rw [rowsOf_export microsToIso8601 (run_links_tenant C hRun), if_pos rfl]
      simp [inScope]
    rw [hScope] at hFirst ⊢
    refine ⟨T, (rows.length, last), uuidStrToBytes_tenantText T, ?_⟩
    have hMember := mem_of_mem_head? hFirst
    rcases mem_map.mp hMember with ⟨row, _, rfl⟩
    rw [resolveFormat_exportRow]
    exact run_rowLinks C S microsToIso8601 hRun hSeqs
  · cases hStart

/- A chain from genesis verifies and changes no verdict. -/
theorem verifyChain_export (report : Verifier.VerifyReport) :
    Verifier.verifyChain C S opts (rows.map (exportRow microsToIso8601)) ∅ report =
      { report with verifiedFromSeq := 0 } := by
  have hSelect := selectStart_export C microsToIso8601 hRun
  have hClean := replay_export C S microsToIso8601 hRun hFits opts
  have hNone :
      unrootedErrors ∅ (minSeqByTenant (rows.map (exportRow microsToIso8601))).toList = [] := by
    unfold unrootedErrors
    rw [map_eq_nil_iff, filter_eq_nil_iff]
    intro entry hEntry
    simp [hSelect entry hEntry]
  have hRooted :
      (minSeqByTenant (rows.map (exportRow microsToIso8601))).toList.all
          (fun entry => (selectStart ∅ entry.1 entry.2).isSome) =
        true := by
    rw [all_eq_true]
    intro entry hEntry
    simp [hSelect entry hEntry]
  have hLatest : latestStart ∅ (minSeqByTenant (rows.map (exportRow microsToIso8601))).toList = 0 :=
    latestStart_genesis _ hSelect
  have hFlat :
      (replay C S opts
        (startByTenant ∅ (rows.map (exportRow microsToIso8601)))
        (rows.map (exportRow microsToIso8601))).flatten =
        [] := by
    rw [flatten_eq_nil_iff]
    simpa using hClean
  rw [verifyChain_report]
  simp only [hNone, hRooted, hLatest, hFlat, hClean, append_nil, Bool.and_true]

end Genesis

/-
  Whatever the calls, their batches, ids, and aborts, a tenant's exported rows verify from genesis,
  and the head is the last row's seq and hash.
-/
theorem runAppends_verify (opts : Verifier.VerifyOptions) (ledgerLabel : String)
    (calls : List AppendCall) (T : TenantId) :
    let ledger := (runAppends C.sha256 calls).ledgers T
    let report :=
      verifyChain C S opts (ledger.rows.rows.map (exportRow microsToIso8601)) ∅
        (.emptyLabeled ledgerLabel)
    (report.hashChainValid = true ∧
        report.trustEstablished = true ∧
        report.verifiedFromSeq = 0 ∧
        report.errors = []) ∧
      (ledger.rows.rows = [] → ledger.head = none) ∧
      ∀ row, ledger.rows.rows.getLast? = some row →
        ∃ h, hexDecode row.rowHash = .ok h ∧ ledger.head = some ⟨row.seq, h.bytes⟩ := by
  intro ledger report
  rcases runAppends_sound C.sha256 calls T with ⟨last, hRun, hFits, hHead⟩
  have hReport :
      report =
        { Verifier.VerifyReport.emptyLabeled ledgerLabel with
          verifiedFromSeq := 0 } :=
    verifyChain_export C S microsToIso8601 hRun hFits opts _
  refine ⟨?_, ?_, ?_⟩
  · rw [hReport]
    exact ⟨rfl, rfl, rfl, rfl⟩
  · intro hNil
    exact hHead.trans (if_pos hNil)
  · intro row hRow
    have hNonempty : ledger.rows.rows ≠ [] := by
      intro hNil
      simp [hNil] at hRow
    rcases run_links_last C.sha256 hRun hRow with ⟨hHash, hSeq⟩
    refine ⟨last, hHash, ?_⟩
    rw [hHead, if_neg hNonempty]
    simp only at hSeq
    rw [hSeq]
    simp

end Tracelane.Gateway
