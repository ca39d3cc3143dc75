import Mathlib.Data.List.Dedup
import Tracelane.Audit.Soundness

/-
  One export of many tenants against the tenants' own files.

  Every pass works by tenant but one: the coverage pass drops the rows below `verified_from_seq`,
  and that field is the latest start of all tenants.  So an uncovered row counts in the tenant's own
  file and not in the export exactly when it lies below another tenant's start.
-/

namespace Tracelane.Verifier

open List
open Std

variable (C : Crypto) (S : Serde)

--
-- Exports
--

/- The tenant a line's record belongs to. -/
def Line.tenant? : Line → Option String
| .row r => some r.tenantId
| .anchor a => some a.tenantId
| _ => none

/- The line is blank or holds a record. -/
def Line.readable : Line → Bool
| .parseError _ => false
| .anchorParseError _ => false
| _ => true

def lineTenant? (line : Except String String) : Option String :=
  line.toOption.bind (fun line => (parseLine S line).tenant?)

def lineReadable : Except String String → Bool
| .ok line => (parseLine S line).readable
| .error _ => false

/- A file whose lines all read. -/
structure Export extends Ndjson where
  readable : lines.all (lineReadable S) = true

/- The anchor records of one tenant, in file order. -/
def anchorsOf (tenant : String) (anchors : List AnchorRecord) : List AnchorRecord :=
  anchors.filter (fun a => a.tenantId = tenant)

namespace Export

variable {S}

def rows (e : Export S) : List AuditRow :=
  fileRows S e.lines

def anchors (e : Export S) : List AnchorRecord :=
  fileAnchors S e.lines

/- The tenants with a row or an anchor record. -/
def tenants (e : Export S) : List String :=
  (e.rows.map AuditRow.tenantId ++ e.anchors.map AnchorRecord.tenantId).dedup

/- One tenant's lines alone, in their order. -/
def only (e : Export S) (tenant : String) : Export S where
  lines := e.lines.filter (fun line => lineTenant? S line = some tenant)
  fits := Nat.lt_of_le_of_lt (List.length_filter_le _ _) e.fits
  readable := by
    have hAll := e.readable
    rw [List.all_eq_true] at hAll ⊢
    intro line hLine
    exact hAll line (List.mem_of_mem_filter hLine)

theorem records_only (e : Export S) (tenant : String) :
    (e.only tenant).rows = rowsOf tenant e.rows ∧
      (e.only tenant).anchors = anchorsOf tenant e.anchors := by
  simp only [rows, anchors, only, fileRows, fileAnchors, rowsOf, anchorsOf]
  rw [filter_filterMap, filterMap_filter, filter_filterMap, filterMap_filter]
  refine ⟨filterMap_congr (fun line _ => ?_), filterMap_congr (fun line _ => ?_)⟩
  all_goals
    cases line with
    | error _ => simp [lineTenant?, Except.toOption]
    | ok line =>
      cases hLine : parseLine S line <;>
        simp [lineTenant?, Except.toOption, hLine, Line.row?, Line.anchor?, Line.tenant?,
          Option.filter]

end Export

/- Lines that read leave the report alone. -/
theorem readLines_readable (lines : List (Except String String))
    (hAll : lines.all (lineReadable S) = true) (st : Records) (lineIdx : Nat) :
    ∃ records, readLines S st lineIdx lines = .ok records ∧ records.report = st.report := by
  induction lines generalizing st lineIdx with
  | nil => exact ⟨st, rfl, rfl⟩
  | cons line lines ih =>
    simp only [all_cons, Bool.and_eq_true] at hAll
    cases line with
    | error e => simp [lineReadable] at hAll
    | ok line =>
      rcases ih hAll.2 (readLine S st lineIdx line) (lineIdx + 1) with ⟨records, hRead, hReport⟩
      refine ⟨records, hRead, hReport.trans ?_⟩
      have hLine := hAll.1
      simp only [lineReadable] at hLine
      unfold readLine
      cases hParse : parseLine S line <;> simp_all [Line.readable]

variable (opts : VerifyOptions)

/- The report of an export is that of its records. -/
theorem verifyLedgerReader_export (ledgerLabel : String) (e : Export S) :
    verifyLedgerReader C S e.toNdjson ledgerLabel opts =
      .ok (verifyRecords C S opts ⟨.emptyLabeled ledgerLabel, e.rows, e.anchors⟩) := by
  rcases readLines_readable S e.lines e.readable
    ⟨.emptyLabeled ledgerLabel, [], []⟩ 0 with
    ⟨records, hRead, hReport⟩
  rcases readLines_records S hRead with ⟨hRows, hAnchors⟩
  simp only [nil_append] at hRows hAnchors hReport
  rw [verifyLedgerReader, hRead, Except.map]
  rcases records with ⟨report, rows, anchors⟩
  simp only at hRows hAnchors hReport
  rw [hRows, hAnchors, hReport]
  rfl

--
-- Anchors by Tenant
--

theorem getElem?_rowHashByKey_only (rows : List AuditRow) (tenant : String) (seq : Nat) :
    (rowHashByKey (rowsOf tenant rows))[rowKey tenant seq]? =
      (rowHashByKey rows)[rowKey tenant seq]? := by
  unfold rowHashByKey rowsOf
  rw [KeyedFold.getElem?_table, KeyedFold.getElem?_table, filter_filter]
  congr 1
  refine filter_congr (fun row _ => ?_)
  by_cases hTenant : row.tenantId = tenant
  · simp [hTenant]
  · simp [rowKey_inj, hTenant]

/- A turn reads the hashes of the record's own tenant. -/
theorem verifyAnchor_only (rows : List AuditRow) (a : AnchorRecord) :
    verifyAnchor C S opts (rowHashByKey (rowsOf a.tenantId rows)) a =
      verifyAnchor C S opts (rowHashByKey rows) a := by
  have hLeaves :
      batchLeaves (rowHashByKey (rowsOf a.tenantId rows)) a =
        batchLeaves (rowHashByKey rows) a := by
    unfold batchLeaves
    congr 1
    funext seq
    exact getElem?_rowHashByKey_only rows a.tenantId seq
  unfold verifyAnchor batchRoot
  rw [hLeaves]

theorem anchorTurns_only (rows : List AuditRow) (anchors : List AnchorRecord) (tenant : String) :
    anchorTurns C S opts (rowsOf tenant rows) (anchorsOf tenant anchors) =
      turnsOf tenant (anchorTurns C S opts rows anchors) := by
  simp only [anchorTurns, turnsOf, anchorsOf]
  rw [filter_map]
  refine map_congr_left (fun a hA => ?_)
  simp only [mem_filter, decide_eq_true_eq] at hA
  rw [← hA.2, verifyAnchor_only]

variable (turns : List Turn) (tenant : String)

/- The tenant's root is that of its own turns. -/
theorem getElem?_includedStarts_only :
    (includedStarts (turnsOf tenant turns))[tenant]? = (includedStarts turns)[tenant]? := by
  rw [getElem?_includedStarts, getElem?_includedStarts]
  congr 3
  simp [turnsOf]

/- The platform-signed ranges of the tenants, side by side. -/
theorem platformRanges_split (tenants : List String) (hNodup : tenants.Nodup)
    (hTenants : ∀ turn ∈ turns, turn.1.tenantId ∈ tenants) :
    (platformRanges opts turns).all platformOk =
        tenants.all (fun tenant => (platformRanges opts (turnsOf tenant turns)).all platformOk) ∧
      (platformRanges opts turns).countP platformOk =
        (tenants.map (fun tenant =>
          (platformRanges opts (turnsOf tenant turns)).countP platformOk)).sum := by
  unfold platformRanges
  simp only [all_flatMap, countP_flatMap]
  refine ⟨?_, ?_⟩
  · exact KeyedFold.all_toList_table (fun turn : Turn => turn.1.tenantId) recordSigner
      (fun _ signers =>
        (signers.2.map (fun r => (platformBoundary opts signers.1, r))).all platformOk)
      turns tenants hTenants
  · exact KeyedFold.sum_toList_table (fun turn : Turn => turn.1.tenantId) recordSigner
      (fun _ signers =>
        (signers.2.map (fun r => (platformBoundary opts signers.1, r))).countP platformOk)
      turns tenants hNodup hTenants

--
-- Chains by Tenant
--

theorem rowsOf_rowsOf (rows : List AuditRow) (T T' : String) :
    rowsOf T' (rowsOf T rows) =
      if T = T' then rowsOf T rows else [] := by
  unfold rowsOf
  rw [filter_filter]
  by_cases hSame : T = T'
  · subst hSame
    simp
  · rw [if_neg hSame, filter_eq_nil_iff]
    intro row _
    simp only [Bool.and_eq_true, decide_eq_true_eq, not_and]
    intro hT' hT
    exact hSame (hT.symm.trans hT')

/- The start selected for a tenant. -/
def tenantStart (turns : List Turn) (rows : List AuditRow) (tenant : String) : Option Nat :=
  startOf (startByTenant (includedStarts turns) rows) tenant

/- A tenant's file selects the same start for the tenant. -/
theorem tenantStart_only (rows : List AuditRow) (T T' : String) :
    tenantStart (turnsOf T turns) (rowsOf T rows) T' =
      if T = T' then tenantStart turns rows T else none := by
  unfold tenantStart
  rw [startOf_startByTenant, startOf_startByTenant, rowsOf_rowsOf]
  by_cases hSame : T = T'
  · subst hSame
    simp only [if_true]
    congr 1
    funext minSeq
    unfold selectStart
    rw [getElem?_includedStarts_only]
  · simp [hSame]

/- The replay of an export is clean if every tenant's is. -/
theorem replay_split (rows : List AuditRow)
    (tenants : List String) (hTenants : ∀ row ∈ rows, row.tenantId ∈ tenants) :
    (replay C S opts
        (startByTenant (includedStarts turns) rows)
        rows).all List.isEmpty =
      tenants.all (fun T =>
        (replay C S opts
          (startByTenant (includedStarts (turnsOf T turns)) (rowsOf T rows))
          (rowsOf T rows)).all List.isEmpty) := by
  have hEmpty : ∀ T start, ChainFrom C S opts T start [] := by
    intro T start s _ first hFirst
    simp [inScope] at hFirst
  have hOwn :
      ∀ T,
        (replay C S opts
            (startByTenant (includedStarts (turnsOf T turns)) (rowsOf T rows))
            (rowsOf T rows)).all isEmpty = true ↔
          ChainFrom C S opts T (tenantStart turns rows T) (rowsOf T rows) := by
    intro T
    have hStart := tenantStart_only turns rows T
    unfold tenantStart at hStart
    rw [replay_clean_iff]
    constructor
    · intro hAll
      have hT := hAll T
      rw [hStart, rowsOf_rowsOf, if_pos rfl, if_pos rfl] at hT
      exact hT
    · intro hT T'
      rw [hStart, rowsOf_rowsOf]
      by_cases hSame : T = T'
      · subst hSame
        rw [if_pos rfl, if_pos rfl]
        exact hT
      · rw [if_neg hSame, if_neg hSame]
        exact hEmpty T' none
  rw [Bool.eq_iff_iff, replay_clean_iff, all_eq_true]
  constructor
  · intro hAll T _
    exact (hOwn T).mpr (hAll T)
  · intro hAll T
    by_cases hIn : T ∈ tenants
    · exact (hOwn T).mp (hAll T hIn)
    · have hNone : rowsOf T rows = [] := by
        simp only [rowsOf, filter_eq_nil_iff, decide_eq_true_eq]
        intro row hRow hTenant
        exact hIn (hTenant ▸ hTenants row hRow)
      rw [hNone]
      exact hEmpty T _

/- Every tenant is rooted if it is in its own file. -/
theorem rooted_split (rows : List AuditRow) (tenants : List String)
    (hTenants : ∀ row ∈ rows, row.tenantId ∈ tenants) :
    (minSeqByTenant rows).toList.all (fun entry =>
        (selectStart (includedStarts turns) entry.1 entry.2).isSome) =
      tenants.all (fun T =>
        (minSeqByTenant (rowsOf T rows)).toList.all
          (fun entry =>
            (selectStart (includedStarts (turnsOf T turns)) entry.1 entry.2).isSome)) := by
  have hSplit :=
    KeyedFold.all_toList_table (fun row : AuditRow => row.tenantId) (KeyedFold.keepMin AuditRow.seq)
      (fun tenant minSeq =>
        (selectStart (includedStarts turns) tenant minSeq).isSome) rows tenants hTenants
  refine hSplit.trans ?_
  rw [Bool.eq_iff_iff]
  simp only [all_eq_true]
  refine forall₂_congr (fun T _ => forall₂_congr ?_)
  intro entry hEntry
  have hKey : T = entry.1 := by
    rw [TreeMap.mem_toList_iff_getElem?_eq_some, KeyedFold.getElem?_table_filter] at hEntry
    by_contra hNe
    simp [hNe] at hEntry
  subst hKey
  simp only [selectStart, getElem?_includedStarts_only]

/- `verified_from_seq` is the latest of the tenants' starts. -/
theorem lt_latestStart_iff (rows : List AuditRow) (q : Nat) :
    q < latestStart (includedStarts turns) (minSeqByTenant rows).toList ↔
      ∃ T, q < (tenantStart turns rows T).getD 0 := by
  have hMax : ∀ (xs : List Nat) (m : Nat), q < xs.foldl max m ↔ q < m ∨ ∃ x ∈ xs, q < x := by
    intro xs
    induction xs with
    | nil => simp
    | cons x xs ih =>
      intro m
      simp only [foldl_cons, ih, lt_max_iff, exists_mem_cons_iff]
      exact or_assoc
  unfold latestStart tenantStart
  simp only [hMax, Nat.not_lt_zero, false_or, mem_filterMap, Prod.exists,
    TreeMap.mem_toList_iff_getElem?_eq_some, getElem?_minSeqByTenant, startOf_startByTenant]
  constructor
  · rintro ⟨s, ⟨T, minSeq, hMin, hStart⟩, hLt⟩
    refine ⟨T, ?_⟩
    simpa [hMin, hStart] using hLt
  · rintro ⟨T, hLt⟩
    cases hMin : ((rowsOf T rows).map AuditRow.seq).min? with
    | none => simp [hMin] at hLt
    | some minSeq =>
      rw [hMin, Option.bind_some] at hLt
      cases hStart : selectStart (includedStarts turns) T minSeq with
      | none => simp [hStart] at hLt
      | some s =>
        rw [hStart, Option.getD_some] at hLt
        exact ⟨s, ⟨T, minSeq, hMin, hStart⟩, hLt⟩

theorem latestStart_only (rows : List AuditRow) (T : String) :
    latestStart (includedStarts (turnsOf T turns)) (minSeqByTenant (rowsOf T rows)).toList =
      (tenantStart turns rows T).getD 0 := by
  apply eq_of_forall_lt_iff
  intro q
  rw [lt_latestStart_iff]
  constructor
  · rintro ⟨T', hLt⟩
    rw [tenantStart_only] at hLt
    by_cases hSame : T = T'
    · simpa [hSame] using hLt
    · simp [hSame] at hLt
  · intro hLt
    refine ⟨T, ?_⟩
    rw [tenantStart_only, if_pos rfl]
    exact hLt

--
-- Coverage by Tenant
--

theorem getD_foldl_recordItem {α β : Type} (item : α → β) (xs : List α)
    (items : Option (List β)) :
    (xs.foldl (recordItem item) items).getD [] = items.getD [] ++ xs.map item := by
  induction xs generalizing items with
  | nil => simp
  | cons x xs ih =>
    rw [foldl_cons, ih]
    simp [recordItem]

/- The sorted ranges of a tenant's anchor records. -/
def tenantRanges (anchors : List AnchorRecord) (tenant : String) : List (Nat × Nat) :=
  ((anchorsOf tenant anchors).map (fun a => (a.batchStartSeq, a.batchEndSeq))).insertionSort
    RangeLe

variable (anchors : List AnchorRecord)

theorem getD_anchorRanges :
    ((anchorRanges anchors)[tenant]?).getD [] = tenantRanges anchors tenant := by
  have hItems :=
    getD_foldl_recordItem (fun a : AnchorRecord => (a.batchStartSeq, a.batchEndSeq))
      (anchorsOf tenant anchors) none
  rw [anchorRanges, TreeMap.getElem?_map, KeyedFold.getElem?_table, TreeMap.getElem?_emptyc]
  unfold tenantRanges
  simp only [Option.getD_none, nil_append] at hItems
  rw [← hItems]
  unfold anchorsOf
  cases (anchors.filter (fun a => a.tenantId = tenant)).foldl
    (recordItem (fun a : AnchorRecord => (a.batchStartSeq, a.batchEndSeq))) none <;> rfl

theorem covered_tenantRanges_iff (q : Nat) :
    covered (tenantRanges anchors tenant) q = true ↔
      ∃ a ∈ anchors, a.tenantId = tenant ∧ a.batchStartSeq ≤ q ∧ q ≤ a.batchEndSeq := by
  simp [covered, tenantRanges, anchorsOf, and_assoc]

/- A counter of the coverage pass that counts the seqs with a property sums the tenants' counts. -/
theorem coverage_sum (count : CoverState → Nat) (p : List (Nat × Nat) → Nat → Bool)
    (hCount : ∀ ranges seqs, count (coverSeqs ranges seqs) = (sortDedup seqs).countP (p ranges))
    (since : Nat) (rows : List AuditRow) (anchors : List AnchorRecord)
    (tenants : List String) (hNodup : tenants.Nodup)
    (hTenants : ∀ row ∈ rows, row.tenantId ∈ tenants) :
    ((seqsByTenant since rows).toList.map (fun entry => count (coverageOf anchors entry))).sum =
      (tenants.map (fun T =>
        countFrom (p (tenantRanges anchors T)) since ((rowsOf T rows).map AuditRow.seq))).sum := by
  rw [KeyedFold.sum_toList (seqsByTenant since rows)
    (fun T seqs => count (coverageOf anchors (T, seqs))) tenants hNodup]
  · refine congrArg sum (map_congr_left (fun T _ => ?_))
    have hEmpty :
        ∀ seqs : Option (List Nat),
          (seqs.map (fun seqs =>
            count (coverageOf anchors (T, seqs)))).getD 0 =
            count (coverageOf anchors (T, seqs.getD [])) := by
      intro seqs
      cases seqs with
      | none => simp [coverageOf, hCount, sortDedup, dedup]
      | some seqs => rfl
    rw [hEmpty, seqsByTenant, KeyedFold.getElem?_table, TreeMap.getElem?_emptyc,
      getD_foldl_recordItem, coverageOf, getD_anchorRanges, hCount]
    unfold countFrom rowsOf
    rw [filter_map, filter_filter, filter_filter]
    simp only [Option.getD_none, nil_append]
    congr 3
    refine filter_congr (fun row _ => ?_)
    exact Bool.and_comm _ _
  · refine KeyedFold.mem_keys_of_table ?_
    intro row hRow
    exact hTenants row (mem_of_mem_filter hRow)

theorem tenantRanges_only :
    tenantRanges (anchorsOf tenant anchors) tenant = tenantRanges anchors tenant := by
  simp [tenantRanges, anchorsOf]

--
-- Decomposition
--

/- The verdicts and counters of a report from its turns. -/
private structure ReportOf (opts : VerifyOptions) (rows : List AuditRow)
    (anchors : List AnchorRecord) (turns : List Turn) (report : VerifyReport) : Prop where
  hashChainValid :
    report.hashChainValid =
      (replay C S opts (startByTenant (includedStarts turns) rows) rows).all List.isEmpty
  signaturesValid :
    report.signaturesValid =
      (turns.all (fun turn => turn.2.error.isNone) && (platformRanges opts turns).all platformOk)
  trustEstablished :
    report.trustEstablished =
      (minSeqByTenant rows).toList.all (fun entry =>
        (selectStart (includedStarts turns) entry.1 entry.2).isSome)
  stripDetected : report.stripDetected = turns.any (fun turn => turn.2.stripped)
  anchorsIncluded : report.anchorsIncluded = turns.countP (fun turn => turn.2.included)
  anchorsUnverified : report.anchorsUnverified = turns.countP (fun turn => turn.2.unverified)
  platformSignedBatches :
    report.platformSignedBatches = (platformRanges opts turns).countP platformOk
  rowsUncoveredByAnchors :
    report.rowsUncoveredByAnchors =
      ((seqsByTenant
        (latestStart (includedStarts turns) (minSeqByTenant rows).toList) rows).toList.map
        (fun entry => (coverageOf anchors entry).uncovered)).sum
  rowsUnanchoredTail :
    report.rowsUnanchoredTail =
      ((seqsByTenant
        (latestStart (includedStarts turns) (minSeqByTenant rows).toList) rows).toList.map
        (fun entry => (coverageOf anchors entry).tail)).sum

theorem reportOf_verifyRecords (ledgerLabel : String) (rows : List AuditRow)
    (anchors : List AnchorRecord) :
    ReportOf C S opts rows anchors
      (anchorTurns C S opts rows anchors)
      (verifyRecords C S opts ⟨.emptyLabeled ledgerLabel, rows, anchors⟩) := by
  rcases verifyRecords_report C S opts ⟨.emptyLabeled ledgerLabel, rows, anchors⟩ with ⟨_, hReport⟩
  rw [hReport]
  constructor <;> simp [VerifyReport.emptyLabeled]

/- A report is the sum of reports. -/
structure Decomposes (report : VerifyReport) (reports : List VerifyReport) : Prop where
  hashChainValid : report.hashChainValid = reports.all VerifyReport.hashChainValid
  signaturesValid : report.signaturesValid = reports.all VerifyReport.signaturesValid
  trustEstablished : report.trustEstablished = reports.all VerifyReport.trustEstablished
  stripDetected : report.stripDetected = reports.any VerifyReport.stripDetected
  anchorsIncluded : report.anchorsIncluded = (reports.map VerifyReport.anchorsIncluded).sum
  anchorsUnverified : report.anchorsUnverified = (reports.map VerifyReport.anchorsUnverified).sum
  rowsUncoveredByAnchors :
    report.rowsUncoveredByAnchors = (reports.map VerifyReport.rowsUncoveredByAnchors).sum
  rowsUnanchoredTail : report.rowsUnanchoredTail = (reports.map VerifyReport.rowsUnanchoredTail).sum
  platformSignedBatches :
    report.platformSignedBatches = (reports.map VerifyReport.platformSignedBatches).sum

section Split

variable
    {opts : VerifyOptions}
    {rows : List AuditRow}
    {anchors : List AnchorRecord}
    {turns : List Turn}
    {report : VerifyReport}
    {reports : String → VerifyReport}
    {tenants : List String}
    (hWhole : ReportOf C S opts rows anchors turns report)
    (hOwn :
      ∀ T, ReportOf C S opts (rowsOf T rows) (anchorsOf T anchors) (turnsOf T turns) (reports T))
    (hNodup : tenants.Nodup)
    (hRows : ∀ row ∈ rows, row.tenantId ∈ tenants)

/- A report field that a coverage counter fills. -/
private structure Counts (opts : VerifyOptions) (field : VerifyReport → Nat)
    (count : CoverState → Nat) (p : List (Nat × Nat) → Nat → Bool) : Prop where
  count_eq : ∀ ranges seqs, count (coverSeqs ranges seqs) = (sortDedup seqs).countP (p ranges)
  field_eq :
    ∀ rows anchors turns report,
      ReportOf C S opts rows anchors turns report →
        field report =
          ((seqsByTenant
            (latestStart (includedStarts turns) (minSeqByTenant rows).toList) rows).toList.map
            (fun entry => count (coverageOf anchors entry))).sum

theorem counts_uncovered :
    Counts C S opts VerifyReport.rowsUncoveredByAnchors CoverState.uncovered holeAt :=
  ⟨fun ranges seqs => (coverSeqs_counts ranges seqs).1,
    fun _ _ _ _ hReport => hReport.rowsUncoveredByAnchors⟩

theorem counts_tail :
    Counts C S opts VerifyReport.rowsUnanchoredTail CoverState.tail tailAt :=
  ⟨fun ranges seqs => (coverSeqs_counts ranges seqs).2,
    fun _ _ _ _ hReport => hReport.rowsUnanchoredTail⟩

variable
    {field : VerifyReport → Nat}
    {count : CoverState → Nat}
    {p : List (Nat × Nat) → Nat → Bool}
    (hCounts : Counts C S opts field count p)

include hOwn hCounts in
/- A counter of a tenant's own file. -/
theorem coverage_own (T : String) :
    field (reports T) =
      countFrom (p (tenantRanges anchors T))
        ((tenantStart turns rows T).getD 0)
        ((rowsOf T rows).map AuditRow.seq) := by
  rw [hCounts.field_eq _ _ _ _ (hOwn T), latestStart_only,
    coverage_sum count p hCounts.count_eq _ _ _ [T] (nodup_singleton T) (by simp [rowsOf]),
    map_singleton, sum_singleton, rowsOf_rowsOf, if_pos rfl, tenantRanges_only]

include hWhole hOwn hNodup hRows

include hCounts in
/- What one coverage counter needs to decompose. -/
theorem coverage_split_iff :
    field report = ((tenants.map reports).map field).sum ↔
      ∀ T ∈ tenants, ∀ row ∈ rowsOf T rows,
        (tenantStart turns rows T).getD 0 ≤ row.seq →
          (∃ U, row.seq < (tenantStart turns rows U).getD 0) →
          p (tenantRanges anchors T) row.seq = false := by
  have hLe :
      ∀ T,
        (tenantStart turns rows T).getD 0 ≤
          latestStart (includedStarts turns) (minSeqByTenant rows).toList := by
    intro T
    refine le_of_forall_lt (fun q hLt => ?_)
    exact (lt_latestStart_iff turns rows q).mpr ⟨T, hLt⟩
  have hTerms :=
    KeyedFold.sum_eq_sum_iff
      (fun T =>
        countFrom (p (tenantRanges anchors T))
          (latestStart (includedStarts turns) (minSeqByTenant rows).toList)
          ((rowsOf T rows).map AuditRow.seq))
      (fun T => field (reports T)) tenants
      (fun T => by
        rw [coverage_own C S hOwn hCounts]
        exact countFrom_anti _ (hLe T) _)
  rw [hCounts.field_eq _ _ _ _ hWhole, coverage_sum count p hCounts.count_eq _ _ _ _ hNodup hRows,
    List.map_map]
  refine hTerms.trans (forall₂_congr (fun T _ => ?_))
  rw [coverage_own C S hOwn hCounts, countFrom_eq_iff _ (hLe T), forall_mem_map]
  simp only [lt_latestStart_iff]

/- All but the coverage counters always decompose. -/
theorem decomposes_iff_coverage (hAnchors : ∀ turn ∈ turns, turn.1.tenantId ∈ tenants) :
    Decomposes report (tenants.map reports) ↔
      report.rowsUncoveredByAnchors =
          ((tenants.map reports).map VerifyReport.rowsUncoveredByAnchors).sum ∧
        report.rowsUnanchoredTail =
          ((tenants.map reports).map VerifyReport.rowsUnanchoredTail).sum := by
  constructor
  · intro hSplit
    exact ⟨hSplit.rowsUncoveredByAnchors, hSplit.rowsUnanchoredTail⟩
  · rintro ⟨hUncovered, hTail⟩
    have hAll :=
      fun p => KeyedFold.all_eq_all (fun turn : Turn => turn.1.tenantId) p turns tenants hAnchors
    have hSum :=
      fun p => KeyedFold.countP_eq_sum (fun turn : Turn => turn.1.tenantId) p turns tenants
        hNodup hAnchors
    rcases platformRanges_split opts turns tenants hNodup hAnchors with ⟨hPlatform, hBatches⟩
    have hBoth :
        ∀ p q : String → Bool,
          (tenants.all p && tenants.all q) = tenants.all (fun T => p T && q T) := by
      intro p q
      rw [Bool.eq_iff_iff]
      simp [← forall_and]
    refine ⟨?_, ?_, ?_, ?_, ?_, ?_, hUncovered, hTail, ?_⟩
    · rw [hWhole.hashChainValid, replay_split C S opts turns rows tenants hRows, all_map]
      congr 1
      funext T
      exact (hOwn T).hashChainValid.symm
    · rw [hWhole.signaturesValid, hAll, hPlatform, hBoth, all_map]
      congr 1
      funext T
      exact (hOwn T).signaturesValid.symm
    · rw [hWhole.trustEstablished, rooted_split turns rows tenants hRows, all_map]
      congr 1
      funext T
      exact (hOwn T).trustEstablished.symm
    · rw [hWhole.stripDetected, any_map, any_eq_not_all_not, any_eq_not_all_not, hAll]
      congr 2
      funext T
      simp only [Function.comp, (hOwn T).stripDetected]
      rw [any_eq_not_all_not, Bool.not_not]
      rfl
    · rw [hWhole.anchorsIncluded, hSum, List.map_map]
      congr 2
      funext T
      exact (hOwn T).anchorsIncluded.symm
    · rw [hWhole.anchorsUnverified, hSum, List.map_map]
      congr 2
      funext T
      exact (hOwn T).anchorsUnverified.symm
    · rw [hWhole.platformSignedBatches, hBatches, List.map_map]
      congr 2
      funext T
      exact (hOwn T).platformSignedBatches.symm

end Split

/- The seq the verifier checks a tenant's rows from. -/
def Export.root {S : Serde} (opts : VerifyOptions) (e : Export S) (tenant : String) : Nat :=
  (tenantStart (anchorTurns C S opts e.rows e.anchors) e.rows tenant).getD 0

theorem Export.mem_tenants {S : Serde} (e : Export S) (tenant : String) :
    tenant ∈ e.tenants ↔
      (∃ row ∈ e.rows, row.tenantId = tenant) ∨ ∃ a ∈ e.anchors, a.tenantId = tenant := by
  simp [Export.tenants]

theorem reportOf_only (labels : String → String) (e : Export S) (T : String) :
    ReportOf C S opts (rowsOf T e.rows) (anchorsOf T e.anchors)
      (turnsOf T (anchorTurns C S opts e.rows e.anchors))
      (verifyRecords C S opts ⟨.emptyLabeled (labels T), (e.only T).rows, (e.only T).anchors⟩) := by
  rw [(e.records_only _).1, (e.records_only _).2, ← anchorTurns_only]
  exact reportOf_verifyRecords C S opts (labels T) _ _

/-
  The report of an export decomposes exactly when no tenant has an uncovered row that its own file
  counts and another tenant's later root hides.
-/
theorem verifyLedgerReader_decomposes_iff (opts : VerifyOptions) (ledgerLabel : String)
    (labels : String → String) (e : Export S) :
    ∃ (report : VerifyReport) (reports : String → VerifyReport),
      verifyLedgerReader C S e.toNdjson ledgerLabel opts = .ok report ∧
        (∀ T, verifyLedgerReader C S (e.only T).toNdjson (labels T) opts = .ok (reports T)) ∧
        (Decomposes report (e.tenants.map reports) ↔
          ∀ T U, ∀ row ∈ e.rows,
            row.tenantId = T →
              e.root C opts T ≤ row.seq →
              row.seq < e.root C opts U →
              ∃ a ∈ e.anchors, a.tenantId = T ∧
                a.batchStartSeq ≤ row.seq ∧
                row.seq ≤ a.batchEndSeq) := by
  refine ⟨_, _, verifyLedgerReader_export C S opts ledgerLabel e,
    fun T => verifyLedgerReader_export C S opts (labels T) (e.only T), ?_⟩
  have hWhole := reportOf_verifyRecords C S opts ledgerLabel e.rows e.anchors
  have hOwn := reportOf_only C S opts labels e
  have hNodup : e.tenants.Nodup := nodup_dedup _
  have hRows : ∀ row ∈ e.rows, row.tenantId ∈ e.tenants :=
    fun row hRow => (e.mem_tenants _).mpr (.inl ⟨row, hRow, rfl⟩)
  have hAnchors : ∀ turn ∈ anchorTurns C S opts e.rows e.anchors, turn.1.tenantId ∈ e.tenants := by
    intro turn hTurn
    rcases mem_map.mp hTurn with ⟨a, hA, rfl⟩
    exact (e.mem_tenants _).mpr (.inr ⟨a, hA, rfl⟩)
  rw [decomposes_iff_coverage C S hWhole hOwn hNodup hRows hAnchors,
    coverage_split_iff C S hWhole hOwn hNodup hRows (counts_uncovered C S),
    coverage_split_iff C S hWhole hOwn hNodup hRows (counts_tail C S)]
  -- A row is a hole or in the tail unless a batch covers it.
  constructor
  · rintro ⟨hHoles, hTails⟩ T U row hRow hTenant hFrom hBelow
    have hIn : T ∈ e.tenants := hTenant ▸ hRows row hRow
    have hMem : row ∈ rowsOf T e.rows := by simp [rowsOf, hRow, hTenant]
    have hHole := hHoles T hIn row hMem hFrom ⟨U, hBelow⟩
    have hTail := hTails T hIn row hMem hFrom ⟨U, hBelow⟩
    rw [← covered_tenantRanges_iff]
    by_contra hOpen
    rw [Bool.not_eq_true] at hOpen
    simp only [holeAt, tailAt, hOpen, Bool.not_false,
      Bool.true_and, Bool.not_eq_false'] at hHole hTail
    simp [hHole] at hTail
  · intro hCovered
    have hOpen :
        ∀ T ∈ e.tenants, ∀ row ∈ rowsOf T e.rows,
          e.root C opts T ≤ row.seq →
            (∃ U, row.seq < e.root C opts U) →
            covered (tenantRanges e.anchors T) row.seq = true := by
      intro T _ row hRow hFrom hBelow
      rcases hBelow with ⟨U, hBelow⟩
      simp only [rowsOf, mem_filter, decide_eq_true_eq] at hRow
      rw [covered_tenantRanges_iff]
      exact hCovered T U row hRow.1 hRow.2 hFrom hBelow
    refine ⟨?_, ?_⟩
    · intro T hT row hRow hFrom hBelow
      simp [holeAt, hOpen T hT row hRow hFrom hBelow]
    · intro T hT row hRow hFrom hBelow
      simp [tailAt, hOpen T hT row hRow hFrom hBelow]

--
-- A Hidden Hole
--

/-
  Two tenants.  `…a1` is a window rooted at an included batch that starts at seq 5.  `…b2` starts at
  its genesis, has a batch for row 1, and none for row 0.
-/
def windowAndGenesis : Ndjson where
  lines :=
    ([("5", 1), ("6", 2), ("7", 3), ("8", 4)].map (fun row =>
      pieced (rowPieces "a1" row.1 "" "" "" "" "" (ledgerHash row.2) ""))) ++
      [pieced
        (anchorPieces "a1" "5" "8" ledgerRoot "anchored"
          "1zxgn1+NxPv7IUI5YNjcgo1mnuSxmRvmnHCTtV+KJ6YC4DXr7AvbQtqxxU/ymB5UFDaxdQMZfRf3RIiFt3CJBg=="
          "A6EHv/POEL4dcN0Y50vAmWfk1jCbpQ1fHdyGZBJVMbg=" ++ rekorPieces),
      pieced
        (rowPieces "b2" "0" "" "chat" "user1" "\x7b\x7d"
          "cbe4d0da769e3fb2de90707d77bfbf174ca39dce0032104d00cb739b985249f8"
          "6a3b2ac48e0625305494901fa71a1f5aa70b45be4ea60fce8bfe1096effe6353" ""),
      pieced
        (rowPieces "b2" "1" "" "chat" "user1" "\x7b\x7d"
          "6a3b2ac48e0625305494901fa71a1f5aa70b45be4ea60fce8bfe1096effe6353"
          "dad130da5d669b659ebdc894d4584ebd39e5c060a757d7393ae2d0d6004e5006" ""),
      pieced
        (anchorPieces "b2" "1" "1"
          "0b7fe2abab20206a8e5e8e864b54ceb29652fced0ea0747e08ef2c5b1ba6be07" "signed"
          "P28zgxzVKELVwhYt24Of3xvcn47pQW0wjKpUnn/xTULMzHvGIOfyB3QvCG3Nou1DJXMOAseSxCLklSnyCZMFBQ=="
          "A6EHv/POEL4dcN0Y50vAmWfk1jCbpQ1fHdyGZBJVMbg=" ++ [": null\x7d"])]

/- The workspace key of the export. -/
def exportKey : Hash :=
  ⟨[3, 161, 7, 191, 243, 206, 16, 190, 29, 112, 221, 24,
    231, 75, 192, 153, 103, 228, 214, 48, 155, 165, 13,
    95, 29, 220, 134, 100, 18, 85, 49, 184], by decide⟩

/- The two attestations and the log's checkpoint. -/
def exportSignatures : List (String × String × String) :=
  [("A6EHv/POEL4dcN0Y50vAmWfk1jCbpQ1fHdyGZBJVMbg=",
    "dHJhY2VsYW5lLWF1ZGl0LWVkMjU1MTktdjEAMtO/a8kSjkXy0cA3VhFyIy1zeSB1hTlJujOsgpnJJ54BLJEzKBM0CwT" ++
    "YQzfu1eUGUfb/puz+icazTutNHJfujLiZ9k21glBzdhS32UAv4bObh0opJx+fF+l+z3/yHashSgAAAAABHw1Q",
    "1zxgn1+NxPv7IUI5YNjcgo1mnuSxmRvmnHCTtV+KJ6YC4DXr7AvbQtqxxU/ymB5UFDaxdQMZfRf3RIiFt3CJBg=="),
    ("A6EHv/POEL4dcN0Y50vAmWfk1jCbpQ1fHdyGZBJVMbg=",
    "dHJhY2VsYW5lLWF1ZGl0LWVkMjU1MTktdjEAC3/iq6sgIGqOXo6GS1TOspZS/O0OoHR+CO8sWxumvgcA",
    "P28zgxzVKELVwhYt24Of3xvcn47pQW0wjKpUnn/xTULMzHvGIOfyB3" ++
    "QvCG3Nou1DJXMOAseSxCLklSnyCZMFBQ==")] ++
    ledgerSignatures.drop 1

def exportCrypto : Crypto :=
  tableCrypto exportSignatures ledgerEntrySignature

def exportOptions : VerifyOptions :=
  { tenantPubkey := some exportKey }

def hiddenHole : Export jsonSerde where
  toNdjson := windowAndGenesis
  readable := by decide +kernel

/- The tenant that starts at its genesis. -/
def genesisTenant : String :=
  "00000000-0000-0000-0000-0000000000b2"

/- The hole counts in the tenant's file, not in the export. -/
theorem hiddenHole_not_decomposes :
    ∃ (report : VerifyReport) (reports : String → VerifyReport),
      verifyLedgerReader exportCrypto jsonSerde
          hiddenHole.toNdjson "export" exportOptions =
          .ok report ∧
        (∀ T,
          verifyLedgerReader exportCrypto jsonSerde (hiddenHole.only T).toNdjson T exportOptions =
            .ok (reports T)) ∧
        report.rowsUncoveredByAnchors = 0 ∧
        (reports genesisTenant).rowsUncoveredByAnchors = 1 ∧
        ¬ Decomposes report (hiddenHole.tenants.map reports) := by
  have hUncovered :
      (verifyLedgerReader exportCrypto jsonSerde
        hiddenHole.toNdjson "export" exportOptions).map
        VerifyReport.rowsUncoveredByAnchors = .ok 0 := by
    decide +kernel
  -- both lists of the one parse, so that it is evaluated once
  have hBoth :
      ((rowsOf genesisTenant hiddenHole.rows).map AuditRow.seq,
        (anchorsOf genesisTenant hiddenHole.anchors).map
          (fun a => (a.batchStartSeq, a.batchEndSeq))) =
        ([0, 1], [(1, 1)]) := by
    decide +kernel
  rcases Prod.mk.inj hBoth with ⟨hSeqs, hBatches⟩
  rw [verifyLedgerReader_export, Except.map, Except.ok.injEq] at hUncovered
  refine ⟨_, _, verifyLedgerReader_export _ _ _ _ _,
    fun T => verifyLedgerReader_export _ _ _ T _, hUncovered, ?_⟩
  have hOwn :=
    coverage_own exportCrypto jsonSerde
      (reportOf_only exportCrypto jsonSerde exportOptions id hiddenHole)
      (counts_uncovered exportCrypto jsonSerde) genesisTenant
  have hStart :
      tenantStart
          (anchorTurns exportCrypto jsonSerde exportOptions hiddenHole.rows hiddenHole.anchors)
          hiddenHole.rows genesisTenant = some 0 := by
    rw [tenantStart, startOf_startByTenant, hSeqs]
    rfl
  rw [hStart, hSeqs, tenantRanges, hBatches] at hOwn
  have hOne : countFrom (holeAt ([(1, 1)].insertionSort RangeLe)) ((some 0).getD 0) [0, 1] = 1 := by
    decide
  rw [hOne] at hOwn
  refine ⟨hOwn, ?_⟩
  intro hSplit
  have hMem : genesisTenant ∈ hiddenHole.tenants := by
    have hRow : 0 ∈ (rowsOf genesisTenant hiddenHole.rows).map AuditRow.seq := by simp [hSeqs]
    rcases mem_map.mp hRow with ⟨row, hRow, _⟩
    simp only [rowsOf, mem_filter, decide_eq_true_eq] at hRow
    exact (hiddenHole.mem_tenants _).mpr (.inl ⟨row, hRow⟩)
  have hSum := hSplit.rowsUncoveredByAnchors
  rw [hUncovered, List.map_map, eq_comm, List.sum_eq_zero_iff_forall_eq_nat] at hSum
  have hZero := hSum _ (List.mem_map_of_mem hMem)
  simp only [Function.comp] at hZero
  rw [id_eq] at hOwn
  omega

end Tracelane.Verifier
