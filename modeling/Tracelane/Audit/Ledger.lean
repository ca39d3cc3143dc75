import Tracelane.Audit.Anchors
import Tracelane.Audit.Chain
import Tracelane.Audit.Coverage

/-
  The verifier's entry point, `verify_ledger_reader`, and the CLI's verdict on its report.

  The reader's lines are split into rows and anchors; the three passes then share one report:
  anchors first, the chain rooted at what they established, coverage last.
-/

namespace Tracelane.Verifier

variable (C : Crypto) (S : Serde)

--
-- Reading
--

/- The records read so far, with the report. -/
structure Records where
  report : VerifyReport
  rows : List AuditRow
  anchors : List AnchorRecord

/- What one line holds. -/
inductive Line where
| blank : Line
| row : AuditRow → Line
| anchor : AnchorRecord → Line
| parseError : String → Line
| anchorParseError : String → Line

def isBlank (line : String) : Bool :=
  (chars line).all isWhitespace

/- A line whose `type` is "anchor" is an anchor record. -/
def parseLine (line : String) : Line :=
  if isBlank line then .blank
  else
    match S.fromStr line with
    | .error e => .parseError e
    | .ok value =>
        if ((value.get "type").bind Value.asStr).map Text.str =
            some "anchor" then
          match S.anchorRecord value with
          | .ok a => .anchor a
          | .error e => .anchorParseError e
        else
          match S.auditRow value with
          | .ok r => .row r
          | .error e => .parseError e

def lineError (lineIdx : Nat) (kind e : String) : VerifyError where
  seq := none
  kind := kind
  detail := "line " ++ toString (lineIdx + 1) ++ ": " ++ e

/- A bad row line clears `hash_chain_valid`; a bad anchor line only leaves its error. -/
def readLine (st : Records) (lineIdx : Nat) (line : String) : Records :=
  match parseLine S line with
  | .blank => st
  | .row r => { st with rows := st.rows ++ [r] }
  | .anchor a => { st with anchors := st.anchors ++ [a] }
  | .parseError e =>
      { st with
        report :=
          { st.report.push (lineError lineIdx "parse_error" e) with
            hashChainValid := false } }
  | .anchorParseError e =>
      { st with
        report := st.report.push (lineError lineIdx "anchor_parse_error" e) }

/- An I/O error ends the read. -/
def readLines :
    Records → Nat → List (Except String String) → Except String Records
| st, _, [] => .ok st
| _, _, .error e :: _ => .error e
| st, lineIdx, .ok line :: rest =>
    readLines (readLine S st lineIdx line) (lineIdx + 1) rest

/-
  The lines a reader yields.  The records of a file fill a
  `Vec`, which cannot hold `2 ^ 63` of them.
-/
structure Ndjson where
  lines : List (Except String String)
  fits : lines.length < 2 ^ 63 := by decide

/- The three passes over the records read. -/
def verifyRecords (opts : VerifyOptions) (records : Records) : VerifyReport :=
  let report := { records.report with rowsSeen := records.rows.length }
  let (report, starts) := verifyAnchorsOffline C S opts records.rows records.anchors report
  let report := verifyChain C S opts records.rows starts report
  countAnchorCoverage records.rows records.anchors report

def verifyLedgerReader (reader : Ndjson) (ledgerLabel : String)
    (opts : VerifyOptions) : Except String VerifyReport :=
  (readLines S ⟨.emptyLabeled ledgerLabel, [], []⟩ 0 reader.lines).map (verifyRecords C S opts)

inductive Verdict where
| pass : Verdict
| chainOnly : Verdict
| fail : Verdict
deriving DecidableEq

/- `Verdict::of`. -/
def Verdict.of (report : VerifyReport) : Verdict :=
  let clean := report.anchorsUnverified = 0 ∧
    report.hashChainValid ∧
    report.signaturesValid ∧
    ¬ report.stripDetected ∧
    report.rowsUncoveredByAnchors = 0 ∧
    report.errors.isEmpty
  if ¬ clean then .fail
  else if report.anchorsIncluded = 0 then .chainOnly
  else .pass

theorem Verdict.of_eq_pass {report : VerifyReport} (hPass : Verdict.of report = .pass) :
    report.errors = [] := by
  unfold Verdict.of at hPass
  simp only at hPass
  split at hPass
  · cases hPass
  · rename_i hClean
    simp only [not_not, List.isEmpty_iff] at hClean
    exact hClean.2.2.2.2.2

def Line.row? : Line → Option AuditRow
| .row r => some r
| _ => none

def Line.anchor? : Line → Option AnchorRecord
| .anchor a => some a
| _ => none

/- The rows of a file, in order. -/
def fileRows (lines : List (Except String String)) : List AuditRow :=
  lines.filterMap (fun line => line.toOption.bind (fun line => (parseLine S line).row?))

/- The anchor records of a file, in order. -/
def fileAnchors (lines : List (Except String String)) :
    List AnchorRecord :=
  lines.filterMap (fun line => line.toOption.bind (fun line => (parseLine S line).anchor?))

theorem readLines_records {st records : Records} {lineIdx : Nat}
    {lines : List (Except String String)} (hRead : readLines S st lineIdx lines = .ok records) :
    records.rows = st.rows ++ fileRows S lines ∧
      records.anchors = st.anchors ++ fileAnchors S lines := by
  induction lines generalizing st lineIdx with
  | nil =>
    cases hRead
    simp [fileRows, fileAnchors]
  | cons line lines ih =>
    cases line with
    | error e => cases hRead
    | ok line =>
      rcases ih hRead with ⟨hRows, hAnchors⟩
      rw [hRows, hAnchors]
      cases hLine : parseLine S line <;>
        simp [readLine, fileRows, fileAnchors, hLine, Line.row?, Line.anchor?, Except.toOption]

--
-- Report in Closed Form
--

/- What the three passes write, the list of platform-signed ranges apart. -/
theorem verifyRecords_report (opts : VerifyOptions) (records : Records) :
    let turns := anchorTurns C S opts records.rows records.anchors
    let ranges := platformRanges opts turns
    let starts := includedStarts turns
    let entries := (minSeqByTenant records.rows).toList
    let chain := replay C S opts (startByTenant starts records.rows) records.rows
    let coverage := (seqsByTenant (latestStart starts entries) records.rows).toList
    ∃ platformSignedRanges,
      verifyRecords C S opts records =
        { ledgerPath := records.report.ledgerPath
          rowsSeen := records.rows.length
          hashChainValid := records.report.hashChainValid && chain.all List.isEmpty
          signaturesValid := records.report.signaturesValid &&
            (turns.all (fun turn => turn.2.error.isNone) && ranges.all platformOk)
          rekorAnchorsSeen := records.report.rekorAnchorsSeen +
            turns.countP (fun turn => turn.2.rekorSeen)
          rekorAnchorsResolved :=
            records.report.rekorAnchorsResolved + turns.countP (fun turn => turn.2.rekorResolved)
          anchorsIncluded := records.report.anchorsIncluded +
            turns.countP (fun turn => turn.2.included)
          anchorsUnverified := records.report.anchorsUnverified +
            turns.countP (fun turn => turn.2.unverified)
          stripDetected := records.report.stripDetected || turns.any (fun turn => turn.2.stripped)
          verifiedFromSeq := latestStart starts entries
          trustEstablished := records.report.trustEstablished &&
            entries.all (fun entry => (selectStart starts entry.1 entry.2).isSome)
          rowsUncoveredByAnchors :=
            records.report.rowsUncoveredByAnchors +
              (coverage.map (fun entry => (coverageOf records.anchors entry).uncovered)).sum
          rowsUnanchoredTail :=
            records.report.rowsUnanchoredTail +
              (coverage.map (fun entry => (coverageOf records.anchors entry).tail)).sum
          platformSignedBatches := records.report.platformSignedBatches + ranges.countP platformOk
          platformSignedRanges := platformSignedRanges
          errors := records.report.errors ++
            (turns.flatMap (fun turn => turn.2.error.toList) ++ platformErrors ranges) ++
            (unrootedErrors starts entries ++ chain.flatten) ++
            coverage.flatMap (fun entry =>
              (coverageOf records.anchors entry).holes.map
                (coverageGap entry.1)) } := by
  intro turns ranges starts entries chain coverage
  rcases verifyAnchorsOffline_report C S opts records.rows records.anchors
    { records.report with rowsSeen := records.rows.length }
    with ⟨platformSignedRanges, hAnchors⟩
  refine ⟨platformSignedRanges, ?_⟩
  simp only [verifyRecords, verifyAnchorsOffline_starts, hAnchors, recordTurns, verifyChain_report,
    countAnchorCoverage_report, List.append_assoc, Bool.and_assoc]
  rfl

end Tracelane.Verifier
