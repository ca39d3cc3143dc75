import Tracelane.Lib.Sha256
import Tracelane.Audit.AnchorSpec
import Tracelane.Audit.Deserialize
import Tracelane.Audit.Ledger

/-
  Soundness of a passing verdict.

  A file that passes has, for every tenant with rows, an unbroken chain from the tenant's start, and
  for every anchor record its rows, their Merkle root, and a trusted attestation.
-/

namespace Tracelane.Verifier

open List
open Std
open Transition

variable (C : Crypto) (S : Serde)

--
-- Verified Tenants
--

/- The record is attested by the workspace key. -/
def WorkspaceSigned (opts : VerifyOptions) (tenantPubkey : Hash) (a : AnchorRecord) : Prop :=
  ∃ root entry,
    hexDecode32 a.merkleRoot = .ok root ∧ Attested C S opts tenantPubkey root a .workspace entry

/- The starts of a tenant's batches that may root a window. -/
def rootStarts (opts : VerifyOptions) (tenantPubkey : Hash)
    (anchors : List AnchorRecord) (tenant : String) : Set Nat :=
  { s | ∃ a ∈ anchors, ∃ root entry,
      a.tenantId = tenant ∧
        hexDecode32 a.merkleRoot = .ok root ∧
        Attested C S opts tenantPubkey root a .workspace entry ∧
        PubliclyIncluded C S root a ∧
        a.batchStartSeq = s }

/-
  The hash before row `i` of a chain: the genesis seed or, in a window, the declared previous hash
  for the first row, and the stored hash of the row before for any other.
-/
def PrevHash (tenantUuid : ByteArr 16) (rows : List AuditRow) (i : Nat)
    (row : AuditRow) (prev : Hash) : Prop :=
  match i with
  | 0 =>
      if row.seq = 0 then prev = genesisV2 C tenantUuid
      else hexDecode32 row.prevHash = .ok prev
  | j + 1 => ∃ before, rows[j]? = some before ∧ hexDecode32 before.rowHash = .ok prev

/- What a passing verdict says of one tenant's rows. -/
structure TenantVerified (opts : VerifyOptions) (tenantPubkey : Hash)
    (rows : List AuditRow) (anchors : List AnchorRecord) (tenant : String) (s : Nat) : Prop where
  genesis : (∃ row ∈ rowsOf tenant rows, row.seq = 0) → s = 0
  window :
    (∀ row ∈ rowsOf tenant rows, row.seq ≠ 0) →
      IsLeast (rootStarts C S opts tenantPubkey anchors tenant) s
  seqs :
    (inScope s (rowsOf tenant rows)).map AuditRow.seq =
      List.range' s (inScope s (rowsOf tenant rows)).length
  /- Only an anchor over no row can root an empty chain. -/
  nonempty :
    (∀ a ∈ anchors, a.tenantId = tenant → a.batchStartSeq ≤ a.batchEndSeq) →
      inScope s (rowsOf tenant rows) ≠ []
  hashes :
    ∀ i row,
      (inScope s (rowsOf tenant rows))[i]? = some row →
        (resolveFormat row opts.formatVersion).isV2Family →
        ∃ tenantUuid prev canon,
          uuidStrToBytes tenant = .ok tenantUuid ∧
            PrevHash C tenantUuid (inScope s (rowsOf tenant rows)) i row prev ∧
            canonPayload S (resolveFormat row opts.formatVersion) row = some canon ∧
            hexDecode32 row.rowHash =
              .ok (rowHashV2 C prev tenantUuid row.seq
                row.eventType.bytes row.actor.bytes
                (utf8 canon))

/- What a passing verdict says of one anchor record. -/
def AnchorVerified (opts : VerifyOptions) (tenantPubkey : Hash)
    (rows : List AuditRow) (anchors : List AnchorRecord) (a : AnchorRecord) : Prop :=
  ∃ root signer entry,
    BatchPresent C rows a root ∧
      Attested C S opts tenantPubkey root a signer entry ∧
      (signer = .platform →
        (∀ since ∈ opts.workspaceKeySinceSeq, a.batchStartSeq < since ∧ a.batchEndSeq < since) ∧
        ∀ b ∈ anchors,
          b.tenantId = a.tenantId →
            WorkspaceSigned C S opts tenantPubkey b →
            a.batchStartSeq < b.batchStartSeq ∧ a.batchEndSeq < b.batchStartSeq)

--
-- Anchors of a Clean File
--

section CleanAnchors

variable {opts : VerifyOptions} {tenantPubkey : Hash} {rows : List AuditRow}
variable {anchors : List AnchorRecord}

/- The turn of a record. -/
theorem mem_anchorTurns_iff (turn : Turn) :
    turn ∈ anchorTurns C S opts rows anchors ↔
      turn.1 ∈ anchors ∧ turn.2 = verifyAnchor C S opts (rowHashByKey rows) turn.1 := by
  simp only [anchorTurns, mem_map]
  constructor
  · rintro ⟨a, hMem, rfl⟩
    simp [hMem]
  · rintro ⟨hMem, hOutcome⟩
    exact ⟨turn.1, hMem, by rw [← hOutcome]⟩

variable {a : AnchorRecord}

theorem mem_anchorTurns (hMem : a ∈ anchors) :
    (a, verifyAnchor C S opts (rowHashByKey rows) a) ∈ anchorTurns C S opts rows anchors := by
  simp [mem_anchorTurns_iff, hMem]

/- Two attestations of one record agree on the signer. -/
theorem attested_signer_unique {root root' : Hash} {signer signer' : Signer}
    {entry entry' : Option AnchorEntry}
    (hFirst : Attested C S opts tenantPubkey root a signer entry)
    (hSecond : Attested C S opts tenantPubkey root' a signer' entry') :
    signer = signer' := by
  rcases hFirst with ⟨key, _, hPubkey, hTrusted, _⟩
  rcases hSecond with ⟨key', _, hPubkey', hTrusted', _⟩
  rw [hPubkey] at hPubkey'
  cases hPubkey'
  exact trustedKey_unique hTrusted hTrusted'

variable (hKey : opts.tenantPubkey = some tenantPubkey)
variable (hClean : ∀ turn ∈ anchorTurns C S opts rows anchors, turn.2.error = none)
include hKey hClean

variable {turn : Turn}

/- In a clean file, a record's root, signer, and inclusion are those its turn found. -/
theorem turn_spec (hTurn : turn ∈ anchorTurns C S opts rows anchors) :
    ∃ root signer entry,
      BatchPresent C rows turn.1 root ∧
        Attested C S opts tenantPubkey root turn.1 signer entry ∧
        turn.2.signer = some signer ∧
        (turn.2.included = true ↔ PubliclyIncluded C S root turn.1) := by
  have hOutcome := ((mem_anchorTurns_iff C S turn).mp hTurn).2
  have hNone := hClean turn hTurn
  rw [hOutcome] at hNone ⊢
  exact verifyAnchor_clean C S hKey hNone

theorem workspaceSigned_turn (hTurn : turn ∈ anchorTurns C S opts rows anchors)
    (hSigned : WorkspaceSigned C S opts tenantPubkey turn.1) :
    turn.2.signer = some .workspace := by
  rcases turn_spec C S hKey hClean hTurn with ⟨root, signer, entry, _, hAttested, hSigner, _⟩
  rcases hSigned with ⟨root', entry', _, hAttested'⟩
  rw [hSigner, attested_signer_unique C S hAttested hAttested']

/- Every record of a clean file is verified. -/
theorem anchorVerified_of_clean
    (hBelow : (platformRanges opts (anchorTurns C S opts rows anchors)).all platformOk = true)
    (hMem : a ∈ anchors) :
    AnchorVerified C S opts tenantPubkey rows anchors a := by
  rcases turn_spec C S hKey hClean
    (mem_anchorTurns C S hMem) with
    ⟨root, signer, entry, hPresent, hAttested, hSigner, _⟩
  refine ⟨root, signer, entry, hPresent, hAttested, ?_⟩
  intro hPlatform
  subst hPlatform
  rcases platformRanges_below hBelow (mem_anchorTurns C S hMem) hSigner with ⟨hSince, hOthers⟩
  refine ⟨hSince, ?_⟩
  intro b hB hTenant hWorkspace
  have hTurn :
      (b, verifyAnchor C S opts (rowHashByKey rows) b) ∈ anchorTurns C S opts rows anchors :=
    mem_anchorTurns C S hB
  exact hOthers _ hTurn hTenant (workspaceSigned_turn C S hKey hClean hTurn hWorkspace)

/- The included start of a tenant is its least root. -/
theorem includedStarts_isLeast {tenant : String} {s : Nat}
    (hStart : (includedStarts (anchorTurns C S opts rows anchors))[tenant]? = some s) :
    IsLeast (rootStarts C S opts tenantPubkey anchors tenant) s := by
  rw [getElem?_includedStarts, min?_eq_some_iff] at hStart
  have hRoots :
      ∀ n,
        n ∈ ((turnsOf tenant
            (anchorTurns C S opts rows anchors)).filter
              roots).map (fun turn => turn.1.batchStartSeq) ↔
          n ∈ rootStarts C S opts tenantPubkey anchors tenant := by
    intro n
    constructor
    · intro hN
      rcases mem_map.mp hN with ⟨turn, hTurn, rfl⟩
      simp only [turnsOf, mem_filter, decide_eq_true_eq, roots, Bool.and_eq_true] at hTurn
      rcases hTurn with ⟨⟨hTurn, hTenant⟩, hIncluded, hWorkspace⟩
      rcases turn_spec C S hKey hClean hTurn with
        ⟨root, signer, entry, hPresent, hAttested, hSigner, hIff⟩
      rw [hSigner] at hWorkspace
      cases hWorkspace
      rcases hPresent with ⟨_, _, _, _, _, hRoot, _⟩
      exact ⟨turn.1, ((mem_anchorTurns_iff C S turn).mp hTurn).1,
        root, entry, hTenant, hRoot, hAttested, hIff.mp hIncluded, rfl⟩
    · rintro ⟨a, hMem, root, entry, hTenant, hRoot, hAttested, hPublic, rfl⟩
      have hTurn :
          (a, verifyAnchor C S opts (rowHashByKey rows) a) ∈ anchorTurns C S opts rows anchors :=
        mem_anchorTurns C S hMem
      rcases turn_spec C S hKey hClean hTurn with ⟨root', _, _, hPresent, _, _, hIff⟩
      rcases hPresent with ⟨_, _, _, _, _, hRoot', _⟩
      rw [hRoot] at hRoot'
      cases hRoot'
      refine mem_map.mpr ⟨(a, verifyAnchor C S opts (rowHashByKey rows) a), ?_, rfl⟩
      simp only [turnsOf, mem_filter, decide_eq_true_eq, roots, Bool.and_eq_true]
      exact ⟨⟨hTurn, hTenant⟩, hIff.mpr hPublic,
        workspaceSigned_turn C S hKey hClean hTurn ⟨root, entry, hRoot, hAttested⟩⟩
  refine ⟨(hRoots s).mp hStart.1, ?_⟩
  intro n hN
  exact hStart.2 n ((hRoots n).mpr hN)

end CleanAnchors

--
-- Chains of a Clean File
--

variable {opts : VerifyOptions} {tenantUuid : ByteArr 16}

variable {next : ChainEntry} {row : AuditRow} {records : Records}

/- A link of a v2-family row recomputes its hash. -/
theorem rowLinks_v2 {entry : ChainEntry} (hLinks : RowLinks C S opts tenantUuid entry row next)
    (hV2 : (resolveFormat row opts.formatVersion).isV2Family) :
    ∃ canon,
      canonPayload S (resolveFormat row opts.formatVersion) row = some canon ∧
        hexDecode32 row.rowHash =
          .ok (rowHashV2 C entry.2 tenantUuid row.seq
            row.eventType.bytes row.actor.bytes
            (utf8 canon)) := by
  rcases hLinks.hash with ⟨canon, hCanon, hHash⟩
  refine ⟨canon, hCanon, ?_⟩
  rw [hLinks.stored, ← hHash]
  simp [recomputeHash, hV2]

variable {rows : List AuditRow} {s : Nat}

/- The root entry holds the hash before the first row. -/
theorem rootEntry_prevHash
    (hLinks :
      RowLinks C S opts tenantUuid
        (rootEntry C s (resolveFormat row opts.formatVersion) tenantUuid row) row next)
    (hV2 : (resolveFormat row opts.formatVersion).isV2Family) :
    PrevHash C tenantUuid rows 0 row
      (rootEntry C s (resolveFormat row opts.formatVersion) tenantUuid row).2 := by
  have hSeq := hLinks.seq
  have hPrev := hLinks.prevHash
  by_cases hStart : s = 0
  · simp only [rootEntry, hStart, if_true] at hSeq ⊢
    simp [PrevHash, hSeq, hV2]
  · simp only [rootEntry, hStart, if_false] at hSeq hPrev ⊢
    have hPos : row.seq ≠ 0 := by omega
    simp only [prevHashOk, hV2, if_true, hPos, false_and, if_false] at hPrev
    cases hDecode : hexDecode32 row.prevHash with
    | error e => simp [hDecode] at hPrev
    | ok seed => simp [PrevHash, hPos, hDecode]

variable {tenant : String}

theorem chain_hashes (hChain : ChainFrom C S opts tenant (some s) (rowsOf tenant rows))
    (i : Nat) (row : AuditRow) (hAt : (inScope s (rowsOf tenant rows))[i]? = some row)
    (hV2 : (resolveFormat row opts.formatVersion).isV2Family) :
    ∃ tenantUuid prev canon,
      uuidStrToBytes tenant = .ok tenantUuid ∧
        PrevHash C tenantUuid (inScope s (rowsOf tenant rows)) i row prev ∧
        canonPayload S (resolveFormat row opts.formatVersion) row = some canon ∧
        hexDecode32 row.rowHash =
          .ok (rowHashV2 C prev tenantUuid row.seq
            row.eventType.bytes row.actor.bytes
            (utf8 canon)) := by
  have hNonempty : inScope s (rowsOf tenant rows) ≠ [] := by
    intro hNil
    simp [hNil] at hAt
  rcases exists_cons_of_ne_nil hNonempty with ⟨first, rest, hScope⟩
  rcases hChain s rfl first (by simp [hScope]) with
    ⟨tenantUuid, final, hUuid, hRun⟩
  rcases hRun.getElem?_step hAt with ⟨entry, next, hLinks, hFirst, hBefore⟩
  rcases rowLinks_v2 C S hLinks hV2 with ⟨canon, hCanon, hHash⟩
  refine ⟨tenantUuid, entry.2, canon, hUuid, ?_, hCanon, hHash⟩
  cases i with
  | zero =>
    have hRow : first = row := by simpa [hScope] using hAt
    subst hRow
    rw [hFirst rfl] at hLinks ⊢
    exact rootEntry_prevHash C S hLinks hV2
  | succ j =>
    rcases hBefore j rfl with ⟨before, _, hAt', hLinks'⟩
    exact ⟨before, hAt', hLinks'.stored⟩

theorem chain_seqs (hFits : rows.length < 2 ^ 63)
    (hChain : ChainFrom C S opts tenant (some s) (rowsOf tenant rows)) :
    (inScope s (rowsOf tenant rows)).map AuditRow.seq =
      List.range' s (inScope s (rowsOf tenant rows)).length := by
  cases hScope : inScope s (rowsOf tenant rows) with
  | nil => rfl
  | cons first rest =>
    rcases hChain s rfl first (by simp [hScope]) with
      ⟨tenantUuid, final, _, hRun⟩
    have hLen : (inScope s (rowsOf tenant rows)).length ≤ rows.length :=
      ((length_filter_le _ _).trans (length_filter_le _ _))
    have hRoot :
        (rootEntry C s (resolveFormat first opts.formatVersion) tenantUuid first).1 = s := by
      unfold rootEntry
      split
      · rename_i hZero
        exact hZero.symm
      · rfl
    rw [hScope] at hRun hLen
    have hSeqs :=
      run_seqs C S opts tenantUuid hRun (s := s)
        (fun row hMem => by
          rw [← hScope] at hMem
          simpa [inScope] using (mem_filter.mp hMem).2)
        (by
          rw [hRoot]
          have hTop : (2 : Nat) ^ 63 ≤ u64Size := by decide
          omega)
    rwa [hRoot] at hSeqs

--
-- Passing Verdicts
--

/- The errors a passing report rules out. -/
theorem pass_clean (hErrors : (verifyRecords C S opts records).errors = []) :
    let turns := anchorTurns C S opts records.rows records.anchors
    let starts := includedStarts turns
    (∀ turn ∈ turns, turn.2.error = none) ∧
      (platformRanges opts turns).all platformOk = true ∧
      (∀ entry ∈ (minSeqByTenant records.rows).toList,
        (selectStart starts entry.1 entry.2).isSome) ∧
      (replay C S opts (startByTenant starts records.rows) records.rows).all isEmpty = true := by
  intro turns starts
  rcases verifyRecords_report C S opts records with ⟨platformSignedRanges, hReport⟩
  rw [hReport] at hErrors
  simp only [append_eq_nil_iff, flatMap_eq_nil_iff, platformErrors, unrootedErrors, map_eq_nil_iff,
    filter_eq_nil_iff, flatten_eq_nil_iff] at hErrors
  rcases hErrors with ⟨⟨⟨_, hTurns, hRanges⟩, hStarts, hChain⟩, _⟩
  refine ⟨?_, ?_, ?_, ?_⟩
  · intro turn hTurn
    simpa using hTurns turn hTurn
  · rw [all_eq_true]
    intro r hR
    simpa using hRanges r hR
  · intro entry hEntry
    simpa [Option.isSome_iff_ne_none] using hStarts entry hEntry
  · rw [all_eq_true]
    intro errors hMem
    simpa using hChain errors hMem

/- A tenant with rows has a least seq. -/
theorem exists_minSeq (hRows : ∃ row ∈ rows, row.tenantId = tenant) :
    ∃ m, ((rowsOf tenant rows).map AuditRow.seq).min? = some m := by
  rcases hRows with ⟨row, hMem, hTenant⟩
  cases hMin : ((rowsOf tenant rows).map AuditRow.seq).min? with
  | some m => exact ⟨m, rfl⟩
  | none =>
    rw [min?_eq_none_iff, map_eq_nil_iff] at hMin
    have hOwn : row ∈ rowsOf tenant rows := by simp [rowsOf, hMem, hTenant]
    simp [hMin] at hOwn

theorem tenantVerified_of_clean {tenantPubkey : Hash}
    (hKey : opts.tenantPubkey = some tenantPubkey) (hFits : records.rows.length < 2 ^ 63)
    (hErrors : (verifyRecords C S opts records).errors = [])
    (hRows : ∃ row ∈ records.rows, row.tenantId = tenant) :
    ∃ s, TenantVerified C S opts tenantPubkey records.rows records.anchors tenant s := by
  rcases pass_clean C S hErrors with ⟨hTurns, _, hStarts, hReplay⟩
  rcases exists_minSeq hRows with ⟨m, hMin⟩
  have hEntry : (tenant, m) ∈ (minSeqByTenant records.rows).toList := by
    rw [TreeMap.mem_toList_iff_getElem?_eq_some, getElem?_minSeqByTenant, hMin]
  rcases Option.isSome_iff_exists.mp (hStarts _ hEntry) with ⟨s, hSelect⟩
  have hChain := (replay_clean_iff C S opts _ _).mp hReplay tenant
  rw [startOf_startByTenant, hMin, Option.bind_some, hSelect] at hChain
  rw [min?_eq_some_iff] at hMin
  have hZero : (∃ row ∈ rowsOf tenant records.rows, row.seq = 0) ↔ m = 0 := by
    constructor
    · rintro ⟨row, hMem, hSeq⟩
      have hLe := hMin.2 row.seq (mem_map_of_mem hMem)
      omega
    · intro hM
      rcases mem_map.mp hMin.1 with ⟨row, hMem, hSeq⟩
      exact ⟨row, hMem, hSeq.trans hM⟩
  have hWindow : m ≠ 0 → IsLeast (rootStarts C S opts tenantPubkey records.anchors tenant) s := by
    intro hM
    simp only [selectStart, hM, if_false] at hSelect
    exact includedStarts_isLeast C S hKey hTurns hSelect
  have hGenesis : m = 0 → s = 0 := by
    intro hM
    simpa [selectStart, hM] using hSelect.symm
  refine ⟨s, fun h => hGenesis (hZero.mp h), ?_,
    chain_seqs C S hFits hChain, ?_, chain_hashes C S hChain⟩
  · intro hNonzero
    refine hWindow (fun hM => ?_)
    rcases hZero.mpr hM with ⟨row, hMem, hSeq⟩
    exact hNonzero row hMem hSeq
  · intro hRanges
    by_cases hM : m = 0
    · rcases hZero.mpr hM with ⟨row, hMem, _⟩
      have hScope : row ∈ inScope s (rowsOf tenant records.rows) := by
        simp [inScope, hMem, hGenesis hM]
      exact ne_nil_of_mem hScope
    · -- The rooting batch holds a row with its own start.
      rcases (hWindow hM).1 with ⟨a, hA, _, _, hTenant, _, _, _, hStart⟩
      rcases turn_spec C S hKey hTurns (mem_anchorTurns C S hA) with ⟨_, _, _, hPresent, _⟩
      rcases hPresent with ⟨batch, _, hBatch, hSeqs, _⟩
      have hCovered : s ∈ a.seqs := by
        rw [a.mem_seqs_iff]
        have := hRanges a hA hTenant
        omega
      rw [← hSeqs] at hCovered
      rcases mem_map.mp hCovered with ⟨row, hRow, hSeq⟩
      have hOwn := hBatch row hRow
      have hScope : row ∈ inScope s (rowsOf tenant records.rows) := by
        simp [inScope, rowsOf, hOwn.1, hOwn.2, hTenant, hSeq]
      exact ne_nil_of_mem hScope

/-
  A passing verdict under a trusted workspace key is sound,
  for every input and whatever the other options.
-/
theorem verifyLedgerReader_pass_sound (reader : Ndjson) (ledgerLabel : String)
    (opts : VerifyOptions) (tenantPubkey : Hash) (hKey : opts.tenantPubkey = some tenantPubkey)
    (report : VerifyReport) (hRead : verifyLedgerReader C S reader ledgerLabel opts = .ok report)
    (hPass : Verdict.of report = .pass) :
    let rows := fileRows S reader.lines
    let anchors := fileAnchors S reader.lines
    (∀ tenant, (∃ row ∈ rows, row.tenantId = tenant) →
        ∃ s, TenantVerified C S opts tenantPubkey rows anchors tenant s) ∧
      ∀ a ∈ anchors, AnchorVerified C S opts tenantPubkey rows anchors a := by
  unfold verifyLedgerReader at hRead
  cases hRecords :
      readLines S ⟨.emptyLabeled ledgerLabel, [], []⟩ 0 reader.lines with
  | error e => simp [hRecords, Except.map] at hRead
  | ok records =>
    simp only [hRecords, Except.map, Except.ok.injEq] at hRead
    subst hRead
    have hErrors := Verdict.of_eq_pass hPass
    rcases readLines_records S hRecords with ⟨hRows, hAnchors⟩
    simp only [nil_append] at hRows hAnchors
    have hFits : records.rows.length < 2 ^ 63 := by
      rw [hRows]
      exact Nat.lt_of_le_of_lt (length_filterMap_le _ _) reader.fits
    rcases pass_clean C S hErrors with ⟨hTurns, hBelow, _, _⟩
    rw [← hRows, ← hAnchors]
    refine ⟨?_, ?_⟩
    · intro tenant hTenant
      exact tenantVerified_of_clean C S hKey hFits hErrors hTenant
    · intro a hMem
      exact anchorVerified_of_clean C S hKey hTurns hBelow hMem

--
-- A Passing File
--

def joinPairs : List String → List String
| s :: t :: rest => (s ++ t) :: joinPairs rest
| pieces => pieces

def joinLoop : Nat → List String → List String
| 0, pieces => pieces
| fuel + 1, pieces => joinLoop fuel (joinPairs pieces)

/- A text given in pieces, joined pairwise. -/
def joined (pieces : List String) : String :=
  (joinLoop 8 pieces).headD ""

def pieced (pieces : List String) : Except String String :=
  .ok (joined pieces)

/- An entry of the public log, the proof that it is there, and the checkpoint of the log. -/
def bodyPieces : List String :=
  ["eyJhcGlWZXJzaW9uIjoiMC4wLjIiLCJraW5kIjoiaGFzaGVkcmVrb3JkIiwic3BlYyI6eyJoYXNoZWRSZWtvcmRWMDAyI",
    "jp7ImRhdGEiOnsiYWxnb3JpdGhtIjoiU0hBMl8yNTYiLCJkaWdlc3QiOiIveDdxVndMTDNRS2hPNkpMSEYycitlWE9Tbk",
    "xTc0NjeTU5TXBkQUdwU2RFPSJ9LCJzaWduYXR1cmUiOnsiY29udGVudCI6Ik1FVUNJUUM2bjhXZUJVb25FVE1PM1E4YW1",
    "6YzZQTzAwaTRhSjFuU0NjWFdiM2pGWUFnSWdCOVFZanlJeGFteG9zMWRyekhHL2Zkd0RJR0M4WXRwK2NKYWJmcXBOUEsw",
    "PSIsInZlcmlmaWVyIjp7ImtleURldGFpbHMiOiJQS0lYX0VDRFNBX1AyNTZfU0hBXzI1NiIsInB1YmxpY0tleSI6eyJyY",
    "XdCeXRlcyI6Ik1Ga3dFd1lIS29aSXpqMENBUVlJS29aSXpqMERBUWNEUWdBRUZJZmJRWDlBbEg2ZzZ2RTB5bnorQTBmR2",
    "czSlhLSmVHQjBueHVqbWFDaDN4TmVtWVFjeGxZTTI2S2ZsdFhXMVhjRm81UDl4a1V3bkZVU0lMRmJXaFV3PT0ifX19fX1",
    "9"]

def proofPieces : List String :=
  ["\x7b\"log_index\": \"18812240\", \"tree_size\": \"18812323\", \"hashes\": [\"0PHlps89O70qymbn",
    "68xMfEFcqprh09UT2tjglgD8w44=\", \"1zCA2JUD/X8ZhpEmVQNiPX+HWkApKsBivGpJaUD7He4=\", \"FXAv+EXa3",
    "+c+lha9pqky7IjbuprI2nnbAt/M9FoJ6W0=\", \"bSO3yESGdIvmLen7Gs34Ub3GZNDSKDm1+klBjaSZ1Rw=\", \"nL",
    "6bmY2SFzcVZHJLbrTOR2U8fI+tXN/SjUVNY2XTPPg=\", \"KZRJq0edFglYeZ4xqj5p5CdrdJLzoZ38frbPU8B0c44=",
    "\", \"ZqDpkwyggnb1rVpUkkIsUq/pcCb9kecnLWYZk4iw/0A=\", \"mIIOzv9S+Dv0wrbFNl6clYwyPPLZl0+gTGgOS",
    "F1Ydko=\", \"U7OqZ/Sn7qK1P91Pb/Z7GZWtT3vz3QGGCeEIMr3T/C4=\", \"eA7AXtHkPXufdvAZJPbemhvmZ6QaZz",
    "Oj7fGKX+0qEDE=\", \"WFBkbSnwQYvKMVrCgIzMgrbM4txyW189E9W3+BrK9MA=\", \"RG0vCStxiQ0ujGCV13RMp0A",
    "3J9bz33/QbAXsr3yKkKg=\", \"eogsZoqAyzlxb746oG3GbmSI0e/vOiZwDj+Uw1p7lBo=\", \"7VJfMDiwXargqw4W",
    "VoJ+jP1o+/yrjTl9rauDgIoYOIM=\", \"XeEls1gJ4M4AdwujiYI1K5d6sP0iuGbhrNtn48XWvDE=\", \"pLALL9Boc",
    "HwnAS+G1UpzEp+G3nu8AzrLG9KRHLR36hg=\", \"nMlYR4OONBiVLjbmuP2SPU9/HKa/8g61u8q6a78To2A=\"]\x7d"]

def envelopePieces (newline dash : String) : List String :=
  ["log2025-1.rekor.sigstore.dev", newline, "18812323", newline,
    "iykA5NPnbabcvQQG9xiZ8Y6k/S6vV4OB4ZTfL/Sv0y4=", newline, newline, dash,
    " log2025-1.rekor.sigstore.dev zxGZFcb4BmUrCtefQFtOcYRpD2kx5zkBeDO7c01VgqeEGtZ63bCNX6/FvU",
    "dnZ7tyAS1wEm4EaxQ01QJEuE7zkF8vpws=",
    newline]

def rekorPieces : List String :=
  [": \x7b\"log_url\": \"https://log2025-1.rekor.sigstore.dev\", \"log_index\": \"18812240\", ",
      "\"canonicalized_body\": \""] ++ bodyPieces ++
    ["\", \"inclusion_proof\": "] ++ proofPieces ++ [", \"checkpoint\": \x7b\"envelope\": \""] ++
    envelopePieces "\\n" "\\u2014" ++ ["\"\x7d\x7d\x7d"]

/- A row of a file, in pieces. -/
def rowPieces (tenant seq time eventType actor payload prevHash rowHash last : String) :
    List String :=
  ["\x7b\"format\": \"v2.1\", \"tenant_id\": \"",
    "00000000-0000-0000-0000-0000000000", tenant, "\", \"seq\": ", seq, ", \"event_time\": \"",
    time, "\", \"event_type\": \"", eventType, "\", \"actor\": \"", actor,
    "\", \"payload\": \"", payload, "\", \"prev_hash\": \"", prevHash,
    "\", \"row_hash\": \"", rowHash, "\"", last, "\x7d"]

/- An anchor record of a file up to its Rekor entry, in pieces. -/
def anchorPieces (tenant first last root state signature pubkey : String) : List String :=
  ["\x7b\"type\": \"anchor\", \"tenant_id\": \"",
    "00000000-0000-0000-0000-0000000000", tenant, "\", \"batch_start_seq\": ", first,
    ", \"batch_end_seq\": ", last, ", \"merkle_root\": \"", root,
    "\", \"anchor_state\": \"", state, "\", \"ed25519\": \x7b\"signature\": \"", signature,
    "\", \"pubkey\": \"", pubkey, "\"\x7d, \"rekor\""]

/- The genesis hash of the ledger, and the hashes of its rows. -/
def ledgerHash (i : Nat) : String :=
  ["585e70f50ce1f27ed206a669e882743eba4dd565c4f61906fe1b3186f322ddf0",
    "f4a7c1f3a07efef68f1b385812b008195c752661da76831eb578cea24e8c0920",
    "70934f09bf67bef455a7aa6b9a524a5786933f930f17237f57a20234129454f2",
    "23ef8d5baea90f65fa990d62b4173c53d1f69238e783940a423d1e223652a875",
    "d92101f3969eea375e00a517604776866a6f1a320631acf1f68bfe63a49289e6"].getD i ""

def ledgerRoot : String :=
  "32d3bf6bc9128e45f2d1c037561172232d73792075853949ba33ac8299c9279e"

/- A row of the ledger. -/
def ledgerLine (seq eventType actor payload : String) (i : Nat) : Except String String :=
  pieced
    (rowPieces "a1" seq ("2026-07-12T00:00:0" ++ seq ++ ".000000Z") eventType actor payload
      (ledgerHash i) (ledgerHash (i + 1)) ", \"rekor_entry_id\": \"18812240\"")

/-
  The anchored ledger of the repository's evaluations: four rows of one tenant and the bundle of
  their batch, included in the public log.
-/
def anchoredLedger : Ndjson where
  lines := [
    ledgerLine "0" "chat.completions.request" "user1"
      "\x7b\\\"action\\\":\\\"call\\\",\\\"step\\\":0\x7d" 0,
    ledgerLine "1" "guardrail.verdict" "system"
      "\x7b\\\"outcome\\\":\\\"allow\\\",\\\"step\\\":1\x7d" 1,
    ledgerLine "2" "chat.completions.request" "user1"
      "\x7b\\\"action\\\":\\\"call\\\",\\\"step\\\":2\x7d" 2,
    ledgerLine "3" "eval.verdict" "system" "\x7b\\\"pass\\\":1,\\\"step\\\":3\x7d" 3,
    pieced
      (anchorPieces "a1" "0" "3" ledgerRoot "anchored"
        "q0FK0d4uaUS+4xeGyoSFRakSqiJqNVU4boEq9BGAqDxIXzhrsdBbrLdEzw5dGNF+ncLdPl8LbWqDZFrXa/zlCQ=="
        "+n4+cpxk9SZH8BK/WUifFHDGLGRn2ceyKMHd1R7S7Pw=" ++ rekorPieces)]

/- The signed triples of the ledger, in base64. -/
def ledgerSignatures : List (String × String × String) :=
  [("+n4+cpxk9SZH8BK/WUifFHDGLGRn2ceyKMHd1R7S7Pw=",
    "dHJhY2VsYW5lLWF1ZGl0LWVkMjU1MTktdjEAMtO/a8kSjkXy0cA3VhFyIy1zeSB1hTlJujOsgpnJJ54BLJEzKBM0CwT" ++
    "YQzfu1eUGUfb/puz+icazTutNHJfujLiZ9k21glBzdhS32UAv4bObh0opJx+fF+l+z3/yHashSgAAAAABHw1Q",
    "q0FK0d4uaUS+4xeGyoSFRakSqiJqNVU4boEq9BGAqDxIXzhrsdBbrLdEzw5dGNF+ncLdPl8LbWqDZFrXa/zlCQ=="),
    ("t8rlp1knGwjfbcXAYPYAkn0XiLz1x8O4t0YkEhie244=",
    "bG9nMjAyNS0xLnJla29yLnNpZ3N0b3JlLmRldgoxODgxMjMyMwppeWtBNU" ++
    "5QbmJhYmN2UVFHOXhpWjhZNmsvUzZ2VjRPQjRaVGZML1N2MHk0PQo=",
    "xvgGZSsK159AW05xhGkPaTHnOQF4M7tzTVWCp4Qa1nrdsI1fr8W9R2dnu3IBLXASbgRrFDTVAkS4TvOQXy+nCw==")]

/- The ECDSA triple of its Rekor entry, in base64. -/
def ledgerEntrySignature : String × String × String :=
  ("BBSH20F/QJR+oOrxNMp8/gNHxoNyVyiXhgdJ8bo5mgod8TXpmEHMZWDNuin5bV1tV3BaOT/cZFMJxVEiCxW1oVM=",
    "/x7qVwLL3QKhO6JLHF2r+eXOSnLSsCcy59MpdAGpSdE=",
    "MEUCIQC6n8WeBUonETMO3Q8amzc6PO00i4aJ1nSCcXWb3jFYAgIgB9QYjy" ++
    "Ixamxos1drzHG/fdwDIGC8Ytp+cJabfqpNPK0=")

def sameTriple (t : String × String × String) (key msg sig : Bytes) : Bool :=
  base64Decode t.1 = .ok key && base64Decode t.2.1 = .ok msg && base64Decode t.2.2 = .ok sig

/- SHA-256, and signatures that are valid on a table. -/
def tableCrypto (signatures : List (String × String × String))
    (entrySignature : String × String × String) : Crypto where
  __ := sha256Only
  verifyEd25519Raw key msg sig :=
    if signatures.any
        (fun t => sameTriple t key.bytes msg sig.bytes) then
      .ok ()
    else .error "Ed25519 verification failed"
  ecdsaP256Verify point prehash sig :=
    sameTriple entrySignature point prehash.bytes sig

def ledgerCrypto : Crypto :=
  tableCrypto ledgerSignatures ledgerEntrySignature

def ledgerKey : Hash :=
  ⟨[250, 126, 62, 114, 156, 100, 245, 38, 71, 240, 18, 191,
    89, 72, 159, 20, 112, 198, 44, 100, 103, 217, 199, 178, 40,
    193, 221, 213, 30, 210, 236, 252], by decide⟩

def ledgerOptions : VerifyOptions :=
  { tenantPubkey := some ledgerKey }

/- The file passes, so the theorem speaks about it. -/
theorem anchoredLedger_pass_sound :
    ∃ report,
      verifyLedgerReader ledgerCrypto jsonSerde anchoredLedger "ledger" ledgerOptions = .ok report ∧
        Verdict.of report = .pass ∧
        (∀ tenant,
          (∃ row ∈ fileRows jsonSerde anchoredLedger.lines, row.tenantId = tenant) →
            ∃ s,
              TenantVerified ledgerCrypto jsonSerde ledgerOptions ledgerKey
                (fileRows jsonSerde anchoredLedger.lines)
                (fileAnchors jsonSerde anchoredLedger.lines)
                tenant s) ∧
        ∀ a ∈ fileAnchors jsonSerde anchoredLedger.lines,
          AnchorVerified ledgerCrypto jsonSerde ledgerOptions
            ledgerKey (fileRows jsonSerde anchoredLedger.lines)
            (fileAnchors jsonSerde anchoredLedger.lines) a := by
  have hVerdict :
      (verifyLedgerReader ledgerCrypto jsonSerde anchoredLedger
        "ledger" ledgerOptions).map Verdict.of =
        .ok .pass := by
    decide +kernel
  cases hRead :
      verifyLedgerReader ledgerCrypto jsonSerde anchoredLedger "ledger" ledgerOptions with
  | error e => simp [hRead, Except.map] at hVerdict
  | ok report =>
    have hPass : Verdict.of report = .pass := by simpa [hRead, Except.map] using hVerdict
    exact ⟨report, rfl, hPass, verifyLedgerReader_pass_sound ledgerCrypto jsonSerde
        anchoredLedger "ledger" ledgerOptions ledgerKey rfl report hRead hPass⟩

end Tracelane.Verifier
