import Tracelane.Lib.KeyedFold
import Tracelane.Audit.Rekor

/-
  The verifier's first pass, `verify_anchors_offline`.

  A turn of its loop over the anchor records reads only the rows' hashes, the options, and the
  record; `verifyAnchor` returns what the turn writes.  The two tables the loop keeps are keyed by
  tenant, and the downgrade rule is applied after the loop.
-/

namespace Tracelane.Verifier

open Std List

variable (C : Crypto) (S : Serde)

--
-- Row Hashes by Key
--

/- The key `tenant/seq` the row hashes are stored under. -/
def rowKey (tenantId : String) (seq : Nat) : String :=
  s!"{tenantId}/{seq}"

/- A row whose hash does not decode leaves the table alone. -/
def recordRowHash (stored : Option Hash) (row : AuditRow) : Option Hash :=
  match hexDecode32 row.rowHash with
  | .ok h => some h
  | .error _ => stored

def rowHashByKey (rows : List AuditRow) : TreeMap String Hash :=
  KeyedFold.table (fun row => rowKey row.tenantId row.seq) recordRowHash ∅ rows

/- The hashes of the batch's rows, if all are present. -/
def batchLeaves (hashes : TreeMap String Hash) (a : AnchorRecord) : Option (List Hash) :=
  a.seqs.mapM (fun seq => hashes[rowKey a.tenantId seq]?)

--
-- One Turn of the Loop
--

/- Which trust root vouches for a batch. -/
inductive Signer where
| workspace : Signer
| platform : Signer
deriving DecidableEq

/- What one turn writes.  Every error it pushes also clears `signatures_valid`. -/
structure AnchorOutcome where
  error : Option VerifyError := none
  stripped : Bool := false
  unverified : Bool := false
  signer : Option Signer := none
  rekorSeen : Bool := false
  rekorResolved : Bool := false
  included : Bool := false
deriving DecidableEq

def anchorError (a : AnchorRecord) (kind detail : String) : VerifyError where
  seq := none
  kind := kind
  detail := a.label ++ ": " ++ detail

/- A record that claims a bundle it does not carry. -/
def AnchorRecord.stripped (a : AnchorRecord) : Bool :=
  a.committed && a.rekor.isNone

/- The strip check and layer 0: the batch's Merkle root. -/
def batchRoot (hashes : TreeMap String Hash) (a : AnchorRecord) : Except VerifyError Hash :=
  if a.stripped then
    .error (anchorError a "anchor_stripped" "claims anchored but the rekor bundle is absent")
  else
    match batchLeaves hashes a with
    | none => .error (anchorError a "anchor_rows_missing" "not all covered rows are present")
    | some leaves =>
        match hexDecode32 a.merkleRoot with
        | .error _ => .error (anchorError a "bad_merkle_root" "merkle_root is not hex")
        | .ok claimedRoot =>
            if merkleRootV2 C leaves = claimedRoot then
              .ok claimedRoot
            else
              .error (anchorError a "merkle_root_mismatch" "recomputed root != anchor.merkle_root")

/- A base64 text that decodes to exactly `n` bytes. -/
def base64Arr (n : Nat) (input : String) : Option (ByteArr n) :=
  match base64Decode input with
  | .ok bytes => ByteArr.ofBytes? n bytes
  | .error _ => none

/-
  The trusted key equal to the bundle's: the workspace key,
  else a platform key, never the bundle's own.
-/
def signingKey (opts : VerifyOptions) (tenantPubkey bundlePubkey : Hash) :
    Option (Hash × Signer) :=
  if bundlePubkey = tenantPubkey then
    some (tenantPubkey, .workspace)
  else
    (opts.platformPubkeys.find? (fun p => bundlePubkey = p)).map
      (fun platform => (platform, .platform))

/- The entry of an anchored record, none for a signed one. -/
def anchoredEntry (root : Hash) (a : AnchorRecord) : Except String (Option AnchorEntry) :=
  if a.committed then
    match a.rekor with
    | some rekor => (extractAnchorEntry C S root rekor).map some
    | none => .ok none
  else .ok none

/- The commitment a record's attestation signs. -/
def recordCommitment (a : AnchorRecord) (entry : Option AnchorEntry) : Bytes :=
  match a.rekor, entry with
  | some rekor, some entry => anchorCommitment C (some (entry.spki, rekor.logUrl, entry.logIndex))
  | _, _ => anchorCommitment C none

def attestMsg (root : Hash) (a : AnchorRecord) (entry : Option AnchorEntry) : Bytes :=
  domainAttest ++ root.bytes ++ recordCommitment C a entry

/-
  The trusted-key gate, the entry body, and layer 3: the
  Ed25519 attestation bound to root and commitment.
-/
def attest (opts : VerifyOptions) (tenantPubkey root : Hash) (a : AnchorRecord) :
    Except VerifyError (Signer × Option AnchorEntry) :=
  match base64Arr 32 a.ed25519.pubkey with
  | none => .error (anchorError a "bad_tenant_pubkey" "ed25519.pubkey is not a 32-byte base64 key")
  | some bundlePubkey =>
      match signingKey opts tenantPubkey bundlePubkey with
      | none =>
          .error (anchorError a "untrusted_tenant_key"
            "anchor Ed25519 pubkey != trusted --tenant-pubkey (rejected — untrusted anchor key)")
      | some (key, signer) =>
          match anchoredEntry C S root a with
          | .error e => .error (anchorError a "anchor_body_invalid" e)
          | .ok entry =>
              match base64Arr 64 a.ed25519.signature with
              | none =>
                  .error (anchorError a "bad_attestation_sig"
                    "ed25519.signature is not a 64-byte base64 sig")
              | some sig =>
                  match
                    C.verifyEd25519Raw key (attestMsg C root a entry) sig with
                  | .error _ =>
                      .error (anchorError a "attestation_invalid"
                        "bound Ed25519 attestation failed (tamper/strip/downgrade)")
                  | .ok () => .ok (signer, entry)

/-
  Layers 1, 2, and 3': the entry's ECDSA signature, then the
  inclusion proof under the log's checkpoint.
-/
def publicLayers (a : AnchorRecord) (signer : Signer) (rekor : RekorBlock)
    (entry : AnchorEntry) : AnchorOutcome :=
  if C.ecdsaP256Verify entry.point entry.digest entry.sig then
    match verifyInclusion C rekor with
    | .ok () =>
        { signer := some signer
          rekorSeen := true
          rekorResolved := true
          included := true }
    | .error e =>
        { signer := some signer
          rekorSeen := true
          rekorResolved := true
          error :=
            some (anchorError a "inclusion_proof_invalid" e) }
  else
    { signer := some signer
      rekorSeen := true
      error :=
        some (anchorError a "entry_signature_invalid"
          "Rekor entry ECDSA sig did not verify over the anchor artifact") }

/- One turn of the loop over the anchor records. -/
def verifyAnchor (opts : VerifyOptions) (hashes : TreeMap String Hash)
    (a : AnchorRecord) : AnchorOutcome :=
  match batchRoot C hashes a with
  | .error e => { error := some e, stripped := a.stripped }
  | .ok root =>
      match opts.tenantPubkey with
      | none => { unverified := true }
      | some tenantPubkey =>
          match attest C S opts tenantPubkey root a with
          | .error e => { error := some e }
          | .ok (signer, entry) =>
              match a.rekor, entry with
              | some rekor, some entry => publicLayers C a signer rekor entry
              | _, _ => { signer := some signer }

/- A record with what its turn writes. -/
abbrev Turn := AnchorRecord × AnchorOutcome

/- The earliest included start of a tenant.  A platform-signed batch never becomes a root. -/
def recordIncluded (start : Option Nat) (turn : Turn) : Option Nat :=
  if turn.2.included ∧ turn.2.signer = some .workspace then
    KeyedFold.keepMin (fun turn : Turn => turn.1.batchStartSeq) start turn
  else start

def includedStarts (turns : List Turn) : TreeMap String Nat :=
  KeyedFold.table (fun turn => turn.1.tenantId) recordIncluded ∅ turns

def AnchorRecord.range (a : AnchorRecord) : SeqRange where
  startSeq := a.batchStartSeq
  endSeq := a.batchEndSeq

/- The smallest workspace-signed start and the platform-signed ranges of a tenant. -/
def recordSigner (signers : Option (Nat × List SeqRange))
    (turn : Turn) : Option (Nat × List SeqRange) :=
  match turn.2.signer with
  | none => signers
  | some signer =>
      let (minStart, platform) := signers.getD (u64Size - 1, [])
      match signer with
      | .platform => some (minStart, platform ++ [turn.1.range])
      | .workspace =>
          if turn.1.batchStartSeq < minStart then
            some (turn.1.batchStartSeq, platform)
          else some (minStart, platform)

def signersByTenant (turns : List Turn) :
    TreeMap String (Nat × List SeqRange) :=
  KeyedFold.table (fun turn => turn.1.tenantId) recordSigner ∅ turns

--
-- Report
--

/- Write one turn's outcome into the report. -/
def recordOutcome (report : VerifyReport) (o : AnchorOutcome) : VerifyReport :=
  { report with
    errors := report.errors ++ o.error.toList
    signaturesValid := report.signaturesValid && o.error.isNone
    stripDetected := report.stripDetected || o.stripped
    anchorsUnverified := report.anchorsUnverified + o.unverified.toNat
    rekorAnchorsSeen := report.rekorAnchorsSeen + o.rekorSeen.toNat
    rekorAnchorsResolved := report.rekorAnchorsResolved + o.rekorResolved.toNat
    anchorsIncluded :=
      report.anchorsIncluded + o.included.toNat }

/- The first seq the platform key may no longer sign. -/
def platformBoundary (opts : VerifyOptions) (workspaceMinStart : Nat) : Nat :=
  match opts.workspaceKeySinceSeq with
  | none => workspaceMinStart
  | some since => min since workspaceMinStart

def platformError (boundary : Nat) (r : SeqRange) : VerifyError where
  seq := none
  kind := "platform_key_after_workspace_key"
  detail :=
    s!"batch {r.startSeq}-{r.endSeq}: signed by the platform key at or after seq {boundary}, " ++
      "where the workspace key had taken over"

/- A platform-signed batch at or past the boundary is red. -/
def checkPlatformRange (boundary : Nat) (report : VerifyReport) (r : SeqRange) : VerifyReport :=
  if r.startSeq ≥ boundary ∨ r.endSeq ≥ boundary then
    { report.push (platformError boundary r) with
      signaturesValid := false }
  else
    { report with
      platformSignedBatches := report.platformSignedBatches + 1
      platformSignedRanges := report.platformSignedRanges ++ [r] }

def checkPlatformRanges (opts : VerifyOptions) (report : VerifyReport)
    (signers : Nat × List SeqRange) : VerifyReport :=
  signers.2.foldl (checkPlatformRange (platformBoundary opts signers.1)) report

/- Every record with its turn's outcome, in file order. -/
def anchorTurns (opts : VerifyOptions) (rows : List AuditRow)
    (anchors : List AnchorRecord) : List Turn :=
  let hashes := rowHashByKey rows
  anchors.map (fun a => (a, verifyAnchor C S opts hashes a))

def verifyAnchorsOffline (opts : VerifyOptions) (rows : List AuditRow)
    (anchors : List AnchorRecord) (report : VerifyReport) :
    VerifyReport × TreeMap String Nat :=
  if anchors.isEmpty then (report, ∅)
  else
    let turns := anchorTurns C S opts rows anchors
    let report := turns.foldl (fun report turn => recordOutcome report turn.2) report
    let report :=
      ((signersByTenant turns).toList.map Prod.snd).foldl (checkPlatformRanges opts) report
    ({ report with
        platformSignedRanges :=
          report.platformSignedRanges.insertionSort (fun r s => r.startSeq ≤ s.startSeq) },
      includedStarts turns)

--
-- Report in Closed Form
--

/- The report after all turns. -/
def recordTurns (report : VerifyReport) (turns : List Turn) : VerifyReport :=
  { report with
    errors := report.errors ++ turns.flatMap (fun turn => turn.2.error.toList)
    signaturesValid := report.signaturesValid && turns.all (fun turn => turn.2.error.isNone)
    stripDetected := report.stripDetected || turns.any (fun turn => turn.2.stripped)
    anchorsUnverified := report.anchorsUnverified + turns.countP (fun turn => turn.2.unverified)
    rekorAnchorsSeen := report.rekorAnchorsSeen + turns.countP (fun turn => turn.2.rekorSeen)
    rekorAnchorsResolved := report.rekorAnchorsResolved +
      turns.countP (fun turn => turn.2.rekorResolved)
    anchorsIncluded := report.anchorsIncluded + turns.countP (fun turn => turn.2.included) }

theorem foldl_recordOutcome (turns : List Turn) (report : VerifyReport) :
    turns.foldl (fun report turn => recordOutcome report turn.2) report =
      recordTurns report turns := by
  have hCount :
      ∀ (p : Turn → Bool) (turn : Turn) (rest : List Turn) n,
        n + (p turn).toNat + rest.countP p = n + (turn :: rest).countP p := by
    intro p turn rest n
    rw [countP_cons]
    cases p turn
    · simp
    · simp
      omega
  induction turns generalizing report with
  | nil => simp [recordTurns]
  | cons turn turns ih =>
    rw [foldl_cons, ih]
    simp [recordTurns, recordOutcome, Bool.and_assoc, Bool.or_assoc, ← hCount]

/- A platform-signed range stays below its tenant's boundary. -/
def platformOk (r : Nat × SeqRange) : Bool :=
  r.2.startSeq < r.1 && r.2.endSeq < r.1

/- Every platform-signed range with its tenant's boundary. -/
def platformRanges (opts : VerifyOptions) (turns : List Turn) : List (Nat × SeqRange) :=
  (signersByTenant turns).toList.flatMap (fun entry =>
    entry.2.2.map (fun r => (platformBoundary opts entry.2.1, r)))

variable (opts : VerifyOptions)

theorem foldl_checkPlatformRanges_eq
    (signers : List (String × (Nat × List SeqRange))) (report : VerifyReport) :
    (signers.map Prod.snd).foldl (checkPlatformRanges opts) report =
      (signers.flatMap (fun entry =>
        entry.2.2.map (fun r => (platformBoundary opts entry.2.1, r)))).foldl
        (fun report r => checkPlatformRange r.1 report r.2)
        report := by
  simp only [foldl_map, foldl_flatMap, checkPlatformRanges]

/- The errors of the ranges past their boundary. -/
def platformErrors (ranges : List (Nat × SeqRange)) : List VerifyError :=
  (ranges.filter (fun r => !platformOk r)).map (fun r => platformError r.1 r.2)

/- The report after the downgrade rule. -/
theorem foldl_checkPlatformRange (ranges : List (Nat × SeqRange)) (report : VerifyReport) :
    ranges.foldl
        (fun report r => checkPlatformRange r.1 report r.2)
        report =
      { report with
        errors := report.errors ++ platformErrors ranges
        signaturesValid := report.signaturesValid && ranges.all platformOk
        platformSignedBatches := report.platformSignedBatches + ranges.countP platformOk
        platformSignedRanges := report.platformSignedRanges ++
          (ranges.filter platformOk).map Prod.snd } := by
  induction ranges generalizing report with
  | nil => simp [platformErrors]
  | cons r ranges ih =>
    rw [foldl_cons, ih]
    by_cases hLate : r.2.startSeq ≥ r.1 ∨ r.2.endSeq ≥ r.1
    · have hBad : platformOk r = false := by
        simp only [platformOk, Bool.and_eq_false_iff, decide_eq_false_iff_not]
        omega
      simp [checkPlatformRange, hLate, VerifyReport.push, platformErrors, hBad]
    · have hGood : platformOk r = true := by
        simp only [platformOk, Bool.and_eq_true, decide_eq_true_eq]
        omega
      simp [checkPlatformRange, hLate, platformErrors, hGood]
      omega

theorem verifyAnchorsOffline_starts (rows : List AuditRow)
    (anchors : List AnchorRecord) (report : VerifyReport) :
    (verifyAnchorsOffline C S opts rows anchors report).2 =
      includedStarts (anchorTurns C S opts rows anchors) := by
  cases anchors with
  | nil => rfl
  | cons a anchors => rfl

/- What the anchor pass writes, the list of platform-signed ranges apart. -/
theorem verifyAnchorsOffline_report (rows : List AuditRow)
    (anchors : List AnchorRecord) (report : VerifyReport) :
    let turns := anchorTurns C S opts rows anchors
    let ranges := platformRanges opts turns
    ∃ platformSignedRanges,
      (verifyAnchorsOffline C S opts rows anchors report).1 =
        { recordTurns report turns with
          errors := (recordTurns report turns).errors ++ platformErrors ranges
          signaturesValid := (recordTurns report turns).signaturesValid && ranges.all platformOk
          platformSignedBatches := report.platformSignedBatches + ranges.countP platformOk
          platformSignedRanges := platformSignedRanges } := by
  intro turns ranges
  by_cases hNone : anchors = []
  · subst hNone
    have hRanges : ranges = [] := by
      simp [ranges, turns, platformRanges, signersByTenant, anchorTurns, KeyedFold.table]
    refine ⟨report.platformSignedRanges, ?_⟩
    simp [verifyAnchorsOffline, turns, anchorTurns, recordTurns, hRanges, platformErrors]
  · have hSome : anchors.isEmpty = false := by simpa using hNone
    simp only [verifyAnchorsOffline, hSome, Bool.false_eq_true, if_false,
      foldl_checkPlatformRanges_eq, foldl_checkPlatformRange, foldl_recordOutcome]
    exact ⟨_, rfl⟩

end Tracelane.Verifier
