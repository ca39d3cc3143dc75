import Mathlib.Data.List.Intervals
import Tracelane.Gateway.Anchoring
import Tracelane.Gateway.Export
import Tracelane.Audit.AnchorSpec
import Tracelane.Audit.PortInclusion
import Tracelane.Audit.Soundness

/-
  What the gateway appends, signs, and anchors, the verifier accepts.

  The threshold loop, the sweep, and the tasks interleave as they please.  Every record they leave
  is over the leaves of its whole batch, and one made with the workspace key passes each layer of
  the verifier.
-/

namespace Tracelane.Gateway

open Transition List
open Verifier

namespace Anchoring

variable {sha256 : Bytes → Hash} {T : TenantId} {anchorEvery maxAgeSecs : Nat} {s s' : State}
  {rows : List AuditLogRow} {batch : Batch} {hashes : List Hash}

--
-- Leaves
--

/- The hashes of the batch's rows, all of them committed. -/
def LeavesOf (rows : List AuditLogRow) (batch : Batch) (hashes : List Hash) : Prop :=
  Forall₂ (fun seq h => ∃ row, rows[seq]? = some row ∧ hexDecode row.rowHash = .ok h)
    (range' batch.startSeq (batch.endSeq + 1 - batch.startSeq)) hashes

theorem LeavesOf.append (hLeaves : LeavesOf rows batch hashes) (later : List AuditLogRow) :
    LeavesOf (rows ++ later) batch hashes := by
  refine hLeaves.imp (fun seq h hRow => ?_)
  rcases hRow with ⟨row, hAt, hHash⟩
  exact ⟨row, by rw [getElem?_append_left (List.getElem?_eq_some_iff.mp hAt).1, hAt], hHash⟩

/- In a chain from genesis a row is found at its seq. -/
theorem seq_of_getElem? {prev : Hash} {next : Nat × Hash}
    (hRun : Run (Links sha256 T) (0, prev) rows next) {i : Nat} {row : AuditLogRow}
    (hAt : rows[i]? = some row) :
    row.seq = i := by
  have hSeq := congrArg (·[i]?) (run_links_seqs sha256 hRun).1
  rw [← range_eq_range'] at hSeq
  simpa only [getElem?_map, hAt, Option.map_some,
    getElem?_range (List.getElem?_eq_some_iff.mp hAt).1, Option.some.injEq] using hSeq

theorem filter_range_between (lo hi n : Nat) :
    (range n).filter (fun seq => lo ≤ seq ∧ seq ≤ hi) = Ico lo (min n (hi + 1)) := by
  simp only [Bool.decide_and, ← filter_filter, ← Ico.zero_bot, ← Nat.lt_succ_iff (n := hi),
    Ico.filter_lt, Ico.filter_le, Nat.zero_max]

/- As many leaves as seqs are those of the whole batch. -/
theorem anchorLeaves_eq_some {ledger : Ledger} (hSound : ledger.Sound sha256 T)
    (hLeaves : anchorLeaves ledger batch = some hashes) :
    LeavesOf ledger.rows.rows batch hashes := by
  unfold anchorLeaves at hLeaves
  split at hLeaves
  · rename_i read hRead
    split at hLeaves <;> cases hLeaves
    rename_i hLen
    unfold readRowHashes at hRead
    simp only [Except.bind_eq_ok_iff, Except.mapM_eq_ok_iff, decodeHashHex_eq_ok_iff] at hRead
    rcases hRead with ⟨lo, hLo, hi, hHi, hRows⟩
    rcases seqI64_eq_ok hLo with ⟨rfl, hLoFits⟩
    rcases seqI64_eq_ok hHi with ⟨rfl, hHiFits⟩
    rcases hSound with ⟨last, hRun, _⟩
    have hFound :=
      congrArg (filter (fun seq => batch.startSeq ≤ seq ∧ seq ≤ batch.endSeq))
        (run_links_seqs sha256 hRun).1
    rw [← range_eq_range', filter_range_between, filter_map] at hFound
    have hCount := congrArg length hFound
    rw [length_map, Ico.length] at hCount
    have hWhole :
        min ledger.rows.rows.length (batch.endSeq + 1) - batch.startSeq =
          batch.endSeq + 1 - batch.startSeq := by
      have hRead := hRows.length_eq
      unfold expectedLeaves at hLen
      simp only [u64Size, i64Size, Function.comp_def] at hLoFits hHiFits hLen hCount hRead ⊢
      omega
    unfold LeavesOf
    rw [← hWhole, ← Ico, ← hFound, forall₂_map_left_iff]
    refine ((forall₂_and_left _ _).mpr ⟨fun row hRow => ?_, hRows⟩).imp
      (fun row h hBoth => ⟨row, hBoth⟩)
    rcases getElem?_of_mem (mem_of_mem_filter hRow) with ⟨i, hI⟩
    rw [seq_of_getElem? hRun hI, hI]
  · cases hLeaves

--
-- Runs
--

/- The leaves of a batch are those the ledger has. -/
def Flight.ReadsFrom (ledger : Ledger) (f : Flight) : Prop :=
  ∀ hashes, f.stage = .leaves hashes → anchorLeaves ledger f.batch = some hashes

/-
  A step that does not append leaves the database alone, or records a batch whose leaves are read.
-/
theorem step_cases {event : Event}
    (hStep : step sha256 T anchorEvery maxAgeSecs s event = some s') :
    (∃ items eventIds eventTime, s' = stepAppend sha256 T anchorEvery s items eventIds eventTime) ∨
      (∀ f ∈ s'.flights, f ∈ s.flights ∨ f.ReadsFrom (s.ledger T)) ∧
        (s'.db = s.db ∨ ∃ i outcome anchoredAt reached origin batch hashes,
          event = .record i outcome anchoredAt reached ∧
            s.flights[i]? = some ⟨origin, batch, .leaves hashes⟩ ∧
            s'.db.ledgers =
              Function.update s.db.ledgers T
                (recordBatch sha256 T (s.ledger T) batch hashes outcome anchoredAt reached)) := by
  have hAdvance :
      ∀ (i : Nat) (g : Option Flight), (∀ f ∈ g, f.ReadsFrom (s.ledger T)) →
        ∀ f ∈ (s.advance i g).flights, f ∈ s.flights ∨ f.ReadsFrom (s.ledger T) := by
    intro i g hG f hF
    cases g with
    | none => exact .inl (mem_of_mem_eraseIdx hF)
    | some g => exact (mem_or_eq_of_mem_set hF).imp_right (fun hNew => hG f (by rw [hNew]; rfl))
  cases event with
  | append items eventIds eventTime =>
    cases hStep
    exact .inl ⟨items, eventIds, eventTime, rfl⟩
  | probe now =>
    cases hStep
    unfold stepProbe
    split
    · exact .inr ⟨fun f hF => .inl hF, .inl rfl⟩
    · refine .inr ⟨fun f hF => (mem_append.mp hF).imp_right ?_, .inl rfl⟩
      simp +contextual [Flight.ReadsFrom]
  | readWatermark i =>
    simp only [step] at hStep
    split at hStep <;> cases hStep
    exact .inr ⟨fun f hF => .inl hF, .inl rfl⟩
  | dispatch i =>
    simp only [step] at hStep
    split at hStep <;> cases hStep
    refine .inr ⟨fun f hF => (mem_append.mp hF).imp_right ?_, .inl rfl⟩
    simp +contextual [Flight.ReadsFrom]
  | claim i =>
    simp only [step] at hStep
    split at hStep
    · split at hStep <;> cases hStep
      · exact .inr ⟨hAdvance i none (by simp), .inl rfl⟩
      · exact .inr ⟨hAdvance i (some _) (by simp [Flight.ReadsFrom]), .inl rfl⟩
    · cases hStep
  | record i outcome anchoredAt reached =>
    simp only [step] at hStep
    split at hStep <;> cases hStep
    rename_i origin batch hashes hAt
    refine .inr ⟨hAdvance i _ (fun f hNew => ?_),
      .inr ⟨i, outcome, anchoredAt, reached, origin, batch, hashes, rfl, hAt, rfl⟩⟩
    cases origin <;> cases hNew
    simp [Flight.ReadsFrom]
  | finish i | abandon i =>
    simp only [step] at hStep
    split at hStep <;> cases hStep
    exact .inr ⟨hAdvance i none (by simp), .inl rfl⟩
  | bound i | readLeaves i | release i =>
    simp only [step] at hStep
    split at hStep <;> cases hStep
    refine .inr ⟨hAdvance i _ ?_, .inl rfl⟩
    simp +contextual [Flight.ReadsFrom]

variable (made : Hash → BatchAnchorOutcome → Prop) (sha256 T)

/- The record of a batch of rows, made from their root. -/
def Recorded (rows : List AuditLogRow) (a : AuditAnchorRecordRow) : Prop :=
  ∃ batch hashes outcome anchoredAt,
    LeavesOf rows batch hashes ∧
      made (merkleRootV2 sha256 hashes) outcome ∧
      a = buildAnchorRecord T (merkleRootV2 sha256 hashes) batch outcome anchoredAt

/- What is recorded of a batch was made from its root. -/
def Honest (s : State) : Event → Prop
| .record i outcome _ _ =>
    ∀ f ∈ s.flights[i]?, ∀ hashes, f.stage = .leaves hashes →
      made (merkleRootV2 sha256 hashes) outcome
| _ => True

structure HonestInv (s : State) : Prop where
  sound : (s.ledger T).Sound sha256 T
  records : ∀ a ∈ (s.ledger T).anchors.rows, Recorded sha256 T made (s.ledger T).rows.rows a
  leaves :
    ∀ f ∈ s.flights, ∀ hashes, f.stage = .leaves hashes →
      LeavesOf (s.ledger T).rows.rows f.batch hashes

variable {made sha256 T} (hInv : HonestInv sha256 T made s)
include hInv

theorem HonestInv.stepAppend (items : List PendingLedgerRow) (eventIds : Option (List String))
    (eventTime : Int) :
    HonestInv sha256 T made (stepAppend sha256 T anchorEvery s items eventIds eventTime) := by
  unfold Anchoring.stepAppend
  split
  · rename_i done db hAppend
    rcases (appendPgBatch_eq_ok sha256 hAppend).2 with
      ⟨hNone, _⟩ | ⟨done', ledger', hDone, hCommitted, _, rfl⟩
    · cases hNone
    · rcases hCommitted.sound sha256 hInv.sound with ⟨hSound, _, hRows⟩
      rcases hCommitted.commits with ⟨_, _, hLedger⟩
      refine ⟨?_, ?_, ?_⟩ <;> simp only [State.ledger, Function.update_self]
      · exact hSound
      · intro a hA
        rw [hLedger] at hA
        rcases hInv.records a hA with ⟨batch, hashes, outcome, time, hLeaves, hMade⟩
        rw [hRows]
        exact ⟨batch, hashes, outcome, time, hLeaves.append _, hMade⟩
      · intro f hF hashes hStage
        rw [hRows]
        exact (hInv.leaves f hF hashes hStage).append _
  · rename_i db hAppend
    rcases (appendPgBatch_eq_ok sha256 hAppend).2 with ⟨_, rfl, _⟩ | ⟨_, _, hDone, _⟩
    · exact hInv
    · cases hDone
  · exact hInv

theorem HonestInv.step {event : Event} (hHonest : Honest sha256 made s event)
    (hStep : step sha256 T anchorEvery maxAgeSecs s event = some s') :
    HonestInv sha256 T made s' := by
  rcases step_cases hStep with ⟨items, eventIds, eventTime, rfl⟩ | ⟨hFlights, hDb⟩
  · exact hInv.stepAppend items eventIds eventTime
  · have hCarry :
        ∀ anchors, s'.ledger T = { s.ledger T with anchors := anchors } →
          (∀ a ∈ anchors.rows,
            a ∈ (s.ledger T).anchors.rows ∨ Recorded sha256 T made (s.ledger T).rows.rows a) →
          HonestInv sha256 T made s' := by
      intro anchors hLedger hRecords
      refine ⟨?_, ?_, ?_⟩ <;> rw [hLedger]
      · exact hInv.sound
      · exact fun a hA => (hRecords a hA).elim (hInv.records a) id
      · intro f hF hashes hStage
        exact (hFlights f hF).elim (fun hOld => hInv.leaves f hOld hashes hStage)
          (fun hRead => anchorLeaves_eq_some hInv.sound (hRead hashes hStage))
    rcases hDb with
      hDb | ⟨i, outcome, anchoredAt, reached, origin, batch, hashes, rfl, hAt, hDb⟩
    · exact hCarry _ (by rw [State.ledger, hDb]; rfl) (fun a hA => .inl hA)
    · have hLedger := congrFun hDb T
      rw [Function.update_self, recordBatch] at hLedger
      split at hLedger
      · split at hLedger
        · rename_i ledger' hInsert
          refine hCarry _ (hLedger.trans (insertAnchorRecord_eq_ok hInsert)) (fun a hA => ?_)
          refine (KeyTable.mem_insert_iff.mp hA).imp_right (fun hNew => ?_)
          exact ⟨batch, hashes, outcome, anchoredAt,
            hInv.leaves _ (mem_of_getElem? hAt) hashes rfl, hHonest _ hAt hashes rfl, hNew.1⟩
        · exact hCarry _ hLedger (fun a hA => .inl hA)
      · exact hCarry _ hLedger (fun a hA => .inl hA)

omit hInv in
theorem honestInv_empty : HonestInv sha256 T made {} :=
  ⟨Ledger.sound_empty _ _, by simp [State.ledger], by simp⟩

end Anchoring

open Anchoring

--
-- Signing
--

/- A signing key, as the `ring` crate holds it. -/
structure Ed25519Keypair where
  publicKeyBytes : Hash
  sign : Bytes → ByteArr 64

def domainAttest : Bytes :=
  utf8 "tracelane-audit-ed25519-v1\x00"

def anchorCommitment (sha256 : Bytes → Hash) : Option (Bytes × String × Nat) → Bytes
| none => [0x00]
| some (ecdsaSpki, logUrl, logIndex) =>
    0x01 :: (sha256 ecdsaSpki).bytes ++ (sha256 (utf8 logUrl)).bytes ++ u64Be logIndex

def localAttestMsg (root : Hash) (commitment : Bytes) : Bytes :=
  domainAttest ++ root.bytes ++ commitment

/- The log's receipt, its index as a number, and the anchor key. -/
abbrev Submission := RekorV2Receipt × Nat × Bytes

/- What is signed of a batch. -/
def batchMsg (sha256 : Bytes → Hash) (anchored : Option Submission) (root : Hash) : Bytes :=
  let commitment := anchorCommitment sha256 (anchored.map (fun a => (a.2.2, a.1.logUrl, a.2.1)))
  localAttestMsg root commitment

/- `anchor_batch`, given the keys it finds and what submitting the root came to. -/
def anchorBatch (sha256 : Bytes → Hash) (b64 : Bytes → String)
    (edKeypair globalKey : Option Ed25519Keypair) (anchored : Option Submission) (root : Hash) :
    BatchAnchorOutcome :=
  let msg := batchMsg sha256 anchored root
  let signer := edKeypair.or globalKey
  { ed25519SigB64 := (signer.map (fun kp => b64 (kp.sign msg).bytes)).getD ""
    ed25519PubkeyB64 := (signer.map (fun kp => b64 kp.publicKeyBytes.bytes)).getD ""
    anchored := anchored.isSome
    receipt := anchored.map (·.1)
    ecdsaSpkiB64 := (anchored.map (fun a => b64 a.2.2)).getD "" }

variable (C : Crypto) (S : Serde) (b64 : Bytes → String) (kp : Ed25519Keypair)

/- A receipt as it is exported. -/
def RekorV2Receipt.export (r : RekorV2Receipt) : RekorExport where
  logUrl := r.logUrl
  logIndex := r.logIndex
  canonicalizedBody := r.canonicalizedBodyB64
  inclusionProof :=
    match S.fromStr r.inclusionProof with
    | .ok v => v
    | .error _ => .null
  checkpoint := ⟨r.checkpointEnvelope⟩

/- The log holds the entry of the root under the anchor key. -/
def inLog (root : Hash) (a : Submission) : Bool :=
  match (a.1.export S).read with
  | .error _ => false
  | .ok block =>
      match extractAnchorEntry C S root block with
      | .error _ => false
      | .ok entry =>
          !a.1.logIndex.isEmpty && entry.spki = a.2.2 && entry.logIndex = a.2.1 &&
            C.ecdsaP256Verify entry.point entry.digest entry.sig && (verifyInclusion C block).isOk

/- The key's signature of a message verifies, and base64 reads it back. -/
structure Ed25519Keypair.Signs (msg : Bytes) : Prop where
  signature : base64Arr 64 (b64 (kp.sign msg).bytes) = some (kp.sign msg)
  verifies : C.verifyEd25519Raw kp.publicKeyBytes msg (kp.sign msg) = .ok ()

/- The workspace key signs; the log, if asked, answers truly. -/
def Made (root : Hash) (outcome : BatchAnchorOutcome) : Prop :=
  ∃ globalKey anchored,
    outcome = anchorBatch C.sha256 b64 (some kp) globalKey anchored root ∧
      kp.Signs C b64 (batchMsg C.sha256 anchored root) ∧
      ∀ a ∈ anchored, inLog C S root a

--
-- Layers
--

variable {C S b64 kp} {opts : VerifyOptions} {T : TenantId} (iso : Int → String)
  {rows : List AuditLogRow} {last : Hash}
  (hRun : Run (Links C.sha256 T) (0, genesisPrevHash C.sha256 T) rows (rows.length, last))

abbrev exportRows (rows : List AuditLogRow) : List AuditRow :=
  rows.map (exportRow iso)

theorem inLog_iff {root : Hash} {a : Submission} :
    inLog C S root a = true ↔
      ∃ block entry,
        (a.1.export S).read = .ok block ∧
          extractAnchorEntry C S root block = .ok entry ∧
          a.1.logIndex.isEmpty = false ∧
          entry.spki = a.2.2 ∧
          entry.logIndex = a.2.1 ∧
          C.ecdsaP256Verify entry.point entry.digest entry.sig = true ∧
          verifyInclusion C block = .ok () := by
  unfold inLog
  cases (a.1.export S).read with
  | error e => simp
  | ok block =>
    cases hEntry : extractAnchorEntry C S root block with
    | error e => simp [hEntry]
    | ok entry =>
      cases hInclusion : verifyInclusion C block with
      | error e => simp [hEntry, hInclusion, Except.isOk, Except.toBool]
      | ok u => simp [hEntry, hInclusion, Except.isOk, Except.toBool, and_assoc]

section Anchor

include hRun

/- The table has the hash of every row of the ledger. -/
theorem rowHashByKey_export {seq : Nat} {row : AuditLogRow} (hAt : rows[seq]? = some row)
    {h : Hash} (hHash : hexDecode row.rowHash = .ok h) :
    (rowHashByKey (exportRows iso rows))[rowKey (tenantText T) seq]? = some h := by
  have hOwn :
      rows.filter (fun r =>
          rowKey (exportRow iso r).tenantId (exportRow iso r).seq =
            rowKey (tenantText T) seq) = rows.filter (· = row) := by
    refine filter_congr (fun r hR => decide_eq_decide.mpr ?_)
    rcases getElem?_of_mem hR with ⟨i, hI⟩
    have hSeq := seq_of_getElem? hRun hI
    simp only [exportRow, run_links_tenant C hRun r hR, rowKey_inj, true_and, hSeq]
    constructor
    · rintro rfl
      exact Option.some.inj (hI.symm.trans hAt)
    · rintro rfl
      rw [← hSeq, seq_of_getElem? hRun hAt]
  have hOnce : rows.filter (· = row) = [row] := by
    have hNodup : rows.Nodup :=
      (run_links_sorted C.sha256 hRun).imp (fun hLt hEq => hLt.ne (congrArg AuditLogRow.seq hEq))
    rw [filter_eq row, count_eq_one_of_mem hNodup (mem_of_getElem? hAt), replicate_one]
  rw [rowHashByKey, KeyedFold.getElem?_table, filter_map]
  unfold Function.comp
  rw [hOwn.trans hOnce]
  simp [recordRowHash, exportRow, (hexDecode32_eq_ok_iff _ _).mpr hHash]

theorem batchRoot_export {batch : Batch} {hashes : List Hash}
    (hLeaves : LeavesOf rows batch hashes) {a : AnchorRecord}
    (hTenant : a.tenantId = tenantText T) (hStart : a.batchStartSeq = batch.startSeq)
    (hEnd : a.batchEndSeq = batch.endSeq)
    (hRoot : a.merkleRoot = hexEncode (merkleRootV2 C.sha256 hashes).bytes)
    (hStripped : a.stripped = false) :
    batchRoot C (rowHashByKey (exportRows iso rows)) a =
      .ok (merkleRootV2 C.sha256 hashes) := by
  have hFound : batchLeaves (rowHashByKey (exportRows iso rows)) a = some hashes := by
    unfold batchLeaves AnchorRecord.seqs
    rw [hTenant, hStart, hEnd]
    refine Option.mapM_of_forall₂ (hLeaves.imp (fun seq h hRow => ?_))
    rcases hRow with ⟨row, hAt, hHash⟩
    exact rowHashByKey_export iso hRun hAt hHash
  have hDecode :=
    (hexDecode32_eq_ok_iff _ _).mpr (hexDecode_hexEncode (merkleRootV2 C.sha256 hashes))
  simp only [batchRoot, hStripped, hFound, hRoot, hDecode, Bool.false_eq_true, if_false]
  rw [if_pos (merkleRootV2_eq_verifier C hashes).symm]

omit hRun in
/- The attestation of the workspace key over root and entry. -/
theorem attest_genuine (hB64 : base64Arr 32 (b64 kp.publicKeyBytes.bytes) = some kp.publicKeyBytes)
    {root : Hash} {a : AnchorRecord} {msg : Bytes} (hSigns : kp.Signs C b64 msg)
    (entry : Option AnchorEntry) (hPubkey : a.ed25519.pubkey = b64 kp.publicKeyBytes.bytes)
    (hSignature : a.ed25519.signature = b64 (kp.sign msg).bytes)
    (hEntry : anchoredEntry C S root a = .ok entry)
    (hMsg : attestMsg C root a entry = msg) :
    attest C S opts kp.publicKeyBytes root a = .ok (.workspace, entry) := by
  subst hMsg
  rw [attest_eq_ok_iff]
  refine ⟨kp.publicKeyBytes, _, ?_, rfl, hEntry, ?_, hSigns.verifies⟩
  · rw [hPubkey, hB64]
  · rw [hSignature, hSigns.signature]

/- What a turn over a genuine record writes. -/
def genuineTurn (a : AnchorRecord) : AnchorOutcome where
  signer := some .workspace
  rekorSeen := a.committed
  rekorResolved := a.committed
  included := a.committed

/- A record made with the workspace key is read back, and the verifier has nothing against it. -/
theorem Recorded.verifies
    (hB64 : base64Arr 32 (b64 kp.publicKeyBytes.bytes) = some kp.publicKeyBytes)
    (hKey : opts.tenantPubkey = some kp.publicKeyBytes) {record : AuditAnchorRecordRow}
    (hRecord : Recorded C.sha256 T (Made C S b64 kp) rows record) :
    ∃ a, (anchorRecord S record).read = .ok a ∧
      verifyAnchor C S opts (rowHashByKey (exportRows iso rows)) a = genuineTurn a := by
  rcases hRecord with
    ⟨batch, hashes, outcome, anchoredAt, hLeaves, ⟨globalKey, anchored, rfl, hSigns, hLogged⟩,
      rfl⟩
  have hRoot := fun a => batchRoot_export (a := a) iso hRun hLeaves
  generalize merkleRootV2 C.sha256 hashes = root at *
  cases anchored with
  | none =>
    refine ⟨_, Except.map_eq_ok_iff.mpr ⟨none, ?_, rfl⟩, ?_⟩
    · simp [anchorRecord, buildAnchorRecord, anchorBatch, readRekor]
    · unfold verifyAnchor
      rw [hRoot _ rfl rfl rfl rfl rfl]
      simp only [hKey]
      rw [attest_genuine hB64 hSigns none rfl rfl rfl rfl]
      rfl
  | some a =>
    rcases a with ⟨receipt, logIndex, spki⟩
    rcases inLog_iff.mp (hLogged _ rfl) with
      ⟨block, entry, hRead, hEntry, hIndex, rfl, rfl, hEcdsa, hInclusion⟩
    refine ⟨_, Except.map_eq_ok_iff.mpr ⟨some block, ?_, rfl⟩, ?_⟩
    · simp only [anchorRecord, buildAnchorRecord, anchorBatch, Option.map_some, Option.getD_some,
        hIndex]
      exact Except.map_eq_ok_iff.mpr ⟨block, hRead, rfl⟩
    · unfold verifyAnchor
      rw [hRoot _ rfl rfl rfl rfl rfl]
      simp only [hKey]
      rw [attest_genuine hB64 hSigns (some entry) rfl rfl]
      · simp only [publicLayers, hEcdsa, hInclusion, if_true]
        rfl
      · exact congrArg (Except.map some) hEntry
      · rcases Except.map_eq_ok_iff.mp hRead with ⟨proof, _, rfl⟩
        rfl

end Anchor

--
-- Ledgers
--

include hRun in
/- Whatever the anchors root, a chain from genesis replays from there. -/
theorem replay_starts (opts : VerifyOptions) (hFits : rows.length ≤ i64Size)
    (starts : Std.TreeMap String Nat) :
    (replay C S opts (startByTenant starts (exportRows iso rows))
        (exportRows iso rows)).all isEmpty = true ∧
      ∀ entry ∈ (minSeqByTenant (exportRows iso rows)).toList,
        selectStart starts entry.1 entry.2 = some 0 := by
  refine ⟨?_, ?_⟩
  · have hClean := replay_export C S iso hRun hFits opts
    rw [replay_clean_iff] at hClean ⊢
    intro tenant
    have hStart := hClean tenant
    rw [startOf_startByTenant, minSeq_export C iso hRun] at hStart ⊢
    split_ifs at hStart ⊢ <;> exact hStart
  · intro entry hEntry
    have hZero := selectStart_export C iso hRun entry hEntry
    unfold selectStart at hZero ⊢
    split_ifs at hZero ⊢ with hMin
    · rfl
    · simp at hZero

/- No batch of such turns is the platform's. -/
theorem platformRanges_genuine (anchors : List AnchorRecord) :
    platformRanges opts (anchors.map (fun a => (a, genuineTurn a))) = [] := by
  unfold platformRanges
  rw [flatMap_eq_nil_iff]
  intro entry hEntry
  rw [Std.TreeMap.mem_toList_iff_getElem?_eq_some, getElem?_signersByTenant] at hEntry
  split at hEntry
  · cases hEntry
  · rw [← Option.some.inj hEntry, map_eq_nil_iff, platformSigned, map_eq_nil_iff,
      filter_eq_nil_iff]
    intro turn hTurn
    rcases mem_map.mp (mem_of_mem_filter hTurn) with ⟨a, _, rfl⟩
    simp [signedBy, genuineTurn]

/-
  Nothing is held against the rows and the records but rows
  that no batch covers below one that is recorded.
-/
structure Genuine (anchors : List AnchorRecord) (report : VerifyReport) : Prop where
  hashChainValid : report.hashChainValid = true
  trustEstablished : report.trustEstablished = true
  signaturesValid : report.signaturesValid = true
  stripDetected : report.stripDetected = false
  anchorsUnverified : report.anchorsUnverified = 0
  anchorsIncluded : report.anchorsIncluded = anchors.countP AnchorRecord.committed
  errors : ∀ e ∈ report.errors, e.kind = "anchor_coverage_gap"

include hRun in
theorem verifyRecords_genuine (hFits : rows.length ≤ i64Size) {anchors : List AnchorRecord}
    (hTurns :
      anchorTurns C S opts (exportRows iso rows) anchors =
        anchors.map (fun a => (a, genuineTurn a)))
    (ledgerLabel : String) :
    Genuine anchors
      (verifyRecords C S opts ⟨.emptyLabeled ledgerLabel, exportRows iso rows, anchors⟩) := by
  rcases verifyRecords_report C S opts
    ⟨.emptyLabeled ledgerLabel, exportRows iso rows, anchors⟩ with ⟨_, hReport⟩
  simp only [hTurns, platformRanges_genuine] at hReport
  generalize includedStarts (anchors.map (fun a => (a, genuineTurn a))) = starts at hReport
  rcases replay_starts (S := S) iso hRun opts hFits starts with ⟨hReplay, hSelect⟩
  have hErrors :
      (anchors.map (fun a => (a, genuineTurn a))).flatMap (fun turn => turn.2.error.toList) =
        [] := by
    simp [flatMap_eq_nil_iff, genuineTurn]
  have hUnrooted : unrootedErrors starts (minSeqByTenant (exportRows iso rows)).toList = [] := by
    unfold unrootedErrors
    rw [map_eq_nil_iff, filter_eq_nil_iff]
    intro entry hEntry
    simp [hSelect entry hEntry]
  have hFlat := flatten_eq_nil_iff.mpr (fun l hL =>
    List.isEmpty_iff.mp (all_eq_true.mp hReplay l hL))
  rw [hReport]
  refine ⟨hReplay, ?_, ?_, ?_, ?_, ?_, ?_⟩ <;> simp only [VerifyReport.emptyLabeled]
  · rw [Bool.true_and, all_eq_true]
    intro entry hEntry
    rw [hSelect entry hEntry]
    rfl
  · simp [genuineTurn]
  · simp [genuineTurn]
  · simp [genuineTurn]
  · simp [genuineTurn, countP_map, Function.comp_def]
  · simp only [hErrors, hUnrooted, hFlat, platformErrors, filter_nil, map_nil, append_nil,
      nil_append, mem_flatMap, mem_map]
    rintro e ⟨entry, _, gap, _, rfl⟩
    rfl

/-
  Whatever the interleaving of appends, threshold loops, sweeps, and tasks, the ledger they leave
  verifies under the workspace key.
-/
theorem run_verifies {anchorEvery maxAgeSecs : Nat} {events : List Event}
    {s : State} (hB64 : base64Arr 32 (b64 kp.publicKeyBytes.bytes) = some kp.publicKeyBytes)
    (hKey : opts.tenantPubkey = some kp.publicKeyBytes)
    (hRun :
      Run
        (fun s event s' =>
          Honest C.sha256 (Made C S b64 kp) s event ∧
            step C.sha256 T anchorEvery maxAgeSecs s event = some s')
        {} events s)
    (ledgerLabel : String) :
    ∃ anchors,
      Forall₂ (fun record a => (anchorRecord S record).read = .ok a)
          (s.ledger T).anchors.rows anchors ∧
        Genuine anchors
          (verifyRecords C S opts
            ⟨.emptyLabeled ledgerLabel, exportRows iso (s.ledger T).rows.rows,
              anchors⟩) := by
  have hInv : HonestInv C.sha256 T (Made C S b64 kp) s :=
    hRun.invariant (fun _ _ _ hInv hStep => hInv.step hStep.1 hStep.2) honestInv_empty
  rcases hInv.sound with ⟨last, hLinks, hFits, _⟩
  have hRead :
      ∃ anchors,
        Forall₂ (fun record a => (anchorRecord S record).read = .ok a)
            (s.ledger T).anchors.rows anchors ∧
          anchorTurns C S opts (exportRows iso (s.ledger T).rows.rows) anchors =
            anchors.map (fun a => (a, genuineTurn a)) := by
    have hAll := fun record hMem =>
      Recorded.verifies iso hLinks hB64 hKey (hInv.records record hMem)
    generalize (s.ledger T).anchors.rows = records at hAll
    induction records with
    | nil => exact ⟨[], .nil, rfl⟩
    | cons record records ih =>
      rw [forall_mem_cons] at hAll
      rcases hAll.1 with ⟨a, hA, hTurn⟩
      rcases ih hAll.2 with ⟨anchors, hRead, hTurns⟩
      exact ⟨a :: anchors, .cons hA hRead, congrArg₂ cons (congrArg (Prod.mk a) hTurn) hTurns⟩
  rcases hRead with ⟨anchors, hRead, hTurns⟩
  exact ⟨anchors, hRead, verifyRecords_genuine iso hLinks hFits hTurns ledgerLabel⟩

/- The workspace of the anchored ledger. -/
def ledgerTenant : TenantId :=
  ⟨replicate 15 0 ++ [0xa1], rfl⟩

def ledgerEvents : List PendingLedgerRow :=
  (fileRows jsonSerde (anchoredLedger.lines.take 4)).filterMap (fun row =>
    match row.payload with
    | .string payload => some ⟨row.eventType, row.actor, payload⟩
    | _ => none)

def ledgerDigest : Hash :=
  (hexDecode32 ledgerRoot).toOption.getD (.zero 32)

/- What the log answered to the ledger's root. -/
def ledgerSubmission : Submission where
  fst :=
    { logUrl := "https://log2025-1.rekor.sigstore.dev"
      logIndex := "18812240"
      canonicalizedBodyB64 := joined bodyPieces
      inclusionProof := joined proofPieces
      checkpointEnvelope := joined (envelopePieces "\n" "—") }
  snd :=
    (18812240, (base64Decode
      ("MFkwEwYHKoZIzj0CAQYIKoZIzj0DAQcDQgAE" ++ "FIfbQX9AlH6g6vE0ynz+A0fGg3JXKJeGB0nxujmaCh3x" ++
        "NemYQcxlYM26KfltXW1XcFo5P9xkUwnFUSILFbWhUw==")).toOption.getD [])

def ledgerKeypair : Ed25519Keypair where
  publicKeyBytes := ledgerKey
  sign msg :=
    ((ledgerSignatures.find? (fun t => base64Decode t.2.1 = .ok msg)).bind
      (fun t => base64Arr 64 t.2.2)).getD (.zero 64)

def ledgerB64 (bytes : Bytes) : String :=
  ((ledgerSignatures.flatMap (fun t => [t.1, t.2.2])).find?
    (fun t => base64Decode t = .ok bytes)).getD ""

def ledgerOutcome : BatchAnchorOutcome :=
  anchorBatch ledgerCrypto.sha256 ledgerB64 (some ledgerKeypair) none (some ledgerSubmission)
    ledgerDigest

/- The rows are appended, and their batch is signed and in the log. -/
def signedRun : List Event :=
  [.append ledgerEvents none 0, .readWatermark 0, .dispatch 0, .readLeaves 0,
    .record 0 ledgerOutcome 1 true]

/- The leaves a record is made of have the root of the ledger. -/
def overRoot (s : State) : Event → Bool
| .record i _ _ _ =>
    s.flights[i]?.all (fun f =>
      match f.stage with
      | .leaves hashes => merkleRootV2 ledgerCrypto.sha256 hashes = ledgerDigest
      | _ => true)
| _ => true

theorem signedRun_ends :
    ∃ s,
      Run
          (fun s event s' =>
            overRoot s event ∧ step ledgerCrypto.sha256 ledgerTenant 4 86400 s event = some s')
          {} signedRun s ∧
        (s.ledger ledgerTenant).rows.rows.map AuditLogRow.rowHash = [1, 2, 3, 4].map ledgerHash ∧
        (s.ledger ledgerTenant).anchors.rows.map (fun record =>
            (record.batchStartSeq, record.batchEndSeq,
              (anchorRecord jsonSerde record).read.toOption.map AnchorRecord.committed)) =
          [(0, 3, some true)] :=
  Run.eval_guard (by decide +kernel)

theorem ledgerOutcome_made :
    Made ledgerCrypto jsonSerde ledgerB64 ledgerKeypair ledgerDigest ledgerOutcome := by
  refine ⟨none, some ledgerSubmission, rfl, ⟨?_, ?_⟩, ?_⟩
  · decide +kernel
  · decide +kernel
  · rintro a ⟨⟩
    decide +kernel

/- The record of the ledger's rows passes every layer, its inclusion in the log among them. -/
theorem signedRun_verifies :
    ∃ s : State,
      (s.ledger ledgerTenant).rows.rows.map AuditLogRow.rowHash = [1, 2, 3, 4].map ledgerHash ∧
        ∃ anchors,
          anchors.map AnchorRecord.committed = [true] ∧
            Genuine anchors
              (verifyRecords ledgerCrypto jsonSerde ledgerOptions
                ⟨.emptyLabeled "", exportRows (fun _ => "") (s.ledger ledgerTenant).rows.rows,
                  anchors⟩) := by
  rcases signedRun_ends with ⟨s, hRun, hRows, hRecords⟩
  have hHonest :
      ∀ s, ∀ event ∈ signedRun, overRoot s event →
        Honest ledgerCrypto.sha256 (Made ledgerCrypto jsonSerde ledgerB64 ledgerKeypair) s
          event := by
    intro s
    simp only [signedRun, forall_mem_cons, not_mem_nil]
    refine ⟨fun _ => trivial, fun _ => trivial, fun _ => trivial, fun _ => trivial, ?_, by simp⟩
    intro hRoot f hAt hashes hStage
    have hSame : merkleRootV2 ledgerCrypto.sha256 hashes = ledgerDigest := by
      simpa [overRoot, Option.mem_def.mp hAt, hStage] using hRoot
    rw [hSame]
    exact ledgerOutcome_made
  have hSigned :=
    hRun.mono (fun s _ event hMem hStep => And.intro (hHonest s event hMem hStep.1) hStep.2)
  have hKey : ledgerOptions.tenantPubkey = some ledgerKeypair.publicKeyBytes := rfl
  rcases run_verifies (fun _ => "") (by decide +kernel) hKey hSigned "" with
    ⟨anchors, hRead, hGenuine⟩
  refine ⟨s, hRows, anchors, ?_, hGenuine⟩
  generalize (s.ledger ledgerTenant).anchors.rows = records at hRead hRecords
  cases hRead with
  | nil => cases hRecords
  | cons hA hRest =>
    cases hRest with
    | nil =>
      simp [hA, Except.toOption] at hRecords
      simpa using hRecords.2.2
    | cons => simp at hRecords

--
-- Ports
--

include hRun in
theorem port_accepts {P : Port} {plain sound : String → Bool} (hReads : Reads P plain sound)
    (opts : VerifyOptions) (hFits : rows.length ≤ i64Size) (starts : Std.TreeMap String Nat)
    (ledgerLabel : String) :
    let report := P.verifyChain C opts (exportRows iso rows) starts (.emptyLabeled ledgerLabel)
    report.hashChainValid = true ∧ report.trustEstablished = true := by
  rcases replay_starts (S := jsonSerde) iso hRun opts hFits starts with ⟨hReplay, hSelect⟩
  rcases P.verifyChain_report C jsonSerde opts (exportRows iso rows) starts
    (.emptyLabeled ledgerLabel) with ⟨hTrust, _, hValid⟩
  refine ⟨?_, ?_⟩
  · rw [replay_clean_iff] at hReplay
    rw [hValid, VerifyReport.emptyLabeled, Bool.true_and, Port.replay_clean_iff]
    intro tenant
    rw [Port.get?_startByTenant]
    refine ((chainFrom_iff hReads ?_ ?_ ?_).mp (hReplay tenant)).1
    · exact fun row hRow => of_decide_eq_true (mem_filter.mp hRow).2
    · intro row hRow
      rcases mem_map.mp (mem_of_mem_filter hRow) with ⟨r, _, rfl⟩
      rfl
    · left
      have hLen := length_filter_le (fun row => row.tenantId = tenant) (exportRows iso rows)
      rw [length_map] at hLen
      exact Nat.lt_of_le_of_lt (hLen.trans hFits) (by decide)
  · rw [hTrust, verifyChain_report]
    simp only [VerifyReport.emptyLabeled, Bool.true_and, all_eq_true]
    intro entry hEntry
    rw [hSelect entry hEntry]
    rfl

/-
  The Python and the TypeScript verifier accept the chain of every ledger that is written, as far as
  the numbers of JavaScript are exact.
-/
theorem run_ports_accept (L : PyLib) (M : TsLib) {anchorEvery maxAgeSecs : Nat}
    {events : List Event} {s : State}
    (hRun :
      Run (fun s event s' => step C.sha256 T anchorEvery maxAgeSecs s event = some s')
        {} events s)
    (hLen : (s.ledger T).rows.rows.length < 2 ^ 53) (starts : Std.TreeMap String Nat)
    (ledgerLabel : String) :
    ∀ P ∈ [python L, typescript M],
      let report :=
        P.verifyChain C opts (exportRows iso (s.ledger T).rows.rows) starts
          (.emptyLabeled ledgerLabel)
      report.hashChainValid = true ∧ report.trustEstablished = true := by
  have hInv : HonestInv C.sha256 T (fun _ _ => True) s :=
    hRun.invariant
      (fun _ event _ hInv hStep => hInv.step (by unfold Honest; split <;> simp) hStep)
      honestInv_empty
  rcases hInv.sound with ⟨last, hLinks, _⟩
  have hFits : (s.ledger T).rows.rows.length ≤ i64Size := hLen.le.trans (by decide)
  rw [forall_mem_cons, forall_mem_singleton]
  exact ⟨port_accepts iso hLinks (python_reads L) opts hFits starts ledgerLabel,
    port_accepts iso hLinks (typescript_reads M) opts hFits starts ledgerLabel⟩

theorem signedRun_ports_accept :
    ∃ s : State,
      (s.ledger ledgerTenant).rows.rows.map AuditLogRow.rowHash = [1, 2, 3, 4].map ledgerHash ∧
        ∀ P ∈ [python samplePyLib, typescript sampleTsLib],
          (P.verifyChain ledgerCrypto {}
            (exportRows (fun _ => "") (s.ledger ledgerTenant).rows.rows) ∅
            (.emptyLabeled "")).hashChainValid = true := by
  rcases signedRun_ends with ⟨s, hRun, hRows, _⟩
  have hSteps := hRun.mono (fun _ _ _ _ hStep => hStep.2)
  have hLen := congrArg length hRows
  rw [length_map] at hLen
  refine ⟨s, hRows, fun P hP => ?_⟩
  exact (run_ports_accept (C := ledgerCrypto) (fun _ => "") samplePyLib sampleTsLib hSteps
    (by rw [hLen]; decide) ∅ "" P hP).1

end Tracelane.Gateway
