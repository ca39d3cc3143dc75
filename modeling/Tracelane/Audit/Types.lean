import Tracelane.Json.Value
import Tracelane.Lib.Sha256

/-
  The records the reference verifier reads and the report it returns, with the third-party functions
  it calls.

  `Crypto` stands for the SHA-256, Ed25519, and ECDSA crates and `Serde` for `serde_json` and the
  derived deserializers; nothing is assumed of either here.
-/

namespace Tracelane

abbrev Hash := ByteArr 32

/- The values of a Rust `u64`. -/
abbrev u64Size : Nat := 2 ^ 64

theorem u64Size_pos : 0 < u64Size := by
  decide

namespace Verifier

--
-- Format Versions
--

inductive FormatVersion where
| v2_1 : FormatVersion
| v2 : FormatVersion
| v1 : FormatVersion
deriving DecidableEq

/- v2 and v2.1 share framing, Merkle tree, and genesis. -/
def FormatVersion.isV2Family : FormatVersion → Bool
| .v2_1 => true
| .v2 => true
| .v1 => false

--
-- Ledger Records
--

/- One row line of a ledger. -/
structure AuditRow where
  format : Option String
  tenantId : String
  seq : Nat
  eventTime : String
  eventType : Text
  actor : Text
  payload : Value
  prevHash : String
  rowHash : String
  rekorEntryId : Option String
  seq_lt : seq < u64Size := by decide

/- The row's marker selects its format; an unmarked row takes the caller's default. -/
def resolveFormat (row : AuditRow) (default : FormatVersion) : FormatVersion :=
  match row.format with
  | some "v2.1" => .v2_1
  | some "v2" => .v2
  | some "v1" => .v1
  | _ => default

structure Ed25519Block where
  signature : String
  pubkey : String
deriving DecidableEq

structure InclusionProof where
  logIndex : String
  treeSize : String
  hashes : List String
deriving DecidableEq

structure Checkpoint where
  envelope : String
deriving DecidableEq

structure RekorBlock where
  logUrl : String
  logIndex : String
  canonicalizedBody : String
  inclusionProof : InclusionProof
  checkpoint : Checkpoint
deriving DecidableEq

/- One anchor line of a ledger: the bundle of one batch. -/
structure AnchorRecord where
  tenantId : String
  batchStartSeq : Nat
  batchEndSeq : Nat
  merkleRoot : String
  anchorState : String
  ed25519 : Ed25519Block
  rekor : Option RekorBlock
  start_lt : batchStartSeq < u64Size := by decide
  end_lt : batchEndSeq < u64Size := by decide

namespace AnchorRecord

/- The record claims to be publicly anchored. -/
def committed (a : AnchorRecord) : Bool :=
  a.anchorState = "anchored"

/- The batch `[start, end]` an error names. -/
def label (a : AnchorRecord) : String :=
  s!"batch {a.batchStartSeq}-{a.batchEndSeq}"

/- The seqs the batch covers, in order. -/
def seqs (a : AnchorRecord) : List Nat :=
  List.range' a.batchStartSeq (a.batchEndSeq + 1 - a.batchStartSeq)

theorem mem_seqs_iff (a : AnchorRecord) (seq : Nat) :
    seq ∈ a.seqs ↔ a.batchStartSeq ≤ seq ∧ seq ≤ a.batchEndSeq := by
  simp only [seqs, List.mem_range'_1]
  omega

end AnchorRecord

--
-- Options and Report
--

/-
  The options the verifier reads.  `offline`, `rekor_url`, `rekor_timeout`, and `pinned_pubkey` are
  stored by the source and read by nothing.
-/
structure VerifyOptions where
  formatVersion : FormatVersion := .v2
  tenantPubkey : Option Hash := none
  platformPubkeys : List Hash := []
  workspaceKeySinceSeq : Option Nat := none

structure VerifyError where
  seq : Option Nat
  kind : String
  detail : String
deriving DecidableEq

/- An inclusive batch range. -/
structure SeqRange where
  startSeq : Nat
  endSeq : Nat
deriving DecidableEq

structure VerifyReport where
  ledgerPath : String
  rowsSeen : Nat
  hashChainValid : Bool
  signaturesValid : Bool
  rekorAnchorsSeen : Nat
  rekorAnchorsResolved : Nat
  anchorsIncluded : Nat
  anchorsUnverified : Nat
  stripDetected : Bool
  verifiedFromSeq : Nat
  trustEstablished : Bool
  rowsUncoveredByAnchors : Nat
  rowsUnanchoredTail : Nat
  platformSignedBatches : Nat
  platformSignedRanges : List SeqRange
  errors : List VerifyError
deriving DecidableEq

namespace VerifyReport

def emptyLabeled (ledgerPath : String) : VerifyReport where
  ledgerPath := ledgerPath
  rowsSeen := 0
  hashChainValid := true
  signaturesValid := true
  rekorAnchorsSeen := 0
  rekorAnchorsResolved := 0
  anchorsIncluded := 0
  anchorsUnverified := 0
  stripDetected := false
  verifiedFromSeq := 0
  trustEstablished := true
  rowsUncoveredByAnchors := 0
  rowsUnanchoredTail := 0
  platformSignedBatches := 0
  platformSignedRanges := []
  errors := []

/- `report.errors.push`. -/
def push (report : VerifyReport) (e : VerifyError) : VerifyReport :=
  { report with errors := report.errors ++ [e] }

end VerifyReport

/- The cryptographic crates the verifier calls. -/
structure Crypto where
  /- `sha256`, over the `sha2` crate. -/
  sha256 : Bytes → Hash
  /- `verify_ed25519_raw`, over `ed25519_dalek`. -/
  verifyEd25519Raw : Hash → Bytes → ByteArr 64 → Except String Unit
  /- `ecdsa_p256_verify`, over `p256`. -/
  ecdsaP256Verify : Bytes → Hash → Bytes → Bool

/- SHA-256, with no signature valid. -/
def sha256Only : Crypto where
  sha256 := Sha256.digest
  verifyEd25519Raw _ _ _ := .error "Ed25519 verification failed"
  ecdsaP256Verify _ _ _ := false

/- `serde_json` and the deserializers it derives. -/
structure Serde where
  /- `serde_json::from_str::<Value>`. -/
  fromStr : String → Except String Value
  /- `serde_json::from_slice::<Value>`. -/
  fromSlice : Bytes → Except String Value
  /- `serde_json::from_value::<AuditRow>`. -/
  auditRow : Value → Except String AuditRow
  /- `serde_json::from_value::<AnchorRecord>`. -/
  anchorRecord : Value → Except String AnchorRecord
  /- `serde_json::to_string` of a value, empty on failure. -/
  toString : Value → String

end Verifier

end Tracelane
