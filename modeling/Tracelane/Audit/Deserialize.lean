import Tracelane.Json.Parse
import Tracelane.Audit.Types
import Tracelane.Audit.Rekor

/- The deserializers `serde` derives for the verifier's records, over the executable JSON reader. -/

namespace Tracelane.Verifier

--
-- Fields
--

def field (v : Value) (key : String) : Except String Value :=
  match v.get key with
  | some x => .ok x
  | none => .error ("missing field `" ++ key ++ "`")

def textField (v : Value) (key : String) : Except String Text :=
  match field v key with
  | .ok (.string t) => .ok t
  | .ok _ => .error ("invalid type for `" ++ key ++ "`")
  | .error e => .error e

def strField (v : Value) (key : String) :
    Except String String :=
  (textField v key).map Text.str

/- A `u64` field. -/
def u64Field (v : Value) (key : String) :
    Except String { n : Nat // n < u64Size } :=
  match field v key with
  | .ok (.number token) =>
      match parseU64 (chars token) with
      | some n =>
          if h : n < u64Size then .ok ⟨n, h⟩
          else .error ("invalid value for `" ++ key ++ "`")
      | none => .error ("invalid value for `" ++ key ++ "`")
  | .ok _ => .error ("invalid type for `" ++ key ++ "`")
  | .error e => .error e

/- A field with `#[serde(default)]` of an optional text. -/
def optStrField (v : Value) (key : String) :
    Except String (Option String) :=
  match v.get key with
  | none => .ok none
  | some .null => .ok none
  | some (.string t) => .ok (some t.str)
  | some _ => .error ("invalid type for `" ++ key ++ "`")

/- A list of texts. -/
def strItems : List Value → Except String (List String)
| [] => .ok []
| .string t :: rest => (strItems rest).map (t.str :: ·)
| _ :: _ => .error "invalid type: expected a string"

--
-- Records
--

def deserializeRow (v : Value) : Except String AuditRow := do
  let format ← optStrField v "format"
  let tenantId ← strField v "tenant_id"
  let seq ← u64Field v "seq"
  let eventTime ← strField v "event_time"
  let eventType ← textField v "event_type"
  let actor ← textField v "actor"
  let payload ← field v "payload"
  let prevHash ← strField v "prev_hash"
  let rowHash ← strField v "row_hash"
  let rekorEntryId ← optStrField v "rekor_entry_id"
  .ok
    { format, tenantId, seq := seq.val, eventTime, eventType,
      actor, payload, prevHash, rowHash, rekorEntryId,
      seq_lt := seq.property }

def deserializeProof (v : Value) : Except String InclusionProof := do
  let logIndex ← strField v "log_index"
  let treeSize ← strField v "tree_size"
  let hashes ←
    match field v "hashes" with
    | .ok (.array items) => strItems items
    | .ok _ => .error "invalid type for `hashes`"
    | .error e => .error e
  .ok ⟨logIndex, treeSize, hashes⟩

def deserializeRekor (v : Value) : Except String RekorBlock := do
  let logUrl ← strField v "log_url"
  let logIndex ← strField v "log_index"
  let canonicalizedBody ← strField v "canonicalized_body"
  let proof ← field v "inclusion_proof"
  let inclusionProof ← deserializeProof proof
  let checkpoint ← field v "checkpoint"
  let envelope ← strField checkpoint "envelope"
  .ok
    { logUrl, logIndex, canonicalizedBody, inclusionProof,
      checkpoint := ⟨envelope⟩ }

def deserializeAnchor (v : Value) : Except String AnchorRecord := do
  let tenantId ← strField v "tenant_id"
  let startSeq ← u64Field v "batch_start_seq"
  let endSeq ← u64Field v "batch_end_seq"
  let merkleRoot ← strField v "merkle_root"
  let anchorState ← strField v "anchor_state"
  let ed25519 ← field v "ed25519"
  let signature ← strField ed25519 "signature"
  let pubkey ← strField ed25519 "pubkey"
  let rekor ←
    match v.get "rekor" with
    | none => .ok none
    | some .null => .ok none
    | some block => (deserializeRekor block).map some
  .ok
    { tenantId, batchStartSeq := startSeq.val,
      batchEndSeq := endSeq.val, merkleRoot, anchorState,
      ed25519 := ⟨signature, pubkey⟩, rekor,
      start_lt := startSeq.property,
      end_lt := endSeq.property }

/- `serde_json` on the texts the reader accepts. -/
def jsonSerde : Serde where
  fromStr line :=
    match Json.parse (chars line) with
    | some v => .ok v
    | none => .error "not a JSON text"
  fromSlice bytes :=
    match Json.parse (bytes.map (fun b => Char.ofNat b.toNat)) with
    | some v => .ok v
    | none => .error "not a JSON text"
  auditRow := deserializeRow
  anchorRecord := deserializeAnchor
  toString := Value.canonical

end Tracelane.Verifier
