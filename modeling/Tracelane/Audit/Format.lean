import Tracelane.Audit.Types

/-
  The verifier's hash formats: v2 and v1 row hashes, the v2 genesis seed, the RFC 6962 Merkle root
  of a batch, and the text decoders for hashes and tenant ids.
-/

namespace Tracelane.Verifier

variable (C : Crypto)

--
-- Row Hashes
--

def domainRowV2 : Bytes :=
  utf8 "tracelane-audit-row-v2\x00"

def domainGenesisV2 : Bytes :=
  utf8 "tracelane-audit-v2-genesis\x00"

/- `write_lp`. -/
def writeLp (buf bytes : Bytes) : Bytes :=
  buf ++ lengthPrefixed bytes

/- The buffer `row_hash_v2` hashes. -/
def rowBufV2 (prevHash : Hash) (tenantUuidBytes : ByteArr 16) (seq : Nat)
    (eventType actor canonicalPayloadJson : Bytes) : Bytes :=
  let buf := domainRowV2
  let buf := writeLp buf tenantUuidBytes.bytes
  let buf := buf ++ u64Be seq
  let buf := writeLp buf eventType
  let buf := writeLp buf actor
  let buf := writeLp buf canonicalPayloadJson
  writeLp buf prevHash.bytes

def rowHashV2 (prevHash : Hash) (tenantUuidBytes : ByteArr 16) (seq : Nat)
    (eventType actor canonicalPayloadJson : Bytes) : Hash :=
  C.sha256
    (rowBufV2 prevHash tenantUuidBytes seq eventType actor canonicalPayloadJson)

def genesisV2 (tenantUuidBytes : ByteArr 16) : Hash :=
  C.sha256 (domainGenesisV2 ++ tenantUuidBytes.bytes)

/- The text `row_hash_v1` hashes. -/
def rowInputV1 (prevHashHex tenantIdStr : String) (seq : Nat)
    (eventType actor payloadJson : String) : String :=
  s!"{tenantIdStr}|{seq}|{eventType}|{actor}|{payloadJson}|{prevHashHex}"

def rowHashV1 (prevHashHex tenantIdStr : String) (seq : Nat)
    (eventType actor payloadJson : String) : String :=
  hexEncode
    (C.sha256 (utf8 (rowInputV1 prevHashHex tenantIdStr seq eventType actor payloadJson))).bytes

def leafHash (leaf : Hash) : Hash :=
  C.sha256 (0x00 :: leaf.bytes)

def nodeHash (l r : Hash) : Hash :=
  C.sha256 (0x01 :: l.bytes ++ r.bytes)

/- Hash adjacent pairs; a lone last element is promoted. -/
def merkleLevel : List Hash → List Hash
| l :: r :: rest => nodeHash C l r :: merkleLevel rest
| level => level

/-
  Reduce levels while more than one hash is left.  Each level is shorter than the one below, so the
  leaf count bounds the number of turns.
-/
def merkleLoop : Nat → List Hash → List Hash
| 0, level => level
| fuel + 1, level =>
    if level.length > 1 then
      merkleLoop fuel (merkleLevel C level)
    else level

def merkleRootV2 (leaves : List Hash) : Hash :=
  match merkleLoop C leaves.length (leaves.map (leafHash C)) with
  | [] => C.sha256 []
  | root :: _ => root

def hexDecode32 (s : String) : Except String Hash :=
  if s.utf8ByteSize ≠ 64 then
    .error s!"hex hash must be 64 chars, got {s.utf8ByteSize}"
  else
    match (hexPairs (utf8 s)).bind (ByteArr.ofBytes? 32) with
    | some h => .ok h
    | none => .error "non-hex char"

def uuidStrToBytes (s : String) : Except String (ByteArr 16) :=
  let cleaned := String.ofList ((chars s).filter (· ≠ '-'))
  if cleaned.utf8ByteSize ≠ 32 then
    .error s!"tenant_id is not a UUID: {s}"
  else
    match
      (hexPairs (utf8 cleaned)).bind (ByteArr.ofBytes? 16)
      with
    | some id => .ok id
    | none => .error "non-hex char in UUID"

/- Decoding undoes `hex::encode`. -/
theorem hexDecode32_hexEncode (h : Hash) :
    hexDecode32 (hexEncode h.bytes) = .ok h := by
  have hSize : (hexEncode h.bytes).utf8ByteSize = 64 := by simp
  have hArr : ByteArr.ofBytes? 32 h.bytes = some h := ByteArr.ofBytes?_eq_some_iff.mpr rfl
  simp [hexDecode32, hSize, hexPairs_utf8_hexEncode, hArr]

end Tracelane.Verifier
