import Tracelane.Audit.Format

/-
  The gateway's `audit_format`: the hashes it writes into the ledger, in its own words, and that the
  reference verifier recomputes the same ones.

  `sha256` stands for the digest of the `ring` crate; the verifier takes its own from the `sha2`
  crate, and both are SHA-256.
-/

namespace Tracelane

open List

/- A tenant's UUID. -/
abbrev TenantId := ByteArr 16

/- `Display`: the hyphenated lower-case form. -/
def tenantText (tenantId : TenantId) : String :=
  let part (start size : Nat) := hexEncode ((tenantId.bytes.drop start).take size)
  part 0 4 ++ "-" ++ part 4 2 ++ "-" ++ part 6 2 ++ "-" ++ part 8 2 ++ "-" ++ part 10 6

namespace Gateway

variable (sha256 : Bytes → Hash)

--
-- Row Hashes
--

def domainRowV2 : Bytes :=
  utf8 "tracelane-audit-row-v2\x00"

def domainGenesisV2 : Bytes :=
  utf8 "tracelane-audit-v2-genesis\x00"

def writeLengthPrefixed (buf bytes : Bytes) : Bytes :=
  buf ++ u64Be bytes.length ++ bytes

/- The buffer `row_hash_v2` hashes. -/
def rowBufV2 (prevHash : Hash) (tenantId : TenantId) (seq : Nat)
    (eventType actor payloadCanonicalJson : Bytes) : Bytes :=
  let buf := domainRowV2
  let buf := writeLengthPrefixed buf tenantId.bytes
  let buf := buf ++ u64Be seq
  let buf := writeLengthPrefixed buf eventType
  let buf := writeLengthPrefixed buf actor
  let buf := writeLengthPrefixed buf payloadCanonicalJson
  writeLengthPrefixed buf prevHash.bytes

def rowHashV2 (prevHash : Hash) (tenantId : TenantId) (seq : Nat)
    (eventType actor payloadCanonicalJson : Text) : Hash :=
  sha256
    (rowBufV2 prevHash tenantId seq eventType.bytes actor.bytes payloadCanonicalJson.bytes)

def genesisPrevHash (tenantId : TenantId) : Hash :=
  sha256 (domainGenesisV2 ++ tenantId.bytes)

def leafHash (data : Hash) : Hash :=
  sha256 (0x00 :: data.bytes)

def nodeHash (left right : Hash) : Hash :=
  sha256 (0x01 :: left.bytes ++ right.bytes)

/- `chunks_exact(2)` and its remainder. -/
def chunksExact : List Hash → List (Hash × Hash) × List Hash
| l :: r :: rest =>
    let chunks := chunksExact rest
    ((l, r) :: chunks.1, chunks.2)
| rest => ([], rest)

/- One turn of the loop: pairs, then the lone element. -/
def nextLevel (level : List Hash) : List Hash :=
  let chunks := chunksExact level
  chunks.1.map (fun pair => nodeHash sha256 pair.1 pair.2) ++ chunks.2

/- `while level.len() > 1`, with the leaf count as bound. -/
def reduceLevels : Nat → List Hash → List Hash
| 0, level => level
| fuel + 1, level =>
    if level.length > 1 then
      reduceLevels fuel (nextLevel sha256 level)
    else level

def merkleRootV2 (leaves : List Hash) : Hash :=
  match leaves with
  | [] => sha256 []
  | leaves =>
      (reduceLevels sha256 leaves.length (leaves.map (leafHash sha256))).headD (ByteArr.zero 32)

/- `hex_decode`. -/
def hexDecode (s : String) : Except String Hash :=
  if s.utf8ByteSize ≠ 64 then
    .error "hex hash must be 64 chars"
  else
    match (hexPairs (utf8 s)).bind (ByteArr.ofBytes? 32) with
    | some h => .ok h
    | none => .error "non-hex char"

@[simp] theorem hexDecode_hexEncode (h : Hash) :
    hexDecode (hexEncode h.bytes) = .ok h := by
  have hArr : ByteArr.ofBytes? 32 h.bytes = some h := ByteArr.ofBytes?_eq_some_iff.mpr rfl
  simp [hexDecode, hexPairs_utf8_hexEncode, hArr]

--
-- Agreement with the Verifier
--

section Agreement

variable (C : Verifier.Crypto)

/- Both sides frame and hash a row alike. -/
theorem rowHashV2_eq_verifier (prevHash : Hash) (tenantId : TenantId) (seq : Nat)
    (eventType actor payload : Text) :
    rowHashV2 C.sha256 prevHash tenantId seq eventType actor payload =
      Verifier.rowHashV2 C prevHash tenantId seq eventType.bytes actor.bytes payload.bytes := by
  unfold rowHashV2 Verifier.rowHashV2
  simp [rowBufV2, Verifier.rowBufV2, writeLengthPrefixed, Verifier.writeLp, lengthPrefixed,
    domainRowV2, Verifier.domainRowV2]

/- No digit is a hyphen. -/
theorem filter_hexByte (b : UInt8) :
    (hexByte b).filter (· ≠ '-') = hexByte b := by
  have hAll :
      ∀ i : Fin 256, (hexByte (UInt8.ofNat i)).filter (· ≠ '-') = hexByte (UInt8.ofNat i) := by
    decide +kernel
  have hByte := hAll ⟨b.toNat, b.toNat_lt⟩
  simpa using hByte

theorem filter_hexEncode (bs : Bytes) :
    (hexEncode bs).toList.filter (· ≠ '-') = bs.flatMap hexByte := by
  unfold hexEncode
  rw [String.toList_ofList]
  induction bs with
  | nil => rfl
  | cons b bs ih =>
    rw [flatMap_cons, filter_append, filter_hexByte, ih]

/- The verifier reads the tenant's UUID back. -/
theorem uuidStrToBytes_tenantText (tenantId : TenantId) :
    Verifier.uuidStrToBytes (tenantText tenantId) = .ok tenantId := by
  have hParts :
      ∀ bs : Bytes, bs.length = 16 →
        (bs.drop 0).take 4 ++ ((bs.drop 4).take 2 ++
          ((bs.drop 6).take 2 ++ ((bs.drop 8).take 2 ++ (bs.drop 10).take 6))) = bs := by
    intro bs hLen
    have hLast : (bs.drop 10).take 6 = bs.drop 10 := take_of_length_le (by simp [hLen])
    have hJoin :
        ∀ start size, (bs.drop start).take size ++ bs.drop (start + size) = bs.drop start := by
      intro start size
      rw [← drop_drop, take_append_drop]
    rw [hLast, hJoin 8 2, hJoin 6 2, hJoin 4 2, hJoin 0 4, drop_zero]
  have hCleaned :
      String.ofList ((chars (tenantText tenantId)).filter (· ≠ '-')) =
        hexEncode tenantId.bytes := by
    have hJoined := hParts tenantId.bytes tenantId.size
    simp only [tenantText, chars_eq_toList, String.toList_append, filter_append, filter_hexEncode]
    simp only [show ("-".toList.filter (· ≠ '-')) = [] by decide,
      append_nil, append_assoc, ← flatMap_append, hJoined]
    rfl
  have hArr : ByteArr.ofBytes? 16 tenantId.bytes = some tenantId :=
    ByteArr.ofBytes?_eq_some_iff.mpr rfl
  unfold Verifier.uuidStrToBytes
  simp only [hCleaned]
  simp [hexPairs_utf8_hexEncode, hArr]

theorem nextLevel_eq_verifier (level : List Hash) :
    nextLevel C.sha256 level = Verifier.merkleLevel C level := by
  induction level using chunksExact.induct with
  | case1 l r rest ih =>
    simp only [nextLevel] at ih
    simp [nextLevel, chunksExact, Verifier.merkleLevel, ← ih, nodeHash, Verifier.nodeHash]
  | case2 rest hShort =>
    cases rest with
    | nil => rfl
    | cons l rest =>
      cases rest with
      | nil => rfl
      | cons r rest => exact absurd rfl (hShort l r rest)

/- Both sides build the same tree. -/
theorem merkleRootV2_eq_verifier (leaves : List Hash) :
    merkleRootV2 C.sha256 leaves = Verifier.merkleRootV2 C leaves := by
  have hLoop :
      ∀ (fuel : Nat) (level : List Hash),
        reduceLevels C.sha256 fuel level = Verifier.merkleLoop C fuel level := by
    intro fuel
    induction fuel with
    | zero =>
      intro level
      rfl
    | succ fuel ih =>
      intro level
      simp only [reduceLevels, Verifier.merkleLoop, nextLevel_eq_verifier, ih]
  have hNonempty :
      ∀ (fuel : Nat) (level : List Hash), level ≠ [] → Verifier.merkleLoop C fuel level ≠ [] := by
    intro fuel
    induction fuel with
    | zero =>
      intro level hLevel
      exact hLevel
    | succ fuel ih =>
      intro level hLevel
      unfold Verifier.merkleLoop
      split
      · apply ih
        match level, hLevel with
        | [l], _ => simp [Verifier.merkleLevel]
        | l :: r :: rest, _ => simp [Verifier.merkleLevel]
      · exact hLevel
  cases leaves with
  | nil => rfl
  | cons leaf leaves =>
    have hSome :=
      hNonempty (leaf :: leaves).length ((leaf :: leaves).map (Verifier.leafHash C)) (by simp)
    have hLeaf : leafHash C.sha256 = Verifier.leafHash C := by
      funext h
      rfl
    unfold merkleRootV2 Verifier.merkleRootV2
    simp only [hLoop, hLeaf]
    split
    · rename_i hNil
      exact absurd hNil hSome
    · rename_i root rest hRoot
      rw [hRoot]
      rfl

end Agreement

end Gateway

end Tracelane
