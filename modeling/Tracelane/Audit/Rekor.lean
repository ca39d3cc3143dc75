import Tracelane.Audit.Format

/-
  The verifier's offline check of one Rekor v2 bundle: the ECDSA entry parsed from the canonicalized
  body, the RFC 6962 inclusion proof, and the log's signed checkpoint, verified under the pinned log
  key.
-/

namespace Tracelane.Verifier

variable (C : Crypto) (S : Serde)

--
-- Standard-Library Text Functions
--

/- `char::is_whitespace`: the Unicode White_Space property. -/
def isWhitespace (c : Char) : Bool :=
  let n := c.toNat
  (9 ≤ n && n ≤ 13) || n = 0x20 || n = 0x85 || n = 0xa0 ||
    n = 0x1680 || (0x2000 ≤ n && n ≤ 0x200a) ||
    n = 0x2028 || n = 0x2029 || n = 0x202f || n = 0x205f ||
    n = 0x3000

/- `str::trim`. -/
def trim (cs : List Char) : List Char :=
  (cs.dropWhile isWhitespace).rdropWhile isWhitespace

/- The decimal value of a digit. -/
def digitValue (c : Char) : Option Nat :=
  if '0' ≤ c ∧ c ≤ '9' then some (c.toNat - 48) else none

/- Accumulate decimal digits, failing past `u64::MAX`. -/
def parseDigits : Nat → List Char → Option Nat
| acc, [] => some acc
| acc, c :: cs =>
    match digitValue c with
    | none => none
    | some d =>
        if acc * 10 + d < u64Size then
          parseDigits (acc * 10 + d) cs
        else none

/- `str::parse::<u64>`, which accepts one leading `+`. -/
def parseU64 (s : List Char) : Option Nat :=
  match s with
  | [] => none
  | '+' :: [] => none
  | '+' :: c :: cs => parseDigits 0 (c :: cs)
  | cs => parseDigits 0 cs

/- Split at the first blank line, as `find("\n\n")` does. -/
def splitBlankLine :
    List Char → Option (List Char × List Char)
| '\n' :: '\n' :: rest => some ([], rest)
| c :: rest =>
    (splitBlankLine rest).map (fun p => (c :: p.1, p.2))
| [] => none

/-
  `str::lines`: every piece but the last ended in a line
  feed, and loses one carriage return before it.
-/
def strLines (cs : List Char) : List (List Char) :=
  let pieces := cs.splitOn '\n'
  (pieces.dropLast.map (fun piece =>
    if piece.getLast? = some '\r' then piece.dropLast
    else piece)) ++
    (pieces.getLast?.toList.filter (fun piece => piece ≠ []))

/- The value of one base64 character. -/
def base64Val (c : Char) : Option Nat :=
  if 'A' ≤ c ∧ c ≤ 'Z' then some (c.toNat - 65)
  else if 'a' ≤ c ∧ c ≤ 'z' then some (c.toNat - 97 + 26)
  else if '0' ≤ c ∧ c ≤ '9' then some (c.toNat - 48 + 52)
  else if c = '+' then some 62
  else if c = '/' then some 63
  else none

/- `u8::is_ascii_whitespace`. -/
def isAsciiWhitespace (c : Char) : Bool :=
  c = ' ' || c = '\t' || c = '\n' || c = '\x0c' || c = '\r'

/-
  Decode with `bits` pending bits held in `acc`.  The source reads bytes; every byte of a character
  outside ASCII is as invalid as the character.
-/
def base64Loop : Nat → Nat → List Char → Except String Bytes
| _, _, [] => .ok []
| acc, bits, c :: rest =>
    if isAsciiWhitespace c then base64Loop acc bits rest
    else
      match base64Val c with
      | none => .error "invalid base64 char"
      | some v =>
          let acc := acc * 64 + v
          let bits := bits + 6
          if bits ≥ 8 then
            let bits := bits - 8
            (base64Loop (acc % 2 ^ bits) bits rest).map
              (fun out => UInt8.ofNat (acc / 2 ^ bits) :: out)
          else base64Loop acc bits rest

def base64Decode (input : String) : Except String Bytes :=
  base64Loop 0 0 ((trim (chars input)).rdropWhile (· = '='))

--
-- Commitments and Inclusion Proofs
--

def domainAnchor : Bytes :=
  utf8 "tracelane-anchor-ecdsa-v1\x00"

def domainAttest : Bytes :=
  utf8 "tracelane-audit-ed25519-v1\x00"

def logHost : String :=
  "log2025-1.rekor.sigstore.dev"

/- The pinned checkpoint key of the log. -/
def logEd25519Pubkey : Hash :=
  ⟨[183, 202, 229, 167, 89, 39, 27, 8, 223, 109, 197, 192,
    96, 246, 0, 146, 125, 23, 136, 188, 245, 199, 195, 184,
    183, 70, 36, 18, 24, 158, 219, 142], by decide⟩

/- P-256 SPKI to its raw SEC1 point. -/
def spkiToPoint (spki : Bytes) : Except String Bytes :=
  if spki.length ≠ 91 ∨ spki[26]? ≠ some 0x04 then
    .error "not a P-256 SubjectPublicKeyInfo"
  else .ok (spki.drop 26)

def anchorCommitment :
    Option (Bytes × String × Nat) → Bytes
| none => [0x00]
| some (spki, url, idx) =>
    0x01 :: (C.sha256 spki).bytes ++ (C.sha256 (utf8 url)).bytes ++ u64Be idx

/- Drop trailing zero bits of `fn` off both numbers. -/
def skipZeroBits : Nat → Nat → Nat → Nat × Nat
| 0, fnv, sn => (fnv, sn)
| fuel + 1, fnv, sn =>
    if fnv ≠ 0 ∧ fnv % 2 = 0 then
      skipZeroBits fuel (fnv / 2) (sn / 2)
    else (fnv, sn)

/- Fold one proof hash after another into the root. -/
def rfc6962Loop :
    Nat → Nat → Hash → List Hash → Except String Hash
| _, sn, r, [] =>
    if sn ≠ 0 then .error "inclusion proof too short" else .ok r
| fnv, sn, r, p :: proof =>
    if sn = 0 then .error "inclusion proof too long"
    else if fnv % 2 = 1 ∨ fnv = sn then
      let (fnv, sn) := skipZeroBits 64 fnv sn
      rfc6962Loop (fnv / 2) (sn / 2) (nodeHash C p r) proof
    else
      rfc6962Loop (fnv / 2) (sn / 2) (nodeHash C r p) proof

def rfc6962Root (leaf : Hash) (index size : Nat) (proof : List Hash) : Except String Hash :=
  if index ≥ size then .error "leaf index >= tree size"
  else rfc6962Loop C index (size - 1) leaf proof

/- The four-byte hint naming the pinned log key. -/
def keyHint : Bytes :=
  (C.sha256
    (utf8 logHost ++ 0x0a :: 0x01 ::
      logEd25519Pubkey.bytes)).bytes.take 4

/-
  Parse a signed-note checkpoint and verify it under the
  pinned log key; returns the tree size and root.
-/
def verifyCheckpoint (envelope : String) : Except String (Nat × Hash) := do
  let some (body, sigBlock) := splitBlankLine (chars envelope)
    | .error "checkpoint has no signature separator"
  let bodyText := body ++ ['\n']
  let lines := bodyText.splitOn '\n'
  let origin := String.ofList (lines.getD 0 [])
  let some treeSize := parseU64 (lines.getD 1 [])
    | .error "checkpoint tree size not a u64"
  let rootB64 := String.ofList (lines.getD 2 [])
  if origin ≠ logHost then
    .error s!"checkpoint origin {origin} != pinned {logHost}"
  let some sigLine := (strLines sigBlock).find? (fun l => (chars "— ").isPrefixOf l)
    | .error "checkpoint has no signature line"
  let some token := (sigLine.splitOn ' ')[2]?
    | .error "checkpoint signature line malformed"
  let sigBlob ←
    (base64Decode (String.ofList token)).mapError (fun e => s!"checkpoint sig base64: {e}")
  if sigBlob.length ≠ 4 + 64 then
    .error "checkpoint sig blob wrong length"
  if sigBlob.take 4 ≠ keyHint C then
    .error "checkpoint key hint != pinned log key"
  let some sig64 := ByteArr.ofBytes? 64 (sigBlob.drop 4)
    | .error "checkpoint sig blob wrong length"
  (C.verifyEd25519Raw logEd25519Pubkey (utf8 (String.ofList bodyText)) sig64).mapError
    (fun e => s!"checkpoint signature: {e}")
  let rootBytes ←
    (base64Decode rootB64).mapError (fun e => s!"checkpoint root base64: {e}")
  let some root := ByteArr.ofBytes? 32 rootBytes
    | .error "checkpoint root not 32 bytes"
  .ok (treeSize, root)

--
-- Rekor Entries
--

/- The ECDSA material of an anchored entry. -/
structure AnchorEntry where
  spki : Bytes
  digest : Hash
  sig : Bytes
  point : Bytes
  logIndex : Nat

/- The text at a JSON path, or the error naming it. -/
def textAt (v : Value) (path : List String) (missing : String) : Except String String :=
  match (v.pointer path).bind Value.asStr with
  | some t => .ok t.str
  | none => .error missing

/-
  Parse the entry body and bind it to `root`: its digest is
  that of the anchor artifact over the root.
-/
def extractAnchorEntry (root : Hash) (rekor : RekorBlock) : Except String AnchorEntry := do
  let bodyBytes ←
    (base64Decode rekor.canonicalizedBody).mapError (fun e => s!"canonicalized_body base64: {e}")
  let body ← (S.fromSlice bodyBytes).mapError (fun e => s!"canonicalized_body JSON: {e}")
  let some spec := body.pointer ["spec", "hashedRekordV002"]
    | .error "missing spec.hashedRekordV002"
  let keyDetails ← textAt spec
    ["signature", "verifier", "keyDetails"]
    "missing keyDetails"
  if keyDetails ≠ "PKIX_ECDSA_P256_SHA_256" then
    .error s!"unexpected keyDetails {keyDetails}"
  let digestB64 ← textAt spec ["data", "digest"] "missing data.digest"
  let sigB64 ← textAt spec ["signature", "content"] "missing signature.content"
  let rawBytesB64 ← textAt spec
    ["signature", "verifier", "publicKey", "rawBytes"]
    "missing publicKey.rawBytes"
  let spki ← (base64Decode rawBytesB64).mapError (fun e => s!"spki base64: {e}")
  let point ← spkiToPoint spki
  let digest := C.sha256 (domainAnchor ++ root.bytes)
  let claimedDigest ← (base64Decode digestB64).mapError (fun e => s!"digest base64: {e}")
  if claimedDigest ≠ digest.bytes then
    .error "entry digest != SHA256(anchor artifact)"
  let sig ← (base64Decode sigB64).mapError (fun e => s!"sig base64: {e}")
  let some logIndex := parseU64 (chars rekor.logIndex)
    | .error "log_index not a u64"
  .ok { spki, digest, sig, point, logIndex }

/- The hashes of an inclusion proof. -/
def proofHashes : List String → Except String (List Hash)
| [] => .ok []
| h :: hs => do
    let b ← (base64Decode h).mapError (fun e => s!"proof hash base64: {e}")
    let some arr := ByteArr.ofBytes? 32 b
      | .error "proof hash not 32 bytes"
    let rest ← proofHashes hs
    .ok (arr :: rest)

/- The inclusion proof ends at the signed checkpoint root. -/
def verifyInclusion (rekor : RekorBlock) : Except String Unit := do
  let body ← (base64Decode rekor.canonicalizedBody).mapError (fun e => s!"body base64: {e}")
  let leaf := C.sha256 (0x00 :: body)
  let some idx := parseU64 (chars rekor.inclusionProof.logIndex)
    | .error "proof log_index not a u64"
  let some treeSize :=
      parseU64 (chars rekor.inclusionProof.treeSize)
    | .error "proof tree_size not a u64"
  let proof ← proofHashes rekor.inclusionProof.hashes
  let computed ← rfc6962Root C leaf idx treeSize proof
  let (cpSize, cpRoot) ←
    verifyCheckpoint C rekor.checkpoint.envelope
  if cpSize ≠ treeSize then
    .error s!"checkpoint tree_size {cpSize} != proof {treeSize}"
  if cpRoot ≠ computed then
    .error "inclusion-proof root != verified checkpoint root"
  .ok ()

end Tracelane.Verifier
