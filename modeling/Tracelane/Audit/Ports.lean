import Tracelane.Lib.Dict
import Tracelane.Lib.RootedChain
import Tracelane.Audit.Chain

/-
  The chain pass of the Python and of the TypeScript verifier.

  The two are written alike: they keep hashes and tenant ids as byte strings of any length, where
  the Rust one has arrays.  A `Port` is what is particular to each of them.
-/

namespace Tracelane.Verifier

--
-- Ports
--

/-
  `windowSeed` is the previous hash a window is rooted at, given what the first row declares;
  `badRowHash` starts the text of the error about a stored hash.
-/
structure Port where
  hexBytes : String → Option Bytes
  uuidBytes : String → Except String Bytes
  windowSeed : String → Bytes
  canonicalPayloadV2 : Value → String
  canonicalPayloadV1 : Value → String
  badRowHash : String

namespace Port

open Std

variable (C : Crypto) (P : Port)

/- The least seq of each tenant's rows, in file order. -/
def minSeqByTenant (rows : List AuditRow) : Dict String Nat :=
  Dict.tally (fun row => row.tenantId)
    (fun least row =>
      match least with
      | some m => min m row.seq
      | none => row.seq)
    ∅ rows

def startByTenant (includedStarts : TreeMap String Nat)
    (rows : List AuditRow) : Dict String (Option Nat) :=
  (minSeqByTenant rows).mapValues (selectStart includedStarts)

/- The turn of a tenant is the same in all three. -/
def selectStarts (includedStarts : TreeMap String Nat) (rows : List AuditRow)
    (report : VerifyReport) : VerifyReport :=
  let st := (minSeqByTenant rows).entries.foldl (recordStart includedStarts) (report, none)
  { st.1 with verifiedFromSeq := st.2.getD 0 }

def rowHashV2 (prev tenantUuid : Bytes) (seq : Nat)
    (eventType actor canonicalPayload : Bytes) : Bytes :=
  let parts := domainRowV2
  let parts := writeLp parts tenantUuid
  let parts := parts ++ u64Be seq
  let parts := writeLp parts eventType
  let parts := writeLp parts actor
  let parts := writeLp parts canonicalPayload
  (C.sha256 (writeLp parts prev)).bytes

def genesisV2 (tenantUuid : Bytes) : Bytes :=
  (C.sha256 (domainGenesisV2 ++ tenantUuid)).bytes

/- The seq and the previous hash expected of the next row. -/
abbrev Entry := Nat × Bytes

def rootEntry (start : Nat) (fmt : FormatVersion) (tenantUuid : Bytes) (row : AuditRow) : Entry :=
  if start = 0 then
    (0, if fmt.isV2Family then genesisV2 C tenantUuid else [])
  else
    (start, P.windowSeed row.prevHash)

def prevHashOk (fmt : FormatVersion) (expectedPrev : Bytes) (row : AuditRow) : Bool :=
  if fmt.isV2Family then
    if row.seq = 0 ∧ row.prevHash.isEmpty then true
    else P.hexBytes row.prevHash = some expectedPrev
  else
    row.prevHash = (if row.seq = 0 then "" else hexEncode expectedPrev)

def canonPayload (fmt : FormatVersion) (row : AuditRow) : Option String :=
  match fmt with
  | .v2_1 => row.payload.asStr.map Text.str
  | .v2 => some (P.canonicalPayloadV2 row.payload)
  | .v1 => some (P.canonicalPayloadV1 row.payload)

def recomputeHash (fmt : FormatVersion) (expectedPrev tenantUuid : Bytes)
    (row : AuditRow) (canon : String) : Bytes :=
  if fmt.isV2Family then
    rowHashV2 C expectedPrev tenantUuid row.seq row.eventType.bytes row.actor.bytes (utf8 canon)
  else
    (P.hexBytes
      (rowHashV1 C row.prevHash row.tenantId row.seq row.eventType.str row.actor.str canon)).getD []

/- Neither language has a fixed width for the seq. -/
def chainPass : ChainPass Bytes Bytes where
  identity := P.uuidBytes
  rootEntry := P.rootEntry C
  prevHashOk := P.prevHashOk
  canonPayload := P.canonPayload
  recomputeHash := P.recomputeHash C
  decodeHash := P.hexBytes
  encodeHash := hexEncode
  nextSeq := (· + 1)
  unchained := ": prev_hash does not chain"
  badRowHash := P.badRowHash

/- The order of the chain states is never read. -/
def replay (opts : VerifyOptions) (starts : Dict String (Option Nat)) :
    List AuditRow → List (List VerifyError) :=
  (P.chainPass C).replay opts (fun tenant => (starts.get? tenant).join)

def verifyChain (opts : VerifyOptions) (rows : List AuditRow) (includedStarts : TreeMap String Nat)
    (report : VerifyReport) : VerifyReport :=
  let report := selectStarts includedStarts rows report
  (P.replay C opts (startByTenant includedStarts rows) rows).foldl recordChainErrors report

end Port

--
-- Python
--

/- The library functions the Python verifier calls. -/
structure PyLib where
  /- The text of the `ValueError` of `bytes.fromhex`. -/
  fromhexError : String → String
  /- `json.dumps`, sorted and compact, not only ASCII. -/
  dumpsUnicode : Value → String
  /- `json.dumps`, sorted and compact. -/
  dumpsAscii : Value → String

/- `Py_ISSPACE`. -/
def pySpace (b : UInt8) : Bool :=
  (9 ≤ b && b ≤ 13) || b = 32

/-
  `bytes.fromhex`: pairs of digits, with white space between the pairs passed over.  Every byte of a
  character outside ASCII is as invalid as the character.
-/
def pyFromHex : Bytes → Option Bytes
| [] => some []
| [b] => if pySpace b then some [] else none
| hi :: lo :: rest =>
    if pySpace hi then pyFromHex (lo :: rest)
    else
      match hexNibble hi, hexNibble lo with
      | some h, some l => (pyFromHex rest).map (fun tail => (h <<< 4 ||| l) :: tail)
      | _, _ => none

/- A tenant id without its hyphens. -/
def cleanedId (tenantId : String) : List Char :=
  (chars tenantId).filter (· ≠ '-')

def pyUuidBytes (L : PyLib) (tenantId : String) : Except String Bytes :=
  let cleaned := cleanedId tenantId
  if cleaned.length ≠ 32 then
    .error s!"tenant_id is not a UUID: {tenantId}"
  else
    match pyFromHex (utf8 (String.ofList cleaned)) with
    | some id => .ok id
    | none => .error (L.fromhexError (String.ofList cleaned))

/- A declared hash that is not one roots the window at zero. -/
def pyWindowSeed (prevHash : String) : Bytes :=
  match pyFromHex (utf8 prevHash) with
  | some seed =>
      if seed.length ≠ 32 then List.replicate 32 0 else seed
  | none => List.replicate 32 0

def python (L : PyLib) : Port where
  hexBytes s := pyFromHex (utf8 s)
  uuidBytes := pyUuidBytes L
  windowSeed := pyWindowSeed
  canonicalPayloadV2 := L.dumpsUnicode
  canonicalPayloadV1 := L.dumpsAscii
  badRowHash := "row_hash is not 64-hex: "

/- The library functions the TypeScript verifier calls. -/
structure TsLib where
  /- The text of the error of `hexToBytes`. -/
  hexToBytesError : String → String
  /- `JSON.stringify` of a value with its keys sorted. -/
  stringifySorted : Value → String

/- `String.length`: a character is one code unit or two. -/
def utf16Length (cs : List Char) : Nat :=
  (cs.map (fun c => if c.toNat < 0x10000 then 1 else 2)).sum

/- `hexToBytes` takes pairs of digits, any number of them. -/
def hexToBytes (s : String) : Option Bytes :=
  hexPairs (utf8 s)

def tsUuidBytes (L : TsLib) (tenantId : String) : Except String Bytes :=
  let cleaned := cleanedId tenantId
  if utf16Length cleaned ≠ 32 then
    .error s!"tenant_id is not a UUID: {tenantId}"
  else
    match hexToBytes (String.ofList cleaned) with
    | some id => .ok id
    | none => .error (L.hexToBytesError (String.ofList cleaned))

/- Whatever decodes roots the window. -/
def tsWindowSeed (prevHash : String) : Bytes :=
  (hexToBytes prevHash).getD (List.replicate 32 0)

def typescript (L : TsLib) : Port where
  hexBytes := hexToBytes
  uuidBytes := tsUuidBytes L
  windowSeed := tsWindowSeed
  canonicalPayloadV2 := L.stringifySorted
  canonicalPayloadV1 := L.stringifySorted
  badRowHash := "row_hash is not hex: "

end Tracelane.Verifier
