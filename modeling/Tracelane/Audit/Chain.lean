import Tracelane.Lib.KeyedFold
import Tracelane.Audit.Format

/-
  The verifier's second pass, `verify_chain`: a start for every tenant, then the replay of the hash
  chain over the rows in file order.

  A turn of the replay reads and writes the chain state of the row's own tenant only; `checkRow`
  returns the new state and the errors the turn pushes.
-/

namespace Tracelane.Verifier

open Std

variable (C : Crypto) (S : Serde)

--
-- Start Selection
--

/- The least seq of each tenant's rows. -/
def minSeqByTenant (rows : List AuditRow) : TreeMap String Nat :=
  KeyedFold.table (fun row => row.tenantId) (KeyedFold.keepMin AuditRow.seq) ∅ rows

/-
  The seq a tenant is verified from: its genesis if present,
  else its earliest included anchor, if any.
-/
def selectStart (includedStarts : TreeMap String Nat) (tenant : String)
    (minSeq : Nat) : Option Nat :=
  if minSeq = 0 then some 0 else includedStarts[tenant]?

def startByTenant (includedStarts : TreeMap String Nat)
    (rows : List AuditRow) : TreeMap String (Option Nat) :=
  (minSeqByTenant rows).map (selectStart includedStarts)

def unrootedError (entry : String × Nat) : VerifyError where
  seq := none
  kind := "unrooted_window"
  detail := "tenant " ++ entry.1 ++
    ": window starts at seq " ++ toString entry.2 ++
    " (genesis truncated) with no publicly-included Rekor anchor to root it" ++
    " — present but unverifiable"

/-
  One tenant's turn of the selection: the largest start so
  far, or the error that the tenant has none.
-/
def recordStart (includedStarts : TreeMap String Nat) (st : VerifyReport × Option Nat)
    (entry : String × Nat) : VerifyReport × Option Nat :=
  match selectStart includedStarts entry.1 entry.2 with
  | some s =>
      (st.1, some (match st.2 with
        | some e => max e s
        | none => s))
  | none =>
      ({ st.1.push (unrootedError entry) with
          trustEstablished := false }, st.2)

def selectStarts (includedStarts : TreeMap String Nat) (rows : List AuditRow)
    (report : VerifyReport) : VerifyReport :=
  let st := (minSeqByTenant rows).toList.foldl (recordStart includedStarts) (report, none)
  { st.1 with verifiedFromSeq := st.2.getD 0 }

--
-- One Row
--

/- The seq and the previous hash expected of the next row. -/
abbrev ChainEntry := Nat × Hash

/-
  A tenant's first chain state: the genesis seed, or, in a
  window, the first row's declared previous hash.
-/
def rootEntry (start : Nat) (fmt : FormatVersion) (tenantUuid : ByteArr 16)
    (row : AuditRow) : ChainEntry :=
  if start = 0 then
    (0, if fmt.isV2Family then genesisV2 C tenantUuid
      else ByteArr.zero 32)
  else
    (start, match hexDecode32 row.prevHash with
      | .ok seed => seed
      | .error _ => ByteArr.zero 32)

/- v2 and v2.1 compare bytes, and let the genesis row omit the field; v1 compares the text. -/
def prevHashOk (fmt : FormatVersion) (expectedPrevHash : Hash) (row : AuditRow) : Bool :=
  if fmt.isV2Family then
    if row.seq = 0 ∧ row.prevHash.isEmpty then true
    else
      match hexDecode32 row.prevHash with
      | .ok bytes => bytes = expectedPrevHash
      | .error _ => false
  else
    row.prevHash = (if row.seq = 0 then "" else hexEncode expectedPrevHash.bytes)

/- The payload text a row's hash is taken over. -/
def canonPayload (fmt : FormatVersion) (row : AuditRow) : Option String :=
  match fmt with
  | .v2_1 => row.payload.asStr.map Text.str
  | .v2 => some row.payload.canonical
  | .v1 => some (S.toString row.payload)

def recomputeHash (fmt : FormatVersion) (expectedPrevHash : Hash)
    (tenantUuid : ByteArr 16) (row : AuditRow) (canon : String) : Hash :=
  if fmt.isV2Family then
    rowHashV2 C expectedPrevHash tenantUuid row.seq row.eventType.bytes row.actor.bytes (utf8 canon)
  else
    match
      hexDecode32
        (rowHashV1 C row.prevHash row.tenantId row.seq row.eventType.str row.actor.str canon) with
    | .ok h => h
    | .error _ => ByteArr.zero 32

def rowError (row : AuditRow) (kind detail : String) : VerifyError where
  seq := some row.seq
  kind := kind
  detail := detail

/- An error that holds exactly when `ok` does not. -/
def errorUnless (ok : Bool) (e : VerifyError) : List VerifyError :=
  if ok then [] else [e]

@[simp] theorem errorUnless_eq_nil (ok : Bool) (e : VerifyError) :
    errorUnless ok e = [] ↔ ok = true := by
  cases ok <;> simp [errorUnless]

/-
  What is particular to one verifier's chain pass.  `η` is its type of hashes, `ι` that of decoded
  tenant ids; `unchained` and `badRowHash` are texts of its errors.
-/
structure ChainPass (η ι : Type) where
  identity : String → Except String ι
  rootEntry : Nat → FormatVersion → ι → AuditRow → Nat × η
  prevHashOk : FormatVersion → η → AuditRow → Bool
  canonPayload : FormatVersion → AuditRow → Option String
  recomputeHash : FormatVersion → η → ι → AuditRow → String → η
  decodeHash : String → Option η
  encodeHash : η → String
  nextSeq : Nat → Nat
  unchained : String
  badRowHash : String

namespace ChainPass

variable {η ι : Type} [DecidableEq η] (pass : ChainPass η ι)

/- The errors of the seq, previous hash, and payload checks. -/
def linkErrors (fmt : FormatVersion) (entry : Nat × η) (row : AuditRow) : List VerifyError :=
  errorUnless (row.seq = entry.1)
      (rowError row "seq_out_of_order"
        ("tenant " ++ row.tenantId ++ ": expected seq " ++
          toString entry.1 ++ ", got " ++ toString row.seq)) ++
    errorUnless (pass.prevHashOk fmt entry.2 row)
      (rowError row "prev_hash_mismatch" ("tenant " ++ row.tenantId ++ pass.unchained)) ++
    errorUnless (pass.canonPayload fmt row).isSome
      (rowError row "v2_1_payload_not_string"
        ("tenant " ++ row.tenantId ++
          ": v2.1 payload must be the verbatim canonical JSON string" ++
          ", not a re-parsed object/number"))

/- The error of the hash comparison, if there is a payload. -/
def hashErrors (fmt : FormatVersion) (expectedPrevHash : η)
    (id : ι) (row : AuditRow) (stored : η) : List VerifyError :=
  match pass.canonPayload fmt row with
  | none => []
  | some canon =>
      let recomputed := pass.recomputeHash fmt expectedPrevHash id row canon
      errorUnless (recomputed = stored)
        (rowError row "row_hash_mismatch"
          ("tenant " ++ row.tenantId ++ ": expected row_hash " ++
            pass.encodeHash recomputed ++ ", got " ++ row.rowHash))

/- An in-scope row of a tenant whose id decodes. -/
def checkInScope (fmt : FormatVersion) (id : ι)
    (entry : Nat × η) (row : AuditRow) : (Nat × η) × List VerifyError :=
  let errors := pass.linkErrors fmt entry row
  match pass.decodeHash row.rowHash with
  | none =>
      (entry, errors ++ [rowError row "bad_row_hash_encoding" (pass.badRowHash ++ row.rowHash)])
  | some stored =>
      -- The chain goes on from the claimed hash even after an error.
      ((pass.nextSeq row.seq, stored), errors ++ pass.hashErrors fmt entry.2 id row stored)

/- One turn of the replay.  A row of an unrooted tenant, or below its tenant's start, is skipped. -/
def checkRow (opts : VerifyOptions) (start : Option Nat) (entry : Option (Nat × η))
    (row : AuditRow) : Option (Nat × η) × List VerifyError :=
  match start with
  | none => (entry, [])
  | some s =>
      if row.seq < s then (entry, [])
      else
        let fmt := resolveFormat row opts.formatVersion
        match pass.identity row.tenantId with
        | .error e => (entry, [rowError row "bad_tenant_id" e])
        | .ok id =>
            let (next, errors) :=
              pass.checkInScope fmt id (entry.getD (pass.rootEntry s fmt id row)) row
            (some next, errors)

/- The errors each row's turn pushes, in file order. -/
def replay (opts : VerifyOptions) (startOf : String → Option Nat)
    (rows : List AuditRow) : List (List VerifyError) :=
  KeyedFold.run (fun row => row.tenantId)
    (fun entry row => pass.checkRow opts (startOf row.tenantId) entry row)
    ∅ rows

end ChainPass

/- The pass of the Rust verifier, where the seq is a `u64` that wraps. -/
def chainPass : ChainPass Hash (ByteArr 16) where
  identity := uuidStrToBytes
  rootEntry := rootEntry C
  prevHashOk := prevHashOk
  canonPayload := canonPayload S
  recomputeHash := recomputeHash C
  decodeHash text := (hexDecode32 text).toOption
  encodeHash h := hexEncode h.bytes
  nextSeq seq := (seq + 1) % u64Size
  unchained := ": prev_hash does not chain to previous row"
  badRowHash := "row_hash is not 64-hex: "

/- The start recorded for a row's tenant. -/
def startOf (starts : TreeMap String (Option Nat)) (tenant : String) : Option Nat :=
  starts[tenant]?.join

def replay (opts : VerifyOptions) (starts : TreeMap String (Option Nat)) :
    List AuditRow → List (List VerifyError) :=
  (chainPass C S).replay opts (startOf starts)

/- Every error of the replay clears `hash_chain_valid`. -/
def recordChainErrors (report : VerifyReport) (errors : List VerifyError) : VerifyReport :=
  { report with
    errors := report.errors ++ errors
    hashChainValid := report.hashChainValid && errors.isEmpty }

def verifyChain (opts : VerifyOptions) (rows : List AuditRow) (includedStarts : TreeMap String Nat)
    (report : VerifyReport) : VerifyReport :=
  let report := selectStarts includedStarts rows report
  (replay C S opts (startByTenant includedStarts rows) rows).foldl recordChainErrors report

--
-- Report in Closed Form
--

/- The tenants with rows and no start are named in errors. -/
def unrootedErrors (includedStarts : TreeMap String Nat)
    (entries : List (String × Nat)) : List VerifyError :=
  (entries.filter (fun entry =>
    (selectStart includedStarts entry.1 entry.2).isNone)).map
    unrootedError

/- The latest start of the tenants, 0 if there is none. -/
def latestStart (includedStarts : TreeMap String Nat) (entries : List (String × Nat)) : Nat :=
  (entries.filterMap (fun entry => selectStart includedStarts entry.1 entry.2)).foldl max 0

theorem foldl_recordStart (includedStarts : TreeMap String Nat)
    (entries : List (String × Nat)) (report : VerifyReport) (latest : Option Nat) :
    let st := entries.foldl (recordStart includedStarts) (report, latest)
    st.1 =
        { report with
          errors := report.errors ++ unrootedErrors includedStarts entries
          trustEstablished := report.trustEstablished &&
            entries.all (fun entry => (selectStart includedStarts entry.1 entry.2).isSome) } ∧
      st.2.getD 0 =
        (entries.filterMap (fun entry =>
          selectStart includedStarts entry.1 entry.2)).foldl max (latest.getD 0) := by
  induction entries generalizing report latest with
  | nil => simp [unrootedErrors]
  | cons entry entries ih =>
    intro st
    cases hStart : selectStart includedStarts entry.1 entry.2 with
    | none =>
      have hStep := ih
        ({ report.push (unrootedError entry) with
          trustEstablished := false }) latest
      simpa [st, recordStart, hStart, unrootedErrors, VerifyReport.push] using hStep
    | some s =>
      have hStep := ih report (some (match latest with
        | some e => max e s
        | none => s))
      cases latest <;> simpa [st, recordStart, hStart, unrootedErrors] using hStep

theorem foldl_recordChainErrors (errors : List (List VerifyError)) (report : VerifyReport) :
    errors.foldl recordChainErrors report =
      { report with
        errors := report.errors ++ errors.flatten
        hashChainValid := report.hashChainValid &&
          errors.all List.isEmpty } := by
  induction errors generalizing report with
  | nil => simp
  | cons e errors ih =>
    rw [List.foldl_cons, ih]
    simp [recordChainErrors, Bool.and_assoc]

/- What the chain pass writes. -/
theorem verifyChain_report (opts : VerifyOptions) (rows : List AuditRow)
    (includedStarts : TreeMap String Nat) (report : VerifyReport) :
    let entries := (minSeqByTenant rows).toList
    let errors := replay C S opts (startByTenant includedStarts rows) rows
    verifyChain C S opts rows includedStarts report =
      { report with
        errors := report.errors ++ (unrootedErrors includedStarts entries ++ errors.flatten)
        trustEstablished := report.trustEstablished &&
          entries.all (fun entry => (selectStart includedStarts entry.1 entry.2).isSome)
        verifiedFromSeq := latestStart includedStarts entries
        hashChainValid := report.hashChainValid &&
          errors.all List.isEmpty } := by
  intro entries errors
  rcases foldl_recordStart includedStarts entries report none with ⟨hReport, hLatest⟩
  simp only [verifyChain, foldl_recordChainErrors, selectStarts,
    entries, latestStart, errors] at hReport hLatest ⊢
  rw [hReport, hLatest]
  simp

end Tracelane.Verifier
