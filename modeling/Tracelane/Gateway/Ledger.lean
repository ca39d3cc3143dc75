import Tracelane.Gateway.AuditFormat
import Tracelane.Lib.Fallible
import Tracelane.Lib.KeyTable

/-
  The canonical ledger store, `db::ledger`, for one tenant:
  its chain rows, its anchor records, and its head.

  Postgres keys the rows by seq and the anchor records by
  batch start, and keeps both as signed 64-bit numbers.
-/

namespace Tracelane.Gateway

open List Except

/- The non-negative values of a Rust `i64`. -/
abbrev i64Size : Nat := 2 ^ 63

--
-- Rows
--

/-
  One chain row.  The source holds the tenant as its text and
  parses it at every insert; times are microseconds.
-/
structure AuditLogRow where
  tenantId : TenantId
  seq : Nat
  eventTime : Int
  eventType : Text
  actor : Text
  payload : Text
  prevHash : String
  rowHash : String
  rekorEntryId : Option String := none
  signature : String := ""
  signingPubkey : String := ""
  seq_lt : seq < u64Size := by decide
deriving DecidableEq

/- The bundle of one anchored or signed batch. -/
structure AuditAnchorRecordRow where
  tenantId : TenantId
  batchStartSeq : Nat
  batchEndSeq : Nat
  merkleRoot : String
  anchorState : String
  ed25519Sig : String
  ed25519Pubkey : String
  ecdsaPubkeySpki : String := ""
  rekorLogUrl : String := ""
  rekorLogIndex : String := ""
  canonicalizedBody : String := ""
  inclusionProof : String := ""
  checkpointEnvelope : String := ""
  anchoredAt : Int
  start_lt : batchStartSeq < u64Size := by decide
  end_lt : batchEndSeq < u64Size := by decide
deriving DecidableEq

/- A row of `audit_chain_state`; the hash is a `bytea`. -/
structure ChainState where
  lastSeq : Int
  lastRowHash : Bytes
deriving DecidableEq

--
-- Store
--

/- What Postgres holds of one tenant. -/
structure Ledger where
  head : Option ChainState := none
  rows : KeyTable AuditLogRow AuditLogRow.seq := ∅
  anchors :
    KeyTable AuditAnchorRecordRow
      AuditAnchorRecordRow.batchStartSeq := ∅

/- `seq_i64`. -/
def seqI64 (seq : Nat) : Except String Nat :=
  if seq < i64Size then .ok seq
  else .error "ledger seq does not fit i64"

/- `as i64`. -/
def asI64 (seq : Nat) : Int :=
  if seq < i64Size then seq else seq - u64Size

def decodeHashHex (s : String) : Except String Hash :=
  if s.utf8ByteSize ≠ 64 then
    .error s!"hash hex is {s.utf8ByteSize} chars, expected 64"
  else
    match (hexPairs (utf8 s)).bind (ByteArr.ofBytes? 32) with
    | some h => .ok h
    | none => .error "hash hex has a non-hex char"

/- The rows whose seq is taken are dropped; one seq that does not fit refuses them all. -/
def insertRowsTx (ledger : Ledger) (rows : List AuditLogRow) : Except String Ledger := do
  let _ ← rows.mapM (fun row => seqI64 row.seq)
  .ok { ledger with rows := ledger.rows.insertAll rows }

variable {ledger : Ledger} {rows : List AuditLogRow}

variable {ledger' : Ledger} {seq limit : Nat}

theorem insertRowsTx_eq_ok_iff :
    insertRowsTx ledger rows = .ok ledger' ↔
      (∀ row ∈ rows, row.seq < i64Size) ∧
        ledger' = { ledger with rows := ledger.rows.insertAll rows } := by
  have hFits :
      (∃ seqs, rows.mapM (fun row => seqI64 row.seq) = .ok seqs) ↔
        ∀ row ∈ rows, row.seq < i64Size := by
    simp only [mapM_eq_ok_iff]
    constructor
    · rintro ⟨seqs, hSeqs⟩
      induction hSeqs with
      | nil => simp
      | @cons row seq rows seqs hSeq _ ih =>
        unfold seqI64 at hSeq
        split at hSeq
        · rename_i hLt
          exact forall_mem_cons.mpr ⟨hLt, ih⟩
        · cases hSeq
    · intro hAll
      refine ⟨rows.map AuditLogRow.seq, ?_⟩
      rw [forall₂_map_right_iff, forall₂_same]
      intro row hRow
      simp [seqI64, hAll row hRow]
  unfold insertRowsTx
  rw [bind_eq_ok_iff, exists_and_right, hFits, ok.injEq, eq_comm]

/- A record whose batch start is taken is dropped. -/
def insertAnchorRecord (ledger : Ledger) (row : AuditAnchorRecordRow) : Except String Ledger := do
  let _ ← seqI64 row.batchStartSeq
  let _ ← seqI64 row.batchEndSeq
  .ok { ledger with anchors := ledger.anchors.insert row }

--
-- Reads
--

def maxSeq (ledger : Ledger) : Option Nat :=
  (ledger.rows.rows.map AuditLogRow.seq).max?

def lastAnchoredEnd (ledger : Ledger) : Option Nat :=
  (ledger.anchors.rows.map AuditAnchorRecordRow.batchEndSeq).max?

/- The hashes of the stored rows with seqs in the range. -/
def readRowHashes (ledger : Ledger) (startSeq endSeq : Nat) : Except String (List Hash) := do
  let lo ← seqI64 startSeq
  let hi ← seqI64 endSeq
  (ledger.rows.rows.filter (fun row => lo ≤ row.seq ∧ row.seq ≤ hi)).mapM
    (fun row => decodeHashHex row.rowHash)

/- The most rows a read returns. -/
def pageSize : Nat := 50000

/- `limit.clamp(1, PAGE)`. -/
def clampLimit (limit : Nat) : Nat :=
  max 1 (min limit pageSize)

def readRowsFrom (ledger : Ledger) (fromSeq limit : Nat) : Except String (List AuditLogRow) := do
  let lo ← seqI64 fromSeq
  .ok ((ledger.rows.rows.filter (fun row => lo ≤ row.seq)).take (clampLimit limit))

/- The records that start past a batch end, all for `none`. -/
def readAnchorRecordsAfter (ledger : Ledger) (afterEnd : Option Nat) (limit : Nat) :
    Except String (List AuditAnchorRecordRow) := do
  let _ ← afterEnd.mapM seqI64
  .ok ((ledger.anchors.rows.filter
    (fun a => afterEnd.all (· < a.batchStartSeq))).take
    (clampLimit limit))

/- A range of times, both ends included. -/
structure Window where
  sinceTime : Int
  untilTime : Int
deriving DecidableEq

def Window.has (window : Window) (time : Int) : Bool :=
  window.sinceTime ≤ time && time ≤ window.untilTime

/- The window's rows past a seq, all for `none`. -/
def readRowsInWindow (ledger : Ledger) (window : Window) (afterSeq : Option Nat)
    (limit : Nat) : Except String (List AuditLogRow) := do
  let _ ← afterSeq.mapM seqI64
  .ok ((ledger.rows.rows.filter
    (fun row => window.has row.eventTime && afterSeq.all (· < row.seq))).take
    (clampLimit limit))

/- The records anchored in the window, past a batch start. -/
def readAnchorRecordsInWindow (ledger : Ledger) (window : Window)
    (afterStart : Option Nat) (limit : Nat) :
    Except String (List AuditAnchorRecordRow) := do
  let _ ← afterStart.mapM seqI64
  .ok ((ledger.anchors.rows.filter
    (fun a => window.has a.anchoredAt && afterStart.all (· < a.batchStartSeq))).take
    (clampLimit limit))

/- The seq lies in the record's batch. -/
def AuditAnchorRecordRow.covers (a : AuditAnchorRecordRow) (seq : Nat) : Bool :=
  a.batchStartSeq ≤ seq && seq ≤ a.batchEndSeq

structure UncoveredProbe where
  seq : Nat
  ageSecs : Nat
  head : Nat
  watermark : Option Nat
deriving DecidableEq

/- The lowest seq inside no anchor batch.  A row from the future has age zero. -/
def oldestUncovered (ledger : Ledger) (now : Int) : Option UncoveredProbe :=
  (ledger.rows.rows.find? (fun row =>
    !ledger.anchors.rows.any (fun a => a.covers row.seq))).map
    (fun row =>
      { seq := row.seq
        ageSecs := ((now - row.eventTime) / 1000000).toNat
        head := (maxSeq ledger).getD 0
        watermark := lastAnchoredEnd ledger })

def nextAnchorStartAfter (ledger : Ledger) (seq : Nat) : Except String (Option Nat) := do
  let seq ← seqI64 seq
  .ok ((ledger.anchors.rows.map
    AuditAnchorRecordRow.batchStartSeq).filter
    (fun start => seq < start)).min?

theorem insertAnchorRecord_eq_ok {row : AuditAnchorRecordRow}
    (hInsert : insertAnchorRecord ledger row = .ok ledger') :
    ledger' = { ledger with anchors := ledger.anchors.insert row } := by
  unfold insertAnchorRecord at hInsert
  simp only [bind_eq_ok_iff] at hInsert
  rcases hInsert with ⟨_, _, _, _, hOk⟩
  exact (ok.inj hOk).symm

theorem clampLimit_pos (limit : Nat) :
    0 < clampLimit limit := by
  unfold clampLimit
  omega

theorem seqI64_eq_ok {seq' : Nat} (hSeq : seqI64 seq = .ok seq') :
    seq' = seq ∧ seq < i64Size := by
  unfold seqI64 at hSeq
  split at hSeq
  · rename_i hLt
    exact ⟨(ok.inj hSeq).symm, hLt⟩
  · cases hSeq

theorem readRowsFrom_eq_ok {fromSeq : Nat} (hRead : readRowsFrom ledger fromSeq limit = .ok rows) :
    fromSeq < i64Size ∧
      rows = (ledger.rows.rows.filter (fun row => fromSeq ≤ row.seq)).take (clampLimit limit) := by
  unfold readRowsFrom at hRead
  rcases bind_eq_ok_iff.mp hRead with ⟨lo, hLo, hOk⟩
  rcases seqI64_eq_ok hLo with ⟨rfl, hLt⟩
  exact ⟨hLt, (ok.inj hOk).symm⟩

theorem readAnchorRecordsAfter_eq_ok {afterEnd : Option Nat} {anchors : List AuditAnchorRecordRow}
    (hRead : readAnchorRecordsAfter ledger afterEnd limit = .ok anchors) :
    anchors =
      (ledger.anchors.rows.filter (fun a => afterEnd.all (· < a.batchStartSeq))).take
        (clampLimit limit) := by
  unfold readAnchorRecordsAfter at hRead
  rcases bind_eq_ok_iff.mp hRead with ⟨_, _, hOk⟩
  exact (ok.inj hOk).symm

/- The probe finds a stored row that no record covers. -/
theorem oldestUncovered_eq_some {now : Int} {probe : UncoveredProbe}
    (hProbe : oldestUncovered ledger now = some probe) :
    (∃ row ∈ ledger.rows.rows, row.seq = probe.seq) ∧
      (∀ a ∈ ledger.anchors.rows, a.covers probe.seq = false) ∧
      (maxSeq ledger).getD 0 = probe.head := by
  unfold oldestUncovered at hProbe
  rcases Option.map_eq_some_iff.mp hProbe with ⟨row, hFind, rfl⟩
  have hFree := find?_some hFind
  simp only [Bool.not_eq_true', any_eq_false, Bool.not_eq_true] at hFree
  exact ⟨⟨row, mem_of_find?_eq_some hFind, rfl⟩, hFree, rfl⟩

/- No record starts between the seq and the start found. -/
theorem nextAnchorStartAfter_eq_ok {next : Option Nat}
    (hNext : nextAnchorStartAfter ledger seq = .ok next)
    {a : AuditAnchorRecordRow} (hMem : a ∈ ledger.anchors.rows)
    (hAfter : seq < a.batchStartSeq) :
    ∃ start, next = some start ∧ start ≤ a.batchStartSeq := by
  unfold nextAnchorStartAfter at hNext
  rcases bind_eq_ok_iff.mp hNext with ⟨seq', hSeq, hOk⟩
  rcases seqI64_eq_ok hSeq with ⟨rfl, _⟩
  have hFound :
      a.batchStartSeq ∈
        (ledger.anchors.rows.map AuditAnchorRecordRow.batchStartSeq).filter
          (fun start => seq' < start) := by
    rw [mem_filter]
    exact ⟨mem_map_of_mem hMem, by simpa using hAfter⟩
  have hMin := ok.inj hOk
  cases next with
  | none =>
    rw [min?_eq_none_iff] at hMin
    rw [hMin] at hFound
    cases hFound
  | some start =>
    exact ⟨start, rfl, (min?_eq_some_iff.mp hMin).2 _ hFound⟩

end Tracelane.Gateway
