import Mathlib.Data.List.Sort
import Mathlib.Logic.Function.Basic
import Tracelane.Gateway.Ledger
import Tracelane.Lib.Run
import Tracelane.Lib.Sha256

/-
  The append transaction, `append_atomic_batch`, and the rows `append_pg_batch` builds in it.

  A transaction that fails leaves the database as it was; one that commits inserts the rows of the
  batch and moves the head to the last of them.
-/

namespace Tracelane.Gateway

open List Function Except
open Transition

variable (sha256 : Bytes → Hash)

--
-- Database
--

/- The tenants' ledgers and the ids of `audit_appended`, whose key is the event id alone. -/
structure Db where
  ledgers : TenantId → Ledger := fun _ => {}
  appended : List String := []

/- An event with its payload as canonical JSON. -/
structure PendingLedgerRow where
  eventType : Text
  actor : Text
  payloadJson : Text
deriving DecidableEq

/- What a committed batch hands back. -/
structure AtomicBatchAppend where
  firstSeq : Nat
  prevHash : Hash
  rowHashes : List Hash
  kept : List Nat
  rows : List AuditLogRow

/- `filter(|id| seen.insert(*id))`. -/
def filterSeen : List String → List String → List String
| _, [] => []
| seen, id :: ids =>
    if id ∈ seen then filterSeen seen ids
    else id :: filterSeen (id :: seen) ids

/- The ids the dedup insert returns. -/
def freshIds (appended ids : List String) : List String :=
  (filterSeen [] ids).filter (fun id => id ∉ appended)

/- Where the new ids first occur in the batch, in order. -/
def keptIndices (appended ids : List String) : List Nat :=
  ((freshIds appended ids).map (fun id => ids.idxOf id)).insertionSort (· ≤ ·)

--
-- Transaction
--

def genesisLastSeq : Int := -1

/- `last_seq + 1`.  A sum past `i64::MAX` wraps to a negative number and is refused as one. -/
def nextSeq (lastSeq : Int) : Except String Nat :=
  if 0 ≤ lastSeq + 1 ∧ lastSeq + 1 < i64Size then
    .ok (lastSeq + 1).toNat
  else
    .error "audit_chain_state.last_seq is corrupt (negative)"

def readPrevHash (lastRowHash : Bytes) : Except String Hash :=
  match ByteArr.ofBytes? 32 lastRowHash with
  | some h => .ok h
  | none => .error s!"audit_chain_state.last_row_hash is {lastRowHash.length} bytes, expected 32"

/- The transaction once the events to append are known. -/
def appendKept (db : Db) (tenantId : TenantId) (genesisPrevHash : Hash) (kept : List Nat)
    (buildRows : Nat → Hash → List Nat → Except String (List AuditLogRow)) :
    Except String (AtomicBatchAppend × Db) := do
  let ledger := db.ledgers tenantId
  -- A first append inserts the genesis head and locks it.
  let head := ledger.head.getD ⟨genesisLastSeq, genesisPrevHash.bytes⟩
  let prevHash ← readPrevHash head.lastRowHash
  let firstSeq ← nextSeq head.lastSeq
  let rows ← buildRows firstSeq prevHash kept
  if rows.length ≠ kept.length then
    .error
      (s!"append_atomic_batch: build_rows returned {rows.length} rows for {kept.length}" ++
        " events — refusing to advance the head")
  else
    let rowHashes ←
      rows.mapM (fun row => decodeHashHex row.rowHash)
    let ledger ← insertRowsTx ledger rows
    let lastSeqNew := firstSeq + (kept.length - 1)
    match rowHashes.getLast? with
    | none => .error "index out of bounds"
    | some last =>
        .ok
          (⟨firstSeq, prevHash, rowHashes, kept, rows⟩,
            { db with
              ledgers := update db.ledgers tenantId
                { ledger with
                  head :=
                    some ⟨asI64 lastSeqNew, last.bytes⟩ } })

def appendAtomicBatch (db : Db) (tenantId : TenantId) (genesisPrevHash : Hash)
    (dedup : Option (List String)) (count : Nat)
    (buildRows : Nat → Hash → List Nat → Except String (List AuditLogRow)) :
    Except String (Option AtomicBatchAppend × Db) :=
  if count = 0 then .ok (none, db)
  else
    match dedup with
    | none =>
        (appendKept db tenantId genesisPrevHash (List.range count) buildRows).map
          (fun done => (some done.1, done.2))
    | some ids =>
        if ids.length ≠ count then
          .error s!"append_atomic_batch: {ids.length} event ids for {count} events"
        else
          let kept := keptIndices db.appended ids
          -- An all-duplicate batch rolls back.
          if kept.isEmpty then .ok (none, db)
          else
            (appendKept
              { db with appended := db.appended ++ freshIds db.appended ids }
              tenantId genesisPrevHash kept buildRows).map
              (fun done => (some done.1, done.2))

/- The closure: chain the kept events over the claimed seqs. -/
def buildRows (tenantId : TenantId) (items : List PendingLedgerRow) (eventTime : Int) :
    Nat → Hash → List Nat → Except String (List AuditLogRow)
| _, _, [] => .ok []
| seq, prev, idx :: kept =>
    match items[idx]? with
    | none => .error "index out of bounds"
    | some item =>
        if hSeq : seq < u64Size then
          let rowHash :=
            rowHashV2 sha256 prev tenantId seq item.eventType item.actor item.payloadJson
          (buildRows tenantId items eventTime (seq + 1) rowHash kept).map
            (fun rows =>
              { tenantId := tenantId
                seq := seq
                eventTime := eventTime
                eventType := item.eventType
                actor := item.actor
                payload := item.payloadJson
                prevHash := hexEncode prev.bytes
                rowHash := hexEncode rowHash.bytes
                seq_lt := hSeq } :: rows)
        else .error "attempt to add with overflow"

/- The database half of `append_pg_batch`. -/
def appendPgBatch (db : Db) (tenantId : TenantId)
    (items : List PendingLedgerRow) (eventIds : Option (List String)) (eventTime : Int) :
    Except String (Option AtomicBatchAppend × Db) :=
  appendAtomicBatch db tenantId (genesisPrevHash sha256 tenantId)
    eventIds items.length
    (buildRows sha256 tenantId items eventTime)

--
-- Chains
--

/-
  A row continues the chain: it has the expected seq and the
  previous hash, and its own hash is that of its content.
-/
structure Links (tenantId : TenantId) (entry : Nat × Hash) (row : AuditLogRow)
    (next : Nat × Hash) : Prop where
  tenant : row.tenantId = tenantId
  seq : row.seq = entry.1
  prevHash : hexDecode row.prevHash = .ok entry.2
  hash : next.2 = rowHashV2 sha256 entry.2 tenantId row.seq row.eventType row.actor row.payload
  rowHash : hexDecode row.rowHash = .ok next.2
  nextSeq : next.1 = entry.1 + 1

variable {tenantId : TenantId} {rows : List AuditLogRow}
variable {entry next : Nat × Hash}

section

variable (hRun : Run (Links sha256 tenantId) entry rows next)
include hRun

/- The seqs of linked rows count up from the first. -/
theorem run_links_seqs :
    rows.map AuditLogRow.seq = List.range' entry.1 rows.length ∧
      next.1 = entry.1 + rows.length := by
  induction hRun with
  | nil => simp
  | cons hLink _ ih =>
    rcases ih with ⟨hSeqs, hNext⟩
    rw [map_cons, length_cons, range'_succ, hSeqs, hNext, hLink.seq, hLink.nextSeq]
    exact ⟨rfl, by omega⟩

theorem run_links_sorted :
    rows.Pairwise (fun a b => a.seq < b.seq) := by
  have hSeqs := (run_links_seqs sha256 hRun).1
  have hRange : (rows.map AuditLogRow.seq).Pairwise (· < ·) := by
    rw [hSeqs]
    exact pairwise_lt_range'
  rwa [pairwise_map] at hRange

/- A non-empty chain ends in its last row's hash. -/
theorem run_links_last {row : AuditLogRow} (hLast : rows.getLast? = some row) :
    hexDecode row.rowHash = .ok next.2 ∧ next.1 = row.seq + 1 := by
  rcases getLast?_eq_some_iff.mp hLast with ⟨init, rfl⟩
  rcases Run.append_iff.mp hRun with ⟨entry', _, hStep⟩
  rcases Run.cons_iff.mp hStep with ⟨next', hLink, hNil⟩
  rw [Run.nil_iff] at hNil
  subst hNil
  exact ⟨hLink.rowHash, by rw [hLink.nextSeq, hLink.seq]⟩

end

/- The content of an event in a row. -/
def AuditLogRow.event (row : AuditLogRow) : PendingLedgerRow where
  eventType := row.eventType
  actor := row.actor
  payloadJson := row.payload

variable {items : List PendingLedgerRow} {eventTime : Int}

variable {kept : List Nat} {db db' : Db} {ledger : Ledger}

/- The closure's rows are linked and hold the kept events. -/
theorem buildRows_spec {seq : Nat} {prev : Hash}
    (hBuild : buildRows sha256 tenantId items eventTime seq prev kept = .ok rows) :
    (∃ last, Run (Links sha256 tenantId) (seq, prev) rows (seq + kept.length, last)) ∧
      List.Forall₂ (fun idx row => items[idx]? = some row.event) kept rows := by
  induction kept generalizing seq prev rows with
  | nil =>
    cases hBuild
    exact ⟨⟨prev, .nil _⟩, .nil⟩
  | cons idx kept ih =>
    unfold buildRows at hBuild
    split at hBuild
    · cases hBuild
    · rename_i item hItem
      split at hBuild
      · rename_i hSeq
        rcases map_eq_ok_iff.mp hBuild with ⟨rest, hRest, rfl⟩
        rcases ih hRest with ⟨⟨last, hRun⟩, hItems⟩
        refine ⟨⟨last, ?_⟩, .cons hItem hItems⟩
        rw [Run.cons_iff, length_cons, Nat.add_comm kept.length, ← Nat.add_assoc]
        refine ⟨_, ?_, hRun⟩
        exact ⟨rfl, rfl, hexDecode_hexEncode _, rfl, hexDecode_hexEncode _, rfl⟩
      · cases hBuild

--
-- Committed Batches
--

theorem decodeHashHex_eq_ok_iff (s : String) (h : Hash) :
    decodeHashHex s = .ok h ↔ hexDecode s = .ok h := by
  unfold decodeHashHex hexDecode
  split
  · simp
  · cases (hexPairs (utf8 s)).bind (ByteArr.ofBytes? 32) <;> simp

/-
  A committed batch: linked rows that continue the ledger's head and hold the kept events, inserted
  with the head that their last row gives.
-/
structure Committed (tenantId : TenantId) (items : List PendingLedgerRow)
    (ledger : Ledger) (done : AtomicBatchAppend) (ledger' : Ledger) : Prop where
  head :
    ledger.head.getD ⟨genesisLastSeq, (genesisPrevHash sha256 tenantId).bytes⟩ =
      ⟨(done.firstSeq : Int) - 1, done.prevHash.bytes⟩
  events : List.Forall₂ (fun idx row => items[idx]? = some row.event) done.kept done.rows
  hashes : List.Forall₂ (fun row h => hexDecode row.rowHash = .ok h) done.rows done.rowHashes
  nonempty : done.rows ≠ []
  fits : ∀ row ∈ done.rows, row.seq < i64Size
  commits :
    ∃ last,
      Run (Links sha256 tenantId) (done.firstSeq, done.prevHash)
          done.rows (done.firstSeq + done.rows.length, last) ∧
        ledger' =
          { ledger with
            rows := ledger.rows.insertAll done.rows
            head :=
              some ⟨(done.firstSeq + done.rows.length : Int) - 1,
                last.bytes⟩ }

theorem nextSeq_eq_ok {lastSeq : Int} {firstSeq : Nat} (hNext : nextSeq lastSeq = .ok firstSeq) :
    lastSeq = (firstSeq : Int) - 1 := by
  unfold nextSeq at hNext
  split at hNext <;> cases hNext
  rename_i hRange
  omega

theorem readPrevHash_eq_ok {bytes : Bytes} {h : Hash} (hRead : readPrevHash bytes = .ok h) :
    bytes = h.bytes := by
  unfold readPrevHash at hRead
  split at hRead <;> cases hRead
  rename_i h' hArr
  exact ByteArr.ofBytes?_eq_some_iff.mp hArr

theorem getLast_rel {α β : Type} {R : α → β → Prop} {xs : List α} {ys : List β}
    (hRel : List.Forall₂ R xs ys) {x : α} {y : β} (hX : xs.getLast? = some x)
    (hY : ys.getLast? = some y) :
    R x y := by
  rcases getLast?_eq_some_iff.mp hX with ⟨init, rfl⟩
  rcases getLast?_eq_some_iff.mp hY with ⟨init', rfl⟩
  have hReverse := rel_reverse hRel
  simp only [reverse_append, reverse_singleton, singleton_append, forall₂_cons] at hReverse
  exact hReverse.1

variable {done : AtomicBatchAppend}

theorem appendKept_eq_ok
    (hAppend :
      appendKept db tenantId (genesisPrevHash sha256 tenantId)
          kept (buildRows sha256 tenantId items eventTime) =
        .ok (done, db')) :
    ∃ ledger',
      Committed sha256 tenantId items (db.ledgers tenantId) done ledger' ∧
        done.kept = kept ∧
        db' =
          { db with
            ledgers :=
              update db.ledgers tenantId ledger' } := by
  unfold appendKept at hAppend
  simp only [bind_eq_ok_iff] at hAppend
  rcases hAppend with ⟨prevHash, hPrev, firstSeq, hFirst, rows, hBuild, hAppend⟩
  split at hAppend
  · cases hAppend
  · rename_i hLen
    simp only [bind_eq_ok_iff, mapM_eq_ok_iff, insertRowsTx_eq_ok_iff] at hAppend
    rcases hAppend with ⟨hashes, hHashes, ledger, ⟨hFits, rfl⟩, hAppend⟩
    split at hAppend
    · cases hAppend
    · rename_i last hLast
      rcases buildRows_spec sha256 hBuild with ⟨⟨final, hRun⟩, hEvents⟩
      have hLengths : rows.length = kept.length := not_not.mp hLen
      -- The last decoded hash is where the chain ends.
      have hNonempty : rows ≠ [] := by
        intro hNil
        subst hNil
        cases hHashes
        cases hLast
      have hRow := getLast?_eq_some_getLast hNonempty
      have hFinal : final = last := by
        have hDecoded := getLast_rel hHashes hRow hLast
        rw [decodeHashHex_eq_ok_iff, (run_links_last sha256 hRun hRow).1] at hDecoded
        exact ok.inj hDecoded
      have hSeq := (run_links_last sha256 hRun hRow).2
      have hTop := hFits _ (getLast_mem hNonempty)
      have hPos : 0 < kept.length := by
        rw [← hLengths]
        exact length_pos_iff.mpr hNonempty
      have hHead : asI64 (firstSeq + (kept.length - 1)) = (firstSeq + rows.length : Int) - 1 := by
        unfold asI64
        simp only at hSeq
        rw [if_pos (by omega)]
        omega
      cases hAppend
      refine ⟨_, ⟨?_, hEvents, ?_, hNonempty, hFits, last, ?_, rfl⟩, rfl, ?_⟩
      · rw [← readPrevHash_eq_ok hPrev, ← nextSeq_eq_ok hFirst]
      · simpa only [decodeHashHex_eq_ok_iff] using hHashes
      · rw [hLengths, ← hFinal]
        exact hRun
      · simp only [hHead]

/- The indices and the dedup set of a committed batch. -/
def keptFor (appended : List String) (count : Nat) : Option (List String) → List Nat
| none => List.range count
| some ids => keptIndices appended ids

def appendedAfter (appended : List String) : Option (List String) → List String
| none => appended
| some ids => appended ++ freshIds appended ids

/-
  What `append_pg_batch` does when it succeeds: nothing, if no event is new, or one committed batch.
-/
theorem appendPgBatch_eq_ok {eventIds : Option (List String)} {outcome : Option AtomicBatchAppend}
    (hAppend : appendPgBatch sha256 db tenantId items eventIds eventTime = .ok (outcome, db')) :
    (∀ ids ∈ eventIds, items ≠ [] → ids.length = items.length) ∧
      ((outcome = none ∧ db' = db ∧ (items = [] ∨ keptFor db.appended items.length eventIds = [])) ∨
        ∃ done ledger',
          outcome = some done ∧
            Committed sha256 tenantId items (db.ledgers tenantId) done ledger' ∧
            done.kept = keptFor db.appended items.length eventIds ∧
            db' =
              { ledgers :=
                  update db.ledgers tenantId ledger'
                appended := appendedAfter db.appended eventIds }) := by
  unfold appendPgBatch appendAtomicBatch at hAppend
  split_ifs at hAppend with hCount
  · have hNil : items = [] := length_eq_zero_iff.mp hCount
    cases hAppend
    exact ⟨fun _ _ hNe => absurd hNil hNe, .inl ⟨rfl, rfl, .inl hNil⟩⟩
  · split at hAppend
    · rcases map_eq_ok_iff.mp hAppend with ⟨⟨done, db''⟩, hKept, hDone⟩
      cases hDone
      rcases appendKept_eq_ok sha256 hKept with ⟨ledger', hCommitted, hIndices, rfl⟩
      exact ⟨by simp, .inr ⟨done, ledger', rfl, hCommitted, hIndices, rfl⟩⟩
    · rename_i ids
      split at hAppend
      · cases hAppend
      · rename_i hLen
        have hLengths : ids.length = items.length := not_not.mp hLen
        refine ⟨fun ids' hIds _ => ?_, ?_⟩
        · rw [Option.mem_some_iff] at hIds
          rw [← hIds]
          exact hLengths
        · simp only at hAppend
          split at hAppend
          · rename_i hNone
            cases hAppend
            exact .inl ⟨rfl, rfl, .inr (isEmpty_iff.mp hNone)⟩
          · rcases map_eq_ok_iff.mp hAppend with ⟨⟨done, db''⟩, hKept, hDone⟩
            cases hDone
            rcases appendKept_eq_ok sha256 hKept with ⟨ledger', hCommitted, hIndices, rfl⟩
            exact .inr ⟨done, ledger', rfl, hCommitted, hIndices, rfl⟩

--
-- Sound Ledgers
--

/- The rows of a ledger are linked from genesis, and the head names the last of them. -/
def Ledger.Sound (tenantId : TenantId) (ledger : Ledger) : Prop :=
  ∃ last,
    Run (Links sha256 tenantId)
        (0, genesisPrevHash sha256 tenantId) ledger.rows.rows
        (ledger.rows.rows.length, last) ∧
      ledger.rows.rows.length ≤ i64Size ∧
      ledger.head =
        if ledger.rows.rows = [] then none
        else
          some ⟨(ledger.rows.rows.length : Int) - 1, last.bytes⟩

theorem Ledger.sound_empty (tenantId : TenantId) :
    Ledger.Sound sha256 tenantId {} :=
  ⟨genesisPrevHash sha256 tenantId, .nil _, Nat.zero_le _, rfl⟩

/- Rows that continue a chain are appended by an insert. -/
theorem rows_insertAll_of_links {entry mid next : Nat × Hash}
    {table : KeyTable AuditLogRow AuditLogRow.seq}
    (hTable : Run (Links sha256 tenantId) entry table.rows mid)
    (hRows : Run (Links sha256 tenantId) mid rows next) :
    (table.insertAll rows).rows = table.rows ++ rows :=
  KeyTable.rows_insertAll_append (run_links_sorted sha256 (hTable.append hRows))

/- The next seq and previous hash of a sound ledger. -/
theorem Ledger.Sound.head_getD (hSound : ledger.Sound sha256 tenantId) :
    ∃ last : Hash,
      Run (Links sha256 tenantId)
          (0, genesisPrevHash sha256 tenantId) ledger.rows.rows
          (ledger.rows.rows.length, last) ∧
        ledger.head.getD ⟨genesisLastSeq, (genesisPrevHash sha256 tenantId).bytes⟩ =
          ⟨(ledger.rows.rows.length : Int) - 1, last.bytes⟩ := by
  rcases hSound with ⟨last, hRun, _, hHead⟩
  refine ⟨last, hRun, ?_⟩
  rw [hHead]
  split_ifs with hNil
  · rw [hNil] at hRun ⊢
    have hLast := congrArg Prod.snd (Run.nil_iff.mp hRun)
    simp only at hLast
    simp [hLast, genesisLastSeq]
  · rfl

/- A committed batch keeps a ledger sound. -/
theorem Committed.sound {ledger' : Ledger}
    (hCommitted : Committed sha256 tenantId items ledger done ledger')
    (hSound : ledger.Sound sha256 tenantId) :
    ledger'.Sound sha256 tenantId ∧
      done.firstSeq = ledger.rows.rows.length ∧
      ledger'.rows.rows = ledger.rows.rows ++ done.rows := by
  rcases hSound.head_getD with ⟨prev, hRun, hHead⟩
  rw [hCommitted.head, ChainState.mk.injEq] at hHead
  have hFirst : done.firstSeq = ledger.rows.rows.length := by omega
  have hPrev : done.prevHash = prev := ByteArr.bytes_injective hHead.2
  rcases hCommitted.commits with ⟨last, hBatch, rfl⟩
  rw [hFirst, hPrev] at hBatch
  have hRows := rows_insertAll_of_links sha256 hRun hBatch
  refine ⟨⟨last, ?_, ?_, ?_⟩, hFirst, hRows⟩
  · simp only [hRows, length_append]
    exact hRun.append hBatch
  · -- The last seq of the batch fits, so all rows do.
    have hLast := getLast?_eq_some_getLast hCommitted.nonempty
    have hTop := hCommitted.fits _ (getLast_mem hCommitted.nonempty)
    have hNext := (run_links_last sha256 hBatch hLast).2
    simp only [hRows, length_append]
    simp only at hNext
    omega
  · simp only [hRows, append_eq_nil_iff, hCommitted.nonempty, and_false, if_false, hFirst,
      length_append]
    push_cast
    rfl

--
-- Runs of Transactions
--

/-
  One call of `append_pg_batch`, with the time it reads and
  whether its transaction is aborted from outside.
-/
structure AppendCall where
  tenantId : TenantId
  items : List PendingLedgerRow
  eventIds : Option (List String) := none
  eventTime : Int := 0
  aborted : Bool := false

/- The row lock serializes calls, so each is one step. -/
def applyCall (db : Db) (call : AppendCall) : Db :=
  if call.aborted then db
  else
    match
      appendPgBatch sha256 db call.tenantId call.items call.eventIds call.eventTime with
    | .ok (_, db') => db'
    | .error _ => db

def runAppends (calls : List AppendCall) : Db :=
  calls.foldl (applyCall sha256) {}

/- A call keeps every ledger sound. -/
theorem applyCall_sound (db : Db) (call : AppendCall)
    (hSound : ∀ T, (db.ledgers T).Sound sha256 T) (T : TenantId) :
    ((applyCall sha256 db call).ledgers T).Sound sha256 T := by
  unfold applyCall
  split
  · exact hSound T
  · split
    · rename_i outcome db' hAppend
      rcases (appendPgBatch_eq_ok sha256 hAppend).2 with
        ⟨_, rfl, _⟩ | ⟨done, ledger', _, hCommitted, _, rfl⟩
      · exact hSound T
      · by_cases hTenant : T = call.tenantId
        · subst hTenant
          simp only [update_self]
          exact (hCommitted.sound sha256 (hSound _)).1
        · simp only [update_of_ne hTenant]
          exact hSound T
    · exact hSound T

theorem runAppends_sound (calls : List AppendCall) (T : TenantId) :
    ((runAppends sha256 calls).ledgers T).Sound sha256 T := by
  unfold runAppends
  refine foldlRecOn calls (applyCall sha256)
    (motive := fun db => ∀ T, (db.ledgers T).Sound sha256 T) ?_ ?_ T
  · exact Ledger.sound_empty sha256
  · intro db hSound call _
    exact applyCall_sound sha256 db call hSound

def sampleTenant : TenantId :=
  ⟨List.replicate 16 0x2a, rfl⟩

def sampleEvent : PendingLedgerRow where
  eventType := ⟨"audit.read", by decide⟩
  actor := ⟨"user", by decide⟩
  payloadJson := ⟨"null", by decide⟩

/- One event, appended at a time. -/
def sampleCall (eventTime : Int) : AppendCall where
  tenantId := sampleTenant
  items := [sampleEvent]
  eventTime := eventTime

end Tracelane.Gateway
