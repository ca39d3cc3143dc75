import Tracelane.Gateway.Append

/-
  Anchoring one tenant's ledger: the threshold loop of `append_pg_batch`, the age sweep
  `flush_aged_batches`, and the tasks that record the batches both dispatch.

  The threshold loop trusts a watermark in memory, advanced when a batch is dispatched; the sweep
  trusts the stored records, written when one is done.  The steps of all of them interleave freely.
-/

namespace Tracelane.Gateway

open List Nat Option
open Transition Function

--
-- Batches
--

/- An inclusive range of seqs, both of them `u64`. -/
@[ext] structure Batch where
  startSeq : Nat
  endSeq : Nat
  start_lt : startSeq < u64Size
  end_lt : endSeq < u64Size

instance instDecidableEqBatch : DecidableEq Batch :=
  fun _ _ => decidable_of_iff _ Batch.ext_iff.symm

def Batch.ofSeqs (startSeq endSeq : Nat) : Batch where
  startSeq := startSeq % u64Size
  endSeq := endSeq % u64Size
  start_lt := mod_lt _ (by decide)
  end_lt := mod_lt _ (by decide)

/- `u64` addition of a release build. -/
def wrappingAdd (a b : Nat) : Nat :=
  (a + b) % u64Size

def anchorBatchStart (lastAnchoredEnd : Option Nat) (endSeq anchorEvery : Nat) : Nat :=
  let byThreshold := wrappingAdd endSeq 1 - anchorEvery
  match lastAnchoredEnd with
  | some prevEnd => max byThreshold (wrappingAdd prevEnd 1)
  | none => byThreshold

/- Monotonic: a lower value never rewinds the watermark. -/
def setLastAnchoredEnd (lastAnchoredEnd : Option Nat) (endSeq : Nat) : Option Nat :=
  match lastAnchoredEnd with
  | some prev => if prev < endSeq then some endSeq else some prev
  | none => some endSeq

def maxSweepBatch : Nat := 10000

/- `(end_seq - start_seq + 1) as usize`, which wraps. -/
def expectedLeaves (batch : Batch) : Nat :=
  (batch.endSeq + u64Size - batch.startSeq + 1) % u64Size

/-
  The first half of `anchor_batch_from_store`: the leaf set,
  unless it cannot be read or has the wrong size.
-/
def anchorLeaves (ledger : Ledger) (batch : Batch) : Option (List Hash) :=
  match readRowHashes ledger batch.startSeq batch.endSeq with
  | .ok hashes =>
      if hashes.length = expectedLeaves batch then some hashes
      else none
  | .error _ => none

structure RekorV2Receipt where
  logUrl : String
  logIndex : String
  canonicalizedBodyB64 : String
  inclusionProof : String
  checkpointEnvelope : String
deriving DecidableEq

/- What signing and submitting a batch root came to. -/
structure BatchAnchorOutcome where
  ed25519SigB64 : String
  ed25519PubkeyB64 : String
  anchored : Bool := false
  receipt : Option RekorV2Receipt := none
  ecdsaSpkiB64 : String := ""
deriving DecidableEq

def BatchAnchorOutcome.isSigned (outcome : BatchAnchorOutcome) : Bool :=
  !outcome.ed25519SigB64.isEmpty

def buildAnchorRecord (tenantId : TenantId) (root : Hash) (batch : Batch)
    (outcome : BatchAnchorOutcome) (anchoredAt : Int) : AuditAnchorRecordRow where
  tenantId := tenantId
  batchStartSeq := batch.startSeq
  batchEndSeq := batch.endSeq
  merkleRoot := hexEncode root.bytes
  anchorState :=
    if outcome.anchored then "anchored" else "unanchored"
  ed25519Sig := outcome.ed25519SigB64
  ed25519Pubkey := outcome.ed25519PubkeyB64
  ecdsaPubkeySpki := outcome.ecdsaSpkiB64
  rekorLogUrl := (outcome.receipt.map (·.logUrl)).getD ""
  rekorLogIndex := (outcome.receipt.map (·.logIndex)).getD ""
  canonicalizedBody := (outcome.receipt.map (·.canonicalizedBodyB64)).getD ""
  inclusionProof := (outcome.receipt.map (·.inclusionProof)).getD ""
  checkpointEnvelope := (outcome.receipt.map (·.checkpointEnvelope)).getD ""
  anchoredAt := anchoredAt
  start_lt := batch.start_lt
  end_lt := batch.end_lt

namespace Anchoring

--
-- State
--

/-
  The seqs a threshold loop has still to close a batch at,
  and the watermark it read for the first of them.
-/
structure ThresholdLoop where
  seqs : List Nat
  prevEnd : Option (Option Nat) := none
deriving DecidableEq

inductive Origin where
| threshold
| sweep
deriving DecidableEq

/-
  How far a batch has come.  A sweep's batch is probed, bounded by the next record, and dispatched
  under the claim; a threshold batch is dispatched at once.
-/
inductive Stage where
| probed
| bounded
| dispatched
| leaves (hashes : List Hash)
| settled
| released
deriving DecidableEq

/- One batch on its way. -/
structure Flight where
  origin : Origin
  batch : Batch
  stage : Stage
deriving DecidableEq

/- The batch may still be recorded. -/
def Flight.isOpen (f : Flight) : Bool :=
  f.stage ≠ .settled ∧ f.stage ≠ .released

/- The sweep holds the tenant's advisory lock. -/
def Flight.holdsClaim (f : Flight) : Bool :=
  f.origin = .sweep ∧ f.stage ≠ .probed ∧ f.stage ≠ .bounded ∧ f.stage ≠ .released

structure State where
  db : Db := {}
  watermark : Option Nat := none
  loops : List ThresholdLoop := []
  flights : List Flight := []
  dispatched : List Batch := []

/-
  One step of some party; the number is its place in the state's list.  A batch is abandoned when
  its task or the sweep dies.
-/
inductive Event where
| append
    (items : List PendingLedgerRow)
    (eventIds : Option (List String))
    (eventTime : Int)
| readWatermark (i : Nat)
| dispatch (i : Nat)
| probe (now : Int)
| bound (i : Nat)
| claim (i : Nat)
| readLeaves (i : Nat)
| record
    (i : Nat)
    (outcome : BatchAnchorOutcome)
    (anchoredAt : Int)
    (reached : Bool)
| release (i : Nat)
| finish (i : Nat)
| abandon (i : Nat)
deriving DecidableEq

--
-- Steps
--

variable
    (sha256 : Bytes → Hash)
    (T : TenantId)
    (anchorEvery maxAgeSecs : Nat)

def State.ledger (s : State) : Ledger :=
  s.db.ledgers T

/- The batch-final seqs among those an append committed. -/
def thresholdSeqs (done : AtomicBatchAppend) : List Nat :=
  if 0 < anchorEvery then
    (List.range' done.firstSeq done.rowHashes.length).filter
      (fun seq => (seq + 1) % anchorEvery = 0)
  else []

def stepAppend (s : State) (items : List PendingLedgerRow)
    (eventIds : Option (List String)) (eventTime : Int) : State :=
  match
    appendPgBatch sha256 s.db T items eventIds eventTime with
  | .ok (some done, db) =>
      { s with
        db := db
        loops := s.loops ++ [⟨thresholdSeqs anchorEvery done, none⟩] }
  | .ok (none, db) => { s with db := db }
  | .error _ => s

/- What the sweep makes of the oldest uncovered row. -/
def sweepBatch (probe : UncoveredProbe) : Option Batch :=
  let isHole := probe.watermark.any (fun w => probe.seq ≤ w)
  if !isHole && probe.ageSecs < maxAgeSecs then none
  else if probe.seq > probe.head then none
  else
    some (.ofSeqs probe.seq (min probe.head (probe.seq + (maxSweepBatch - 1))))

def stepProbe (s : State) (now : Int) : State :=
  match
    (oldestUncovered (s.ledger T) now).bind (sweepBatch maxAgeSecs) with
  | none => s
  | some batch =>
      { s with flights := s.flights ++ [⟨.sweep, batch, .probed⟩] }

/- The batch stops below the next record's start. -/
def boundBatch (ledger : Ledger) (batch : Batch) : Option Batch :=
  match nextAnchorStartAfter ledger batch.startSeq with
  | .error _ => none
  | .ok next =>
      let endSeq :=
        match next with
        | some nextStart => min batch.endSeq (nextStart - 1)
        | none => batch.endSeq
      if endSeq < batch.startSeq then none
      else some (.ofSeqs batch.startSeq endSeq)

/- Move a batch on, or drop it. -/
def State.advance (s : State) (i : Nat) (f : Option Flight) : State :=
  { s with
    flights :=
      match f with
      | some f => s.flights.set i f
      | none => s.flights.eraseIdx i }

/- A batch that no key signs has no record. -/
def recordBatch (ledger : Ledger) (batch : Batch) (hashes : List Hash)
    (outcome : BatchAnchorOutcome) (anchoredAt : Int) (reached : Bool) : Ledger :=
  if reached && outcome.isSigned then
    match
      insertAnchorRecord ledger
        (buildAnchorRecord T (merkleRootV2 sha256 hashes) batch outcome anchoredAt) with
    | .ok ledger' => ledger'
    | .error _ => ledger
  else ledger

def step (s : State) : Event → Option State
| .append items eventIds eventTime =>
    some (stepAppend sha256 T anchorEvery s items eventIds eventTime)
| .readWatermark i =>
    match s.loops[i]? with
    | some ⟨seq :: seqs, none⟩ =>
        some
          { s with
            loops :=
              s.loops.set i ⟨seq :: seqs, some s.watermark⟩ }
    | _ => none
| .dispatch i =>
    match s.loops[i]? with
    | some ⟨seq :: seqs, some prevEnd⟩ =>
        let batch :=
          Batch.ofSeqs (anchorBatchStart prevEnd seq anchorEvery) seq
        some
          { s with
            watermark := setLastAnchoredEnd s.watermark seq
            loops := s.loops.set i ⟨seqs, none⟩
            flights := s.flights ++ [⟨.threshold, batch, .dispatched⟩]
            dispatched := s.dispatched ++ [batch] }
    | _ => none
| .probe now => some (stepProbe T maxAgeSecs s now)
| .bound i =>
    match s.flights[i]? with
    | some ⟨.sweep, batch, .probed⟩ =>
        some (s.advance i ((boundBatch (s.ledger T) batch).map (⟨.sweep, ·, .bounded⟩)))
    | _ => none
| .claim i =>
    match s.flights[i]? with
    | some ⟨.sweep, batch, .bounded⟩ =>
        if s.flights.any Flight.holdsClaim then
          some (s.advance i none)
        else
          some
            { s.advance i (some ⟨.sweep, batch, .dispatched⟩) with
              dispatched := s.dispatched ++ [batch] }
    | _ => none
| .readLeaves i =>
    match s.flights[i]? with
    | some ⟨origin, batch, .dispatched⟩ =>
        some (s.advance i
          ((anchorLeaves (s.ledger T) batch).map (fun hashes => ⟨origin, batch, .leaves hashes⟩)))
    | _ => none
| .record i outcome anchoredAt reached =>
    match s.flights[i]? with
    | some ⟨origin, batch, .leaves hashes⟩ =>
        let ledger :=
          recordBatch sha256 T (s.ledger T) batch hashes outcome anchoredAt reached
        some
          { s.advance i
              (match origin with
              | .threshold => none
              | .sweep => some ⟨.sweep, batch, .settled⟩) with
            db :=
              { s.db with
                ledgers :=
                  Function.update s.db.ledgers T ledger } }
    | _ => none
| .release i =>
    match s.flights[i]? with
    | some ⟨.sweep, batch, .settled⟩ => some (s.advance i (some ⟨.sweep, batch, .released⟩))
    | _ => none
| .finish i =>
    match s.flights[i]? with
    | some ⟨.sweep, batch, .released⟩ =>
        some
          { s.advance i none with
            watermark :=
              setLastAnchoredEnd s.watermark batch.endSeq }
    | _ => none
| .abandon i =>
    match s.flights[i]? with
    | some _ => some (s.advance i none)
    | none => none

/- Every batch dispatched has a row, and no seq is in two records. -/
structure WellAnchored (s : State) : Prop where
  dispatched :
    ∀ batch ∈ s.dispatched,
      batch.startSeq ≤ batch.endSeq ∧
        ∃ row ∈ (s.ledger T).rows.rows, batch.startSeq ≤ row.seq ∧ row.seq ≤ batch.endSeq
  disjoint :
    ∀ a ∈ (s.ledger T).anchors.rows,
      ∀ b ∈ (s.ledger T).anchors.rows, ∀ seq, a.covers seq → b.covers seq → a = b

/- The ends of the batches recorded or still to be recorded. -/
def State.ends (s : State) : List Nat :=
  (s.ledger T).anchors.rows.map AuditAnchorRecordRow.batchEndSeq ++
    (s.flights.filter Flight.isOpen).map (fun f => f.batch.endSeq)

/-
  A threshold batch is dispatched on a watermark below its seq and not below any batch's end, and a
  sweep probes while every batch dispatched has been recorded or given up.
-/
def ordered (s : State) : Event → Bool
| .dispatch i =>
    match s.loops[i]? with
    | some ⟨seq :: _, some prevEnd⟩ =>
        prevEnd.all (· < seq) && (s.ends T).all (fun e => prevEnd.any (e ≤ ·))
    | _ => true
| .probe _ => s.flights.all (fun f => !f.isOpen)
| _ => true

--
-- Invariant
--

def Apart (a b : Batch) : Prop :=
  a.endSeq < b.startSeq ∨ b.endSeq < a.startSeq

variable {a b : Batch}

theorem Apart.symm (hApart : Apart a b) :
    Apart b a :=
  Or.symm hApart

/- A smaller batch is apart from whatever the larger one is. -/
theorem Apart.mono {a' : Batch} (hApart : Apart a b)
    (hStart : a.startSeq ≤ a'.startSeq) (hEnd : a'.endSeq ≤ a.endSeq) :
    Apart a' b := by
  unfold Apart at hApart ⊢
  omega

/- The batch of a record. -/
def recordRange (a : AuditAnchorRecordRow) : Batch where
  startSeq := a.batchStartSeq
  endSeq := a.batchEndSeq
  start_lt := a.start_lt
  end_lt := a.end_lt

/- What a batch is known to keep clear of the records. -/
def Flight.core (f : Flight) : Batch :=
  if f.stage = .probed then
    ⟨f.batch.startSeq, f.batch.startSeq, f.batch.start_lt, f.batch.start_lt⟩
  else f.batch

theorem Flight.apart_core {f : Flight}
    (hOrder : f.batch.startSeq ≤ f.batch.endSeq) (hApart : Apart f.batch b) :
    Apart f.core b := by
  unfold Flight.core
  split
  · exact hApart.mono (le_refl _) hOrder
  · exact hApart

/- The seqs of the batch are committed, and there is one. -/
def Batch.Within (batch : Batch) (ledger : Ledger) : Prop :=
  batch.startSeq ≤ batch.endSeq ∧ batch.endSeq < ledger.rows.rows.length

/- Batches that may both be recorded share no seq. -/
def KeptApart (f g : Flight) : Prop :=
  f.isOpen → g.isOpen → Apart f.batch g.batch

structure Inv (s : State) : Prop where
  sound : (s.ledger T).Sound sha256 T
  loops : ∀ loop ∈ s.loops, ∀ seq ∈ loop.seqs, 0 < anchorEvery ∧ seq < (s.ledger T).rows.rows.length
  flights : s.flights.Pairwise KeptApart
  within : ∀ f ∈ s.flights, f.isOpen → Batch.Within f.batch (s.ledger T)
  apart : ∀ f ∈ s.flights, f.isOpen → ∀ a ∈ (s.ledger T).anchors.rows, Apart f.core (recordRange a)
  recorded :
    ∀ a ∈ (s.ledger T).anchors.rows,
      a.batchStartSeq ≤ a.batchEndSeq ∧
        ∀ b ∈ (s.ledger T).anchors.rows, a ≠ b → Apart (recordRange a) (recordRange b)
  dispatched : ∀ batch ∈ s.dispatched, Batch.Within batch (s.ledger T)

theorem inv_empty :
    Inv sha256 T anchorEvery {} where
  sound := Ledger.sound_empty sha256 T
  loops := by simp
  flights := .nil
  within := by simp
  apart := by simp
  recorded := by simp [State.ledger]
  dispatched := by simp

variable {sha256 T anchorEvery maxAgeSecs} {s : State} {i : Nat} {f : Flight}

/- The rows of a sound ledger have the seqs below its length. -/
theorem exists_row_iff {ledger : Ledger} (hSound : ledger.Sound sha256 T) (seq : Nat) :
    (∃ row ∈ ledger.rows.rows, row.seq = seq) ↔ seq < ledger.rows.rows.length := by
  rcases hSound with ⟨_, hRun, _⟩
  rw [← List.mem_map, (run_links_seqs sha256 hRun).1, mem_range'_1]
  simp

/- The invariant gives the property. -/
theorem Inv.wellAnchored (hInv : Inv sha256 T anchorEvery s) :
    WellAnchored T s where
  dispatched := by
    intro batch hBatch
    rcases hInv.dispatched batch hBatch with ⟨hOrder, hEnd⟩
    rcases (exists_row_iff hInv.sound _).mpr hEnd with ⟨row, hRow, hSeq⟩
    exact ⟨hOrder, row, hRow, by omega, by omega⟩
  disjoint := by
    intro a hA b hB seq hCoversA hCoversB
    apply not_imp_comm.mp ((hInv.recorded a hA).2 b hB)
    simp only [AuditAnchorRecordRow.covers, Bool.and_eq_true,
      decide_eq_true_eq] at hCoversA hCoversB
    simp only [Apart, recordRange]
    omega

--
-- Moving a Batch On
--

theorem advance_split (hAt : s.flights[i]? = some f) (g : Option Flight) :
    ∃ before after,
      s.flights = before ++ f :: after ∧
        (s.advance i g).flights = before ++ (g.toList ++ after) := by
  rcases exists_split hAt with ⟨before, after, hList, hErase, hSet⟩
  refine ⟨before, after, hList, ?_⟩
  cases g with
  | none => exact hErase
  | some g => exact hSet g

/- The batch a party moves on with lies in the one it had, and keeps clear of the records. -/
def Shrinks (ledger : Ledger) (f g : Flight) : Prop :=
  g.isOpen →
    f.isOpen ∧
      f.batch.startSeq ≤ g.batch.startSeq ∧
      g.batch.startSeq ≤ g.batch.endSeq ∧
      g.batch.endSeq ≤ f.batch.endSeq ∧
      ∀ a ∈ ledger.anchors.rows, Apart g.core (recordRange a)

variable {g : Option Flight}

section

variable (hInv : Inv sha256 T anchorEvery s)
include hInv

section

variable (hAt : s.flights[i]? = some f)
include hAt

theorem Inv.advance (hShrinks : ∀ g' ∈ g, Shrinks (s.ledger T) f g') :
    Inv sha256 T anchorEvery (s.advance i g) := by
  rcases advance_split hAt g with ⟨before, after, hOld, hNew⟩
  have hMem : ∀ h ∈ (s.advance i g).flights, h ∈ s.flights ∨ Shrinks (s.ledger T) f h := by
    intro h hH
    simp only [hNew, mem_append, mem_toList] at hH
    simp only [hOld, mem_append, mem_cons]
    rcases hH with hBefore | hMoved | hAfter
    · exact .inl (.inl hBefore)
    · exact .inr (hShrinks h hMoved)
    · exact .inl (.inr (.inr hAfter))
  have hHere : f ∈ s.flights := mem_of_getElem? hAt
  refine { hInv with flights := ?_, within := ?_, apart := ?_ }
  · have hPairs := hInv.flights
    rw [hOld, pairwise_append, pairwise_cons] at hPairs
    rcases hPairs with ⟨hBefore, ⟨hNext, hAfter⟩, hCross⟩
    rw [hNew, pairwise_append]
    cases g with
    | none =>
      refine ⟨hBefore, hAfter, fun a hA b hB => ?_⟩
      exact hCross a hA b (mem_cons_of_mem _ hB)
    | some g =>
      have hG := hShrinks g rfl
      simp only [toList_some, singleton_append, pairwise_cons]
      refine ⟨hBefore, ⟨fun b hB hOpen hOpenB => ?_, hAfter⟩, fun a hA b hB => ?_⟩
      · rcases hG hOpen with ⟨hF, hStart, _, hEnd, _⟩
        exact (hNext b hB hF hOpenB).mono hStart hEnd
      · rcases mem_cons.mp hB with rfl | hB
        · intro hOpenA hOpen
          rcases hG hOpen with ⟨hF, hStart, _, hEnd, _⟩
          have hApart := hCross a hA f (by simp) hOpenA hF
          exact (hApart.symm.mono hStart hEnd).symm
        · exact hCross a hA b (mem_cons_of_mem _ hB)
  · intro h hH hOpen
    rcases hMem h hH with hOldH | hG
    · exact hInv.within h hOldH hOpen
    · rcases hG hOpen with ⟨hF, _, hOrder, hEnd, _⟩
      have hWithin := hInv.within f hHere hF
      exact ⟨hOrder, lt_of_le_of_lt hEnd hWithin.2⟩
  · intro h hH hOpen
    rcases hMem h hH with hOldH | hG
    · exact hInv.apart h hOldH hOpen
    · exact (hG hOpen).2.2.2.2

/- A batch that stays the same shrinks. -/
theorem Inv.shrinks_of_batch {g : Flight} (hOpen : f.isOpen)
    (hBatch : g.batch = f.batch) (hCore : g.core = f.core) :
    Shrinks (s.ledger T) f g := by
  intro _
  have hHere := mem_of_getElem? hAt
  rw [hBatch, hCore]
  exact ⟨hOpen, le_refl _, (hInv.within f hHere hOpen).1, le_refl _, hInv.apart f hHere hOpen⟩

/- Once a batch is closed, the others are apart from it. -/
theorem Inv.others_apart (hOpen : f.isOpen)
    (hClosed : ∀ g' ∈ g, g'.isOpen = false) :
    ∀ h ∈ (s.advance i g).flights, h.isOpen → Apart h.core f.batch := by
  rcases advance_split hAt g with ⟨before, after, hOld, hNew⟩
  have hPairs := hInv.flights
  rw [hOld, pairwise_append, pairwise_cons] at hPairs
  rcases hPairs with ⟨_, ⟨hNext, _⟩, hCross⟩
  intro h hH hOpenH
  have hCore : h ∈ s.flights → Apart h.batch f.batch → Apart h.core f.batch :=
    fun hMem hApart => Flight.apart_core (hInv.within h hMem hOpenH).1 hApart
  simp only [hNew, mem_append, mem_toList] at hH
  rcases hH with hBefore | hMoved | hAfter
  · refine hCore ?_ (hCross h hBefore f (by simp) hOpenH hOpen)
    simp [hOld, hBefore]
  · rw [hClosed h hMoved] at hOpenH
    cases hOpenH
  · refine hCore ?_ (hNext h hAfter hOpen hOpenH).symm
    simp [hOld, hAfter]

end

end

--
-- Other Changes
--

/- New rows and loops over them. -/
theorem Inv.grow (hInv : Inv sha256 T anchorEvery s) {db : Db} {loops : List ThresholdLoop}
    (hSound : (db.ledgers T).Sound sha256 T)
    (hAnchors : (db.ledgers T).anchors = (s.ledger T).anchors)
    (hRows : (s.ledger T).rows.rows.length ≤ (db.ledgers T).rows.rows.length)
    (hLoops :
      ∀ loop ∈ loops, loop ∈ s.loops ∨
        ∀ seq ∈ loop.seqs, 0 < anchorEvery ∧ seq < (db.ledgers T).rows.rows.length) :
    Inv sha256 T anchorEvery { s with db := db, loops := loops } where
  sound := hSound
  loops := by
    intro loop hLoop seq hSeq
    rcases hLoops loop hLoop with hOld | hNew
    · rcases hInv.loops loop hOld seq hSeq with ⟨hPos, hLt⟩
      exact ⟨hPos, lt_of_lt_of_le hLt hRows⟩
    · exact hNew seq hSeq
  flights := hInv.flights
  within := by
    intro f hF hOpen
    rcases hInv.within f hF hOpen with ⟨hOrder, hEnd⟩
    exact ⟨hOrder, lt_of_lt_of_le hEnd hRows⟩
  apart := by
    simp only [State.ledger, hAnchors]
    exact hInv.apart
  recorded := by
    simp only [State.ledger, hAnchors]
    exact hInv.recorded
  dispatched := by
    intro batch hBatch
    rcases hInv.dispatched batch hBatch with ⟨hOrder, hEnd⟩
    exact ⟨hOrder, lt_of_lt_of_le hEnd hRows⟩

/- A record apart from all others and from what is open. -/
theorem Inv.insertRecord (hInv : Inv sha256 T anchorEvery s) {record : AuditAnchorRecordRow}
    (hOrder : record.batchStartSeq ≤ record.batchEndSeq)
    (hFlights : ∀ g ∈ s.flights, g.isOpen → Apart g.core (recordRange record))
    (hRecords : ∀ a ∈ (s.ledger T).anchors.rows, Apart (recordRange record) (recordRange a)) :
    Inv sha256 T anchorEvery
      { s with
        db :=
          { s.db with
            ledgers :=
              update s.db.ledgers T
                { s.ledger T with
                  anchors :=
                    (s.ledger T).anchors.insert record } } } := by
  have hMem :
      ∀ a ∈ ((s.ledger T).anchors.insert record).rows,
        a ∈ (s.ledger T).anchors.rows ∨ a = record := by
    intro a hA
    rcases KeyTable.mem_insert_iff.mp hA with hOld | hNew
    · exact .inl hOld
    · exact .inr hNew.1
  refine ⟨?_, ?_, hInv.flights, ?_, ?_, ?_, ?_⟩ <;> simp only [State.ledger, update_self]
  · exact hInv.sound
  · exact hInv.loops
  · exact hInv.within
  · intro g hG hOpen a hA
    rcases hMem a hA with hOld | rfl
    · exact hInv.apart g hG hOpen a hOld
    · exact hFlights g hG hOpen
  · intro a hA
    rcases hMem a hA with hOld | rfl
    · refine ⟨(hInv.recorded a hOld).1, fun b hB hNe => ?_⟩
      rcases hMem b hB with hOldB | rfl
      · exact (hInv.recorded a hOld).2 b hOldB hNe
      · exact (hRecords a hOld).symm
    · refine ⟨hOrder, fun b hB hNe => ?_⟩
      rcases hMem b hB with hOldB | rfl
      · exact hRecords b hOldB
      · exact absurd rfl hNe
  · exact hInv.dispatched

--
-- Step Lemmas
--

variable {startSeq endSeq seq : Nat} {prevEnd : Option Nat} {batch : Batch}

theorem Batch.startSeq_ofSeqs (hLt : startSeq < u64Size) :
    (Batch.ofSeqs startSeq endSeq).startSeq = startSeq :=
  mod_eq_of_lt hLt

theorem Batch.endSeq_ofSeqs (hLt : endSeq < u64Size) :
    (Batch.ofSeqs startSeq endSeq).endSeq = endSeq :=
  mod_eq_of_lt hLt

theorem Inv.length_le (hInv : Inv sha256 T anchorEvery s) :
    (s.ledger T).rows.rows.length ≤ i64Size := by
  rcases hInv.sound with ⟨_, _, hFits, _⟩
  exact hFits

theorem Inv.stepAppend (hInv : Inv sha256 T anchorEvery s)
    (items : List PendingLedgerRow) (eventIds : Option (List String)) (eventTime : Int) :
    Inv sha256 T anchorEvery (stepAppend sha256 T anchorEvery s items eventIds eventTime) := by
  unfold Anchoring.stepAppend
  split
  · rename_i done db hAppend
    rcases (appendPgBatch_eq_ok sha256 hAppend).2 with
      ⟨hNone, _⟩ | ⟨done', ledger', hDone, hCommitted, _, rfl⟩
    · cases hNone
    · cases hDone
      rcases hCommitted.sound sha256 hInv.sound with ⟨hSound, hFirst, hRows⟩
      have hHashes := hCommitted.hashes.length_eq
      have hAnchors : ledger'.anchors = (s.ledger T).anchors := by
        rcases hCommitted.commits with ⟨_, _, rfl⟩
        rfl
      apply hInv.grow
      · simpa using hSound
      · simpa using hAnchors
      · simp only [update_self, hRows, length_append]
        exact le_add_right _ _
      · intro loop hLoop
        rcases mem_append.mp hLoop with hOld | hNew
        · exact .inl hOld
        · right
          rw [mem_singleton.mp hNew]
          intro seq hSeq
          unfold thresholdSeqs at hSeq
          split_ifs at hSeq with hPos
          · rw [mem_filter, mem_range'_1] at hSeq
            simp only [update_self, hRows, length_append]
            omega
          · cases hSeq
  · rename_i db hAppend
    rcases (appendPgBatch_eq_ok sha256 hAppend).2 with ⟨_, rfl, _⟩ | ⟨_, _, hDone, _⟩
    · exact hInv
    · cases hDone
  · exact hInv

/- A watermark below the seq leaves the batch a seq. -/
theorem anchorBatchStart_le
    (hPos : 0 < anchorEvery) (hSeq : seq + 1 < u64Size) (hBelow : prevEnd.all (· < seq)) :
    anchorBatchStart prevEnd seq anchorEvery ≤ seq := by
  unfold anchorBatchStart wrappingAdd
  rw [Nat.mod_eq_of_lt hSeq]
  cases prevEnd with
  | none =>
    simp only
    omega
  | some w =>
    simp only [all_some, decide_eq_true_eq] at hBelow
    simp only [Nat.mod_eq_of_lt (Nat.lt_trans (Nat.add_lt_add_right hBelow 1) hSeq)]
    omega

/- The batch starts above the watermark. -/
theorem lt_anchorBatchStart {w : Nat} (hFits : w + 1 < u64Size) :
    w < anchorBatchStart (some w) seq anchorEvery := by
  unfold anchorBatchStart wrappingAdd
  simp only [mod_eq_of_lt hFits]
  omega

theorem Inv.stepDispatch (hInv : Inv sha256 T anchorEvery s) {seqs : List Nat}
    (hAt : s.loops[i]? = some ⟨seq :: seqs, some prevEnd⟩) (hBelow : prevEnd.all (· < seq))
    (hEnds : (s.ends T).all (fun e => prevEnd.any (e ≤ ·))) :
    let batch := Batch.ofSeqs (anchorBatchStart prevEnd seq anchorEvery) seq
    Inv sha256 T anchorEvery
      { s with
        watermark := setLastAnchoredEnd s.watermark seq
        loops := s.loops.set i ⟨seqs, none⟩
        flights := s.flights ++ [⟨.threshold, batch, .dispatched⟩]
        dispatched := s.dispatched ++ [batch] } := by
  intro batch
  have hLoop := mem_of_getElem? hAt
  have hFits := hInv.length_le
  rcases hInv.loops _ hLoop seq (by simp) with ⟨hPos, hSeq⟩
  have hNext : seq + 1 < u64Size := by
    simp only [i64Size, u64Size] at hFits ⊢
    omega
  have hStart := anchorBatchStart_le hPos hNext hBelow
  have hStartSeq : batch.startSeq = anchorBatchStart prevEnd seq anchorEvery :=
    Batch.startSeq_ofSeqs (by omega)
  have hEndSeq : batch.endSeq = seq := Batch.endSeq_ofSeqs (by omega)
  have hWithin : Batch.Within batch (s.ledger T) := ⟨by omega, by omega⟩
  -- Whatever is recorded or open ends below the new batch.
  have hClear : ∀ e ∈ s.ends T, e < batch.startSeq := by
    intro e hE
    have hAny := all_eq_true.mp hEnds e hE
    cases prevEnd with
    | none => simp at hAny
    | some w =>
      simp only [any_some, decide_eq_true_eq] at hAny
      simp only [all_some, decide_eq_true_eq] at hBelow
      have hLt : w < anchorBatchStart (some w) seq anchorEvery := lt_anchorBatchStart (by omega)
      omega
  have hOpenEnd : ∀ f ∈ s.flights, f.isOpen → f.batch.endSeq < batch.startSeq := by
    intro f hF hOpen
    apply hClear
    unfold State.ends
    exact mem_append_right _ (mem_map.mpr ⟨f, mem_filter.mpr ⟨hF, hOpen⟩, rfl⟩)
  refine ⟨hInv.sound, ?_, ?_, ?_, ?_, hInv.recorded, ?_⟩
  · intro loop hMem seq' hSeq'
    rcases mem_or_eq_of_mem_set hMem with hOld | rfl
    · exact hInv.loops loop hOld seq' hSeq'
    · exact hInv.loops _ hLoop seq' (mem_cons_of_mem _ hSeq')
  · refine pairwise_append.mpr ⟨hInv.flights, pairwise_singleton _ _, ?_⟩
    intro f hF g hG hOpen _
    rw [mem_singleton.mp hG]
    exact .inl (hOpenEnd f hF hOpen)
  · intro f hF hOpen
    rcases mem_append.mp hF with hOld | hNew
    · exact hInv.within f hOld hOpen
    · rw [mem_singleton.mp hNew]
      exact hWithin
  · intro f hF hOpen a hA
    rcases mem_append.mp hF with hOld | hNew
    · exact hInv.apart f hOld hOpen a hA
    · rw [mem_singleton.mp hNew]
      refine .inr (hClear _ ?_)
      unfold State.ends
      exact mem_append_left _ (mem_map_of_mem hA)
  · exact forall_mem_append.mpr ⟨hInv.dispatched, forall_mem_singleton.mpr hWithin⟩

/- The batch starts at the row found and has it. -/
theorem sweepBatch_eq_some {probe : UncoveredProbe}
    (hSweep : sweepBatch maxAgeSecs probe = some batch) (hFits : probe.head < u64Size) :
    batch.startSeq = probe.seq ∧ batch.startSeq ≤ batch.endSeq ∧ batch.endSeq ≤ probe.head := by
  unfold sweepBatch at hSweep
  simp only at hSweep
  split at hSweep
  · cases hSweep
  · split at hSweep <;> cases hSweep
    rw [Batch.startSeq_ofSeqs (by omega), Batch.endSeq_ofSeqs (by omega)]
    omega

/- The bounded batch stops before any later record. -/
theorem boundBatch_eq_some {ledger : Ledger} {bounded : Batch}
    (hBound : boundBatch ledger batch = some bounded) :
    bounded.startSeq = batch.startSeq ∧
      bounded.startSeq ≤ bounded.endSeq ∧
      bounded.endSeq ≤ batch.endSeq ∧
      ∀ a ∈ ledger.anchors.rows,
        batch.startSeq < a.batchStartSeq → bounded.endSeq < a.batchStartSeq := by
  have hStartLt := batch.start_lt
  have hEndLt := batch.end_lt
  unfold boundBatch at hBound
  split at hBound
  · cases hBound
  · rename_i next hNext
    have hLater :
        ∀ a ∈ ledger.anchors.rows,
          batch.startSeq < a.batchStartSeq → ∃ start, next = some start ∧ start ≤ a.batchStartSeq :=
      fun a hA hAfter => nextAnchorStartAfter_eq_ok hNext hA hAfter
    cases next with
    | none =>
      simp only at hBound
      split at hBound <;> cases hBound
      rw [Batch.startSeq_ofSeqs hStartLt, Batch.endSeq_ofSeqs hEndLt]
      refine ⟨rfl, by omega, le_refl _, ?_⟩
      intro a hA hAfter
      rcases hLater a hA hAfter with ⟨_, hSome, _⟩
      cases hSome
    | some start =>
      simp only at hBound
      split at hBound <;> cases hBound
      rw [Batch.startSeq_ofSeqs hStartLt, Batch.endSeq_ofSeqs (by omega)]
      refine ⟨rfl, by omega, by omega, ?_⟩
      intro a hA hAfter
      rcases hLater a hA hAfter with ⟨start', hSome, hLe⟩
      cases hSome
      omega

section

variable (hInv : Inv sha256 T anchorEvery s)
include hInv

/- The newest row is below the length. -/
theorem Inv.head_lt (hRows : 0 < (s.ledger T).rows.rows.length) :
    (maxSeq (s.ledger T)).getD 0 < (s.ledger T).rows.rows.length := by
  cases hMax : maxSeq (s.ledger T) with
  | none => exact hRows
  | some m =>
    have hMem := (max?_eq_some_iff.mp hMax).1
    exact (exists_row_iff hInv.sound m).mp (mem_map.mp hMem)

theorem Inv.stepProbe (now : Int)
    (hQuiet : s.flights.all (fun f => !f.isOpen)) :
    Inv sha256 T anchorEvery (stepProbe T maxAgeSecs s now) := by
  have hClosed : ∀ f ∈ s.flights, f.isOpen = false := by
    intro f hF
    simpa using all_eq_true.mp hQuiet f hF
  unfold Anchoring.stepProbe
  split
  · exact hInv
  · rename_i batch hBatch
    rcases bind_eq_some_iff.mp hBatch with ⟨probe, hProbe, hSweep⟩
    rcases oldestUncovered_eq_some hProbe with ⟨hRow, hFree, hHead⟩
    have hSeq := (exists_row_iff hInv.sound _).mp hRow
    have hTop := hInv.head_lt (by omega)
    rw [hHead] at hTop
    have hFits := hInv.length_le
    rcases sweepBatch_eq_some hSweep (by simp only [i64Size, u64Size] at hFits ⊢; omega)
      with ⟨hStart, hOrder, hEnd⟩
    refine { hInv with flights := ?_, within := ?_, apart := ?_ }
    · refine pairwise_append.mpr ⟨hInv.flights, pairwise_singleton _ _, ?_⟩
      intro f hF g _ hOpen
      rw [hClosed f hF] at hOpen
      cases hOpen
    · intro f hF hOpen
      rcases mem_append.mp hF with hOld | hNew
      · exact hInv.within f hOld hOpen
      · rw [mem_singleton.mp hNew]
        exact ⟨hOrder, lt_of_le_of_lt hEnd hTop⟩
    · intro f hF hOpen a hA
      rcases mem_append.mp hF with hOld | hNew
      · exact hInv.apart f hOld hOpen a hA
      · rw [mem_singleton.mp hNew]
        -- No record covers the row the batch starts at.
        have hCovers := hFree a hA
        have hRange := (hInv.recorded a hA).1
        simp only [AuditAnchorRecordRow.covers, Bool.and_eq_false_iff, decide_eq_false_iff_not]
          at hCovers
        simp only [Apart, Flight.core, if_true, recordRange]
        omega

theorem Inv.stepRecord {origin : Origin} {hashes : List Hash}
    (hAt : s.flights[i]? = some ⟨origin, batch, .leaves hashes⟩)
    (outcome : BatchAnchorOutcome) (anchoredAt : Int) (reached : Bool)
    (hClosed : ∀ g' ∈ g, g'.isOpen = false) :
    Inv sha256 T anchorEvery
      { s.advance i g with
        db :=
          { s.db with
            ledgers :=
              update s.db.ledgers T
                (recordBatch sha256 T (s.ledger T) batch hashes
                  outcome anchoredAt reached) } } := by
  have hHere := mem_of_getElem? hAt
  have hAdvanced : Inv sha256 T anchorEvery (s.advance i g) := by
    apply hInv.advance hAt
    intro g' hG hOpen
    rw [hClosed g' hG] at hOpen
    cases hOpen
  have hUnchanged :
      Inv sha256 T anchorEvery
        { s.advance i g with
          db :=
            { s.db with
              ledgers :=
                update s.db.ledgers T (s.ledger T) } } := by
    simp only [State.ledger, update_eq_self]
    exact hAdvanced
  unfold recordBatch
  split
  · split
    · rename_i ledger' hInsert
      rw [insertAnchorRecord_eq_ok hInsert]
      have hOthers := hInv.others_apart hAt rfl hClosed
      exact hAdvanced.insertRecord (hInv.within _ hHere rfl).1 hOthers (hInv.apart _ hHere rfl)
    · exact hUnchanged
  · exact hUnchanged

--
-- Runs
--

theorem Inv.step {event : Event} {s' : State} (hOrdered : ordered T s event)
    (hStep : step sha256 T anchorEvery maxAgeSecs s event = some s') :
    Inv sha256 T anchorEvery s' := by
  cases event with
  | append items eventIds eventTime =>
    cases hStep
    exact hInv.stepAppend items eventIds eventTime
  | readWatermark i =>
    simp only [Anchoring.step] at hStep
    split at hStep <;> cases hStep
    rename_i seq seqs hAt
    refine { hInv with loops := ?_ }
    intro loop hLoop
    rcases mem_or_eq_of_mem_set hLoop with hOld | hNew
    · exact hInv.loops loop hOld
    · rw [hNew]
      exact hInv.loops ⟨seq :: seqs, none⟩ (mem_of_getElem? hAt)
  | dispatch i =>
    simp only [Anchoring.step] at hStep
    split at hStep <;> cases hStep
    rename_i seq seqs prevEnd hAt
    simp only [ordered, hAt, Bool.and_eq_true] at hOrdered
    exact hInv.stepDispatch hAt hOrdered.1 hOrdered.2
  | probe now =>
    cases hStep
    exact hInv.stepProbe now hOrdered
  | bound i =>
    simp only [Anchoring.step] at hStep
    split at hStep <;> cases hStep
    rename_i batch hAt
    apply hInv.advance hAt
    intro g hG _
    rcases map_eq_some_iff.mp hG with ⟨bounded, hBound, rfl⟩
    rcases boundBatch_eq_some hBound with ⟨hStart, hOrder, hEnd, hLater⟩
    refine ⟨rfl, le_of_eq hStart.symm, hOrder, hEnd, ?_⟩
    intro a hA
    have hCore := hInv.apart _ (mem_of_getElem? hAt) rfl a hA
    have hAfter := hLater a hA
    simp only [Apart, Flight.core, if_true, recordRange, reduceCtorEq, if_false] at hCore ⊢
    omega
  | claim i =>
    simp only [Anchoring.step] at hStep
    split at hStep
    · rename_i batch hAt
      split at hStep <;> cases hStep
      · exact hInv.advance hAt (by simp)
      · have hMoved := hInv.advance hAt
          (g := some ⟨.sweep, batch, .dispatched⟩) (by
            intro g hG
            cases hG
            exact hInv.shrinks_of_batch hAt rfl rfl rfl)
        refine { hMoved with dispatched := ?_ }
        refine forall_mem_append.mpr ⟨hInv.dispatched, forall_mem_singleton.mpr ?_⟩
        exact hInv.within _ (mem_of_getElem? hAt) rfl
    · cases hStep
  | readLeaves i =>
    simp only [Anchoring.step] at hStep
    split at hStep <;> cases hStep
    rename_i origin batch hAt
    apply hInv.advance hAt
    intro g hG
    rcases map_eq_some_iff.mp hG with ⟨hashes, _, rfl⟩
    exact hInv.shrinks_of_batch hAt rfl rfl rfl
  | record i outcome anchoredAt reached =>
    simp only [Anchoring.step] at hStep
    split at hStep <;> cases hStep
    rename_i origin batch hashes hAt
    apply hInv.stepRecord hAt
    intro g hG
    cases origin <;> cases hG
    rfl
  | release i =>
    simp only [Anchoring.step] at hStep
    split at hStep <;> cases hStep
    rename_i batch hAt
    apply hInv.advance hAt
    rintro g ⟨⟩ ⟨⟩
  | finish i =>
    simp only [Anchoring.step] at hStep
    split at hStep <;> cases hStep
    rename_i batch hAt
    exact { hInv.advance hAt (g := none) (by simp) with }
  | abandon i =>
    simp only [Anchoring.step] at hStep
    split at hStep <;> cases hStep
    rename_i f hAt
    exact hInv.advance hAt (by simp)

end

/- In every run whose steps are all ordered, no batch is empty and no two records share a seq. -/
theorem run_wellAnchored {events : List Event}
    (hRun :
      Run
        (fun s event s' =>
          ordered T s event ∧ step sha256 T anchorEvery maxAgeSecs s event = some s')
        {} events s) :
    WellAnchored T s := by
  have hInv : Inv sha256 T anchorEvery s :=
    hRun.invariant (fun _ _ _ hInv hStep => hInv.step hStep.1 hStep.2)
      (inv_empty sha256 T anchorEvery)
  exact hInv.wellAnchored

--
-- Interleavings
--

def localOutcome : BatchAnchorOutcome where
  ed25519SigB64 := "c2ln"
  ed25519PubkeyB64 := "a2V5"

/- The batches dispatched and the batches recorded. -/
def State.ranges (s : State) : List (Nat × Nat) × List (Nat × Nat) :=
  (s.dispatched.map (fun b => (b.startSeq, b.endSeq)),
    (s.ledger sampleTenant).anchors.rows.map (fun a => (a.batchStartSeq, a.batchEndSeq)))

/-
  Three calls append a row each.  The first call's loop runs last, after the watermark has passed
  it, and a sweep fills the hole it sees while the second call's batch is on its way.
-/
def lateLoop : List Event :=
  [ .append [sampleEvent] none 0,
    .append [sampleEvent] none 0,
    .append [sampleEvent] none 0,
    .readWatermark 1, .dispatch 1,
    .readWatermark 2, .dispatch 2,
    .readWatermark 0, .dispatch 0,
    .readLeaves 1, .record 1 localOutcome 1 true,
    .probe 1, .bound 2, .claim 2, .readLeaves 2,
    .record 2 localOutcome 1 true, .release 2, .finish 2,
    .readLeaves 0, .record 0 localOutcome 1 true ]

/-
  A sweep anchors an aged row together with the one that closes the batch, before that append's loop
  runs.  The empty batch is recorded and takes the next batch's start.
-/
def sweepFirst : List Event :=
  [ .append [sampleEvent] none 0,
    .append [sampleEvent] none 86400000000,
    .probe 86400000000, .bound 0, .claim 0, .readLeaves 0,
    .record 0 localOutcome 86400000000 true,
    .release 0, .finish 0,
    .readWatermark 1, .dispatch 1, .readLeaves 0,
    .record 0 localOutcome 86400000001 true,
    .append [sampleEvent, sampleEvent] none 86400000002,
    .readWatermark 2, .dispatch 2, .readLeaves 0,
    .record 0 localOutcome 86400000003 true ]

/- An empty batch was dispatched. -/
theorem not_wellAnchored_of_ranges {lo hi : Nat}
    (hBatch : (lo, hi) ∈ s.ranges.1) (hEmpty : hi < lo) :
    ¬ WellAnchored sampleTenant s := by
  intro hWell
  rcases mem_map.mp hBatch with ⟨batch, hMem, hRange⟩
  have hOrder := (hWell.dispatched batch hMem).1
  rw [Prod.mk.injEq] at hRange
  omega

/-
  One interleaving dispatches an empty batch and records two batches that share a seq; the other
  records an empty batch in the place of the next one.
-/
theorem lateLoop_sweepFirst_not_wellAnchored :
    (∃ s,
        Run (fun s event s' => step Sha256.digest sampleTenant 1 86400 s event = some s')
            {} lateLoop s ∧
          s.ranges = ([(1, 1), (2, 2), (3, 0), (0, 1)], [(0, 1), (1, 1), (2, 2)]) ∧
          ¬ WellAnchored sampleTenant s) ∧
      ∃ s,
        Run
            (fun s event s' => step Sha256.digest sampleTenant 2 86400 s event = some s')
            {} sweepFirst s ∧
          s.ranges = ([(0, 1), (2, 1), (2, 3)], [(0, 1), (2, 1)]) ∧
          ¬ WellAnchored sampleTenant s := by
  constructor
  · refine Run.exists_and (Run.eval (by decide +kernel)) (fun late _ hRanges => ?_)
    exact not_wellAnchored_of_ranges (show (3, 0) ∈ late.ranges.1 by simp [hRanges]) (by decide)
  · refine Run.exists_and (Run.eval (by decide +kernel)) (fun first _ hRanges => ?_)
    exact not_wellAnchored_of_ranges (show (2, 1) ∈ first.ranges.1 by simp [hRanges]) (by decide)

/- A threshold batch, a sweep, and a threshold batch. -/
def orderedRun : List Event :=
  [ .append [sampleEvent, sampleEvent] none 0,
    .readWatermark 0, .dispatch 0, .readLeaves 0,
    .record 0 localOutcome 1 true,
    .append [sampleEvent] none 0,
    .probe 86400000000, .bound 0, .claim 0, .readLeaves 0,
    .record 0 localOutcome 86400000000 true,
    .release 0, .finish 0,
    .append [sampleEvent] none 86400000001,
    .readWatermark 2, .dispatch 2, .readLeaves 0,
    .record 0 localOutcome 86400000002 true ]

theorem orderedRun_wellAnchored :
    ∃ s,
      Run
          (fun s event s' =>
            ordered sampleTenant s event ∧
              step Sha256.digest sampleTenant 2 86400 s event = some s')
          {} orderedRun s ∧
        s.ranges = ([(0, 1), (2, 2), (3, 3)], [(0, 1), (2, 2), (3, 3)]) ∧
        WellAnchored sampleTenant s :=
  Run.exists_and (Run.eval_guard (by decide +kernel)) (fun _ hRun _ => run_wellAnchored hRun)

end Anchoring

end Tracelane.Gateway
