import Tracelane.Gateway.Copy

/-
  The boot reconcile, `reconcile_ledger`, and the canonical ledger across appends, failed copy
  writes, restores, and runs of the reconcile that stop anywhere.

  A run's stores change only by its own writes, so it is the list of them; stopping it or failing a
  read leaves a first part.
-/

namespace Tracelane.Gateway

open List Option Function Prod
open Transition

variable (sha256 : Bytes → Hash) (T : TenantId)

--
-- Heads
--

/- What `load_all` reads of the tenant's head. -/
def loadHead (ledger : Ledger) : Option (Nat × Hash) :=
  match ledger.head with
  | none => none
  | some state =>
      if state.lastSeq < 0 then none
      else
        (ByteArr.ofBytes? 32 state.lastRowHash).map (fun h => (state.lastSeq.toNat, h))

/- The persisted head only advances. -/
def upsertHead (ledger : Ledger) (lastSeq : Nat) (lastRowHash : Hash) : Ledger :=
  { ledger with
    head :=
      match ledger.head with
      | none => some ⟨asI64 lastSeq, lastRowHash.bytes⟩
      | some old =>
          some
            { lastSeq := max old.lastSeq (asI64 lastSeq)
              lastRowHash :=
                if old.lastSeq < asI64 lastSeq then
                  lastRowHash.bytes
                else old.lastRowHash } }

--
-- Rows of the Copy
--

/- The hash of a copied row that continues the chain and whose content hashes to it. -/
def copyRowChains (row : AuditLogRow) (runningPrev : Hash) : Option Hash :=
  match hexDecode row.prevHash, hexDecode row.rowHash with
  | .ok prev, .ok stored =>
      if prev ≠ runningPrev then none
      else if
          rowHashV2 sha256 prev T row.seq row.eventType row.actor
            row.payload ≠ stored then
        none
      else some stored
  | _, _ => none

def reconcileLimit : Nat := 10000

/- The walk of rule 1: the last seq, its hash, and the rows. -/
structure Fill where
  fromSeq : Int
  runningPrev : Hash
  recovered : List AuditLogRow := []

/- One page of the walk, and whether it stops there. -/
def fillPage (headSeq : Nat) : Fill → List AuditLogRow → Fill × Bool
| fill, [] => (fill, false)
| fill, row :: rows =>
    if row.seq ≠ (fill.fromSeq + 1).toNat ∨ headSeq < row.seq then
      (fill, true)
    else
      match copyRowChains sha256 T row fill.runningPrev with
      | none => (fill, true)
      | some rowHash =>
          let fill' : Fill := ⟨row.seq, rowHash, fill.recovered ++ [row]⟩
          if row.seq = headSeq then (fill', true)
          else fillPage headSeq fill' rows

/- The copied rows past the walk's last seq. -/
def fillRead (copy : Copy) (fromSeq : Int) (limit : Nat) :
    List AuditLogRow :=
  if fromSeq < 0 then readFullRowsFrom copy T 0 limit
  else readFullRowsAfter copy T fromSeq.toNat limit

/- The walk of rule 1, page by page; `none` when the fuel is spent. -/
def fillFromCopy (copy : Copy) (headSeq : Nat) : Nat → Fill → Option Fill
| 0, _ => none
| fuel + 1, fill =>
    match fillRead T copy fill.fromSeq reconcileLimit with
    | [] => some fill
    | row :: rows =>
        match fillPage sha256 T headSeq fill (row :: rows) with
        | (fill', true) => some fill'
        | (fill', false) => fillFromCopy copy headSeq fuel fill'

/- The row rule 1 chains from: the newest one, or genesis. -/
def fillStart (ledger : Ledger) : Except String Fill :=
  match maxSeq ledger with
  | none => .ok ⟨-1, genesisPrevHash sha256 T, []⟩
  | some m => do
      let rows ← readRowsFrom ledger m 1
      match rows.head? with
      | none => .error "canonical max row vanished between reads"
      | some row =>
          match hexDecode row.rowHash with
          | .ok h => .ok ⟨m, h, []⟩
          | .error e => .error s!"canonical row_hash at seq {m}: {e}"

/- Rule 2: adopt the rows that chain past the head. -/
def adoptFromCopy :
    Nat × Hash → List AuditLogRow → (Nat × Hash) × List AuditLogRow
| head, [] => (head, [])
| head, row :: rows =>
    if row.seq ≠ head.1 + 1 then (head, [])
    else
      match copyRowChains sha256 T row head.2 with
      | none => (head, [])
      | some rowHash =>
          let rest := adoptFromCopy (row.seq, rowHash) rows
          (rest.1, row :: rest.2)

--
-- Writes of a Run
--

/- One committed write of the reconcile. -/
inductive StoreOp where
| fill (rows : List AuditLogRow)
| adopt (rows : List AuditLogRow)
| advance (lastSeq : Nat) (lastRowHash : Hash)
| copy (write : CopyWrite)
deriving DecidableEq

/- Rule 3 over the rows the earlier rules leave. -/
def rebuildOps (ledger : Ledger) (copy : Copy) : List StoreOp :=
  match
    rebuildCopyForTenant (ledger.rows.rows.length + 1) ledger copy reconcileLimit with
  | some (writes, _) => writes.map StoreOp.copy
  | none => []

/- Rules 2 and 3. -/
def adoptOps (ledger : Ledger) (copy : Copy) (head : Nat × Hash) : List StoreOp :=
  let adopted := adoptFromCopy sha256 T head (readFullRowsAfter copy T head.1 reconcileLimit)
  if adopted.1.1 = head.1 then rebuildOps ledger copy
  else
    .adopt adopted.2 :: .advance adopted.1.1 adopted.1.2 ::
      rebuildOps
        { ledger with rows := ledger.rows.insertAll adopted.2 }
        copy

/- What follows a finished walk: the others run unless it leaves the head ahead. -/
def filledOps (ledger : Ledger) (copy : Copy) (head : Nat × Hash) (fill : Fill) : List StoreOp :=
  let filled := fill.fromSeq = head.1 ∧ fill.runningPrev = head.2
  let ops :=
    if fill.recovered.isEmpty then []
    else [StoreOp.fill fill.recovered]
  if filled then
    ops ++
      adoptOps sha256 T
        { ledger with rows := ledger.rows.insertAll fill.recovered }
        copy head
  else ops

/- Rule 1, with fuel for one page more than there are copied rows. -/
def fillOps (ledger : Ledger) (copy : Copy) (head : Nat × Hash) : List StoreOp :=
  match fillStart sha256 T ledger with
  | .error _ => []
  | .ok start =>
      match fillFromCopy sha256 T copy head.1 (copy.rows.rows.length + 1) start with
      | some fill => filledOps sha256 T ledger copy head fill
      | none => []

def reconcileOps (ledger : Ledger) (copy : Copy) : List StoreOp :=
  match loadHead ledger with
  | none => []
  | some head =>
      if (maxSeq ledger).all (· < head.1) then
        fillOps sha256 T ledger copy head
      else adoptOps sha256 T ledger copy head

--
-- Pages of Rule 1
--

/- All the copied rows past a seq. -/
def fillRest (copy : Copy) (fromSeq : Int) : List AuditLogRow :=
  copy.rows.rows.filter (fun row => row.tenantId = T ∧ fromSeq < row.seq)

theorem fillRead_eq_take (copy : Copy) (fromSeq : Int) (limit : Nat) :
    fillRead T copy fromSeq limit = (fillRest T copy fromSeq).take limit := by
  unfold fillRead fillRest
  split_ifs with hGenesis
  · unfold readFullRowsFrom
    congr 1
    apply filter_congr
    intro row _
    rw [decide_eq_decide]
    refine and_congr_right (fun _ => ?_)
    omega
  · unfold readFullRowsAfter
    congr 1
    apply filter_congr
    intro row _
    rw [decide_eq_decide]
    refine and_congr_right (fun _ => ?_)
    omega

variable {last : AuditLogRow} {fill : Fill} {rows : List AuditLogRow}

/- What a page leaves is what is past its last row. -/
theorem fillRest_drop {copy : Copy} {fromSeq next : Int} {n : Nat}
    (hLast : ((fillRest T copy fromSeq).take n).getLast? = some last) (hNext : next = last.seq) :
    fillRest T copy next = (fillRest T copy fromSeq).drop n := by
  have hMem := mem_of_mem_take (mem_of_getLast? hLast)
  have hFrom : fromSeq < last.seq := (of_decide_eq_true (mem_filter.mp hMem).2).2
  have hSorted : (fillRest T copy fromSeq).Pairwise (fun a b => a.seq < b.seq) :=
    copy.rows.sorted.filter _
  rw [← KeyTable.filter_lt_eq_drop hSorted hLast, hNext]
  unfold fillRest
  rw [List.filter_filter]
  apply filter_congr
  intro row _
  rw [← Bool.decide_and, decide_eq_decide, and_left_comm]
  refine and_congr_right (fun _ => ?_)
  omega

/- A page that does not stop the walk is followed by the next. -/
theorem fillPage_append (headSeq : Nat) (fill : Fill) (rows rest : List AuditLogRow) :
    fillPage sha256 T headSeq fill (rows ++ rest) =
      if (fillPage sha256 T headSeq fill rows).2 then
        fillPage sha256 T headSeq fill rows
      else
        fillPage sha256 T headSeq (fillPage sha256 T headSeq fill rows).1 rest := by
  induction rows generalizing fill with
  | nil => rfl
  | cons row rows ih =>
    simp only [cons_append, fillPage]
    split
    · rfl
    · split
      · rfl
      · split
        · rfl
        · exact ih _

theorem fillPage_fromSeq {headSeq : Nat} (hGoesOn : (fillPage sha256 T headSeq fill rows).2 = false)
    (hLast : rows.getLast? = some last) :
    (fillPage sha256 T headSeq fill rows).1.fromSeq = last.seq := by
  induction rows generalizing fill with
  | nil => cases hLast
  | cons row rows ih =>
    simp only [fillPage] at hGoesOn ⊢
    by_cases hStops : row.seq ≠ (fill.fromSeq + 1).toNat ∨ headSeq < row.seq
    · rw [if_pos hStops] at hGoesOn
      cases hGoesOn
    · rw [if_neg hStops] at hGoesOn ⊢
      cases hChains : copyRowChains sha256 T row fill.runningPrev with
      | none =>
        rw [hChains] at hGoesOn
        cases hGoesOn
      | some rowHash =>
        simp only [hChains] at hGoesOn ⊢
        by_cases hTop : row.seq = headSeq
        · rw [if_pos hTop] at hGoesOn
          cases hGoesOn
        · rw [if_neg hTop] at hGoesOn ⊢
          cases rows with
          | nil =>
            cases hLast
            rfl
          | cons row' rows => exact ih hGoesOn hLast

/-
  With more fuel than rows the walk ends, and its pages are the rows past its start, none skipped.
-/
theorem fillFromCopy_eq (copy : Copy) (headSeq : Nat) {fuel : Nat}
    (hFuel : (fillRest T copy fill.fromSeq).length < fuel) :
    fillFromCopy sha256 T copy headSeq fuel fill =
      some (fillPage sha256 T headSeq fill (fillRest T copy fill.fromSeq)).1 := by
  induction fuel generalizing fill with
  | zero => cases hFuel
  | succ fuel ih =>
    have hCut := take_append_drop reconcileLimit (fillRest T copy fill.fromSeq)
    unfold fillFromCopy
    rw [fillRead_eq_take]
    cases hPage :
        (fillRest T copy fill.fromSeq).take reconcileLimit with
    | nil =>
      have hNil : fillRest T copy fill.fromSeq = [] := by
        rcases take_eq_nil_iff.mp hPage with hZero | hNil
        · cases hZero
        · exact hNil
      simp only [hNil, fillPage]
    | cons row rows =>
      rw [hPage] at hCut
      conv_rhs => rw [← hCut, fillPage_append]
      cases hWalk : fillPage sha256 T headSeq fill (row :: rows) with
      | mk fill' stops =>
        simp only [hWalk]
        cases stops with
        | true => rfl
        | false =>
          have hExists : ∃ last, (row :: rows).getLast? = some last :=
            ⟨_, getLast?_eq_some_getLast (cons_ne_nil _ _)⟩
          rcases hExists with ⟨last, hLast⟩
          have hFrom := fillPage_fromSeq sha256 T (congrArg snd hWalk) hLast
          rw [hWalk] at hFrom
          have hRest := fillRest_drop T (hPage ▸ hLast) hFrom
          simp only [Bool.false_eq_true, if_false]
          rw [← hRest]
          apply ih
          rw [hRest, length_drop]
          have hLen := congrArg length hPage
          rw [length_take, length_cons] at hLen
          omega

/- One page more than there are copied rows is enough, and what the pages give is one pass. -/
theorem fillFromCopy_whole (copy : Copy) (headSeq : Nat) (fill : Fill) :
    fillFromCopy sha256 T copy headSeq (copy.rows.rows.length + 1) fill =
      some (fillPage sha256 T headSeq fill (fillRest T copy fill.fromSeq)).1 :=
  fillFromCopy_eq sha256 T copy headSeq (Nat.lt_succ_of_le (length_filter_le _ _))

--
-- Adopted Rows
--

theorem copyRowChains_eq_some {row : AuditLogRow} {runningPrev h : Hash}
    (hChains : copyRowChains sha256 T row runningPrev = some h) :
    hexDecode row.prevHash = .ok runningPrev ∧
      hexDecode row.rowHash = .ok h ∧
      h = rowHashV2 sha256 runningPrev T row.seq row.eventType row.actor row.payload := by
  unfold copyRowChains at hChains
  split at hChains
  · rename_i prev stored hPrev hStored
    split at hChains
    · cases hChains
    · rename_i hSame
      split at hChains <;> cases hChains
      rename_i hContent
      rw [not_not] at hSame hContent
      subst hSame
      exact ⟨hPrev, hStored, hContent.symm⟩
  · cases hChains

/- Adopted rows are linked past the head. -/
theorem adoptFromCopy_links (head : Nat × Hash) (hTenant : ∀ row ∈ rows, row.tenantId = T) :
    Run (Links sha256 T) (head.1 + 1, head.2)
      (adoptFromCopy sha256 T head rows).2
      ((adoptFromCopy sha256 T head rows).1.1 + 1, (adoptFromCopy sha256 T head rows).1.2) := by
  induction rows generalizing head with
  | nil => exact .nil _
  | cons row rows ih =>
    rw [forall_mem_cons] at hTenant
    unfold adoptFromCopy
    split
    · exact .nil _
    · rename_i hSeq
      rw [not_not] at hSeq
      split
      · exact .nil _
      · rename_i rowHash hChains
        rcases copyRowChains_eq_some sha256 T hChains with ⟨hPrev, hStored, hContent⟩
        have hRest := ih (row.seq, rowHash) hTenant.2
        refine Run.cons_iff.mpr ⟨(row.seq + 1, rowHash), ?_, hRest⟩
        exact ⟨hTenant.1, hSeq, hPrev, hContent, hStored, by rw [hSeq]⟩

theorem readFullRowsAfter_tenant (copy : Copy) (afterSeq limit : Nat) :
    ∀ row ∈ readFullRowsAfter copy T afterSeq limit, row.tenantId = T := by
  intro row hRow
  have hMem := mem_of_mem_take hRow
  rw [mem_filter] at hMem
  simpa using (of_decide_eq_true hMem.2).1

--
-- Runs over a Sound Ledger
--

section Sound

variable
    {sha256 T}
    {ledger : Ledger}
    {last : Hash}
    (hRun :
      Run (Links sha256 T) (0, genesisPrevHash sha256 T)
        ledger.rows.rows (ledger.rows.rows.length, last))
    (hHead :
      ledger.head =
        if ledger.rows.rows = [] then none
        else
          some ⟨(ledger.rows.rows.length : Int) - 1, last.bytes⟩)

include hHead in
theorem loadHead_sound (hNonempty : ledger.rows.rows ≠ []) :
    loadHead ledger = some (ledger.rows.rows.length - 1, last) := by
  have hPos := length_pos_iff.mpr hNonempty
  have hArr : ByteArr.ofBytes? 32 last.bytes = some last := ByteArr.ofBytes?_eq_some_iff.mpr rfl
  unfold loadHead
  rw [hHead, if_neg hNonempty]
  simp only
  rw [if_neg (by omega), hArr]
  simp only [map_some, some.injEq, mk.injEq, and_true]
  omega

include hRun in
theorem maxSeq_sound (hNonempty : ledger.rows.rows ≠ []) :
    maxSeq ledger = some (ledger.rows.rows.length - 1) := by
  have hPos := length_pos_iff.mpr hNonempty
  unfold maxSeq
  rw [(run_links_seqs sha256 hRun).1, max?_eq_some_iff]
  refine ⟨?_, fun seq hSeq => ?_⟩
  · rw [mem_range'_1]
    omega
  · rw [mem_range'_1] at hSeq
    omega

include hRun hHead in
/-
  A run over a sound ledger only writes to the copy, or first adopts rows that continue the chain.
-/
theorem reconcileOps_sound (copy : Copy) :
    (∃ writes : List CopyWrite, reconcileOps sha256 T ledger copy = writes.map StoreOp.copy) ∨
      ∃ (rows : List AuditLogRow) (final : Nat × Hash)
        (writes : List CopyWrite),
        reconcileOps sha256 T ledger copy =
            .adopt rows :: .advance final.1 final.2 :: writes.map StoreOp.copy ∧
          rows ≠ [] ∧ ledger.rows.rows ≠ [] ∧
          Run (Links sha256 T) (ledger.rows.rows.length, last) rows (final.1 + 1, final.2) := by
  have hRebuild :
      ∀ ledger' : Ledger,
        ∃ writes : List CopyWrite, rebuildOps ledger' copy = writes.map StoreOp.copy := by
    intro ledger'
    unfold rebuildOps
    split
    · exact ⟨_, rfl⟩
    · exact ⟨[], rfl⟩
  by_cases hNonempty : ledger.rows.rows = []
  · left
    refine ⟨[], ?_⟩
    unfold reconcileOps loadHead
    rw [hHead, if_pos hNonempty]
    rfl
  · have hPos := length_pos_iff.mpr hNonempty
    unfold reconcileOps
    rw [loadHead_sound hHead hNonempty, maxSeq_sound hRun hNonempty]
    simp only [all_some, lt_irrefl, decide_false, Bool.false_eq_true, if_false]
    have hLinks :=
      adoptFromCopy_links sha256 T (ledger.rows.rows.length - 1, last)
        (readFullRowsAfter_tenant T copy (ledger.rows.rows.length - 1) reconcileLimit)
    unfold adoptOps
    generalize adoptFromCopy sha256 T (ledger.rows.rows.length - 1, last)
      (readFullRowsAfter copy T (ledger.rows.rows.length - 1) reconcileLimit) = adopted at hLinks ⊢
    by_cases hAdopts : adopted.1.1 = ledger.rows.rows.length - 1
    · left
      simp only [hAdopts, if_true]
      exact hRebuild ledger
    · right
      rcases hRebuild
          { ledger with rows := ledger.rows.insertAll adopted.2 }
        with ⟨writes, hWrites⟩
      refine ⟨adopted.2, adopted.1, writes, ?_, ?_, hNonempty, ?_⟩
      · simp [hAdopts, hWrites]
      · intro hNil
        rw [hNil, Run.nil_iff, mk.injEq] at hLinks
        simp only at hLinks
        omega
      · have hLen : ledger.rows.rows.length - 1 + 1 = ledger.rows.rows.length := by omega
        simp only [hLen] at hLinks
        exact hLinks

include hRun hHead in
/- Rows that continue the chain, with the head they give. -/
theorem sound_adopted {rows : List AuditLogRow} {final : Nat × Hash}
    (hLinks : Run (Links sha256 T) (ledger.rows.rows.length, last) rows (final.1 + 1, final.2))
    (hRows : rows ≠ []) (hNonempty : ledger.rows.rows ≠ [])
    (hFits : ∀ row ∈ rows, row.seq < i64Size) :
    (upsertHead
          { ledger with rows := ledger.rows.insertAll rows }
          final.1 final.2).Sound sha256 T ∧
      (ledger.rows.insertAll rows).rows = ledger.rows.rows ++ rows := by
  have hInsert := rows_insertAll_of_links sha256 hRun hLinks
  have hLast := getLast?_eq_some_getLast hRows
  have hTop := hFits _ (getLast_mem hRows)
  have hSeq := (run_links_last sha256 hLinks hLast).2
  have hCount := (run_links_seqs sha256 hLinks).2
  have hPos := length_pos_iff.mpr hRows
  simp only at hSeq hCount
  have hFinal : asI64 final.1 = (final.1 : Int) := by
    unfold asI64
    rw [if_pos (by omega)]
  refine ⟨⟨final.2, ?_, ?_, ?_⟩, hInsert⟩
  · simp only [upsertHead, hInsert, length_append]
    rw [← hCount]
    exact hRun.append hLinks
  · simp only [upsertHead, hInsert, length_append]
    omega
  · have hBefore : (ledger.rows.rows.length : Int) - 1 < final.1 := by omega
    simp only [upsertHead, hInsert, hHead, if_neg hNonempty, append_eq_nil_iff, hRows, and_false,
      if_false, hFinal, hBefore, if_true, length_append, some.injEq, ChainState.mk.injEq, and_true]
    omega

end Sound

namespace Recovery

/- A committed state of Postgres, and whether it lies between the two commits of an adoption. -/
structure Snapshot where
  db : Db
  adopting : Bool := false

/-
  Postgres, the tenant's copy, the committed batches whose copy write is still under way, every
  state Postgres was committed in, and what the appends that returned since the last restore
  claimed.
-/
structure World where
  db : Db := {}
  copy : Copy := {}
  uncopied : List (List AuditLogRow) := []
  snapshots : List Snapshot := [{ db := {} }]
  acked : List (Nat × PendingLedgerRow) := []

/- The reconcile stops after a number of writes; the answer of a committed append may be lost. -/
inductive Event where
| append (call : AppendCall) (returned : Bool)
| copyLands (i : Nat)
| copyFails (i : Nat)
| restore (i : Nat)
| reconcile (stop : Nat)

def World.ledger (w : World) : Ledger :=
  w.db.ledgers T

def World.commit (w : World) (db : Db) (adopting : Bool) : World :=
  { w with
    db := db
    snapshots := w.snapshots ++ [⟨db, adopting⟩] }

def World.commitLedger (w : World) (ledger : Ledger) (adopting : Bool) : World :=
  w.commit
    { w.db with
      ledgers := update w.db.ledgers T ledger }
    adopting

--
-- Steps
--

/- The seqs a batch claims for the events it keeps. -/
def claims (items : List PendingLedgerRow)
    (done : AtomicBatchAppend) : List (Nat × PendingLedgerRow) :=
  (done.kept.zipIdx done.firstSeq).filterMap
    (fun entry => (items[entry.1]?).map (fun item => (entry.2, item)))

def stepAppend (w : World) (call : AppendCall) (returned : Bool) : World :=
  if call.aborted then w
  else
    match
      appendPgBatch sha256 w.db call.tenantId call.items call.eventIds call.eventTime with
    | .error _ => w
    | .ok (none, db) => { w with db := db }
    | .ok (some done, db) =>
        let w := w.commit db false
        if call.tenantId = T then
          { w with
            uncopied := w.uncopied ++ [done.rows]
            acked :=
              if returned then w.acked ++ claims call.items done
              else w.acked }
        else w

def World.applyOp (w : World) : StoreOp → Except String World
| .fill rows =>
    (insertRowsTx (w.ledger T) rows).map (w.commitLedger T · false)
| .adopt rows =>
    (insertRowsTx (w.ledger T) rows).map (w.commitLedger T · true)
| .advance lastSeq lastRowHash =>
    .ok (w.commitLedger T (upsertHead (w.ledger T) lastSeq lastRowHash) false)
| .copy write => .ok { w with copy := w.copy.write write }

/- A failed write ends the run. -/
def World.applyOps : World → List StoreOp → World
| w, [] => w
| w, op :: ops =>
    match w.applyOp T op with
    | .ok w' => World.applyOps w' ops
    | .error _ => w

def step (w : World) : Event → Option World
| .append call returned => some (stepAppend sha256 T w call returned)
| .copyLands i =>
    match w.uncopied[i]? with
    | some rows =>
        some
          { w with
            copy := w.copy.write (.rows rows)
            uncopied := w.uncopied.eraseIdx i }
    | none => none
| .copyFails i =>
    match w.uncopied[i]? with
    | some _ => some { w with uncopied := w.uncopied.eraseIdx i }
    | none => none
| .restore i =>
    match w.snapshots[i]? with
    | some snapshot => some { w with db := snapshot.db, acked := [] }
    | none => none
| .reconcile stop =>
    some (w.applyOps T ((reconcileOps sha256 T (w.ledger T) w.copy).take stop))

/-
  The rows are chained from genesis up to the head, and each
  acknowledged event is stored at the seq it claimed.
-/
structure Intact (w : World) : Prop where
  canonical : (w.ledger T).Sound sha256 T
  stored :
    ∀ claim ∈ w.acked, ∃ row ∈ (w.ledger T).rows.rows, row.seq = claim.1 ∧ row.event = claim.2

/-
  No run of the reconcile stops between inserting the rows it adopts and advancing the head, and no
  restore is to a state between the two.
-/
def unbroken (w : World) : Event → Bool
| .restore i =>
    match w.snapshots[i]? with
    | some snapshot => !snapshot.adopting
    | none => true
| .reconcile stop =>
    match
      ((reconcileOps sha256 T (w.ledger T) w.copy).take
        stop).getLast? with
    | some (.adopt _) => false
    | _ => true
| _ => true

--
-- Invariant
--

structure Inv (w : World) : Prop where
  intact : Intact sha256 T w
  snapshots :
    ∀ snapshot ∈ w.snapshots, snapshot.adopting = false → (snapshot.db.ledgers T).Sound sha256 T

theorem inv_empty : Inv sha256 T {} where
  intact := ⟨Ledger.sound_empty sha256 T, by simp⟩
  snapshots := by
    intro snapshot hSnapshot _
    rw [mem_singleton.mp hSnapshot]
    exact Ledger.sound_empty sha256 T

variable {sha256 T} {w : World}

/- Each claim of a batch is one of its rows. -/
theorem claims_rows {items : List PendingLedgerRow} {kept : List Nat} {rows : List AuditLogRow}
    (hEvents : List.Forall₂ (fun idx row => items[idx]? = some row.event) kept rows)
    {firstSeq : Nat} (hSeqs : rows.map AuditLogRow.seq = List.range' firstSeq rows.length) :
    ∀ claim ∈
        (kept.zipIdx firstSeq).filterMap (fun entry =>
          (items[entry.1]?).map (fun item => (entry.2, item))),
      ∃ row ∈ rows, row.seq = claim.1 ∧ row.event = claim.2 := by
  induction hEvents generalizing firstSeq with
  | nil => simp
  | @cons idx row kept rows hItem _ ih =>
    rw [map_cons, length_cons, range'_succ, cons.injEq] at hSeqs
    intro claim hClaim
    rw [zipIdx_cons, filterMap_cons, hItem] at hClaim
    simp only [map_some, mem_cons] at hClaim
    rcases hClaim with rfl | hClaim
    · exact ⟨row, by simp, hSeqs.1, rfl⟩
    · rcases ih hSeqs.2 claim hClaim with ⟨row', hRow', hEq⟩
      exact ⟨row', mem_cons_of_mem _ hRow', hEq⟩

variable {w' : World}

/- Commits that keep the rows and end in a sound ledger. -/
theorem Inv.move (hInv : Inv sha256 T w) (hSound : (w'.ledger T).Sound sha256 T)
    (hRows : ∀ row ∈ (w.ledger T).rows.rows, row ∈ (w'.ledger T).rows.rows)
    (hAcked : w'.acked = w.acked)
    (hSnapshots :
      ∀ snapshot ∈ w'.snapshots, snapshot.adopting = false →
        snapshot ∈ w.snapshots ∨ snapshot.db = w'.db) :
    Inv sha256 T w' where
  intact := by
    refine ⟨hSound, ?_⟩
    rw [hAcked]
    intro claim hClaim
    rcases hInv.intact.stored claim hClaim with ⟨row, hRow, hEq⟩
    exact ⟨row, hRows row hRow, hEq⟩
  snapshots := by
    intro snapshot hSnapshot hWhole
    rcases hSnapshots snapshot hSnapshot hWhole with hOld | hNew
    · exact hInv.snapshots snapshot hOld hWhole
    · rw [hNew]
      exact hSound

/- Postgres is untouched. -/
theorem Inv.frame (hInv : Inv sha256 T w) (copy : Copy) (uncopied : List (List AuditLogRow)) :
    Inv sha256 T { w with copy := copy, uncopied := uncopied } :=
  hInv.move hInv.intact.canonical (fun _ hRow => hRow) rfl (fun _ hSnapshot _ => .inl hSnapshot)

theorem Inv.stepAppend (hInv : Inv sha256 T w) (call : AppendCall) (returned : Bool) :
    Inv sha256 T (stepAppend sha256 T w call returned) := by
  unfold Recovery.stepAppend
  split
  · exact hInv
  · split
    · exact hInv
    · rename_i db hAppend
      rcases (appendPgBatch_eq_ok sha256 hAppend).2 with ⟨_, rfl, _⟩ | ⟨_, _, hDone, _⟩
      · exact hInv
      · cases hDone
    · rename_i done db hAppend
      rcases (appendPgBatch_eq_ok sha256 hAppend).2 with
        ⟨hNone, _⟩ | ⟨_, ledger', hDone, hCommitted, _, hDb⟩
      · cases hNone
      · cases hDone
        have hLast :
            ∀ snapshot ∈ (w.commit db false).snapshots,
              snapshot.adopting = false → snapshot ∈ w.snapshots ∨ snapshot.db = db := by
          intro snapshot hSnapshot _
          rcases mem_append.mp hSnapshot with hOld | hNew
          · exact .inl hOld
          · rw [mem_singleton.mp hNew]
            exact .inr rfl
        by_cases hTenant : call.tenantId = T
        · subst hTenant
          rcases hCommitted.sound sha256 hInv.intact.canonical with ⟨hSound, hFirst, hRows⟩
          have hLedger : db.ledgers call.tenantId = ledger' := by
            rw [hDb]
            exact update_self _ _ _
          have hCommit : Inv sha256 call.tenantId (w.commit db false) := by
            refine hInv.move ?_ ?_ rfl hLast
            · simp only [World.ledger, World.commit, hLedger]
              exact hSound
            · intro row hRow
              simp only [World.ledger, World.commit, hLedger, hRows]
              exact mem_append_left _ hRow
          simp only [if_true]
          refine ⟨⟨hCommit.intact.canonical, ?_⟩, hCommit.snapshots⟩
          intro claim hClaim
          split at hClaim
          · rcases mem_append.mp hClaim with hOld | hNew
            · exact hCommit.intact.stored claim hOld
            · rcases hCommitted.commits with ⟨_, hBatch, _⟩
              rcases claims_rows hCommitted.events (run_links_seqs sha256 hBatch).1 claim hNew
                with ⟨row, hRow, hEq⟩
              refine ⟨row, ?_, hEq⟩
              simp only [World.ledger, World.commit, hLedger, hRows]
              exact mem_append_right _ hRow
          · exact hCommit.intact.stored claim hClaim
        · have hLedger : db.ledgers T = w.ledger T := by
            rw [hDb]
            exact update_of_ne (Ne.symm hTenant) _ _
          rw [if_neg hTenant]
          refine hInv.move ?_ ?_ rfl hLast
          · simp only [World.ledger, World.commit, hLedger]
            exact hInv.intact.canonical
          · intro row hRow
            simp only [World.ledger, World.commit, hLedger]
            exact hRow

/- Writes to the copy change nothing else. -/
theorem applyOps_copy (w : World) (writes : List CopyWrite) :
    w.applyOps T (writes.map StoreOp.copy) = { w with copy := writes.foldl Copy.write w.copy } := by
  induction writes generalizing w with
  | nil => rfl
  | cons write writes ih =>
    simp only [map_cons, World.applyOps, World.applyOp]
    rw [ih]
    rfl

theorem Inv.stepReconcile (hInv : Inv sha256 T w) (stop : Nat)
    (hUnbroken : unbroken sha256 T w (.reconcile stop) = true) :
    Inv sha256 T (w.applyOps T ((reconcileOps sha256 T (w.ledger T) w.copy).take stop)) := by
  have hCopied :
      ∀ w' : World, Inv sha256 T w' →
        ∀ (writes : List CopyWrite) (n : Nat),
          Inv sha256 T (w'.applyOps T ((writes.map StoreOp.copy).take n)) := by
    intro w' hInv' writes n
    rw [← map_take, applyOps_copy]
    exact hInv'.frame _ _
  rcases hInv.intact.canonical with ⟨last, hRun, hFits, hHead⟩
  rcases reconcileOps_sound hRun hHead w.copy with
    ⟨writes, hOps⟩ | ⟨rows, final, writes, hOps, hRows, hNonempty, hLinks⟩
  · rw [hOps]
    exact hCopied w hInv writes stop
  · unfold unbroken at hUnbroken
    rw [hOps] at hUnbroken ⊢
    -- The run ends before the adoption or after the advance.
    cases stop with
    | zero => exact hInv
    | succ stop =>
      cases stop with
      | zero => simp at hUnbroken
      | succ stop =>
        simp only [take_succ_cons, World.applyOps, World.applyOp]
        cases hInsert : insertRowsTx (w.ledger T) rows with
        | error e => exact hInv
        | ok ledger' =>
          rcases insertRowsTx_eq_ok_iff.mp hInsert with ⟨hSeqs, rfl⟩
          rcases sound_adopted hRun hHead hLinks hRows hNonempty hSeqs with ⟨hSound, hInserted⟩
          simp only [Except.map]
          apply hCopied
          refine hInv.move ?_ ?_ rfl ?_
          · simp only [World.ledger, World.commitLedger, World.commit, update_self]
            exact hSound
          · intro row hRow
            simp only [World.ledger, World.commitLedger, World.commit, update_self, upsertHead]
            simp only [World.ledger] at hInserted
            rw [hInserted]
            exact mem_append_left _ hRow
          · intro snapshot hSnapshot hWhole
            simp only [World.commitLedger, World.commit, append_assoc, mem_append,
              mem_singleton] at hSnapshot
            rcases hSnapshot with hOld | rfl | rfl
            · exact .inl hOld
            · cases hWhole
            · exact .inr rfl

theorem Inv.step {event : Event} (hInv : Inv sha256 T w)
    (hUnbroken : unbroken sha256 T w event) (hStep : step sha256 T w event = some w') :
    Inv sha256 T w' := by
  cases event with
  | append call returned =>
    cases hStep
    exact hInv.stepAppend call returned
  | copyLands _ | copyFails _ =>
    simp only [Recovery.step] at hStep
    split at hStep <;> cases hStep
    exact hInv.frame _ _
  | restore i =>
    simp only [Recovery.step] at hStep
    split at hStep <;> cases hStep
    rename_i snapshot hAt
    simp only [unbroken, hAt, Bool.not_eq_true'] at hUnbroken
    refine ⟨⟨?_, by simp⟩, hInv.snapshots⟩
    exact hInv.snapshots snapshot (mem_of_getElem? hAt) hUnbroken
  | reconcile stop =>
    cases hStep
    exact hInv.stepReconcile stop hUnbroken

/-
  In every run that never breaks an adoption in two, the ledger is canonical and holds every event
  acknowledged since the last restore.
-/
theorem run_intact {events : List Event}
    (hRun :
      Run (fun w event w' => unbroken sha256 T w event ∧ step sha256 T w event = some w')
        {} events w) :
    Intact sha256 T w := by
  have hInv : Inv sha256 T w :=
    hRun.invariant (fun _ _ _ hInv hStep => hInv.step hStep.1 hStep.2) (inv_empty sha256 T)
  exact hInv.intact

--
-- A Broken Adoption
--

/- The rows' seqs and events, the head's seq, the claims. -/
def World.view (w : World) :
    List (Nat × PendingLedgerRow) × Option Int × List (Nat × PendingLedgerRow) :=
  ((w.ledger sampleTenant).rows.rows.map (fun row => (row.seq, row.event)),
    (w.ledger sampleTenant).head.map ChainState.lastSeq,
    w.acked)

def laterEvent : PendingLedgerRow :=
  { sampleEvent with payloadJson := ⟨"true", by decide⟩ }

/-
  Two appends are copied, Postgres is restored to the first, and the boot reconcile adopts the
  second back, up to a number of writes.  A third event is appended after that.
-/
def restoredRun (stop : Nat) : List Event :=
  [ .append (sampleCall 0) true,
    .append (sampleCall 1) true,
    .copyLands 0, .copyLands 0,
    .restore 1,
    .reconcile stop,
    .append { sampleCall 2 with items := [laterEvent] } true ]

theorem not_intact_of_head {rows acked : List (Nat × PendingLedgerRow)} {lastSeq : Int}
    (hView : w.view = (rows, some lastSeq, acked)) (hAhead : lastSeq + 1 < rows.length) :
    ¬ Intact sha256 sampleTenant w := by
  intro hIntact
  rcases hIntact.canonical with ⟨_, _, _, hHead⟩
  simp only [World.view, mk.injEq, hHead] at hView
  rcases hView with ⟨rfl, hSeq, _⟩
  rw [length_map] at hAhead
  split at hSeq
  · cases hSeq
  · simp only [map_some, some.injEq] at hSeq
    omega

theorem not_intact_of_claim {rows acked : List (Nat × PendingLedgerRow)} {head : Option Int}
    (hView : w.view = (rows, head, acked)) (hLost : ∃ claim ∈ acked, claim ∉ rows) :
    ¬ Intact sha256 sampleTenant w := by
  intro hIntact
  simp only [World.view, mk.injEq] at hView
  rcases hView with ⟨rfl, _, rfl⟩
  rcases hLost with ⟨claim, hClaim, hMissing⟩
  rcases hIntact.stored claim hClaim with ⟨row, hRow, hSeq, hEvent⟩
  apply hMissing
  exact mem_map.mpr ⟨row, hRow, Prod.ext hSeq hEvent⟩

/-
  Stopped after its first write, the reconcile leaves a row past the head.  The next append returns,
  the head moves on, and the event it claims a seq for is not stored there.
-/
theorem restoredRun_one_not_intact :
    (∃ w,
        Run (fun w event w' => step Sha256.digest sampleTenant w event = some w')
            {} ((restoredRun 1).take 6) w ∧
          w.view = ([(0, sampleEvent), (1, sampleEvent)], some 0, []) ∧
          ¬ Intact Sha256.digest sampleTenant w) ∧
      ∃ w,
        Run
            (fun w event w' => step Sha256.digest sampleTenant w event = some w')
            {} (restoredRun 1) w ∧
          w.view = ([(0, sampleEvent), (1, sampleEvent)], some 1, [(1, laterEvent)]) ∧
          ¬ Intact Sha256.digest sampleTenant w :=
  ⟨Run.exists_and (Run.eval (by decide +kernel)) (fun _ _ hView =>
      not_intact_of_head hView (by decide)),
    Run.exists_and (Run.eval (by decide +kernel)) (fun _ _ hView =>
      not_intact_of_claim hView (by decide))⟩

/- Run to its end, the reconcile keeps the ledger intact. -/
theorem restoredRun_two_intact :
    ∃ w,
      Run
          (fun w event w' =>
            unbroken Sha256.digest sampleTenant w event ∧
              step Sha256.digest sampleTenant w event = some w')
          {} (restoredRun 2) w ∧
        w.view =
          ([(0, sampleEvent), (1, sampleEvent), (2, laterEvent)], some 2, [(2, laterEvent)]) ∧
        Intact Sha256.digest sampleTenant w :=
  Run.exists_and (Run.eval_guard (by decide +kernel)) (fun _ hRun _ => run_intact hRun)

end Recovery

end Tracelane.Gateway
