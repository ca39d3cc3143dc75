import Tracelane.Gateway.Append

/-
  The head writer: events published to the audit stream are delivered at least once to shard
  workers, which append them in batches and acknowledge what they appended.

  Any number of workers share the database, so two processes are workers like any others.
-/

namespace Tracelane.Gateway

open List Function

variable (sha256 : Bytes → Hash)

--
-- Wire Events
--

structure AuditEventWire where
  eventId : String
  tenantId : TenantId
  eventType : Text
  actor : Text
  payloadJson : Text
deriving DecidableEq

def AuditEventWire.item (wire : AuditEventWire) : PendingLedgerRow where
  eventType := wire.eventType
  actor := wire.actor
  payloadJson := wire.payloadJson

def appendBatchFromWire (db : Db) (wires : List AuditEventWire) (eventTime : Int) :
    Except String (Option AtomicBatchAppend × Db) :=
  match wires with
  | [] => .ok (none, db)
  | first :: _ =>
      if wires.all (fun w => w.tenantId = first.tenantId) then
        appendPgBatch sha256 db first.tenantId
          (wires.map AuditEventWire.item)
          (some (wires.map AuditEventWire.eventId)) eventTime
      else
        .error "append_batch_from_wire: a batch must carry ONE tenant"

/- Add an event to its tenant's group, or start one. -/
def pushGroup (q : AuditEventWire) :
    List (TenantId × List AuditEventWire) → List (TenantId × List AuditEventWire)
| [] => [(q.tenantId, [q])]
| (t, group) :: groups =>
    if t = q.tenantId then (t, group ++ [q]) :: groups
    else (t, group) :: pushGroup q groups

def groupByTenant (batch : List AuditEventWire) : List (List AuditEventWire) :=
  (batch.foldl (fun groups q => pushGroup q groups) []).map Prod.snd

/- The events a committed batch kept. -/
def keptWires (wires : List AuditEventWire) (kept : List Nat) : List AuditEventWire :=
  kept.filterMap (fun idx => wires[idx]?)

--
-- Groups
--

theorem mem_pushGroup {q : AuditEventWire} {groups : List (TenantId × List AuditEventWire)}
    {entry : TenantId × List AuditEventWire} (hEntry : entry ∈ pushGroup q groups) :
    ∀ w ∈ entry.2,
      (w = q ∧ q.tenantId = entry.1) ∨ ∃ old ∈ groups, old.1 = entry.1 ∧ w ∈ old.2 := by
  induction groups with
  | nil =>
    unfold pushGroup at hEntry
    rw [mem_singleton.mp hEntry]
    intro w hW
    exact .inl ⟨mem_singleton.mp hW, rfl⟩
  | cons group groups ih =>
    have hLater :
        entry ∈ groups →
          ∀ w ∈ entry.2,
            (w = q ∧ q.tenantId = entry.1) ∨ ∃ old ∈ group :: groups, old.1 = entry.1 ∧ w ∈ old.2 :=
      fun hMem w hW => .inr ⟨entry, mem_cons_of_mem _ hMem, rfl, hW⟩
    rcases group with ⟨t, members⟩
    unfold pushGroup at hEntry
    split_ifs at hEntry with hTenant
    · rcases mem_cons.mp hEntry with rfl | hRest
      · intro w hW
        rcases mem_append.mp hW with hOld | hNew
        · exact .inr ⟨(t, members), by simp, rfl, hOld⟩
        · exact .inl ⟨mem_singleton.mp hNew, hTenant.symm⟩
      · exact hLater hRest
    · rcases mem_cons.mp hEntry with rfl | hRest
      · intro w hW
        exact .inr ⟨(t, members), by simp, rfl, hW⟩
      · intro w hW
        rcases ih hRest w hW with hNew | ⟨old, hOld, hSame⟩
        · exact .inl hNew
        · exact .inr ⟨old, mem_cons_of_mem _ hOld, hSame⟩

/- A group has one tenant, and events of the batch only. -/
theorem mem_groupByTenant {batch group : List AuditEventWire}
    (hGroup : group ∈ groupByTenant batch) :
    ∃ T, ∀ w ∈ group, w.tenantId = T ∧ w ∈ batch := by
  have hFold :
      ∀ (rest done : List AuditEventWire)
        (groups : List (TenantId × List AuditEventWire)),
        (∀ entry ∈ groups, ∀ w ∈ entry.2, w.tenantId = entry.1 ∧ w ∈ done) →
        ∀ entry ∈ rest.foldl (fun groups q => pushGroup q groups) groups,
          ∀ w ∈ entry.2, w.tenantId = entry.1 ∧ w ∈ done ++ rest := by
    intro rest
    induction rest with
    | nil =>
      intro done groups hGroups
      simpa using hGroups
    | cons q rest ih =>
      intro done groups hGroups
      have hPushed :
          ∀ entry ∈ pushGroup q groups, ∀ w ∈ entry.2, w.tenantId = entry.1 ∧ w ∈ done ++ [q] := by
        intro entry hEntry w hW
        rcases mem_pushGroup hEntry w hW with ⟨rfl, hTenant⟩ | ⟨old, hOld, hSame, hMem⟩
        · exact ⟨hTenant, by simp⟩
        · rcases hGroups old hOld w hMem with ⟨hTenant, hDone⟩
          exact ⟨by rw [hTenant, hSame], mem_append_left _ hDone⟩
      have hRest := ih (done ++ [q]) _ hPushed
      simpa using hRest
  rcases mem_map.mp hGroup with ⟨entry, hEntry, rfl⟩
  have hAll := hFold batch [] [] (by simp) entry hEntry
  exact ⟨entry.1, by simpa using hAll⟩

--
-- New Events
--

variable {id : String} {kept : List Nat}

theorem mem_filterSeen {seen ids : List String} :
    id ∈ filterSeen seen ids ↔ id ∈ ids ∧ id ∉ seen := by
  induction ids generalizing seen with
  | nil => simp [filterSeen]
  | cons x xs ih =>
    unfold filterSeen
    split
    · rename_i hSeen
      rw [ih, mem_cons]
      constructor
      · rintro ⟨hId, hNew⟩
        exact ⟨.inr hId, hNew⟩
      · rintro ⟨rfl | hId, hNew⟩
        · exact absurd hSeen hNew
        · exact ⟨hId, hNew⟩
    · rename_i hFresh
      rw [mem_cons, ih, mem_cons, mem_cons, not_or]
      by_cases hSame : id = x
      · subst hSame
        simp [hFresh]
      · simp [hSame]

theorem nodup_filterSeen (seen ids : List String) :
    (filterSeen seen ids).Nodup := by
  induction ids generalizing seen with
  | nil => exact nodup_nil
  | cons x xs ih =>
    unfold filterSeen
    split
    · exact ih seen
    · refine nodup_cons.mpr ⟨?_, ih _⟩
      rw [mem_filterSeen]
      simp

theorem mem_freshIds {appended ids : List String} :
    id ∈ freshIds appended ids ↔ id ∈ ids ∧ id ∉ appended := by
  unfold freshIds
  rw [mem_filter, mem_filterSeen]
  simp

variable (appended ids : List String)

theorem nodup_freshIds :
    (freshIds appended ids).Nodup :=
  (nodup_filterSeen [] ids).filter _

/- The kept indices are where the new ids are. -/
theorem keptIndices_ids :
    ((keptIndices appended ids).filterMap (fun i => ids[i]?)).Perm (freshIds appended ids) := by
  unfold keptIndices
  have hSorted :=
    (perm_insertionSort (· ≤ ·)
      ((freshIds appended ids).map (fun id => ids.idxOf id))).filterMap (fun i => ids[i]?)
  have hBack :
      ((freshIds appended ids).map (fun id => ids.idxOf id)).filterMap
          (fun i => ids[i]?) =
        freshIds appended ids := by
    rw [filterMap_map]
    conv_rhs => rw [← filterMap_some (l := freshIds appended ids)]
    apply filterMap_congr
    intro id hId
    exact getElem?_idxOf (mem_freshIds.mp hId).1
  rw [hBack] at hSorted
  exact hSorted

theorem map_keptWires (wires : List AuditEventWire) (kept : List Nat) :
    (keptWires wires kept).map AuditEventWire.eventId =
      kept.filterMap (fun i => (wires.map AuditEventWire.eventId)[i]?) := by
  unfold keptWires
  rw [map_filterMap]
  simp only [getElem?_map]

variable {wires : List AuditEventWire}

theorem keptWires_subset {wire : AuditEventWire} (hKept : wire ∈ keptWires wires kept) :
    wire ∈ wires := by
  unfold keptWires at hKept
  rcases mem_filterMap.mp hKept with ⟨idx, _, hAt⟩
  exact mem_of_getElem? hAt

/- The rows at the kept indices hold the kept events. -/
theorem keptWires_rows {rows : List AuditLogRow}
    (hEvents :
      List.Forall₂ (fun idx row => (wires.map AuditEventWire.item)[idx]? = some row.event)
        kept rows) :
    List.Forall₂ (fun wire row => row.event = wire.item) (keptWires wires kept) rows := by
  unfold keptWires
  induction hEvents with
  | nil => exact .nil
  | cons hItem _ ih =>
    rw [getElem?_map] at hItem
    rcases Option.map_eq_some_iff.mp hItem with ⟨wire, hWire, hEvent⟩
    rw [filterMap_cons_some hWire]
    exact .cons hEvent.symm ih

--
-- One Append
--

/-
  What an append of wire events does when it succeeds: nothing, if each was appended before, or one
  batch of the new ones on their tenant's chain.
-/
theorem appendBatchFromWire_eq_ok
    {db db' : Db} {eventTime : Int} {outcome : Option AtomicBatchAppend}
    (hAppend : appendBatchFromWire sha256 db wires eventTime = .ok (outcome, db')) :
    (outcome = none ∧ db' = db ∧
        ∀ w ∈ wires, w.eventId ∈ db.appended) ∨
      ∃ first rest done ledger',
        wires = first :: rest ∧
          (∀ w ∈ wires, w.tenantId = first.tenantId) ∧
          outcome = some done ∧
          Committed sha256 first.tenantId
            (wires.map AuditEventWire.item)
            (db.ledgers first.tenantId) done ledger' ∧
          ((keptWires wires done.kept).map AuditEventWire.eventId).Perm
            (freshIds db.appended (wires.map AuditEventWire.eventId)) ∧
          db' =
            { ledgers :=
                update db.ledgers first.tenantId ledger'
              appended :=
                db.appended ++ freshIds db.appended
                    (wires.map AuditEventWire.eventId) } := by
  cases wires with
  | nil =>
    cases hAppend
    exact .inl ⟨rfl, rfl, by simp⟩
  | cons first rest =>
    unfold appendBatchFromWire at hAppend
    simp only at hAppend
    split at hAppend
    · rename_i hTenants
      have hIds := keptIndices_ids db.appended ((first :: rest).map AuditEventWire.eventId)
      rcases (appendPgBatch_eq_ok sha256 hAppend).2 with
        ⟨hNone, hDb, hEmpty⟩ | ⟨done, ledger', hDone, hCommitted, hKept, hDb⟩
      · rcases hEmpty with hNil | hKept
        · cases hNil
        · -- No index was kept, so no id was new.
          simp only [keptFor] at hKept
          rw [hKept] at hIds
          have hFresh := nil_perm.mp hIds
          refine .inl ⟨hNone, hDb, fun w hW => ?_⟩
          by_contra hNew
          have hMem := mem_freshIds.mpr ⟨mem_map_of_mem hW, hNew⟩
          rw [hFresh] at hMem
          cases hMem
      · simp only [keptFor] at hKept
        refine .inr ⟨first, rest, done, ledger', rfl, ?_, hDone, hCommitted, ?_, hDb⟩
        · simpa only [all_eq_true, decide_eq_true_eq] using hTenants
        · rw [map_keptWires, hKept]
          exact hIds
    · cases hAppend

/- A batch of events already appended changes nothing. -/
theorem appendBatchFromWire_replay {db : Db} {T : TenantId} (eventTime : Int)
    (hTenants : ∀ w ∈ wires, w.tenantId = T) (hAppended : ∀ w ∈ wires, w.eventId ∈ db.appended) :
    appendBatchFromWire sha256 db wires eventTime = .ok (none, db) := by
  cases wires with
  | nil => rfl
  | cons first rest =>
    have hAll : (first :: rest).all (fun w => w.tenantId = first.tenantId) = true := by
      simp only [all_eq_true, decide_eq_true_eq]
      intro w hW
      rw [hTenants w hW, hTenants first (by simp)]
    have hFresh : freshIds db.appended ((first :: rest).map AuditEventWire.eventId) = [] := by
      apply eq_nil_iff_forall_not_mem.mpr
      intro id hId
      rcases mem_freshIds.mp hId with ⟨hMem, hNew⟩
      rcases mem_map.mp hMem with ⟨w, hW, rfl⟩
      exact hNew (hAppended w hW)
    have hKept :
        (keptIndices db.appended ((first :: rest).map AuditEventWire.eventId)).isEmpty = true := by
      unfold keptIndices
      rw [hFresh]
      rfl
    unfold appendBatchFromWire
    simp only
    rw [if_pos hAll]
    unfold appendPgBatch appendAtomicBatch
    rw [if_neg (by simp)]
    simp only
    rw [if_neg (by simp), if_pos hKept]

namespace HeadWriter

--
-- State
--

def batchMax : Nat := 32

/-
  A shard worker: its queue, the groups of the batch it
  drained, and the messages it has still to acknowledge.
-/
structure Worker where
  queue : List AuditEventWire := []
  groups : List (List AuditEventWire) := []
  acking : List AuditEventWire := []
deriving DecidableEq

/-
  `chain` names the events behind each tenant's rows, in
  order: those at the indices the appends kept.
-/
structure State where
  db : Db := {}
  published : List AuditEventWire := []
  workers : List Worker
  acked : List AuditEventWire := []
  chain : TenantId → List AuditEventWire := fun _ => []

/-
  What an append comes to: it returns, its transaction is
  aborted, or it commits and the answer is lost.
-/
inductive Outcome where
| returned
| aborted
| lost
deriving DecidableEq

/- The number is the worker.  A published event is delivered any number of times, to any worker. -/
inductive Event where
| publish (wire : AuditEventWire)
| deliver (i : Nat) (wire : AuditEventWire)
| drain (i n : Nat)
| append (i : Nat) (eventTime : Int) (outcome : Outcome)
| ack (i : Nat) (reached : Bool)
| restart (i : Nat)
deriving DecidableEq

/- A committed batch, with the events behind its rows. -/
def State.commit (s : State) (wires : List AuditEventWire) :
    Option AtomicBatchAppend × Db → State
| (none, db) => { s with db := db }
| (some done, db) =>
    match wires with
    | [] => { s with db := db }
    | first :: _ =>
        { s with
          db := db
          chain :=
            Function.update s.chain first.tenantId
              (s.chain first.tenantId ++ keptWires wires done.kept) }

--
-- Steps
--

/- An event that cannot happen changes nothing. -/
def step (s : State) : Event → State
| .publish wire =>
    if wire.eventId ∈ s.published.map AuditEventWire.eventId then
      s
    else { s with published := s.published ++ [wire] }
| .deliver i wire =>
    match s.workers[i]? with
    | some worker =>
        if wire ∈ s.published then
          { s with
            workers :=
              s.workers.set i
                { worker with queue := worker.queue ++ [wire] } }
        else s
    | none => s
| .drain i n =>
    match s.workers[i]? with
    | some ⟨queue, [], []⟩ =>
        { s with
          workers :=
            s.workers.set i
              { queue := queue.drop (min n batchMax)
                groups :=
                  groupByTenant (queue.take (min n batchMax)) } }
    | _ => s
| .append i eventTime outcome =>
    match s.workers[i]? with
    | some ⟨queue, wires :: groups, []⟩ =>
        let failed :=
          { s with workers := s.workers.set i ⟨queue, groups, []⟩ }
        if outcome = .aborted then failed
        else
          match appendBatchFromWire sha256 s.db wires eventTime with
          | .error _ => failed
          | .ok done =>
              { s.commit wires done with
                workers :=
                  s.workers.set i
                    ⟨queue, groups,
                      if outcome = .returned then wires else []⟩ }
    | _ => s
| .ack i reached =>
    match s.workers[i]? with
    | some ⟨queue, groups, wire :: acking⟩ =>
        { s with
          workers := s.workers.set i ⟨queue, groups, acking⟩
          acked := if reached then s.acked ++ [wire] else s.acked }
    | _ => s
| .restart i =>
    match s.workers[i]? with
    | some _ => { s with workers := s.workers.set i {} }
    | none => s

/- Any number of idle workers over an empty database. -/
def run (workers : Nat) (events : List Event) : State :=
  events.foldl (step sha256) { workers := List.replicate workers {} }

/-
  Each tenant's rows hold the events of its chain, one row each, at the seqs from zero.  No event is
  twice in the chains or in another tenant's; each acknowledged event is once in its own; and a
  batch of events already appended changes nothing.
-/
structure ExactlyOnce (s : State) : Prop where
  rows :
    ∀ T, List.Forall₂ (fun wire row => row.event = wire.item) (s.chain T) (s.db.ledgers T).rows.rows
  seqs : ∀ T, (s.db.ledgers T).rows.rows.map AuditLogRow.seq = List.range (s.chain T).length
  tenants : ∀ T, ∀ wire ∈ s.chain T, wire.tenantId = T
  once : ∀ T, ((s.chain T).map AuditEventWire.eventId).Nodup
  elsewhere :
    ∀ T T', ∀ wire ∈ s.chain T, ∀ wire' ∈ s.chain T', wire.eventId = wire'.eventId → T = T'
  acked : ∀ wire ∈ s.acked, (s.chain wire.tenantId).count wire = 1
  replay :
    ∀ T eventTime wires, (∀ wire ∈ wires, wire ∈ s.chain T) →
      appendBatchFromWire sha256 s.db wires eventTime = .ok (none, s.db)

--
-- Invariant
--

/- A worker holds published events, and is to acknowledge only those in their tenant's chain. -/
structure Worker.Holds (published : List AuditEventWire)
    (chain : TenantId → List AuditEventWire) (worker : Worker) : Prop where
  queue : ∀ wire ∈ worker.queue, wire ∈ published
  groups : ∀ group ∈ worker.groups, ∀ wire ∈ group, wire ∈ published
  acking : ∀ wire ∈ worker.acking, wire ∈ chain wire.tenantId

structure Inv (s : State) : Prop where
  sound : ∀ T, (s.db.ledgers T).Sound sha256 T
  rows :
    ∀ T, List.Forall₂ (fun wire row => row.event = wire.item) (s.chain T) (s.db.ledgers T).rows.rows
  distinct : (s.published.map AuditEventWire.eventId).Nodup
  tenants : ∀ T, ∀ wire ∈ s.chain T, wire.tenantId = T
  known : ∀ T, ∀ wire ∈ s.chain T, wire ∈ s.published
  once : ∀ T, ((s.chain T).map AuditEventWire.eventId).Nodup
  appended : ∀ id, id ∈ s.db.appended ↔ ∃ T, ∃ wire ∈ s.chain T, wire.eventId = id
  workers : ∀ worker ∈ s.workers, worker.Holds s.published s.chain
  acked : ∀ wire ∈ s.acked, wire ∈ s.chain wire.tenantId

variable {sha256}

theorem Inv.init (workers : Nat) :
    Inv sha256 { workers := List.replicate workers {} } where
  sound := Ledger.sound_empty sha256
  rows := fun _ => .nil
  distinct := nodup_nil
  tenants := by simp
  known := by simp
  once := fun _ => nodup_nil
  appended := by simp
  workers := by
    intro worker hWorker
    rw [eq_of_mem_replicate hWorker]
    exact ⟨by simp, by simp, by simp⟩
  acked := by simp

variable {s : State} {wire : AuditEventWire}

section

variable (hInv : Inv sha256 s)
include hInv

/- Published events with one id are one event. -/
theorem Inv.eq_of_eventId {wire' : AuditEventWire}
    (hWire : wire ∈ s.published) (hWire' : wire' ∈ s.published)
    (hId : wire.eventId = wire'.eventId) :
    wire = wire' :=
  inj_on_of_nodup_map hInv.distinct hWire hWire' hId

/- An event whose id was appended is in its tenant's chain. -/
theorem Inv.mem_chain_of_appended
    (hWire : wire ∈ s.published) (hId : wire.eventId ∈ s.db.appended) :
    wire ∈ s.chain wire.tenantId := by
  rcases (hInv.appended _).mp hId with ⟨T, wire', hMem, hSame⟩
  have hEq := hInv.eq_of_eventId (hInv.known T _ hMem) hWire hSame
  subst hEq
  rw [hInv.tenants T wire' hMem]
  exact hMem

theorem Inv.setWorker (i : Nat) (worker : Worker)
    (hHolds : worker.Holds s.published s.chain) :
    Inv sha256 { s with workers := s.workers.set i worker } :=
  { hInv with
    workers := by
      intro other hOther
      rcases mem_or_eq_of_mem_set hOther with hOld | rfl
      · exact hInv.workers other hOld
      · exact hHolds }

theorem Inv.publish (hNew : wire.eventId ∉ s.published.map AuditEventWire.eventId) :
    Inv sha256 { s with published := s.published ++ [wire] } :=
  { hInv with
    distinct := by
      rw [map_append, map_singleton, nodup_append]
      refine ⟨hInv.distinct, nodup_singleton _, ?_⟩
      intro id hId id' hId'
      rw [mem_singleton.mp hId']
      intro hSame
      exact hNew (hSame ▸ hId)
    known := fun T wire' hMem => mem_append_left _ (hInv.known T wire' hMem)
    workers := by
      intro worker hWorker
      have hHolds := hInv.workers worker hWorker
      exact
        ⟨fun w hW => mem_append_left _ (hHolds.queue w hW),
          fun g hG w hW => mem_append_left _ (hHolds.groups g hG w hW), hHolds.acking⟩ }

--
-- Append
--

end

/- New events at the end of a tenant's chain. -/
def State.extend (s : State) (T : TenantId) (ledger : Ledger)
    (fresh : List String) (added : List AuditEventWire) : State :=
  { s with
    db :=
      { ledgers := Function.update s.db.ledgers T ledger
        appended := s.db.appended ++ fresh }
    chain := Function.update s.chain T (s.chain T ++ added) }

variable {added : List AuditEventWire}

variable {ledger : Ledger} {fresh : List String}

theorem State.mem_chain_extend (s : State) {T T' : TenantId} :
    wire ∈ (s.extend T ledger fresh added).chain T' ↔
      wire ∈ s.chain T' ∨ (T' = T ∧ wire ∈ added) := by
  unfold State.extend
  by_cases hT : T' = T
  · subst hT
    simp
  · simp [hT]

section

variable (hInv : Inv sha256 s)
include hInv

theorem Inv.extend {T : TenantId} (hSound : ledger.Sound sha256 T)
    (hRows :
      List.Forall₂ (fun wire row => row.event = wire.item) (s.chain T ++ added) ledger.rows.rows)
    (hTenants : ∀ wire ∈ added, wire.tenantId = T)
    (hKnown : ∀ wire ∈ added, wire ∈ s.published)
    (hIds : (added.map AuditEventWire.eventId).Perm fresh)
    (hNodup : fresh.Nodup)
    (hNew : ∀ id ∈ fresh, id ∉ s.db.appended) :
    Inv sha256 (s.extend T ledger fresh added) where
  sound := by
    intro T'
    unfold State.extend
    by_cases hT : T' = T
    · subst hT
      simp only [update_self]
      exact hSound
    · simp only [update_of_ne hT]
      exact hInv.sound T'
  rows := by
    intro T'
    unfold State.extend
    by_cases hT : T' = T
    · subst hT
      simp only [update_self]
      exact hRows
    · simp only [update_of_ne hT]
      exact hInv.rows T'
  distinct := hInv.distinct
  tenants := by
    intro T' wire hWire
    rcases s.mem_chain_extend.mp hWire with hOld | ⟨rfl, hAdded⟩
    · exact hInv.tenants T' wire hOld
    · exact hTenants wire hAdded
  known := by
    intro T' wire hWire
    rcases s.mem_chain_extend.mp hWire with hOld | ⟨_, hAdded⟩
    · exact hInv.known T' wire hOld
    · exact hKnown wire hAdded
  once := by
    intro T'
    unfold State.extend
    by_cases hT : T' = T
    · subst hT
      simp only [update_self, map_append]
      refine nodup_append.mpr ⟨hInv.once _, hIds.nodup_iff.mpr hNodup, ?_⟩
      -- An id already in the chain is not new.
      intro id hOld id' hAdded hSame
      subst hSame
      rcases mem_map.mp hOld with ⟨wire, hWire, hId⟩
      exact hNew id (hIds.mem_iff.mp hAdded) ((hInv.appended id).mpr ⟨_, wire, hWire, hId⟩)
    · simp only [update_of_ne hT]
      exact hInv.once T'
  appended := by
    intro id
    have hAppended :
        id ∈ (s.extend T ledger fresh added).db.appended ↔ id ∈ s.db.appended ∨ id ∈ fresh :=
      mem_append
    rw [hAppended, hInv.appended, ← hIds.mem_iff, mem_map]
    constructor
    · rintro (⟨T', wire, hWire, hId⟩ | ⟨wire, hWire, hId⟩)
      · exact ⟨T', wire, s.mem_chain_extend.mpr (.inl hWire), hId⟩
      · exact ⟨T, wire, s.mem_chain_extend.mpr (.inr ⟨rfl, hWire⟩), hId⟩
    · rintro ⟨T', wire, hWire, hId⟩
      rcases s.mem_chain_extend.mp hWire with hOld | ⟨_, hAdded⟩
      · exact .inl ⟨T', wire, hOld, hId⟩
      · exact .inr ⟨wire, hAdded, hId⟩
  workers := by
    intro worker hWorker
    have hHolds := hInv.workers worker hWorker
    exact ⟨hHolds.queue, hHolds.groups, fun wire hWire =>
      s.mem_chain_extend.mpr (.inl (hHolds.acking wire hWire))⟩
  acked := fun wire hWire =>
    s.mem_chain_extend.mpr (.inl (hInv.acked wire hWire))

/-
  A batch that commits: the kept events go on their tenant's
  chain, and after it the whole batch is there.
-/
theorem Inv.commit {wires : List AuditEventWire} {eventTime : Int}
    {done : Option AtomicBatchAppend × Db} (hWires : ∀ wire ∈ wires, wire ∈ s.published)
    (hAppend : appendBatchFromWire sha256 s.db wires eventTime = .ok done) :
    Inv sha256 (s.commit wires done) ∧
      (s.commit wires done).published = s.published ∧
      (s.commit wires done).workers = s.workers ∧
      ∀ wire ∈ wires, wire ∈ (s.commit wires done).chain wire.tenantId := by
  rcases done with ⟨outcome, db'⟩
  rcases appendBatchFromWire_eq_ok sha256 hAppend with
    ⟨rfl, rfl, hAll⟩ | ⟨first, rest, done, ledger', rfl, hTenants, rfl, hCommitted, hIds, rfl⟩
  · exact ⟨hInv, rfl, rfl, fun wire hWire =>
      hInv.mem_chain_of_appended (hWires wire hWire) (hAll wire hWire)⟩
  · rcases hCommitted.sound sha256 (hInv.sound _) with ⟨hSound, _, hRows⟩
    have hChain :
        List.Forall₂ (fun wire row => row.event = wire.item)
          (s.chain first.tenantId ++ keptWires (first :: rest) done.kept)
          ledger'.rows.rows := by
      rw [hRows]
      exact rel_append (hInv.rows _) (keptWires_rows hCommitted.events)
    have hNew :=
      hInv.extend hSound hChain (fun wire hKept => hTenants wire (keptWires_subset hKept))
        (fun wire hKept => hWires wire (keptWires_subset hKept)) hIds (nodup_freshIds _ _)
        (fun id hFresh => (mem_freshIds.mp hFresh).2)
    refine ⟨hNew, rfl, rfl, fun wire hWire => ?_⟩
    apply hNew.mem_chain_of_appended (hWires wire hWire)
    by_cases hOld : wire.eventId ∈ s.db.appended
    · exact mem_append_left _ hOld
    · exact mem_append_right _ (mem_freshIds.mpr ⟨mem_map_of_mem hWire, hOld⟩)

theorem Inv.append (i : Nat) (eventTime : Int) (outcome : Outcome) :
    Inv sha256 (step sha256 s (.append i eventTime outcome)) := by
  unfold step
  simp only
  split
  · rename_i queue wires groups hWorker
    have hHolds := hInv.workers _ (mem_of_getElem? hWorker)
    have hGroups : ∀ group ∈ groups, ∀ wire ∈ group, wire ∈ s.published :=
      fun group hGroup => hHolds.groups group (mem_cons_of_mem _ hGroup)
    have hFailed := hInv.setWorker i ⟨queue, groups, []⟩ ⟨hHolds.queue, hGroups, by simp⟩
    split
    · exact hFailed
    · split
      · exact hFailed
      · rename_i done hAppend
        rcases hInv.commit (hHolds.groups wires (mem_cons_self))
            hAppend with
          ⟨hCommit, hPublished, hWorkers, hBatch⟩
        rw [← hWorkers]
        apply hCommit.setWorker i
        rw [hPublished]
        refine ⟨hHolds.queue, hGroups, ?_⟩
        intro wire hWire
        simp only at hWire
        split at hWire
        · exact hBatch wire hWire
        · cases hWire
  · exact hInv

--
-- Runs
--

theorem Inv.step (event : Event) :
    Inv sha256 (step sha256 s event) := by
  cases event with
  | publish wire =>
    unfold HeadWriter.step
    simp only
    split
    · exact hInv
    · rename_i hNew
      exact hInv.publish hNew
  | deliver i wire =>
    unfold HeadWriter.step
    simp only
    split
    · rename_i worker hWorker
      split_ifs with hPublished
      · have hHolds := hInv.workers _ (mem_of_getElem? hWorker)
        apply hInv.setWorker i
        refine ⟨?_, hHolds.groups, hHolds.acking⟩
        exact forall_mem_append.mpr ⟨hHolds.queue, forall_mem_singleton.mpr hPublished⟩
      · exact hInv
    · exact hInv
  | drain i n =>
    unfold HeadWriter.step
    simp only
    split
    · rename_i queue hWorker
      have hHolds := hInv.workers _ (mem_of_getElem? hWorker)
      apply hInv.setWorker i
      refine ⟨?_, ?_, by simp⟩
      · intro wire hWire
        exact hHolds.queue wire (mem_of_mem_drop hWire)
      · intro group hGroup wire hWire
        rcases mem_groupByTenant hGroup with ⟨T, hMembers⟩
        exact hHolds.queue wire (mem_of_mem_take (hMembers wire hWire).2)
    · exact hInv
  | append i eventTime outcome =>
    exact hInv.append i eventTime outcome
  | ack i reached =>
    unfold HeadWriter.step
    simp only
    split
    · rename_i queue groups wire acking hWorker
      have hHolds := hInv.workers _ (mem_of_getElem? hWorker)
      have hMove :=
        hInv.setWorker i ⟨queue, groups, acking⟩
          ⟨hHolds.queue, hHolds.groups, fun other hOther =>
            hHolds.acking other (mem_cons_of_mem _ hOther)⟩
      refine { hMove with acked := ?_ }
      intro other hOther
      split at hOther
      · rcases mem_append.mp hOther with hOld | hNew
        · exact hInv.acked other hOld
        · rw [mem_singleton.mp hNew]
          exact hHolds.acking wire mem_cons_self
      · exact hInv.acked other hOther
    · exact hInv
  | restart i =>
    unfold HeadWriter.step
    simp only
    split
    · apply hInv.setWorker i
      exact ⟨by simp, by simp, by simp⟩
    · exact hInv

theorem Inv.exactlyOnce :
    ExactlyOnce sha256 s where
  rows := hInv.rows
  seqs := by
    intro T
    rcases hInv.sound T with ⟨last, hRun, _⟩
    rw [(run_links_seqs sha256 hRun).1, (hInv.rows T).length_eq, range_eq_range']
  tenants := hInv.tenants
  once := hInv.once
  elsewhere := by
    intro T T' wire hWire wire' hWire' hId
    have hSame := hInv.eq_of_eventId (hInv.known T wire hWire) (hInv.known T' wire' hWire') hId
    rw [← hInv.tenants T wire hWire, hSame]
    exact hInv.tenants T' wire' hWire'
  acked := by
    intro wire hWire
    exact count_eq_one_of_mem (hInv.once _).of_map (hInv.acked wire hWire)
  replay := by
    intro T eventTime wires hWires
    apply appendBatchFromWire_replay sha256 eventTime
    · exact fun w hW => hInv.tenants T w (hWires w hW)
    · exact fun w hW =>
        (hInv.appended _).mpr ⟨T, w, hWires w hW, rfl⟩

end

/-
  Whatever is delivered, aborted, lost or restarted, every
  event is appended at most once, and once if acknowledged.
-/
theorem run_exactlyOnce (sha256 : Bytes → Hash) (workers : Nat) (events : List Event) :
    ExactlyOnce sha256 (run sha256 workers events) := by
  have hInv : Inv sha256 (run sha256 workers events) := by
    unfold run
    apply foldlRecOn
    · exact Inv.init workers
    · intro s hInv event _
      exact hInv.step event
  exact hInv.exactlyOnce

end HeadWriter

end Tracelane.Gateway
