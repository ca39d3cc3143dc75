import Mathlib.Tactic.Linarith
import Tracelane.Gateway.Meters
import Tracelane.Lib.Dedup
import Tracelane.Lib.Metered

/-
  What becomes of a recorded amount: it is committed, in the live buffer, or in a batch that waits
  or was dropped and is not committed.

  A batch stays outstanding until its token is taken, and a token is taken once, so that a repeated
  insert counts nothing twice.
-/

open Transition Option

namespace Tracelane.Gateway

namespace Meters

open List MeterBatch Dedup

--
-- Amounts
--

/- Whether a stored row counts for a key. -/
def MeterCounterRow.counts (row : MeterCounterRow) (key : Key) : Bool :=
  row.tenantId = key.tenantId ∧
    row.meter = key.meter.asStr ∧
    row.dim = key.dim

/- What the store has of a key. -/
def committed (s : State) (key : Key) : ℚ :=
  (s.server.rows.map (fun row => if row.counts key then row.value else 0)).sum

def MeterBatch.amount (key : Key) (b : MeterBatch) : ℚ :=
  (b.rows.map (fun row => if row.1 = key then row.2 else 0)).sum

/- The batches that wait, the one in its first insert too. -/
def unsettled (s : State) : List MeterBatch :=
  s.pending ++
    match s.phase with
    | .awaitingNew batch => [batch]
    | _ => []

/- What batches have of a key and the store has not taken. -/
def uncommitted (s : State) (batches : List MeterBatch) (key : Key) : ℚ :=
  Dedup.outstanding MeterBatch.token (MeterBatch.amount key) s.server.tokens batches

/- What an event adds to a key. -/
def recordedBy (key : Key) : Event → ℚ
| .record key' value =>
    if key' = key ∧ 0 < value then value else 0
| _ => 0

def recorded (trace : List Event) (key : Key) : ℚ :=
  (trace.map (recordedBy key)).sum

--
-- Invariant
--

/- Every batch that is neither stored nor forgotten. -/
def held (s : State) : List MeterBatch :=
  s.dropped ++ unsettled s

structure Inv (s : State) : Prop where
  distinct : (s.created.map MeterBatch.token).Nodup
  heldDistinct : ((held s).map MeterBatch.token).Nodup
  heldCreated : ∀ b ∈ held s, b ∈ s.created
  sentCreated : ∀ b ∈ s.sent, b ∈ s.created
  sentHeld : ∀ b ∈ s.sent, b.token ∈ s.server.tokens ∨ b ∈ held s
  tokensCreated : ∀ token ∈ s.server.tokens, token ∈ s.created.map MeterBatch.token
  front : ∀ b, s.phase = .awaitingRetry b → s.pending.head? = some b
  short : s.pending.length ≤ pendingBatchCap

/- What is known of a key's recorded amount. -/
def known (s : State) (key : Key) : ℚ :=
  committed s key + buffered s key + uncommitted s (held s) key

/- A part of a step that adds to the keys. -/
def Adds (w : Key → ℚ) (s t : State) : Prop :=
  Inv s → Inv t ∧ ∀ key, known t key = known s key + w key

section Parts

variable {s t u : State} {batch : MeterBatch} {key : Key}

theorem Adds.trans {w : Key → ℚ} (hFirst : Adds 0 s u) (hSecond : Adds w u t) :
    Adds w s t := by
  intro hInv
  rcases hFirst hInv with ⟨hMiddle, hSame⟩
  rcases hSecond hMiddle with ⟨hEnd, hAdded⟩
  refine ⟨hEnd, ?_⟩
  intro key
  rw [hAdded key, hSame key, Pi.zero_apply, add_zero]

theorem asStr_injective {m n : UsageMeter} (hSame : m.asStr = n.asStr) :
    m = n := by
  cases m <;> cases n <;> first
    | rfl
    | simp [UsageMeter.asStr] at hSame

/- A stored batch counts what the batch has. -/
theorem counterRows_amount :
    (batch.counterRows.map (fun row => if row.counts key then row.value else 0)).sum =
      batch.amount key := by
  unfold counterRows amount
  rw [List.map_map]
  congr 1
  apply map_congr_left
  rintro ⟨key', value⟩ _
  have hCounts :
      (key'.tenantId = key.tenantId ∧
          key'.meter.asStr = key.meter.asStr ∧
          key'.dim = key.dim) ↔ key' = key := by
    constructor
    · rintro ⟨hTenant, hMeter, hDim⟩
      rcases key with ⟨tenantId, meter, dim⟩
      rcases key' with ⟨tenantId', meter', dim'⟩
      cases hTenant
      cases hDim
      cases asStr_injective hMeter
      rfl
    · rintro rfl
      exact ⟨rfl, rfl, rfl⟩
  simp only [Function.comp_apply, MeterCounterRow.counts, decide_eq_true_eq, hCounts]

theorem drainedBatch_amount (token : String) (today : Int) :
    (drainedBatch s token today).amount key = buffered s key := by
  unfold drainedBatch amount buffered
  rw [List.map_map]
  have hSum := HashTable.sum_entries_of_key s.buffer key (fun v : ℚ => v)
  cases hLookup : s.buffer.lookup key with
  | none | some _ =>
    rw [hLookup] at hSum
    exact hSum

/- Only the phase moves, and what is unsettled stays. -/
theorem adds_phase {phase : Phase} (hSame : unsettled { s with phase } = unsettled s)
    (hFront : ∀ b, phase = .awaitingRetry b → s.pending.head? = some b) :
    Adds 0 s { s with phase } := by
  have hHeld : held { s with phase } = held s := by
    unfold held
    rw [hSame]
  intro hInv
  refine ⟨?_, ?_⟩
  · exact
      { hInv with
        heldDistinct := by
          rw [hHeld]
          exact hInv.heldDistinct
        heldCreated := by
          rw [hHeld]
          exact hInv.heldCreated
        sentHeld := by
          rw [hHeld]
          exact hInv.sentHeld
        front := hFront }
  · intro key
    unfold known
    rw [hHeld]
    exact (add_zero _).symm

theorem adds_record (value : ℚ) :
    Adds (fun k => recordedBy k (.record key value)) s (record s key value) := by
  intro hInv
  unfold record
  by_cases hNone : value ≤ 0
  · rw [if_pos hNone]
    refine ⟨hInv, ?_⟩
    intro k
    have hNot : ¬ (key = k ∧ 0 < value) := by
      rintro ⟨_, hPos⟩
      exact absurd hNone (not_le.mpr hPos)
    simp only [recordedBy, if_neg hNot, add_zero]
  · rw [if_neg hNone]
    refine ⟨{ hInv with }, ?_⟩
    intro k
    have hPos : 0 < value := not_le.mp hNone
    have hBuffered :
        buffered
            { s with buffer := s.buffer.insert key (buffered s key + value) }
            k =
          buffered s k + recordedBy k (.record key value) := by
      by_cases hSame : key = k
      · subst hSame
        simp [buffered, recordedBy, AList.lookup_insert, hPos]
      · simp [buffered, recordedBy, AList.lookup_insert_ne (Ne.symm hSame), hSame]
    have hRest :
        ∀ buffer,
          known { s with buffer } k =
            committed s k + buffered { s with buffer } k + uncommitted s (held s) k := by
      intro buffer
      rfl
    rw [hRest, hBuffered]
    unfold known
    linarith

/- The store takes a sent batch, unless it has its token. -/
theorem adds_commit (hSent : batch ∈ s.sent) :
    Adds 0 s { s with server := s.server.commit batch } := by
  intro hInv
  by_cases hTaken : batch.token ∈ s.server.tokens
  · have hSame : s.server.commit batch = s.server := if_pos hTaken
    rw [hSame]
    exact ⟨hInv, fun key => (add_zero _).symm⟩
  · have hServer :
        s.server.commit batch =
          { tokens := batch.token :: s.server.tokens
            rows := s.server.rows ++ batch.counterRows } :=
      if_neg hTaken
    have hMem : batch ∈ held s := (hInv.sentHeld batch hSent).resolve_left hTaken
    rw [hServer]
    refine ⟨?_, ?_⟩
    · exact
        { hInv with
          sentHeld := by
            intro b hB
            rcases hInv.sentHeld b hB with hDone | hHeld
            · exact .inl (mem_cons_of_mem _ hDone)
            · exact .inr hHeld
          tokensCreated := by
            intro token hToken
            rcases mem_cons.mp hToken with rfl | hOld
            · exact mem_map_of_mem (hInv.heldCreated batch hMem)
            · exact hInv.tokensCreated token hOld }
    · intro key
      have hTake := outstanding_take (w := amount key) hInv.heldDistinct hMem hTaken
      show
        ((s.server.rows ++ batch.counterRows).map
              (fun row => if row.counts key then row.value else 0)).sum +
            buffered s key +
            outstanding MeterBatch.token (amount key) (batch.token :: s.server.tokens) (held s) =
          known s key + 0
      rw [map_append, sum_append, counterRows_amount]
      unfold known uncommitted committed
      rw [hTake]
      linarith

/- Send a batch that is held. -/
theorem adds_sent (hMem : batch ∈ held s) :
    Adds 0 s { s with sent := s.sent ++ [batch] } := by
  intro hInv
  refine ⟨?_, fun key => (add_zero _).symm⟩
  exact
    { hInv with
      sentCreated := by
        refine forall_mem_append.mpr ⟨hInv.sentCreated, forall_mem_singleton.mpr ?_⟩
        exact hInv.heldCreated batch hMem
      sentHeld := by
        exact forall_mem_append.mpr ⟨hInv.sentHeld, forall_mem_singleton.mpr (.inr hMem)⟩ }

variable {failed ok : Bool} {token : String}

/- The live buffer moves into a batch with a new token. -/
theorem adds_made (hPhase : s.phase = .draining failed)
    (hNew : token ∉ s.created.map MeterBatch.token) (today : Int) :
    Adds 0 s
      { s with
        buffer := ∅
        created := s.created ++ [drainedBatch s token today]
        phase := .awaitingNew (drainedBatch s token today) } := by
  intro hInv
  set batch := drainedBatch s token today with hBatch
  have hHeld :
      held
          { s with
            buffer := ∅
            created := s.created ++ [batch]
            phase := .awaitingNew batch } =
        held s ++ [batch] := by
    simp [held, unsettled, hPhase]
  have hToken : batch.token = token := rfl
  have hNotHeld : token ∉ (held s).map MeterBatch.token := by
    intro hMem
    rcases mem_map.mp hMem with ⟨b, hB, rfl⟩
    exact hNew (mem_map_of_mem (hInv.heldCreated b hB))
  have hNotTaken : token ∉ s.server.tokens := by
    intro hTaken
    exact hNew (hInv.tokensCreated token hTaken)
  refine ⟨?_, ?_⟩
  · exact
      { distinct := by
          rw [map_append, map_singleton, hToken, ← concat_eq_append]
          exact hInv.distinct.concat hNew
        heldDistinct := by
          rw [hHeld, map_append, map_singleton, hToken, ← concat_eq_append]
          exact hInv.heldDistinct.concat hNotHeld
        heldCreated := by
          rw [hHeld]
          intro b hB
          rcases mem_append.mp hB with hOld | hLast
          · exact mem_append_left _ (hInv.heldCreated b hOld)
          · exact mem_append_right _ hLast
        sentCreated := by
          intro b hB
          exact mem_append_left _ (hInv.sentCreated b hB)
        sentHeld := by
          rw [hHeld]
          intro b hB
          rcases hInv.sentHeld b hB with hDone | hWaits
          · exact .inl hDone
          · exact .inr (mem_append_left _ hWaits)
        tokensCreated := by
          intro k hK
          rw [map_append]
          exact mem_append_left _ (hInv.tokensCreated k hK)
        front := by
          intro b hAwaiting
          cases hAwaiting
        short := hInv.short }
  · intro key
    have hAmount : (drainedBatch s token today).amount key = buffered s key :=
      drainedBatch_amount token today
    rw [← hBatch] at hAmount
    unfold known
    rw [hHeld]
    show
      committed s key + (0 : ℚ) +
          outstanding MeterBatch.token (amount key) s.server.tokens (held s ++ [batch]) =
        committed s key + buffered s key +
          outstanding MeterBatch.token (amount key) s.server.tokens (held s) + 0
    rw [outstanding_append, outstanding_cons, outstanding_nil, hToken, if_neg hNotTaken, hAmount]
    linarith

/- Held batches change places, and those the store has taken may be forgotten. -/
theorem adds_of_perm (settled : List MeterBatch) (hTaken : ∀ b ∈ settled, b.token ∈ s.server.tokens)
    (hPerm : (held s).Perm (settled ++ held t)) (hBuffer : t.buffer = s.buffer)
    (hCreated : t.created = s.created) (hSent : t.sent = s.sent) (hServer : t.server = s.server)
    (hFront : ∀ b, t.phase = .awaitingRetry b → t.pending.head? = some b)
    (hShort : t.pending.length ≤ pendingBatchCap) :
    Adds 0 s t := by
  intro hInv
  have hHeld : ∀ b ∈ held t, b ∈ held s := by
    intro b hB
    exact hPerm.mem_iff.mpr (mem_append_right _ hB)
  refine ⟨?_, ?_⟩
  · exact
      { distinct := by
          rw [hCreated]
          exact hInv.distinct
        heldDistinct := by
          have hBoth := ((hPerm.map _).nodup_iff).mp hInv.heldDistinct
          rw [map_append] at hBoth
          exact hBoth.of_append_right
        heldCreated := by
          rw [hCreated]
          intro b hB
          exact hInv.heldCreated b (hHeld b hB)
        sentCreated := by
          rw [hCreated, hSent]
          exact hInv.sentCreated
        sentHeld := by
          rw [hSent, hServer]
          intro b hB
          rcases hInv.sentHeld b hB with hDone | hWaits
          · exact .inl hDone
          · rcases mem_append.mp (hPerm.mem_iff.mp hWaits) with hSettled | hStill
            · exact .inl (hTaken b hSettled)
            · exact .inr hStill
        tokensCreated := by
          rw [hServer, hCreated]
          exact hInv.tokensCreated
        front := hFront
        short := hShort }
  · intro key
    have hNothing : outstanding MeterBatch.token (amount key) s.server.tokens settled = 0 := by
      apply sum_eq_zero
      intro x hX
      rcases mem_map.mp hX with ⟨b, hB, rfl⟩
      exact if_pos (hTaken b hB)
    unfold known uncommitted committed buffered
    rw [outstanding_perm hPerm, outstanding_append, hNothing, zero_add, hBuffer, hServer]
    exact (add_zero _).symm

/- What an enqueue does to the queue. -/
theorem enqueueFailed_cases (s : State) (batch : MeterBatch) :
    (pendingBatchCap ≤ s.pending.length ∧
        ∃ oldest rest,
          s.pending = oldest :: rest ∧
            enqueueFailed s batch =
              { s with
                pending := rest ++ [batch]
                dropped := s.dropped ++ [oldest] }) ∨
      s.pending.length < pendingBatchCap ∧
        enqueueFailed s batch = { s with pending := s.pending ++ [batch] } := by
  by_cases hFull : pendingBatchCap ≤ s.pending.length
  · refine .inl ⟨hFull, ?_⟩
    cases hPending : s.pending with
    | nil =>
      rw [hPending] at hFull
      simp [pendingBatchCap] at hFull
    | cons oldest rest =>
      refine ⟨oldest, rest, rfl, ?_⟩
      unfold enqueueFailed
      rw [if_pos hFull, hPending]
      rfl
  · refine .inr ⟨not_le.mp hFull, ?_⟩
    exact if_neg hFull

/- The new batch goes from its insert to the queue. -/
theorem adds_enqueueFailed (hPhase : s.phase = .awaitingNew batch) :
    Adds 0 s (enqueueFailed { s with phase := .idle } batch) := by
  intro hInv
  have hShort := hInv.short
  rcases enqueueFailed_cases { s with phase := .idle } batch with
    ⟨_, oldest, rest, hPending, hQueued⟩ | ⟨hRoom, hQueued⟩
  · have hQueue : s.pending = oldest :: rest := hPending
    rw [hQueue, length_cons] at hShort
    rw [hQueued]
    refine adds_of_perm [] (by simp) ?_ rfl rfl rfl rfl (by simp) ?_ hInv
    · simp [held, unsettled, hPhase, hQueue]
    · simp only [length_append, length_singleton]
      omega
  · have hLen : s.pending.length < pendingBatchCap := hRoom
    rw [hQueued]
    refine adds_of_perm [] (by simp) ?_ rfl rfl rfl rfl (by simp) ?_ hInv
    · simp [held, unsettled, hPhase]
    · simp only [length_append, length_singleton]
      omega

--
-- Steps
--

theorem adds_retry (hPhase : s.phase = .retrying) :
    Adds 0 s (retry s) := by
  unfold retry
  split
  · apply adds_phase
    · simp [unsettled, hPhase]
    · intro b hAwaiting
      cases hAwaiting
  · rename_i batch rest hPending
    have hMem : batch ∈ held s := by simp [held, unsettled, hPending]
    apply (adds_sent hMem).trans
    apply adds_phase
    · simp [unsettled, hPhase]
    · intro b hAwaiting
      cases hAwaiting
      simp [hPending]

theorem adds_drain (hPhase : s.phase = .draining failed)
    (hNew : token ∉ s.created.map MeterBatch.token) (today : Int) :
    Adds 0 s (drain s failed token today) := by
  simp only [drain]
  split
  · apply adds_phase
    · simp [unsettled, hPhase]
    · intro b hAwaiting
      cases hAwaiting
  · have hMade := adds_made hPhase hNew today
    split
    · exact hMade.trans (adds_enqueueFailed rfl)
    · apply hMade.trans
      exact adds_sent (by simp [held, unsettled])

theorem adds_respondRetry (hPhase : s.phase = .awaitingRetry batch)
    (hReport : ok = true → batch.token ∈ s.server.tokens) :
    Adds 0 s (respondRetry s ok) := by
  intro hInv
  cases ok with
  | false =>
    refine adds_phase ?_ (by simp) hInv
    simp [unsettled, hPhase]
  | true =>
    -- The front of the queue is the batch that was sent.
    have hHead := hInv.front batch hPhase
    cases hPending : s.pending with
    | nil =>
      rw [hPending] at hHead
      cases hHead
    | cons first rest =>
      rw [hPending] at hHead
      cases hHead
      have hShort := hInv.short
      rw [hPending, length_cons] at hShort
      simp only [respondRetry, if_true]
      refine adds_of_perm [batch] ?_ ?_ rfl rfl rfl rfl (by simp) ?_ hInv
      · simpa using hReport rfl
      · simp [held, unsettled, hPhase, hPending]
      · simp only [hPending, tail_cons]
        omega

theorem adds_respondNew (hPhase : s.phase = .awaitingNew batch)
    (hReport : ok = true → batch.token ∈ s.server.tokens) :
    Adds 0 s (respondNew s batch ok) := by
  intro hInv
  cases ok with
  | false => exact adds_enqueueFailed hPhase hInv
  | true =>
    simp only [respondNew, if_true]
    refine adds_of_perm [batch] ?_ ?_ rfl rfl rfl rfl (by simp) hInv.short hInv
    · simpa using hReport rfl
    · simp only [held, unsettled, hPhase, append_nil]
      rw [← append_assoc]
      exact perm_append_singleton _ _

/- Every step adds what it records, and nothing else. -/
theorem step_adds {e : Event} (hStep : step s e = some t) :
    Adds (fun key => recordedBy key e) s t := by
  cases e with
  | record key value =>
    cases hStep
    exact adds_record value
  | flush =>
    cases hPhase : s.phase with
    | idle =>
      simp only [step, hPhase, some.injEq] at hStep
      subst hStep
      apply adds_phase
      · simp [unsettled, hPhase]
      · intro b hAwaiting
        cases hAwaiting
    | _ => simp [step, hPhase] at hStep
  | retry =>
    cases hPhase : s.phase with
    | retrying =>
      simp only [step, hPhase, some.injEq] at hStep
      subst hStep
      exact adds_retry hPhase
    | _ => simp [step, hPhase] at hStep
  | drain token today =>
    cases hPhase : s.phase with
    | draining failed =>
      simp only [step, hPhase, ite_none_left_eq_some, some.injEq] at hStep
      rcases hStep with ⟨hNew, rfl⟩
      exact adds_drain hPhase hNew today
    | _ => simp [step, hPhase] at hStep
  | commit attempt =>
    rcases map_eq_some_iff.mp hStep with ⟨batch, hAt, rfl⟩
    exact adds_commit (mem_of_getElem? hAt)
  | respond ok =>
    cases hPhase : s.phase with
    | awaitingRetry batch =>
      simp only [step, hPhase, ite_none_left_eq_some, some.injEq] at hStep
      rcases hStep with ⟨hReport, rfl⟩
      apply adds_respondRetry hPhase
      intro hOk
      by_contra hNot
      exact hReport ⟨hOk, hNot⟩
    | awaitingNew batch =>
      simp only [step, hPhase, ite_none_left_eq_some, some.injEq] at hStep
      rcases hStep with ⟨hReport, rfl⟩
      apply adds_respondNew hPhase
      intro hOk
      by_contra hNot
      exact hReport ⟨hOk, hNot⟩
    | _ => simp [step, hPhase] at hStep

/- A drop is of the oldest batch of a full queue. -/
theorem enqueueFailed_dropped (hShort : s.pending.length ≤ pendingBatchCap) :
    (enqueueFailed s batch).dropped = s.dropped ∨
      s.pending.length = pendingBatchCap ∧
        ∃ oldest,
          s.pending.head? = some oldest ∧
            (enqueueFailed s batch).dropped = s.dropped ++ [oldest] := by
  rcases enqueueFailed_cases s batch with ⟨hFull, oldest, rest, hPending, hQueued⟩ | ⟨_, hQueued⟩
  · refine .inr ⟨by omega, oldest, ?_, ?_⟩
    · rw [hPending, head?_cons]
    · rw [hQueued]
  · exact .inl (by rw [hQueued])

theorem step_dropped {e : Event} (hInv : Inv s) (hStep : step s e = some t) :
    t.dropped = s.dropped ∨
      s.pending.length = pendingBatchCap ∧
        ∃ oldest, s.pending.head? = some oldest ∧ t.dropped = s.dropped ++ [oldest] := by
  cases e with
  | record key value =>
    cases hStep
    unfold record
    split <;> exact .inl rfl
  | flush =>
    simp only [step] at hStep
    split at hStep <;> cases hStep
    exact .inl rfl
  | retry =>
    simp only [step] at hStep
    split at hStep <;> cases hStep
    unfold retry
    split <;> exact .inl rfl
  | drain token today =>
    simp only [step] at hStep
    split at hStep
    · simp only [ite_none_left_eq_some, some.injEq] at hStep
      rcases hStep with ⟨_, rfl⟩
      simp only [drain]
      split
      · exact .inl rfl
      · split
        · exact enqueueFailed_dropped
            (s := { s with
              buffer := ∅
              created := _
              phase := .idle })
            hInv.short
        · exact .inl rfl
    · cases hStep
  | commit attempt =>
    rcases map_eq_some_iff.mp hStep with ⟨batch, _, rfl⟩
    exact .inl rfl
  | respond ok =>
    simp only [step] at hStep
    split at hStep
    · simp only [ite_none_left_eq_some, some.injEq] at hStep
      rcases hStep with ⟨_, rfl⟩
      unfold respondRetry
      split <;> exact .inl rfl
    · simp only [ite_none_left_eq_some, some.injEq] at hStep
      rcases hStep with ⟨_, rfl⟩
      unfold respondNew
      split
      · exact .inl rfl
      · exact enqueueFailed_dropped (s := { s with phase := .idle }) hInv.short
    · cases hStep

end Parts

--
-- Runs
--

theorem new_inv : Inv {} where
  distinct := by simp
  heldDistinct := by simp [held, unsettled]
  heldCreated := by simp [held, unsettled]
  sentCreated := by simp
  sentHeld := by simp
  tokensCreated := by simp
  front := by simp
  short := Nat.zero_le _

/-
  Whatever inserts commit and report, every recorded amount is committed, buffered, or in a batch
  that waits or was dropped and is not committed.  A token stands for one batch, which is sent as it
  was made; and only a full queue drops one.
-/
theorem metering_exact (trace : List Event) (s : State)
    (hRun : Run (fun s e t => step s e = some t) {} trace s) :
    (∀ key,
      committed s key + buffered s key + uncommitted s (unsettled s) key +
          uncommitted s s.dropped key =
        recorded trace key) ∧
      (∀ b, b ∈ s.sent ∨ b ∈ unsettled s →
        b ∈ s.created ∧ ∀ b' ∈ s.created, b'.token = b.token → b' = b) ∧
      ∀ e t, step s e = some t →
        t.dropped = s.dropped ∨
          s.pending.length = pendingBatchCap ∧
            ∃ oldest, s.pending.head? = some oldest ∧ t.dropped = s.dropped ++ [oldest] := by
  have hInv : Inv s := by
    apply hRun.invariant _ new_inv
    intro s e t hBefore hStep
    exact (step_adds hStep hBefore).1
  refine ⟨?_, ?_, ?_⟩
  · intro key
    have hKeeps : ∀ s e t, Inv s → step s e = some t → Inv t :=
      fun s e t hBefore hStep => (step_adds hStep hBefore).1
    have hTally :=
      hRun.tally (fun s => known s key) (recordedBy key) hKeeps
        (fun s e t hBefore hStep => (step_adds hStep hBefore).2 key) new_inv
    have hEmpty : known {} key = 0 := by
      simp [known, committed, buffered, uncommitted, held, unsettled]
    rw [hEmpty, zero_add] at hTally
    unfold recorded
    rw [← hTally]
    unfold known held uncommitted
    rw [outstanding_append]
    linarith
  · intro b hB
    have hCreated : b ∈ s.created := by
      rcases hB with hSent | hWaits
      · exact hInv.sentCreated b hSent
      · exact hInv.heldCreated b (mem_append_right _ hWaits)
    refine ⟨hCreated, ?_⟩
    intro b' hB' hToken
    exact inj_on_of_nodup_map hInv.distinct hB' hCreated hToken
  · intro e t hStep
    exact step_dropped hInv hStep

/- One judge call of one tenant. -/
def evalKey : Key where
  tenantId := "t1"
  meter := .evalRuns
  dim := ""

/-
  The insert of the first batch commits and is reported lost;
  its retry is discarded, and a second batch follows.
-/
def lostReport : List Event :=
  [.record evalKey 1, .flush, .retry, .drain "a" 20000,
    .record evalKey 2, .commit 0, .respond false,
    .flush, .retry, .commit 1, .respond true, .retry,
    .drain "b" 20001]

theorem lostReport_exact :
    ∃ s,
      Run (fun s e t => step s e = some t) {} lostReport s ∧
        s.sent.map MeterBatch.token = ["a", "a", "b"] ∧
        committed s evalKey = 1 ∧
        committed s evalKey + buffered s evalKey +
            uncommitted s (unsettled s) evalKey +
            uncommitted s s.dropped evalKey =
          recorded lostReport evalKey := by
  have hFold :
      (lostReport.foldlM step {}).map
          (fun s => (s.sent.map MeterBatch.token, committed s evalKey)) =
        some (["a", "a", "b"], 1) := by
    decide +kernel
  rcases map_eq_some_iff.mp hFold with ⟨s, hSome, hSeen⟩
  rcases Prod.mk.injEq _ _ _ _ ▸ hSeen with ⟨hSent, hAmount⟩
  have hRun := Run.of_foldlM hSome
  exact ⟨s, hRun, hSent, hAmount, (metering_exact lostReport s hRun).1 evalKey⟩

end Meters

end Tracelane.Gateway
