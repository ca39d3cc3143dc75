import Mathlib.Data.Rat.Init
import Mathlib.Algebra.Order.Ring.Rat
import Tracelane.Lib.Bytes
import Tracelane.Lib.HashTable

/-
  The usage meters: records are summed in a live buffer, and a flush sends them to the store as
  immutable batches, each with a deduplication token of its own.

  A flush is cut at every await: records interleave with its steps.  An insert that was sent may
  commit at any later time, whatever it reported; one that reported success has committed.  Amounts
  are exact.
-/

namespace Tracelane.Gateway

namespace Meters

--
-- Batches
--

inductive UsageMeter where
| ingestBytes
| evalRuns
| keyOutputTokens
| keySpendMicroUsd
deriving DecidableEq

def UsageMeter.asStr : UsageMeter → String
| .ingestBytes => "ingest_bytes"
| .evalRuns => "eval_runs"
| .keyOutputTokens => "key_output_tokens"
| .keySpendMicroUsd => "key_spend_micro_usd"

structure Key where
  tenantId : String
  meter : UsageMeter
  dim : String
deriving DecidableEq

/- One drained flush, never changed after it is made. -/
structure MeterBatch where
  token : String
  day : Nat
  rows : List (Key × ℚ)
deriving DecidableEq

def pendingBatchCap : Nat := 8640

/- Days since the epoch, as the `u16` of a `Date` column. -/
def daysSinceEpoch (days : Int) : Nat :=
  min days.toNat 65535

/- A row of `meter_counters`. -/
structure MeterCounterRow where
  tenantId : String
  day : Nat
  meter : String
  dim : String
  value : ℚ
  source : String
deriving DecidableEq

/- The rows one insert of a batch writes. -/
def MeterBatch.counterRows (b : MeterBatch) : List MeterCounterRow :=
  b.rows.map (fun row =>
    { tenantId := row.1.tenantId
      day := b.day
      meter := row.1.meter.asStr
      dim := row.1.dim
      value := row.2
      source := "gateway" })

structure Server where
  tokens : List String
  rows : List MeterCounterRow
deriving DecidableEq

/- An insert with a token already taken is discarded. -/
def Server.commit (server : Server) (b : MeterBatch) : Server :=
  if b.token ∈ server.tokens then server
  else
    { tokens := b.token :: server.tokens
      rows := server.rows ++ b.counterRows }

--
-- The Sink
--

/- Where the flush stands. -/
inductive Phase where
| idle
/- At the head of the retry loop. -/
| retrying
/- The insert of a copy of the front batch is in flight. -/
| awaitingRetry (batch : MeterBatch)
/- The retries are over; whether one failed. -/
| draining (failed : Bool)
/- The insert of the new batch is in flight. -/
| awaitingNew (batch : MeterBatch)
deriving DecidableEq

structure State where
  buffer : HashTable Key ℚ := ∅
  pending : List MeterBatch := []
  phase : Phase := .idle
  server : Server := ⟨[], []⟩
  /- Every batch made so far. -/
  created : List MeterBatch := []
  /- Every batch sent so far, once for each attempt. -/
  sent : List MeterBatch := []
  /- The batches the full queue pushed out. -/
  dropped : List MeterBatch := []

def buffered (s : State) (key : Key) : ℚ :=
  (s.buffer.lookup key).getD 0

/- Add a value to its key; nothing unless it is positive. -/
def record (s : State) (key : Key) (value : ℚ) : State :=
  if value ≤ 0 then s
  else
    { s with buffer := s.buffer.insert key (buffered s key + value) }

/- Queue a failed batch; a full queue drops its oldest. -/
def enqueueFailed (s : State) (batch : MeterBatch) : State :=
  if pendingBatchCap ≤ s.pending.length then
    { s with
      pending := s.pending.tail ++ [batch]
      dropped := s.dropped ++ s.pending.take 1 }
  else { s with pending := s.pending ++ [batch] }

inductive Event where
| record (key : Key) (value : ℚ)
/- A flush starts. -/
| flush
/- The retry loop looks at the front of the queue. -/
| retry
/- The buffer is drained, with a new token and the date. -/
| drain (token : String) (today : Int)
/- The store commits the insert sent at an index. -/
| commit (attempt : Nat)
/- The insert in flight reports success or failure. -/
| respond (ok : Bool)
deriving DecidableEq

/- Send a batch and wait for its report. -/
def send (s : State) (batch : MeterBatch) (phase : Phase) : State :=
  { s with sent := s.sent ++ [batch], phase }

def retry (s : State) : State :=
  match s.pending with
  | [] => { s with phase := .draining false }
  | batch :: _ => send s batch (.awaitingRetry batch)

/- The batch a drain makes of the live buffer. -/
def drainedBatch (s : State) (token : String) (today : Int) : MeterBatch where
  token := token
  day := daysSinceEpoch today
  rows := s.buffer.entries.map (fun e => (e.1, e.2))

/- The new batch is queued behind a failed retry, and sent otherwise. -/
def drain (s : State) (failed : Bool) (token : String) (today : Int) : State :=
  let batch := drainedBatch s token today
  if batch.rows.isEmpty then { s with phase := .idle }
  else
    let s :=
      { s with
        buffer := ∅
        created := s.created ++ [batch] }
    if failed then
      enqueueFailed { s with phase := .idle } batch
    else send s batch (.awaitingNew batch)

/- A success pops the front, a failure ends the retries. -/
def respondRetry (s : State) (ok : Bool) : State :=
  if ok then
    { s with pending := s.pending.tail, phase := .retrying }
  else { s with phase := .draining true }

def respondNew (s : State) (batch : MeterBatch) (ok : Bool) : State :=
  if ok then { s with phase := .idle }
  else enqueueFailed { s with phase := .idle } batch

/-
  Tokens are `Uuid::new_v4`, which makes none twice, and a
  success is reported only of an insert that committed.
-/
def step (s : State) : Event → Option State
| .record key value => some (record s key value)
| .flush =>
    match s.phase with
    | .idle => some { s with phase := .retrying }
    | _ => none
| .retry =>
    match s.phase with
    | .retrying => some (retry s)
    | _ => none
| .drain token today =>
    match s.phase with
    | .draining failed =>
        if token ∈ s.created.map MeterBatch.token then none
        else some (drain s failed token today)
    | _ => none
| .commit attempt =>
    (s.sent[attempt]?).map (fun batch => { s with server := s.server.commit batch })
| .respond ok =>
    match s.phase with
    | .awaitingRetry batch =>
        if ok ∧ batch.token ∉ s.server.tokens then none
        else some (respondRetry s ok)
    | .awaitingNew batch =>
        if ok ∧ batch.token ∉ s.server.tokens then none
        else some (respondNew s batch ok)
    | _ => none

end Meters

end Tracelane.Gateway
