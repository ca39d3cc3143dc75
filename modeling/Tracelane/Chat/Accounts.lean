import Tracelane.Chat.Stream
import Tracelane.Lib.Run

/-
  How often a streamed request is recorded, metered, and charged for, however its generator ends.

  A polled generator is recorded by its finalizer, and one that is never polled by the dispatch
  guard.  The first charges the key only where a span bus is configured, and the second meters
  nothing.
-/

open Transition List

namespace Tracelane.Chat

--
-- Accounts
--

/- The spend of one key. -/
def keySpends (id : String) (spends : List (Subject × Nat)) : List (Subject × Nat) :=
  spends.filter (fun s => s.1 = .key id)

/- The bytes of a span reach the sink, if there is one, once. -/
def MeteredOnce (ctx : RequestContext) (span : Span) (metered : List Nat) : Prop :=
  if ctx.meters then
    ∃ bytes, span.spanBytes = some bytes ∧ metered = [bytes]
  else metered = []

/- The key's spend grows once, by what the span costs. -/
def ChargedOnce (ctx : RequestContext) (span : Span) (spends : List (Subject × Nat)) : Prop :=
  ∀ id, ctx.apiKeyId = some id → keySpends id spends = trackerRecord (.key id) span.cost

/- One recorder, one span, its bytes metered once, and its cost charged to the key once. -/
def Accounted (ctx : RequestContext) (log : Log) : Prop :=
  ∃ who span,
    log.recorders = [who] ∧
      log.spans = [span] ∧
      MeteredOnce ctx span log.metered ∧
      ChargedOnce ctx span log.spends

/- The provider event an input brings. -/
def Input.providerEvent? : Input → Option ProviderEvent
| .event (some (.ok ev)) => some ev
| _ => none

/- The usage the provider has reported in a run. -/
def reportedTally (trace : List Input) : Tally :=
  trace.foldl (fun t i => i.providerEvent?.elim t t.absorb) {}

/- Whether a cost is one that is charged. -/
def chargeable (cost : Option ℚ) : Bool :=
  cost.any (fun usd => 0 < usd)

/-
  A polled generator needs a span bus, unless there is no key or nothing to charge it; one that is
  dropped before its first poll must have no meter sink.
-/
def accountable (ctx : RequestContext) (trace : List Input) : Bool :=
  if trace.head? = some .drop then !ctx.meters
  else
    ctx.nats || ctx.apiKeyId.isNone || !chargeable (spanCost ctx (reportedTally trace))

section Logs

variable {ctx : RequestContext}

theorem trackerRecord_eq_nil_iff {who : Subject} {cost : Option ℚ} :
    trackerRecord who cost = [] ↔ chargeable cost = false := by
  cases cost with
  | none => simp [trackerRecord, chargeable]
  | some usd =>
    by_cases hPos : 0 < usd
    · simp [trackerRecord, chargeable, hPos]
    · simp [trackerRecord, chargeable, hPos]

theorem keySpends_trackerRecord {id : String} {who : Subject} {cost : Option ℚ} :
    keySpends id (trackerRecord who cost) =
      if who = .key id then trackerRecord who cost else [] := by
  unfold keySpends trackerRecord
  cases cost with
  | none => simp
  | some usd =>
    by_cases hPos : 0 < usd
    · by_cases hWho : who = .key id
      · simp [hPos, hWho]
      · simp [hPos, hWho]
    · simp [hPos]

/- The funnel charges the key what the span costs. -/
theorem keySpends_recordKeySpend (id : String) (span : Span) :
    keySpends id (recordKeySpend (some id) span) = trackerRecord (.key id) span.cost := by
  unfold recordKeySpend
  have hAppend : ∀ xs ys, keySpends id (xs ++ ys) = keySpends id xs ++ keySpends id ys :=
    fun xs ys => filter_append xs ys
  rw [hAppend, keySpends_trackerRecord, keySpends_trackerRecord]
  simp

variable (fin : StreamFinalizer)

theorem estimateUsage_cost (span : Span) :
    (estimateUsage ctx fin span).cost = span.cost := by
  unfold estimateUsage
  split <;> rfl

theorem finalSpan_cost :
    (finalSpan ctx fin).cost = spanCost ctx fin.tally := by
  simp only [finalSpan, estimateUsage_cost, buildGatewaySpan]

/- Nothing used costs nothing. -/
theorem spanCost_empty :
    chargeable (spanCost ctx {}) = false := by
  cases hCard : ctx.card with
  | none => simp [spanCost, computedCost, hCard, chargeable]
  | some card =>
    have hZero : costFromCard card ({} : Tally).usage = 0 := by simp [costFromCard, Tally.usage]
    simp [spanCost, computedCost, hCard, chargeable, hZero]

/- The log of one recorder with one span. -/
theorem accounted_iff_of_log {log : Log} {who : Recorder} {span : Span}
    (hRecorder : log.recorders = [who]) (hSpan : log.spans = [span]) :
    Accounted ctx log ↔ MeteredOnce ctx span log.metered ∧ ChargedOnce ctx span log.spends := by
  constructor
  · rintro ⟨_, span', _, hSpan', hMetered, hCharged⟩
    rw [hSpan] at hSpan'
    cases hSpan'
    exact ⟨hMetered, hCharged⟩
  · rintro ⟨hMetered, hCharged⟩
    exact ⟨who, span, hRecorder, hSpan, hMetered, hCharged⟩

theorem chargedOnce_nil_iff {span : Span} :
    ChargedOnce ctx span [] ↔ ctx.apiKeyId = none ∨ chargeable span.cost = false := by
  constructor
  · intro hCharged
    cases hKey : ctx.apiKeyId with
    | none => exact .inl rfl
    | some id =>
      have hNothing := hCharged id hKey
      exact .inr (trackerRecord_eq_nil_iff.mp hNothing.symm)
  · rintro (hNone | hZero) id hKey
    · rw [hNone] at hKey
      cases hKey
    · exact (trackerRecord_eq_nil_iff.mpr hZero).symm

/- What the finalizer's log accounts for. -/
theorem run_accounted_iff (cancelled : Bool) :
    Accounted ctx (fin.run ctx cancelled {}) ↔
      ctx.nats = true ∨ ctx.apiKeyId = none ∨ chargeable (spanCost ctx fin.tally) = false := by
  have hMetered :
      MeteredOnce ctx
        { (stampAndMeterSpanBytes ctx (finalSpan ctx fin)).1 with
          cancelled }
        (stampAndMeterSpanBytes ctx (finalSpan ctx fin)).2 := by
    unfold MeteredOnce stampAndMeterSpanBytes
    cases ctx.meters with
    | true => exact ⟨_, rfl, rfl⟩
    | false => rfl
  have hCost : (finalSpan ctx fin).cost = spanCost ctx fin.tally := finalSpan_cost fin
  rw [@accounted_iff_of_log _ _ .streamFinalizer
    { (stampAndMeterSpanBytes ctx (finalSpan ctx fin)).1 with
      cancelled }]
  · cases hNats : ctx.nats with
    | true =>
      simp only [StreamFinalizer.run, hNats, if_true, nil_append, true_or, iff_true]
      refine ⟨hMetered, ?_⟩
      intro id hKey
      rw [hKey]
      exact keySpends_recordKeySpend id _
    | false =>
      simp only [StreamFinalizer.run, hNats, Bool.false_eq_true, if_false, nil_append, false_or,
        chargedOnce_nil_iff]
      rw [← hCost]
      exact and_iff_right hMetered
  · unfold StreamFinalizer.run
    split <;> rfl
  · unfold StreamFinalizer.run
    split <;> rfl

/- What the dispatch guard's log accounts for. -/
theorem dropDispatchGuard_accounted_iff :
    Accounted ctx (dropDispatchGuard ctx {}) ↔ ctx.meters = false := by
  have hLog :
      (dropDispatchGuard ctx {}).recorders = [.dispatchGuard] ∧
        (dropDispatchGuard ctx {}).spans = [buildErrorSpan ctx "client_cancelled"] ∧
        (dropDispatchGuard ctx {}).metered = [] ∧
        (dropDispatchGuard ctx {}).spends = [] := by
    unfold dropDispatchGuard emitPostLedgerErrorSpan
    split <;> exact ⟨rfl, rfl, rfl, rfl⟩
  rcases hLog with ⟨hRecorder, hSpans, hMetered, hSpends⟩
  rw [accounted_iff_of_log hRecorder hSpans, hMetered, hSpends, chargedOnce_nil_iff]
  have hFree : chargeable (buildErrorSpan ctx "client_cancelled").cost = false := spanCost_empty
  cases hMeters : ctx.meters with
  | true => simp [MeteredOnce, hMeters]
  | false => simp [MeteredOnce, hMeters, hFree]

end Logs

--
-- Runs
--

section Runs

variable {ctx : RequestContext} {g g' : Generator} {i : Input}

/- Once polled, the log is empty until the generator is over, and then it is the finalizer's. -/
structure Polled (ctx : RequestContext) (g : Generator) :
    Prop where
  polled : g.point ≠ .unpolled
  before : g.point ≠ .over → g.log = {}
  after : g.point = .over → ∃ cancelled, g.log = g.fin.run ctx cancelled {}

theorem resume_polled {events : List SseEvent} {stop : Bool} (hLog : g.log = {}) :
    Polled ctx (resume ctx g events stop) := by
  cases events with
  | cons e rest =>
    exact ⟨by simp [resume], fun _ => hLog, by simp [resume]⟩
  | nil =>
    cases stop with
    | true =>
      refine ⟨by simp [resume, finish],
        by simp [resume, finish], fun _ => ⟨false, ?_⟩⟩
      simp [resume, finish, hLog]
    | false =>
      exact ⟨by simp [resume], fun _ => hLog, by simp [resume]⟩

theorem resumeEvent_polled {r : StreamFinalizer × (Await ⊕ List SseEvent)} (hLog : g.log = {}) :
    Polled ctx (resumeEvent ctx g r) := by
  rcases r with ⟨fin, what | events⟩
  · exact ⟨by simp [resumeEvent], fun _ => hLog, by simp [resumeEvent]⟩
  · exact resume_polled hLog

/- What each step can do, past the first poll. -/
theorem step_polled (hPolled : Polled ctx g) (hStep : step ctx g i = some g') :
    Polled ctx g' := by
  cases i with
  | drop =>
    cases hStep
    unfold dropGenerator
    split
    · exact hPolled
    · rename_i hPoint
      exact absurd hPoint hPolled.polled
    · rename_i hOver _
      have hLog := hPolled.before hOver
      exact ⟨by simp, by simp, fun _ => ⟨true, by rw [hLog]⟩⟩
  | poll =>
    simp only [step] at hStep
    split at hStep
    · rename_i hPoint
      exact absurd hPoint hPolled.polled
    · rename_i hPoint
      cases hStep
      exact resume_polled (hPolled.before (by simp [hPoint]))
    · cases hStep
  | event item =>
    simp only [step] at hStep
    split at hStep <;> cases hStep
    rename_i hPoint
    exact resumeEvent_polled (hPolled.before (by simp [hPoint]))
  | guard answer =>
    simp only [step] at hStep
    split at hStep
    all_goals cases hStep
    all_goals
      rename_i hPoint
      exact resume_polled (hPolled.before (by simp [hPoint]))
  | refuse reasonCode =>
    simp only [step] at hStep
    split at hStep <;> cases hStep
    rename_i hPoint
    exact resume_polled (hPolled.before (by simp [hPoint]))

/- Nothing but a provider event changes the usage. -/
theorem step_tally (hStep : step ctx g i = some g') :
    g'.fin.tally = i.providerEvent?.elim g.fin.tally g.fin.tally.absorb := by
  have hResume : ∀ (h : Generator) events stop, (resume ctx h events stop).fin = h.fin := by
    intro h events stop
    cases events with
    | cons e rest => rfl
    | nil => cases stop <;> rfl
  cases i with
  | drop =>
    cases hStep
    unfold dropGenerator
    split <;> rfl
  | poll =>
    simp only [step] at hStep
    split at hStep
    · cases hStep
      rfl
    · cases hStep
      rw [hResume]
      rfl
    · cases hStep
  | event item =>
    simp only [step] at hStep
    split at hStep <;> cases hStep
    rcases item with _ | (err | ev)
    · rfl
    · rcases err with ⟨_ | timeout⟩ <;> rfl
    · cases ev <;> rfl
  | guard answer =>
    simp only [step] at hStep
    split at hStep
    · cases hStep
      rw [resumeWith, hResume]
      cases answer with
      | emit text =>
        simp only [onDelta]
        split <;> rfl
      | block reasonCode => rfl
    · cases hStep
      rw [resumeWith, hResume]
      cases answer <;> rfl
    · cases hStep
      rw [resumeWith, hResume]
      cases answer <;> rfl
    · cases hStep
  | refuse reasonCode =>
    simp only [step] at hStep
    split at hStep <;> cases hStep
    rw [resumeWith, hResume]
    cases reasonCode <;> rfl

/- A generator that is over stays as it is. -/
theorem run_over {trace : List Input} (hOver : g.point = .over)
    (hRun : Run (fun g i g' => step ctx g i = some g') g trace g') :
    g' = g := by
  have hBoth : g'.point = .over ∧ g' = g := by
    refine @Run.invariant _ _ _ _ _ _ (fun h => h.point = .over ∧ h = g) ?_ hRun ⟨hOver, rfl⟩
    rintro h i h' ⟨hPoint, rfl⟩ hStep
    cases i with
    | drop =>
      simp only [step, dropGenerator, hPoint, Option.some.injEq] at hStep
      exact ⟨hStep ▸ hPoint, hStep.symm⟩
    | _ => simp [step, hPoint] at hStep
  exact hBoth.2

end Runs

/-
  However a request's generator ends, it is recorded, metered,
  and charged exactly once if and only if it is accountable.
-/
theorem accounted_iff (ctx : RequestContext) (trace : List Input) (g : Generator)
    (hRun : Run (fun g i g' => step ctx g i = some g') {} trace g) (hOver : g.point = .over) :
    Accounted ctx g.log ↔ accountable ctx trace = true := by
  have hTally : g.fin.tally = reportedTally trace :=
    hRun.foldl_view (fun g => g.fin.tally) (fun t i => i.providerEvent?.elim t t.absorb)
      (fun g i g' hStep => step_tally hStep)
  cases trace with
  | nil =>
    rw [Run.nil_iff] at hRun
    rw [← hRun] at hOver
    cases hOver
  | cons first rest =>
    rcases Run.cons_iff.mp hRun with ⟨u, hFirst, hRest⟩
    cases first with
    | drop =>
      simp only [step, dropGenerator, Option.some.injEq] at hFirst
      have hSame := run_over (by rw [← hFirst]) hRest
      have hLog : g.log = dropDispatchGuard ctx {} := by
        rw [hSame, ← hFirst]
        rfl
      rw [hLog, dropDispatchGuard_accounted_iff]
      simp [accountable]
    | poll =>
      have hStart : Polled ctx u := by
        simp only [step, Option.some.injEq] at hFirst
        rw [← hFirst]
        exact ⟨by simp, fun _ => rfl, by simp⟩
      have hPolled : Polled ctx g := by
        apply hRest.invariant _ hStart
        intro g i g' hBefore hStep
        exact step_polled hBefore hStep
      rcases hPolled.after hOver with ⟨cancelled, hLog⟩
      rw [hLog, run_accounted_iff, hTally]
      simp [accountable, or_assoc]
    | event _ | guard _ | refuse _ => cases hFirst

/- A priced request of a key, metered; with or without a bus. -/
def pricedRequest (nats : Bool) : RequestContext where
  model := "claude-sonnet-4-6"
  tenantId := "t1"
  apiKeyId := some "k1"
  warnAftId := none
  card := none
  nats := nats
  meters := true
  inputBytesForEstimate := 0
  attrsLen := fun _ => 0

/- A stream whose provider reports what it cost. -/
def pricedStream : List Input :=
  [.poll,
    .event (some (.ok (.streamChunk "hi"))),
    .guard (.emit "hi"), .poll,
    .event (some (.ok (.usageUpdate 3 1 none none (some 1) none))),
    .event none, .guard (.emit ""), .poll]

theorem pricedStream_runs (nats : Bool) :
    ∃ g,
      Run
          (fun g i g' => step (pricedRequest nats) g i = some g')
          {} pricedStream g ∧
        g.point = .over :=
  Run.eval (by cases nats <;> decide)

/- Without a span bus the key is not charged. -/
theorem pricedStream_uncharged :
    ∃ g,
      Run
          (fun g i g' => step (pricedRequest false) g i = some g')
          {} pricedStream g ∧
        g.point = .over ∧
        ¬ Accounted (pricedRequest false) g.log := by
  have hSpends :
      (pricedStream.foldlM (step (pricedRequest false)) {}).map
          (fun g => (g.point, g.log.spends, g.log.spans.map (fun span => span.cost))) =
        some (.over, [], [some 1]) := by
    decide
  rcases Option.map_eq_some_iff.mp hSpends with ⟨g, hSome, hSeen⟩
  simp only [Prod.mk.injEq] at hSeen
  rcases hSeen with ⟨hOver, hNothing, hCost⟩
  refine ⟨g, .of_foldlM hSome, hOver, ?_⟩
  rintro ⟨who, span, _, hSpan, _, hCharged⟩
  have hKey := hCharged "k1" rfl
  rw [hSpan] at hCost
  simp only [map_cons, map_nil, cons.injEq, and_true] at hCost
  rw [hNothing, hCost] at hKey
  simp [keySpends, trackerRecord] at hKey

theorem pricedStream_accounted :
    ∃ g,
      Run
          (fun g i g' => step (pricedRequest true) g i = some g')
          {} pricedStream g ∧
        g.point = .over ∧
        Accounted (pricedRequest true) g.log := by
  rcases pricedStream_runs true with ⟨g, hRun, hOver⟩
  exact ⟨g, hRun, hOver, (accounted_iff (pricedRequest true) pricedStream g hRun hOver).mpr rfl⟩

end Tracelane.Chat
