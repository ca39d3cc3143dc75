import Tracelane.Gateway.Limits

/-
  The tail sampler of the span writer.

  A span with an error or an intervention marks its trace, and a prune drops the marks it comes
  `maxAge` or more after. Only such a span renews a mark, although the source means to spare every
  trace that is still active, and a mark is known by the trace alone, whoever its tenant is.
-/

namespace Tracelane.Ingest

open Gateway

--
-- The Sampler
--

inductive SampleDecision where
| keep
| drop
deriving DecidableEq

inductive SamplingPolicy where
| tail
| full
deriving DecidableEq

/- What the sampler reads of a span, and whose it is. -/
structure SampledSpan where
  tenant : TenantId
  traceId : Uuid
  isError : Bool := false
  intervention : Bool := false

def SampledSpan.forceKeep (span : SampledSpan) : Bool :=
  span.isError || span.intervention

structure TailSampler where
  sampleRatePct : Nat
  forcedKeep : HashTable Uuid Instant := ∅

namespace TailSampler

def withRate (sampleRatePct : Nat) : TailSampler where
  sampleRatePct := min sampleRatePct 100

def asU128 (id : Uuid) : Nat :=
  id.bytes.foldl (fun n b => n * 256 + b.toNat) 0

def keepByRate (s : TailSampler) (traceId : Uuid) : Bool :=
  if s.sampleRatePct = 0 then false
  else if 100 ≤ s.sampleRatePct then true
  else asU128 traceId % 100 < s.sampleRatePct

def evaluate (s : TailSampler) (span : SampledSpan) (policy : SamplingPolicy) (now : Instant) :
    SampleDecision × TailSampler :=
  if policy = .full then (.keep, s)
  else if span.forceKeep then
    (.keep, { s with
      forcedKeep := s.forcedKeep.insert span.traceId now })
  -- A trace that is only looked up keeps its old stamp.
  else if (s.forcedKeep.lookup span.traceId).isSome then (.keep, s)
  else (if s.keepByRate span.traceId then .keep else .drop, s)

def pruneAt (s : TailSampler) (now : Instant) (maxAge : Duration) : TailSampler :=
  { s with
    forcedKeep := s.forcedKeep.retain (fun _ lastSeen =>
      saturatingDurationSince now lastSeen < maxAge) }

end TailSampler

inductive Event where
| span (span : SampledSpan) (now : Instant)
| prune (now : Instant)

section Runs

variable (pct : Nat) (maxAge : Duration)

/- The sampler after its events, of which the last comes first. -/
def run : List Event → TailSampler
| [] => .withRate pct
| .span span now :: past => ((run past).evaluate span .tail now).2
| .prune now :: past => (run past).pruneAt now maxAge

def verdict (past : List Event) (span : SampledSpan) (now : Instant) : SampleDecision :=
  ((run pct maxAge past).evaluate span .tail now).1

--
-- What Is Promised
--

/-
  A span of the trace was force-kept, and from it on no two
  consecutive spans of the trace are `maxAge` or more apart.
-/
def Due (id : Uuid) (now : Instant) : List Event → Prop
| [] => False
| .prune _ :: past => Due id now past
| .span span t :: past =>
    if span.traceId = id then
      now - t < maxAge ∧ (span.forceKeep ∨ Due id t past)
    else Due id now past

/- What a tenant's run has of a run. -/
def ofTenant (tenant : TenantId) : Event → Bool
| .span span _ => span.tenant = tenant
| .prune _ => true

structure KeptWhole (events : List Event) : Prop where
  sticky :
    ∀ span now past, .span span now :: past <:+ events →
      Due maxAge span.traceId now past →
      verdict pct maxAge past span now = .keep
  uniform :
    ∀ id,
      (∀ span now, .span span now ∈ events → span.traceId = id → span.forceKeep = false) →
      ∃ decision, ∀ span now past,
        .span span now :: past <:+ events → span.traceId = id →
        verdict pct maxAge past span now = decision
  isolated :
    ∀ span now past, .span span now :: past <:+ events →
      verdict pct maxAge past span now =
        verdict pct maxAge (past.filter (ofTenant span.tenant)) span now

--
-- What Is Remembered
--

/-
  The trace was last force-kept at `t`, and every prune since then came less than `maxAge` after it.
-/
def Stamped (id : Uuid) (t : Instant) : List Event → Prop
| [] => False
| .prune now :: past => now - t < maxAge ∧ Stamped id t past
| .span span now :: past =>
    if span.traceId = id ∧ span.forceKeep then now = t
    else Stamped id t past

def Marked (id : Uuid) (past : List Event) : Prop :=
  ∃ t, Stamped maxAge id t past

end Runs

/- Whose span force-kept the trace last. -/
def forcedBy (id : Uuid) : List Event → Option TenantId
| [] => none
| .prune _ :: past => forcedBy id past
| .span span _ :: past =>
    if span.traceId = id ∧ span.forceKeep then some span.tenant
    else forcedBy id past

variable {pct : Nat} {maxAge : Duration} {events past : List Event}
variable {span : SampledSpan} {now t : Instant} {id : Uuid}

theorem evaluate_tail_snd (s : TailSampler) :
    (s.evaluate span .tail now).2 =
      if span.forceKeep then
        { s with forcedKeep := s.forcedKeep.insert span.traceId now }
      else s := by
  simp only [TailSampler.evaluate, reduceCtorEq, if_false]
  split_ifs <;> rfl

theorem lookup_run_iff :
    (run pct maxAge past).forcedKeep.lookup id = some t ↔ Stamped maxAge id t past := by
  induction past with
  | nil => simp [run, TailSampler.withRate, Stamped]
  | cons e past ih =>
    cases e with
    | prune now =>
      simp only [run, TailSampler.pruneAt, HashTable.lookup_retain,
        Option.filter_eq_some_iff, ih, Stamped]
      exact and_comm.trans (and_congr_left (fun _ => decide_eq_true_iff))
    | span span now =>
      simp only [run, evaluate_tail_snd, Stamped]
      by_cases hForce : span.forceKeep
      · by_cases hTrace : span.traceId = id
        · subst hTrace
          simp [hForce]
        · rw [if_pos hForce, if_neg (fun h => hTrace h.1), ← ih]
          simp only [AList.lookup_insert_ne (Ne.symm hTrace)]
      · rw [if_neg hForce, if_neg (fun h => hForce h.2), ih]

theorem marked_iff_isSome (pct : Nat) :
    Marked maxAge id past ↔ ((run pct maxAge past).forcedKeep.lookup id).isSome := by
  simp only [Marked, Option.isSome_iff_exists, lookup_run_iff]

theorem Marked.exists_forced (hMarked : Marked maxAge id past) :
    ∃ span now, .span span now ∈ past ∧ span.traceId = id ∧ span.forceKeep := by
  rcases hMarked with ⟨t, hStamped⟩
  induction past with
  | nil => cases hStamped
  | cons e past ih =>
    cases e with
    | prune now =>
      rcases ih hStamped.2 with ⟨span, now, hMem, hForced⟩
      exact ⟨span, now, .tail _ hMem, hForced⟩
    | span span now =>
      by_cases hHere : span.traceId = id ∧ span.forceKeep
      · exact ⟨span, now, .head _, hHere⟩
      · simp only [Stamped, if_neg hHere] at hStamped
        rcases ih hStamped with ⟨span, now, hMem, hForced⟩
        exact ⟨span, now, .tail _ hMem, hForced⟩

/- Spans of other tenants before a tenant's own do not matter. -/
theorem marked_ofTenant {tenant : TenantId} (hOwn : ∀ other ∈ forcedBy id past, other = tenant) :
    Marked maxAge id past ↔ Marked maxAge id (past.filter (ofTenant tenant)) := by
  refine exists_congr (fun t => ?_)
  induction past with
  | nil => rfl
  | cons e past ih =>
    cases e with
    | prune now => exact and_congr_right (fun _ => ih hOwn)
    | span span now =>
      by_cases hForced : span.traceId = id ∧ span.forceKeep
      · have hTenant := hOwn span.tenant (by simp [forcedBy, hForced])
        simp [Stamped, ofTenant, hTenant, hForced]
      · rw [forcedBy, if_neg hForced] at hOwn
        rw [Stamped, if_neg hForced, ih hOwn, List.filter_cons]
        split
        · rw [Stamped, if_neg hForced]
        · rfl

theorem keepByRate_run :
    (run pct maxAge past).keepByRate id = (TailSampler.withRate pct).keepByRate id := by
  have hRate : (run pct maxAge past).sampleRatePct = min pct 100 := by
    induction past with
    | nil => rfl
    | cons e past ih =>
      cases e with
      | prune now => exact ih
      | span span now =>
        simp only [run, evaluate_tail_snd]
        split <;> exact ih
  unfold TailSampler.keepByRate
  rw [hRate]
  rfl

theorem verdict_eq_keep_iff :
    verdict pct maxAge past span now = .keep ↔
      span.forceKeep ∨ Marked maxAge span.traceId past ∨
        (TailSampler.withRate pct).keepByRate span.traceId := by
  have hRate : (run pct maxAge past).keepByRate span.traceId = _ := keepByRate_run
  rw [marked_iff_isSome pct, ← hRate]
  simp only [verdict, TailSampler.evaluate]
  split_ifs <;> simp_all

theorem verdict_eq_iff {past' : List Event} :
    verdict pct maxAge past span now = verdict pct maxAge past' span now ↔
      (verdict pct maxAge past span now = .keep ↔ verdict pct maxAge past' span now = .keep) := by
  cases verdict pct maxAge past span now <;> cases verdict pct maxAge past' span now <;> simp

/-
  A run keeps its flagged traces whole, for each tenant as if alone, just when no mark that is due
  is missing at a span that needs it and, where another tenant's span was the last to force-keep
  the trace, that one's mark is there just when the tenant's own is.
-/
theorem keptWhole_iff (events : List Event) :
    KeptWhole pct maxAge events ↔
      ∀ span now past, .span span now :: past <:+ events →
        span.forceKeep = false →
        (TailSampler.withRate pct).keepByRate span.traceId = false →
        (Due maxAge span.traceId now past → Marked maxAge span.traceId past) ∧
          ∀ other ∈ forcedBy span.traceId past, other ≠ span.tenant →
            (Marked maxAge span.traceId past ↔
              Marked maxAge span.traceId (past.filter (ofTenant span.tenant))) := by
  constructor
  · intro hWhole span now past hHere hForce hRate
    have hAlone := verdict_eq_iff.mp (hWhole.isolated span now past hHere)
    simp only [verdict_eq_keep_iff, hForce, hRate, Bool.false_eq_true, false_or, or_false] at hAlone
    refine ⟨fun hDue => ?_, fun _ _ _ => hAlone⟩
    simpa [verdict_eq_keep_iff, hForce, hRate] using hWhole.sticky span now past hHere hDue
  · intro hNeeded
    constructor
    · intro span now past hHere hDue
      rw [verdict_eq_keep_iff]
      by_contra! hNone
      have hMarks := hNeeded span now past hHere (by simpa using hNone.1) (by simpa using hNone.2.2)
      exact hNone.2.1 (hMarks.1 hDue)
    · intro id hPlain
      refine ⟨if (TailSampler.withRate pct).keepByRate id then .keep else .drop, ?_⟩
      rintro span now past hHere rfl
      have hForce := hPlain span now (hHere.subset (.head _)) rfl
      have hUnmarked : ¬Marked maxAge span.traceId past := by
        intro hMarked
        rcases hMarked.exists_forced with ⟨other, t, hMem, hTrace, hForced⟩
        rw [hPlain other t (hHere.subset (.tail _ hMem)) hTrace] at hForced
        cases hForced
      have hKeep : verdict pct maxAge past span now = .keep ↔ _ := verdict_eq_keep_iff
      simp only [hForce, hUnmarked, Bool.false_eq_true, false_or] at hKeep
      split
      · exact hKeep.mpr ‹_›
      · cases hVerdict : verdict pct maxAge past span now with
        | keep => exact absurd (hKeep.mp hVerdict) ‹_›
        | drop => rfl
    · intro span now past hHere
      rw [verdict_eq_iff, verdict_eq_keep_iff, verdict_eq_keep_iff]
      by_cases hKept : span.forceKeep ∨ (TailSampler.withRate pct).keepByRate span.traceId
      · tauto
      · rw [not_or, Bool.not_eq_true, Bool.not_eq_true] at hKept
        have hMarks := (hNeeded span now past hHere hKept.1 hKept.2).2
        by_cases hOwn : ∀ other ∈ forcedBy span.traceId past, other = span.tenant
        · rw [marked_ofTenant hOwn]
        · push Not at hOwn
          rcases hOwn with ⟨other, hOther, hForeign⟩
          rw [hMarks other hOther hForeign]

/-
  An error at 0, a span at 6, a prune at 11, and a span at 12:
  the trace was never quiet for 10, and the last is dropped.
-/
theorem active_trace_dropped :
    ¬KeptWhole 0 10
      [.span ⟨.zero 16, .zero 16, false, false⟩ 12, .prune 11,
        .span ⟨.zero 16, .zero 16, false, false⟩ 6,
        .span ⟨.zero 16, .zero 16, true, false⟩ 0] := by
  intro hWhole
  have hKept := hWhole.sticky _ _ _ (List.suffix_refl _) (by simp [Due, SampledSpan.forceKeep])
  revert hKept
  decide

end Tracelane.Ingest
