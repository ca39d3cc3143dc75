import Tracelane.Gateway.BreakerEvidence

/-
  What a breaker answers, and what ends a half-open period.

  Asking `would_allow` drops expired marks and nothing else, so no later call can tell that it was
  asked.  An outcome does not say when its request was let through, so one of an earlier period
  counts like a probe's.
-/

namespace Tracelane.Gateway

open List

namespace CircuitBreaker

open HashTable

variable (cfg : BreakerConfig)

--
-- Answers
--

/- What an event answers its caller. -/
def answer (b : CircuitBreaker) : Event → Option Bool
| .allow provider region cred now =>
    some (b.allow cfg provider region cred now).1
| .wouldAllow provider region cred now =>
    some (b.wouldAllow cfg provider region cred now).1
| _ => none

def answers (b : CircuitBreaker) :
    List Event → List (Option Bool)
| [] => []
| e :: es =>
    b.answer cfg e ::
      answers (b.step cfg e) es

/- No earlier than `t`, where the event reads the clock. -/
def Event.since (t : Instant) : Event → Prop
| .allow _ _ _ now => t ≤ now
| .wouldAllow _ _ _ now => t ≤ now
| .record _ _ _ _ now => t ≤ now
| .resetCredential _ => True
| .sweep now => t ≤ now

/- When a breaker that may refuse last moved. -/
def lastMove (s : BreakerState) : Option Instant :=
  match s.state with
  | .closed => none
  | .halfOpen => s.probeGrantedAt
  | .opened => s.openedAt

/- Drop every mark that has expired by `t`. -/
def settle (t : Instant) (b : CircuitBreaker) :
    CircuitBreaker :=
  { b with marks := b.marks.retain (fun _ mark => t < mark.expires) }

variable {cfg} {b : CircuitBreaker} {t now : Instant} (provider region : String)

/- A mark that has expired is not counted. -/
theorem providerOpenCount_settle (hLater : t ≤ now) :
    (settle t b).providerOpenCount provider region now =
      ((b.providerOpenCount provider region now).1,
        settle t (b.providerOpenCount provider region now).2) := by
  have hPrune :
      (settle t b).prune provider region now = settle t (b.prune provider region now) := by
    unfold settle prune
    rw [retain_comm]
  have hOwners :
      (settle t (b.prune provider region now)).openOwners provider region =
        (b.prune provider region now).openOwners provider region := by
    unfold openOwners settle prune retain
    simp only [filter_filter]
    congr 2
    refine filter_congr (fun e _ => ?_)
    have hMark : now < e.2.expires → t < e.2.expires := hLater.trans_lt
    cases inRegion provider region e.1 with
    | false => rfl
    | true => simpa using hMark
  unfold providerOpenCount
  simp only [hPrune, hOwners]

theorem settle_remove (gone : Key → Nat → Bool) :
    settle t (b.remove gone) = (settle t b).remove gone := by
  unfold settle remove
  rw [retain_comm]

theorem settle_sweepIdle :
    settle t (b.sweepIdle cfg now).2 = ((settle t b).sweepIdle cfg now).2 := by
  unfold sweepIdle
  rw [show (settle t b).cells = b.cells from rfl, ← settle_remove]
  unfold settle
  rw [retain_comm]

theorem settle_entry (key : Key) (cred : Cred) :
    (settle t b).entry cfg key cred now =
      ((b.entry cfg key cred now).1, settle t (b.entry cfg key cred now).2) := by
  have hSwept : (settle t b).sweepIfFull cfg now = settle t (b.sweepIfFull cfg now) := by
    unfold sweepIfFull
    rw [apply_ite (settle t), settle_sweepIdle]
    rfl
  unfold entry
  rw [hSwept, show (settle t b).breakers = b.breakers from rfl]
  cases b.breakers.lookup key with
  | some id => rfl
  | none =>
    simp only
    rw [show (settle t (b.sweepIfFull cfg now)).breakers =
      (b.sweepIfFull cfg now).breakers from rfl]
    split
    · rfl
    · rfl

theorem settle_unmarkOpen (key : Key) :
    settle t (b.unmarkOpen key) = (settle t b).unmarkOpen key := by
  unfold settle unmarkOpen
  rw [retain_erase]

--
-- Nothing Can Tell
--

variable (cred : Cred)

theorem allow_settle (hLater : t ≤ now) :
    (settle t b).allow cfg provider region cred now =
      ((b.allow cfg provider region cred now).1,
        settle t (b.allow cfg provider region cred now).2) := by
  unfold allow
  rw [providerOpenCount_settle provider region hLater]
  generalize b.providerOpenCount provider region now = counted
  by_cases hTier : cfg.providerMinOpenCredentials ≤ counted.1
  · simp only [if_pos hTier]
  · simp only [if_neg hTier, settle_entry]
    rcases counted.2.entry cfg ⟨provider, region, cred.id⟩ cred now with ⟨_ | id, b'⟩
    · rfl
    · simp only [apply_ite (settle t), settle_unmarkOpen]
      rfl

theorem wouldAllow_settle (hLater : t ≤ now) :
    (settle t b).wouldAllow cfg provider region cred now =
      ((b.wouldAllow cfg provider region cred now).1,
        settle t (b.wouldAllow cfg provider region cred now).2) := by
  unfold wouldAllow
  rw [providerOpenCount_settle provider region hLater]
  generalize b.providerOpenCount provider region now = counted
  by_cases hTier : cfg.providerMinOpenCredentials ≤ counted.1
  · simp only [if_pos hTier]
  · simp only [if_neg hTier, show (settle t counted.2).breakers = counted.2.breakers from rfl]
    cases counted.2.breakers.lookup ⟨provider, region, cred.id⟩ with
    | none => rfl
    | some id => rfl

theorem settle_idem :
    settle t (settle t b) = settle t b := by
  unfold settle
  rw [retain_idem]

theorem recordBody_settle (id : Nat) (key : Key) (cred : Cred) (outcome : Outcome) :
    settle t ((settle t b).recordBody cfg id key cred outcome now) =
      settle t (b.recordBody cfg id key cred outcome now) := by
  unfold recordBody markOpen settle
  simp only
  split
  · rw [retain_idem]
  · split
    · rw [retain_insert]
    · rw [retain_idem]

/- The same answer, and states that are settled alike. -/
theorem step_settle {e : Event} (hSince : e.since t) :
    (settle t b).answer cfg e = b.answer cfg e ∧
      settle t ((settle t b).step cfg e) = settle t (b.step cfg e) := by
  cases e with
  | allow provider region cred now =>
    simp only [answer, step, allow_settle _ _ _ hSince, settle_idem, and_self]
  | wouldAllow provider region cred now =>
    simp only [answer, step, wouldAllow_settle _ _ _ hSince, settle_idem, and_self]
  | record provider region cred outcome now =>
    refine ⟨rfl, ?_⟩
    simp only [step, record, settle_entry, show ∀ handle key, (settle t b).seenCell handle key =
        b.seenCell handle key from fun _ _ => rfl]
    split
    · exact settle_idem
    · cases b.seenCell cred.handle ⟨provider, region, cred.id⟩ with
      | some id => exact recordBody_settle ..
      | none =>
        rcases b.entry cfg ⟨provider, region, cred.id⟩ cred now with ⟨_ | id, b'⟩
        · exact settle_idem
        · exact recordBody_settle ..
  | resetCredential cred =>
    refine ⟨rfl, ?_⟩
    exact (congrArg (settle t) (settle_remove _).symm).trans settle_idem
  | sweep now =>
    refine ⟨rfl, ?_⟩
    exact (congrArg (settle t) settle_sweepIdle.symm).trans settle_idem

theorem answers_settle {es : List Event} (hSince : ∀ e ∈ es, e.since t) (b : CircuitBreaker) :
    (settle t b).answers cfg es = b.answers cfg es := by
  induction es generalizing b with
  | nil => rfl
  | cons e es ih =>
    rw [forall_mem_cons] at hSince
    rcases @step_settle cfg b t e hSince.1 with ⟨hAnswer, hStep⟩
    rw [answers, answers, hAnswer, ← ih hSince.2, hStep, ih hSince.2]

--
-- Prediction
--

/- A refusal leaves the answer to the two clocks. -/
theorem allow_fst {cooldown : Duration} (s : BreakerState) :
    (s.allow cfg cooldown now).1 =
      match s.state with
      | .closed => true
      | .halfOpen =>
        s.halfOpenProbes < cfg.halfOpenMaxProbes ||
          s.probeGrantedAt.all (fun t => cfg.probeLost ≤ saturatingDurationSince now t)
      | .opened =>
        s.openedAt.all (fun t => cooldown ≤ saturatingDurationSince now t) := by
  unfold BreakerState.allow
  cases s.state with
  | closed => rfl
  | halfOpen =>
    simp only [apply_ite Prod.fst]
    split
    · simp_all
    · simp_all
  | opened => simp [apply_ite Prod.fst]

theorem wouldAllow_eq_allow :
    (b.wouldAllow cfg provider region cred now).1 =
      (b.allow cfg provider region cred now).1 := by
  unfold wouldAllow allow
  simp only
  split
  · rfl
  · generalize (b.providerOpenCount provider region now).2 = b'
    unfold entry
    cases b'.breakers.lookup ⟨provider, region, cred.id⟩ with
    | none =>
      simp only
      split
      · rename_i hFull
        split at hFull <;> cases hFull
        rfl
      · rename_i id fresh hFound
        split at hFound <;> cases hFound
        simp [allowBody, observe, create, BreakerState.allow]
    | some id => exact (allow_fst (b'.cells id).st).symm

/- Asking drops expired marks alone. -/
theorem settle_wouldAllow :
    settle now (b.wouldAllow cfg provider region cred now).2 = settle now b := by
  have hAsked : (b.wouldAllow cfg provider region cred now).2 = b.prune provider region now := by
    unfold wouldAllow
    simp only
    split
    · rfl
    · split
      · rfl
      · rfl
  rw [hAsked]
  unfold settle prune
  congr 1
  apply AList.ext
  simp only [retain, filter_filter]
  refine filter_congr (fun e _ => ?_)
  cases decide (now < e.2.expires) with
  | false => rfl
  | true => simp

theorem wouldAllow_of_rested {provider region : String} {cred : Cred}
    (hTier : (b.providerOpenCount provider region now).1 < cfg.providerMinOpenCredentials)
    (hRested :
      ∀ id,
        b.breakers.lookup ⟨provider, region, cred.id⟩ = some id →
          ∀ moved ∈ lastMove (b.cells id).st,
            moved + max (cfg.cooldownOf cred.tuning) cfg.probeLost ≤ now) :
    (b.wouldAllow cfg provider region cred now).1 = true := by
  unfold wouldAllow
  simp only [if_neg (Nat.not_le.mpr hTier)]
  split
  · rfl
  · rename_i id hFound
    have hPast :
        ∀ moved ∈ lastMove (b.cells id).st,
          ∀ d ≤ max (cfg.cooldownOf cred.tuning) cfg.probeLost,
            d ≤ saturatingDurationSince now moved := by
      intro moved hMoved d hLe
      have hRest := hRested id hFound moved hMoved
      exact hLe.trans (Nat.le_sub_of_add_le' hRest)
    unfold lastMove at hPast
    simp only [providerOpenCount, prune]
    cases hState : (b.cells id).st.state with
    | closed => rfl
    | halfOpen =>
      simp only [hState] at hPast ⊢
      rw [Bool.or_eq_true, Option.all_eq_true]
      refine .inr (fun moved hGranted => ?_)
      exact decide_eq_true (hPast moved hGranted _ (le_max_right _ _))
    | opened =>
      simp only [hState] at hPast ⊢
      rw [Option.all_eq_true]
      intro moved hOpened
      exact decide_eq_true (hPast moved hOpened _ (le_max_left _ _))

/-
  In every state `would_allow` says what `allow` would, no later answer depends on having asked, and
  a credential that has rested is let through.
-/
theorem wouldAllow_predicts (cfg : BreakerConfig)
    (b : CircuitBreaker) (provider region : String) (cred : Cred) (now : Instant) :
    (b.wouldAllow cfg provider region cred now).1 =
        (b.allow cfg provider region cred now).1 ∧
      (∀ es, (∀ e ∈ es, Event.since now e) →
        (b.wouldAllow cfg provider region cred now).2.answers cfg es =
          b.answers cfg es) ∧
      ((b.providerOpenCount provider region now).1 < cfg.providerMinOpenCredentials →
        (∀ id,
          b.breakers.lookup ⟨provider, region, cred.id⟩ = some id →
            ∀ moved ∈ lastMove (b.cells id).st,
              moved + max (cfg.cooldownOf cred.tuning) cfg.probeLost ≤ now) →
        (b.allow cfg provider region cred now).1 = true) := by
  refine ⟨wouldAllow_eq_allow provider region cred, ?_, ?_⟩
  · intro es hSince
    rw [← answers_settle hSince, settle_wouldAllow, answers_settle hSince]
  · intro hTier hRested
    rw [← wouldAllow_eq_allow]
    exact wouldAllow_of_rested hTier hRested

end CircuitBreaker

--
-- Half-Open Periods
--

namespace BreakerState

/-
  A credential's breaker, the requests it let through that were not recorded yet, and of its last
  half-open period the probes and whose success and whose failure was recorded.
-/
structure Watched where
  st : BreakerState := {}
  next : Nat := 0
  inFlight : List Nat := []
  probes : List Nat := []
  succeeded : List Nat := []
  failed : List Nat := []

inductive Use where
| allow (cooldown : Duration) (now : Instant)
| record (id threshold : Nat) (call : Call) (now : Instant)

/-
  One call.  A request is recorded once, after it was let through; `shared` is a credential without
  an owner, which no isolated failure reaches.
-/
def watch (cfg : BreakerConfig) (shared : Bool) (w : Watched) : Use → Option Watched
| .allow cooldown now =>
    let said := w.st.allow cfg cooldown now
    let w' :=
      { w with
        st := said.2.2
        next := w.next + 1
        inFlight := w.next :: w.inFlight }
    if said.1 then
      match w.st.state with
      | .closed => some w'
      | .halfOpen => some { w' with probes := w.next :: w.probes }
      | .opened =>
          some
            { w' with
              probes := [w.next]
              succeeded := []
              failed := [] }
    else some w
| .record id threshold call now =>
    if id ∈ w.inFlight then
      some
        { w with
          st :=
            if call.isolated && !call.success && shared then
              w.st
            else (w.st.record cfg threshold call now).2
          inFlight := w.inFlight.erase id
          succeeded :=
            if w.st.state = .halfOpen ∧ call.success then
              id :: w.succeeded
            else w.succeeded
          failed :=
            if w.st.state = .halfOpen ∧ !call.success then
              id :: w.failed
            else w.failed }
    else none

/-
  A period ends closed after enough of its probes succeeded
  and none failed, and open on the failure of one of them.
-/
def Honest (cfg : BreakerConfig) (w : Watched) (use : Use) (w' : Watched) : Prop :=
  w.st.state = .halfOpen →
    (w'.st.state = .closed →
      cfg.halfOpenMaxProbes ≤ (w'.succeeded.filter (fun id => id ∈ w.probes)).length ∧
        ∀ id ∈ w'.failed, id ∉ w.probes) ∧
      (w'.st.state = .opened →
        ∃ id threshold call now,
          use = .record id threshold call now ∧ id ∈ w.probes ∧ call.success = false)

/-
  A call that leaves the period to its probes: a record made
  while half-open is of a probe, and no failure is set aside.
-/
def ofProbe (shared : Bool) (w : Watched) : Use → Bool
| .allow _ _ => true
| .record id _ call _ =>
    w.st.state ≠ .halfOpen ||
      (id ∈ w.probes && (call.success || !(call.isolated && shared)))

/- Successes of the probes, too few to close, and no failure. -/
structure Tally (cfg : BreakerConfig) (w : Watched) : Prop where
  counted : w.st.halfOpenSuccesses = w.succeeded.length
  below : w.succeeded.length < cfg.halfOpenMaxProbes
  own : ∀ id ∈ w.succeeded, id ∈ w.probes
  failed : w.failed = []

/- What a half-open breaker has counted. -/
def Tallied (cfg : BreakerConfig) (w : Watched) : Prop :=
  w.st.state = .halfOpen → Tally cfg w

variable {cfg : BreakerConfig} {shared : Bool} {w w' : Watched} {use : Use}

theorem record_halfOpen (cfg : BreakerConfig) (s : BreakerState) (threshold : Nat)
    (call : Call) (now : Instant) (hHalf : s.state = .halfOpen) :
    let s' := (s.record cfg threshold call now).2
    if call.success then
      if cfg.halfOpenMaxProbes ≤ s.halfOpenSuccesses + 1 then
        s'.state = .closed
      else
        s'.state = .halfOpen ∧ s'.halfOpenSuccesses = s.halfOpenSuccesses + 1
    else s'.state = .opened := by
  cases hOk : call.success with
  | false =>
    simp [record, pushWindow, pushStreak, hOk, hHalf, reopen]
  | true =>
    simp only [record, pushWindow, pushStreak, hOk, hHalf, if_true]
    split
    · rfl
    · exact ⟨rfl, rfl⟩

theorem record_ne_halfOpen (cfg : BreakerConfig) (s : BreakerState) (threshold : Nat)
    (call : Call) (now : Instant) (hElse : s.state ≠ .halfOpen) :
    (s.record cfg threshold call now).2.state ≠ .halfOpen := by
  have hPushed : ((s.pushWindow cfg.windowSize call).pushStreak call).state = s.state := by
    unfold pushStreak
    split
    · rfl
    · rfl
  unfold record
  simp only [hPushed]
  split
  · contradiction
  · split
    · rename_i hTrip
      simp only [trip] at hTrip
      split at hTrip <;> cases hTrip
      simp
    · rwa [hPushed]
  · rwa [hPushed]

theorem allow_halfOpen (s : BreakerState) (cooldown : Duration) (now : Instant)
    (hHalf : s.state = .halfOpen) :
    (s.allow cfg cooldown now).2.2.state = .halfOpen ∧
      (s.allow cfg cooldown now).2.2.halfOpenSuccesses = s.halfOpenSuccesses := by
  simp only [allow, hHalf]
  split
  · exact ⟨rfl, rfl⟩
  · split
    · exact ⟨rfl, rfl⟩
    · exact ⟨hHalf, rfl⟩

/-
  What such a call does to a half-open breaker: it stays so,
  closes on the last success it counts, or opens on the
  failure of a probe.
-/
theorem watch_halfOpen
    (hTallied : Tallied cfg w)
    (hHalf : w.st.state = .halfOpen)
    (hProbe : ofProbe shared w use)
    (hStep : watch cfg shared w use = some w') :
    (w'.st.state = .halfOpen ∧ Tally cfg w') ∨
      (w'.st.state = .closed ∧
        w'.succeeded.length = cfg.halfOpenMaxProbes ∧
        (∀ id ∈ w'.succeeded, id ∈ w.probes) ∧ w'.failed = []) ∨
      (w'.st.state = .opened ∧
        ∃ id threshold call now,
          use = .record id threshold call now ∧ id ∈ w.probes ∧ call.success = false) := by
  rcases hTallied hHalf with ⟨hCount, hBelow, hOwn, hNone⟩
  cases use with
  | allow cooldown now =>
    rcases allow_halfOpen w.st cooldown now hHalf with ⟨hStays, hSame⟩
    simp only [watch, hHalf] at hStep
    split at hStep
    · cases hStep
      exact .inl ⟨hStays, hSame.trans hCount, hBelow,
        fun id hMem => mem_cons_of_mem _ (hOwn id hMem), hNone⟩
    · cases hStep
      exact .inl ⟨hHalf, hCount, hBelow, hOwn, hNone⟩
  | record id threshold call now =>
    have hMoves := record_halfOpen cfg w.st threshold call now hHalf
    simp only [ofProbe, hHalf, ne_eq, not_true_eq_false, decide_false, Bool.false_or,
      Bool.and_eq_true, decide_eq_true_eq] at hProbe
    simp only [watch] at hStep
    split at hStep <;> cases hStep
    cases hOk : call.success with
    | false =>
      simp only [hOk, Bool.false_or, Bool.not_eq_true'] at hProbe
      right; right
      simp only [hOk] at hMoves
      simpa [hHalf, hOk, hProbe.2] using ⟨hMoves, hProbe.1⟩
    | true =>
      simp only [hOk, if_true, hCount] at hMoves
      have hAll : ∀ id' ∈ id :: w.succeeded, id' ∈ w.probes :=
        forall_mem_cons.mpr ⟨hProbe.1, hOwn⟩
      split at hMoves
      · right; left
        refine ⟨by simpa [hOk] using hMoves, ?_, ?_, ?_⟩
        · simp [hHalf]
          omega
        · simpa [hHalf] using hAll
        · simpa [hHalf] using hNone
      · left
        refine ⟨by simpa [hOk] using hMoves.1, ?_, ?_, ?_, ?_⟩
        · simpa [hHalf, hOk] using hMoves.2
        · simp [hHalf]
          omega
        · simpa [hHalf] using hAll
        · simpa [hHalf] using hNone

/- The tally of a period, along any such calls. -/
theorem watch_tallied
    (hMax : 0 < cfg.halfOpenMaxProbes)
    (hTallied : Tallied cfg w)
    (hProbe : ofProbe shared w use)
    (hStep : watch cfg shared w use = some w') :
    Tallied cfg w' := by
  intro hHalf'
  by_cases hHalf : w.st.state = .halfOpen
  · rcases watch_halfOpen hTallied hHalf hProbe hStep with
      ⟨-, hKept⟩ | ⟨hElse, -⟩ | ⟨hElse, -⟩
    · exact hKept
    · simp [hHalf'] at hElse
    · simp [hHalf'] at hElse
  · cases use with
    | allow cooldown now =>
      simp only [watch, allow] at hStep
      cases hState : w.st.state with
      | halfOpen => contradiction
      | closed =>
        simp only [hState] at hStep
        cases hStep
        simp [hState] at hHalf'
      | opened =>
        simp only [hState] at hStep
        split at hStep
        · cases hStep
          exact ⟨rfl, hMax, forall_mem_nil _, rfl⟩
        · cases hStep
          contradiction
    | record id threshold call now =>
      have hElse := record_ne_halfOpen cfg w.st threshold call now hHalf
      simp only [watch] at hStep
      split at hStep <;> cases hStep
      simp only at hHalf'
      split at hHalf'
      · contradiction
      · contradiction

/-
  As long as records made while half-open are of its probes
  and no failure of theirs is set aside, every period ends as
  promised.
-/
theorem run_honest
    (hMax : 0 < cfg.halfOpenMaxProbes)
    {uses : List Use}
    (hRun :
      Transition.Run (fun w use w' => ofProbe shared w use ∧ watch cfg shared w use = some w')
        {} uses w)
    (hProbe : ofProbe shared w use)
    (hStep : watch cfg shared w use = some w') :
    Honest cfg w use w' := by
  intro hHalf
  have hTallied : Tallied cfg w :=
    hRun.invariant
      (fun _ _ _ hKept hNext => watch_tallied hMax hKept hNext.1 hNext.2)
      (fun hNew => nomatch hNew)
  rcases watch_halfOpen hTallied hHalf hProbe hStep with
    ⟨hState, -⟩ | ⟨hState, hAll, hOwn, hNone⟩ | ⟨hState, hFailed⟩
  · simp [hState]
  · refine ⟨fun _ => ⟨?_, by simp [hNone]⟩, by simp [hState]⟩
    rw [filter_eq_self.mpr (fun id hMem => decide_eq_true (hOwn id hMem)), hAll]
  · exact ⟨by simp [hState], fun _ => hFailed⟩

/-
  A request let through while the breaker was closed reports
  after the probe was sent, and closes the breaker.
-/
def lateReport : List Use :=
  [.allow 10 0, .allow 10 0,
    .record 0 1 ⟨⟨"", "", .env⟩, none, false, .upstreamFault⟩ 1,
    .allow 10 11]

def lateSuccess : Use :=
  .record 1 1 ⟨⟨"", "", .env⟩, none, false, .success⟩ 12

def probeSuccess : Use :=
  .record 2 1 ⟨⟨"", "", .env⟩, none, false, .success⟩ 12

open CircuitBreaker (sampleConfig)

/- The one probe is request 2; request 1 closes the period. -/
theorem late_success_closes :
    ∃ w w',
      lateReport.foldlM (watch sampleConfig false) {} = some w ∧
        watch sampleConfig false w lateSuccess = some w' ∧
        ¬ Honest sampleConfig w lateSuccess w' := by
  have hEnds :
      ∃ w w',
        lateReport.foldlM (watch sampleConfig false) {} = some w ∧
          watch sampleConfig false w lateSuccess = some w' ∧
          w.st.state = .halfOpen ∧ w'.st.state = .closed ∧
          w.probes = [2] ∧ w'.succeeded = [1] :=
    ⟨_, _, rfl, rfl, rfl, rfl, rfl, rfl⟩
  rcases hEnds with ⟨w, w', hRun, hStep, hHalf, hClosed, hProbes, hCounted⟩
  refine ⟨w, w', hRun, hStep, fun hHonest => ?_⟩
  have hEnough := ((hHonest hHalf).1 hClosed).1
  rw [hProbes, hCounted] at hEnough
  exact absurd hEnough (by decide)

/- Its probe reports first, and closes the period. -/
theorem probe_success_honest :
    ∃ w w',
      Transition.Run
          (fun w use w' => ofProbe false w use ∧ watch sampleConfig false w use = some w')
          {} lateReport w ∧
        w.st.state = .halfOpen ∧
        watch sampleConfig false w probeSuccess = some w' ∧
        w'.st.state = .closed ∧ Honest sampleConfig w probeSuccess w' := by
  have hRun := Transition.Run.of_foldlM_guard
    (show lateReport.foldlM
        (fun w use => if ofProbe false w use then watch sampleConfig false w use else none) {} =
      some _ from rfl)
  exact ⟨_, _, hRun, rfl, rfl, rfl, run_honest (by decide) hRun (by decide) rfl⟩

end BreakerState

end Tracelane.Gateway
