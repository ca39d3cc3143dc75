import Tracelane.Gateway.CircuitBreaker

/-
  What opens the provider-wide tier: credentials of enough owners, each of which tripped on faults
  of the upstream alone, seen under no workspace override.
-/

namespace Tracelane.Gateway

open List CircuitBreaker BreakerState Function HashTable Transition Bool

--
-- Clean Faults
--

/- Recorded calls of one key. -/
def Logged (calls : List Call) (key : Key) (cs : List Call) : Prop :=
  ∀ c ∈ cs, c ∈ calls ∧ c.key = key

/- Recorded faults of one key, all of them clean. -/
structure CleanRule (calls : List Call) (key : Key) (rule : List Call) : Prop where
  inhabited : rule ≠ []
  clean : ∀ c ∈ rule, c.Clean
  logged : Logged calls key rule

variable {calls more : List Call} {key : Key}

theorem Logged.mono {cs : List Call} (hLogged : Logged calls key cs) :
    Logged (calls ++ more) key cs :=
  fun c hMem =>
    ⟨mem_append_left _ (hLogged c hMem).1, (hLogged c hMem).2⟩

theorem Logged.snoc {cs : List Call} {c : Call} (hLogged : Logged calls key cs)
    (hKey : c.key = key) :
    Logged (calls ++ [c]) key (cs ++ [c]) := by
  exact forall_mem_append.mpr ⟨hLogged.mono, forall_mem_singleton.mpr ⟨by simp, hKey⟩⟩

theorem CleanRule.mono {rule : List Call} (hRule : CleanRule calls key rule) :
    CleanRule (calls ++ more) key rule :=
  ⟨hRule.inhabited, hRule.clean, hRule.logged.mono⟩

theorem Call.clean_of_failed {c : Call} (hFailed : c.success = false)
    (hShared : c.isolated = false) :
    c.Clean := by
  unfold Call.success at hFailed
  unfold Call.isolated at hShared
  simp only [or_eq_false_iff, decide_eq_false_iff_not] at hFailed hShared
  rcases hShared with ⟨⟨hTuning, hDeadline⟩, hFault⟩
  refine ⟨?_, by simpa using hTuning, hDeadline⟩
  cases hOutcome : c.outcome with
  | success => exact absurd hOutcome hFailed
  | upstreamFault => rfl
  | credentialFault => exact absurd hOutcome hFault

theorem Call.tuning_of_shared {c : Call} (hShared : c.isolated = false) :
    c.tuning = none := by
  unfold Call.isolated at hShared
  simp only [or_eq_false_iff] at hShared
  simpa using hShared.1.1

--
-- One Breaker
--

namespace BreakerState

/- The window, the streak, and the shared flag of a breaker are those of the calls it saw. -/
structure Backed (calls : List Call) (key : Key) (s : BreakerState) : Prop where
  window : s.window = s.windowCalls.map Call.success
  windowIsolated : s.windowIsolated = s.windowCalls.map Call.isolated
  windowLogged : Logged calls key s.windowCalls
  streak : s.consecutiveFailures = s.streakCalls.length
  streakFailed : ∀ c ∈ s.streakCalls, c.success = false
  streakIsolated : s.streakIsolated = s.streakCalls.any Call.isolated
  streakLogged : Logged calls key s.streakCalls
  shared : s.openShared = true → ∃ rule ∈ s.rules, CleanRule calls key rule

variable {s : BreakerState} {c : Call}

theorem backed_new : Backed calls key {} := by
  constructor <;> simp [Logged]

section

variable (hBacked : Backed calls key s)
include hBacked

theorem Backed.mono :
    Backed (calls ++ more) key s := by
  refine { hBacked with
    windowLogged := hBacked.windowLogged.mono
    streakLogged := hBacked.streakLogged.mono
    shared := ?_ }
  intro hShared
  rcases hBacked.shared hShared with ⟨rule, hRule, hClean⟩
  exact ⟨rule, hRule, hClean.mono⟩

theorem Backed.pushWindow (hKey : c.key = key) (windowSize : Nat) :
    Backed (calls ++ [c]) key (s.pushWindow windowSize c) := by
  have hMore : Backed (calls ++ [c]) key s := hBacked.mono
  refine { hMore with window := ?_, windowIsolated := ?_, windowLogged := ?_ }
  · simp [BreakerState.pushWindow, hBacked.window]
  · simp [BreakerState.pushWindow, hBacked.windowIsolated]
  · intro d hMem
    exact hBacked.windowLogged.snoc hKey d (mem_of_mem_drop hMem)

theorem Backed.pushStreak (hCall : c ∈ calls) (hKey : c.key = key) :
    Backed calls key (s.pushStreak c) := by
  unfold BreakerState.pushStreak
  split
  · refine { hBacked with
      streak := rfl, streakFailed := ?_, streakIsolated := rfl, streakLogged := ?_ }
    · simp
    · simp [Logged]
  · rename_i hFailed
    rw [not_eq_true] at hFailed
    refine { hBacked with
      streak := ?_, streakFailed := ?_, streakIsolated := ?_, streakLogged := ?_ }
    · simp [hBacked.streak]
    · exact forall_mem_append.mpr ⟨hBacked.streakFailed, forall_mem_singleton.mpr hFailed⟩
    · simp [hBacked.streakIsolated]
    · exact forall_mem_append.mpr ⟨hBacked.streakLogged, forall_mem_singleton.mpr ⟨hCall, hKey⟩⟩

end

theorem backed_recover :
    Backed calls key s.recover := by
  constructor <;> simp [recover, Logged]

section

variable (hBacked : Backed calls key s)
include hBacked

/- A shared period stays shared through a clean probe only. -/
theorem Backed.reopen (hCall : c ∈ calls)
    (hKey : c.key = key) (hFailed : c.success = false) (now : Instant) :
    Backed calls key (s.reopen c now) := by
  refine { hBacked with shared := ?_ }
  intro hShared
  unfold BreakerState.reopen at hShared ⊢
  simp only [and_eq_true, not_eq_true'] at hShared
  rcases hBacked.shared hShared.1 with ⟨rule, hRule, hClean⟩
  refine ⟨rule ++ [c], mem_map_of_mem hRule, ?_, ?_, ?_⟩
  · simp
  · refine forall_mem_append.mpr ⟨hClean.clean, forall_mem_singleton.mpr ?_⟩
    exact Call.clean_of_failed hFailed hShared.2
  · exact forall_mem_append.mpr ⟨hClean.logged, forall_mem_singleton.mpr ⟨hCall, hKey⟩⟩

/- A streak that fired without an isolated failure. -/
theorem Backed.cleanStreak {threshold : Nat}
    (hPos : 0 < threshold) (hFired : threshold ≤ s.consecutiveFailures)
    (hShared : s.streakIsolated = false) :
    CleanRule calls key s.streakCalls := by
  refine ⟨?_, ?_, hBacked.streakLogged⟩
  · intro hNil
    rw [hBacked.streak, hNil, length_nil] at hFired
    omega
  · intro d hMem
    rw [hBacked.streakIsolated, any_eq_false] at hShared
    exact Call.clean_of_failed (hBacked.streakFailed d hMem) (by simpa using hShared d hMem)

/- A window that fired without an isolated failure. -/
theorem Backed.cleanWindow (cfg : BreakerConfig)
    (hFired : cfg.failureRateThreshold ≤ s.failureRate) (hClean : s.windowClean = true) :
    CleanRule calls key (failures s.windowCalls) := by
  refine ⟨?_, ?_, ?_⟩
  · intro hNil
    have hRate : s.failureRate = 0 := by
      unfold failureRate
      split
      · rfl
      · have hNone : s.window.filter (fun ok => !ok) = [] := by
          rw [hBacked.window, filter_map]
          apply map_eq_nil_iff.mpr
          exact hNil
        rw [hNone]
        simp
    have hPos := cfg.rate_pos
    rw [hRate] at hFired
    exact absurd hFired (not_le.mpr hPos)
  · intro d hMem
    rcases mem_filter.mp hMem with ⟨hSeen, hFailed⟩
    rw [not_eq_true'] at hFailed
    apply Call.clean_of_failed hFailed
    unfold windowClean at hClean
    rw [hBacked.window, hBacked.windowIsolated, zip_map', any_map, not_eq_true',
      any_eq_false] at hClean
    have hHere := hClean d hSeen
    simpa [hFailed] using hHere
  · intro d hMem
    exact hBacked.windowLogged d (mem_filter.mp hMem).1

/- A breaker opens as shared on clean faults only. -/
theorem Backed.trip {cfg : BreakerConfig} {tuning : Option Tuning} (hTuning : c.tuning = tuning)
    {now : Instant} {t : BreakerState}
    (hTrip : s.trip cfg (cfg.consecutiveThreshold tuning) c now = some t) :
    Backed calls key t := by
  simp only [BreakerState.trip] at hTrip
  split at hTrip <;> cases hTrip
  refine { hBacked with shared := ?_ }
  intro hShared
  simp only [and_eq_true, or_eq_true, not_eq_true', decide_eq_true_eq] at hShared
  rcases hShared with ⟨hOwn, hStreak | hRate⟩
  · have hPos : 0 < cfg.consecutiveThreshold tuning := by
      rw [← hTuning, Call.tuning_of_shared hOwn]
      exact cfg.consecutive_pos
    refine ⟨s.streakCalls, ?_, hBacked.cleanStreak hPos hStreak.1 hStreak.2⟩
    simp [hStreak.1]
  · refine ⟨failures s.windowCalls, ?_, hBacked.cleanWindow cfg hRate.1.2 hRate.2⟩
    simp [hRate.1.1, hRate.1.2]

/- What a breaker is backed by is not where it is. -/
theorem Backed.move (state : CircuitState) (probes successes : Nat) (granted : Option Instant) :
    Backed calls key
      { s with
        state := state
        halfOpenProbes := probes
        halfOpenSuccesses := successes
        probeGrantedAt := granted } :=
  { hBacked with }

/- Recording an outcome keeps a breaker backed. -/
theorem Backed.record (hKey : c.key = key) (cfg : BreakerConfig) (now : Instant) :
    Backed (calls ++ [c]) key (s.record cfg (cfg.consecutiveThreshold c.tuning) c now).2 := by
  have hCall : c ∈ calls ++ [c] := by simp
  have hPushed : Backed (calls ++ [c]) key ((s.pushWindow cfg.windowSize c).pushStreak c) :=
    (hBacked.pushWindow hKey _).pushStreak hCall hKey
  unfold BreakerState.record
  simp only
  split
  · split
    · split
      · exact backed_recover
      · exact hPushed.move _ _ _ _
    · rename_i hFailed
      rw [not_eq_true] at hFailed
      exact hPushed.reopen hCall hKey hFailed now
  · split
    · rename_i hTrip
      exact hPushed.trip rfl hTrip
    · exact hPushed
  · exact hPushed

theorem Backed.allow (cfg : BreakerConfig) (cooldown : Duration) (now : Instant) :
    Backed calls key (s.allow cfg cooldown now).2.2 := by
  unfold BreakerState.allow
  split
  · exact hBacked
  · split
    · exact hBacked.move _ _ _ _
    · split
      · exact hBacked.move _ _ _ _
      · exact hBacked
  · split
    · exact hBacked.move _ _ _ _
    · exact hBacked

end

/- A call that opens a breaker as shared is not isolated. -/
theorem record_opens_shared {cfg : BreakerConfig} {threshold : Nat} {now : Instant}
    (hOpened : (s.record cfg threshold c now).1 = true)
    (hShared : (s.record cfg threshold c now).2.openShared = true) :
    c.isolated = false := by
  unfold BreakerState.record at hOpened hShared
  simp only at hOpened hShared
  split at hOpened
  · split at hOpened
    · split at hOpened <;> cases hOpened
    · rename_i hState hFailed
      rw [hState] at hShared
      simp only [hFailed, false_eq_true, if_false, BreakerState.reopen, and_eq_true, not_eq_true']
        at hShared
      exact hShared.2
  · rename_i hState
    split at hOpened
    · rename_i t hTrip
      rw [hState] at hShared
      simp only [hTrip] at hShared
      simp only [BreakerState.trip] at hTrip
      split at hTrip <;> cases hTrip
      simp only [and_eq_true, not_eq_true'] at hShared
      exact hShared.1
    · cases hOpened
  · cases hOpened

end BreakerState

--
-- The Map And The Marks
--

namespace CircuitBreaker

/- A cell that was created, for this key. -/
def CellOf (b : CircuitBreaker) (id : Nat) (key : Key) : Prop :=
  id < b.nextCell ∧ (b.cells id).key = key

/- No cell is lost: a call may go on with the one it has. -/
def Later (b b' : CircuitBreaker) : Prop :=
  ∀ id key, b.CellOf id key → b'.CellOf id key

/- The cells on the map, and those a request was let through by, are of their keys. -/
structure Keyed (b : CircuitBreaker) : Prop where
  keyed : ∀ key id, b.breakers.lookup key = some id → b.CellOf id key
  seen : ∀ handle key id, b.observed.lookup handle = some (key, id) → b.CellOf id key

variable {b b' : CircuitBreaker}

theorem lookup_of_retain {κ α : Type} [DecidableEq κ] {keep : κ → α → Bool}
    {t : HashTable κ α} {k : κ} {v : α} (hLookup : (t.retain keep).lookup k = some v) :
    t.lookup k = some v := by
  rw [lookup_retain, Option.filter_eq_some_iff] at hLookup
  exact hLookup.1

theorem remove_cells (gone : Key → Nat → Bool) (id : Nat) :
    (b.remove gone).cells id =
      { b.cells id with
        retired :=
          (b.cells id).retired ||
            (b.breakers.entries.filter (fun e => gone e.1 e.2)).any (fun e => e.2 = id) } := by
  unfold remove
  simp only
  split
  · rename_i hDropped
    rw [hDropped, Bool.or_true]
  · rename_i hKept
    rw [not_eq_true] at hKept
    rw [hKept, Bool.or_false]

theorem later_remove (gone : Key → Nat → Bool) :
    Later b (b.remove gone) := by
  rintro id key ⟨hLt, hKey⟩
  refine ⟨hLt, ?_⟩
  rw [remove_cells]
  exact hKey

theorem create_cells_of_lt {id : Nat} (hLt : id < b.nextCell) (key : Key) (cred : Cred)
    (now : Instant) :
    (b.create key cred now).cells id = b.cells id :=
  update_of_ne (Nat.ne_of_lt hLt) _ _

theorem later_create (key : Key) (cred : Cred) (now : Instant) :
    Later b (b.create key cred now) := by
  rintro id key' ⟨hLt, hHere⟩
  refine ⟨Nat.lt_succ_of_lt hLt, ?_⟩
  rw [create_cells_of_lt hLt]
  exact hHere

theorem later_write {id : Nat} {e : Entry} (hKey : e.key = (b.cells id).key) :
    Later b { b with cells := Function.update b.cells id e } := by
  rintro id' key ⟨hLt, hHere⟩
  refine ⟨hLt, ?_⟩
  by_cases hSame : id' = id
  · simp [hSame, hKey, ← hHere]
  · simp [hSame, hHere]

namespace Keyed

variable (hKeyed : Keyed b)
include hKeyed

theorem later (hLater : Later b b')
    (hMap : ∀ key id, b'.breakers.lookup key = some id → b.breakers.lookup key = some id)
    (hSeen : b'.observed = b.observed) :
    Keyed b' where
  keyed key id hLookup := hLater id key (hKeyed.keyed key id (hMap key id hLookup))
  seen handle key id hLookup := hLater id key (hKeyed.seen handle key id (hSeen ▸ hLookup))

theorem remove (gone : Key → Nat → Bool) :
    Keyed (b.remove gone) :=
  hKeyed.later (later_remove gone) (fun _ _ hLookup => lookup_of_retain hLookup) rfl

theorem create (key : Key) (cred : Cred) (now : Instant) :
    Keyed (b.create key cred now) where
  keyed :=
    forall_lookup_insert ⟨Nat.lt_succ_self _, by simp [CircuitBreaker.create]⟩
      (fun key' id hLookup => later_create key cred now id key' (hKeyed.keyed key' id hLookup))
  seen handle key' id hLookup :=
    later_create key cred now id key' (hKeyed.seen handle key' id hLookup)

theorem observe {key : Key} {id : Nat} (hCell : b.CellOf id key) (handle : Nat) :
    Keyed (b.observe handle key id) := by
  refine { hKeyed with seen := fun handle' key' id' => ?_ }
  exact forall_lookup_insert (P := fun _ seen => b.CellOf seen.2 seen.1)
    (v := (key, id)) hCell (fun h seen => hKeyed.seen h seen.1 seen.2) handle' (key', id')

theorem seenCell {handle id : Nat} {key : Key} (hSeen : b.seenCell handle key = some id) :
    b.CellOf id key := by
  unfold CircuitBreaker.seenCell at hSeen
  split at hSeen
  · rename_i seenKey id' hLookup
    split at hSeen <;> cases hSeen
    rename_i hSame
    rw [← hSame]
    exact hKeyed.seen _ _ _ hLookup
  · cases hSeen

end Keyed

variable (ownerOf : ByteArr 8 → OwnerTag) (cfg : BreakerConfig)

/- A trip on clean faults alone. -/
structure CleanTrip (calls : List Call) (trips : List Trip) (trip : Trip) : Prop where
  logged : trip ∈ trips
  owner : trip.owner = trip.key.cred.owner ownerOf
  clean : ∃ rule ∈ trip.rules, CleanRule calls trip.key rule

/-
  Every cell is backed by the calls of its key, and every
  mark is that of a clean trip under the default cool-down.
-/
structure Evident (b : CircuitBreaker) : Prop extends Keyed b where
  cells : ∀ id, (b.cells id).st.Backed b.calls (b.cells id).key
  marked :
    ∀ key mark, b.marks.lookup key = some mark →
      ∃ trip, CleanTrip ownerOf b.calls b.trips trip ∧
        trip.key = key ∧ trip.owner = mark.owner ∧
        mark.expires = trip.openedAt + cfg.cooldown

variable {ownerOf : ByteArr 8 → OwnerTag} {cfg : BreakerConfig}

theorem keyed_new : Keyed {} :=
  ⟨nofun, nofun⟩

theorem evident_new : Evident ownerOf cfg {} :=
  ⟨keyed_new, fun _ => backed_new, nofun⟩

/- Fewer marks are as evident. -/
theorem Evident.ofMarks (hEvident : Evident ownerOf cfg b) {marks : HashTable Key Mark}
    (hMarks : ∀ key mark, marks.lookup key = some mark → b.marks.lookup key = some mark) :
    Evident ownerOf cfg { b with marks := marks } := by
  refine { hEvident with marked := ?_ }
  intro key mark hLookup
  exact hEvident.marked key mark (hMarks key mark hLookup)

section

variable (hEvident : Evident ownerOf cfg b)
include hEvident

theorem Evident.prune (provider region : String) (now : Instant) :
    Evident ownerOf cfg (b.prune provider region now) :=
  hEvident.ofMarks (fun _ _ hLookup => lookup_of_retain hLookup)

theorem Evident.unmarkOpen (key : Key) :
    Evident ownerOf cfg (b.unmarkOpen key) := by
  apply hEvident.ofMarks
  intro key' mark hLookup
  by_cases hSame : key' = key
  · rw [hSame, AList.lookup_erase] at hLookup
    cases hLookup
  · rw [AList.lookup_erase_ne hSame] at hLookup
    exact hLookup

theorem Evident.remove (gone : Key → Nat → Bool) :
    Evident ownerOf cfg (b.remove gone) := by
  refine ⟨hEvident.toKeyed.remove gone, fun id => ?_, fun key mark hLookup => ?_⟩
  · rw [remove_cells]
    exact hEvident.cells id
  · exact hEvident.marked key mark (lookup_of_retain hLookup)

theorem Evident.sweepIdle (now : Instant) :
    Evident ownerOf cfg (b.sweepIdle cfg now).2 :=
  (hEvident.remove _).ofMarks (fun _ _ hLookup => lookup_of_retain hLookup)

theorem Evident.create (key : Key) (cred : Cred) (now : Instant) :
    Evident ownerOf cfg (b.create key cred now) := by
  refine ⟨hEvident.toKeyed.create key cred now, fun id => ?_, hEvident.marked⟩
  unfold CircuitBreaker.create
  simp only
  by_cases hNew : id = b.nextCell
  · subst hNew
    rw [update_self]
    exact backed_new
  · rw [update_of_ne hNew]
    exact hEvident.cells id

/- The cell `entry` finds or creates is the key's. -/
theorem Evident.entry (key : Key) (cred : Cred) (now : Instant) :
    Evident ownerOf cfg (b.entry cfg key cred now).2 ∧
      ∀ id, (b.entry cfg key cred now).1 = some id →
        (b.entry cfg key cred now).2.breakers.lookup key = some id := by
  unfold CircuitBreaker.entry
  cases hLookup : b.breakers.lookup key with
  | some id =>
    refine ⟨hEvident, ?_⟩
    intro id' hSome
    rw [← hSome]
    exact hLookup
  | none =>
    simp only
    have hSwept : Evident ownerOf cfg (b.sweepIfFull cfg now) := by
      unfold sweepIfFull
      split
      · exact hEvident.sweepIdle now
      · exact hEvident
    split
    · refine ⟨hSwept, ?_⟩
      intro id hSome
      cases hSome
    · refine ⟨hSwept.create key cred now, ?_⟩
      intro id hSome
      rw [← hSome]
      exact AList.lookup_insert _

theorem Evident.observe
    {key : Key} {id : Nat} (hCell : b.breakers.lookup key = some id) (handle : Nat) :
    Evident ownerOf cfg (b.observe handle key id) :=
  ⟨hEvident.toKeyed.observe (hEvident.keyed key id hCell) handle, hEvident.cells, hEvident.marked⟩

/- Writing a cell that stays backed and keeps its key. -/
theorem Evident.write (id : Nat) (e : Entry) (more : List Call) (tripped : List Trip)
    (hKey : e.key = (b.cells id).key) (hBacked : e.st.Backed (b.calls ++ more) (b.cells id).key) :
    Evident ownerOf cfg
      { b with
        cells := Function.update b.cells id e
        calls := b.calls ++ more
        trips := b.trips ++ tripped } := by
  refine ⟨hEvident.toKeyed.later (later_write hKey) (fun _ _ hLookup => hLookup) rfl, ?_, ?_⟩
  · intro id'
    simp only
    by_cases hSame : id' = id
    · rw [hSame, update_self, hKey]
      exact hBacked
    · rw [update_of_ne hSame]
      exact (hEvident.cells id').mono
  · intro key mark hLookup
    rcases hEvident.marked key mark hLookup with ⟨trip, hTrip, hRest⟩
    rcases hTrip.clean with ⟨rule, hRule, hClean⟩
    refine ⟨trip, ⟨?_, hTrip.owner, rule, hRule, hClean.mono⟩, hRest⟩
    exact mem_append_left _ hTrip.logged

theorem Evident.allowBody (id : Nat) (cred : Cred) (now : Instant) :
    Evident ownerOf cfg (b.allowBody cfg id cred now).2.2 := by
  have hWrite :=
    hEvident.write id
      { b.cells id with
        lastUsed := now
        tuning := cred.tuning
        owner := (b.cells id).owner.or cred.owner
        st :=
          ((b.cells id).st.allow cfg (cfg.cooldownOf cred.tuning) now).2.2 }
      [] [] rfl ((hEvident.cells id).allow cfg _ now).mono
  simp only [append_nil] at hWrite
  exact hWrite

/- The mark of a clean trip is evident. -/
theorem Evident.markOpen (trip : Trip)
    (hTrip : CleanTrip ownerOf b.calls b.trips trip) {mark : Mark}
    (hOwner : trip.owner = mark.owner) (hExpires : mark.expires = trip.openedAt + cfg.cooldown) :
    Evident ownerOf cfg (b.markOpen trip.key mark) := by
  refine { hEvident with marked := ?_ }
  exact forall_lookup_insert ⟨trip, hTrip, rfl, hOwner, hExpires⟩ hEvident.marked

theorem Evident.recordBody {id : Nat} {key : Key} {cred : Cred} (hCell : (b.cells id).key = key)
    (hOwned : cred.owner = key.cred.owner ownerOf) (outcome : Outcome) (now : Instant) :
    Evident ownerOf cfg (b.recordBody cfg id key cred outcome now) := by
  have hBacked :
      ((b.cells id).st.record cfg
          (cfg.consecutiveThreshold cred.tuning)
          ⟨key, cred.tuning, cred.deadlineScoped, outcome⟩
          now).2.Backed
        (b.calls ++ [⟨key, cred.tuning, cred.deadlineScoped, outcome⟩])
        (b.cells id).key :=
    (hEvident.cells id).record hCell.symm cfg now
  have hWrite :=
    hEvident.write id
      { b.cells id with
        lastUsed := now
        tuning := cred.tuning
        st :=
          ((b.cells id).st.record cfg (cfg.consecutiveThreshold cred.tuning)
            ⟨key, cred.tuning, cred.deadlineScoped, outcome⟩ now).2 }
      [⟨key, cred.tuning, cred.deadlineScoped, outcome⟩]
  unfold CircuitBreaker.recordBody
  simp only
  split
  · exact hEvident
  · split
    · rename_i hOpened
      rw [and_eq_true] at hOpened
      rw [if_pos hOpened.1]
      have hNone : cred.tuning = none :=
        Call.tuning_of_shared (record_opens_shared hOpened.1 hOpened.2)
      rw [hCell] at hBacked
      apply (hWrite _ rfl (hCell ▸ hBacked)).markOpen ⟨key, cred.owner, now, _⟩
      · exact ⟨mem_append_right _ (mem_singleton.mpr rfl), hOwned, hBacked.shared hOpened.2⟩
      · rfl
      · simp only
        rw [hNone]
        rfl
    · split
      · exact hWrite _ rfl hBacked
      · have hWritten := hWrite [] rfl hBacked
        rw [append_nil] at hWritten
        exact hWritten

end

--
-- Calls
--

section

variable (hEvident : Evident ownerOf cfg b)
include hEvident

theorem Evident.allow (provider region : String) (cred : Cred) (now : Instant) :
    Evident ownerOf cfg (b.allow cfg provider region cred now).2 := by
  have hCounted : Evident ownerOf cfg (b.providerOpenCount provider region now).2 :=
    hEvident.prune provider region now
  unfold CircuitBreaker.allow
  simp only
  split
  · exact hCounted
  · have hEntry := hCounted.entry ⟨provider, region, cred.id⟩ cred now
    split
    · rename_i hFound
      rw [hFound] at hEntry
      exact hEntry.1
    · rename_i id _ hFound
      rw [hFound] at hEntry
      have hSaid := (hEntry.1.observe (hEntry.2 id rfl) cred.handle).allowBody id cred now
      simp only
      split
      · exact hSaid.unmarkOpen _
      · exact hSaid

theorem Evident.wouldAllow (provider region : String) (cred : Cred) (now : Instant) :
    Evident ownerOf cfg (b.wouldAllow cfg provider region cred now).2 := by
  have hCounted : Evident ownerOf cfg (b.providerOpenCount provider region now).2 :=
    hEvident.prune provider region now
  unfold CircuitBreaker.wouldAllow
  simp only
  split
  · exact hCounted
  · split
    · exact hCounted
    · exact hCounted

theorem Evident.record (provider region : String) {cred : Cred}
    (hOwned : cred.OwnedBy ownerOf) (outcome : Outcome) (now : Instant) :
    Evident ownerOf cfg (b.record cfg provider region cred outcome now) := by
  unfold CircuitBreaker.record
  simp only
  split
  · exact hEvident
  · split
    · rename_i id hSeen
      exact hEvident.recordBody (hEvident.toKeyed.seenCell hSeen).2 hOwned outcome now
    · have hEntry := hEvident.entry ⟨provider, region, cred.id⟩ cred now
      split
      · rename_i hFound
        rw [hFound] at hEntry
        exact hEntry.1
      · rename_i id _ hFound
        rw [hFound] at hEntry
        have hCell := (hEntry.1.keyed _ id (hEntry.2 id rfl)).2
        exact hEntry.1.recordBody hCell hOwned outcome now

--
-- Runs
--

end

/- Each call is atomic; the times are those it reads. -/
inductive Event where
| allow (provider region : String) (cred : Cred) (now : Instant)
| wouldAllow (provider region : String) (cred : Cred) (now : Instant)
| record
    (provider region : String) (cred : Cred) (outcome : Outcome)
    (now : Instant)
| resetCredential (cred : Credential)
| sweep (now : Instant)

def Event.call? : Event → Option Call
| .record provider region cred outcome _ =>
    some
      ⟨⟨provider, region, cred.id⟩, cred.tuning,
        cred.deadlineScoped, outcome⟩
| _ => none

/- The credentials of the recorded calls name their owners. -/
def Event.OwnedBy (ownerOf : ByteArr 8 → OwnerTag) : Event → Prop
| .record _ _ cred _ _ => cred.OwnedBy ownerOf
| _ => True

def step (cfg : BreakerConfig) (b : CircuitBreaker) :
    Event → CircuitBreaker
| .allow provider region cred now =>
    (b.allow cfg provider region cred now).2
| .wouldAllow provider region cred now =>
    (b.wouldAllow cfg provider region cred now).2
| .record provider region cred outcome now =>
    b.record cfg provider region cred outcome now
| .resetCredential cred => b.resetCredential cred
| .sweep now => (b.sweepIdle cfg now).2

theorem Evident.step (hEvident : Evident ownerOf cfg b) {e : Event} (hOwned : e.OwnedBy ownerOf) :
    Evident ownerOf cfg (b.step cfg e) := by
  cases e with
  | allow provider region cred now =>
    exact hEvident.allow provider region cred now
  | wouldAllow provider region cred now =>
    exact hEvident.wouldAllow provider region cred now
  | record provider region cred outcome now =>
    exact hEvident.record provider region hOwned outcome now
  | resetCredential cred =>
    exact hEvident.remove (fun key _ => key.cred = cred)
  | sweep now => exact hEvident.sweepIdle now

theorem entry_calls (key : Key) (cred : Cred) (now : Instant) :
    (b.entry cfg key cred now).2.calls = b.calls := by
  unfold CircuitBreaker.entry
  split
  · rfl
  · have hSwept : (b.sweepIfFull cfg now).calls = b.calls := by
      unfold sweepIfFull
      split
      · rfl
      · rfl
    simp only
    split
    · exact hSwept
    · exact hSwept

theorem recordBody_calls (id : Nat) (key : Key) (cred : Cred) (outcome : Outcome) (now : Instant) :
    (b.recordBody cfg id key cred outcome now).calls ⊆
      b.calls ++ [⟨key, cred.tuning, cred.deadlineScoped, outcome⟩] := by
  unfold CircuitBreaker.recordBody
  simp only
  split
  · exact subset_append_left _ _
  · split
    · exact List.Subset.refl _
    · exact List.Subset.refl _

theorem allow_calls (provider region : String) (cred : Cred) (now : Instant) :
    (b.allow cfg provider region cred now).2.calls = b.calls := by
  have hEntry :
      ((b.providerOpenCount provider region now).2.entry
          cfg ⟨provider, region, cred.id⟩ cred now).2.calls =
        b.calls :=
    entry_calls _ _ _
  unfold CircuitBreaker.allow
  simp only
  split
  · rfl
  · split
    · rename_i hFound
      rw [hFound] at hEntry
      exact hEntry
    · rename_i hFound
      rw [hFound] at hEntry
      simp only
      split
      · exact hEntry
      · exact hEntry

/- A breaker has seen no more than was recorded. -/
theorem step_calls (e : Event) :
    (b.step cfg e).calls ⊆ b.calls ++ e.call?.toList := by
  cases e with
  | allow provider region cred now =>
    have hCalls : (b.allow cfg provider region cred now).2.calls = b.calls :=
      allow_calls _ _ _ _
    simp [step, Event.call?, hCalls]
  | wouldAllow provider region cred now =>
    have hCalls : (b.wouldAllow cfg provider region cred now).2.calls = b.calls := by
      unfold CircuitBreaker.wouldAllow
      simp only
      split
      · rfl
      · split
        · rfl
        · rfl
    simp [step, Event.call?, hCalls]
  | record provider region cred outcome now =>
    simp only [step, Event.call?, Option.toList_some]
    unfold CircuitBreaker.record
    simp only
    split
    · exact subset_append_left _ _
    · split
      · exact recordBody_calls _ _ _ _ _
      · have hEntry :
            (b.entry cfg ⟨provider, region, cred.id⟩ cred now).2.calls = b.calls :=
          entry_calls _ _ _
        split
        · rename_i hFound
          rw [hFound] at hEntry
          rw [hEntry]
          exact subset_append_left _ _
        · rename_i hFound
          rw [hFound] at hEntry
          rw [← hEntry]
          exact recordBody_calls _ _ _ _ _
  | resetCredential _ | sweep _ => exact subset_append_left _ _

--
-- Isolation
--

/-
  An owner with a credential that went open less than the
  default cool-down ago, on clean faults of that credential.
-/
def Witnessed (ownerOf : ByteArr 8 → OwnerTag) (cfg : BreakerConfig)
    (recorded : List Call) (trips : List Trip) (provider region : String)
    (now : Instant) (owner : Option OwnerTag) : Prop :=
  ∃ trip,
    CleanTrip ownerOf recorded trips trip ∧
      trip.owner = owner ∧
      inRegion provider region trip.key ∧
      now < trip.openedAt + cfg.cooldown

variable {provider region : String} {owner : Option OwnerTag}

theorem mem_openOwners_iff :
    owner ∈ b.openOwners provider region ↔
      ∃ key mark, b.marks.lookup key = some mark ∧
        inRegion provider region key ∧ mark.owner = owner := by
  unfold openOwners
  rw [mem_dedup, mem_map]
  constructor
  · rintro ⟨e, hMem, hOwner⟩
    rcases mem_filter.mp hMem with ⟨hEntry, hRegion⟩
    exact ⟨e.1, e.2, mem_entries_iff.mp hEntry, hRegion, hOwner⟩
  · rintro ⟨key, mark, hLookup, hRegion, hOwner⟩
    refine ⟨⟨key, mark⟩, ?_, hOwner⟩
    apply mem_filter.mpr
    exact ⟨mem_entries_iff.mpr hLookup, hRegion⟩

variable {now : Instant}

/- An owner that is counted is one with evidence. -/
theorem Evident.witnessed (hEvident : Evident ownerOf cfg b)
    {recorded : List Call} (hRecorded : b.calls ⊆ recorded)
    (hOwner : owner ∈ (b.prune provider region now).openOwners provider region) :
    Witnessed ownerOf cfg recorded b.trips provider region now owner := by
  rcases mem_openOwners_iff.mp hOwner with ⟨key, mark, hLookup, hRegion, hMark⟩
  unfold CircuitBreaker.prune at hLookup
  rw [lookup_retain, Option.filter_eq_some_iff] at hLookup
  rcases hLookup with ⟨hMarked, hLive⟩
  simp only [hRegion, Bool.not_true, Bool.false_or, decide_eq_true_eq] at hLive
  rcases hEvident.marked key mark hMarked with ⟨trip, hTrip, hKey, hTripOwner, hExpires⟩
  rcases hTrip.clean with ⟨rule, hRule, hClean⟩
  refine ⟨trip, ⟨hTrip.logged, hTrip.owner, rule, hRule,
    hClean.inhabited, hClean.clean, ?_⟩, ?_, ?_, ?_⟩
  · intro c hMem
    exact ⟨hRecorded (hClean.logged c hMem).1, (hClean.logged c hMem).2⟩
  · rw [hTripOwner, hMark]
  · rw [hKey]
    exact hRegion
  · rw [← hExpires]
    exact hLive

/- Evidence is a clean fault that its owner recorded. -/
theorem Witnessed.recorded {recorded : List Call} {trips : List Trip}
    (hWitnessed : Witnessed ownerOf cfg recorded trips provider region now owner) :
    ∃ c ∈ recorded,
      c.Clean ∧ inRegion provider region c.key ∧ c.key.cred.owner ownerOf = owner := by
  rcases hWitnessed with ⟨trip, hTrip, hOwner, hRegion, _⟩
  rcases hTrip.clean with ⟨rule, _, hClean⟩
  rcases exists_mem_of_ne_nil rule hClean.inhabited with ⟨c, hMem⟩
  rcases hClean.logged c hMem with ⟨hRecorded, hKey⟩
  refine ⟨c, hRecorded, hClean.clean c hMem, ?_, ?_⟩
  · rw [hKey]
    exact hRegion
  · rw [hKey, ← hTrip.owner, hOwner]

/- A credential whose breaker is closed or does not exist. -/
def closedOrUnseen (b : CircuitBreaker) (key : Key) : Bool :=
  match b.breakers.lookup key with
  | none => true
  | some id => (b.cells id).st.state = .closed

/- Only the tier refuses a closed or unseen credential. -/
theorem allow_of_closedOrUnseen {cred : Cred}
    (hClosed : b.closedOrUnseen ⟨provider, region, cred.id⟩ = true)
    (hTier : (b.providerOpenCount provider region now).1 < cfg.providerMinOpenCredentials) :
    (b.allow cfg provider region cred now).1 = true := by
  unfold CircuitBreaker.allow
  simp only
  rw [if_neg (Nat.not_le.mpr hTier)]
  have hClosedCell :
      ∀ id b',
        (b.providerOpenCount provider region now).2.entry
            cfg ⟨provider, region, cred.id⟩ cred now =
          (some id, b') →
        (b'.cells id).st.state = .closed := by
    intro id b' hEntry
    unfold closedOrUnseen at hClosed
    unfold CircuitBreaker.entry at hEntry
    split at hEntry
    · rename_i id' hLookup
      cases hEntry
      have hHere : b.breakers.lookup ⟨provider, region, cred.id⟩ = some id := hLookup
      rw [hHere] at hClosed
      exact of_decide_eq_true hClosed
    · simp only at hEntry
      split at hEntry <;> cases hEntry
      unfold CircuitBreaker.create
      simp only
      rw [update_self]
  split
  · rfl
  · rename_i id b' hEntry
    have hState := hClosedCell id b' hEntry
    unfold observe allowBody BreakerState.allow
    simp only [hState]

variable {events : List Event}

/-
  Whatever the times are: where the tier of a provider's region refuses, enough owners have
  evidence, so clean faults of fewer owners refuse no other's credential.
-/
theorem run_isolated (hRun : Run (fun b e b' => step cfg b e = b') {} events b)
    (hOwned : ∀ e ∈ events, e.OwnedBy ownerOf) (provider region : String) (now : Instant) :
    (cfg.providerMinOpenCredentials ≤ (b.providerOpenCount provider region now).1 →
      ∃ owners : List (Option OwnerTag),
        owners.Nodup ∧
          cfg.providerMinOpenCredentials ≤ owners.length ∧
          ∀ owner ∈ owners,
            Witnessed ownerOf cfg (events.filterMap Event.call?)
              b.trips provider region now owner) ∧
      ∀ callers : List (Option OwnerTag),
        callers.length < cfg.providerMinOpenCredentials →
        (∀ c ∈ events.filterMap Event.call?,
          c.Clean → inRegion provider region c.key → c.key.cred.owner ownerOf ∈ callers) →
        ∀ cred : Cred,
          b.closedOrUnseen ⟨provider, region, cred.id⟩ →
            (b.allow cfg provider region cred now).1 = true := by
  have hWithin := hRun.mono (fun s t e hMem hStep => And.intro hMem hStep)
  have hKeeps :
      ∀ (s : CircuitBreaker) (e : Event) (t : CircuitBreaker),
        Evident ownerOf cfg s ∧ s.calls ⊆ events.filterMap Event.call? →
        (e ∈ events ∧ step cfg s e = t) →
        Evident ownerOf cfg t ∧ t.calls ⊆ events.filterMap Event.call? := by
    rintro s e t ⟨hInv, hSub⟩ ⟨hMem, rfl⟩
    refine ⟨hInv.step (hOwned e hMem), fun c hSeen => ?_⟩
    rcases mem_append.mp (step_calls e hSeen) with hOld | hNew
    · exact hSub hOld
    · exact mem_filterMap.mpr ⟨e, hMem, by simpa using hNew⟩
  obtain ⟨hEvident, hCalls⟩ := hWithin.invariant hKeeps ⟨evident_new, nil_subset _⟩
  have hWitnessed :
      ∀ owner ∈ (b.prune provider region now).openOwners provider region,
        Witnessed ownerOf cfg (events.filterMap Event.call?) b.trips provider region now owner :=
    fun owner hOwner => hEvident.witnessed hCalls hOwner
  have hNodup : ((b.prune provider region now).openOwners provider region).Nodup := nodup_dedup _
  refine ⟨fun hTier => ⟨_, hNodup, hTier, hWitnessed⟩, ?_⟩
  intro callers hFew hCallers cred hClosed
  apply allow_of_closedOrUnseen hClosed
  -- every owner that is counted is one of the callers
  have hSubset : (b.prune provider region now).openOwners provider region ⊆ callers := by
    intro owner hOwner
    rcases (hWitnessed owner hOwner).recorded with ⟨c, hRecorded, hClean, hRegion, hSame⟩
    rw [← hSame]
    exact hCallers c hRecorded hClean hRegion
  have hCount : (b.providerOpenCount provider region now).1 ≤ callers.length :=
    (subperm_of_subset hNodup hSubset).length_le
  omega

def sampleOwner (fingerprint : ByteArr 8) : OwnerTag where
  bytes := fingerprint.bytes ++ fingerprint.bytes
  size := by
    rw [List.length_append, fingerprint.size]

def sampleConfig : BreakerConfig where
  windowSize := 20
  failureRateThreshold := 1
  consecutiveFailureThreshold := 1
  cooldown := 10
  halfOpenMaxProbes := 1
  providerMinOpenCredentials := 2
  maxEntries := 8
  idleEvict := 100
  probeLost := 30

def sampleCred (n : UInt8) : Cred where
  id := .byok ⟨List.replicate 8 n, List.length_replicate⟩
  owner := some (sampleOwner ⟨List.replicate 8 n, List.length_replicate⟩)
  tuning := none
  deadlineScoped := false
  handle := n.toNat

/- Two tenants whose upstream fails, one of them in another region too. -/
def twoFaults : List Event :=
  [.record "anthropic" "us" (sampleCred 1) .upstreamFault 3,
    .record "anthropic" "us" (sampleCred 2) .upstreamFault 4,
    .record "anthropic" "eu" (sampleCred 2) .upstreamFault 4]

theorem twoFaults_witnessed :
    ∃ b,
      Run (fun b e b' => step sampleConfig b e = b') {} twoFaults b ∧
        (∃ owners : List (Option OwnerTag),
          owners.Nodup ∧ 2 ≤ owners.length ∧
            ∀ owner ∈ owners,
              Witnessed sampleOwner sampleConfig (twoFaults.filterMap Event.call?) b.trips
                "anthropic" "us" 5 owner) ∧
        (b.allow sampleConfig "anthropic" "eu" (sampleCred 3) 5).1 = true := by
  have hRun :
      Run (fun b e b' => step sampleConfig b e = b') {} twoFaults
        (twoFaults.foldl (step sampleConfig) {}) :=
    .cons rfl (.cons rfl (.cons rfl (.nil _)))
  have hOwned : ∀ e ∈ twoFaults, e.OwnedBy sampleOwner := by
    simp [twoFaults, Event.OwnedBy, Cred.OwnedBy, sampleCred, Credential.owner]
  refine ⟨_, hRun, (run_isolated hRun hOwned "anthropic" "us" 5).1 (by decide), ?_⟩
  apply (run_isolated hRun hOwned "anthropic" "eu" 5).2 [(sampleCred 2).owner] (by decide)
  · unfold Call.Clean
    decide
  · decide

end CircuitBreaker

end Tracelane.Gateway
