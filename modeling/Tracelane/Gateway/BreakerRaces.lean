import Tracelane.Gateway.BreakerEvidence

/-
  Calls of the breakers in progress at the same time: the sections they take their locks for
  interleave.

  The marks should be what the open breakers account for, at least once no call is in progress.
-/

namespace Tracelane.Gateway

open CircuitBreaker BreakerState Option Function Transition List Nat Bool

--
-- Evidence
--

/- When a period that others share evidence of began. -/
def BreakerState.sharedSince (s : BreakerState) : Option Instant :=
  if s.state = .opened && s.openShared then s.openedAt else none

/-
  The mark an entry accounts for.  A shared period is one that no override had a part in, so its
  cool-down is the default one.
-/
def Entry.evidence (cfg : BreakerConfig) (e : Entry) : Option Mark :=
  e.st.sharedSince.map (fun t => ⟨e.owner, t + cfg.cooldown⟩)

/- The mark the live entry of a key accounts for. -/
def CircuitBreaker.evidenceOf (cfg : BreakerConfig) (b : CircuitBreaker)
    (key : Key) : Option Mark :=
  (b.breakers.lookup key).bind (fun id => (b.cells id).evidence cfg)

namespace Races

--
-- Calls In Progress
--

/-
  Where a call is, with what it has read so far.  `start` is
  the time a call read before it waited for a lock.
-/
inductive Progress where
| allowing (provider region : String) (cred : Cred) (start : Instant)
| counted (key : Key) (cred : Cred) (start : Instant)
| entered (key : Key) (cred : Cred) (start : Instant) (id : Nat)
| noted (key : Key) (cred : Cred) (start : Instant) (id : Nat)
| leaving (key : Key)
| recording (key : Key) (cred : Cred) (outcome : Outcome)
| missing (key : Key) (cred : Cred) (outcome : Outcome)
| chosen (key : Key) (cred : Cred) (outcome : Outcome) (id : Nat)
| timed
    (key : Key) (cred : Cred) (outcome : Outcome) (id : Nat)
    (start : Instant)
deriving DecidableEq

structure State where
  breaker : CircuitBreaker := {}
  clock : Instant := 0
  inFlight : List Progress := []

inductive Event where
| allow (provider region : String) (cred : Cred)
| record (provider region : String) (cred : Cred) (outcome : Outcome)
| sweepIdle
| resetCredential (cred : Credential)
| advance (i : Nat)
deriving DecidableEq

/- The credentials of the calls name their owners. -/
def Event.OwnedBy (ownerOf : ByteArr 8 → OwnerTag) : Event → Prop
| .allow _ _ cred | .record _ _ cred _ => cred.OwnedBy ownerOf
| _ => True

variable (cfg : BreakerConfig)

/- The next section of a call, and where it is after it. -/
def advance (b : CircuitBreaker) (now : Instant) :
    Progress → Option Progress × CircuitBreaker
| .allowing provider region cred start =>
    let seen := b.providerOpenCount provider region start
    (if cfg.providerMinOpenCredentials ≤ seen.1 then none
      else some (.counted ⟨provider, region, cred.id⟩ cred start),
      seen.2)
| .counted key cred start =>
    let found := b.entry cfg key cred now
    (found.1.map (.entered key cred start), found.2)
| .entered key cred start id =>
    (some (.noted key cred start id), b.observe cred.handle key id)
| .noted key cred start id =>
    let said := b.allowBody cfg id cred start
    (if said.2.1 then some (.leaving key) else none, said.2.2)
| .leaving key => (none, b.unmarkOpen key)
| .recording key cred outcome =>
    (some
      (match b.seenCell cred.handle key with
        | some id => .chosen key cred outcome id
        | none => .missing key cred outcome), b)
| .missing key cred outcome =>
    let found := b.entry cfg key cred now
    (found.1.map (.chosen key cred outcome), found.2)
| .chosen key cred outcome id =>
    (some (.timed key cred outcome id now), b)
| .timed key cred outcome id start =>
    (none, b.recordBody cfg id key cred outcome start)

/- Put a call where it is now, or take it off the list. -/
def moveTo (inFlight : List Progress) (i : Nat) :
    Option Progress → List Progress
| some p => inFlight.set i p
| none => inFlight.eraseIdx i

/- One section of one call, at a time that does not go back. -/
def step (s : State) (e : Event × Instant) : Option State :=
  if s.clock ≤ e.2 then
    match e.1 with
    | .allow provider region cred =>
        some
          { s with
            clock := e.2
            inFlight :=
              s.inFlight ++ [.allowing provider region cred e.2] }
    | .record provider region cred outcome =>
        some
          { s with
            clock := e.2
            inFlight :=
              if ignored cred outcome then
                s.inFlight
              else
                s.inFlight ++
                  [.recording ⟨provider, region, cred.id⟩ cred outcome] }
    | .sweepIdle =>
        some
          { s with
            clock := e.2
            breaker := (s.breaker.sweepIdle cfg e.2).2 }
    | .resetCredential cred =>
        some
          { s with
            clock := e.2
            breaker := s.breaker.resetCredential cred }
    | .advance i =>
        (s.inFlight[i]?).map (fun p =>
          let next := advance cfg s.breaker e.2 p
          { breaker := next.2
            clock := e.2
            inFlight := moveTo s.inFlight i next.1 })
  else
    none

/- An unmark does not meet a breaker that opened again. -/
def unmarksExpired (s : State) (e : Event × Instant) : Bool :=
  match e.1 with
  | .advance i =>
      match s.inFlight[i]? with
      | some (.leaving key) =>
          ((s.breaker.evidenceOf cfg key).filter (fun mark => e.2 < mark.expires)).isNone
      | _ => true
  | _ => true

--
-- One Key
--

/-
  A key's mark and its evidence, up to what has expired; a
  mark may outlive its evidence while an unmark is pending.
-/
def AgreesAt (clock : Instant) (pending : Prop) (due mark : Option Mark) : Prop :=
  ∀ m : Mark, clock < m.expires →
    (due = some m → mark = some m) ∧ (mark = some m → due = some m ∨ pending)

namespace AgreesAt

variable {clock later : Instant} {pending pending' : Prop}
variable {due mark : Option Mark}

theorem refl : AgreesAt clock pending mark mark :=
  fun _ _ => ⟨id, .inl⟩

theorem mono (hAgrees : AgreesAt clock pending due mark)
    (hLater : clock ≤ later) (hPending : pending → pending') :
    AgreesAt later pending' due mark := by
  intro m hLive
  rcases hAgrees m (lt_of_le_of_lt hLater hLive) with ⟨hMarked, hDue⟩
  exact ⟨hMarked, fun hMark => (hDue hMark).imp id hPending⟩

/- Dropping an expired mark. -/
theorem prune (hAgrees : AgreesAt clock pending due mark) {now : Instant} (hNow : now ≤ clock) :
    AgreesAt clock pending due (mark.filter (fun m => now < m.expires)) := by
  intro m hLive
  rcases hAgrees m hLive with ⟨hMarked, hDue⟩
  refine ⟨fun hSome => ?_, fun hMark => ?_⟩
  · rw [hMarked hSome, filter_some_pos]
    exact decide_eq_true (lt_of_le_of_lt hNow hLive)
  · exact hDue (filter_eq_some_iff.mp hMark).1

/- Evidence may go where an unmark is pending. -/
theorem leave (hPending : pending) :
    AgreesAt clock pending none mark := by
  intro m _
  refine ⟨fun hNone => ?_, fun _ => .inr hPending⟩
  cases hNone

/- The mark may go where the evidence has expired. -/
theorem unmark (hExpired : due.filter (fun m => clock < m.expires) = none) :
    AgreesAt clock pending due none := by
  intro m hLive
  constructor
  · intro hSome
    simp only [hSome, filter_some, hLive, decide_true, if_true] at hExpired
    cases hExpired
  · intro hNone
    cases hNone

end AgreesAt

end Races

--
-- One Breaker
--

namespace BreakerState

variable {s : BreakerState} {cfg : BreakerConfig} {now : Instant}

/- A request leaves a shared period, or leaves it alone. -/
theorem sharedSince_allow (cooldown : Duration) :
    (s.allow cfg cooldown now).2.2.sharedSince =
      if (s.allow cfg cooldown now).2.1 then none
      else s.sharedSince := by
  unfold allow sharedSince
  cases hState : s.state with
  | closed => simp [hState]
  | halfOpen =>
    simp only
    split
    · simp
    · split
      · simp
      · simp [hState]
  | opened =>
    simp only
    split
    · simp
    · simp [hState]

/- Counting an outcome does not move the breaker. -/
theorem pushed_same (s : BreakerState) (windowSize : Nat) (c : Call) :
    ((s.pushWindow windowSize c).pushStreak c).state = s.state ∧
      ((s.pushWindow windowSize c).pushStreak c).openShared = s.openShared ∧
      ((s.pushWindow windowSize c).pushStreak c).openedAt = s.openedAt := by
  unfold pushStreak
  split
  · exact ⟨rfl, rfl, rfl⟩
  · exact ⟨rfl, rfl, rfl⟩

/- An outcome begins a period where there was none, or leaves what there was alone. -/
theorem sharedSince_record (threshold : Nat) (c : Call) :
    (s.record cfg threshold c now).2.sharedSince =
      if (s.record cfg threshold c now).1 then
        if (s.record cfg threshold c now).2.openShared then
          some now
        else none
      else s.sharedSince := by
  rcases pushed_same s cfg.windowSize c with ⟨hState, hShared, hOpened⟩
  unfold record
  simp only
  split
  · rename_i hHalf
    rw [hState] at hHalf
    split
    · split
      · simp [sharedSince, recover, hHalf]
      · simp [sharedSince, hState, hHalf]
    · simp [sharedSince, reopen]
  · rename_i hClosed
    split
    · rename_i t hTrip
      simp only [trip] at hTrip
      split at hTrip <;> cases hTrip
      simp [sharedSince]
    · rw [hState] at hClosed
      simp [sharedSince, hState, hClosed]
  · simp [sharedSince, hState, hShared, hOpened]

/- A breaker that an outcome opens was not open. -/
theorem sharedSince_of_record {threshold : Nat} {c : Call}
    (hOpened : (s.record cfg threshold c now).1 = true) :
    s.sharedSince = none := by
  have hState := (pushed_same s cfg.windowSize c).1
  unfold record at hOpened
  simp only at hOpened
  unfold sharedSince
  split at hOpened
  · rename_i hHalf
    rw [hState] at hHalf
    simp [hHalf]
  · rename_i hClosed
    rw [hState] at hClosed
    simp [hClosed]
  · cases hOpened

end BreakerState

--
-- The Map
--

namespace CircuitBreaker

/- The cells that are not retired are those on the map, each under its key and with its owner. -/
structure Housed (ownerOf : ByteArr 8 → OwnerTag) (b : CircuitBreaker) : Prop
    extends Keyed b where
  placed : ∀ key id, b.breakers.lookup key = some id → (b.cells id).retired = false
  live :
    ∀ id, id < b.nextCell → (b.cells id).retired = false →
      b.breakers.lookup (b.cells id).key = some id
  owned : ∀ id, id < b.nextCell → (b.cells id).owner = (b.cells id).key.cred.owner ownerOf

variable {ownerOf : ByteArr 8 → OwnerTag} {cfg : BreakerConfig}
variable {b : CircuitBreaker}

theorem housed_new : Housed ownerOf {} :=
  ⟨keyed_new, nofun, fun id hLt => absurd hLt (not_lt_zero id),
    fun id hLt => absurd hLt (not_lt_zero id)⟩

variable {id : Nat}

/- Two keys have two cells. -/
theorem Housed.key_unique (hHoused : Housed ownerOf b) {key key' : Key}
    (hHere : b.breakers.lookup key = some id) (hThere : b.breakers.lookup key' = some id) :
    key = key' := by
  rw [← (hHoused.keyed key id hHere).2, (hHoused.keyed key' id hThere).2]

variable {key : Key}

/- The entries a removal drops. -/
theorem mem_dropped_iff {gone : Key → Nat → Bool} {id : Nat} :
    ⟨key, id⟩ ∈ b.breakers.entries.filter (fun e => gone e.1 e.2) ↔
      b.breakers.lookup key = some id ∧ gone key id = true := by
  rw [mem_filter, HashTable.mem_entries_iff]

variable (gone : Key → Nat → Bool)

theorem remove_lookup (key : Key) :
    (b.remove gone).breakers.lookup key =
      (b.breakers.lookup key).filter (fun id => !gone key id) := by
  unfold remove
  simp only
  rw [HashTable.lookup_retain]

theorem Housed.remove (hHoused : Housed ownerOf b) (gone : Key → Nat → Bool) :
    Housed ownerOf (b.remove gone) := by
  refine ⟨hHoused.toKeyed.remove gone, ?_, ?_, ?_⟩
  · intro key id hLookup
    rw [remove_lookup, filter_eq_some_iff] at hLookup
    rcases hLookup with ⟨hHere, hKept⟩
    rw [remove_cells]
    simp only [hHoused.placed key id hHere, Bool.false_or]
    rw [List.any_eq_false]
    rintro ⟨key', id'⟩ hDropped hSame
    rcases mem_dropped_iff.mp hDropped with ⟨hThere, hGone⟩
    cases of_decide_eq_true hSame
    cases hHoused.key_unique hHere hThere
    rw [hGone] at hKept
    cases hKept
  · intro id hLt hLive
    rw [remove_cells] at hLive ⊢
    simp only [or_eq_false_iff] at hLive
    have hHere := hHoused.live id hLt hLive.1
    rw [remove_lookup, filter_eq_some_iff]
    refine ⟨hHere, ?_⟩
    rw [not_eq_true', eq_false_iff]
    intro hGone
    have hDropped := any_eq_false.mp hLive.2 _ (mem_dropped_iff.mpr ⟨hHere, hGone⟩)
    exact hDropped (decide_eq_true rfl)
  · intro id hLt
    rw [remove_cells]
    exact hHoused.owned id hLt

/- A removal takes both the evidence and the mark, or none. -/
theorem remove_view (key : Key) :
    ((b.remove gone).evidenceOf cfg key = none ∧ (b.remove gone).marks.lookup key = none) ∨
      ((b.remove gone).evidenceOf cfg key = b.evidenceOf cfg key ∧
        (b.remove gone).marks.lookup key = b.marks.lookup key) := by
  have hMarks :
      (b.remove gone).marks.lookup key =
        (b.marks.lookup key).filter (fun _ =>
          !(b.breakers.entries.filter (fun e => gone e.1 e.2)).any (fun e => e.1 = key)) := by
    unfold remove
    simp only
    rw [HashTable.lookup_retain]
  have hEvidence :
      (b.remove gone).evidenceOf cfg key =
        ((b.breakers.lookup key).filter (fun id =>
          !gone key id)).bind (fun id => (b.cells id).evidence cfg) := by
    unfold evidenceOf
    rw [remove_lookup]
    congr 1
    funext id
    rw [remove_cells]
    rfl
  cases hDropped :
      (b.breakers.entries.filter (fun e => gone e.1 e.2)).any (fun e => e.1 = key) with
  | true =>
    left
    rcases any_eq_true.mp hDropped with ⟨⟨key', id⟩, hMem, hSame⟩
    cases of_decide_eq_true hSame
    rcases mem_dropped_iff.mp hMem with ⟨hHere, hGone⟩
    rw [hEvidence, hMarks, hDropped, hHere]
    simp [hGone]
  | false =>
    right
    rw [hEvidence, hMarks, hDropped]
    constructor
    · unfold evidenceOf
      cases hHere : b.breakers.lookup key with
      | none => rfl
      | some id =>
        have hKept : gone key id = false := by
          rw [eq_false_iff]
          intro hGone
          have hNot := any_eq_false.mp hDropped _ (mem_dropped_iff.mpr ⟨hHere, hGone⟩)
          exact hNot (decide_eq_true rfl)
        simp [filter_some, hKept, Bool.not_false]
    · cases b.marks.lookup key with
      | none => rfl
      | some mark => rfl

variable {cred : Cred}

theorem Housed.create (hHoused : Housed ownerOf b)
    (hNew : b.breakers.lookup key = none) (hOwned : cred.owner = key.cred.owner ownerOf)
    (now : Instant) :
    Housed ownerOf (b.create key cred now) := by
  have hSelf :
      (b.create key cred now).cells b.nextCell =
        { key := key
          owner := cred.owner
          tuning := cred.tuning
          lastUsed := now } :=
    update_self _ _ _
  have hLookup :
      ∀ key', key' ≠ key →
        (b.create key cred now).breakers.lookup key' = b.breakers.lookup key' :=
    fun key' hOther => AList.lookup_insert_ne hOther
  have hLookupSelf : (b.create key cred now).breakers.lookup key = some b.nextCell :=
    AList.lookup_insert _
  refine ⟨hHoused.toKeyed.create key cred now, ?_, ?_, ?_⟩
  · intro key' id hSome
    by_cases hSame : key' = key
    · rw [hSame, hLookupSelf] at hSome
      cases hSome
      rw [hSelf]
    · rw [hLookup key' hSame] at hSome
      rw [create_cells_of_lt (hHoused.keyed key' id hSome).1]
      exact hHoused.placed key' id hSome
  · intro id hLt hLive
    rcases Nat.lt_succ_iff_lt_or_eq.mp hLt with hBefore | hLast
    · rw [create_cells_of_lt hBefore] at hLive ⊢
      have hHere := hHoused.live id hBefore hLive
      rw [hLookup _ ?_]
      · exact hHere
      · rintro rfl
        rw [hNew] at hHere
        cases hHere
    · rw [hLast, hSelf]
      exact hLookupSelf
  · intro id hLt
    rcases Nat.lt_succ_iff_lt_or_eq.mp hLt with hBefore | hLast
    · rw [create_cells_of_lt hBefore]
      exact hHoused.owned id hBefore
    · rw [hLast, hSelf]
      exact hOwned

/- A new cell has no evidence yet. -/
theorem create_view (hHoused : Housed ownerOf b)
    (hNew : b.breakers.lookup key = none) (now : Instant) (key' : Key) :
    (b.create key cred now).evidenceOf cfg key' = b.evidenceOf cfg key' := by
  unfold evidenceOf
  by_cases hSame : key' = key
  · rw [hSame, hNew]
    unfold create
    simp only
    rw [AList.lookup_insert, bind_some, update_self]
    rfl
  · unfold create
    simp only
    rw [AList.lookup_insert_ne hSame]
    cases hHere : b.breakers.lookup key' with
    | none => rfl
    | some id =>
      have hLt := (hHoused.keyed key' id hHere).1
      rw [bind_some, bind_some, update_of_ne (Nat.ne_of_lt hLt)]

variable {e : Entry}

/- A cell that is written keeps its key, owner, and place. -/
structure Sits (e old : Entry) : Prop where
  key : e.key = old.key := by rfl
  retired : e.retired = old.retired := by rfl
  owner : e.owner = old.owner := by rfl

theorem Sits.update (hSits : Sits e (b.cells id)) (id' : Nat) :
    Sits (Function.update b.cells id e id') (b.cells id') := by
  by_cases hId : id' = id
  · rw [hId, update_self]
    exact hSits
  · rw [update_of_ne hId]
    exact {}

theorem Housed.write (hHoused : Housed ownerOf b) (hSits : Sits e (b.cells id))
    (calls : List Call) (trips : List Trip) :
    Housed ownerOf
      { b with
        cells := Function.update b.cells id e
        calls := calls
        trips := trips } := by
  have hSame := hSits.update
  refine ⟨hHoused.toKeyed.later (later_write hSits.key) (fun _ _ hLookup => hLookup) rfl,
    ?_, ?_, ?_⟩
  · intro key id' hLookup
    exact (hSame id').retired.trans (hHoused.placed key id' hLookup)
  · intro id' hLt' hLive
    simp only
    rw [(hSame id').key]
    exact hHoused.live id' hLt' ((hSame id').retired ▸ hLive)
  · intro id' hLt'
    simp only
    rw [(hSame id').owner, (hSame id').key]
    exact hHoused.owned id' hLt'

/- Only the key of a cell sees what is written to it. -/
theorem write_evidence (cfg : BreakerConfig) (b : CircuitBreaker) (id : Nat) (e : Entry)
    (key : Key) :
    (({ b with cells := Function.update b.cells id e } :
        CircuitBreaker).evidenceOf cfg key) =
      if b.breakers.lookup key = some id then e.evidence cfg
      else b.evidenceOf cfg key := by
  unfold evidenceOf
  simp only
  cases hHere : b.breakers.lookup key with
  | none => rfl
  | some id' =>
    by_cases hSame : id' = id
    · rw [hSame, if_pos rfl, bind_some, update_self]
    · rw [if_neg (fun hId => hSame (some.inj hId)), bind_some, bind_some, update_of_ne hSame]

--
-- Sections
--

/- The map is in order, and its marks agree with it except where an unmark is pending. -/
structure Kept (ownerOf : ByteArr 8 → OwnerTag) (cfg : BreakerConfig)
    (clock : Instant) (pending : Key → Prop) (b : CircuitBreaker) : Prop where
  housed : Housed ownerOf b
  agrees : ∀ key, Races.AgreesAt clock (pending key) (b.evidenceOf cfg key) (b.marks.lookup key)

variable {clock now : Instant} {pending : Key → Prop}

section

variable (hKept : Kept ownerOf cfg clock pending b)
include hKept

theorem Kept.remove (gone : Key → Nat → Bool) :
    Kept ownerOf cfg clock pending (b.remove gone) := by
  refine ⟨hKept.housed.remove gone, ?_⟩
  intro key
  rcases remove_view gone key with ⟨hDue, hMark⟩ | ⟨hDue, hMark⟩
  · rw [hDue, hMark]
    exact Races.AgreesAt.refl
  · rw [hDue, hMark]
    exact hKept.agrees key

/- Dropping marks that have expired. -/
theorem Kept.prune (hNow : now ≤ clock) (drops : Key → Bool) :
    Kept ownerOf cfg clock pending
      { b with
        marks :=
          b.marks.retain (fun key mark => !drops key || now < mark.expires) } := by
  refine ⟨{ hKept.housed with }, ?_⟩
  intro key
  simp only [HashTable.lookup_retain]
  cases drops key with
  | true =>
    simp only [Bool.not_true, Bool.false_or]
    exact (hKept.agrees key).prune hNow
  | false =>
    simp only [Bool.not_false, Bool.true_or]
    have hAll : (b.marks.lookup key).filter (fun _ => true) = b.marks.lookup key := by
      cases b.marks.lookup key with
      | none => rfl
      | some mark => rfl
    rw [hAll]
    exact hKept.agrees key

theorem Kept.sweepIdle (hNow : now ≤ clock) :
    Kept ownerOf cfg clock pending (b.sweepIdle cfg now).2 := by
  have hSwept :=
    (hKept.remove (fun _ id => (b.cells id).evictable cfg now)).prune hNow (fun _ => true)
  simp only [Bool.not_true, Bool.false_or] at hSwept
  exact hSwept

theorem Kept.create
    (hNew : b.breakers.lookup key = none) (hOwned : cred.owner = key.cred.owner ownerOf)
    (now : Instant) :
    Kept ownerOf cfg clock pending (b.create key cred now) := by
  refine ⟨hKept.housed.create hNew hOwned now, ?_⟩
  intro key'
  rw [create_view hKept.housed hNew]
  exact hKept.agrees key'

theorem Kept.sweepIfFull (hNow : now ≤ clock) :
    Kept ownerOf cfg clock pending (b.sweepIfFull cfg now) ∧
      Later b (b.sweepIfFull cfg now) ∧
      ∀ key, b.breakers.lookup key = none → (b.sweepIfFull cfg now).breakers.lookup key = none := by
  unfold CircuitBreaker.sweepIfFull
  split
  · refine ⟨hKept.sweepIdle hNow, later_remove (fun _ id => (b.cells id).evictable cfg now), ?_⟩
    intro key hNew
    have hLookup := remove_lookup (b := b) (fun _ id => (b.cells id).evictable cfg now) key
    rw [hNew] at hLookup
    exact hLookup
  · exact ⟨hKept, fun _ _ hCell => hCell, fun _ hNew => hNew⟩

/- The cell `entry` finds or creates is one of the key. -/
theorem Kept.entry (hNow : now ≤ clock) (hOwned : cred.owner = key.cred.owner ownerOf) :
    Kept ownerOf cfg clock pending (b.entry cfg key cred now).2 ∧
      Later b (b.entry cfg key cred now).2 ∧
      ∀ id, (b.entry cfg key cred now).1 = some id →
        (b.entry cfg key cred now).2.CellOf id key := by
  unfold CircuitBreaker.entry
  cases hLookup : b.breakers.lookup key with
  | some id =>
    refine ⟨hKept, fun _ _ hCell => hCell, ?_⟩
    intro id' hSome
    cases hSome
    exact hKept.housed.keyed key id hLookup
  | none =>
    simp only
    rcases hKept.sweepIfFull hNow with ⟨hSwept, hLater, hStill⟩
    split
    · refine ⟨hSwept, hLater, ?_⟩
      intro id hSome
      cases hSome
    · have hCreated := hSwept.create (hStill key hLookup) hOwned now
      refine ⟨hCreated, ?_, ?_⟩
      · intro id key' hCell
        exact later_create _ _ now id key' (hLater id key' hCell)
      · intro id hSome
        cases hSome
        exact hCreated.housed.keyed key _ (AList.lookup_insert _)

theorem Kept.observe (hCell : b.CellOf id key) (handle : Nat) :
    Kept ownerOf cfg clock pending (b.observe handle key id) :=
  ⟨{ hKept.housed with toKeyed := hKept.housed.toKeyed.observe hCell handle }, hKept.agrees⟩

/- Writing a cell, and the mark of its key. -/
theorem Kept.write (hSits : Sits e (b.cells id))
    {pending' : Key → Prop} {marks : HashTable Key Mark}
    (hAgrees :
      ∀ key,
        Races.AgreesAt clock (pending' key)
          (if b.breakers.lookup key = some id then e.evidence cfg
            else b.evidenceOf cfg key)
          (marks.lookup key))
    (calls : List Call) (trips : List Trip) :
    Kept ownerOf cfg clock pending'
      { b with
        cells := Function.update b.cells id e
        marks := marks
        calls := calls
        trips := trips } := by
  have hHoused := hKept.housed.write hSits calls trips
  refine ⟨{ hHoused with }, ?_⟩
  intro key
  have hAgrees := hAgrees key
  rw [← write_evidence] at hAgrees
  exact hAgrees

end

/- The evidence a cell on the map is there for. -/
theorem evidenceOf_of_lookup (hHere : b.breakers.lookup key = some id) :
    b.evidenceOf cfg key = (b.cells id).evidence cfg := by
  unfold evidenceOf
  rw [hHere]
  rfl

section

variable (hKept : Kept ownerOf cfg clock pending b)
include hKept

/-
  A verdict leaves the evidence alone, or takes it and leaves
  an unmark pending.  The cell may be retired.
-/
theorem Kept.allowBody (hCell : b.CellOf id key) (hOwned : cred.owner = key.cred.owner ownerOf)
    (start : Instant) :
    Kept ownerOf cfg clock
        (fun key' => pending key' ∨
          (key' = key ∧ (b.allowBody cfg id cred start).2.1 = true))
        (b.allowBody cfg id cred start).2.2 ∧
      Later b (b.allowBody cfg id cred start).2.2 := by
  have hOwner : (b.cells id).owner.or cred.owner = (b.cells id).owner := by
    rw [hKept.housed.owned id hCell.1, hCell.2, hOwned]
    cases key.cred.owner ownerOf with
    | none => rfl
    | some owner => rfl
  unfold CircuitBreaker.allowBody
  simp only
  refine ⟨?_, later_write rfl⟩
  apply hKept.write
  · exact ⟨rfl, rfl, hOwner⟩
  intro key'
  split_ifs with hHere
  · have hKey : key' = key := by rw [← (hKept.housed.keyed key' id hHere).2, hCell.2]
    unfold Entry.evidence
    simp only
    rw [sharedSince_allow, hOwner]
    split
    · rename_i hLeft
      exact Races.AgreesAt.leave (.inr ⟨hKey, hLeft⟩)
    · have hDue : b.evidenceOf cfg key' = _ := evidenceOf_of_lookup hHere
      unfold Entry.evidence at hDue
      rw [← hDue]
      exact (hKept.agrees key').mono (le_refl _) .inl
  · exact (hKept.agrees key').mono (le_refl _) .inl

/- The unmark of a key whose evidence has expired. -/
theorem Kept.unmarkOpen
    (hExpired : (b.evidenceOf cfg key).filter (fun mark => clock < mark.expires) = none) :
    Kept ownerOf cfg clock (fun key' => pending key' ∧ key' ≠ key) (b.unmarkOpen key) := by
  refine ⟨{ hKept.housed with }, ?_⟩
  intro key'
  unfold CircuitBreaker.unmarkOpen
  simp only
  by_cases hSame : key' = key
  · rw [hSame, AList.lookup_erase]
    exact Races.AgreesAt.unmark hExpired
  · rw [AList.lookup_erase_ne hSame]
    exact (hKept.agrees key').mono (le_refl _) (fun hPending => ⟨hPending, hSame⟩)

/- An outcome leaves evidence and mark alone, or replaces both by the same. -/
theorem Kept.recordBody
    (hCell : b.CellOf id key) (hOwned : cred.owner = key.cred.owner ownerOf) (outcome : Outcome)
    (start : Instant) :
    Kept ownerOf cfg clock pending (b.recordBody cfg id key cred outcome start) := by
  have hOwner : (b.cells id).owner = cred.owner := by
    rw [hKept.housed.owned id hCell.1, hCell.2, hOwned]
  unfold CircuitBreaker.recordBody
  simp only
  split
  · exact hKept
  · rename_i hLive
    rw [not_eq_true] at hLive
    have hHere : b.breakers.lookup key = some id := by
      rw [← hCell.2]
      exact hKept.housed.live id hCell.1 hLive
    split
    · rename_i hOpened
      rw [and_eq_true] at hOpened
      have hNone : cred.tuning = none :=
        Call.tuning_of_shared (record_opens_shared hOpened.1 hOpened.2)
      refine hKept.write {} (fun key' => ?_) _ _
      by_cases hSame : key' = key
      · rw [hSame, if_pos hHere, AList.lookup_insert]
        unfold Entry.evidence
        simp only
        rw [sharedSince_record, if_pos hOpened.1, if_pos hOpened.2, hNone, hOwner]
        exact Races.AgreesAt.refl
      · rw [if_neg (fun hThere => hSame (hKept.housed.key_unique hThere hHere)),
          AList.lookup_insert_ne hSame]
        exact hKept.agrees key'
    · rename_i hNot
      refine hKept.write {} (fun key' => ?_) _ _
      split_ifs with hThere
      · have hAgrees := hKept.agrees key'
        rw [evidenceOf_of_lookup hThere] at hAgrees
        unfold Entry.evidence at hAgrees ⊢
        simp only
        rw [sharedSince_record]
        split
        · rename_i hFlag
          rw [hFlag, Bool.true_and] at hNot
          rw [sharedSince_of_record hFlag] at hAgrees
          rw [if_neg hNot]
          exact hAgrees
        · exact hAgrees
      · exact hKept.agrees key'

end

theorem later_recordBody
    (id : Nat) (key : Key) (cred : Cred) (outcome : Outcome) (start : Instant) :
    Later b (b.recordBody cfg id key cred outcome start) := by
  unfold CircuitBreaker.recordBody
  simp only
  split
  · exact fun _ _ hCell => hCell
  · split
    · exact later_write rfl
    · exact later_write rfl

theorem Kept.mono (hKept : Kept ownerOf cfg clock pending b) {later : Instant}
    (hLater : clock ≤ later) {pending' : Key → Prop}
    (hPending : ∀ key, pending key → pending' key) :
    Kept ownerOf cfg later pending' b :=
  ⟨hKept.housed, fun key => (hKept.agrees key).mono hLater (hPending key)⟩

end CircuitBreaker

--
-- Calls In Progress
--

namespace Races

/- What a call has read is still so. -/
def Progress.Valid (ownerOf : ByteArr 8 → OwnerTag) (b : CircuitBreaker) (clock : Instant) :
    Progress → Prop
| .allowing _ _ cred start => cred.OwnedBy ownerOf ∧ start ≤ clock
| .counted key cred _ | .recording key cred _ | .missing key cred _ =>
    cred.owner = key.cred.owner ownerOf
| .entered key cred _ id | .noted key cred _ id | .chosen key cred _ id | .timed key cred _ id _ =>
    cred.owner = key.cred.owner ownerOf ∧ b.CellOf id key
| .leaving _ => True

variable {ownerOf : ByteArr 8 → OwnerTag} {cfg : BreakerConfig}
variable {b b' : CircuitBreaker} {clock now : Instant} {p : Progress}

theorem Progress.Valid.later (hValid : p.Valid ownerOf b clock)
    (hLater : Later b b') (hClock : clock ≤ now) :
    p.Valid ownerOf b' now := by
  cases p with
  | allowing provider region cred start =>
    exact ⟨hValid.1, le_trans hValid.2 hClock⟩
  | counted _ _ _ | recording _ _ _ | missing _ _ _ => exact hValid
  | entered key _ _ id | noted key _ _ id | chosen key _ _ id | timed key _ _ id _ =>
    exact ⟨hValid.1, hLater id key hValid.2⟩
  | leaving key => trivial

/- What a section of a call does to the rest. -/
structure Advanced (ownerOf : ByteArr 8 → OwnerTag) (cfg : BreakerConfig)
    (now : Instant) (pending : Key → Prop) (b : CircuitBreaker) (p : Progress)
    (next : Option Progress × CircuitBreaker) : Prop where
  later : Later b next.2
  valid : ∀ q, next.1 = some q → q.Valid ownerOf next.2 now
  kept :
    Kept ownerOf cfg now
      (fun key => (pending key ∧ p ≠ .leaving key) ∨ next.1 = some (.leaving key))
      next.2

variable {pending : Key → Prop}

/- A section that leaves no unmark behind and takes none. -/
theorem advanced_of_kept {next : Option Progress × CircuitBreaker}
    (hLater : Later b next.2) (hValid : ∀ q, next.1 = some q → q.Valid ownerOf next.2 now)
    (hKept : Kept ownerOf cfg now pending next.2)
    (hOther : ∀ key, p ≠ .leaving key := by nofun) :
    Advanced ownerOf cfg now pending b p next := by
  refine ⟨hLater, hValid, ?_⟩
  apply hKept.mono (le_refl _)
  intro key hPending
  exact .inl ⟨hPending, hOther key⟩

/- A section that finds or creates the cell of its key. -/
theorem advanced_entry {key : Key} {cred : Cred}
    (hKept : Kept ownerOf cfg now pending b)
    (hOwned : cred.owner = key.cred.owner ownerOf) {found : Nat → Progress}
    (hFound : ∀ b' id, b'.CellOf id key → (found id).Valid ownerOf b' now)
    (hOther : ∀ key, p ≠ .leaving key := by nofun) :
    Advanced ownerOf cfg now pending b p
      ((b.entry cfg key cred now).1.map found, (b.entry cfg key cred now).2) := by
  rcases hKept.entry (le_refl now) hOwned with ⟨hEntry, hLater, hCell⟩
  refine advanced_of_kept hLater ?_ hEntry hOther
  intro q hNext
  rcases map_eq_some_iff.mp hNext with ⟨id, hSome, rfl⟩
  exact hFound _ id (hCell id hSome)

theorem advance_advanced (hKept : Kept ownerOf cfg now pending b)
    (hValid : p.Valid ownerOf b now)
    (hExpired :
      ∀ key, p = .leaving key →
        (b.evidenceOf cfg key).filter (fun mark => now < mark.expires) = none) :
    Advanced ownerOf cfg now pending b p (advance cfg b now p) := by
  cases p with
  | allowing provider region cred start =>
    refine advanced_of_kept ?_ ?_ ?_
    · exact fun _ _ hCell => hCell
    · intro q hNext
      simp only [advance] at hNext
      split at hNext <;> cases hNext
      exact hValid.1
    · exact hKept.prune hValid.2 (inRegion provider region)
  | counted key cred start =>
    exact advanced_entry hKept hValid (fun _ _ hCell => ⟨hValid, hCell⟩)
  | entered key cred start id =>
    refine advanced_of_kept ?_ ?_ ?_
    · exact fun _ _ hCell => hCell
    · intro q hNext
      cases hNext
      exact hValid
    · exact hKept.observe hValid.2 cred.handle
  | noted key cred start id =>
    rcases hKept.allowBody hValid.2 hValid.1 start with ⟨hSaid, hLater⟩
    refine ⟨hLater, ?_, ?_⟩
    · intro q hNext
      simp only [advance] at hNext
      split at hNext <;> cases hNext
      trivial
    · apply hSaid.mono (le_refl _)
      rintro key' (hPending | ⟨rfl, hLeft⟩)
      · exact .inl ⟨hPending, fun hSame => nomatch hSame⟩
      · right
        simp only [advance]
        rw [if_pos hLeft]
  | leaving key =>
    refine ⟨fun _ _ hCell => hCell, ?_, ?_⟩
    · intro q hNext
      cases hNext
    · apply (hKept.unmarkOpen (hExpired key rfl)).mono (le_refl _)
      rintro key' ⟨hPending, hOther⟩
      left
      refine ⟨hPending, ?_⟩
      rintro hSame
      cases hSame
      exact hOther rfl
  | recording key cred outcome =>
    refine advanced_of_kept ?_ ?_ ?_
    · exact fun _ _ hCell => hCell
    · intro q hNext
      simp only [advance, some.injEq] at hNext
      subst hNext
      cases hSeen : b.seenCell cred.handle key with
      | none => exact hValid
      | some id => exact ⟨hValid, hKept.housed.toKeyed.seenCell hSeen⟩
    · exact hKept
  | missing key cred outcome =>
    exact advanced_entry hKept hValid (fun _ _ hCell => ⟨hValid, hCell⟩)
  | chosen key cred outcome id =>
    refine advanced_of_kept ?_ ?_ ?_
    · exact fun _ _ hCell => hCell
    · intro q hNext
      cases hNext
      exact hValid
    · exact hKept
  | timed key cred outcome id start =>
    refine advanced_of_kept ?_ ?_ ?_
    · exact later_recordBody _ _ _ _ _
    · intro q hNext
      cases hNext
    · exact hKept.recordBody hValid.2 hValid.1 outcome start

--
-- Runs
--

/- Where a call has moved, the others are where they were. -/
theorem mem_moveTo {inFlight : List Progress} {i : Nat}
    (hAt : inFlight[i]? = some p) (next : Option Progress) (q : Progress) :
    (q ∈ moveTo inFlight i next → q ∈ inFlight ∨ next = some q) ∧
      (q ∈ inFlight → q ≠ p → q ∈ moveTo inFlight i next) ∧
      (next = some q → q ∈ moveTo inFlight i next) := by
  rcases exists_split hAt with ⟨before, after, hList, hErase, hSet⟩
  have hMoved : moveTo inFlight i next = before ++ (next.toList ++ after) := by
    cases next with
    | none => exact hErase
    | some r => exact hSet r
  rw [hMoved, hList]
  simp only [mem_append, mem_cons, mem_toList]
  refine ⟨?_, ?_, ?_⟩
  · rintro (hLeft | hNext | hRight)
    · exact .inl (.inl hLeft)
    · exact .inr hNext
    · exact .inl (.inr (.inr hRight))
  · rintro (hLeft | hHere | hRight) hOther
    · exact .inl hLeft
    · exact absurd hHere hOther
    · exact .inr (.inr hRight)
  · intro hNext
    exact .inr (.inl hNext)

structure Inv (ownerOf : ByteArr 8 → OwnerTag) (cfg : BreakerConfig) (s : State) : Prop where
  kept : Kept ownerOf cfg s.clock (fun key => .leaving key ∈ s.inFlight) s.breaker
  valid : ∀ p ∈ s.inFlight, p.Valid ownerOf s.breaker s.clock

variable {s t : State} {e : Event × Instant}

theorem inv_new : Inv ownerOf cfg {} := by
  refine ⟨⟨housed_new, ?_⟩, ?_⟩
  · intro key
    exact AgreesAt.refl
  · intro p hMem
    cases hMem

section

variable (hInv : Inv ownerOf cfg s)
include hInv

/- Another call comes in, or time passes. -/
theorem Inv.start (hClock : s.clock ≤ now) {started : List Progress}
    (hStarted : ∀ p ∈ started, p.Valid ownerOf s.breaker now) :
    Inv ownerOf cfg
      { s with
        clock := now
        inFlight := s.inFlight ++ started } := by
  refine ⟨?_, ?_⟩
  · apply hInv.kept.mono hClock
    intro key hPending
    exact mem_append_left _ hPending
  · intro p hMem
    rcases mem_append.mp hMem with hOld | hNew
    · exact (hInv.valid p hOld).later (fun _ _ hCell => hCell) hClock
    · exact hStarted p hNew

/- A section of no call in progress. -/
theorem Inv.apart (hClock : s.clock ≤ now) (hLater : Later s.breaker b)
    (hKept : Kept ownerOf cfg now (fun key => .leaving key ∈ s.inFlight) b) :
    Inv ownerOf cfg { s with clock := now, breaker := b } :=
  ⟨hKept, fun p hMem =>
    (hInv.valid p hMem).later hLater hClock⟩

theorem Inv.advance (hClock : s.clock ≤ now) {i : Nat} (hAt : s.inFlight[i]? = some p)
    (hExpired :
      ∀ key, p = .leaving key →
        (s.breaker.evidenceOf cfg key).filter (fun mark => now < mark.expires) = none) :
    Inv ownerOf cfg
      { breaker := (Races.advance cfg s.breaker now p).2
        clock := now
        inFlight :=
          moveTo s.inFlight i
            (Races.advance cfg s.breaker now p).1 } := by
  have hMem : p ∈ s.inFlight := mem_of_getElem? hAt
  have hAdvanced :=
    advance_advanced (hInv.kept.mono hClock (fun _ hPending => hPending))
      ((hInv.valid p hMem).later (fun _ _ hCell => hCell) hClock) hExpired
  refine ⟨?_, ?_⟩
  · apply hAdvanced.kept.mono (le_refl _)
    rintro key (⟨hPending, hOther⟩ | hNext)
    · exact (mem_moveTo hAt _ _).2.1 hPending hOther.symm
    · exact (mem_moveTo hAt _ _).2.2 hNext
  · intro q hThere
    rcases (mem_moveTo hAt _ q).1 hThere with hOld | hNew
    · exact (hInv.valid q hOld).later hAdvanced.later hClock
    · exact hAdvanced.valid q hNew

theorem Inv.step (hOwned : e.1.OwnedBy ownerOf) (hExpired : unmarksExpired cfg s e = true)
    (hStep : Races.step cfg s e = some t) :
    Inv ownerOf cfg t := by
  rcases e with ⟨e, now⟩
  unfold Races.step at hStep
  split at hStep
  · rename_i hClock
    cases e with
    | allow provider region cred =>
      cases hStep
      apply hInv.start hClock
      intro p hMem
      rw [mem_singleton.mp hMem]
      exact ⟨hOwned, le_refl now⟩
    | record provider region cred outcome =>
      cases hStep
      simp only
      split
      · exact hInv.apart hClock (fun _ _ hCell => hCell)
          (hInv.kept.mono hClock (fun _ hPending => hPending))
      · apply hInv.start hClock
        intro p hMem
        rw [mem_singleton.mp hMem]
        exact hOwned
    | sweepIdle =>
      cases hStep
      apply hInv.apart hClock
      · exact later_remove (fun _ id => (s.breaker.cells id).evictable cfg now)
      · exact (hInv.kept.mono hClock (fun _ hPending => hPending)).sweepIdle (le_refl now)
    | resetCredential cred =>
      cases hStep
      apply hInv.apart hClock
      · exact later_remove (fun key _ => key.cred = cred)
      · exact (hInv.kept.mono hClock (fun _ hPending => hPending)).remove _
    | advance i =>
      rcases map_eq_some_iff.mp hStep with ⟨p, hAt, rfl⟩
      apply hInv.advance hClock hAt
      rintro key rfl
      unfold unmarksExpired at hExpired
      simp only [hAt] at hExpired
      exact isNone_iff_eq_none.mp hExpired
  · cases hStep

end

variable {events : List (Event × Instant)}

/-
  Where every unmark meets a breaker whose evidence has expired: once no call is in progress, the
  marks that have not expired are those the live, open breakers account for.
-/
theorem run_agrees
    (hRun : Run (fun s e t => unmarksExpired cfg s e ∧ step cfg s e = some t) {} events s)
    (hOwned : ∀ e ∈ events, e.1.OwnedBy ownerOf)
    (hIdle : s.inFlight = []) (hNow : s.clock ≤ now) (key : Key) (mark : Mark)
    (hLive : now < mark.expires) :
    s.breaker.marks.lookup key = some mark ↔ s.breaker.evidenceOf cfg key = some mark := by
  have hInv : Inv ownerOf cfg s := by
    apply (hRun.mono (fun s t e hMem hStep => And.intro (hOwned e hMem) hStep)).invariant
    · intro s e t hInv hStep
      exact hInv.step hStep.1 hStep.2.1 hStep.2.2
    · exact inv_new
  have hAgrees := hInv.kept.agrees key mark (lt_of_le_of_lt hNow hLive)
  constructor
  · intro hMark
    rcases hAgrees.2 hMark with hDue | hPending
    · exact hDue
    · rw [hIdle] at hPending
      cases hPending
  · exact hAgrees.1

--
-- A Lost Mark
--

def sampleKey : Key :=
  ⟨"anthropic", "us", (sampleCred 1).id⟩

def openFirst : List (Event × Instant) :=
  (.record "anthropic" "us" (sampleCred 1) .upstreamFault, 0) :: replicate 4 (.advance 0, 0)

/-
  The cool-down is over, and a request is let through: its breaker is half open, and its mark is
  still to go.  A late fault opens the breaker again and marks it; then the mark goes.
-/
def lateFault : List (Event × Instant) :=
  openFirst ++ (.allow "anthropic" "us" (sampleCred 1), 10) :: replicate 4 (.advance 0, 10) ++
    (.record "anthropic" "us" (sampleCred 1) .upstreamFault, 10) :: replicate 3 (.advance 1, 10) ++
    [(.advance 0, 10)]

/- The calls in progress, a key's mark, and its evidence. -/
def markAndDue (s : State) : List Progress × Option Mark × Option Mark :=
  (s.inFlight, s.breaker.marks.lookup sampleKey,
    s.breaker.evidenceOf sampleConfig sampleKey)

def sampleStep :=
  step sampleConfig

theorem lateFault_unmarked :
    ∃ s,
      Run (fun s e t => sampleStep s e = some t) {} lateFault s ∧
        s.clock = 10 ∧
        markAndDue s =
          ([], none,
            some ⟨some (sampleOwner ⟨replicate 8 1, length_replicate⟩), 20⟩) :=
  Run.eval (by decide)

/- The same with the late fault after the unmark. -/
def faultInOrder : List (Event × Instant) :=
  openFirst ++ (.allow "anthropic" "us" (sampleCred 1), 10) :: replicate 5 (.advance 0, 10) ++
    (.record "anthropic" "us" (sampleCred 1) .upstreamFault, 10) :: replicate 3 (.advance 0, 10)

theorem faultInOrder_agrees :
    ∃ s,
      Run
          (fun s e t => unmarksExpired sampleConfig s e ∧ sampleStep s e = some t)
          {} faultInOrder s ∧
        s.breaker.marks.lookup sampleKey =
          some ⟨some (sampleOwner ⟨replicate 8 1, length_replicate⟩), 20⟩ := by
  have hEnd :
      ∃ s,
        Run (fun s e t => unmarksExpired sampleConfig s e ∧ sampleStep s e = some t)
            {} faultInOrder s ∧
          s.clock = 10 ∧
          s.inFlight = [] ∧
          s.breaker.evidenceOf sampleConfig sampleKey =
            some ⟨some (sampleOwner ⟨replicate 8 1, length_replicate⟩), 20⟩ :=
    Run.eval_guard (by decide +kernel)
  rcases hEnd with ⟨s, hRun, hClock, hIdle, hDue⟩
  have hOwned : ∀ e ∈ faultInOrder, e.1.OwnedBy sampleOwner := by
    simp [faultInOrder, openFirst, Event.OwnedBy, Cred.OwnedBy, sampleCred, Credential.owner]
  refine ⟨s, hRun, (run_agrees hRun hOwned hIdle (le_of_eq hClock) sampleKey _ ?_).mpr hDue⟩
  decide

end Races

end Tracelane.Gateway
