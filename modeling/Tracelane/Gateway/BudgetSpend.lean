import Tracelane.Lib.Sha256
import Tracelane.Gateway.BudgetCapacity

/-
  What a calendar counter holds: the durable spend it was seeded with and the costs recorded since.

  A check whose counter needs a baseline reads it outside the lock, so that costs are recorded,
  periods end, and other checks seed or evict the counter while the read is under way.
-/

namespace Tracelane.Gateway

open Option

namespace Spending

open List TenantCounters Transition

--
-- Checks Under Way
--

/- How far a baseline read has come. -/
inductive Stage where
| asked
| missed
| grouped (seed : EndUserSeed)
| single
| known (seed : Seed)

/- A check that waits for its baseline. -/
structure Flight where
  a : Applicable
  period : Nat
  now : DateTime
  stage : Stage

/- A cost passed to `record`, with the slots it belongs to. -/
structure Recorded where
  slots : List Slot
  spend : Spend

structure State where
  counters : TenantCounters := {}
  flights : List Flight := []
  log : List Recorded := []

inductive Event where
| prepare
    (a : Applicable)
    (now : DateTime)
    (instant : Instant)
| lookup (i : Nat)
| readGroup
    (i : Nat)
    (byUser : HashTable String Nat)
| storeGroup (i : Nat)
| readBaseline
    (i total : Nat)
    (hours : List (Nat × Nat))
| seed (i : Nat)
| seedFailed
    (i : Nat)
    (instant : Instant)
| drop (i : Nat)
| record
    (project key : Option Uuid)
    (endUser : Option String)
    (cost : Nat)
    (now : DateTime)
    (sink : Crossing → Bool)

/- An end user's part of a grouped read. -/
def resolve (user : String) (seed : EndUserSeed) : Stage :=
  match seed.byUser.lookup user with
  | some total => .known (.total ⟨total, seed.recorded⟩)
  | none =>
      if seed.truncated then .single
      else .known (.total ⟨0, seed.recorded⟩)

/- The end user whose cached baseline a check asks for. -/
def Flight.asksFor (f : Flight) : Option String :=
  match f.stage with
  | .asked => f.a.endUser
  | _ => none

/- The baseline a check reads for itself. -/
def Flight.ownRead (f : Flight) (total recorded : Nat) (hours : List (Nat × Nat)) : Option Seed :=
  match f.stage, f.a.endUser with
  | .asked, none =>
      if f.a.budget.window.rollingHours.isSome then
        some (.hours hours)
      else
        some (.total ⟨total, recorded⟩)
  | .single, _ => some (.total ⟨total, recorded⟩)
  | _, _ => none

def State.setStage (s : State) (i : Nat) (f : Flight) (stage : Stage) : State :=
  { s with flights := s.flights.set i { f with stage := stage } }

variable (endUserHash : String → Nat) (sha256 : Bytes → Hash)
variable (cfg : BudgetConfig)

def step (tenant : TenantId) (s : State) : Event → Option State
| .prepare a now instant =>
    let said := s.counters.prepare endUserHash cfg a now instant
    match said.1 with
    | .needsSeed period =>
        some
          { s with
            counters := said.2
            flights := s.flights ++ [⟨a, period, now, .asked⟩] }
    | _ => some { s with counters := said.2 }
| .lookup i => do
    let f ← s.flights[i]?
    let user ← f.asksFor
    match s.counters.endUserSeed f.a.scope f.a.budget.window
        f.period with
    | some seed => some (s.setStage i f (resolve user seed))
    | none => some (s.setStage i f .missed)
| .readGroup i byUser => do
    let f ← s.flights[i]?
    match f.stage with
    | .missed =>
        some (s.setStage i f
          (.grouped
            { byUser := byUser
              truncated := cfg.maxEndUsers ≤ byUser.entries.length
              recorded := s.log.length }))
    | _ => none
| .storeGroup i => do
    let f ← s.flights[i]?
    match f.stage, f.a.endUser with
    | .grouped seed, some user =>
        some
          { s.setStage i f (resolve user seed) with
            counters :=
              s.counters.storeEndUserSeed f.a.scope f.a.budget.window f.period seed }
    | _, _ => none
| .readBaseline i total hours => do
    let f ← s.flights[i]?
    let seed ← f.ownRead total s.log.length hours
    some (s.setStage i f (.known seed))
| .seed i => do
    let f ← s.flights[i]?
    match f.stage with
    | .known seed =>
        some
          { s with
            counters :=
              (s.counters.seed endUserHash f.a f.period seed f.now).2
            flights := s.flights.eraseIdx i }
    | _ => none
| .seedFailed i instant => do
    let f ← s.flights[i]?
    some
      { s with
        counters := s.counters.seedFailed endUserHash f.a instant
        flights := s.flights.eraseIdx i }
| .drop i => do
    let _ ← s.flights[i]?
    some { s with flights := s.flights.eraseIdx i }
| .record project key endUser cost now sink =>
    some
      { s with
        counters :=
          s.counters.record endUserHash sha256 tenant project key endUser cost now sink
        log :=
          s.log ++
            [⟨recordSlots endUserHash project key endUser,
              ⟨now, cost⟩⟩] }

--
-- What A Counter Must Hold
--

def total (spends : List Spend) : Nat :=
  (spends.map Spend.cost).sum

/- A cost of the counter's subject in the period. -/
def belongs (slot : Slot) (window : BudgetWindow) (period : Nat) (r : Recorded) : Bool :=
  slot ∈ r.slots ∧ periodKey window r.spend.now = period

/- The costs recorded in a period since a snapshot. -/
def spentSince (log : List Recorded) (slot : Slot) (window : BudgetWindow)
    (period : Nat) (recorded : Nat) : Nat :=
  total (((log.drop recorded).filter (belongs slot window period)).map Recorded.spend)

/-
  A counter's spend is what the snapshot that seeded it and the costs added since make, no less than
  that snapshot and all that was recorded in the period since, and none of the added costs is of
  another period.
-/
structure Kept (log : List Recorded) (slot : Slot) (c : Counter) (period : Nat)
    (read : Snapshot) : Prop where
  made : c.micro = read.total + total c.added
  nothingLost : read.total + spentSince log slot c.spec.window period read.recorded ≤ c.micro
  nothingCarried : ∀ spend ∈ c.added, periodKey c.spec.window spend.now = period

/- A baseline that may be applied to a counter. -/
def seedCovers (log : List Recorded) (slot : Slot) (c : Counter) (period : Nat)
    (read : Snapshot) : Bool :=
  let since := spentSince log slot c.spec.window period read.recorded
  if c.seededFor = some period then true
  else if c.seededFor.isSome then
    -- It takes the place of what the counter holds.
    since = 0
  else
    -- It is added to what the counter holds.
    since ≤ c.micro ∧ c.micro + read.total ≤ u64Max ∧
      c.added.all (fun spend => periodKey c.spec.window spend.now = period)

/- A cost that takes no counter to the largest amount. -/
def recordFits (tc : TenantCounters) (slots : List Slot) (cost : Nat) : Bool :=
  slots.all (fun slot =>
    ((tc.slots.lookup slot).getD []).all (fun c =>
      c.spec.window.rollingHours.isSome || c.micro + cost ≤ u64Max))

/- The steps that keep what calendar counters must hold. -/
def covers (s : State) : Event → Bool
| .seed i =>
    match s.flights[i]? with
    | some f =>
        let slot := slotOf endUserHash f.a
        match f.stage, s.counters.find? slot f.a.budget.window with
        | .known (.total read), some c =>
            c.spec.window.rollingHours.isSome || seedCovers s.log slot c f.period read
        | _, _ => true
    | none => true
| .record project key endUser cost _ _ =>
    recordFits s.counters (recordSlots endUserHash project key endUser) cost
| _ => true

--
-- The Books Of A Counter
--

/- Unseeded, a calendar counter holds what was added. -/
def CounterOk (log : List Recorded) (slot : Slot) (c : Counter) : Prop :=
  c.spec.window.rollingHours = none →
    match c.seededFor with
    | none => c.micro = total c.added
    | some period =>
        period ≠ rollingPeriod ∧ ∃ read, c.seedRead = some read ∧ Kept log slot c period read

/- What `CounterOk` looks at. -/
def SameBooks (c c' : Counter) : Prop :=
  c'.spec.window = c.spec.window ∧
    c'.seededFor = c.seededFor ∧
    c'.micro = c.micro ∧
    c'.seedRead = c.seedRead ∧
    c'.added = c.added

theorem SameBooks.refl (c : Counter) : SameBooks c c :=
  ⟨rfl, rfl, rfl, rfl, rfl⟩

theorem SameBooks.trans {c₁ c₂ c₃ : Counter} (hFirst : SameBooks c₁ c₂)
    (hSecond : SameBooks c₂ c₃) :
    SameBooks c₁ c₃ := by
  unfold SameBooks at *
  simp only [hSecond, hFirst, and_self]

variable {log : List Recorded} {slot : Slot}

theorem SameBooks.counterOk {c c' : Counter} (hSame : SameBooks c c') (hOk : CounterOk log slot c) :
    CounterOk log slot c' := by
  rcases hSame with ⟨hWindow, hSeeded, hMicro, hRead, hAdded⟩
  intro hCalendar
  rw [hWindow] at hCalendar
  have hBooks := hOk hCalendar
  rw [hSeeded]
  cases hPeriod : c.seededFor with
  | none =>
    rw [hPeriod] at hBooks
    simp only at hBooks ⊢
    rw [hMicro, hAdded]
    exact hBooks
  | some period =>
    rw [hPeriod] at hBooks
    rcases hBooks with ⟨hNotRolling, read, hHad, hKept⟩
    refine ⟨hNotRolling, read, hRead.trans hHad, ?_, ?_, ?_⟩
    · rw [hMicro, hAdded]
      exact hKept.made
    · rw [hMicro, hWindow]
      exact hKept.nothingLost
    · rw [hAdded, hWindow]
      exact hKept.nothingCarried

theorem sameBooks_expire (c : Counter) (now : DateTime) :
    SameBooks c (c.expire now) := by
  unfold Counter.expire
  split
  · exact SameBooks.refl c
  · exact SameBooks.refl c

theorem sameBooks_decideNow (c : Counter) (backoff : Duration) (now : DateTime)
    (instant : Instant) :
    SameBooks c (c.decideNow backoff now instant).2 := by
  unfold Counter.decideNow
  split
  · exact SameBooks.refl c
  · split
    · split
      · exact SameBooks.refl c
      · exact sameBooks_expire c now
    · simp only
      split
      · exact SameBooks.refl c
      · exact SameBooks.refl c

variable {c : Counter} {counters : List Counter} {window : BudgetWindow}

theorem findWindow_eq_some (hFind : findWindow window counters = some c) :
    c ∈ counters ∧ c.spec.window = window :=
  ⟨mem_of_find?_eq_some hFind, by simpa using find?_some hFind⟩

theorem find?_window {tc : TenantCounters} (hFind : tc.find? slot window = some c) :
    c.spec.window = window := by
  rcases bind_eq_some_iff.mp hFind with ⟨counters, _, hFound⟩
  exact (findWindow_eq_some hFound).2

theorem mem_putWindow {c d : Counter} (hMem : d ∈ putWindow c counters) :
    d = c ∨ d ∈ counters := by
  induction counters with
  | nil => exact .inl (mem_singleton.mp hMem)
  | cons e es ih =>
    unfold putWindow at hMem
    split at hMem
    · rcases mem_cons.mp hMem with hHere | hLater
      · exact .inl hHere
      · exact .inr (mem_cons_of_mem _ hLater)
    · rcases mem_cons.mp hMem with hHere | hLater
      · exact .inr (hHere ▸ mem_cons_self)
      · rcases ih hLater with hNew | hOld
        · exact .inl hNew
        · exact .inr (mem_cons_of_mem _ hOld)

theorem findWindow_putWindow (c : Counter) (counters : List Counter) :
    findWindow c.spec.window (putWindow c counters) = some c := by
  induction counters with
  | nil => simp [findWindow, putWindow]
  | cons d ds ih =>
    unfold putWindow
    split
    · simp [findWindow]
    · rename_i hOther
      rw [findWindow, find?_cons_of_neg (by simpa using hOther)]
      exact ih

/- The counter a check leaves has the books of the old one. -/
theorem consult_counterOk {cfg : BudgetConfig} (a : Applicable) (now : DateTime)
    (instant : Instant) (hOk : ∀ c ∈ counters, CounterOk log slot c) :
    CounterOk log slot (TenantCounters.consult cfg counters a now instant).2 := by
  unfold consult
  simp only
  apply (sameBooks_decideNow _ _ _ _).counterOk
  cases hFind : findWindow a.budget.window counters with
  | none => exact fun _ => rfl
  | some c =>
    rcases findWindow_eq_some hFind with ⟨hMem, hWindow⟩
    have hSame : SameBooks c (c.refresh a instant) := ⟨hWindow.symm, rfl, rfl, rfl, rfl⟩
    exact hSame.counterOk (hOk c hMem)

variable {period cost : Nat}

theorem applySeed_counterOk {read : Snapshot}
    (hOk : CounterOk log slot c) (hPeriod : period ≠ rollingPeriod)
    (hCovers : seedCovers log slot c period read = true) :
    CounterOk log slot (c.applySeed period (.total read)) := by
  intro hCalendar
  rw [Counter.applySeed_spec] at hCalendar
  have hBooks := hOk hCalendar
  unfold seedCovers at hCovers
  unfold Counter.applySeed
  simp only at hCovers ⊢
  split at hCovers
  · rename_i hSeeded
    rw [if_pos hSeeded]
    have hSame : SameBooks c { c with seedFailedAt := none } := SameBooks.refl c
    exact hSame.counterOk hOk hCalendar
  · rename_i hOther
    rw [if_neg hOther]
    cases hSeeded : c.seededFor with
    | some old =>
      rw [hSeeded] at hCovers
      simp only [Option.isSome_some, if_true, decide_eq_true_eq] at hCovers
      refine ⟨hPeriod, read, rfl, ?_, ?_, ?_⟩
      · rfl
      · simp only
        rw [hCovers]
        exact le_rfl
      · simp
    | none =>
      rw [hSeeded] at hCovers hBooks
      simp only [Option.isSome_none, Bool.false_eq_true, if_false, decide_eq_true_eq,
        List.all_eq_true] at hCovers
      rcases hCovers with ⟨hSince, hFits, hHere⟩
      have hMicro : saturatingAdd c.micro read.total = c.micro + read.total := Nat.min_eq_left hFits
      refine ⟨hPeriod, read, rfl, ?_, ?_, ?_⟩
      · simp only at hBooks ⊢
        omega
      · simp only
        omega
      · exact hHere

--
-- Recording
--

theorem total_append (spends more : List Spend) :
    total (spends ++ more) = total spends + total more := by
  unfold total
  rw [map_append, sum_append]

/- A recorded cost counts where it belongs. -/
theorem spentSince_append_le (log : List Recorded) (r : Recorded) (slot : Slot)
    (window : BudgetWindow) (period recorded : Nat) :
    spentSince (log ++ [r]) slot window period recorded ≤
      spentSince log slot window period recorded +
        if belongs slot window period r then r.spend.cost
        else 0 := by
  unfold spentSince
  rw [drop_append, filter_append, map_append, total_append]
  apply Nat.add_le_add_left
  cases recorded - log.length with
  | zero =>
    rw [drop_zero, filter_singleton]
    cases belongs slot window period r
    · exact Nat.zero_le _
    · exact le_rfl
  | succ n => simp [total]

/- A cost of another subject leaves the books in order. -/
theorem counterOk_append_of_notMem {r : Recorded}
    (hOther :
      ∀ period, c.seededFor = some period →
        c.spec.window.rollingHours = none → belongs slot c.spec.window period r → r.spend.cost = 0)
    (hOk : CounterOk log slot c) :
    CounterOk (log ++ [r]) slot c := by
  intro hCalendar
  have hBooks := hOk hCalendar
  cases hSeeded : c.seededFor with
  | none =>
    rw [hSeeded] at hBooks
    exact hBooks
  | some period =>
    rw [hSeeded] at hBooks
    rcases hBooks with ⟨hNotRolling, read, hRead, hKept⟩
    refine ⟨hNotRolling, read, hRead, hKept.made, ?_, hKept.nothingCarried⟩
    have hAppend := spentSince_append_le log r slot c.spec.window period read.recorded
    have hLost := hKept.nothingLost
    split_ifs at hAppend with hBelongs
    · have hZero := hOther period hSeeded hCalendar hBelongs
      omega
    · omega

variable {scope : Scope} {sink : Crossing → Bool} {sha256 : Bytes → Hash} {now : DateTime}
variable {tenant : TenantId}

theorem sameBooks_offerThreshold {after : Nat} (c : Counter) (threshold : Nat × String) :
    SameBooks c (offerThreshold sha256 tenant scope after period now sink c threshold) := by
  unfold offerThreshold
  split
  · exact SameBooks.refl c
  · split
    · exact SameBooks.refl c
    · exact SameBooks.refl c

/- Recording adds to a current counter, whatever it fires. -/
theorem sameBooks_record (hCurrent : c.current now = true) :
    SameBooks ((c.expire now).add now cost) (c.record sha256 tenant scope cost now sink) := by
  unfold Counter.record
  rw [hCurrent]
  simp only [Bool.not_true, Bool.false_eq_true, if_false]
  refine foldlRecOn (motive := fun (c' : Counter) => SameBooks ((c.expire now).add now cost) c')
    _ _ (SameBooks.refl _) ?_
  intro c' hSame threshold _
  exact hSame.trans (sameBooks_offerThreshold c' threshold)

theorem record_counterOk {slots : List Slot} (hOk : CounterOk log slot c)
    (hFits : c.spec.window.rollingHours = none → c.micro + cost ≤ u64Max) :
    CounterOk (log ++ [⟨slots, ⟨now, cost⟩⟩]) slot
      (c.record sha256 tenant scope cost now sink) := by
  cases hCurrent : c.current now with
  | false =>
    -- A stale counter is passed over: the cost is not of its
    -- period.
    have hSame : c.record sha256 tenant scope cost now sink = c := by
      unfold Counter.record
      rw [hCurrent]
      rfl
    rw [hSame]
    apply counterOk_append_of_notMem _ hOk
    intro period hSeeded _ hBelongs
    exfalso
    unfold Counter.current at hCurrent
    unfold belongs at hBelongs
    rw [hSeeded] at hCurrent
    simp only [decide_eq_true_eq] at hBelongs
    simp [hBelongs.2] at hCurrent
  | true =>
    apply (sameBooks_record hCurrent).counterOk
    intro hCalendar
    have hSpec : ((c.expire now).add now cost).spec = c.spec := by
      unfold Counter.add
      split
      · exact Counter.expire_spec c
      · exact Counter.expire_spec c
    rw [hSpec] at hCalendar
    have hExpire : c.expire now = c := by
      unfold Counter.expire
      rw [hCalendar]
    have hAdd :
        (c.expire now).add now cost =
          { c with
            micro := c.micro + cost
            added := c.added ++ [⟨now, cost⟩] } := by
      rw [hExpire]
      unfold Counter.add saturatingAdd
      rw [hCalendar]
      simp only
      rw [Nat.min_eq_left (hFits hCalendar)]
    have hBooks := hOk hCalendar
    have hCost : total [⟨now, cost⟩] = cost := rfl
    rw [hAdd]
    simp only
    cases hSeeded : c.seededFor with
    | none =>
      rw [hSeeded] at hBooks
      simp only at hBooks ⊢
      rw [total_append, hCost, hBooks]
    | some period =>
      rw [hSeeded] at hBooks
      rcases hBooks with ⟨hNotRolling, read, hRead, hKept⟩
      have hPeriod : periodKey c.spec.window now = period := by
        unfold Counter.current at hCurrent
        rw [hSeeded] at hCurrent
        simp only [Bool.or_eq_true, decide_eq_true_eq] at hCurrent
        rcases hCurrent with hRolling | hSame
        · exact absurd hRolling hNotRolling
        · exact hSame.symm
      refine ⟨hNotRolling, read, hRead, ?_, ?_, ?_⟩
      · simp only
        rw [total_append, hCost, hKept.made, Nat.add_assoc]
      · have hAppend :=
          spentSince_append_le log ⟨slots, ⟨now, cost⟩⟩ slot c.spec.window period read.recorded
        have hLost := hKept.nothingLost
        simp only at hAppend ⊢
        split at hAppend
        · omega
        · omega
      · exact forall_mem_append.mpr ⟨hKept.nothingCarried, forall_mem_singleton.mpr hPeriod⟩

/- A request's slots are distinct. -/
theorem recordSlots_nodup (endUserHash : String → Nat) (project key : Option Uuid)
    (endUser : Option String) :
    (recordSlots endUserHash project key endUser).Nodup := by
  unfold recordSlots
  cases project <;> cases key <;> cases endUser <;> simp

--
-- The Table
--

def CountersOk (log : List Recorded) (tc : TenantCounters) : Prop :=
  ∀ slot counters, tc.slots.lookup slot = some counters → ∀ c ∈ counters, CounterOk log slot c

section Table

variable {endUserHash : String → Nat} {cfg : BudgetConfig} {log : List Recorded}
variable {tc : TenantCounters} {a : Applicable}

theorem CountersOk.insert {slots : HashTable Slot (List Counter)} {slot : Slot}
    {counters : List Counter} {n : Nat} {euSeeds : HashTable SeedKey EndUserSeed}
    (hOk :
      ∀ slot counters, slots.lookup slot = some counters → ∀ c ∈ counters, CounterOk log slot c)
    (hHere : ∀ c ∈ counters, CounterOk log slot c) :
    CountersOk log ⟨slots.insert slot counters, n, euSeeds⟩ := by
  exact HashTable.forall_lookup_insert hHere hOk

variable {instant : Instant}

theorem makeRoom_countersOk (hOk : CountersOk log tc) :
    CountersOk log (tc.makeRoom endUserHash cfg a instant) := by
  unfold makeRoom
  split
  · intro slot counters hLookup
    unfold evictIdleEndUsers at hLookup
    simp only at hLookup
    rw [HashTable.lookup_retain, filter_eq_some_iff] at hLookup
    exact hOk slot counters hLookup.1
  · exact hOk

variable {now : DateTime}

theorem prepare_countersOk (hOk : CountersOk log tc) :
    CountersOk log (tc.prepare endUserHash cfg a now instant).2 := by
  have hRoom : CountersOk log (tc.makeRoom endUserHash cfg a instant) := makeRoom_countersOk hOk
  rcases prepare_cases endUserHash cfg tc a now instant with ⟨_, _, hPrepare⟩ | ⟨_, hPrepare⟩
  · rw [hPrepare]
    exact hRoom
  · rw [hPrepare]
    apply CountersOk.insert hRoom
    have hOld :
        ∀ c ∈ ((tc.makeRoom endUserHash cfg a instant).slots.lookup (slotOf endUserHash a)).getD [],
          CounterOk log (slotOf endUserHash a) c := by
      intro c hMem
      cases hLookup :
          (tc.makeRoom endUserHash cfg a instant).slots.lookup (slotOf endUserHash a) with
      | none =>
        rw [hLookup] at hMem
        cases hMem
      | some counters =>
        rw [hLookup] at hMem
        exact hRoom _ counters hLookup c hMem
    intro c hMem
    rcases mem_putWindow hMem with rfl | hBefore
    · exact consult_counterOk a now instant hOld
    · exact hOld c hBefore

/- Writing one counter keeps the books of the others. -/
theorem modify_countersOk {f : Counter → Counter} (hOk : CountersOk log tc)
    (hWrite :
      ∀ c,
        tc.find? (slotOf endUserHash a) a.budget.window = some c →
          CounterOk log (slotOf endUserHash a) c → CounterOk log (slotOf endUserHash a) (f c)) :
    CountersOk log (tc.modify endUserHash a f) := by
  unfold TenantCounters.modify
  simp only
  cases hLookup : tc.slots.lookup (slotOf endUserHash a) with
  | none => exact hOk
  | some counters =>
    simp only
    cases hFind : findWindow a.budget.window counters with
    | none => exact hOk
    | some c =>
      have hHere := hOk _ counters hLookup
      apply CountersOk.insert hOk
      intro d hMem
      rcases mem_putWindow hMem with rfl | hBefore
      · apply hWrite c
        · unfold TenantCounters.find?
          rw [hLookup]
          exact hFind
        · exact hHere c (findWindow_eq_some hFind).1
      · exact hHere d hBefore

theorem seed_countersOk {period : Nat} {seed : Seed} (hOk : CountersOk log tc)
    (hApply :
      ∀ c,
        tc.find? (slotOf endUserHash a) a.budget.window = some c →
          CounterOk log (slotOf endUserHash a) c →
            CounterOk log (slotOf endUserHash a) (c.applySeed period seed)) :
    CountersOk log (tc.seed endUserHash a period seed now).2 := by
  apply modify_countersOk hOk
  intro c hFind hBooks
  exact (sameBooks_expire _ now).counterOk (hApply c hFind hBooks)

variable {sink : Crossing → Bool} {sha256 : Bytes → Hash} {tenant : TenantId}
variable {cost : Nat}

theorem lookup_recordSlot (tc : TenantCounters) (slot : Slot) :
    (tc.recordSlot sha256 tenant cost now sink slot).slots.lookup slot =
      (tc.slots.lookup slot).map
        (List.map (Counter.record sha256 tenant slot.scope cost now sink)) := by
  unfold recordSlot
  cases hLookup : tc.slots.lookup slot with
  | none => exact hLookup
  | some counters => exact AList.lookup_insert _

theorem lookup_recordSlot_ne (tc : TenantCounters) (slot other : Slot) (hOther : other ≠ slot) :
    (tc.recordSlot sha256 tenant cost now sink slot).slots.lookup other =
      tc.slots.lookup other := by
  unfold recordSlot
  cases tc.slots.lookup slot with
  | none => rfl
  | some counters => exact AList.lookup_insert_ne hOther

/- Each of a request's slots is charged once. -/
theorem lookup_foldl_recordSlot {slots : List Slot} (hDistinct : slots.Nodup) (slot : Slot) :
    (slots.foldl
        (TenantCounters.recordSlot sha256 tenant cost now sink)
        tc).slots.lookup slot =
      if slot ∈ slots then
        (tc.slots.lookup slot).map
          (List.map (Counter.record sha256 tenant slot.scope cost now sink))
      else
        tc.slots.lookup slot := by
  have hFrame :
      ∀ (tc : TenantCounters) (slot other : Slot),
        other ≠ id slot →
          (tc.recordSlot sha256 tenant cost now sink slot).slots.lookup other =
            tc.slots.lookup other :=
    lookup_recordSlot_ne
  rw [← map_id slots] at hDistinct
  split
  · rename_i hSlot
    exact HashTable.look_foldl_of_mem (fun (tc : TenantCounters) slot => tc.slots.lookup slot) id
        (fun slot old => old.map (map (Counter.record sha256 tenant slot.scope cost now sink)))
        hFrame lookup_recordSlot hDistinct hSlot tc
  · rename_i hOther
    rw [← map_id slots] at hOther
    exact HashTable.look_foldl_of_notMem (fun (tc : TenantCounters) slot => tc.slots.lookup slot)
        id hFrame hOther tc

theorem recordFits_iff {slots : List Slot} {cost : Nat} :
    recordFits tc slots cost = true ↔
      ∀ slot ∈ slots, ∀ counters,
        tc.slots.lookup slot = some counters →
          ∀ c ∈ counters, c.spec.window.rollingHours = none → c.micro + cost ≤ u64Max := by
  unfold recordFits
  rw [List.all_eq_true]
  apply forall₂_congr
  intro slot _
  cases tc.slots.lookup slot with
  | none => simp
  | some counters => simp [or_iff_not_imp_left]

theorem record_countersOk {project key : Option Uuid} {endUser : Option String}
    (hOk : CountersOk log tc)
    (hFits : recordFits tc (recordSlots endUserHash project key endUser) cost = true) :
    CountersOk
      (log ++ [⟨recordSlots endUserHash project key endUser, ⟨now, cost⟩⟩])
      (tc.record endUserHash sha256 tenant project key endUser cost now sink) := by
  unfold record
  split_ifs with hZero
  · intro slot counters hLookup c hMem
    apply counterOk_append_of_notMem _ (hOk slot counters hLookup c hMem)
    intro _ _ _ _
    exact hZero
  · intro slot counters hLookup c hMem
    rw [lookup_foldl_recordSlot (recordSlots_nodup endUserHash project key endUser)] at hLookup
    split at hLookup
    · rename_i hSlot
      rcases map_eq_some_iff.mp hLookup with ⟨old, hOld, rfl⟩
      rcases mem_map.mp hMem with ⟨d, hBefore, rfl⟩
      apply record_counterOk (hOk slot old hOld d hBefore)
      intro hCalendar
      exact recordFits_iff.mp hFits slot hSlot old hOld d hBefore hCalendar
    · rename_i hOther
      apply counterOk_append_of_notMem _ (hOk slot counters hLookup c hMem)
      intro period _ _ hBelongs
      unfold belongs at hBelongs
      rw [decide_eq_true_eq] at hBelongs
      exact absurd hBelongs.1 hOther

end Table

--
-- Steps
--

/- A calendar check reads a total, for a calendar period. -/
structure FlightOk (f : Flight) : Prop where
  period : f.a.budget.window.rollingHours = none → f.period ≠ rollingPeriod
  hours : ∀ hours, f.stage = .known (.hours hours) → f.a.budget.window.rollingHours.isSome

structure Inv (s : State) : Prop where
  counters : CountersOk s.log s.counters
  flights : ∀ f ∈ s.flights, FlightOk f

theorem periodKey_ne_rollingPeriod (hCalendar : window.rollingHours = none) (now : DateTime) :
    periodKey window now ≠ rollingPeriod := by
  have hKey : ∀ n, u32Key n ≠ rollingPeriod := by
    intro n
    unfold u32Key rollingPeriod u64Max u32Size
    omega
  cases window with
  | daily | weekly | monthly => exact hKey _
  | rolling1h | rolling24h | rolling7d | rolling30d => cases hCalendar

/- A calendar counter asks for the period it is in. -/
theorem decideNow_needsSeed {backoff : Duration} {instant : Instant} {period : Nat}
    (hSaid : (c.decideNow backoff now instant).1 = .needsSeed period)
    (hCalendar : c.spec.window.rollingHours = none) :
    period = periodKey c.spec.window now := by
  unfold Counter.decideNow at hSaid
  rw [hCalendar] at hSaid
  simp only at hSaid
  split at hSaid
  · cases hSaid
  · split at hSaid <;> cases hSaid
    rfl

section Step

variable {endUserHash : String → Nat} {sha256 : Bytes → Hash}
variable {cfg : BudgetConfig} {tenant : TenantId} {s t : State}
variable {instant : Instant} {a : Applicable} {now : DateTime}
variable {tc : TenantCounters}

/- Room is not made of the counter it is made for. -/
theorem findWindow_makeRoom :
    findWindow a.budget.window
        (((tc.makeRoom endUserHash cfg a instant).slots.lookup (slotOf endUserHash a)).getD []) =
      tc.find? (slotOf endUserHash a) a.budget.window := by
  rw [show ∀ slot : Option (List Counter),
    findWindow a.budget.window (slot.getD []) = slot.bind (findWindow a.budget.window) by
      rintro (_ | _) <;> rfl]
  cases hOld : tc.find? (slotOf endUserHash a) a.budget.window with
  | none => exact find?_makeRoom _ _ hOld
  | some c =>
    rw [makeRoom_of_not_new (by simp [isNewEndUser, hOld])]
    exact hOld

/- Where there is room, the counter of `a` says, and is kept. -/
theorem prepare_own (hRoom : (tc.prepare endUserHash cfg a now instant).1 ≠ .capacity) :
    let own := (tc.find? (slotOf endUserHash a) a.budget.window).getD (.new a instant)
    let said := (own.refresh a instant).decideNow cfg.backoff now instant
    (tc.prepare endUserHash cfg a now instant).1 = said.1 ∧
      (tc.prepare endUserHash cfg a now instant).2.find? (slotOf endUserHash a) a.budget.window =
        some said.2 := by
  intro own said
  rcases prepare_cases endUserHash cfg tc a now instant with ⟨_, _, hPrepare⟩ | ⟨_, hPrepare⟩
  · rw [hPrepare] at hRoom
    exact absurd rfl hRoom
  · simp only [hPrepare, consult, findWindow_makeRoom]
    have hFound := findWindow_putWindow said.2
    simp only [said, Counter.decideNow_spec] at hFound
    exact ⟨rfl, by rw [TenantCounters.find?, AList.lookup_insert]; exact hFound _⟩

theorem prepare_needsSeed {period : Nat}
    (hSaid : (tc.prepare endUserHash cfg a now instant).1 = .needsSeed period)
    (hCalendar : a.budget.window.rollingHours = none) :
    period = periodKey a.budget.window now := by
  have hOwn := prepare_own (hSaid.trans_ne nofun)
  exact decideNow_needsSeed (hOwn.1.symm.trans hSaid) hCalendar

theorem resolve_ne_hours (user : String) (seed : EndUserSeed) (hours : List (Nat × Nat)) :
    resolve user seed ≠ .known (.hours hours) := by
  unfold resolve
  split
  · simp
  · split <;> simp

section

variable (hInv : Inv s)
include hInv

/- Moving a read on keeps everything but its stage. -/
theorem Inv.setStage {i : Nat} {f : Flight} (hFlight : s.flights[i]? = some f) {stage : Stage}
    (hStage : ∀ hours, stage = .known (.hours hours) → f.a.budget.window.rollingHours.isSome) :
    Inv (s.setStage i f stage) := by
  refine ⟨hInv.counters, ?_⟩
  intro g hMem
  rcases mem_or_eq_of_mem_set hMem with hOld | rfl
  · exact hInv.flights g hOld
  · have hOk := hInv.flights f (mem_of_getElem? hFlight)
    exact ⟨hOk.period, hStage⟩

theorem Inv.eraseFlight (hCounters : CountersOk s.log tc) (i : Nat) :
    Inv
      { s with
        counters := tc
        flights := s.flights.eraseIdx i } :=
  ⟨hCounters, fun f hMem =>
    hInv.flights f (mem_of_mem_eraseIdx hMem)⟩

theorem Inv.prepare
    (hStep : step endUserHash sha256 cfg tenant s (.prepare a now instant) = some t) :
    Inv t := by
  have hCounters : CountersOk s.log (s.counters.prepare endUserHash cfg a now instant).2 :=
    prepare_countersOk hInv.counters
  simp only [step] at hStep
  split at hStep
  · rename_i period hSaid
    cases hStep
    refine ⟨hCounters, ?_⟩
    refine forall_mem_append.mpr ⟨hInv.flights, forall_mem_singleton.mpr ?_⟩
    refine ⟨?_, ?_⟩
    · intro hCalendar
      rw [prepare_needsSeed hSaid hCalendar]
      exact periodKey_ne_rollingPeriod hCalendar now
    · intro hours hStage
      cases hStage
  · cases hStep
    exact ⟨hCounters, hInv.flights⟩

theorem Inv.seed {i : Nat} (hCovers : covers endUserHash s (.seed i) = true)
    (hStep : step endUserHash sha256 cfg tenant s (.seed i) = some t) :
    Inv t := by
  rcases bind_eq_some_iff.mp hStep with ⟨f, hFlight, hStep⟩
  simp only [covers, hFlight] at hCovers
  split at hStep <;> cases hStep
  rename_i seed hStage
  apply hInv.eraseFlight
  apply seed_countersOk hInv.counters
  intro c hFind hBooks hCalendar
  have hOk := hInv.flights f (mem_of_getElem? hFlight)
  have hWindow := find?_window hFind
  rw [Counter.applySeed_spec, hWindow] at hCalendar
  cases seed with
  | hours hours =>
    have hRolling := hOk.hours hours hStage
    rw [hCalendar] at hRolling
    cases hRolling
  | total read =>
    rw [hStage, hFind] at hCovers
    simp only [hWindow, hCalendar, isSome_none, Bool.false_or] at hCovers
    apply applySeed_counterOk hBooks (hOk.period hCalendar) hCovers
    rw [Counter.applySeed_spec, hWindow]
    exact hCalendar

/- Steps that cover their seeds keep the books. -/
theorem Inv.step {e : Event} (hCovers : covers endUserHash s e = true)
    (hStep : step endUserHash sha256 cfg tenant s e = some t) :
    Inv t := by
  cases e with
  | prepare a now instant => exact hInv.prepare hStep
  | lookup i =>
    rcases bind_eq_some_iff.mp hStep with ⟨f, hFlight, hStep⟩
    rcases bind_eq_some_iff.mp hStep with ⟨user, _, hStep⟩
    split at hStep
    · cases hStep
      apply hInv.setStage hFlight
      intro hours hStage
      exact absurd hStage (resolve_ne_hours _ _ _)
    · cases hStep
      apply hInv.setStage hFlight
      intro hours hStage
      cases hStage
  | readGroup i byUser =>
    rcases bind_eq_some_iff.mp hStep with ⟨f, hFlight, hStep⟩
    split at hStep <;> cases hStep
    apply hInv.setStage hFlight
    intro hours hStage
    cases hStage
  | storeGroup i =>
    rcases bind_eq_some_iff.mp hStep with ⟨f, hFlight, hStep⟩
    split at hStep <;> cases hStep
    rename_i seed user _ _
    have hMoved : Inv (s.setStage i f (resolve user seed)) := by
      apply hInv.setStage hFlight
      intro hours hStage
      exact absurd hStage (resolve_ne_hours _ _ _)
    exact ⟨hMoved.counters, hMoved.flights⟩
  | readBaseline i total hours =>
    rcases bind_eq_some_iff.mp hStep with ⟨f, hFlight, hStep⟩
    rcases bind_eq_some_iff.mp hStep with ⟨seed, hRead, hStep⟩
    cases hStep
    apply hInv.setStage hFlight
    intro read hStage
    unfold Flight.ownRead at hRead
    split at hRead
    · split_ifs at hRead with hRolling
      · exact hRolling
      · cases hRead
        cases hStage
    · cases hRead
      cases hStage
    · cases hRead
  | seed i => exact hInv.seed hCovers hStep
  | seedFailed i instant =>
    rcases bind_eq_some_iff.mp hStep with ⟨f, hFlight, hStep⟩
    cases hStep
    apply hInv.eraseFlight
    apply modify_countersOk hInv.counters
    intro c _ hBooks
    have hSame : SameBooks c { c with seedFailedAt := some instant } := SameBooks.refl c
    exact hSame.counterOk hBooks
  | drop i =>
    rcases bind_eq_some_iff.mp hStep with ⟨f, hFlight, hStep⟩
    cases hStep
    exact hInv.eraseFlight hInv.counters i
  | record project key endUser cost now sink =>
    cases hStep
    exact ⟨record_countersOk hInv.counters hCovers, hInv.flights⟩

end

/- A check that can decide reads a counter of its period. -/
theorem prepare_ready {spent : Nat}
    (hSaid : (tc.prepare endUserHash cfg a now instant).1 = .ready spent)
    (hCalendar : a.budget.window.rollingHours = none) :
    ∃ c,
      tc.find? (slotOf endUserHash a) a.budget.window = some c ∧
        c.seededFor = some (periodKey a.budget.window now) ∧
        spent = c.micro := by
  have hOwn := prepare_own (hSaid.trans_ne nofun)
  have hReady := hOwn.1.symm.trans hSaid
  unfold Counter.decideNow Counter.refresh at hReady
  simp only [hCalendar] at hReady
  split at hReady
  · cases hReady
  · split at hReady <;> cases hReady
    rename_i hSeeded
    cases hFind : tc.find? (slotOf endUserHash a) a.budget.window with
    | none =>
      rw [hFind] at hSeeded
      cases hSeeded
    | some c =>
      rw [hFind] at hSeeded
      exact ⟨c, rfl, hSeeded, rfl⟩

end Step

--
-- Runs
--

section Runs

variable {endUserHash : String → Nat} {sha256 : Bytes → Hash}
variable {cfg : BudgetConfig}

/-
  In every state that covering steps reach, a calendar check that can decide is told a spend that
  loses nothing of the period and carries nothing into it.
-/
theorem run_kept {trace : List (TenantId × Event)} {s : TenantId → State}
    (hRun :
      Run
        (fun s e t =>
          covers endUserHash (s e.1) e.2 ∧ stepAt (step endUserHash sha256 cfg) s e = some t)
        (fun _ => {}) trace s)
    (T : TenantId)
    (a : Applicable)
    (hCalendar : a.budget.window.rollingHours = none)
    (now : DateTime)
    (instant : Instant)
    (spent : Nat)
    (hReady : ((s T).counters.prepare endUserHash cfg a now instant).1 = .ready spent) :
    ∃ c read,
      (s T).counters.find? (slotOf endUserHash a) a.budget.window =
        some c ∧
        spent = c.micro ∧
        c.seedRead = some read ∧
        Kept (s T).log (slotOf endUserHash a) c (periodKey a.budget.window now) read := by
  have hInv : Everywhere Inv s := by
    apply hRun.invariant
    · intro s e t hInv hStep
      apply stepAt_keeps hStep.2 hInv
      intro u hNext
      exact (hInv e.1).step hStep.1 hNext
    · intro T
      refine ⟨?_, ?_⟩
      · intro slot counters hLookup
        cases hLookup
      · intro f hMem
        cases hMem
  rcases prepare_ready hReady hCalendar with ⟨c, hFind, hSeeded, hSpent⟩
  rcases bind_eq_some_iff.mp hFind with ⟨counters, hLookup, hFound⟩
  rcases findWindow_eq_some hFound with ⟨hMem, hWindow⟩
  rw [← hWindow] at hCalendar
  have hBooks := (hInv T).counters _ counters hLookup c hMem hCalendar
  rw [hSeeded] at hBooks
  rcases hBooks with ⟨_, read, hRead, hKept⟩
  exact ⟨c, read, hFind, hSpent, hRead, hKept⟩

end Runs

--
-- A Lost Cost
--

def dailyBudget : Applicable where
  origin := .workspace
  scope := .workspace
  endUser := none
  budget := ⟨1000000, .daily, .hard, [], []⟩

def sampleConfig : BudgetConfig where
  maxEndUsers := 10
  backoff := 0

/- One tenant's counter is seeded, and prepared for the next day. -/
def nextDay (events : List Event) : List (TenantId × Event) :=
  let first : List Event :=
    [.prepare dailyBudget 0 0, .readBaseline 0 0 [], .seed 0, .prepare dailyBudget 86400 0]
  (first ++ events).map (fun e => (.zero 16, e))

/-
  The counter of a day that has ended: a cost recorded between the next day's read and its seed is
  passed over, and the seed stores the read alone.
-/
def rollover : List (TenantId × Event) :=
  nextDay [.readBaseline 0 0 [], .record none none none 5 86400 (fun _ => true), .seed 0]

def sampleStep :=
  stepAt (step String.length Sha256.digest sampleConfig)

/- What a check at `now` is told, and what it should be. -/
def toldAndDue (now : DateTime) (s : TenantId → State) : Prep × Option Nat :=
  let own := s (.zero 16)
  ((own.counters.prepare String.length sampleConfig dailyBudget now 0).1,
    (own.counters.find? ⟨.workspace, none⟩ .daily).bind (fun c =>
      c.seedRead.map (fun read =>
        read.total +
          spentSince own.log ⟨.workspace, none⟩ .daily (periodKey .daily now) read.recorded)))

theorem rollover_loses :
    ∃ s,
      Run (fun s e t => sampleStep s e = some t) (fun _ => {}) rollover s ∧
        toldAndDue 86400 s = (.ready 0, some 5) :=
  Run.eval (by decide)

/- The same with the cost recorded after the seed. -/
def rolloverInOrder : List (TenantId × Event) :=
  nextDay [.readBaseline 0 7 [], .seed 0, .record none none none 5 86400 (fun _ => true)]

theorem rolloverInOrder_kept :
    ∃ s,
      Run
          (fun s e t => covers String.length (s e.1) e.2 ∧ sampleStep s e = some t)
          (fun _ => {}) rolloverInOrder s ∧
        ∃ c read,
          (s (.zero 16)).counters.find? ⟨.workspace, none⟩ .daily =
            some c ∧
            12 = c.micro ∧
            c.seedRead = some read ∧
            Kept (s (.zero 16)).log ⟨.workspace, none⟩ c (periodKey .daily 86400) read := by
  have hEnd :
      ∃ s,
        Run (fun s e t => covers String.length (s e.1) e.2 ∧ sampleStep s e = some t)
            (fun _ => {}) rolloverInOrder s ∧
          (toldAndDue 86400 s).1 = .ready 12 :=
    Run.eval_guard (by decide)
  rcases hEnd with ⟨s, hRun, hTold⟩
  exact ⟨s, hRun, run_kept hRun (.zero 16) dailyBudget rfl 86400 0 12 hTold⟩

end Spending

end Tracelane.Gateway
