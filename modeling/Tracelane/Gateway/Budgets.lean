import Mathlib.Data.List.Sort
import Tracelane.Gateway.Calendar
import Tracelane.Gateway.Limits

/-
  Budgets in micro-USD: a counter per subject and window, seeded once a period from the durable
  store, to which the cost of each recorded request is added.

  A subject is a workspace, a project, or a key, or an end user of one of them, known by the hash of
  their id.
-/

namespace Tracelane.Gateway

--
-- Budgets
--

inductive Origin where
| project
| key
| workspace
deriving DecidableEq

def Origin.asStr : Origin → String
| .project => "project"
| .key => "key"
| .workspace => "workspace"

inductive BudgetMode where
| hard
| soft
deriving DecidableEq

structure Budget where
  microUsd : Nat
  window : BudgetWindow
  mode : BudgetMode
  alertAtPercent : List Nat
  alertAtMicroUsd : List Nat
deriving DecidableEq

/- A micro-USD amount in USD. -/
def toUsd (micro : Nat) : ℚ :=
  micro / 1000000

/- The shortest exact rendering of a micro-USD amount. -/
def fmtUsd (micro : Nat) : String :=
  let whole := micro / 1000000
  let frac := micro % 1000000
  if frac = 0 then toString whole
  else
    let digits := (toString frac).toList
    let padded := List.replicate (6 - digits.length) '0' ++ digits
    let trimmed := (padded.reverse.dropWhile (fun c => c = '0')).reverse
    toString whole ++ "." ++ String.ofList trimmed

/- Of neighbours with one label the first stays. -/
def dedupByLabel : List (Nat × String) → List (Nat × String)
| [] => []
| x :: xs =>
    match dedupByLabel xs with
    | [] => [x]
    | y :: ys => if y.2 = x.2 then x :: ys else x :: y :: ys

/- Each amount to alert at with its label, ascending. -/
def Budget.thresholds (b : Budget) : List (Nat × String) :=
  let pcts :=
    if b.mode = .soft ∧ ¬ 100 ∈ b.alertAtPercent then
      b.alertAtPercent ++ [100]
    else
      b.alertAtPercent
  let byPercent := pcts.map (fun p => (b.microUsd * p / 100 % u64Size, toString p ++ "%"))
  let byAmount := b.alertAtMicroUsd.map (fun m => (m, "$" ++ fmtUsd m))
  dedupByLabel ((byPercent ++ byAmount).insertionSort (fun x y => x.1 ≤ y.1))

example :
    (Budget.thresholds ⟨10000000, .monthly, .soft, [80], [12250000]⟩) =
      [(8000000, "80%"), (10000000, "100%"), (12250000, "$12.25")] := by
  decide

/- A budget that applies to a request. -/
structure Applicable where
  origin : Origin
  scope : Scope
  endUser : Option String
  budget : Budget
deriving DecidableEq

--
-- Counters
--

def saturatingAdd (a b : Nat) : Nat :=
  min (a + b) u64Max

/- A cost passed to `record`, and when. -/
structure Spend where
  now : DateTime
  cost : Nat
deriving DecidableEq

/-
  A baseline as it was read: the durable spend, and how many
  costs had been recorded when the snapshot was taken.
-/
structure Snapshot where
  total : Nat
  recorded : Nat
deriving DecidableEq

/- The period a rolling counter is seeded for, once. -/
def rollingPeriod : Nat := u64Max

/-
  `seedRead` and `added` say where `micro` came from: the snapshot that seeded it and the costs
  added since it last held a baseline alone.  No function reads them.
-/
structure Counter where
  origin : Origin
  spec : Budget
  endUser : Option String
  seededFor : Option Nat
  micro : Nat
  hours : List (Nat × Nat)
  fired : List (String × Nat)
  seedFailedAt : Option Instant
  lastUsed : Instant
  seedRead : Option Snapshot
  added : List Spend
deriving DecidableEq

namespace Counter

def new (a : Applicable) (now : Instant) : Counter where
  origin := a.origin
  spec := a.budget
  endUser := a.endUser
  seededFor := none
  micro := 0
  hours := []
  fired := []
  seedFailedAt := none
  lastUsed := now
  seedRead := none
  added := []

/- Drop the hours a rolling window has left behind. -/
def expire (c : Counter) (now : DateTime) : Counter :=
  match c.spec.window.rollingHours with
  | some n =>
      let first := hourIndex now - (n - 1)
      { c with hours := c.hours.dropWhile (fun h => h.1 < first) }
  | none => c

/- The spend of the window, its old hours dropped. -/
def spent (c : Counter) (now : DateTime) : Nat :=
  match c.spec.window.rollingHours with
  | some _ => ((c.expire now).hours.map Prod.snd).sum % u64Size
  | none => c.micro

/- Add to the last hour, or start the next. -/
def addHour (hours : List (Nat × Nat)) (h micro : Nat) : List (Nat × Nat) :=
  match hours.getLast? with
  | some (last, m) =>
      if last = h then
        hours.dropLast ++ [(last, saturatingAdd m micro)]
      else
        hours ++ [(h, micro)]
  | none => [(h, micro)]

def add (c : Counter) (now : DateTime) (micro : Nat) : Counter :=
  match c.spec.window.rollingHours with
  | some _ => { c with hours := addHour c.hours (hourIndex now) micro }
  | none =>
      { c with
        micro := saturatingAdd c.micro micro
        added := c.added ++ [⟨now, micro⟩] }

/- Current for the period of `now`, or never seeded yet. -/
def current (c : Counter) (now : DateTime) : Bool :=
  match c.seededFor with
  | none => true
  | some p => p = rollingPeriod || p = periodKey c.spec.window now

end Counter

/- What a budget check needs before it can decide. -/
inductive Prep where
| ready (spent : Nat)
| needsSeed (period : Nat)
| backoff
| capacity
deriving DecidableEq

/- A durable baseline: a total, or the totals of hours. -/
inductive Seed where
| total (snapshot : Snapshot)
| hours (hours : List (Nat × Nat))
deriving DecidableEq

/- Write the entry of an hour, hours ascending. -/
def upsertHour (h : Nat) (f : Option Nat → Nat) :
    List (Nat × Nat) → List (Nat × Nat)
| [] => [(h, f none)]
| (h', m) :: rest =>
    if h < h' then (h, f none) :: (h', m) :: rest
    else if h = h' then (h, f (some m)) :: rest
    else (h', m) :: upsertHour h f rest

def mergeHours (held read : List (Nat × Nat)) : List (Nat × Nat) :=
  let merged := held.foldl (fun m e => upsertHour e.1 (fun _ => e.2) m) []
  read.foldl
    (fun m e => upsertHour e.1 (fun old => saturatingAdd (old.getD 0) e.2) m)
    merged

/-
  Apply a baseline once a period.  The first adds to what was
  recorded while it was read; a later one takes its place.
-/
def Counter.applySeed (c : Counter) (period : Nat) (seed : Seed) : Counter :=
  let c := { c with seedFailedAt := none }
  if c.seededFor = some period then c
  else
    match seed with
    | .total r =>
        match c.seededFor with
        | some _ =>
            { c with
              micro := r.total
              fired := []
              seededFor := some period
              seedRead := some r
              added := [] }
        | none =>
            { c with
              micro := saturatingAdd c.micro r.total
              seededFor := some period
              seedRead := some r }
    | .hours read =>
        { c with
          hours := mergeHours c.hours read
          seededFor := some period }

/- Take a request's view of the counter's budget. -/
def Counter.refresh (c : Counter) (a : Applicable) (instant : Instant) : Counter :=
  { c with
    spec := a.budget
    origin := a.origin
    lastUsed := instant }

/- Whether the counter can decide now. -/
def Counter.decideNow (c : Counter) (backoff : Duration) (now : DateTime)
    (instant : Instant) : Prep × Counter :=
  if c.seedFailedAt.any (fun t => saturatingDurationSince instant t < backoff) then
    (.backoff, c)
  else
    match c.spec.window.rollingHours with
    | some _ =>
        if c.seededFor.isNone then (.needsSeed rollingPeriod, c)
        else (.ready (c.spent now), c.expire now)
    | none =>
        let key := periodKey c.spec.window now
        if c.seededFor = some key then (.ready c.micro, c)
        else (.needsSeed key, c)

variable (c : Counter) {now : DateTime}

theorem Counter.decideNow_spec (backoff : Duration) {instant : Instant} :
    (c.decideNow backoff now instant).2.spec = c.spec := by
  unfold Counter.decideNow
  split
  · rfl
  · split
    · split
      · rfl
      · unfold Counter.expire
        split <;> rfl
    · simp only
      split <;> rfl

theorem Counter.decideNow_ne_capacity (backoff : Duration) {instant : Instant} :
    (c.decideNow backoff now instant).1 ≠ .capacity := by
  unfold Counter.decideNow
  split
  · simp
  · split
    · split <;> simp
    · simp only
      split <;> simp

theorem Counter.applySeed_spec (period : Nat) (seed : Seed) :
    (c.applySeed period seed).spec = c.spec := by
  unfold Counter.applySeed
  simp only
  split
  · rfl
  · split
    · split <;> rfl
    · rfl

theorem Counter.expire_spec :
    (c.expire now).spec = c.spec := by
  unfold Counter.expire
  split <;> rfl

--
-- A Tenant's Counters
--

structure Slot where
  scope : Scope
  endUser : Option Nat
deriving DecidableEq

/- A grouped end-user read; `recorded` as in `Snapshot`. -/
structure EndUserSeed where
  byUser : HashTable String Nat := ∅
  truncated : Bool := false
  recorded : Nat := 0

structure SeedKey where
  scope : Scope
  window : BudgetWindow
  period : Nat
deriving DecidableEq

structure TenantCounters where
  slots : HashTable Slot (List Counter) := ∅
  endUsers : Nat := 0
  euSeeds : HashTable SeedKey EndUserSeed := ∅

structure BudgetConfig where
  maxEndUsers : Nat
  backoff : Duration

/- How long an end user's counters live unused. -/
def endUserIdle : Duration := Duration.fromSecs 3600

/- Put a counter in its window's place, or at the end. -/
def putWindow (c : Counter) : List Counter → List Counter
| [] => [c]
| d :: ds =>
    if d.spec.window = c.spec.window then c :: ds
    else d :: putWindow c ds

def findWindow (window : BudgetWindow) (counters : List Counter) : Option Counter :=
  counters.find? (fun c => c.spec.window = window)

section

variable (endUserHash : String → Nat)

def slotOf (a : Applicable) : Slot where
  scope := a.scope
  endUser := a.endUser.map endUserHash

end

namespace TenantCounters

/- Whether an eviction leaves a slot. -/
def keepsSlot (instant : Instant) (idle : Duration) (slot : Slot)
    (counters : List Counter) : Bool :=
  slot.endUser.isNone ||
    counters.any (fun c => saturatingDurationSince instant c.lastUsed < idle)

def evictIdleEndUsers (tc : TenantCounters) (instant : Instant)
    (idle : Duration) : TenantCounters :=
  let freed := tc.slots.retain (fun s v => !keepsSlot instant idle s v)
  { tc with
    slots := tc.slots.retain (keepsSlot instant idle)
    endUsers := tc.endUsers - freed.entries.length }

variable (endUserHash : String → Nat)

def find? (tc : TenantCounters) (slot : Slot) (window : BudgetWindow) : Option Counter :=
  (tc.slots.lookup slot).bind (findWindow window)

/- What the counter for `a`, old or new, says. -/
def consult (cfg : BudgetConfig) (counters : List Counter) (a : Applicable)
    (now : DateTime) (instant : Instant) : Prep × Counter :=
  let c := (findWindow a.budget.window counters).getD (.new a instant)
  (c.refresh a instant).decideNow cfg.backoff now instant

/- The counter is an end user's and is not there yet. -/
def isNewEndUser (tc : TenantCounters) (a : Applicable) : Bool :=
  let slot := slotOf endUserHash a
  (tc.find? slot a.budget.window).isNone && slot.endUser.isSome

/- Make room for a counter that is not there yet. -/
def makeRoom (cfg : BudgetConfig) (tc : TenantCounters) (a : Applicable)
    (instant : Instant) : TenantCounters :=
  if tc.isNewEndUser endUserHash a &&
      cfg.maxEndUsers ≤ tc.endUsers then
    tc.evictIdleEndUsers instant endUserIdle
  else
    tc

/- Find or create the counter for `a`, refresh its budget, and say whether it can decide now. -/
def prepare (cfg : BudgetConfig) (tc : TenantCounters) (a : Applicable)
    (now : DateTime) (instant : Instant) : Prep × TenantCounters :=
  let slot := slotOf endUserHash a
  let isNew := tc.isNewEndUser endUserHash a
  let room := tc.makeRoom endUserHash cfg a instant
  if isNew && cfg.maxEndUsers ≤ room.endUsers then
    (.capacity, room)
  else
    let counters := (room.slots.lookup slot).getD []
    let said := consult cfg counters a now instant
    (said.1,
      { room with
        endUsers :=
          if isNew then room.endUsers + 1 else room.endUsers
        slots :=
          room.slots.insert slot (putWindow said.2 counters) })

/- Write the counter of `a`, where there is one. -/
def modify (tc : TenantCounters) (a : Applicable) (f : Counter → Counter) : TenantCounters :=
  let slot := slotOf endUserHash a
  match tc.slots.lookup slot with
  | none => tc
  | some counters =>
      match findWindow a.budget.window counters with
      | none => tc
      | some c =>
          { tc with
            slots :=
              tc.slots.insert slot (putWindow (f c) counters) }

/- Apply a baseline; the spend after it, if it was applied. -/
def seed (tc : TenantCounters) (a : Applicable) (period : Nat) (seed : Seed)
    (now : DateTime) : Option Nat × TenantCounters :=
  ((tc.find? (slotOf endUserHash a) a.budget.window).map
      (fun c => (c.applySeed period seed).spent now),
    tc.modify endUserHash a (fun c => (c.applySeed period seed).expire now))

/- A baseline read failed: the next one waits. -/
def seedFailed (tc : TenantCounters) (a : Applicable) (instant : Instant) : TenantCounters :=
  tc.modify endUserHash a (fun c => { c with seedFailedAt := some instant })

def endUserSeed (tc : TenantCounters) (scope : Scope) (window : BudgetWindow)
    (period : Nat) : Option EndUserSeed :=
  tc.euSeeds.lookup ⟨scope, window, period⟩

/- Keep a grouped read, in place of an older period's. -/
def storeEndUserSeed (tc : TenantCounters) (scope : Scope) (window : BudgetWindow) (period : Nat)
    (seed : EndUserSeed) : TenantCounters :=
  { tc with
    euSeeds :=
      AList.insert ⟨scope, window, period⟩ seed
        (tc.euSeeds.retain (fun k _ => !(k.scope = scope && k.window = window))) }

end TenantCounters

--
-- Recording
--

structure CrossingPayload where
  policy : Origin
  scope : Scope
  subjectId : Option Uuid
  endUser : Option String
  window : BudgetWindow
  mode : BudgetMode
  threshold : String
  budgetUsd : ℚ
  spentUsd : ℚ
  period : Nat
  resetsAt : Option DateTime
  crossedAt : DateTime

/- A threshold crossed. -/
structure Crossing where
  tenant : TenantId
  dedupKey : String
  payload : CrossingPayload

def subjectId : Scope → Option Uuid
| .workspace => none
| .project id => some id
| .key id => some id

section Recording

variable (endUserHash : String → Nat) (sha256 : Bytes → Hash)

/- A short token for an end-user id inside a dedup key. -/
def endUserToken (id : String) : String :=
  hexEncode ((sha256 (utf8 id)).bytes.take 8)

def crossingFor (tenant : TenantId) (scope : Scope) (c : Counter)
    (label : String) (period spent : Nat) (now : DateTime) : Crossing :=
  let base := ((subjectId scope).map tenantText).getD "workspace"
  let subject :=
    match c.endUser with
    | some u => base ++ ":eu:" ++ endUserToken sha256 u
    | none => base
  { tenant := tenant
    dedupKey :=
      "budget:" ++ c.origin.asStr ++ ":" ++ subject ++ ":" ++
        c.spec.window.asStr ++ ":" ++ label ++ ":" ++
        toString period
    payload :=
      { policy := c.origin
        scope := scope
        subjectId := subjectId scope
        endUser := c.endUser
        window := c.spec.window
        mode := c.spec.mode
        threshold := label
        budgetUsd := toUsd c.spec.microUsd
        spentUsd := toUsd spent
        period := period
        resetsAt := resetsAt c.spec.window now
        crossedAt := now } }

/- Offer a threshold; it is fired if the sink takes it. -/
def offerThreshold (tenant : TenantId) (scope : Scope) (after period : Nat)
    (now : DateTime) (sink : Crossing → Bool) (c : Counter) (threshold : Nat × String) : Counter :=
  if after < threshold.1 ∨ (threshold.2, period) ∈ c.fired then c
  else if sink (crossingFor sha256 tenant scope c threshold.2 period after now) then
    { c with fired := (threshold.2, period) :: c.fired }
  else
    c

/- What a sink was offered and whether it took it, last first. -/
abbrev Counter.Offers := List (Crossing × Bool)

/- `offerThreshold` to a sink that remembers. -/
def Counter.offerLogged (tenant : TenantId) (scope : Scope)
    (sink : Offers → Crossing → Bool) (after period : Nat) (now : DateTime)
    (s : Counter × Offers) (threshold : Nat × String) : Counter × Offers :=
  let crossing := crossingFor sha256 tenant scope s.1 threshold.2 period after now
  (offerThreshold sha256 tenant scope after period now (sink s.2) s.1 threshold,
    if after < threshold.1 ∨ (threshold.2, period) ∈ s.1.fired then
      s.2
    else (crossing, sink s.2 crossing) :: s.2)

/- Add a cost to a counter that is current for it. -/
def Counter.record (tenant : TenantId) (scope : Scope) (cost : Nat)
    (now : DateTime) (sink : Crossing → Bool) (c : Counter) : Counter :=
  if !c.current now then c
  else
    let after := saturatingAdd (c.spent now) cost
    c.spec.thresholds.foldl
      (offerThreshold sha256 tenant scope after (periodKey c.spec.window now) now sink)
      ((c.expire now).add now cost)

/- The slots a request's cost belongs to. -/
def recordSlots (project key : Option Uuid) (endUser : Option String) : List Slot :=
  let scopes := .workspace :: (project.map Scope.project).toList ++ (key.map Scope.key).toList
  let users : List (Option Nat) :=
    match endUser with
    | some id => [none, some (endUserHash id)]
    | none => [none]
  scopes.flatMap (fun scope => users.map (fun user => ⟨scope, user⟩))

def TenantCounters.recordSlot (tenant : TenantId) (cost : Nat) (now : DateTime)
    (sink : Crossing → Bool) (tc : TenantCounters) (slot : Slot) : TenantCounters :=
  match tc.slots.lookup slot with
  | none => tc
  | some counters =>
      { tc with
        slots :=
          tc.slots.insert slot
            (counters.map
              (Counter.record sha256 tenant slot.scope cost now sink)) }

/- Add a cost to every counter it belongs to. -/
def TenantCounters.record (tc : TenantCounters) (tenant : TenantId)
    (project key : Option Uuid) (endUser : Option String) (cost : Nat)
    (now : DateTime) (sink : Crossing → Bool) : TenantCounters :=
  if cost = 0 then tc
  else
    (recordSlots endUserHash project key endUser).foldl (recordSlot sha256 tenant cost now sink) tc

end Recording

end Tracelane.Gateway
