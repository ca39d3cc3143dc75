import Mathlib.Data.List.Dedup
import Tracelane.Gateway.Limits

/-
  Circuit breakers: one for each credential of a provider's region, and a provider-wide tier derived
  from the marks of those that opened on evidence others share.

  The state of a breaker lives in a cell that its map entry points to, so that a call may hold a
  cell the map has let go.  Each function below is one section under a lock; a call is a sequence of
  sections.
-/

namespace Tracelane.Gateway

--
-- Configuration
--

/- The reference table's block, as it parses. -/
structure BreakerConfig where
  windowSize : Nat
  failureRateThreshold : ℚ
  consecutiveFailureThreshold : Nat
  cooldown : Duration
  halfOpenMaxProbes : Nat
  providerMinOpenCredentials : Nat
  maxEntries : Nat
  idleEvict : Duration
  probeLost : Duration
  rate_pos : 0 < failureRateThreshold := by decide
  consecutive_pos : 0 < consecutiveFailureThreshold := by decide
  credentials_pos : 0 < providerMinOpenCredentials := by decide

inductive Credential where
| env
| byok (fingerprint : ByteArr 8)
deriving DecidableEq

abbrev OwnerTag := ByteArr 16

/- The environment's credentials have no owner. -/
def Credential.owner (ownerOf : ByteArr 8 → OwnerTag) :
    Credential → Option OwnerTag
| .env => none
| .byok fingerprint => some (ownerOf fingerprint)

/- A workspace's override of its own breakers. -/
structure Tuning where
  consecutiveFailureThreshold : Nat
  cooldown : Duration
deriving DecidableEq

/-
  What a call site hands the breaker.  Clones share what they
  observed, which is kept under `handle`.
-/
structure Cred where
  id : Credential
  owner : Option OwnerTag
  tuning : Option Tuning
  deadlineScoped : Bool
  handle : Nat
deriving DecidableEq

/- The owner's tag is the one that the credential was made with. -/
def Cred.OwnedBy (ownerOf : ByteArr 8 → OwnerTag) (cred : Cred) : Prop :=
  cred.owner = cred.id.owner ownerOf

def Cred.isolated (cred : Cred) : Bool :=
  cred.tuning.isSome || cred.deadlineScoped

inductive Outcome where
| success
| upstreamFault
| credentialFault
deriving DecidableEq

inductive CircuitState where
| closed
| opened
| halfOpen
deriving DecidableEq

structure Key where
  provider : String
  region : String
  cred : Credential
deriving DecidableEq

--
-- Breakers
--

/- A call to `record`. -/
structure Call where
  key : Key
  tuning : Option Tuning
  deadlineScoped : Bool
  outcome : Outcome
deriving DecidableEq

namespace Call

def success (c : Call) : Bool :=
  c.outcome = .success

/- Evidence about the workspace rather than the provider. -/
def isolated (c : Call) : Bool :=
  (c.tuning.isSome || c.deadlineScoped) || c.outcome = .credentialFault

/- A fault of the upstream, seen under no override. -/
def Clean (c : Call) : Prop :=
  c.outcome = .upstreamFault ∧ c.tuning = none ∧ c.deadlineScoped = false

end Call

/-
  `windowCalls` and `streakCalls` are the calls that `window` and `consecutiveFailures` are about,
  and `rules` the failed calls behind each rule that opened the present period.  No function reads
  them.
-/
structure BreakerState where
  state : CircuitState := .closed
  window : List Bool := []
  windowIsolated : List Bool := []
  consecutiveFailures : Nat := 0
  streakIsolated : Bool := false
  openShared : Bool := false
  openedAt : Option Instant := none
  halfOpenProbes : Nat := 0
  halfOpenSuccesses : Nat := 0
  probeGrantedAt : Option Instant := none
  windowCalls : List Call := []
  streakCalls : List Call := []
  rules : List (List Call) := []

/- `key` is the one it was created for; it is only logged. -/
structure Entry where
  key : Key := ⟨"", "", .env⟩
  retired : Bool := false
  st : BreakerState := {}
  owner : Option OwnerTag := none
  tuning : Option Tuning := none
  lastUsed : Instant := 0

/- An open credential, counted until it expires. -/
structure Mark where
  owner : Option OwnerTag
  expires : Instant
deriving DecidableEq

/- A breaker that went open, and the calls behind it. -/
structure Trip where
  key : Key
  owner : Option OwnerTag
  openedAt : Instant
  rules : List (List Call)

/- `calls` and `trips` only log what happened. -/
structure CircuitBreaker where
  cells : Nat → Entry := fun _ => {}
  nextCell : Nat := 0
  breakers : HashTable Key Nat := ∅
  marks : HashTable Key Mark := ∅
  observed : HashTable Nat (Key × Nat) := ∅
  calls : List Call := []
  trips : List Trip := []

namespace BreakerState

def failureRate (s : BreakerState) : ℚ :=
  if s.window.isEmpty then 0
  else
    (s.window.filter (fun ok => !ok)).length / s.window.length

/- The failures among some calls. -/
def failures (calls : List Call) : List Call :=
  calls.filter (fun c => !c.success)

/- Push an outcome, keeping the last `windowSize` of them. -/
def pushWindow (s : BreakerState) (windowSize : Nat) (c : Call) : BreakerState :=
  let excess := s.window.length + 1 - windowSize
  { s with
    window := (s.window ++ [c.success]).drop excess
    windowIsolated := (s.windowIsolated ++ [c.isolated]).drop excess
    windowCalls := (s.windowCalls ++ [c]).drop excess }

/- Count an outcome into the streak of failures. -/
def pushStreak (s : BreakerState) (c : Call) : BreakerState :=
  if c.success then
    { s with
      consecutiveFailures := 0
      streakIsolated := false
      streakCalls := [] }
  else
    { s with
      consecutiveFailures := s.consecutiveFailures + 1
      streakIsolated := s.streakIsolated || c.isolated
      streakCalls := s.streakCalls ++ [c] }

/- Enough probes succeeded. -/
def recover (s : BreakerState) : BreakerState :=
  { s with
    state := .closed
    window := []
    windowIsolated := []
    consecutiveFailures := 0
    streakIsolated := false
    openShared := false
    halfOpenProbes := 0
    halfOpenSuccesses := 0
    probeGrantedAt := none
    windowCalls := []
    streakCalls := []
    rules := [] }

/- A probe failed. -/
def reopen (s : BreakerState) (c : Call) (now : Instant) : BreakerState :=
  { s with
    openShared := s.openShared && !c.isolated
    state := .opened
    openedAt := some now
    halfOpenProbes := 0
    halfOpenSuccesses := 0
    probeGrantedAt := none
    rules := s.rules.map (fun rule => rule ++ [c]) }

def windowClean (s : BreakerState) : Bool :=
  !((s.window.zip s.windowIsolated).any (fun x => !x.1 && x.2))

/- A closed breaker opens if one of its two rules fires. -/
def trip (s : BreakerState) (cfg : BreakerConfig) (threshold : Nat) (c : Call)
    (now : Instant) : Option BreakerState :=
  let windowFull : Bool := cfg.windowSize ≤ s.window.length
  let byStreak : Bool := threshold ≤ s.consecutiveFailures
  let byRate : Bool := windowFull && cfg.failureRateThreshold ≤ s.failureRate
  if byStreak || byRate then
    some
      { s with
        openShared := !c.isolated && ((byStreak && !s.streakIsolated) || (byRate && s.windowClean))
        state := .opened
        openedAt := some now
        rules :=
          (if byStreak then [s.streakCalls] else []) ++
            if byRate then [failures s.windowCalls] else [] }
  else
    none

/- The state after an outcome, and whether it opened the breaker. -/
def record (s : BreakerState) (cfg : BreakerConfig) (threshold : Nat) (c : Call)
    (now : Instant) : Bool × BreakerState :=
  let s := (s.pushWindow cfg.windowSize c).pushStreak c
  match s.state with
  | .halfOpen =>
      if c.success then
        let s := { s with halfOpenSuccesses := s.halfOpenSuccesses + 1 }
        if cfg.halfOpenMaxProbes ≤ s.halfOpenSuccesses then
          (false, s.recover)
        else
          (false, s)
      else
        (true, s.reopen c now)
  | .closed =>
      match s.trip cfg threshold c now with
      | some s => (true, s)
      | none => (false, s)
  | .opened => (false, s)

/- Whether a request may go ahead, the state after, and whether the breaker left its open period. -/
def allow (s : BreakerState) (cfg : BreakerConfig) (cooldown : Duration)
    (now : Instant) : Bool × Bool × BreakerState :=
  match s.state with
  | .closed => (true, false, s)
  | .halfOpen =>
      if s.halfOpenProbes < cfg.halfOpenMaxProbes then
        (true, false,
          { s with
            halfOpenProbes := s.halfOpenProbes + 1
            probeGrantedAt := some now })
      else if s.probeGrantedAt.all (fun t => cfg.probeLost ≤ saturatingDurationSince now t) then
        (true, false,
          { s with
            halfOpenProbes := 1
            probeGrantedAt := some now })
      else
        (false, false, s)
  | .opened =>
      if s.openedAt.all (fun t => cooldown ≤ saturatingDurationSince now t) then
        (true, true,
          { s with
            state := .halfOpen
            halfOpenProbes := 1
            halfOpenSuccesses := 0
            probeGrantedAt := some now })
      else
        (false, false, s)

end BreakerState

def BreakerConfig.consecutiveThreshold (cfg : BreakerConfig) (tuning : Option Tuning) : Nat :=
  match tuning with
  | some t => t.consecutiveFailureThreshold
  | none => cfg.consecutiveFailureThreshold

def BreakerConfig.cooldownOf (cfg : BreakerConfig) (tuning : Option Tuning) : Duration :=
  match tuning with
  | some t => t.cooldown
  | none => cfg.cooldown

def Entry.evictable (cfg : BreakerConfig) (e : Entry) (now : Instant) : Bool :=
  let idle : Bool := cfg.idleEvict ≤ saturatingDurationSince now e.lastUsed
  match e.st.state with
  | .closed => idle
  | .opened =>
      idle && e.st.openedAt.all (fun t => cfg.cooldownOf e.tuning ≤ saturatingDurationSince now t)
  | .halfOpen => idle

--
-- Sections
--

namespace CircuitBreaker

variable (cfg : BreakerConfig)

def inRegion (provider region : String) (key : Key) : Bool :=
  key.provider = provider && key.region = region

/- Drop the expired marks of a provider's region. -/
def prune (b : CircuitBreaker) (provider region : String) (now : Instant) : CircuitBreaker :=
  { b with
    marks :=
      b.marks.retain (fun key mark => !inRegion provider region key || now < mark.expires) }

/- The owners with a mark in a provider's region. -/
def openOwners (b : CircuitBreaker) (provider region : String) : List (Option OwnerTag) :=
  ((b.marks.entries.filter (fun e => inRegion provider region e.1)).map (fun e => e.2.owner)).dedup

/- Owners that are open now; an owner counts once. -/
def providerOpenCount (b : CircuitBreaker) (provider region : String)
    (now : Instant) : Nat × CircuitBreaker :=
  let b := b.prune provider region now
  ((b.openOwners provider region).length, b)

def markOpen (b : CircuitBreaker) (key : Key) (mark : Mark) : CircuitBreaker :=
  { b with marks := b.marks.insert key mark }

def unmarkOpen (b : CircuitBreaker) (key : Key) : CircuitBreaker :=
  { b with marks := b.marks.erase key }

/- Take keys off the map: retire their cells and unmark. -/
def remove (b : CircuitBreaker) (gone : Key → Nat → Bool) : CircuitBreaker :=
  let dropped := b.breakers.entries.filter (fun e => gone e.1 e.2)
  { b with
    cells := fun id =>
      if dropped.any (fun e => e.2 = id) then
        { b.cells id with retired := true }
      else
        b.cells id
    breakers := b.breakers.retain (fun key id => !gone key id)
    marks :=
      b.marks.retain (fun key _ => !dropped.any (fun e => e.1 = key)) }

/- Evict every evictable entry; how many went. -/
def sweepIdle (b : CircuitBreaker) (now : Instant) : Nat × CircuitBreaker :=
  let swept := b.remove (fun _ id => (b.cells id).evictable cfg now)
  (b.breakers.entries.length - swept.breakers.entries.length,
    { swept with
      marks :=
        swept.marks.retain (fun _ mark => now < mark.expires) })

/- Reset every breaker of one credential. -/
def resetCredential (b : CircuitBreaker) (cred : Credential) : CircuitBreaker :=
  b.remove (fun key _ => key.cred = cred)

/- A new cell for a key. -/
def create (b : CircuitBreaker) (key : Key) (cred : Cred) (now : Instant) : CircuitBreaker :=
  { b with
    cells :=
      Function.update b.cells b.nextCell
        { key := key
          owner := cred.owner
          tuning := cred.tuning
          lastUsed := now }
    nextCell := b.nextCell + 1
    breakers := b.breakers.insert key b.nextCell }

def sweepIfFull (b : CircuitBreaker) (now : Instant) : CircuitBreaker :=
  if cfg.maxEntries ≤ b.breakers.entries.length then
    (b.sweepIdle cfg now).2
  else
    b

/-
  The cell of a key, created where it is missing, unless the
  map is full of entries that cannot be evicted.
-/
def entry (b : CircuitBreaker) (key : Key) (cred : Cred)
    (now : Instant) : Option Nat × CircuitBreaker :=
  match b.breakers.lookup key with
  | some id => (some id, b)
  | none =>
      let swept := b.sweepIfFull cfg now
      if cfg.maxEntries ≤ swept.breakers.entries.length then
        (none, swept)
      else
        (some swept.nextCell, swept.create key cred now)

/- Remember the cell a request was let through by. -/
def observe (b : CircuitBreaker) (handle : Nat) (key : Key) (id : Nat) : CircuitBreaker :=
  { b with observed := b.observed.insert handle (key, id) }

/- The cell a request was let through by, for its key. -/
def seenCell (b : CircuitBreaker) (handle : Nat) (key : Key) : Option Nat :=
  match b.observed.lookup handle with
  | some (seenKey, id) => if seenKey = key then some id else none
  | none => none

/-
  The verdict of a cell, and whether its mark must go.  The cell may have been retired meanwhile.
-/
def allowBody (b : CircuitBreaker) (id : Nat) (cred : Cred)
    (now : Instant) : Bool × Bool × CircuitBreaker :=
  let e := b.cells id
  let said := e.st.allow cfg (cfg.cooldownOf cred.tuning) now
  (said.1, said.2.1,
    { b with
      cells :=
        Function.update b.cells id
          { e with
            lastUsed := now
            tuning := cred.tuning
            owner := e.owner.or cred.owner
            st := said.2.2 } })

/- Feed an outcome to a cell that is not retired. -/
def recordBody (b : CircuitBreaker) (id : Nat) (key : Key) (cred : Cred)
    (outcome : Outcome) (now : Instant) : CircuitBreaker :=
  let e := b.cells id
  if e.retired then b
  else
    let call : Call := ⟨key, cred.tuning, cred.deadlineScoped, outcome⟩
    let owner := cred.owner
    let said := e.st.record cfg (cfg.consecutiveThreshold cred.tuning) call now
    let b :=
      { b with
        cells :=
          Function.update b.cells id
            { e with
              lastUsed := now
              tuning := cred.tuning
              st := said.2 }
        calls := b.calls ++ [call]
        trips :=
          if said.1 then
            b.trips ++ [⟨key, owner, now, said.2.rules⟩]
          else
            b.trips }
    if said.1 && said.2.openShared then
      b.markOpen key ⟨owner, now + cfg.cooldownOf cred.tuning⟩
    else
      b

/- A failure the shared environment credential must not see. -/
def ignored (cred : Cred) (outcome : Outcome) : Bool :=
  (cred.isolated || outcome = .credentialFault) &&
    outcome ≠ .success && cred.owner.isNone

--
-- Calls
--

/- May a request with `cred` proceed? -/
def allow (b : CircuitBreaker) (provider region : String) (cred : Cred)
    (now : Instant) : Bool × CircuitBreaker :=
  let counted := b.providerOpenCount provider region now
  if cfg.providerMinOpenCredentials ≤ counted.1 then
    (false, counted.2)
  else
    let key : Key := ⟨provider, region, cred.id⟩
    match counted.2.entry cfg key cred now with
    | (none, b) => (true, b)
    | (some id, b) =>
        let said := (b.observe cred.handle key id).allowBody cfg id cred now
        (said.1,
          if said.2.1 then said.2.2.unmarkOpen key else said.2.2)

/- Would `allow` admit a call, without taking a probe? -/
def wouldAllow (b : CircuitBreaker) (provider region : String) (cred : Cred)
    (now : Instant) : Bool × CircuitBreaker :=
  let counted := b.providerOpenCount provider region now
  if cfg.providerMinOpenCredentials ≤ counted.1 then
    (false, counted.2)
  else
    match counted.2.breakers.lookup
        ⟨provider, region, cred.id⟩ with
    | none => (true, counted.2)
    | some id =>
        let st := (counted.2.cells id).st
        (match st.state with
          | .closed => true
          | .halfOpen =>
              st.halfOpenProbes < cfg.halfOpenMaxProbes ||
                st.probeGrantedAt.all (fun t => cfg.probeLost ≤ saturatingDurationSince now t)
          | .opened =>
              st.openedAt.all (fun t => cfg.cooldownOf cred.tuning ≤ saturatingDurationSince now t),
          counted.2)

/- Record the outcome of a dispatched request. -/
def record (b : CircuitBreaker) (provider region : String) (cred : Cred)
    (outcome : Outcome) (now : Instant) : CircuitBreaker :=
  if ignored cred outcome then b
  else
    let key : Key := ⟨provider, region, cred.id⟩
    match b.seenCell cred.handle key with
    | some id => b.recordBody cfg id key cred outcome now
    | none =>
        match b.entry cfg key cred now with
        | (none, b) => b
        | (some id, b) => b.recordBody cfg id key cred outcome now

end CircuitBreaker

end Tracelane.Gateway
